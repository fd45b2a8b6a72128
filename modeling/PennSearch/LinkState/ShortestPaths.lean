import PennSearch.LinkState.Freshness

/-!
# Shortest paths

What `DijkstraAlgo` leaves in `m_routeTable`, whichever of the most expensive
pairs its queue has on top. A cost below `UINT32_MAX` is the length of a shortest
path by `dijkstraTable_shortest`; here a node that can be reached at all is reached
by a path below that bound, since a shortest path meets no node twice.
-/

namespace PennSearch

open MessagePassing HopCount

theorem Confirmed.mem_right {routeMap : RouteMap} {u v : UInt32} (h : Confirmed routeMap u v) :
    v ∈ routeMap := by
  obtain ⟨-, details, -, hv, -, -⟩ := h
  exact mem_iff_exists_getElem?.mpr ⟨details, hv⟩

namespace LsNode

/-- A path that starts at a neighbour and uses links that both ends list. -/
abbrev RoutePath (n : LsNode) (length : ℕ) (hop k : UInt32) : Prop :=
  Path (· ∈ n.neighborTable) (Confirmed n.routeMap) length hop k

def knownNodes (n : LsNode) : Finset UInt32 := (n.neighborTable.keys ++ n.routeMap.keys).toFinset

variable {n : LsNode} {k hop : UInt32} {length : ℕ}

theorem mem_knownNodes : k ∈ n.knownNodes ↔ k ∈ n.neighborTable ∨ k ∈ n.routeMap := by
  simp [knownNodes]

theorem RoutePath.mem_knownNodes (hp : n.RoutePath length hop k) : k ∈ n.knownNodes := by
  rw [LsNode.mem_knownNodes]
  cases hp with
  | source hk => exact Or.inl hk
  | step _ edge => exact Or.inr edge.mem_right

variable [CostQueue]

/-- `DijkstraAlgo` returns, with an entry for the nodes that a path ends in; its cost
is the number of nodes of a shortest path, and its next hop the first of them. -/
theorem dijkstraAlgo_shortest (n : LsNode) (hknown : ∀ k ∈ n.knownNodes, k ∈ n.maps.nodeAddressMap)
    (hcard : n.knownNodes.card < 2 ^ 32 - 2) :
    ∃ table, n.dijkstraAlgo = .ok { n with routeTable := table } ∧
      ∀ k, (k ∈ table ↔ ∃ length hop, n.RoutePath length hop k) ∧
        ∀ e, table[k]? = some e →
          n.RoutePath e.cost.toNat e.nextHopNumber k ∧
            ∀ length hop, n.RoutePath length hop k → e.cost.toNat ≤ length := by
  obtain ⟨table, htable⟩ :
      ∃ table, dijkstraTable n.maps n.neighborTable n.routeMap = .ok table :=
    dijkstraTable_isOk (fun k hk => hknown k (mem_knownNodes.mpr (Or.inl hk)))
      fun k hk => hknown k (mem_knownNodes.mpr (Or.inr hk))
  refine ⟨table, dijkstraAlgo_eq_ok.mpr ⟨table, htable, rfl⟩, fun k => ?_⟩
  obtain ⟨hentry, hreached⟩ := dijkstraTable_shortest htable k
  refine ⟨?_, hentry⟩
  rw [mem_iff_exists_getElem?]
  constructor
  · rintro ⟨e, he⟩
    exact ⟨_, _, (hentry e he).1⟩
  · rintro ⟨length, hop, hp⟩
    obtain ⟨m, hop', hm, hle⟩ := hp.exists_le_card fun _ _ _ hp => RoutePath.mem_knownNodes hp
    have hmax : uint32Max.toNat = 2 ^ 32 - 1 := rfl
    exact hreached m hop' hm (by omega)

end LsNode

section Samples

attribute [local instance] CostQueue.ofList

/-- The LSPs of both ends of a link, one of which lists a node that has sent none. -/
def sampleRouteMap : RouteMap :=
  .ofList [((0 : UInt32), RouteMapDetails.mk ⟨1⟩ [1] [⟨11⟩] [1] rfl),
    (1, RouteMapDetails.mk ⟨11⟩ [0, 7] [⟨1⟩, ⟨70⟩] [1, 1] rfl)]

def sampleConnected : LsNode :=
  { sampleRouter with
    neighborTable := .ofList [((1 : UInt32), NeighborTableEntry.mk ⟨11⟩ ⟨1⟩)]
    routeMap := sampleRouteMap }

theorem sampleConnected_knownNodes : sampleConnected.knownNodes = {0, 1} := by
  decide +kernel

theorem dijkstraAlgo_shortest_sampleConnected :
    ∃ table, sampleConnected.dijkstraAlgo = .ok { sampleConnected with routeTable := table } ∧
      ∀ k, (k ∈ table ↔ ∃ length hop, sampleConnected.RoutePath length hop k) ∧
        ∀ e, table[k]? = some e →
          sampleConnected.RoutePath e.cost.toNat e.nextHopNumber k ∧
            ∀ length hop, sampleConnected.RoutePath length hop k → e.cost.toNat ≤ length := by
  refine LsNode.dijkstraAlgo_shortest sampleConnected ?_ ?_
  · intro k hk
    rw [sampleConnected_knownNodes, Finset.mem_insert, Finset.mem_singleton] at hk
    rcases hk with rfl | rfl <;> decide +kernel
  · rw [sampleConnected_knownNodes]
    decide

end Samples

end PennSearch
