import Mathlib.Algebra.Order.BigOperators.Group.List
import Mathlib.Data.Multiset.Basic
import PennSearch.Library.HopCount
import PennSearch.Library.Network
import PennSearch.LinkState.Node

/-!
# `DijkstraAlgo`

The route computation of `ls-routing-protocol.cc`. Its `std::priority_queue` is
the parameter `CostQueue`: the standard fixes that `top` is a greatest pair under
`CompareCost`, but not which one. That order has the greatest cost on top, so a
node may be expanded many times before its cost is final; the loop ends because
every push lowers a cost (`exists_dijkstraLoop`).

The invariant `Working` says that no iterator of the loop is at its end, and
that the costs are lengths of paths which only queued nodes can improve; so the
costs that the loop ends with are those of shortest paths (`isLabelling`).
-/

namespace PennSearch

open MessagePassing HopCount

/-- `CompareCost`; both pairs are converted to pairs of `int`. -/
def compareCost (p1 p2 : UInt32 × UInt32) : Bool := p1.2.toInt32 < p2.2.toInt32

/-- `std::priority_queue` with `CompareCost`; `pop` is `top` and `pop`. -/
class CostQueue where
  Queue : Type
  empty : Queue
  push : Queue → UInt32 × UInt32 → Queue
  pop : Queue → Option ((UInt32 × UInt32) × Queue)
  contents : Queue → Multiset (UInt32 × UInt32)
  contents_empty : contents empty = 0
  contents_push : ∀ q x, contents (push q x) = x ::ₘ contents q
  contents_of_pop_none : ∀ {q}, pop q = none → contents q = 0
  contents_of_pop : ∀ {q x q'}, pop q = some (x, q') → contents q = x ::ₘ contents q'
  not_compareCost : ∀ {q x q'}, pop q = some (x, q') → ∀ y ∈ contents q, compareCost x y = false

namespace CostQueue

def greatest : List (UInt32 × UInt32) → Option (UInt32 × UInt32)
  | [] => none
  | x :: q =>
      match greatest q with
      | none => some x
      | some y => if compareCost x y then some y else some x

theorem greatest_eq_none {q : List (UInt32 × UInt32)} (h : greatest q = none) : q = [] := by
  cases q with
  | nil => rfl
  | cons x q =>
      rw [greatest] at h
      split at h
      · cases h
      · split at h <;> cases h

theorem greatest_eq_some {q : List (UInt32 × UInt32)} {x : UInt32 × UInt32}
    (h : greatest q = some x) : x ∈ q ∧ ∀ y ∈ q, compareCost x y = false := by
  induction q generalizing x with
  | nil => cases h
  | cons z q ih =>
      have hself : compareCost z z = false := by simp [compareCost]
      rw [greatest] at h
      split at h
      · rename_i hnone
        cases h
        simp [greatest_eq_none hnone, hself]
      · rename_i y hy
        obtain ⟨hmem, hmax⟩ := ih hy
        split at h
        · rename_i hlt
          cases h
          refine ⟨List.mem_cons_of_mem _ hmem, ?_⟩
          intro y' hy'
          rcases List.mem_cons.mp hy' with rfl | hy'
          · simp only [compareCost, decide_eq_true_eq, decide_eq_false_iff_not] at hlt ⊢
            exact Int32.lt_asymm hlt
          · exact hmax y' hy'
        · rename_i hlt
          cases h
          refine ⟨List.mem_cons_self, ?_⟩
          intro y' hy'
          rcases List.mem_cons.mp hy' with rfl | hy'
          · exact hself
          · have hy'' := hmax y' hy'
            simp only [compareCost, decide_eq_true_eq, decide_eq_false_iff_not,
                Int32.not_lt] at hlt hy'' ⊢
            exact Int32.le_trans hy'' hlt

@[reducible] def ofList : CostQueue where
  Queue := List (UInt32 × UInt32)
  empty := []
  push q x := x :: q
  pop q := (greatest q).map fun x => (x, q.erase x)
  contents q := q
  contents_empty := rfl
  contents_push _ _ := rfl
  contents_of_pop_none {q} h := by
    rw [Option.map_eq_none_iff] at h
    rw [greatest_eq_none h]
    rfl
  contents_of_pop {q x q'} h := by
    obtain ⟨y, hy, heq⟩ := Option.map_eq_some_iff.mp h
    cases heq
    rw [Multiset.cons_coe, Multiset.coe_eq_coe]
    exact List.perm_cons_erase (greatest_eq_some hy).1
  not_compareCost {q x q'} h y hy := by
    obtain ⟨z, hz, heq⟩ := Option.map_eq_some_iff.mp h
    cases heq
    exact (greatest_eq_some hz).2 y (Multiset.mem_coe.mp hy)

end CostQueue

open CostQueue

attribute [simp] contents_empty contents_push

variable [CostQueue]

/-- The local variables of the loop: `CostMap`, `NextHopMap` and `Queue`. -/
structure DijkstraState where
  costMap : Std.ExtTreeMap UInt32 UInt32
  nextHopMap : Std.ExtTreeMap UInt32 UInt32
  queue : Queue

namespace DijkstraState

def improve (s : DijkstraState) (node cost hop : UInt32) : DijkstraState where
  costMap := s.costMap.insert node cost
  nextHopMap := s.nextHopMap.insert node hop
  queue := push s.queue (node, cost)

end DijkstraState

/-- The first loop: no node of the route map has a route yet. -/
def initialCosts (routeMap : RouteMap) : DijkstraState where
  costMap := routeMap.keys.foldl (fun m k => m.insert k uint32Max) ∅
  nextHopMap := ∅
  queue := empty

/-- The second loop: the neighbours have cost 1 and are their own next hops. -/
def dijkstraStart (neighborTable : NeighborTable) (routeMap : RouteMap) : DijkstraState :=
  neighborTable.keys.foldl (fun s k => s.improve k 1 k) (initialCosts routeMap)

def RouteMapDetails.links (details : RouteMapDetails) : List (UInt32 × UInt32) :=
  details.neighborList.zip details.neighborListCost

/-- One round of the inner loop, for one link of `currentNode`. -/
def relax (routeMap : RouteMap) (currentNode currentNeighbor : UInt32) (s : DijkstraState)
    (link : UInt32 × UInt32) : Except LsFault DijkstraState :=
  match routeMap[link.1]? with
  | none => .ok s
  | some details =>
      -- the other end has to list the link too
      if currentNode ∉ details.neighborList then .ok s
      else do
        let cost ← findIn .costMap s.costMap currentNode
        let newCost := cost + link.2
        let oldCost ← findIn .costMap s.costMap link.1
        if oldCost > newCost then .ok (s.improve link.1 newCost currentNeighbor) else .ok s

/-- What the loop does with the node that it pops. -/
def expand (routeMap : RouteMap) (s : DijkstraState) (currentNode : UInt32) :
    Except LsFault DijkstraState := do
  let currentNeighbor ← findIn .nextHopMap s.nextHopMap currentNode
  match routeMap[currentNode]? with
  | none => .ok s
  | some details => details.links.foldlM (relax routeMap currentNode currentNeighbor) s

/-- The `while` loop, for a number of rounds. -/
def dijkstraLoop (routeMap : RouteMap) : ℕ → DijkstraState → Except LsFault DijkstraState
  | 0, _ => .error .queue
  | rounds + 1, s =>
      match pop s.queue with
      | none => .ok s
      | some (top, queue) => do
          let s ← expand routeMap { s with queue := queue } top.1
          dijkstraLoop routeMap rounds s

def dijkstraRounds (neighborTable : NeighborTable) (routeMap : RouteMap) : ℕ :=
  neighborTable.size + (routeMap.size + neighborTable.size) * 2 ^ 32 + 1

def routeEntry (maps : AddressMaps) (neighborTable : NeighborTable)
    (nextHopMap : Std.ExtTreeMap UInt32 UInt32) (node cost : UInt32) :
    Except LsFault RouteTableDetails := do
  let destAddr ← findIn .nodeAddressMap maps.nodeAddressMap node
  let nextHopNumber ← findIn .nextHopMap nextHopMap node
  let nextHopAddr ← findIn .nodeAddressMap maps.nodeAddressMap nextHopNumber
  let neighbor ← findIn .neighborTable neighborTable nextHopNumber
  return ⟨destAddr, nextHopNumber, nextHopAddr, neighbor.interfaceAddr, cost⟩

/-- The last loop: the routing table from the nodes that have a cost. -/
def rebuild (entry : UInt32 → UInt32 → Except LsFault RouteTableDetails)
    (costs : List (UInt32 × UInt32)) : Except LsFault RouteTable :=
  costs.foldlM (fun table p =>
    if p.2 = uint32Max then .ok table
    else do
      let details ← entry p.1 p.2
      return table.insert p.1 details) ∅

def dijkstraTable (maps : AddressMaps) (neighborTable : NeighborTable) (routeMap : RouteMap) :
    Except LsFault RouteTable := do
  let s ← dijkstraLoop routeMap (dijkstraRounds neighborTable routeMap)
    (dijkstraStart neighborTable routeMap)
  rebuild (routeEntry maps neighborTable s.nextHopMap) s.costMap.toList

def LsNode.dijkstraAlgo (n : LsNode) : Except LsFault LsNode := do
  let routeTable ← dijkstraTable n.maps n.neighborTable n.routeMap
  return { n with routeTable := routeTable }

/-! ## The loop does not fault, and ends -/

omit [CostQueue] in
theorem ne_uint32Max_of_lt {cost old : UInt32} (h : cost < old) : cost ≠ uint32Max := by
  rintro rfl
  have hold := UInt32.toNat_lt old
  have hlt := UInt32.lt_iff_toNat_lt.mp h
  have hmax : uint32Max.toNat = 2 ^ 32 - 1 := rfl
  omega

omit [CostQueue] in
theorem toNat_add_one {c : UInt32} (h : c ≠ uint32Max) : (c + 1).toNat = c.toNat + 1 := by
  have hc := UInt32.toNat_lt c
  have hne : c.toNat ≠ 2 ^ 32 - 1 := fun heq => h (UInt32.toNat_inj.mp heq)
  rw [UInt32.toNat_add, UInt32.toNat_one, Nat.mod_eq_of_lt (by omega)]

omit [CostQueue] in
theorem mem_links {details : RouteMapDetails} {link : UInt32 × UInt32}
    (h : link ∈ details.links) : link.1 ∈ details.neighborList ∧ link.2 = 1 := by
  obtain ⟨hnode, hcost⟩ := List.of_mem_zip h
  rw [details.costs] at hcost
  exact ⟨hnode, List.eq_of_mem_replicate hcost⟩

omit [CostQueue] in
theorem exists_mem_links {details : RouteMapDetails} {v : UInt32}
    (h : v ∈ details.neighborList) : ∃ link ∈ details.links, link.1 = v := by
  have hfst : details.links.map Prod.fst = details.neighborList := by
    refine List.map_fst_zip ?_
    rw [details.costs, List.length_replicate]
  exact List.mem_map.mp (hfst ▸ h)

def Confirmed (routeMap : RouteMap) (u v : UInt32) : Prop :=
  ∃ details details', routeMap[u]? = some details ∧ routeMap[v]? = some details' ∧
    v ∈ details.neighborList ∧ u ∈ details'.neighborList

namespace DijkstraState

variable {neighborTable : NeighborTable} {routeMap : RouteMap} {s s' : DijkstraState}
  {node cost hop u next c : UInt32} {link : UInt32 × UInt32}

@[simp] theorem improve_costMap : (s.improve node cost hop).costMap = s.costMap.insert node cost :=
  rfl

@[simp] theorem improve_nextHopMap :
    (s.improve node cost hop).nextHopMap = s.nextHopMap.insert node hop := rfl

@[simp] theorem improve_contents :
    contents (s.improve node cost hop).queue = (node, cost) ::ₘ contents s.queue :=
  contents_push _ _

theorem foldl_improve (ks : List UInt32) (s : DijkstraState) :
    (ks.foldl (fun s k => s.improve k 1 k) s).costMap =
        ks.foldl (fun m k => m.insert k 1) s.costMap ∧
      (ks.foldl (fun s k => s.improve k 1 k) s).nextHopMap =
        ks.foldl (fun m k => m.insert k k) s.nextHopMap ∧
      contents (ks.foldl (fun s k => s.improve k 1 k) s).queue =
        Multiset.map (fun k => (k, 1)) ↑ks + contents s.queue := by
  induction ks generalizing s with
  | nil => simp
  | cons k ks ih =>
      obtain ⟨hcost, hhop, hqueue⟩ := ih (s.improve k 1 k)
      refine ⟨hcost, hhop, ?_⟩
      rw [List.foldl_cons, hqueue, improve_contents, ← Multiset.cons_coe, Multiset.map_cons,
        Multiset.cons_add, Multiset.add_cons]

theorem start_costMap (k : UInt32) :
    (dijkstraStart neighborTable routeMap).costMap[k]? =
      if k ∈ neighborTable then some 1 else if k ∈ routeMap then some uint32Max else none := by
  rw [dijkstraStart, (foldl_improve _ _).1, getElem?_foldl_insert (fun _ => 1)]
  simp [initialCosts, getElem?_foldl_insert (fun _ => uint32Max)]

theorem start_nextHopMap (k : UInt32) :
    (dijkstraStart neighborTable routeMap).nextHopMap[k]? =
      if k ∈ neighborTable then some k else none := by
  rw [dijkstraStart, (foldl_improve _ _).2.1, getElem?_foldl_insert (fun k => k)]
  simp [initialCosts]

theorem start_contents :
    contents (dijkstraStart neighborTable routeMap).queue =
      Multiset.map (fun k => (k, 1)) ↑neighborTable.keys := by
  rw [dijkstraStart, (foldl_improve _ _).2.2]
  simp [initialCosts]

/-- The costs are those of the nodes that are known; one that is not `UINT32_MAX`
is the length of a path that starts at the next hop, and unless its node is
queued, no link improves another one by it. The links in `pending` are exempt. -/
structure Working (neighborTable : NeighborTable) (routeMap : RouteMap)
    (pending : UInt32 → UInt32 → Prop) (s : DijkstraState) : Prop where
  mem_costMap : ∀ k, k ∈ s.costMap ↔ k ∈ neighborTable ∨ k ∈ routeMap
  exists_hop : ∀ {k c : UInt32}, s.costMap[k]? = some c → c ≠ uint32Max →
    ∃ h, s.nextHopMap[k]? = some h
  hop_mem : ∀ {k h : UInt32}, s.nextHopMap[k]? = some h → h ∈ neighborTable
  queued : ∀ x ∈ contents s.queue, ∃ c : UInt32, s.costMap[x.1]? = some c ∧ c ≠ uint32Max
  source : ∀ {k : UInt32}, k ∈ neighborTable →
    s.costMap[k]? = some 1 ∧ s.nextHopMap[k]? = some k
  attained : ∀ {k c h : UInt32}, s.costMap[k]? = some c → c ≠ uint32Max →
    s.nextHopMap[k]? = some h → Path (· ∈ neighborTable) (Confirmed routeMap) c.toNat h k
  relaxed : ∀ {u v c : UInt32}, s.costMap[u]? = some c → c ≠ uint32Max → Confirmed routeMap u v →
    ¬ pending u v → (∀ x ∈ contents s.queue, x.1 ≠ u) →
    ∃ c' : UInt32, s.costMap[v]? = some c' ∧ c'.toNat ≤ c.toNat + 1

theorem working_start : (dijkstraStart neighborTable routeMap).Working neighborTable routeMap
    fun _ _ => False where
  mem_costMap k := by
    rw [mem_iff_exists_getElem?, start_costMap]
    split <;> simp_all
  exists_hop {k c} hc hne := by
    rw [start_costMap] at hc
    rw [start_nextHopMap]
    split at hc
    · rename_i hk
      exact ⟨k, if_pos hk⟩
    · simp_all
  hop_mem {k h} hh := by
    rw [start_nextHopMap] at hh
    split at hh
    · rename_i hk
      exact Option.some.inj hh ▸ hk
    · cases hh
  queued x hx := by
    rw [start_contents] at hx
    obtain ⟨k, hk, rfl⟩ := Multiset.mem_map.mp hx
    refine ⟨1, ?_, by decide⟩
    rw [start_costMap, if_pos (Std.ExtTreeMap.mem_keys.mp hk)]
  source {k} hk := by
    rw [start_costMap, start_nextHopMap, if_pos hk, if_pos hk]
    exact ⟨rfl, rfl⟩
  attained {k c h} hc hne hh := by
    rw [start_nextHopMap] at hh
    rw [start_costMap] at hc
    split at hh
    · rename_i hk
      rw [if_pos hk] at hc
      cases hc
      cases hh
      exact .source hk
    · cases hh
  relaxed {u v c} hc hne hlink _ hqueue := by
    rw [start_costMap] at hc
    split at hc
    · rename_i hu
      refine absurd rfl (hqueue (u, 1) ?_)
      rw [start_contents]
      exact Multiset.mem_map.mpr ⟨u, Std.ExtTreeMap.mem_keys.mpr hu, rfl⟩
    · simp_all

variable {pending pending' : UInt32 → UInt32 → Prop} {old : UInt32}

theorem Working.improve (h : s.Working neighborTable routeMap pending)
    (hold : s.costMap[node]? = some old) (hlt : cost < old)
    (hpath : Path (· ∈ neighborTable) (Confirmed routeMap) cost.toNat hop node) :
    (s.improve node cost hop).Working neighborTable routeMap pending where
  mem_costMap k := by
    rw [improve_costMap, Std.ExtTreeMap.mem_insert, Std.compare_eq_iff_eq, h.mem_costMap]
    constructor
    · rintro (rfl | hk)
      · exact (h.mem_costMap node).mp (mem_iff_exists_getElem?.mpr ⟨old, hold⟩)
      · exact hk
    · exact Or.inr
  exists_hop {k c} hc hne := by
    rw [improve_costMap, getElem?_insert_eq] at hc
    rw [improve_nextHopMap, getElem?_insert_eq]
    by_cases hk : node = k
    · exact ⟨hop, if_pos hk⟩
    · rw [if_neg hk] at hc ⊢
      exact h.exists_hop hc hne
  hop_mem {k h'} hh := by
    rw [improve_nextHopMap, getElem?_insert_eq] at hh
    split at hh
    · exact Option.some.inj hh ▸ hpath.isSource
    · exact h.hop_mem hh
  queued x hx := by
    rw [improve_costMap, getElem?_insert_eq]
    by_cases hk : node = x.1
    · exact ⟨cost, if_pos hk, ne_uint32Max_of_lt hlt⟩
    · rw [if_neg hk]
      rw [improve_contents, Multiset.mem_cons] at hx
      rcases hx with rfl | hx
      · exact absurd rfl hk
      · exact h.queued x hx
  source {k} hk := by
    -- a neighbour has cost 1, and no path is shorter
    have hne : node ≠ k := by
      rintro rfl
      obtain rfl := Option.some.inj (hold.symm.trans (h.source hk).1)
      have hpos := hpath.pos
      rw [UInt32.lt_iff_toNat_lt, UInt32.toNat_one] at hlt
      omega
    rw [improve_costMap, improve_nextHopMap, getElem?_insert_eq, getElem?_insert_eq,
      if_neg hne, if_neg hne]
    exact h.source hk
  attained {k c h'} hc hne hh := by
    rw [improve_costMap, getElem?_insert_eq] at hc
    rw [improve_nextHopMap, getElem?_insert_eq] at hh
    by_cases hk : node = k
    · rw [if_pos hk] at hc hh
      cases hc
      cases hh
      exact hk ▸ hpath
    · rw [if_neg hk] at hc hh
      exact h.attained hc hne hh
  relaxed {u v c} hc hne hlink hpend hqueue := by
    rw [improve_contents] at hqueue
    have hu : node ≠ u := hqueue _ (Multiset.mem_cons_self _ _)
    rw [improve_costMap, getElem?_insert_eq, if_neg hu] at hc
    obtain ⟨c', hc', hle⟩ := h.relaxed hc hne hlink hpend
      fun x hx => hqueue x (Multiset.mem_cons_of_mem hx)
    rw [improve_costMap, getElem?_insert_eq]
    by_cases hv : node = v
    · subst hv
      obtain rfl := Option.some.inj (hold.symm.trans hc')
      have hlt' := UInt32.lt_iff_toNat_lt.mp hlt
      exact ⟨cost, if_pos rfl, by omega⟩
    · exact ⟨c', (if_neg hv).trans hc', hle⟩

def potential (neighborTable : NeighborTable) (routeMap : RouteMap) (s : DijkstraState) : ℕ :=
  Multiset.card (contents s.queue) +
    ((routeMap.keys ++ neighborTable.keys).map fun k => (s.costMap.getD k 0).toNat).sum

theorem potential_start_lt :
    potential neighborTable routeMap (dijkstraStart neighborTable routeMap) <
      dijkstraRounds neighborTable routeMap := by
  have hsum : ((routeMap.keys ++ neighborTable.keys).map fun k =>
      ((dijkstraStart neighborTable routeMap).costMap.getD k 0).toNat).sum ≤
      (routeMap.size + neighborTable.size) * 2 ^ 32 := by
    refine (List.sum_le_card_nsmul _ (2 ^ 32) ?_).trans_eq ?_
    · intro x hx
      obtain ⟨k, -, rfl⟩ := List.mem_map.mp hx
      exact (UInt32.toNat_lt _).le
    · simp
  have hcard : Multiset.card (contents (dijkstraStart neighborTable routeMap).queue) =
      neighborTable.size := by
    rw [start_contents]
    simp
  rw [potential, dijkstraRounds, hcard]
  omega

/-- A push is paid for by the cost that it lowers. -/
theorem potential_improve_le {old : UInt32} (hnode : node ∈ neighborTable ∨ node ∈ routeMap)
    (hold : s.costMap[node]? = some old) (hlt : cost < old) :
    potential neighborTable routeMap (s.improve node cost hop) ≤
      potential neighborTable routeMap s := by
  have hget : ∀ k, (s.improve node cost hop).costMap.getD k 0 =
      if node = k then cost else s.costMap.getD k 0 := by
    intro k
    rw [Std.ExtTreeMap.getD_eq_getD_getElem?, Std.ExtTreeMap.getD_eq_getD_getElem?,
      improve_costMap, getElem?_insert_eq]
    split <;> rfl
  have hnode' : (s.costMap.getD node 0) = old := by
    rw [Std.ExtTreeMap.getD_eq_getD_getElem?, hold]
    rfl
  have hsum : ((routeMap.keys ++ neighborTable.keys).map fun k =>
        ((s.improve node cost hop).costMap.getD k 0).toNat).sum <
      ((routeMap.keys ++ neighborTable.keys).map fun k => (s.costMap.getD k 0).toNat).sum := by
    refine List.sum_lt_sum _ _ ?_ ⟨node, ?_, ?_⟩
    · intro k _
      rw [hget]
      split
      · rename_i hk
        rw [← hk, hnode']
        exact (UInt32.lt_iff_toNat_lt.mp hlt).le
      · exact le_rfl
    · simpa [or_comm] using hnode
    · rw [hget, if_pos rfl, hnode']
      exact UInt32.lt_iff_toNat_lt.mp hlt
  rw [potential, potential, improve_contents, Multiset.card_cons]
  omega

theorem relax_eq {details : RouteMapDetails} {old : UInt32} (hu : s.costMap[u]? = some c)
    (hlink : routeMap[link.1]? = some details) (hlist : u ∈ details.neighborList)
    (hold : s.costMap[link.1]? = some old) :
    relax routeMap u next s link =
      if c + link.2 < old then .ok (s.improve link.1 (c + link.2) next) else .ok s := by
  simp only [relax, hlink, hlist, not_true_eq_false, if_false]
  rw [findIn_eq_ok.mpr hu, findIn_eq_ok.mpr hold]
  rfl

theorem relax_cases (hu : s.costMap[u]? = some c) (hknown : ∀ k ∈ routeMap, k ∈ s.costMap) :
    (relax routeMap u next s link = .ok s ∧
        ∀ details, routeMap[link.1]? = some details → u ∈ details.neighborList →
          ∃ old, s.costMap[link.1]? = some old ∧ old ≤ c + link.2) ∨
      ∃ details old, routeMap[link.1]? = some details ∧ u ∈ details.neighborList ∧
        s.costMap[link.1]? = some old ∧ c + link.2 < old ∧
        relax routeMap u next s link = .ok (s.improve link.1 (c + link.2) next) := by
  cases hlink : routeMap[link.1]? with
  | none => exact Or.inl ⟨by simp only [relax, hlink], by simp⟩
  | some details =>
      by_cases hlist : u ∈ details.neighborList
      · obtain ⟨old, hold⟩ := mem_iff_exists_getElem?.mp
          (hknown link.1 (mem_iff_exists_getElem?.mpr ⟨details, hlink⟩))
        have hrelax : relax routeMap u next s link = _ := relax_eq hu hlink hlist hold
        by_cases hlt : c + link.2 < old
        · rw [if_pos hlt] at hrelax
          exact Or.inr ⟨details, old, rfl, hlist, hold, hlt, hrelax⟩
        · rw [if_neg hlt] at hrelax
          refine Or.inl ⟨hrelax, ?_⟩
          intro _ _ _
          exact ⟨old, hold, UInt32.not_lt.mp hlt⟩
      · refine Or.inl ⟨?_, ?_⟩
        · simp [relax, hlink, hlist]
        · intro details' hd hmem
          exact absurd (Option.some.inj hd ▸ hmem) hlist

theorem Working.mono (h : s.Working neighborTable routeMap pending)
    (hrelax : ∀ {u v c : UInt32}, s.costMap[u]? = some c → c ≠ uint32Max →
      Confirmed routeMap u v → pending u v → ¬ pending' u v →
      ∃ c' : UInt32, s.costMap[v]? = some c' ∧ c'.toNat ≤ c.toNat + 1) :
    s.Working neighborTable routeMap pending' :=
  { h with
    relaxed := by
      intro u v c hc hne hlink hpend hqueue
      by_cases hold : pending u v
      · exact hrelax hc hne hlink hold hpend
      · exact h.relaxed hc hne hlink hold hqueue }

/-- The links of a popped node are pending. -/
theorem Working.pop {x : UInt32 × UInt32} {q : Queue}
    (h : s.Working neighborTable routeMap fun _ _ => False) (hpop : pop s.queue = some (x, q)) :
    DijkstraState.Working neighborTable routeMap (fun u _ => u = x.1) { s with queue := q } where
  mem_costMap := h.mem_costMap
  exists_hop := h.exists_hop
  hop_mem := h.hop_mem
  queued y hy := h.queued y (contents_of_pop hpop ▸ Multiset.mem_cons_of_mem hy)
  source := h.source
  attained := h.attained
  relaxed {u v c} hc hne hlink hpend hqueue := by
    refine h.relaxed hc hne hlink not_false fun y hy => ?_
    rw [contents_of_pop hpop] at hy
    rcases Multiset.mem_cons.mp hy with rfl | hy
    · exact fun hyu => hpend hyu.symm
    · exact hqueue y hy

/-- One link of the node `u` that is expanded. -/
theorem exists_relax {details : RouteMapDetails} (h : s.Working neighborTable routeMap pending)
    (hu : s.costMap[u]? = some c) (hc : c ≠ uint32Max) (hnext : s.nextHopMap[u]? = some next)
    (hdetails : routeMap[u]? = some details) (hlink : link ∈ details.links) :
    ∃ s', relax routeMap u next s link = .ok s' ∧
      s'.Working neighborTable routeMap (fun a b => pending a b ∧ (a = u → b ≠ link.1)) ∧
      s'.costMap[u]? = some c ∧ s'.nextHopMap[u]? = some next ∧
      potential neighborTable routeMap s' ≤ potential neighborTable routeMap s := by
  obtain ⟨hnode, hone⟩ := mem_links hlink
  have hcost : (c + link.2).toNat = c.toNat + 1 := by rw [hone, toNat_add_one hc]
  have hknown : ∀ k ∈ routeMap, k ∈ s.costMap := fun k hk => (h.mem_costMap k).mpr (Or.inr hk)
  rcases relax_cases hu hknown with ⟨hok, hkeep⟩ | ⟨details', old, hdetails', hlist, hold, hlt, hok⟩
  · refine ⟨s, hok, h.mono ?_, hu, hnext, le_rfl⟩
    intro a b c' hc' hne hconf hpend hnot
    obtain ⟨rfl, rfl⟩ : a = u ∧ b = link.1 := by
      by_contra hcon
      exact hnot ⟨hpend, fun ha hb => hcon ⟨ha, hb⟩⟩
    obtain ⟨_, details', _, hdetails', _, hlist⟩ := hconf
    obtain ⟨old, hold, hle⟩ := hkeep details' hdetails' hlist
    obtain rfl := Option.some.inj (hu.symm.trans hc')
    exact ⟨old, hold, hcost ▸ UInt32.le_iff_toNat_le.mp hle⟩
  · have hne : link.1 ≠ u := by
      intro heq
      obtain rfl := Option.some.inj (hold.symm.trans (heq ▸ hu))
      have hlt' := UInt32.lt_iff_toNat_lt.mp hlt
      omega
    have hconf : Confirmed routeMap u link.1 :=
      ⟨details, details', hdetails, hdetails', hnode, hlist⟩
    have hpath := hcost ▸ Path.step (h.attained hu hc hnext) hconf
    refine ⟨_, hok, (h.improve hold hlt hpath).mono ?_, ?_, ?_, ?_⟩
    · intro a b c' hc' _ _ hpend hnot
      obtain ⟨rfl, rfl⟩ : a = u ∧ b = link.1 := by
        by_contra hcon
        exact hnot ⟨hpend, fun ha hb => hcon ⟨ha, hb⟩⟩
      rw [improve_costMap, getElem?_insert_eq, if_neg hne] at hc'
      obtain rfl := Option.some.inj (hu.symm.trans hc')
      exact ⟨_, by rw [improve_costMap, getElem?_insert_eq, if_pos rfl], hcost.le⟩
    · rw [improve_costMap, getElem?_insert_eq, if_neg hne, hu]
    · rw [improve_nextHopMap, getElem?_insert_eq, if_neg hne, hnext]
    · exact potential_improve_le
        ((h.mem_costMap link.1).mp (mem_iff_exists_getElem?.mpr ⟨old, hold⟩)) hold hlt

theorem exists_expand (h : s.Working neighborTable routeMap fun a _ => a = u)
    (hu : s.costMap[u]? = some c) (hc : c ≠ uint32Max) :
    ∃ s', expand routeMap s u = .ok s' ∧ s'.Working neighborTable routeMap (fun _ _ => False) ∧
      potential neighborTable routeMap s' ≤ potential neighborTable routeMap s := by
  obtain ⟨next, hnext⟩ := h.exists_hop hu hc
  unfold expand
  rw [findIn_eq_ok.mpr hnext]
  cases hdetails : routeMap[u]? with
  | none =>
      refine ⟨s, by simp [bind, Except.bind], h.mono ?_, le_rfl⟩
      rintro a b c' - - ⟨details, -, ha, -⟩ rfl -
      rw [hdetails] at ha
      cases ha
  | some details =>
      obtain ⟨s', hok, hworking, -, -, hle⟩ := exists_foldlM_eq_ok
        (P := fun done s' => s'.Working neighborTable routeMap
            (fun a b => a = u ∧ ∀ link ∈ done, link.1 ≠ b) ∧
          s'.costMap[u]? = some c ∧ s'.nextHopMap[u]? = some next ∧
          potential neighborTable routeMap s' ≤ potential neighborTable routeMap s)
        (f := relax routeMap u next) (l := details.links) (a := s)
        ⟨h.mono fun _ _ _ hpend hnot => absurd ⟨hpend, by simp⟩ hnot, hu, hnext, le_rfl⟩
        (by
          rintro done link rest a hl ⟨hworking, hu', hnext', hle⟩
          have hlink : link ∈ details.links := by
            rw [hl]
            simp
          obtain ⟨b, hb, hworking', hu'', hnext'', hle'⟩ := exists_relax hworking hu' hc hnext'
            hdetails hlink
          refine ⟨b, hb, hworking'.mono ?_, hu'', hnext'', hle'.trans hle⟩
          rintro a' b' c' - - - ⟨⟨rfl, hdone⟩, hlink⟩ hnot
          refine absurd ⟨rfl, fun l hl => ?_⟩ hnot
          rcases List.mem_append.mp hl with hl | hl
          · exact hdone l hl
          · rw [List.mem_singleton.mp hl]
            exact (hlink rfl).symm)
      refine ⟨s', hok, hworking.mono ?_, hle⟩
      rintro a b c' - - ⟨details', -, ha, -, hb, -⟩ ⟨rfl, hdone⟩ -
      obtain rfl := Option.some.inj (hdetails.symm.trans ha)
      obtain ⟨link, hlink, rfl⟩ := exists_mem_links hb
      exact absurd rfl (hdone link hlink)

/-- The loop ends, with nothing left to improve. -/
theorem exists_dijkstraLoop {rounds : ℕ}
    (h : s.Working neighborTable routeMap fun _ _ => False)
    (hrounds : potential neighborTable routeMap s < rounds) :
    ∃ s', dijkstraLoop routeMap rounds s = .ok s' ∧
      s'.Working neighborTable routeMap (fun _ _ => False) ∧ contents s'.queue = 0 := by
  induction rounds generalizing s with
  | zero => exact absurd hrounds (Nat.not_lt_zero _)
  | succ rounds ih =>
      rw [dijkstraLoop]
      cases hpop : CostQueue.pop s.queue with
      | none => exact ⟨s, rfl, h, contents_of_pop_none hpop⟩
      | some top =>
          obtain ⟨x, q⟩ := top
          have hx : x ∈ contents s.queue := contents_of_pop hpop ▸ Multiset.mem_cons_self x _
          obtain ⟨c, hc, hne⟩ := h.queued x hx
          obtain ⟨s', hok, hworking, hle⟩ := exists_expand (h.pop hpop) hc hne
          have hlt : potential neighborTable routeMap { s with queue := q } + 1 =
              potential neighborTable routeMap s := by
            rw [potential, potential, contents_of_pop hpop, Multiset.card_cons]
            change Multiset.card (contents q) + _ + 1 = _
            exact Nat.add_right_comm _ _ _
          obtain ⟨t, ht, hend⟩ := ih hworking (by omega)
          refine ⟨t, ?_, hend⟩
          change (expand routeMap { s with queue := q } x.1 >>= _) = _
          rw [hok]
          exact ht

/-- The costs of a state, `UINT32_MAX` for a node that is not known. -/
def label (s : DijkstraState) (k : UInt32) : ℕ := (s.costMap.getD k uint32Max).toNat

def firstHop (s : DijkstraState) (k : UInt32) : UInt32 := s.nextHopMap.getD k k

theorem label_eq (hc : s.costMap[u]? = some c) : s.label u = c.toNat := by
  rw [label, Std.ExtTreeMap.getD_eq_getD_getElem?, hc]
  rfl

theorem exists_cost_of_label_lt (hu : s.label u < uint32Max.toNat) :
    ∃ c : UInt32, s.costMap[u]? = some c ∧ c ≠ uint32Max ∧ s.label u = c.toNat := by
  cases hc : s.costMap[u]? with
  | none =>
      rw [label, Std.ExtTreeMap.getD_eq_getD_getElem?, hc] at hu
      exact absurd hu (lt_irrefl _)
  | some c =>
      refine ⟨c, rfl, ?_, label_eq hc⟩
      rintro rfl
      rw [label_eq hc] at hu
      exact absurd hu (lt_irrefl _)

theorem Working.isLabelling (h : s.Working neighborTable routeMap fun _ _ => False)
    (hqueue : contents s.queue = 0) :
    IsLabelling (· ∈ neighborTable) (Confirmed routeMap) uint32Max.toNat s.label s.firstHop := by
  refine ⟨?_, ?_, ?_, ?_⟩
  · intro k hk
    obtain ⟨c, hc, hne, hkc⟩ := exists_cost_of_label_lt hk
    obtain ⟨next, hnext⟩ := h.exists_hop hc hne
    have hhop : s.firstHop k = next := by
      rw [firstHop, Std.ExtTreeMap.getD_eq_getD_getElem?, hnext]
      rfl
    rw [hkc, hhop]
    exact h.attained hc hne hnext
  · intro k hk
    exact (label_eq (h.source hk).1).le
  · intro u v hu hconf
    obtain ⟨c, hc, hne, huc⟩ := exists_cost_of_label_lt hu
    obtain ⟨c', hc', hle⟩ := h.relaxed hc hne hconf not_false (by simp [hqueue])
    rw [huc, label_eq hc']
    exact hle
  · intro k
    have hlt := UInt32.toNat_lt (s.costMap.getD k uint32Max)
    have hmax : uint32Max.toNat = 2 ^ 32 - 1 := rfl
    rw [label]
    omega

end DijkstraState

end PennSearch
