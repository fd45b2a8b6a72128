import PennSearch.LinkState.Handlers

/-!
# The tables of one router

What any interleaving of messages and timers keeps at one router. Every next hop
in `m_routeTable` is a neighbour (`next_hops_are_neighbors`): a change of the keys
of `m_neighborTable` always makes `NdRequests` compute the routes again. A change
of an interface alone does not, since the comparison there looks at the same
interface twice, and so the table is fresh exactly as long as no `NdRequests`
finds the old neighbours on new interfaces (`fresh_iff`).
-/

namespace PennSearch

open MessagePassing

/-! ## The comparison of `NdRequests` -/

def NeighborTable.addresses (t : NeighborTable) : Std.ExtTreeMap UInt32 Ipv4Address :=
  t.map fun _ entry => entry.neighborAddr

theorem NeighborTable.addresses_toList (t : NeighborTable) :
    t.addresses.toList = t.toList.map fun p => (p.1, p.2.neighborAddr) :=
  Std.ExtTreeMap.toList_map

theorem NeighborTable.getElem?_addresses (t : NeighborTable) (k : UInt32) :
    t.addresses[k]? = t[k]?.map NeighborTableEntry.neighborAddr :=
  Std.ExtTreeMap.getElem?_map

/-- The flag sees nodes and addresses, but no interfaces. -/
theorem LsNode.floodingFlag_eq_false_iff {t t' : NeighborTable} :
    floodingFlag t t' = false ↔ t.addresses = t'.addresses := by
  rw [← Std.ExtTreeMap.toList_inj, NeighborTable.addresses_toList, NeighborTable.addresses_toList,
    floodingFlag, ← Std.ExtTreeMap.length_toList, ← Std.ExtTreeMap.length_toList]
  generalize t.toList = l
  generalize t'.toList = l'
  induction l generalizing l' with
  | nil => cases l' <;> simp
  | cons p l ih =>
      cases l' with
      | nil => simp
      | cons p' l' =>
          have ih := ih l'
          by_cases hlen : l.length = l'.length
          · simp_all
          · simp_all

/-! ## Steps of one router -/

variable [CostQueue]

inductive LsEvent
  | recv (socket : LsSocket) (message : LSMessage)
  | ndRequests
deriving DecidableEq

namespace LsNode

/-- A message or the timer: the new state, and what is sent. -/
def turn (n : LsNode) : LsEvent → LsResult
  | .recv socket message => n.recvLSMessage socket message
  | .ndRequests => n.ndRequests

def step (n : LsNode) (e : LsEvent) : Except LsFault LsNode := do
  let r ← n.turn e
  return r.1

/-- The routing table is what `DijkstraAlgo` would compute. -/
def Fresh (n : LsNode) : Prop :=
  dijkstraTable n.maps n.neighborTable n.routeMap = .ok n.routeTable

/-- The neighbours found are the old ones, but not all on the interfaces that they had. -/
def SwapsInterface (n : LsNode) : Prop :=
  n.neighborTable.addresses = n.currentneighborTable.addresses ∧
    n.neighborTable ≠ n.currentneighborTable

variable {n n' : LsNode} {e : LsEvent}

theorem step_eq_ok : n.step e = .ok n' ↔ ∃ sent, n.turn e = .ok (n', sent) := by
  rw [step, bind_eq_ok]
  constructor
  · rintro ⟨⟨n₁, sent⟩, hn, h⟩
    cases h
    exact ⟨sent, hn⟩
  · rintro ⟨sent, hn⟩
    exact ⟨_, hn, rfl⟩

/-- A step leaves the tables that routes are computed from, computes the routes
again, or is an `NdRequests` that sees no difference. -/
theorem step_tables (h : n.step e = .ok n') :
    n'.maps = n.maps ∧
      ((n'.neighborTable = n.neighborTable ∧ n'.routeMap = n.routeMap ∧
          n'.routeTable = n.routeTable ∧ e ≠ .ndRequests) ∨
        (n'.Fresh ∧ ¬ (e = .ndRequests ∧
          n.neighborTable.addresses = n.currentneighborTable.addresses)) ∨
        (e = .ndRequests ∧ n.neighborTable.addresses = n.currentneighborTable.addresses ∧
          n'.neighborTable = n.currentneighborTable ∧ n'.routeMap = n.routeMap ∧
          n'.routeTable = n.routeTable)) := by
  obtain ⟨sent, h⟩ := step_eq_ok.mp h
  cases e with
  | ndRequests =>
      change n.ndRequests = _ at h
      cases hflag : floodingFlag n.neighborTable n.currentneighborTable with
      | false =>
          rw [ndRequests_of_not_flag hflag] at h
          cases h
          exact ⟨rfl, Or.inr (Or.inr ⟨rfl, floodingFlag_eq_false_iff.mp hflag, rfl, rfl, rfl⟩)⟩
      | true =>
          obtain ⟨table, htable, rfl, -⟩ := (ndRequests_of_flag hflag).mp h
          refine ⟨rfl, Or.inr (Or.inl ⟨htable, fun heq => ?_⟩)⟩
          rw [floodingFlag_eq_false_iff.mpr heq.2] at hflag
          cases hflag
  | recv socket message =>
      change n.recvLSMessage socket message = _ at h
      rcases recvLSMessage_cases h with ⟨lsp, -, h⟩ | ⟨-, -, ⟨tracker, rfl⟩ | ⟨k, entry, -, rfl⟩⟩
      · cases hknows : n.knowsLsp message.originatorAddress lsp.sequenceNumber with
        | true =>
            rw [processLsp_of_knows hknows] at h
            cases h
            exact ⟨rfl, Or.inl ⟨rfl, rfl, rfl, by simp⟩⟩
        | false =>
            obtain ⟨k, details, table, -, -, htable, rfl, -⟩ :=
                (processLsp_of_not_knows hknows).mp h
            exact ⟨rfl, Or.inr (Or.inl ⟨htable, by simp⟩)⟩
      · exact ⟨rfl, Or.inl ⟨rfl, rfl, rfl, by simp⟩⟩
      · exact ⟨rfl, Or.inl ⟨rfl, rfl, rfl, by simp⟩⟩

/-! ## Next hops -/

def HopsKnown (n : LsNode) : Prop :=
  ∀ (k : UInt32) (details : RouteTableDetails), n.routeTable[k]? = some details →
    details.nextHopNumber ∈ n.neighborTable

theorem Fresh.hopsKnown (h : n.Fresh) : n.HopsKnown := fun _ _ hk => nextHopNumber_mem h hk

omit [CostQueue] in
theorem mem_iff_mem_addresses {t : NeighborTable} {k : UInt32} : k ∈ t ↔ k ∈ t.addresses := by
  rw [mem_iff_exists_getElem?, mem_iff_exists_getElem?]
  simp [NeighborTable.getElem?_addresses]

theorem HopsKnown.step (hn : n.HopsKnown) (h : n.step e = .ok n') : n'.HopsKnown := by
  rcases (step_tables h).2 with ⟨hnt, -, hrt, -⟩ | ⟨hfresh, -⟩ | ⟨-, haddr, hnt, -, hrt⟩
  · intro k details hk
    rw [hnt]
    exact hn k details (hrt ▸ hk)
  · exact hfresh.hopsKnown
  · intro k details hk
    rw [hnt, mem_iff_mem_addresses, ← haddr, ← mem_iff_mem_addresses]
    exact hn k details (hrt ▸ hk)

omit [CostQueue] in
theorem findIn_avoids {κ α : Type} [Ord κ] [Std.TransOrd κ] {fault fault' : LsFault}
    {m : Std.ExtTreeMap κ α} {k : κ} (hne : fault' ≠ fault) : Avoids fault' (findIn fault m k) :=
  fun h => hne (findIn_eq_error.mp h).1

omit [CostQueue] in
theorem HopsKnown.routeOutput_avoids (hn : n.HopsKnown) (destination : Ipv4Address) :
    Avoids .neighborTable (n.routeOutput destination) := by
  intro h
  rcases bind_eq_error.mp h with h | ⟨node, -, h⟩
  · exact findIn_avoids (by decide) h
  · split at h
    · cases h
    · rename_i details hdetails
      obtain ⟨entry, hentry⟩ := mem_iff_exists_getElem?.mp (hn node details hdetails)
      rw [findIn_eq_ok.mpr hentry] at h
      cases h

theorem dijkstraAlgo_avoids (n : LsNode) : Avoids .neighborTable n.dijkstraAlgo := by
  intro h
  rcases bind_eq_error.mp h with h | ⟨table, -, h⟩
  · cases (dijkstraTable_eq_error h).1
  · cases h

omit [CostQueue] in
theorem routeMapDetails_avoids (maps : AddressMaps) (a : Ipv4Address) (l : List Ipv4Address) :
    Avoids .neighborTable (maps.routeMapDetails a l) :=
  Avoids.foldlM (fun _ _ => (findIn_avoids (by decide)).bind fun _ => avoids_ok _) l _

theorem turn_avoids (n : LsNode) (e : LsEvent) : Avoids .neighborTable (n.turn e) := by
  cases e with
  | ndRequests =>
      change Avoids .neighborTable n.ndRequests
      simp only [ndRequests]
      split
      · exact (dijkstraAlgo_avoids _).bind fun _ => avoids_ok _
      · exact (avoids_ok _).bind fun _ => avoids_ok _
  | recv socket message =>
      change Avoids .neighborTable (n.recvLSMessage socket message)
      unfold recvLSMessage
      split
      · unfold processPingReq
        split <;> exact avoids_ok _
      · unfold processPingRsp
        split <;> exact avoids_ok _
      · exact (findIn_avoids (by decide)).bind fun _ => avoids_ok _
      · unfold processNdRsp
        split
        · exact (findIn_avoids (by decide)).bind fun _ =>
            (findIn_avoids (by decide)).bind fun _ => avoids_ok _
        · exact avoids_ok _
      · unfold processLsp
        split
        · exact avoids_ok _
        · refine Avoids.bind ?_ fun _ => avoids_ok _
          exact (findIn_avoids (by decide)).bind fun _ =>
            (routeMapDetails_avoids _ _ _).bind fun _ => dijkstraAlgo_avoids _

end LsNode

/-- In every state that any messages and timers lead to, the next hops of the
routing table are neighbours, and no iterator of `m_neighborTable` is used at its
end. -/
theorem next_hops_are_neighbors (maps : AddressMaps) (mainAddress : Ipv4Address)
    (socketAddresses : Std.ExtTreeMap LsSocket Ipv4Address) (maxTTL singleHop : UInt8)
    (sequenceNumber : UInt32) {es : List LsEvent} {n : LsNode}
    (run : Run LsNode.step (fun _ _ => True)
      (.start maps mainAddress socketAddresses maxTTL singleHop sequenceNumber) es n) :
    (∀ (k : UInt32) (details : RouteTableDetails), n.routeTable[k]? = some details →
        details.nextHopNumber ∈ n.neighborTable) ∧
      (∀ destination, n.routeOutput destination ≠ .error .neighborTable) ∧
      ∀ e, n.step e ≠ .error .neighborTable := by
  have hhops : n.HopsKnown := by
    refine run.invariant (P := LsNode.HopsKnown) ?_ fun t e u ht _ hstep => ht.step hstep
    intro k details hk
    simp [LsNode.start] at hk
  exact ⟨hhops, hhops.routeOutput_avoids, fun e => (n.turn_avoids e).bind fun _ => avoids_ok _⟩

/-! ## Freshness -/

theorem neighborTable_eq_of_dijkstraTable {maps : AddressMaps} {t t' : NeighborTable}
    {routeMap : RouteMap} {table : RouteTable} (h : dijkstraTable maps t routeMap = .ok table)
    (h' : dijkstraTable maps t' routeMap = .ok table) (haddr : t.addresses = t'.addresses) :
    t = t' := by
  refine Std.ExtTreeMap.ext_getElem? fun k => ?_
  have hk : t.addresses[k]? = t'.addresses[k]? := by rw [haddr]
  rw [NeighborTable.getElem?_addresses, NeighborTable.getElem?_addresses] at hk
  cases hentry : t[k]? with
  | none =>
      rw [hentry] at hk
      exact (Option.map_eq_none_iff.mp hk.symm).symm
  | some entry =>
      rw [hentry, Option.map_some] at hk
      obtain ⟨entry', hentry', heq⟩ := Option.map_eq_some_iff.mp hk.symm
      -- the entry of a neighbour names its interface
      obtain ⟨details, hdetails, hi⟩ := exists_neighbor_entry h hentry
      obtain ⟨details', hdetails', hi'⟩ := exists_neighbor_entry h' hentry'
      obtain rfl := Option.some.inj (hdetails.symm.trans hdetails')
      rw [hentry', Option.some.injEq]
      obtain ⟨a, i⟩ := entry
      obtain ⟨a', i'⟩ := entry'
      obtain rfl : a' = a := heq
      obtain rfl : i = i' := hi.symm.trans hi'
      rfl

theorem LsNode.Fresh.step_iff {n n' : LsNode} {e : LsEvent} (hn : n.Fresh)
    (h : n.step e = .ok n') : n'.Fresh ↔ ¬ (e = .ndRequests ∧ n.SwapsInterface) := by
  obtain ⟨hmaps, htables⟩ := step_tables h
  rcases htables with ⟨hnt, hrm, hrt, hne⟩ | ⟨hfresh, hdiffer⟩ | ⟨rfl, haddr, hnt, hrm, hrt⟩
  · refine iff_of_true ?_ fun hswap => hne hswap.1
    rw [Fresh, hmaps, hnt, hrm, hrt]
    exact hn
  · exact iff_of_true hfresh fun hswap => hdiffer ⟨hswap.1, hswap.2.1⟩
  · rw [Fresh, hmaps, hnt, hrm, hrt]
    constructor
    · intro hfresh hswap
      exact hswap.2.2 (neighborTable_eq_of_dijkstraTable hn hfresh haddr)
    · intro hswap
      have heq : n.neighborTable = n.currentneighborTable := by
        by_contra hne
        exact hswap ⟨rfl, haddr, hne⟩
      exact heq ▸ hn

theorem LsNode.fresh_start (maps : AddressMaps) (mainAddress : Ipv4Address)
    (socketAddresses : Std.ExtTreeMap LsSocket Ipv4Address) (maxTTL singleHop : UInt8)
    (sequenceNumber : UInt32) :
    (start maps mainAddress socketAddresses maxTTL singleHop sequenceNumber).Fresh := by
  obtain ⟨table, htable⟩ : ∃ table, dijkstraTable maps ∅ ∅ = .ok table :=
    dijkstraTable_isOk (by simp) (by simp)
  have hempty : table = ∅ := by
    refine Std.ExtTreeMap.ext_getElem? fun k => ?_
    rw [Std.ExtTreeMap.getElem?_empty, Option.eq_none_iff_forall_ne_some]
    intro details hk
    have hmem := nextHopNumber_mem htable hk
    simp at hmem
  subst hempty
  exact htable

/-- The routing table is fresh throughout exactly in the runs in which no
`NdRequests` finds the old neighbours on new interfaces. -/
theorem fresh_iff (maps : AddressMaps) (mainAddress : Ipv4Address)
    (socketAddresses : Std.ExtTreeMap LsSocket Ipv4Address) (maxTTL singleHop : UInt8)
    (sequenceNumber : UInt32) {es : List LsEvent} {n : LsNode}
    (run : Run LsNode.step (fun _ _ => True)
      (.start maps mainAddress socketAddresses maxTTL singleHop sequenceNumber) es n) :
    (∀ pre t, pre <+: es → Run LsNode.step (fun _ _ => True)
        (.start maps mainAddress socketAddresses maxTTL singleHop sequenceNumber) pre t →
      t.Fresh) ↔
    Run LsNode.step (fun t e => ¬ (e = .ndRequests ∧ t.SwapsInterface))
      (.start maps mainAddress socketAddresses maxTTL singleHop sequenceNumber) es n := by
  rw [run.always_iff (I := fun _ => True) (P := LsNode.Fresh)
    ⟨trivial, LsNode.fresh_start _ _ _ _ _ _⟩
    fun _ _ _ _ ht _ hstep => ⟨trivial, ht.step_iff hstep⟩]
  exact ⟨fun h => h.mono fun _ _ hok => hok.2, fun h => h.mono fun _ _ hok => ⟨trivial, hok⟩⟩

end PennSearch

namespace PennSearch

open MessagePassing

attribute [local instance] CostQueue.ofList

def sampleNumbers : Std.ExtTreeMap UInt32 Ipv4Address :=
  .ofList [((0 : UInt32), Ipv4Address.mk 1), (1, .mk 11)]

def sampleAddresses : Std.ExtTreeMap Ipv4Address UInt32 :=
  .ofList [(Ipv4Address.mk 1, (0 : UInt32)), (.mk 2, 0), (.mk 11, 1), (.mk 12, 1)]

def sampleMaps : AddressMaps where
  nodeAddressMap := sampleNumbers
  addressNodeMap := sampleAddresses
  resolves {a k} h := by
    have hall : ∀ p ∈ sampleAddresses.toList, p.2 ∈ sampleNumbers := by decide +kernel
    exact hall (a, k) (Std.ExtTreeMap.mem_toList_iff_getElem?_eq_some.mpr h)

def sampleNdRsp : LSMessage := ⟨7, 1, ⟨11⟩, .ndRsp ⟨⟨1⟩, []⟩⟩

def sampleMove : List LsEvent :=
  [.recv 0 sampleNdRsp, .ndRequests, .recv 1 sampleNdRsp, .ndRequests]

def sampleRouter : LsNode :=
  .start sampleMaps ⟨1⟩ (.ofList [((0 : ℕ), Ipv4Address.mk 1), (1, .mk 2)]) 16 1 7

theorem sampleMove_runs :
    ∃ n, execute LsNode.step (fun _ _ => True) sampleRouter sampleMove = some n ∧ ¬ n.Fresh := by
  unfold LsNode.Fresh
  decide +kernel

theorem next_hops_are_neighbors_sample :
    ∃ n, Run LsNode.step (fun _ _ => True) sampleRouter sampleMove n ∧
      (∀ (k : UInt32) (details : RouteTableDetails), n.routeTable[k]? = some details →
        details.nextHopNumber ∈ n.neighborTable) ∧
      (∀ destination, n.routeOutput destination ≠ .error .neighborTable) ∧
      ∀ e, n.step e ≠ .error .neighborTable := by
  obtain ⟨n, hn, -⟩ := sampleMove_runs
  exact ⟨n, .of_execute hn, next_hops_are_neighbors _ _ _ _ _ _ (.of_execute hn)⟩

/-- The node keeps sending on the link where it no longer sees its neighbour. -/
theorem moved_neighbor_is_stale :
    ∃ n, Run LsNode.step (fun _ _ => True) sampleRouter sampleMove n ∧ ¬ n.Fresh := by
  obtain ⟨n, hn, hstale⟩ := sampleMove_runs
  exact ⟨n, .of_execute hn, hstale⟩

theorem fresh_iff_sample :
    ∃ n, Run LsNode.step (fun _ _ => True) sampleRouter sampleMove n ∧
      ((∀ pre t, pre <+: sampleMove → Run LsNode.step (fun _ _ => True) sampleRouter pre t →
          t.Fresh) ↔
        Run LsNode.step (fun t e => ¬ (e = .ndRequests ∧ t.SwapsInterface)) sampleRouter
          sampleMove n) := by
  obtain ⟨n, hn, -⟩ := sampleMove_runs
  exact ⟨n, .of_execute hn, fresh_iff _ _ _ _ _ _ (.of_execute hn)⟩

end PennSearch
