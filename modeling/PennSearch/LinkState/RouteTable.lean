import PennSearch.LinkState.Dijkstra

/-!
# The routing table of `DijkstraAlgo`

What the last loop of `DijkstraAlgo` makes of the costs. Its unchecked `find`s in
`m_neighborTable` and `NextHopMap` always succeed, and it can only fail on a
node number that `m_nodeAddressMap` does not have (`dijkstraTable_eq_error`). An
entry holds the number of nodes of a shortest path from a neighbour
(`dijkstraTable_shortest`), and the entry of a neighbour its own interface
(`exists_neighbor_entry`).
-/

namespace PennSearch

open MessagePassing HopCount

variable [CostQueue] {maps : AddressMaps} {neighborTable : NeighborTable} {routeMap : RouteMap}
  {k c : UInt32} {e : RouteTableDetails} {table : RouteTable}

omit [CostQueue] in
theorem getElem?_rebuild {entry : UInt32 → UInt32 → Except LsFault RouteTableDetails}
    {costs : Std.ExtTreeMap UInt32 UInt32} (h : rebuild entry costs.toList = .ok table) :
    table[k]? = some e ↔ ∃ c : UInt32, costs[k]? = some c ∧ c ≠ uint32Max ∧ entry k c = .ok e := by
  have hdistinct := costs.distinct_keys_toList
  suffices hinv : ∀ k e, table[k]? = some e ↔
      ∃ c, (k, c) ∈ costs.toList ∧ c ≠ uint32Max ∧ entry k c = .ok e by
    simpa only [Std.ExtTreeMap.mem_toList_iff_getElem?_eq_some] using hinv k e
  refine foldlM_induction (P := fun done (table : RouteTable) => ∀ k e, table[k]? = some e ↔
    ∃ c, (k, c) ∈ done ∧ c ≠ uint32Max ∧ entry k c = .ok e) h (by simp) ?_
  rintro done ⟨node, cost⟩ rest t t' hl ht hround k e
  rw [hl] at hdistinct
  have hfresh : ∀ c, (node, c) ∉ done := by
    intro c hc
    exact (List.pairwise_append.mp hdistinct).2.2 _ hc _ List.mem_cons_self
      (Std.compare_eq_iff_eq.mpr rfl)
  by_cases hcost : cost = uint32Max
  · rw [if_pos hcost] at hround
    obtain rfl := Except.ok.inj hround
    rw [ht]
    constructor
    · rintro ⟨c, hc, hrest⟩
      exact ⟨c, List.mem_append_left _ hc, hrest⟩
    · rintro ⟨c, hc, hne, hrest⟩
      rcases List.mem_append.mp hc with hc | hc
      · exact ⟨c, hc, hne, hrest⟩
      · cases List.mem_singleton.mp hc
        exact absurd hcost hne
  · rw [if_neg hcost] at hround
    obtain ⟨details, hdetails, hround⟩ := bind_eq_ok.mp hround
    obtain rfl := Except.ok.inj hround
    rw [getElem?_insert_eq]
    by_cases hk : node = k
    · subst hk
      rw [if_pos rfl, Option.some.injEq]
      constructor
      · rintro rfl
        exact ⟨cost, by simp, hcost, hdetails⟩
      · rintro ⟨c, hc, hne, hrest⟩
        rcases List.mem_append.mp hc with hc | hc
        · exact absurd hc (hfresh c)
        · cases List.mem_singleton.mp hc
          exact Except.ok.inj (hdetails.symm.trans hrest)
    · rw [if_neg hk, ht]
      have hother : ∀ c, (k, c) ∈ done ++ [(node, cost)] ↔ (k, c) ∈ done := by
        intro c
        simp [Ne.symm hk]
      simp only [hother]

omit [CostQueue] in
theorem exists_of_rebuild_eq_ok {entry : UInt32 → UInt32 → Except LsFault RouteTableDetails}
    {costs : Std.ExtTreeMap UInt32 UInt32} (h : rebuild entry costs.toList = .ok table)
    (hc : costs[k]? = some c) (hne : c ≠ uint32Max) : ∃ e, entry k c = .ok e := by
  obtain ⟨t, t', ht⟩ := exists_round_of_foldlM h (k, c)
    (Std.ExtTreeMap.mem_toList_iff_getElem?_eq_some.mpr hc)
  rw [if_neg hne] at ht
  obtain ⟨e, he, -⟩ := bind_eq_ok.mp ht
  exact ⟨e, he⟩

omit [CostQueue] in
theorem exists_of_rebuild_eq_error {entry : UInt32 → UInt32 → Except LsFault RouteTableDetails}
    {costs : Std.ExtTreeMap UInt32 UInt32} {fault : LsFault}
    (h : rebuild entry costs.toList = .error fault) :
    ∃ k c, costs[k]? = some c ∧ c ≠ uint32Max ∧ entry k c = .error fault := by
  obtain ⟨⟨k, c⟩, hmem, t, ht⟩ := exists_of_foldlM_eq_error h
  refine ⟨k, c, Std.ExtTreeMap.mem_toList_iff_getElem?_eq_some.mp hmem, ?_⟩
  by_cases hc : c = uint32Max
  · rw [if_pos hc] at ht
    cases ht
  · rw [if_neg hc] at ht
    rcases bind_eq_error.mp ht with ht | ⟨details, -, ht⟩
    · exact ⟨hc, ht⟩
    · cases ht

omit [CostQueue] in
theorem routeEntry_eq_ok {nextHopMap : Std.ExtTreeMap UInt32 UInt32} :
    routeEntry maps neighborTable nextHopMap k c = .ok e ↔
      maps.nodeAddressMap[k]? = some e.destAddr ∧ nextHopMap[k]? = some e.nextHopNumber ∧
        maps.nodeAddressMap[e.nextHopNumber]? = some e.nextHopAddr ∧
        (∃ neighbor, neighborTable[e.nextHopNumber]? = some neighbor ∧
          neighbor.interfaceAddr = e.interfaceAddr) ∧ e.cost = c := by
  simp only [routeEntry, bind_eq_ok, findIn_eq_ok, pure, Except.pure, Except.ok.injEq]
  constructor
  · rintro ⟨a, ha, h, hh, b, hb, neighbor, hneighbor, rfl⟩
    exact ⟨ha, hh, hb, ⟨neighbor, hneighbor, rfl⟩, rfl⟩
  · rintro ⟨ha, hh, hb, ⟨neighbor, hneighbor, hi⟩, rfl⟩
    exact ⟨_, ha, _, hh, _, hb, neighbor, hneighbor, by rw [hi]⟩

theorem exists_dijkstraTable (maps : AddressMaps) (neighborTable : NeighborTable)
    (routeMap : RouteMap) :
    ∃ s : DijkstraState, s.Working neighborTable routeMap (fun _ _ => False) ∧
      IsLabelling (· ∈ neighborTable) (Confirmed routeMap) uint32Max.toNat s.label s.firstHop ∧
      dijkstraTable maps neighborTable routeMap =
        rebuild (routeEntry maps neighborTable s.nextHopMap) s.costMap.toList := by
  have hstart : (dijkstraStart neighborTable routeMap).Working neighborTable routeMap
      fun _ _ => False := DijkstraState.working_start
  obtain ⟨s, hok, hworking, hqueue⟩ := DijkstraState.exists_dijkstraLoop hstart
    DijkstraState.potential_start_lt
  refine ⟨s, hworking, hworking.isLabelling hqueue, ?_⟩
  rw [dijkstraTable, hok]
  rfl

/-- The only iterator that can be at its end is one of `m_nodeAddressMap`. -/
theorem dijkstraTable_eq_error {fault : LsFault}
    (h : dijkstraTable maps neighborTable routeMap = .error fault) :
    fault = .nodeAddressMap ∧ ∃ k, (k ∈ neighborTable ∨ k ∈ routeMap) ∧
        k ∉ maps.nodeAddressMap := by
  obtain ⟨s, hworking, -, htable⟩ := exists_dijkstraTable maps neighborTable routeMap
  obtain ⟨k, c, hc, hne, hentry⟩ := exists_of_rebuild_eq_error (htable ▸ h)
  obtain ⟨next, hnext⟩ := hworking.exists_hop hc hne
  have hmem := hworking.hop_mem hnext
  obtain ⟨neighbor, hneighbor⟩ := mem_iff_exists_getElem?.mp hmem
  have habsent : ∀ {k : UInt32}, maps.nodeAddressMap[k]? = none → k ∉ maps.nodeAddressMap := by
    intro k hk hmem
    obtain ⟨a, ha⟩ := mem_iff_exists_getElem?.mp hmem
    rw [hk] at ha
    cases ha
  rcases bind_eq_error.mp hentry with hfind | ⟨destAddr, -, hentry⟩
  · obtain ⟨rfl, hnone⟩ := findIn_eq_error.mp hfind
    exact ⟨rfl, k, (hworking.mem_costMap k).mp (mem_iff_exists_getElem?.mpr ⟨c, hc⟩), habsent hnone⟩
  · rw [findIn_eq_ok.mpr hnext] at hentry
    change (findIn .nodeAddressMap maps.nodeAddressMap next >>= _) = _ at hentry
    rcases bind_eq_error.mp hentry with hfind | ⟨nextHopAddr, -, hentry⟩
    · obtain ⟨rfl, hnone⟩ := findIn_eq_error.mp hfind
      exact ⟨rfl, next, Or.inl hmem, habsent hnone⟩
    · rw [findIn_eq_ok.mpr hneighbor] at hentry
      cases hentry

/-- When `m_nodeAddressMap` knows all nodes, `DijkstraAlgo` returns. -/
theorem dijkstraTable_isOk (hnt : ∀ k ∈ neighborTable, k ∈ maps.nodeAddressMap)
    (hrm : ∀ k ∈ routeMap, k ∈ maps.nodeAddressMap) :
    ∃ table, dijkstraTable maps neighborTable routeMap = .ok table := by
  cases h : dijkstraTable maps neighborTable routeMap with
  | ok table => exact ⟨table, rfl⟩
  | error fault =>
      obtain ⟨-, k, hk, habsent⟩ := dijkstraTable_eq_error h
      rcases hk with hk | hk
      · exact absurd (hnt k hk) habsent
      · exact absurd (hrm k hk) habsent

theorem nextHopNumber_mem (h : dijkstraTable maps neighborTable routeMap = .ok table)
    (he : table[k]? = some e) : e.nextHopNumber ∈ neighborTable := by
  obtain ⟨s, hworking, -, htable⟩ := exists_dijkstraTable maps neighborTable routeMap
  obtain ⟨c, hc, hne, hentry⟩ := (getElem?_rebuild (htable ▸ h)).mp he
  exact hworking.hop_mem (routeEntry_eq_ok.mp hentry).2.1

theorem exists_neighbor_entry (h : dijkstraTable maps neighborTable routeMap = .ok table)
    {neighbor : NeighborTableEntry} (hk : neighborTable[k]? = some neighbor) :
    ∃ e, table[k]? = some e ∧ e.interfaceAddr = neighbor.interfaceAddr := by
  obtain ⟨s, hworking, -, htable⟩ := exists_dijkstraTable maps neighborTable routeMap
  obtain ⟨hcost, hhop⟩ := hworking.source (mem_iff_exists_getElem?.mpr ⟨neighbor, hk⟩)
  have hrebuild := htable ▸ h
  obtain ⟨e, he⟩ := exists_of_rebuild_eq_ok hrebuild hcost (by decide)
  refine ⟨e, (getElem?_rebuild hrebuild).mpr ⟨1, hcost, by decide, he⟩, ?_⟩
  obtain ⟨-, hnext, -, ⟨neighbor', hneighbor', hi⟩, -⟩ := routeEntry_eq_ok.mp he
  obtain rfl := Option.some.inj (hhop.symm.trans hnext)
  obtain rfl := Option.some.inj (hk.symm.trans hneighbor')
  exact hi.symm

/-- There is an entry for the nodes that a path ends in, with the number of nodes
of a shortest one as its cost and its first node as the next hop. -/
theorem dijkstraTable_shortest (h : dijkstraTable maps neighborTable routeMap = .ok table)
    (k : UInt32) :
    (∀ e, table[k]? = some e →
      Path (· ∈ neighborTable) (Confirmed routeMap) e.cost.toNat e.nextHopNumber k ∧
        ∀ n hop, Path (· ∈ neighborTable) (Confirmed routeMap) n hop k → e.cost.toNat ≤ n) ∧
      ∀ n hop, Path (· ∈ neighborTable) (Confirmed routeMap) n hop k → n < uint32Max.toNat →
        ∃ e, table[k]? = some e := by
  obtain ⟨s, hworking, hlabelling, htable⟩ := exists_dijkstraTable maps neighborTable routeMap
  have hrebuild := htable ▸ h
  constructor
  · intro e he
    obtain ⟨c, hc, hne, hentry⟩ := (getElem?_rebuild hrebuild).mp he
    obtain ⟨-, hnext, -, -, rfl⟩ := routeEntry_eq_ok.mp hentry
    refine ⟨hworking.attained hc hne hnext, fun n hop hpath => ?_⟩
    exact DijkstraState.label_eq hc ▸ hlabelling.le_of_path hpath
  · intro n hop hpath hn
    obtain ⟨c, hc, hne, -⟩ :=
      DijkstraState.exists_cost_of_label_lt ((hlabelling.le_of_path hpath).trans_lt hn)
    obtain ⟨e, he⟩ := exists_of_rebuild_eq_ok hrebuild hc hne
    exact ⟨e, (getElem?_rebuild hrebuild).mpr ⟨c, hc, hne, he⟩⟩

end PennSearch
