import PennSearch.LinkState.Discovery

/-!
# How far LSPs get

Every LSP that circulates was flooded by a member, and the latest one of a member
lists its neighbour table (`Informed`). A router that has the latest LSP of `v` has
passed it on over its links, so the other end of a link that has been up ever since
`v` flooded has it too, or will receive it (`Covered`).
-/

namespace PennSearch

open MessagePassing Newest

theorem AddressMaps.mem_neighborList {maps : AddressMaps} {a : Ipv4Address} {l : List Ipv4Address}
    {details : RouteMapDetails} (h : maps.routeMapDetails a l = .ok details) (k : UInt32) :
    k ∈ details.neighborList ↔ ∃ b ∈ l, maps.addressNodeMap[b]? = some k := by
  refine foldlM_induction (P := fun done (details : RouteMapDetails) => k ∈ details.neighborList ↔
    ∃ b ∈ done, maps.addressNodeMap[b]? = some k) h (by simp [RouteMapDetails.empty]) ?_
  intro done b rest d d' _ hd hround
  obtain ⟨number, hnumber, hround⟩ := bind_eq_ok.mp hround
  cases hround
  have hb := findIn_eq_ok.mp hnumber
  simp only [RouteMapDetails.push, List.mem_append, List.mem_singleton, hd]
  constructor
  · rintro (⟨b', hb', hk⟩ | rfl)
    · exact ⟨b', Or.inl hb', hk⟩
    · exact ⟨b, Or.inr rfl, hb⟩
  · rintro ⟨b', hb' | rfl, hk⟩
    · exact Or.inl ⟨b', hb', hk⟩
    · exact Or.inr (Option.some.inj (hk.symm.trans hb))

namespace LsNode

def lastSeq (n : LsNode) : UInt64 := n.lspSequenceNumber - 1

/-- What it says, if the neighbours have not changed since. -/
def tableRecord (n : LsNode) : LspRecord :=
  ⟨n.mainAddress, n.lastSeq, n.neighborTable.toList.map fun entry => entry.2.neighborAddr⟩

theorem toNat_lastSeq {n : LsNode} (h : n.lspSequenceNumber ≠ 0) :
    n.lastSeq.toNat + 1 = n.lspSequenceNumber.toNat := by
  have hpos : 0 < n.lspSequenceNumber.toNat := by
    refine Nat.pos_of_ne_zero fun h0 => h ?_
    exact UInt64.toNat_inj.mp h0
  have hle : (1 : UInt64) ≤ n.lspSequenceNumber := UInt64.le_iff_toNat_le.mpr hpos
  rw [lastSeq, UInt64.toNat_sub_of_le _ _ hle, UInt64.toNat_one]
  omega

/-- The routes are those of the neighbours, on these or on other interfaces. -/
def Routed [CostQueue] (n : LsNode) : Prop :=
  ∃ t : NeighborTable, t.addresses = n.neighborTable.addresses ∧
    dijkstraTable n.maps t n.routeMap = .ok n.routeTable

theorem Routed.step [CostQueue] {n n' : LsNode} {e : LsEvent} (hn : n.Routed)
    (h : n.step e = .ok n') : n'.Routed := by
  obtain ⟨hmaps, htables⟩ := step_tables h
  obtain ⟨t, haddr, ht⟩ := hn
  rcases htables with ⟨hnt, hrm, hrt, -⟩ | ⟨hfresh, -⟩ | ⟨-, haddr', hnt, hrm, hrt⟩
  · exact ⟨t, hnt ▸ haddr, by rw [hmaps, hrm, hrt, ht]⟩
  · exact ⟨n'.neighborTable, rfl, hfresh⟩
  · exact ⟨t, by rw [hnt, haddr, haddr'], by rw [hmaps, hrm, hrt, ht]⟩

end LsNode

namespace LinkedNet

variable {w : Wiring} {c c' : LinkedNet w} {e : LinkedEvent} {u v x y : UInt32} {n n' : LsNode}
  {sent : List (LsSocket × LSMessage)} {p : LsPacket UInt32} {M M' R₀ : Set LspRecord}
  {R : UInt32 → Set LspRecord} {r : LspRecord}

def ListsMembers (w : Wiring) (t : NeighborTable) : Prop :=
  ∀ (k : UInt32) (entry : NeighborTableEntry), t[k]? = some entry →
    k ∈ w.members ∧ entry.neighborAddr = w.mainAddress k

theorem ListsMembers.empty : ListsMembers w ∅ := fun k entry h => by simp at h

/-- One router when the LSPs flooded so far are `M`, of which it has received those in
`R₀`: the latest one of its own lists its neighbour table. -/
structure Tracks [CostQueue] (w : Wiring) (M R₀ : Set LspRecord) (n : LsNode) : Prop where
  learned : Learned w.maps R₀ n
  sub : R₀ ⊆ M
  neighbors : ListsMembers w n.neighborTable
  current : ListsMembers w n.currentneighborTable
  latest : n.lspSequenceNumber ≠ 0 → n.tableRecord ∈ M
  silent : n.lspSequenceNumber = 0 → n.neighborTable = ∅
  routed : n.Routed

/-- The LSPs flooded so far are `M`, and the router `u` has received those in `R u`. -/
structure Informed [CostQueue] (M : Set LspRecord) (R : UInt32 → Set LspRecord)
    (c : LinkedNet w) : Prop where
  discovering : c.Discovering
  known : LspsKnown w.maps M
  tracks : ∀ u, Tracks w M (R u) (c.net.node u)
  flight : ∀ p ∈ c.net.inFlight, ∀ r, p.msg.2.lspRecord = some r → r ∈ M ∧
    (r.originatorAddress = w.mainAddress p.src ∨
      (c.net.node p.src).knowsLsp r.originatorAddress r.sequenceNumber = true)
  originated : ∀ r ∈ M, ∃ v ∈ w.members, r.originatorAddress = w.mainAddress v ∧
    r.sequenceNumber.toNat < (c.net.node v).lspSequenceNumber.toNat

variable [CostQueue]

theorem informed_start (links : Links w) (maxTTL singleHop : UInt8)
    (sequenceNumber : UInt32 → UInt32) :
    (start w links maxTTL singleHop sequenceNumber).Informed ∅ fun _ => ∅ where
  discovering := discovering_start links maxTTL singleHop sequenceNumber
  known :=
    { originator := fun r hr => absurd hr (Set.notMem_empty r)
      neighbors := fun r hr => absurd hr (Set.notMem_empty r)
      number_inj := fun r hr => absurd hr (Set.notMem_empty r)
      list_eq := fun r hr => absurd hr (Set.notMem_empty r) }
  tracks _ :=
    { learned := learned_start _ _ _ _ _ _
      sub := Set.empty_subset _
      neighbors := .empty
      current := .empty
      latest := fun h => absurd rfl h
      silent := fun _ => rfl
      routed := ⟨_, rfl, LsNode.fresh_start _ _ _ _ _ _⟩ }
  flight p hp := by cases hp
  originated r hr := absurd hr (Set.notMem_empty r)

/-! ## What a step adds -/

theorem Tracks.mono (h : Tracks w M R₀ n) (hM : M ⊆ M') : Tracks w M' R₀ n :=
  { h with
    sub := h.sub.trans hM
    latest := fun hne => hM (h.latest hne) }

/-- The timer without a flood: the neighbours are the old ones. -/
theorem Tracks.unchanged (h : Tracks w M R₀ n) (hturn : n.ndRequests = .ok (n', sent))
    (hflag : LsNode.floodingFlag n.neighborTable n.currentneighborTable = false) :
    Tracks w M R₀ n' := by
  have hstep : n.step .ndRequests = .ok n' := LsNode.step_eq_ok.mpr ⟨sent, hturn⟩
  have haddr := LsNode.floodingFlag_eq_false_iff.mp hflag
  have hlist : n.currentneighborTable.toList.map (fun entry => entry.2.neighborAddr) =
      n.neighborTable.toList.map fun entry => entry.2.neighborAddr := by
    have hmap := congrArg (fun t : Std.ExtTreeMap UInt32 Ipv4Address => t.toList.map Prod.snd) haddr
    simp only [NeighborTable.addresses_toList, List.map_map] at hmap
    exact hmap.symm
  have hlearned := h.learned.discovers (LsNode.discovers_of_ndRequests hturn)
  have hrouted := h.routed.step hstep
  rw [LsNode.ndRequests_of_not_flag hflag] at hturn
  cases hturn
  refine ⟨hlearned, h.sub, h.current, .empty, fun hne => ?_, fun h0 => ?_, hrouted⟩
  · have hrecord := h.latest hne
    rwa [LsNode.tableRecord, ← hlist] at hrecord
  · change n.currentneighborTable = ∅
    refine Std.ExtTreeMap.ext_getElem? fun k => ?_
    have hk := congrArg (fun t : Std.ExtTreeMap UInt32 Ipv4Address => t[k]?) haddr
    simp only [NeighborTable.getElem?_addresses, h.silent h0, Std.ExtTreeMap.getElem?_empty,
      Option.map_none] at hk ⊢
    exact Option.map_eq_none_iff.mp hk.symm

theorem Tracks.flooded (h : Tracks w M R₀ n) (hturn : n.ndRequests = .ok (n', sent))
    (hflag : LsNode.floodingFlag n.neighborTable n.currentneighborTable = true)
    (hwrap : n.lspSequenceNumber.toNat + 1 < 2 ^ 64) :
    Tracks w (insert n.floodRecord M) R₀ n' := by
  have hstep : n.step .ndRequests = .ok n' := LsNode.step_eq_ok.mpr ⟨sent, hturn⟩
  have hlearned := h.learned.discovers (LsNode.discovers_of_ndRequests hturn)
  have hrouted := h.routed.step hstep
  obtain ⟨table, -, rfl, -⟩ := (LsNode.ndRequests_of_flag hflag).mp hturn
  refine ⟨hlearned, h.sub.trans (Set.subset_insert _ _), h.current, .empty, fun _ => ?_,
    fun h0 => ?_, hrouted⟩
  · refine Or.inl ?_
    simp only [LsNode.tableRecord, LsNode.lastSeq, LsNode.floodRecord, LspRecord.mk.injEq,
      true_and, and_true]
    grind
  · have h1 := congrArg UInt64.toNat h0
    rw [UInt64.toNat_add, UInt64.toNat_one, Nat.mod_eq_of_lt hwrap] at h1
    cases h1

namespace Informed

theorem knows_lt (h : c.Informed M R) (hv : v ∈ w.members) {s : UInt64}
    (hknows : (c.net.node x).knowsLsp (w.mainAddress v) s = true) :
    s.toNat < (c.net.node v).lspSequenceNumber.toNat := by
  have ht := h.tracks x
  obtain ⟨r, hr, hkey, hle⟩ := (ht.learned.knowsLsp_iff (h.known.subset ht.sub) _ s).mp hknows
  obtain ⟨v', hv', hkey', hlt⟩ := h.originated r (ht.sub hr.1)
  obtain rfl := w.main_inj hv hv' (hkey.symm.trans hkey')
  exact (UInt64.le_iff_toNat_le.mp hle).trans_lt hlt

theorem mainAddress_eq (h : c.Informed M R) (u : UInt32) :
    (c.net.node u).mainAddress = w.mainAddress u :=
  (h.discovering.site u).2.1

/-- The record that a member floods has an originator of its own and a new number. -/
theorem known_flood (h : c.Informed M R) (hu : u ∈ w.members) :
    LspsKnown w.maps (insert (c.net.node u).floodRecord M) := by
  have hmain : (c.net.node u).floodRecord.originatorAddress = w.mainAddress u := h.mainAddress_eq u
  have hnumber : w.maps.addressNodeMap[(c.net.node u).floodRecord.originatorAddress]? = some u := by
    rw [hmain, w.number u hu]
  have hother : ∀ r ∈ M, w.maps.addressNodeMap[r.originatorAddress]? = some u →
      r.originatorAddress = (c.net.node u).floodRecord.originatorAddress := by
    intro r hr hru
    obtain ⟨v, hv, hkey, -⟩ := h.originated r hr
    rw [hkey, w.number v hv, Option.some.injEq] at hru
    rw [hkey, hmain, hru]
  have hnew : ∀ r ∈ M, r.originatorAddress = (c.net.node u).floodRecord.originatorAddress →
      r.sequenceNumber ≠ (c.net.node u).floodRecord.sequenceNumber := by
    intro r hr hkey hseq
    obtain ⟨v, hv, hkey', hlt⟩ := h.originated r hr
    obtain rfl := w.main_inj hv hu (hkey'.symm.trans (hkey.trans hmain))
    rw [hseq] at hlt
    exact lt_irrefl _ hlt
  refine ⟨?_, ?_, ?_, ?_⟩
  · rintro r (rfl | hr)
    · exact mem_iff_exists_getElem?.mpr ⟨u, hnumber⟩
    · exact h.known.originator r hr
  · rintro r (rfl | hr) a ha
    · obtain ⟨⟨k, entry⟩, hentry, rfl⟩ := List.mem_map.mp ha
      obtain ⟨hk, haddr⟩ := (h.tracks u).current k entry
        (Std.ExtTreeMap.mem_toList_iff_getElem?_eq_some.mp hentry)
      exact mem_iff_exists_getElem?.mpr ⟨k, haddr ▸ w.number k hk⟩
    · exact h.known.neighbors r hr a ha
  · rintro r (rfl | hr) r' (rfl | hr') hsame
    · rfl
    · exact (hother r' hr' (hsame ▸ hnumber)).symm
    · exact hother r hr (hsame ▸ hnumber)
    · exact h.known.number_inj r hr r' hr' hsame
  · rintro r (rfl | hr) r' (rfl | hr') hkey hseq
    · rfl
    · exact absurd hseq.symm (hnew r' hr' hkey.symm)
    · exact absurd hseq (hnew r hr hkey)
    · exact h.known.list_eq r hr r' hr' hkey hseq

/-- A router acts: what it has received, and what it sends, are records of `M'`. -/
theorem act (h : c.Informed M R) (net : LsNet UInt32) (hnode : net.node = c.net.node)
    (hflight : ∀ p ∈ net.inFlight, p ∈ c.net.inFlight)
    (hd : ({ c with net := net.act u n (transmit c.links.ears u sent) } : LinkedNet w).Discovering)
    (hM : M ⊆ M') (hknown : LspsKnown w.maps M') (hR : R u ⊆ R₀) (ht : Tracks w M' R₀ n)
    (hseq : (c.net.node u).lspSequenceNumber.toNat ≤ n.lspSequenceNumber.toNat)
    (hnew : ∀ r ∈ M', r ∈ M ∨ (u ∈ w.members ∧ r.originatorAddress = w.mainAddress u ∧
      r.sequenceNumber.toNat < n.lspSequenceNumber.toNat))
    (hsent : ∀ q ∈ sent, ∀ r, q.2.lspRecord = some r → r ∈ M' ∧
      (r.originatorAddress = w.mainAddress u ∨
        n.knowsLsp r.originatorAddress r.sequenceNumber = true)) :
    ({ c with net := net.act u n (transmit c.links.ears u sent) } : LinkedNet w).Informed M'
      (Function.update R u R₀) where
  discovering := hd
  known := hknown
  tracks x := by
    change Tracks w M' _ ((net.act u n _).node x)
    by_cases hx : x = u
    · rw [hx, Net.act_node_self, Function.update_self]
      exact ht
    · rw [Net.act_node_of_ne _ _ _ hx, Function.update_of_ne hx, hnode]
      exact (h.tracks x).mono hM
  flight p hp r hr := by
    change r ∈ M' ∧ (_ ∨ ((net.act u n _).node p.src).knowsLsp _ _ = true)
    rcases List.mem_append.mp hp with hp | hp
    · obtain ⟨hmem, hknows⟩ := h.flight p (hflight p hp) r hr
      refine ⟨hM hmem, hknows.imp_right fun hknows => ?_⟩
      by_cases hsrc : p.src = u
      · rw [hsrc, Net.act_node_self]
        rw [hsrc] at hknows
        exact (h.tracks u).learned.knows_mono ht.learned (hknown.subset ht.sub) hR hknows
      · rw [Net.act_node_of_ne _ _ _ hsrc, hnode]
        exact hknows
    · obtain ⟨hsrc, s, -, -, hq⟩ := mem_transmit_ears.mp hp
      rw [hsrc, Net.act_node_self]
      exact hsent (s, p.msg.2) hq r hr
  originated r hr := by
    rcases hnew r hr with hr | ⟨hu, hkey, hlt⟩
    · obtain ⟨v, hv, hkey, hlt⟩ := h.originated r hr
      refine ⟨v, hv, hkey, hlt.trans_le ?_⟩
      change _ ≤ ((net.act u n _).node v).lspSequenceNumber.toNat
      by_cases hvu : v = u
      · rw [hvu, Net.act_node_self]
        exact hseq
      · rw [Net.act_node_of_ne _ _ _ hvu, hnode]
    · refine ⟨u, hu, hkey, ?_⟩
      change _ < ((net.act u n _).node u).lspSequenceNumber.toNat
      rw [Net.act_node_self]
      exact hlt

/-- A packet without an LSP changes nothing that is known, and a record that arrives is
known afterwards, and forwarded unless it was known. -/
theorem recv (h : c.Informed M R) (hp : p ∈ c.net.inFlight)
    (hrecv : (c.net.node p.dst).recvLSMessage p.msg.1 p.msg.2 = .ok (n, sent)) :
    n.lspSequenceNumber = (c.net.node p.dst).lspSequenceNumber ∧
      ∃ R₀, R p.dst ⊆ R₀ ∧ Tracks w M R₀ n ∧
        ((p.msg.2.lspRecord = none ∧ (∀ q ∈ sent, q.2.lspRecord = none) ∧
            n.lspSequenceNumberTable = (c.net.node p.dst).lspSequenceNumberTable) ∨
          ∃ r, p.msg.2.lspRecord = some r ∧
            (∀ b t, n.knowsLsp b t = true ↔ (r.originatorAddress = b ∧ t ≤ r.sequenceNumber) ∨
              (c.net.node p.dst).knowsLsp b t = true) ∧
            (((c.net.node p.dst).knowsLsp r.originatorAddress r.sequenceNumber = true ∧ sent = []) ∨
              sent = (c.net.node p.dst).forwardPacket p.msg.2.forwarded p.msg.1)) := by
  have ht := h.tracks p.dst
  rcases h.discovering.recv hp hrecv with ⟨hreq, rfl, answer, hanswer, -, rfl⟩ |
    ⟨hrsp, rfl, interfaceAddr, rfl⟩ | ⟨r, hr, hsite, hnt, hcur, hseq, -⟩
  · refine ⟨rfl, _, Set.Subset.refl _, ht, Or.inl ⟨LSMessage.lspRecord_of_isNdReq hreq, ?_, rfl⟩⟩
    intro q hq
    rw [List.mem_singleton.mp hq]
    exact LSMessage.lspRecord_of_isNdRspFor hanswer
  · have hnone := LSMessage.lspRecord_of_isNdRspFor hrsp
    obtain ⟨t, hpeer⟩ := h.discovering.wired p hp
    have hlearned := ht.learned.discovers (LsNode.discovers_of_recv hrecv hnone)
    refine ⟨rfl, _, Set.Subset.refl _, { ht with learned := hlearned, current := ?_ },
      Or.inl ⟨hnone, by simp, rfl⟩⟩
    intro k entry hentry
    rw [getElem?_insert_eq] at hentry
    split at hentry
    · rename_i hk
      cases hentry
      exact hk ▸ ⟨(w.peer_mem_right hpeer).1, rfl⟩
    · exact ht.current k entry hentry
  · have hlearned := ht.learned.step h.known ht.sub
      (e := .recv p.msg.1 p.msg.2) (fun r' hr' => (h.flight p hp r' hr').1)
      (LsNode.step_eq_ok.mpr ⟨sent, hrecv⟩)
    have hrouted := ht.routed.step (e := .recv p.msg.1 p.msg.2)
      (LsNode.step_eq_ok.mpr ⟨sent, hrecv⟩)
    have hsub : R p.dst ∪ {r | p.msg.2.lspRecord = some r} ⊆ M :=
      Set.union_subset ht.sub fun r' hr' => (h.flight p hp r' hr').1
    have hrecord : n.tableRecord = (c.net.node p.dst).tableRecord := by
      rw [LsNode.tableRecord, LsNode.lastSeq, hnt, hseq, hsite.mainAddress]
      rfl
    refine ⟨hseq, _, Set.subset_union_left, ⟨hlearned, hsub, hnt ▸ ht.neighbors, hcur ▸ ht.current,
      fun hne => hrecord ▸ ht.latest (hseq ▸ hne), fun h0 => hnt.trans (ht.silent (hseq ▸ h0)),
      hrouted⟩, Or.inr ⟨r, hr, ?_⟩⟩
    cases hknows : (c.net.node p.dst).knowsLsp r.originatorAddress r.sequenceNumber with
    | true =>
        rw [LsNode.recv_lsp_of_knows hr hknows] at hrecv
        cases hrecv
        refine ⟨fun b t => (or_iff_right_of_imp ?_).symm, Or.inl ⟨rfl, rfl⟩⟩
        rintro ⟨rfl, hle⟩
        obtain ⟨r₀, hr₀, hkey, hle₀⟩ :=
          (ht.learned.knowsLsp_iff (h.known.subset ht.sub) _ _).mp hknows
        exact hkey ▸ ht.learned.knows_of_mem (h.known.subset ht.sub) hr₀.1
            (UInt64.le_trans hle hle₀)
    | false =>
        obtain ⟨k, details, table, -, -, -, rfl, rfl⟩ :=
            (LsNode.recv_lsp_of_not_knows hr hknows).mp hrecv
        exact ⟨fun b t => LsNet.knowsLsp_insert hknows, Or.inr rfl⟩

/-- A step may flood a new record. -/
theorem step (h : c.Informed M R) (hok : c.Allowed e) (hstep : c.step e = .ok c') :
    ∃ M' R', c'.Informed M' R' := by
  have hd := h.discovering.step hok hstep
  rcases step_cases hok hstep with ⟨u, s, b, rfl, rfl⟩ |
    ⟨u, n, sent, rfl, hu, hwrap, hturn, rfl⟩ | ⟨k, p, n, sent, rfl, hp, hrecv, rfl⟩
  · exact ⟨M, R, hd, h.known, h.tracks, h.flight, h.originated⟩
  · obtain ⟨-, -, -, -, -, request, hreq, -, hsent⟩ := LsNode.ndRequests_spec hturn
    have hrequest : ∀ q ∈ (c.net.node u).broadcastPacket request, q.2.lspRecord = none := by
      rintro ⟨s, m⟩ hq
      exact LSMessage.lspRecord_of_isNdReq ((LsNode.mem_broadcastPacket.mp hq).2 ▸ hreq)
    rcases hsent with ⟨hflag, hseq, rfl⟩ | ⟨hflag, hseq, flood, hflood, rfl⟩
    · refine ⟨_, _, h.act c.net rfl (fun _ => id) hd (Set.Subset.refl M) h.known
        (Set.Subset.refl _) ((h.tracks u).unchanged hturn hflag) (hseq ▸ le_rfl)
        (fun r hr => Or.inl hr) fun q hq r hr => ?_⟩
      rw [hrequest q hq] at hr
      cases hr
    · have hnext : n.lspSequenceNumber.toNat = (c.net.node u).lspSequenceNumber.toNat + 1 := by
        rw [hseq, UInt64.toNat_add, UInt64.toNat_one, Nat.mod_eq_of_lt hwrap]
      refine ⟨_, _, h.act c.net rfl (fun _ => id) hd (Set.subset_insert _ M) (h.known_flood hu)
        (Set.Subset.refl _) ((h.tracks u).flooded hturn hflag hwrap) (by omega) ?_ ?_⟩
      · rintro r (rfl | hr)
        · exact Or.inr ⟨hu, h.mainAddress_eq u, hnext ▸ Nat.lt_succ_self _⟩
        · exact Or.inl hr
      · intro q hq r hr
        rcases List.mem_append.mp hq with hq | hq
        · rw [(LsNode.mem_broadcastPacket.mp hq).2, hflood] at hr
          cases hr
          exact ⟨Set.mem_insert _ M, Or.inl (h.mainAddress_eq u)⟩
        · rw [hrequest q hq] at hr
          cases hr
  · have hmem := List.mem_of_getElem? hp
    obtain ⟨hseq, R₀, hR, ht, hcase⟩ := h.recv hmem hrecv
    refine ⟨_, _, h.act (c.net.take k) rfl (fun q hq => List.mem_of_mem_eraseIdx hq) hd
      (Set.Subset.refl M) h.known hR ht (hseq ▸ le_rfl) (fun r hr => Or.inl hr) fun q hq r hr => ?_⟩
    rcases hcase with ⟨-, hnone, -⟩ | ⟨r', hr', hknows, ⟨-, rfl⟩ | rfl⟩
    · rw [hnone q hq] at hr
      cases hr
    · cases hq
    · obtain ⟨socket, m⟩ := q
      obtain ⟨-, -, hm⟩ := LsNode.mem_forwardPacket.mp hq
      change m.lspRecord = some r at hr
      rw [hm, LSMessage.lspRecord_forwarded, hr'] at hr
      cases hr
      exact ⟨(h.flight p hmem _ hr').1, Or.inr ((hknows _ _).mpr (Or.inl ⟨rfl, UInt64.le_refl _⟩))⟩

/-- No iterator is at its end: whatever is allowed can happen. -/
theorem isOk (h : c.Informed M R) (hok : c.Allowed e) : ∃ c', c.step e = .ok c' := by
  have hsuccess : ∀ {e : LsNetEvent UInt32} {net}, LsNet.step c.links.ears c.net e = .ok net →
      c.step (.router e) = .ok { c with net := net } := fun hnet => bind_eq_ok.mpr ⟨_, hnet, rfl⟩
  match e with
  | .link u s b => exact ⟨_, rfl⟩
  | .router (.ndRequests u) =>
      obtain ⟨n, sent, hturn⟩ : ∃ n sent, (c.net.node u).ndRequests = .ok (n, sent) := by
        cases hflag : LsNode.floodingFlag (c.net.node u).neighborTable
            (c.net.node u).currentneighborTable with
        | false => exact ⟨_, _, LsNode.ndRequests_of_not_flag hflag⟩
        | true =>
            have hl := (h.tracks u).learned
            have hmap : ∀ k ∈ (c.net.node u).routeMap, k ∈ w.maps.nodeAddressMap := by
              intro k hk
              obtain ⟨details, hdetails⟩ := mem_iff_exists_getElem?.mp hk
              obtain ⟨r, -, hnumber, -⟩ := (hl.map k details).mp hdetails
              exact w.maps.resolves hnumber
            obtain ⟨table, htable⟩ := dijkstraTable_isOk hl.current hmap
            exact ⟨_, _, (LsNode.ndRequests_of_flag hflag).mpr
              ⟨table, hl.maps_eq ▸ htable, rfl, rfl⟩⟩
      exact ⟨_, hsuccess (bind_eq_ok.mpr ⟨_, hturn, rfl⟩)⟩
  | .router (.deliver k) =>
      have hp : c.net.inFlight[k]? = some c.net.inFlight[k] := List.getElem?_eq_getElem hok
      generalize c.net.inFlight[k] = p at hp
      have hmem := List.mem_of_getElem? hp
      obtain ⟨t, hpeer⟩ := h.discovering.wired p hmem
      obtain ⟨hmaps, -, hsockets⟩ := h.discovering.site p.dst
      obtain ⟨a, ha⟩ : ∃ a, findIn LsFault.socketAddresses
          (c.net.node p.dst).socketAddresses p.msg.1 =
          .ok a := exists_findIn_of_mem (hsockets ▸ (w.peer_mem hpeer).2.1)
      obtain ⟨⟨n, sent⟩, hrecv⟩ : ∃ r,
          (c.net.node p.dst).recvLSMessage p.msg.1 p.msg.2 = .ok r := by
        rcases h.discovering.kind p hmem with
          ⟨⟨ping, hping⟩, -⟩ | ⟨⟨ping, hping, -⟩, horig⟩ | ⟨r, hr⟩
        · rw [LsNode.recvLSMessage, hping]
          exact ⟨_, bind_eq_ok.mpr ⟨a, ha, rfl⟩⟩
        · rw [LsNode.recvLSMessage, hping]
          change ∃ r, LsNode.processNdRsp _ _ _ _ = .ok r
          rw [LsNode.processNdRsp]
          split
          · have hnumber :
                (c.net.node p.dst).maps.numberOf p.msg.2.originatorAddress = .ok p.src := by
              rw [hmaps, horig]
              exact findIn_eq_ok.mpr (w.number p.src (w.peer_mem_right hpeer).1)
            exact ⟨_, bind_eq_ok.mpr ⟨a, ha, bind_eq_ok.mpr ⟨_, hnumber, rfl⟩⟩⟩
          · exact ⟨_, rfl⟩
        · have ht := h.tracks p.dst
          obtain ⟨n, sent, hrecv, -⟩ := ht.learned.recv_lsp h.known ht.sub
              (h.flight p hmem r hr).1 hr
            p.msg.1
          exact ⟨_, hrecv⟩
      have hnet : LsNet.step c.links.ears c.net (.deliver k) =
          .ok ((c.net.take k).act p.dst n (transmit c.links.ears p.dst sent)) := by
        simp only [LsNet.step, hp, bind_eq_ok]
        exact ⟨_, hrecv, rfl⟩
      exact ⟨_, hsuccess hnet⟩

end Informed

end LinkedNet

end PennSearch
