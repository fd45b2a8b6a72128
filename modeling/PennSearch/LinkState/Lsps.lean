import PennSearch.Library.Newest
import PennSearch.LinkState.Freshness

/-!
# What a router learns from LSPs

An `LspRecord` is what an LSP says: its originator, sequence number and neighbour
list. After any messages and timers, the sequence number table and the route map
of a router hold the newest record of each originator among those received
(`Learned`), whatever the order and the repetition, as long as different
originators have different node numbers. A record is forwarded only when it is
newer than the one known, and so at most once (`forwarded_nodup`).
-/

namespace PennSearch

open MessagePassing Newest

structure LspRecord where
  originatorAddress : Ipv4Address
  sequenceNumber : UInt64
  neighborAddrlist : List Ipv4Address
deriving DecidableEq

def LSMessage.lspRecord (m : LSMessage) : Option LspRecord :=
  match m.payload with
  | .lsp lsp => some ⟨m.originatorAddress, lsp.sequenceNumber, lsp.neighborAddrlist⟩
  | _ => none

theorem LSMessage.lspRecord_eq_some {m : LSMessage} {r : LspRecord} :
    m.lspRecord = some r ↔ ∃ lsp, m.payload = .lsp lsp ∧
      ⟨m.originatorAddress, lsp.sequenceNumber, lsp.neighborAddrlist⟩ = r := by
  unfold LSMessage.lspRecord
  split
  · rename_i lsp hp
    simp [hp]
  · rename_i hp
    refine iff_of_false (by simp) ?_
    rintro ⟨lsp, hlsp, -⟩
    exact hp lsp hlsp

def LSMessage.forwarded (m : LSMessage) : LSMessage :=
  match m.payload with
  | .lsp lsp => ⟨m.sequenceNumber, m.ttl - 1, m.originatorAddress,
      .lsp { lsp with message := forwardingText }⟩
  | _ => m

theorem LSMessage.lspRecord_forwarded (m : LSMessage) : m.forwarded.lspRecord = m.lspRecord := by
  unfold LSMessage.forwarded
  split
  · rename_i lsp hp
    simp [LSMessage.lspRecord, hp]
  · rfl

def LsEvent.lspRecord : LsEvent → Option LspRecord
  | .recv _ message => message.lspRecord
  | .ndRequests => none

def received (es : List LsEvent) : Set LspRecord := {r | r ∈ es.filterMap LsEvent.lspRecord}

abbrev NewestLsp (R : Set LspRecord) (r : LspRecord) : Prop :=
  IsNewest LspRecord.originatorAddress (fun r => r.sequenceNumber.toNat) R r

theorem exists_newestLsp {R : Set LspRecord} {r : LspRecord} (hR : R.Finite) (hr : r ∈ R) :
    ∃ r₀, NewestLsp R r₀ ∧ r₀.originatorAddress = r.originatorAddress :=
  exists_isNewest hR hr

/-- The addresses in the records are known, different originators have different
node numbers, and a sequence number stands for one neighbour list. -/
structure LspsKnown (maps : AddressMaps) (M : Set LspRecord) : Prop where
  originator : ∀ r ∈ M, r.originatorAddress ∈ maps.addressNodeMap
  neighbors : ∀ r ∈ M, ∀ a ∈ r.neighborAddrlist, a ∈ maps.addressNodeMap
  number_inj : ∀ r ∈ M, ∀ r' ∈ M,
    maps.addressNodeMap[r.originatorAddress]? = maps.addressNodeMap[r'.originatorAddress]? →
      r.originatorAddress = r'.originatorAddress
  list_eq : ∀ r ∈ M, ∀ r' ∈ M, r.originatorAddress = r'.originatorAddress →
    r.sequenceNumber = r'.sequenceNumber → r.neighborAddrlist = r'.neighborAddrlist

theorem LspsKnown.subset {maps : AddressMaps} {R M : Set LspRecord} (hM : LspsKnown maps M)
    (hR : R ⊆ M) : LspsKnown maps R where
  originator r hr := hM.originator r (hR hr)
  neighbors r hr := hM.neighbors r (hR hr)
  number_inj r hr r' hr' := hM.number_inj r (hR hr) r' (hR hr')
  list_eq r hr r' hr' := hM.list_eq r (hR hr) r' (hR hr')

theorem LspsKnown.eq_of_stamp {maps : AddressMaps} {M : Set LspRecord} (hM : LspsKnown maps M)
    {r r' : LspRecord} (hr : r ∈ M) (hr' : r' ∈ M)
    (hkey : r.originatorAddress = r'.originatorAddress)
    (hseq : r.sequenceNumber.toNat = r'.sequenceNumber.toNat) : r = r' := by
  have hseq' := UInt64.toNat_inj.mp hseq
  have hlist := hM.list_eq r hr r' hr' hkey hseq'
  obtain ⟨a, s, l⟩ := r
  obtain ⟨a', s', l'⟩ := r'
  obtain rfl : a = a' := hkey
  obtain rfl : s = s' := hseq'
  obtain rfl : l = l' := hlist
  rfl

theorem AddressMaps.numberOf_isOk {maps : AddressMaps} {a : Ipv4Address}
    (h : a ∈ maps.addressNodeMap) : ∃ k, maps.numberOf a = .ok k :=
  exists_findIn_of_mem h

theorem AddressMaps.routeMapDetails_isOk {maps : AddressMaps} {a : Ipv4Address}
    {l : List Ipv4Address} (h : ∀ b ∈ l, b ∈ maps.addressNodeMap) :
    ∃ details, maps.routeMapDetails a l = .ok details := by
  obtain ⟨details, hok, -⟩ := exists_foldlM_eq_ok (P := fun _ _ => True)
    (l := l) (a := RouteMapDetails.empty a)
    (f := fun details neighborAddr => do
      let number ← maps.numberOf neighborAddr
      return details.push neighborAddr number) trivial (by
    rintro done b rest details hl -
    obtain ⟨k, hk⟩ := maps.numberOf_isOk (h b (by rw [hl]; simp))
    exact ⟨details.push b k, bind_eq_ok.mpr ⟨k, hk, rfl⟩, trivial⟩)
  exact ⟨details, hok⟩

variable [CostQueue] {n n' : LsNode} {e : LsEvent} {maps : AddressMaps} {R M : Set LspRecord}
  {r : LspRecord}

namespace LsNode

/-- What is known from LSPs is unchanged, and new neighbours have known addresses. -/
structure Discovers (n n' : LsNode) : Prop where
  maps_eq : n'.maps = n.maps
  seq_eq : n'.lspSequenceNumberTable = n.lspSequenceNumberTable
  map_eq : n'.routeMap = n.routeMap
  neighbor : ∀ k ∈ n'.neighborTable, k ∈ n.neighborTable ∨ k ∈ n.currentneighborTable
  current : ∀ k ∈ n'.currentneighborTable, k ∈ n.currentneighborTable ∨
    ∃ a : Ipv4Address, n.maps.addressNodeMap[a]? = some k

variable {m : LSMessage} {socket : LsSocket} {sent : List (LsSocket × LSMessage)}

theorem discovers_of_ndRequests (h : n.ndRequests = .ok (n', sent)) : Discovers n n' := by
  cases hflag : floodingFlag n.neighborTable n.currentneighborTable with
  | false =>
      rw [ndRequests_of_not_flag hflag] at h
      cases h
      exact ⟨rfl, rfl, rfl, fun _ => Or.inr, fun k hk => absurd hk Std.ExtTreeMap.not_mem_empty⟩
  | true =>
      obtain ⟨table, htable, rfl, -⟩ := (ndRequests_of_flag hflag).mp h
      exact ⟨rfl, rfl, rfl, fun _ => Or.inr, fun k hk => absurd hk Std.ExtTreeMap.not_mem_empty⟩

theorem discovers_of_recv (h : n.recvLSMessage socket m = .ok (n', sent))
    (hm : m.lspRecord = none) : Discovers n n' := by
  rcases recvLSMessage_cases h with ⟨lsp, hp, -⟩ | ⟨-, -, ⟨tracker, rfl⟩ | ⟨k, entry, hk, rfl⟩⟩
  · simp [LSMessage.lspRecord, hp] at hm
  · exact ⟨rfl, rfl, rfl, fun _ => Or.inl, fun _ => Or.inl⟩
  · refine ⟨rfl, rfl, rfl, fun _ => Or.inl, fun k' hk' => ?_⟩
    rw [Std.ExtTreeMap.mem_insert, Std.compare_eq_iff_eq] at hk'
    rcases hk' with rfl | hk'
    · exact Or.inr ⟨_, findIn_eq_ok.mp hk⟩
    · exact Or.inl hk'

theorem recv_lsp_of_knows (hm : m.lspRecord = some r)
    (h : n.knowsLsp r.originatorAddress r.sequenceNumber = true) :
    n.recvLSMessage socket m = .ok (n, []) := by
  obtain ⟨lsp, hp, rfl⟩ := LSMessage.lspRecord_eq_some.mp hm
  rw [recvLSMessage, hp]
  exact processLsp_of_knows h

theorem recv_lsp_of_not_knows (hm : m.lspRecord = some r)
    (h : n.knowsLsp r.originatorAddress r.sequenceNumber = false) :
    n.recvLSMessage socket m = .ok (n', sent) ↔
      ∃ (sourceNode : UInt32) (details : RouteMapDetails) (table : RouteTable),
        n.maps.addressNodeMap[r.originatorAddress]? = some sourceNode ∧
        n.maps.routeMapDetails r.originatorAddress r.neighborAddrlist = .ok details ∧
        dijkstraTable n.maps n.neighborTable (n.routeMap.insert sourceNode details) = .ok table ∧
        n' = { n with
          lspSequenceNumberTable :=
            n.lspSequenceNumberTable.insert r.originatorAddress r.sequenceNumber
          routeMap := n.routeMap.insert sourceNode details
          routeTable := table } ∧
        sent = n.forwardPacket m.forwarded socket := by
  obtain ⟨lsp, hp, rfl⟩ := LSMessage.lspRecord_eq_some.mp hm
  have hforward : m.forwarded = ⟨m.sequenceNumber, m.ttl - 1, m.originatorAddress,
      .lsp { lsp with message := forwardingText }⟩ := by
    rw [LSMessage.forwarded, hp]
  rw [recvLSMessage, hp, hforward]
  have hnumber : ∀ k, n.maps.numberOf m.originatorAddress = .ok k ↔
      n.maps.addressNodeMap[m.originatorAddress]? = some k := fun k => findIn_eq_ok
  simp only [← hnumber]
  exact processLsp_of_not_knows h

end LsNode

/-! ## One router -/

/-- The tables hold the newest records of `R`, and the neighbours are known. -/
structure Learned (maps : AddressMaps) (R : Set LspRecord) (n : LsNode) : Prop where
  finite : R.Finite
  maps_eq : n.maps = maps
  seq : ∀ (a : Ipv4Address) (s : UInt64), n.lspSequenceNumberTable[a]? = some s ↔
    ∃ r, NewestLsp R r ∧ r.originatorAddress = a ∧ r.sequenceNumber = s
  map : ∀ (k : UInt32) (details : RouteMapDetails), n.routeMap[k]? = some details ↔
    ∃ r, NewestLsp R r ∧ maps.addressNodeMap[r.originatorAddress]? = some k ∧
      maps.routeMapDetails r.originatorAddress r.neighborAddrlist = .ok details
  neighbor : ∀ k ∈ n.neighborTable, k ∈ maps.nodeAddressMap
  current : ∀ k ∈ n.currentneighborTable, k ∈ maps.nodeAddressMap

omit [CostQueue] in
theorem Learned.discovers (h : Learned maps R n) (hd : n.Discovers n') : Learned maps R n' where
  finite := h.finite
  maps_eq := hd.maps_eq.trans h.maps_eq
  seq := hd.seq_eq ▸ h.seq
  map := hd.map_eq ▸ h.map
  neighbor k hk := (hd.neighbor k hk).elim (h.neighbor k) (h.current k)
  current k hk := by
    rcases hd.current k hk with hk | ⟨a, ha⟩
    · exact h.current k hk
    · exact maps.resolves (h.maps_eq ▸ ha)

omit [CostQueue] in
theorem Learned.knowsLsp_iff (h : Learned maps R n) (hR : LspsKnown maps R) (a : Ipv4Address)
    (s : UInt64) :
    n.knowsLsp a s = true ↔
      ∃ r, NewestLsp R r ∧ r.originatorAddress = a ∧ s ≤ r.sequenceNumber := by
  unfold LsNode.knowsLsp
  cases hs : n.lspSequenceNumberTable[a]? with
  | none =>
      refine iff_of_false (by simp) ?_
      rintro ⟨r, hr, rfl, -⟩
      have hsome := (h.seq r.originatorAddress r.sequenceNumber).mpr ⟨r, hr, rfl, rfl⟩
      rw [hs] at hsome
      cases hsome
  | some known =>
      obtain ⟨r, hr, rfl, rfl⟩ := (h.seq a known).mp hs
      rw [decide_eq_true_iff]
      constructor
      · exact fun hle => ⟨r, hr, rfl, hle⟩
      · rintro ⟨r', hr', hkey, hle⟩
        obtain rfl := hr'.unique (fun r hr r' hr' => hR.eq_of_stamp hr hr') hr hkey
        exact hle

/-- The records of a collection whose numbers are known to a router that has
learned a part of it. -/
theorem Learned.recv_lsp (h : Learned maps R n) (hM : LspsKnown maps M) (hR : R ⊆ M) (hr : r ∈ M)
    {m : LSMessage} (hm : m.lspRecord = some r) (socket : LsSocket) :
    ∃ n' sent, n.recvLSMessage socket m = .ok (n', sent) ∧ Learned maps (insert r R) n' ∧
      n'.socketAddresses = n.socketAddresses ∧ n'.mainAddress = n.mainAddress ∧
      n'.neighborTable = n.neighborTable ∧ n'.currentneighborTable = n.currentneighborTable ∧
      ((n.knowsLsp r.originatorAddress r.sequenceNumber = true ∧ n' = n ∧ sent = []) ∨
        (n.knowsLsp r.originatorAddress r.sequenceNumber = false ∧
          sent = n.forwardPacket m.forwarded socket)) := by
  have hRM := hM.subset hR
  cases hknows : n.knowsLsp r.originatorAddress r.sequenceNumber with
  | true =>
      refine ⟨n, [], LsNode.recv_lsp_of_knows hm hknows, ?_, rfl, rfl, rfl, rfl,
        Or.inl ⟨rfl, rfl, rfl⟩⟩
      obtain ⟨r₀, hr₀, hkey, hle⟩ := (h.knowsLsp_iff hRM _ _).mp hknows
      have hsame : ∀ r', NewestLsp (insert r R) r' ↔ NewestLsp R r' := fun r' =>
        isNewest_insert_of_le hr₀.1 hkey (UInt64.le_iff_toNat_le.mp hle)
          fun heq => hM.eq_of_stamp hr (hR hr₀.1) hkey.symm heq
      exact ⟨h.finite.insert r, h.maps_eq, by simpa only [hsame] using h.seq,
          by simpa only [hsame] using h.map,
        h.neighbor, h.current⟩
  | false =>
      obtain ⟨k, hk⟩ := mem_iff_exists_getElem?.mp (hM.originator r hr)
      obtain ⟨details, hdetails⟩ := maps.routeMapDetails_isOk (a := r.originatorAddress)
        (hM.neighbors r hr)
      have hmap : ∀ k' ∈ n.routeMap.insert k details, k' ∈ maps.nodeAddressMap := by
        intro k' hk'
        rw [Std.ExtTreeMap.mem_insert, Std.compare_eq_iff_eq] at hk'
        rcases hk' with rfl | hk'
        · exact maps.resolves hk
        · obtain ⟨d, hd⟩ := mem_iff_exists_getElem?.mp hk'
          obtain ⟨r', -, hr', -⟩ := (h.map k' d).mp hd
          exact maps.resolves hr'
      obtain ⟨table, htable⟩ := dijkstraTable_isOk h.neighbor hmap
      have hok := (@LsNode.recv_lsp_of_not_knows _ n _ r m socket _ hm hknows).mpr
        ⟨k, details, table, h.maps_eq ▸ hk, h.maps_eq ▸ hdetails, h.maps_eq ▸ htable, rfl, rfl⟩
      refine ⟨_, _, hok, ?_, rfl, rfl, rfl, rfl, Or.inr ⟨rfl, rfl⟩⟩
      have hnewer : ∀ r' ∈ R, r'.originatorAddress = r.originatorAddress →
          r'.sequenceNumber.toNat < r.sequenceNumber.toNat := by
        intro r' hr' hkey
        obtain ⟨r₀, hr₀, hkey₀⟩ := exists_newestLsp h.finite hr'
        refine (hr₀.2 r' hr' hkey₀.symm).trans_lt (UInt64.lt_iff_toNat_lt.mp ?_)
        refine UInt64.not_le.mp fun hle => ?_
        rw [(h.knowsLsp_iff hRM _ _).mpr ⟨r₀, hr₀, hkey₀.trans hkey, hle⟩] at hknows
        cases hknows
      have hnewest : ∀ r', NewestLsp (insert r R) r' ↔
          r' = r ∨ (r'.originatorAddress ≠ r.originatorAddress ∧ NewestLsp R r') :=
        fun r' => isNewest_insert_of_lt hnewer
      refine ⟨h.finite.insert r, h.maps_eq, fun a s => ?_, fun k' d => ?_, h.neighbor, h.current⟩
      · simp only [getElem?_insert_eq, hnewest]
        by_cases ha : r.originatorAddress = a
        · rw [if_pos ha, Option.some.injEq]
          constructor
          · exact fun hs => ⟨r, Or.inl rfl, ha, hs⟩
          · rintro ⟨r', rfl | ⟨hne, -⟩, hkey, hs⟩
            · exact hs
            · exact absurd (hkey.trans ha.symm) hne
        · rw [if_neg ha, h.seq]
          constructor
          · rintro ⟨r', hr', hkey, hs⟩
            exact ⟨r', Or.inr ⟨fun hne => ha (hne.symm.trans hkey), hr'⟩, hkey, hs⟩
          · rintro ⟨r', rfl | ⟨-, hr'⟩, hkey, hs⟩
            · exact absurd hkey ha
            · exact ⟨r', hr', hkey, hs⟩
      · simp only [getElem?_insert_eq, hnewest]
        by_cases hkk : k = k'
        · rw [if_pos hkk, Option.some.injEq]
          constructor
          · exact fun hd => ⟨r, Or.inl rfl, hkk ▸ hk, hd ▸ hdetails⟩
          · rintro ⟨r', rfl | ⟨hne, hr'⟩, hnum, hd⟩
            · exact Except.ok.inj (hdetails.symm.trans hd)
            · refine absurd (hM.number_inj r' (hR hr'.1) r hr ?_) hne
              rw [hnum, hk, hkk]
        · rw [if_neg hkk, h.map]
          constructor
          · rintro ⟨r', hr', hnum, hd⟩
            refine ⟨r', Or.inr ⟨fun hkey => hkk ?_, hr'⟩, hnum, hd⟩
            rw [hkey, hk] at hnum
            exact Option.some.inj hnum
          · rintro ⟨r', rfl | ⟨-, hr'⟩, hnum, hd⟩
            · rw [hk] at hnum
              exact absurd (Option.some.inj hnum) hkk
            · exact ⟨r', hr', hnum, hd⟩

/-! ## Runs of one router -/

def lspPairs (sent : List (LsSocket × LSMessage)) : List (Ipv4Address × UInt64) :=
  ((sent.filterMap fun p => p.2.lspRecord).map fun r =>
    (r.originatorAddress, r.sequenceNumber)).dedup

omit [CostQueue] in
theorem mem_lspPairs {sent : List (LsSocket × LSMessage)} {a : Ipv4Address} {s : UInt64} :
    (a, s) ∈ lspPairs sent ↔ ∃ p ∈ sent, ∃ r, p.2.lspRecord = some r ∧
      r.originatorAddress = a ∧ r.sequenceNumber = s := by
  simp only [lspPairs, List.mem_dedup, List.mem_map, List.mem_filterMap, Prod.mk.injEq]
  constructor
  · rintro ⟨r, ⟨p, hp, hr⟩, hkey, hs⟩
    exact ⟨p, hp, r, hr, hkey, hs⟩
  · rintro ⟨p, hp, r, hr, hkey, hs⟩
    exact ⟨r, ⟨p, hp, hr⟩, hkey, hs⟩

def LsNode.forwards (n : LsNode) : LsEvent → List (Ipv4Address × UInt64)
  | .ndRequests => []
  | .recv socket message =>
      match n.recvLSMessage socket message with
      | .ok (_, sent) => lspPairs sent
      | .error _ => []

def forwarded (s : LsNode) (es : List LsEvent) : List (Ipv4Address × UInt64) :=
  history LsNode.step (fun n e pairs => pairs ++ n.forwards e) s [] es

theorem LsNode.lspRecord_of_recv {m : LSMessage} {socket : LsSocket}
    {sent : List (LsSocket × LSMessage)} (h : n.recvLSMessage socket m = .ok (n', sent))
    (hm : m.lspRecord = none) : ∀ p ∈ sent, p.2.lspRecord = none := by
  rcases recvLSMessage_cases h with ⟨lsp, hp, -⟩ | ⟨-, hsent, -⟩
  · simp [LSMessage.lspRecord, hp] at hm
  · intro p hp
    refine Option.eq_none_iff_forall_ne_some.mpr fun r hr => ?_
    obtain ⟨lsp, hlsp, -⟩ := LSMessage.lspRecord_eq_some.mp hr
    exact hsent p hp lsp hlsp

theorem LsNode.of_mem_forwards {a : Ipv4Address} {s : UInt64} (h : (a, s) ∈ n.forwards e) :
    (∃ r, e.lspRecord = some r ∧ r.originatorAddress = a ∧ r.sequenceNumber = s) ∧
      n.knowsLsp a s = false := by
  cases e with
  | ndRequests => cases h
  | recv socket m =>
      rw [forwards] at h
      split at h
      · rename_i n' sent hok
        obtain ⟨p, hp, r, hr, rfl, rfl⟩ := mem_lspPairs.mp h
        cases hm : m.lspRecord with
        | none =>
            rw [lspRecord_of_recv hok hm p hp] at hr
            cases hr
        | some r' =>
            cases hknows : n.knowsLsp r'.originatorAddress r'.sequenceNumber with
            | true =>
                rw [recv_lsp_of_knows hm hknows] at hok
                cases hok
                cases hp
            | false =>
                obtain ⟨k, details, table, -, -, -, -, rfl⟩ :=
                    (recv_lsp_of_not_knows hm hknows).mp hok
                obtain ⟨socket', -, rfl⟩ := List.mem_map.mp hp
                rw [LSMessage.lspRecord_forwarded, hm] at hr
                obtain rfl := Option.some.inj hr
                exact ⟨⟨r', hm, rfl, rfl⟩, hknows⟩
      · cases h

theorem LsNode.nodup_forwards (n : LsNode) (e : LsEvent) : (n.forwards e).Nodup := by
  unfold forwards
  split
  · exact List.nodup_nil
  · split
    · exact List.nodup_dedup _
    · exact List.nodup_nil

omit [CostQueue] in
theorem received_append (es : List LsEvent) (e : LsEvent) :
    received (es ++ [e]) = received es ∪ {r | e.lspRecord = some r} := by
  ext r
  simp [received, List.filterMap_append]

omit [CostQueue] in
theorem Learned.knows_of_mem (h : Learned maps R n) (hR : LspsKnown maps R) (hr : r ∈ R)
    {s : UInt64} (hs : s ≤ r.sequenceNumber) : n.knowsLsp r.originatorAddress s = true := by
  obtain ⟨r', hr', hkey⟩ := exists_newestLsp h.finite hr
  refine (h.knowsLsp_iff hR _ s).mpr ⟨r', hr', hkey, ?_⟩
  exact UInt64.le_iff_toNat_le.mpr
    ((UInt64.le_iff_toNat_le.mp hs).trans (hr'.2 r hr hkey.symm))

omit [CostQueue] in
theorem Learned.knows_mono {R' : Set LspRecord} (h : Learned maps R n) (h' : Learned maps R' n')
    (hR' : LspsKnown maps R') (hsub : R ⊆ R') {a : Ipv4Address} {s : UInt64}
    (hknows : n.knowsLsp a s = true) : n'.knowsLsp a s = true := by
  obtain ⟨r, hr, rfl, hle⟩ := (h.knowsLsp_iff (hR'.subset hsub) a s).mp hknows
  exact h'.knows_of_mem hR' (hsub hr.1) hle

theorem Learned.step (h : Learned maps R n) (hM : LspsKnown maps M) (hR : R ⊆ M)
    (he : ∀ r, e.lspRecord = some r → r ∈ M) (hstep : n.step e = .ok n') :
    Learned maps (R ∪ {r | e.lspRecord = some r}) n' := by
  obtain ⟨sent, hturn⟩ := LsNode.step_eq_ok.mp hstep
  have hnone : e.lspRecord = none → n.Discovers n' →
      Learned maps (R ∪ {r | e.lspRecord = some r}) n' := by
    intro hnone hd
    have hsame : R ∪ {r | e.lspRecord = some r} = R := by simp [hnone]
    rw [hsame]
    exact h.discovers hd
  cases e with
  | ndRequests => exact hnone rfl (LsNode.discovers_of_ndRequests hturn)
  | recv socket m =>
      cases hm : m.lspRecord with
      | none => exact hnone hm (LsNode.discovers_of_recv hturn hm)
      | some r =>
          have hinsert : R ∪ {r | (LsEvent.recv socket m).lspRecord = some r} = insert r R := by
            ext r'
            simp [LsEvent.lspRecord, hm, eq_comm]
          obtain ⟨n₁, sent₁, hok, hlearned, -⟩ := h.recv_lsp hM hR (he r hm) hm socket
          obtain ⟨rfl, -⟩ := Prod.mk.inj (Except.ok.inj (hok.symm.trans hturn))
          exact hinsert ▸ hlearned

omit [CostQueue] in
theorem learned_start (maps : AddressMaps) (mainAddress : Ipv4Address)
    (socketAddresses : Std.ExtTreeMap LsSocket Ipv4Address) (maxTTL singleHop : UInt8)
    (sequenceNumber : UInt32) :
    Learned maps ∅ (.start maps mainAddress socketAddresses maxTTL singleHop sequenceNumber) where
  finite := Set.finite_empty
  maps_eq := rfl
  seq a s := by simp [LsNode.start, not_isNewest_empty]
  map k details := by simp [LsNode.start, not_isNewest_empty]
  neighbor k hk := absurd hk Std.ExtTreeMap.not_mem_empty
  current k hk := absurd hk Std.ExtTreeMap.not_mem_empty

omit [CostQueue] in
theorem Learned.tables_eq (h : Learned maps R n) (h' : Learned maps R n') :
    n.lspSequenceNumberTable = n'.lspSequenceNumberTable ∧ n.routeMap = n'.routeMap := by
  constructor
  · refine Std.ExtTreeMap.ext_getElem? fun a => Option.ext fun s => ?_
    exact (h.seq a s).trans (h'.seq a s).symm
  · refine Std.ExtTreeMap.ext_getElem? fun k => Option.ext fun details => ?_
    exact (h.map k details).trans (h'.map k details).symm

theorem Learned.step_monotone (h : Learned maps R n) (hM : LspsKnown maps M) (hR : R ⊆ M)
    (he : ∀ r, e.lspRecord = some r → r ∈ M) (hstep : n.step e = .ok n') :
    (∀ (a : Ipv4Address) (s : UInt64), n.lspSequenceNumberTable[a]? = some s →
        ∃ s', n'.lspSequenceNumberTable[a]? = some s' ∧ s ≤ s') ∧
      ∀ k : UInt32, n'.routeMap[k]? = n.routeMap[k]? ∨ ∃ r, e.lspRecord = some r ∧
        maps.addressNodeMap[r.originatorAddress]? = some k ∧
        ∀ s, n.lspSequenceNumberTable[r.originatorAddress]? = some s → s < r.sequenceNumber := by
  have h' := h.step hM hR he hstep
  have hsub : R ∪ {r | e.lspRecord = some r} ⊆ M := Set.union_subset hR he
  constructor
  · intro a s hs
    obtain ⟨r, hr, rfl, rfl⟩ := (h.seq a s).mp hs
    obtain ⟨r', hr', hkey⟩ := exists_newestLsp h'.finite (Or.inl hr.1)
    exact ⟨r'.sequenceNumber, (h'.seq _ _).mpr ⟨r', hr', hkey, rfl⟩,
      UInt64.le_iff_toNat_le.mpr (hr'.2 r (Or.inl hr.1) hkey.symm)⟩
  · intro k
    obtain ⟨sent, hturn⟩ := LsNode.step_eq_ok.mp hstep
    cases e with
    | ndRequests => exact Or.inl (by rw [(LsNode.discovers_of_ndRequests hturn).map_eq])
    | recv socket m =>
        cases hm : m.lspRecord with
        | none => exact Or.inl (by rw [(LsNode.discovers_of_recv hturn hm).map_eq])
        | some r =>
            cases hknows : n.knowsLsp r.originatorAddress r.sequenceNumber with
            | true =>
                obtain ⟨rfl, -⟩ := Prod.mk.inj (Except.ok.inj
                  ((LsNode.recv_lsp_of_knows hm hknows).symm.trans hturn))
                exact Or.inl rfl
            | false =>
                obtain ⟨sourceNode, details, table, hk, -, -, rfl, -⟩ :=
                  (LsNode.recv_lsp_of_not_knows hm hknows).mp hturn
                rw [getElem?_insert_eq]
                by_cases hkk : sourceNode = k
                · refine Or.inr ⟨r, hm, hkk ▸ h.maps_eq ▸ hk, fun s hs => ?_⟩
                  unfold LsNode.knowsLsp at hknows
                  rw [hs] at hknows
                  exact UInt64.not_le.mp (of_decide_eq_false hknows)
                · exact Or.inl (if_neg hkk)

section Run

variable {s : LsNode} {es : List LsEvent}

abbrev ReceivesFrom (M : Set LspRecord) (_ : LsNode) (e : LsEvent) : Prop :=
  ∀ r, e.lspRecord = some r → r ∈ M

/-- What a run receives is learned, and each pair is forwarded at most once. -/
theorem learned_of_run (hs : Learned maps ∅ s) (hM : LspsKnown maps M)
    (run : Run LsNode.step (ReceivesFrom M) s es n) :
    received es ⊆ M ∧ Learned maps (received es) n ∧ (forwarded s es).Nodup ∧
      ∀ p ∈ forwarded s es, n.knowsLsp p.1 p.2 = true := by
  induction run with
  | nil =>
      refine ⟨fun r hr => absurd hr (by simp [received]), ?_, List.nodup_nil,
        by simp [forwarded, history]⟩
      have hempty : received [] = ∅ := by simp [received]
      exact hempty ▸ hs
  | @snoc es t u e run allowed eq ih =>
      obtain ⟨hsub, hlearned, hnodup, hforwarded⟩ := ih
      have hsub' : received es ∪ {r | e.lspRecord = some r} ⊆ M := Set.union_subset hsub allowed
      have hlearned' := hlearned.step hM hsub allowed eq
      rw [received_append, forwarded, run.history_snoc eq]
      refine ⟨hsub', hlearned', ?_, ?_⟩
      · refine List.nodup_append.mpr ⟨hnodup, t.nodup_forwards e, ?_⟩
        rintro p hp q hq rfl
        have hnot := (LsNode.of_mem_forwards hq).2
        rw [hforwarded p hp] at hnot
        cases hnot
      · rintro ⟨a, s'⟩ hp
        rcases List.mem_append.mp hp with hp | hp
        · exact hlearned.knows_mono hlearned' (hM.subset hsub') Set.subset_union_left
            (hforwarded (a, s') hp)
        · obtain ⟨⟨r, hr, rfl, rfl⟩, -⟩ := LsNode.of_mem_forwards hp
          exact hlearned'.knows_of_mem (hM.subset hsub') (Or.inr hr) (UInt64.le_refl _)

end Run

end PennSearch
