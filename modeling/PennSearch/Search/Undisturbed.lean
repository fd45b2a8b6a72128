import PennSearch.Search.Interference

/-!
# Searches that stay apart

While no two searches meet, the searches that were issued are matched one to one
with the tokens: the answers that have arrived, the messages in flight and the
lookups that wait (`Served`). A step moves one token on and keeps its end. So
everything is delivered without a fault, and then every command has its own answer.
-/

namespace PennSearch

open MessagePassing

/-- A search: who gets the answer, how it ends, and how many deliveries and lookups
it may still take. -/
structure SearchToken where
  node : Ipv4Address
  transactionId : UInt32
  fate : SearchFate
  hops : ℕ

structure SearchToken.Follows (y x : SearchToken) : Prop where
  node : y.node = x.node
  transactionId : y.transactionId = x.transactionId
  fate : y.fate = x.fate
  hops : y.hops < x.hops

theorem rel_cons_of_rel_cons {α β : Type*} {r : α → β → Prop} {as : Multiset α} {x y : β}
    {rest : Multiset β} (h : Multiset.Rel r as (x ::ₘ rest)) (hxy : ∀ a, r a x → r a y) :
    Multiset.Rel r as (y ::ₘ rest) := by
  obtain ⟨a, as, hax, hrest, rfl⟩ := Multiset.rel_cons_right.mp h
  exact .cons (hxy a hax) hrest

theorem PennSearchMessage.sentThen_of_fits {m : PennSearchMessage} (h : m.fits = true)
    (next : SearchFate) : m.sentThen next = next := by
  rw [sentThen, countable_of_fits h, h]
  rfl

theorem LookupCall.message_searcher (l : LookupCall) (searchData : SearchData)
    (dst : Ipv4Address) : (l.message searchData).searcher dst = searchData.initiatorAddress := by
  unfold message
  split <;> rfl

theorem LookupCall.Waits.message_keyRead {l : LookupCall} {searchData : SearchData}
    (h : l.Waits searchData) : (l.message searchData).keyRead = some l.lookupKey := by
  rw [← h.head]
  rcases h.flag with hflag | hflag
  · rw [LookupCall.message_begin hflag]
    rfl
  · rw [LookupCall.message_round hflag]
    rfl

namespace PennNet

variable {stored : CxxString → Option (List CxxString)} {owner : CxxString → Ipv4Address}
  {s t : PennNet} {log log' : SearchLog} {a : Ipv4Address}

/-- The token `x` ends with the result of command `i`. -/
structure IssuedSearch.ServedBy (stored : CxxString → Option (List CxxString)) (i : IssuedSearch)
    (x : SearchToken) : Prop where
  node : x.node = i.node
  transactionId : x.transactionId = i.transactionId
  somebody : x.node ≠ .getAny
  answers : x.fate.Answers fun docList =>
    ∀ d, d ∈ docList ↔ ∀ key ∈ i.keyList, Lists stored key d
  printable : x.fate.Printable

theorem IssuedSearch.ServedBy.follows {i : IssuedSearch} {x y : SearchToken}
    (h : i.ServedBy stored x) (hyx : y.Follows x) : i.ServedBy stored y where
  node := hyx.node.trans h.node
  transactionId := hyx.transactionId.trans h.transactionId
  somebody := hyx.node ▸ h.somebody
  answers := hyx.fate ▸ h.answers
  printable := hyx.fate ▸ h.printable

def SearchAnswer.token (r : SearchAnswer) : SearchToken :=
  ⟨r.node, r.transactionId, .complete r.keyList r.docList, 0⟩

def packetToken (stored : CxxString → Option (List CxxString)) (p : SearchPacket) : SearchToken :=
  ⟨p.msg.searcher p.dst, p.msg.transactionId, p.msg.fate stored, p.msg.hops⟩

def lookupToken (stored : CxxString → Option (List CxxString)) (s : PennNet) (l : LookupCall) :
    SearchToken :=
  match (s.search.node l.node).searchTracker[l.transactionId]? with
  | none => ⟨l.node, l.transactionId, .lost, 1⟩
  | some searchData =>
      ⟨searchData.initiatorAddress, l.transactionId, l.fate stored searchData,
        (l.message searchData).hops + 1⟩

theorem lookupToken_of_tracked {l : LookupCall} {searchData : SearchData}
    (h : (s.search.node l.node).searchTracker[l.transactionId]? = some searchData) :
    s.lookupToken stored l =
      ⟨searchData.initiatorAddress, l.transactionId, l.fate stored searchData,
        (l.message searchData).hops + 1⟩ := by
  rw [lookupToken, h]

def tokens (stored : CxxString → Option (List CxxString)) (s : PennNet) (log : SearchLog) :
    Multiset SearchToken :=
  (log.received : Multiset SearchAnswer).map SearchAnswer.token +
    (s.search.inFlight : Multiset SearchPacket).map (packetToken stored) +
    (s.lookups : Multiset LookupCall).map (s.lookupToken stored)

def remaining (stored : CxxString → Option (List CxxString)) (s : PennNet) : ℕ :=
  ((s.tokens stored ⟨[], []⟩).map SearchToken.hops).sum

theorem sum_hops_tokens (stored : CxxString → Option (List CxxString)) (s : PennNet)
    (log : SearchLog) : ((s.tokens stored log).map SearchToken.hops).sum = s.remaining stored := by
  have hzero : ∀ answers : Multiset SearchAnswer,
      ((answers.map SearchAnswer.token).map SearchToken.hops).sum = 0 := by
    intro answers
    rw [Multiset.map_map]
    exact Multiset.sum_eq_zero fun n hn => by
      obtain ⟨r, -, rfl⟩ := Multiset.mem_map.mp hn
      rfl
  simp only [remaining, tokens, Multiset.map_add, Multiset.sum_add, hzero]

/-- The searches that were issued and the tokens match, and all is ready for the tokens
to go on. -/
structure Served (owner : CxxString → Ipv4Address) (stored : CxxString → Option (List CxxString))
    (s : PennNet) (log : SearchLog) : Prop where
  data : s.postingList owner = stored
  localAddress : ∀ a, (s.search.node a).localAddress = a
  flight : ∀ p ∈ s.search.inFlight, p.msg.IsSearch
  addressed : ∀ p ∈ s.search.inFlight, ∀ key, p.msg.keyRead = some key → p.dst = owner key
  waits : ∀ l ∈ s.lookups, ∃ searchData,
    (s.search.node l.node).searchTracker[l.transactionId]? = some searchData ∧ l.Waits searchData
  distinct : (s.lookups.map fun l => (l.node, l.transactionId)).Nodup
  served : Multiset.Rel (IssuedSearch.ServedBy stored) log.issued (s.tokens stored log)

theorem Served.servedBy_of_mem (h : s.Served owner stored log) {x : SearchToken}
    (hx : x ∈ s.tokens stored log) : ∃ i : IssuedSearch, i.ServedBy stored x := by
  obtain ⟨i, -, hi⟩ := Multiset.exists_mem_of_rel_of_mem (Multiset.rel_flip.mpr h.served) hx
  exact ⟨i, hi⟩

theorem Served.follows (h : s.Served owner stored log) {x y : SearchToken}
    {rest : Multiset SearchToken} (hx : s.tokens stored log = x ::ₘ rest)
    (hy : t.tokens stored log' = y ::ₘ rest) (hyx : y.Follows x)
    (hissued : log'.issued = log.issued) :
    Multiset.Rel (IssuedSearch.ServedBy stored) log'.issued (t.tokens stored log') ∧
      t.remaining stored < s.remaining stored := by
  constructor
  · rw [hissued, hy]
    exact rel_cons_of_rel_cons (hx ▸ h.served) fun i hi => hi.follows hyx
  · rw [← sum_hops_tokens stored s log, ← sum_hops_tokens stored t log', hx, hy, Multiset.map_cons,
      Multiset.map_cons, Multiset.sum_cons, Multiset.sum_cons]
    exact Nat.add_lt_add_right hyx.hops _

theorem tokens_of_packet (stored : CxxString → Option (List CxxString)) {k : ℕ}
    {p : SearchPacket} (hp : s.search.inFlight[k]? = some p)
    (log : SearchLog) :
    s.tokens stored log = packetToken stored p ::ₘ
      ((log.received : Multiset SearchAnswer).map SearchAnswer.token +
        (s.search.inFlight.eraseIdx k : Multiset SearchPacket).map (packetToken stored) +
        (s.lookups : Multiset LookupCall).map (s.lookupToken stored)) := by
  rw [tokens, coe_eq_cons_eraseIdx hp, Multiset.map_cons, Multiset.add_cons, Multiset.cons_add]

theorem tokens_of_lookup (stored : CxxString → Option (List CxxString)) {i : ℕ}
    {l : LookupCall} (hl : s.lookups[i]? = some l)
    (log : SearchLog) :
    s.tokens stored log = s.lookupToken stored l ::ₘ
      ((log.received : Multiset SearchAnswer).map SearchAnswer.token +
        (s.search.inFlight : Multiset SearchPacket).map (packetToken stored) +
        (s.lookups.eraseIdx i : Multiset LookupCall).map (s.lookupToken stored)) := by
  rw [tokens, coe_eq_cons_eraseIdx hl, Multiset.map_cons, Multiset.add_cons]

theorem lookupToken_congr {l : LookupCall}
    (h : (t.search.node l.node).searchTracker[l.transactionId]? =
      (s.search.node l.node).searchTracker[l.transactionId]?) :
    t.lookupToken stored l = s.lookupToken stored l := by
  rw [lookupToken, lookupToken, h]

theorem searchPackets_sendTo {b : Ipv4Address} {m : PennSearchMessage} (hb : b ≠ .getAny)
    (hfits : m.fits = true) : searchPackets a [.sendTo b m] = [⟨a, b, m⟩] := by
  simp [searchPackets, hb, hfits]

theorem postingList_congr (h : ∀ a, (t.search.node a).dataMap = (s.search.node a).dataMap) :
    t.postingList owner = s.postingList owner := by
  funext key
  rw [postingList, postingList, h]

theorem Served.reads (h : s.Served owner stored log) {p : SearchPacket}
    (hp : p ∈ s.search.inFlight) (key : CxxString) (hkey : p.msg.keyRead = some key) :
    (s.search.node p.dst).dataMap[key]? = stored key := by
  rw [h.addressed p hp key hkey, ← h.data]
  rfl

/-- A message of a search is used up, and the answer of the search is sent or has arrived. -/
theorem Served.deliver_same (h : s.Served owner stored log) {k : ℕ} {p : SearchPacket}
    (hp : s.search.inFlight[k]? = some p) (sent : List SearchPacket) {y : SearchToken}
    (hsent : ∀ q ∈ sent, q.msg.IsSearch ∧ q.msg.keyRead = none)
    (hissued : log'.issued = log.issued) (hyx : y.Follows (packetToken stored p))
    (hnode : t.search.node = s.search.node) (hlookups : t.lookups = s.lookups)
    (hflight : t.search.inFlight = s.search.inFlight.eraseIdx k ++ sent)
    (htokens : (log'.received : Multiset SearchAnswer).map SearchAnswer.token +
        (sent : Multiset SearchPacket).map (packetToken stored) =
      y ::ₘ (log.received : Multiset SearchAnswer).map SearchAnswer.token) :
    t.Served owner stored log' ∧ t.remaining stored < s.remaining stored := by
  have ht : t.tokens stored log' = y ::ₘ
      ((log.received : Multiset SearchAnswer).map SearchAnswer.token +
        (s.search.inFlight.eraseIdx k : Multiset SearchPacket).map (packetToken stored) +
        (s.lookups : Multiset LookupCall).map (s.lookupToken stored)) := by
    have hcongr : t.lookupToken stored = s.lookupToken stored :=
      funext fun l => lookupToken_congr (by rw [hnode])
    rw [← Multiset.cons_add, ← Multiset.cons_add, ← htokens, tokens, hflight, hlookups, hcongr,
      ← Multiset.coe_add, Multiset.map_add]
    ac_rfl
  obtain ⟨hserved, hlt⟩ := h.follows (tokens_of_packet stored hp log) ht hyx hissued
  refine ⟨⟨?_, ?_, ?_, ?_, ?_, hlookups ▸ h.distinct, hserved⟩, hlt⟩
  · rw [← h.data]
    exact postingList_congr fun a => by rw [hnode]
  · rw [hnode]
    exact h.localAddress
  · rw [hflight]
    intro q hq
    rcases List.mem_append.mp hq with hq | hq
    · exact h.flight q (List.mem_of_mem_eraseIdx hq)
    · exact (hsent q hq).1
  · rw [hflight]
    intro q hq key hkey
    rcases List.mem_append.mp hq with hq | hq
    · exact h.addressed q (List.mem_of_mem_eraseIdx hq) key hkey
    · rw [(hsent q hq).2] at hkey
      cases hkey
  · rw [hlookups, hnode]
    exact h.waits

theorem Served.deliver_lookup (h : s.Served owner stored log) {k : ℕ} {p : SearchPacket}
    (hp : s.search.inFlight[k]? = some p) {l : LookupCall} {searchData : SearchData}
    (hfree : l.transactionId ∉ (s.search.node l.node).searchTracker) (hwaits : l.Waits searchData)
    (hyx : SearchToken.Follows ⟨searchData.initiatorAddress, l.transactionId,
      l.fate stored searchData, (l.message searchData).hops + 1⟩ (packetToken stored p))
    (ht : t = { s with
      search := (s.search.take k).act l.node
        ((s.search.node l.node).track l.transactionId searchData) []
      lookups := s.lookups ++ [l] }) :
    t.Served owner stored log ∧ t.remaining stored < s.remaining stored := by
  have htracker : ∀ (a : Ipv4Address) (tx : UInt32), tx ∈ (s.search.node a).searchTracker →
      (t.search.node a).searchTracker[tx]? = (s.search.node a).searchTracker[tx]? := by
    intro a tx htx
    rw [ht]
    change (((s.search.take k).act l.node _ []).node a).searchTracker[tx]? = _
    rw [Net.act_node]
    split
    · rename_i ha
      rw [ha] at htx ⊢
      change ((s.search.node l.node).searchTracker.insertIfNew l.transactionId searchData)[tx]? = _
      rw [Std.TreeMap.getElem?_insertIfNew, if_neg]
      rintro ⟨heq, -⟩
      exact hfree (Std.LawfulEqCmp.eq_of_compare heq ▸ htx)
    · rfl
  have hnew : (t.search.node l.node).searchTracker[l.transactionId]? = some searchData := by
    rw [ht]
    change (((s.search.take k).act l.node _ []).node l.node).searchTracker[l.transactionId]? = _
    rw [Net.act_node_self]
    change ((s.search.node l.node).searchTracker.insertIfNew l.transactionId
      searchData)[l.transactionId]? = _
    rw [Std.TreeMap.getElem?_insertIfNew, if_pos ⟨Std.ReflCmp.compare_self, hfree⟩]
  have hmem : ∀ l' ∈ s.lookups, l'.transactionId ∈ (s.search.node l'.node).searchTracker := by
    intro l' hl'
    obtain ⟨searchData, hsome, -⟩ := h.waits l' hl'
    rw [Std.TreeMap.mem_iff_isSome_getElem?, hsome]
    rfl
  have hlookups : t.lookups = s.lookups ++ [l] := by rw [ht]
  have hflight : t.search.inFlight = s.search.inFlight.eraseIdx k := by
    rw [ht]
    exact List.append_nil _
  have htokens : t.tokens stored log = ⟨searchData.initiatorAddress, l.transactionId,
      l.fate stored searchData, (l.message searchData).hops + 1⟩ ::ₘ
      ((log.received : Multiset SearchAnswer).map SearchAnswer.token +
        (s.search.inFlight.eraseIdx k : Multiset SearchPacket).map (packetToken stored) +
        (s.lookups : Multiset LookupCall).map (s.lookupToken stored)) := by
    have hcongr : (s.lookups : Multiset LookupCall).map (t.lookupToken stored) =
        (s.lookups : Multiset LookupCall).map (s.lookupToken stored) :=
      Multiset.map_congr rfl fun l' hl' =>
        lookupToken_congr (htracker _ _ (hmem l' (Multiset.mem_coe.mp hl')))
    rw [tokens, hflight, hlookups, coe_concat, Multiset.map_cons, hcongr,
      lookupToken_of_tracked hnew, Multiset.add_cons]
  obtain ⟨hserved, hlt⟩ := h.follows (tokens_of_packet stored hp log) htokens hyx rfl
  refine ⟨⟨?_, ?_, ?_, ?_, ?_, ?_, hserved⟩, hlt⟩
  · rw [← h.data, ht]
    exact postingList_congr (Net.act_node_congr (c := s.search.take k)
      (s := (s.search.node l.node).track l.transactionId searchData)
      (f := SearchNode.dataMap) rfl _)
  · intro a
    rw [ht]
    exact (Net.act_node_congr (c := s.search.take k)
      (s := (s.search.node l.node).track l.transactionId searchData)
      (f := SearchNode.localAddress) rfl _ a).trans (h.localAddress a)
  · rw [hflight]
    exact fun q hq => h.flight q (List.mem_of_mem_eraseIdx hq)
  · rw [hflight]
    exact fun q hq => h.addressed q (List.mem_of_mem_eraseIdx hq)
  · rw [hlookups]
    intro l' hl'
    rcases List.mem_append.mp hl' with hl' | hl'
    · obtain ⟨searchData, hsome, hwaits⟩ := h.waits l' hl'
      exact ⟨searchData, by rw [htracker _ _ (hmem l' hl'), hsome], hwaits⟩
    · obtain rfl := List.mem_singleton.mp hl'
      exact ⟨searchData, hnew, hwaits⟩
  · rw [hlookups, List.map_append, List.map_singleton]
    refine List.Nodup.append h.distinct (List.nodup_singleton _) ?_
    intro x hx hx'
    obtain rfl := List.mem_singleton.mp hx'
    obtain ⟨l', hl', heq⟩ := List.mem_map.mp hx
    obtain ⟨hnode, htx⟩ := Prod.mk.inj heq
    exact hfree (hnode ▸ htx ▸ hmem l' hl')

theorem Served.answer_sent (h : s.Served owner stored log) {i : ℕ} {l : LookupCall}
    {searchData : SearchData} (hl : s.lookups[i]? = some l)
    (hsome : (s.search.node l.node).searchTracker[l.transactionId]? = some searchData)
    (hwaits : l.Waits searchData) (hfits : (l.message searchData).fits = true)
    (ht : t = { s with
      lookups := s.lookups.eraseIdx i
      search := s.search.act l.node { s.search.node l.node with
        searchTracker := (s.search.node l.node).searchTracker.erase l.transactionId }
        [⟨l.node, owner l.lookupKey, l.message searchData⟩] }) :
    t.Served owner stored log ∧ t.remaining stored < s.remaining stored := by
  have hdistinct : ∀ l' ∈ s.lookups.eraseIdx i,
      (l'.node, l'.transactionId) ≠ (l.node, l.transactionId) := by
    intro l' hl' heq
    obtain ⟨pre, post, hsplit, -, herase⟩ := exists_split hl
    have hnodup := h.distinct
    rw [hsplit, List.map_append, List.map_cons, List.nodup_middle] at hnodup
    refine (List.nodup_cons.mp hnodup).1 ?_
    rw [← List.map_append, ← herase, ← heq]
    exact List.mem_map_of_mem hl'
  have htracker : ∀ l' ∈ s.lookups.eraseIdx i,
      (t.search.node l'.node).searchTracker[l'.transactionId]? =
        (s.search.node l'.node).searchTracker[l'.transactionId]? := by
    intro l' hl'
    rw [ht]
    change ((s.search.act l.node _ _).node l'.node).searchTracker[l'.transactionId]? = _
    rw [Net.act_node]
    split
    · rename_i hnode
      change ((s.search.node l.node).searchTracker.erase l.transactionId)[l'.transactionId]? = _
      rw [Std.TreeMap.getElem?_erase, if_neg, hnode]
      intro heq
      refine hdistinct l' hl' ?_
      rw [hnode, Std.LawfulEqCmp.eq_of_compare heq]
    · rfl
  have hlookups : t.lookups = s.lookups.eraseIdx i := by rw [ht]
  have hflight : t.search.inFlight =
      s.search.inFlight ++ [⟨l.node, owner l.lookupKey, l.message searchData⟩] := by
    rw [ht]
    rfl
  have htokens : t.tokens stored log =
      packetToken stored ⟨l.node, owner l.lookupKey, l.message searchData⟩ ::ₘ
      ((log.received : Multiset SearchAnswer).map SearchAnswer.token +
        (s.search.inFlight : Multiset SearchPacket).map (packetToken stored) +
        (s.lookups.eraseIdx i : Multiset LookupCall).map (s.lookupToken stored)) := by
    have hcongr : (s.lookups.eraseIdx i : Multiset LookupCall).map (t.lookupToken stored) =
        (s.lookups.eraseIdx i : Multiset LookupCall).map (s.lookupToken stored) :=
      Multiset.map_congr rfl fun l' hl' =>
        lookupToken_congr (htracker l' (Multiset.mem_coe.mp hl'))
    rw [tokens, hflight, hlookups, coe_concat, Multiset.map_cons, hcongr, Multiset.add_cons,
      Multiset.cons_add]
  have hx := tokens_of_lookup stored hl log
  rw [lookupToken_of_tracked hsome] at hx
  have hyx : SearchToken.Follows
      (packetToken stored ⟨l.node, owner l.lookupKey, l.message searchData⟩)
      ⟨searchData.initiatorAddress, l.transactionId, l.fate stored searchData,
        (l.message searchData).hops + 1⟩ :=
    ⟨l.message_searcher searchData _, rfl, (PennSearchMessage.sentThen_of_fits hfits _).symm,
      Nat.lt_succ_self _⟩
  obtain ⟨hserved, hlt⟩ := h.follows hx htokens hyx rfl
  refine ⟨⟨?_, ?_, ?_, ?_, ?_, ?_, hserved⟩, hlt⟩
  · rw [← h.data, ht]
    exact postingList_congr (Net.act_node_congr (s := { s.search.node l.node with
      searchTracker := (s.search.node l.node).searchTracker.erase l.transactionId })
      (f := SearchNode.dataMap) rfl _)
  · intro a
    rw [ht]
    exact (Net.act_node_congr (s := { s.search.node l.node with
      searchTracker := (s.search.node l.node).searchTracker.erase l.transactionId })
      (f := SearchNode.localAddress) rfl _ a).trans (h.localAddress a)
  · rw [hflight]
    intro q hq
    rcases List.mem_append.mp hq with hq | hq
    · exact h.flight q hq
    · rw [List.mem_singleton.mp hq]
      exact l.message_isSearch searchData
  · rw [hflight]
    intro q hq key hkey
    rcases List.mem_append.mp hq with hq | hq
    · exact h.addressed q hq key hkey
    · rw [List.mem_singleton.mp hq, hwaits.message_keyRead] at hkey
      rw [List.mem_singleton.mp hq, ← Option.some.inj hkey]
  · rw [hlookups]
    intro l' hl'
    rw [htracker l' hl']
    exact h.waits l' (List.mem_of_mem_eraseIdx hl')
  · rw [hlookups]
    exact h.distinct.sublist ((List.eraseIdx_sublist _ _).map _)

variable [Sha1]

/-- A command brings its own token. -/
theorem Served.search (h : s.Served owner stored log) {w v : Ipv4Address}
    {keyList : List CxxString} (he : s.SearchRun owner (.search w v keyList))
    (hstep : s.step viaService (.search w v keyList) = .ok t) :
    t.Served owner stored (s.searchLog (.search w v keyList) log) := by
  obtain ⟨hw, hv, hanswerable, hprintable⟩ := he
  rw [h.data] at hanswerable hprintable
  have hfate : (searchFate w (s.search.node w).currentTransactionId stored keyList).Answers _ :=
    searchFate_answers.mpr hanswerable
  rw [searchFate_eq] at hfate hprintable
  obtain ⟨hfits, hanswers⟩ := PennSearchMessage.sentThen_answers.mp hfate
  rw [PennSearchMessage.sentThen_of_fits hfits] at hprintable
  obtain rfl := step_search_eq_ok hv hstep
  rw [h.localAddress w, searchPackets_sendTo hv hfits]
  set m : PennSearchMessage :=
    ⟨(s.search.node w).currentTransactionId, .searchInitial w keyList⟩
  have htracker : ∀ l : LookupCall,
      ((s.search.act w (s.search.node w).nextTransactionId [⟨w, v, m⟩]).node
        l.node).searchTracker = (s.search.node l.node).searchTracker :=
    fun l => Net.act_node_congr (s := (s.search.node w).nextTransactionId)
      (f := SearchNode.searchTracker) rfl _ l.node
  refine ⟨?_, ?_, ?_, ?_, ?_, h.distinct, ?_⟩
  · rw [← h.data]
    exact postingList_congr (Net.act_node_congr (s := (s.search.node w).nextTransactionId)
      (f := SearchNode.dataMap) rfl _)
  · intro a
    exact (Net.act_node_congr (s := (s.search.node w).nextTransactionId)
      (f := SearchNode.localAddress) rfl _ a).trans (h.localAddress a)
  · intro p hp
    rcases List.mem_append.mp hp with hp | hp
    · exact h.flight p hp
    · rw [List.mem_singleton.mp hp]
      trivial
  · intro p hp key hkey
    rcases List.mem_append.mp hp with hp | hp
    · exact h.addressed p hp key hkey
    · rw [List.mem_singleton.mp hp] at hkey
      cases hkey
  · intro l hl
    obtain ⟨searchData, hsome, hwaits⟩ := h.waits l hl
    exact ⟨searchData, by rw [htracker l, hsome], hwaits⟩
  · have htokens : tokens stored { s with
        search := s.search.act w (s.search.node w).nextTransactionId [⟨w, v, m⟩] } log =
        packetToken stored ⟨w, v, m⟩ ::ₘ s.tokens stored log := by
      rw [tokens, Net.act_inFlight, coe_concat, Multiset.map_cons, Multiset.add_cons,
        Multiset.cons_add]
      refine congrArg _ (congrArg _ (Multiset.map_congr rfl fun l _ => ?_))
      exact lookupToken_congr (by rw [htracker l])
    change Multiset.Rel _ ((log.issued ++ [_] : List IssuedSearch) : Multiset IssuedSearch)
      (tokens stored _ log)
    rw [coe_concat, htokens]
    exact .cons ⟨rfl, rfl, hw, hanswers, hprintable⟩ h.served

theorem Served.deliver_isOk (h : s.Served owner stored log) {k : ℕ} {p : SearchPacket}
    (hp : s.search.inFlight[k]? = some p) : ∃ t, s.step viaService (.deliver k) = .ok t := by
  have hmem := List.mem_of_getElem? hp
  obtain ⟨i, hi⟩ := h.servedBy_of_mem (x := packetToken stored p) (by
    rw [tokens_of_packet stored hp]
    exact Multiset.mem_cons_self _ _)
  suffices hrecv : ∃ r, (s.search.node p.dst).recvMessage p.msg p.src = .ok r by
    obtain ⟨r, hr⟩ := hrecv
    rw [step_deliver_eq hp, hr]
    exact ⟨_, rfl⟩
  by_cases hcomplete : ∃ keyList docList, p.msg.payload = .searchComplete keyList docList
  · obtain ⟨keyList, docList, hpayload⟩ := hcomplete
    have hprintable : docList.length < 256 ∧ keyList.length < 256 := by
      have hfate : p.msg.fate stored = .complete keyList docList := by
        rw [PennSearchMessage.fate, hpayload]
      have hshort : (p.msg.fate stored).Printable := hi.printable
      rw [hfate] at hshort
      exact hshort
    rw [SearchNode.recvMessage, hpayload]
    simp only [SearchNode.processSearchComplete]
    rw [if_neg (by omega)]
    exact ⟨_, rfl⟩
  · exact SearchNode.recv_isOk (h.flight p hmem) (fun keyList docList h => hcomplete ⟨_, _, h⟩)
      (h.reads hmem) hi.answers

/-- A delivery without a collision. -/
theorem Served.deliver (h : s.Served owner stored log) {k : ℕ} {p : SearchPacket}
    (hp : s.search.inFlight[k]? = some p) (hapart : s.collides (.deliver k) = false)
    (hstep : s.step viaService (.deliver k) = .ok t) :
    t.Served owner stored (s.searchLog (.deliver k) log) ∧
      t.remaining stored < s.remaining stored := by
  have hmem := List.mem_of_getElem? hp
  have htoken : packetToken stored p ∈ s.tokens stored log := by
    rw [tokens_of_packet stored hp]
    exact Multiset.mem_cons_self _ _
  obtain ⟨i, hi⟩ := h.servedBy_of_mem htoken
  rcases step_deliver_cases stored hp (h.flight p hmem) (h.reads hmem) hstep with
    ⟨keyList, docList, hpayload, rfl⟩ | ⟨hnot, n, acts, hmove, rfl⟩
  · rw [searchLog_complete hp hpayload]
    have hsearcher : p.msg.searcher p.dst = p.dst := by
      rw [PennSearchMessage.searcher, hpayload]
    have hfate : p.msg.fate stored = .complete keyList docList := by
      rw [PennSearchMessage.fate, hpayload]
    have hhops : p.msg.hops = 1 := by
      rw [PennSearchMessage.hops, hpayload]
    refine h.deliver_same hp []
      (y := SearchAnswer.token ⟨p.dst, p.msg.transactionId, keyList, docList⟩) (by simp) rfl
      ⟨hsearcher.symm, rfl, hfate.symm, ?_⟩ rfl rfl (List.append_nil _).symm ?_
    · change 0 < p.msg.hops
      omega
    · rw [coe_concat, Multiset.map_cons]
      exact add_zero _
  · rw [searchLog_of_not hp hnot]
    have hcollides : s.collides (.deliver k) = ((s.search.node p.dst).tracks p.msg &&
        (s.search.node p.dst).searchTracker.contains p.msg.transactionId) := by
      rw [collides, hp]
    rw [hcollides] at hapart
    generalize hfate : p.msg.fate stored = fate at hmove
    generalize (s.search.node p.dst).tracks p.msg = tracked at hmove hapart
    have hanswers := hi.answers
    rw [show (packetToken stored p).fate = fate from hfate] at hanswers
    cases hmove with
    | complete keyList docList hops =>
        obtain ⟨hfits, -⟩ := PennSearchMessage.sentThen_answers.mp hanswers
        rw [finishFate, PennSearchMessage.sentThen_of_fits hfits] at hfate
        have hsomebody : p.msg.searcher p.dst ≠ .getAny := hi.somebody
        refine h.deliver_same hp [⟨p.dst, p.msg.searcher p.dst, ⟨p.msg.transactionId,
            .searchComplete keyList docList⟩⟩]
          (y := ⟨p.msg.searcher p.dst, p.msg.transactionId, .complete keyList docList, 1⟩) ?_ rfl
          ⟨rfl, rfl, hfate.symm, hops⟩ ?_ (List.append_nil _) ?_ ?_
        · intro q hq
          rw [List.mem_singleton.mp hq]
          exact ⟨trivial, rfl⟩
        · exact Function.update_eq_self _ _
        · change s.search.inFlight.eraseIdx k ++ searchPackets p.dst _ = _
          rw [searchPackets_sendTo hsomebody hfits]
        · rw [add_comm]
          rfl
    | lookup l searchData node tx initiator waits hops =>
        have hfree : l.transactionId ∉ (s.search.node l.node).searchTracker := by
          rw [Bool.true_and] at hapart
          rw [tx, node, ← Std.TreeMap.contains_iff_mem, hapart]
          exact Bool.false_ne_true
        refine h.deliver_lookup hp hfree waits ⟨initiator, tx, hfate.symm, hops⟩ ?_
        rw [node, tx]
        obtain ⟨lnode, lookupKey, flag, ltx⟩ := l
        cases node
        cases tx
        rfl

/-- A lookup is answered from its own entry, without a fault. -/
theorem Served.answer (h : s.Served owner stored log) (hdst : ∀ key, owner key ≠ .getAny) {i : ℕ}
    {l : LookupCall} (hl : s.lookups[i]? = some l) :
    ∃ t, s.step viaService (.answer i (owner l.lookupKey)) = .ok t ∧ t.Served owner stored log ∧
      t.remaining stored < s.remaining stored := by
  obtain ⟨searchData, hsome, hwaits⟩ := h.waits l (List.mem_of_getElem? hl)
  have htokens := tokens_of_lookup stored hl log
  rw [lookupToken_of_tracked hsome] at htokens
  obtain ⟨c, hc⟩ := h.servedBy_of_mem (htokens ▸ Multiset.mem_cons_self _ _)
  obtain ⟨hfits, -⟩ := PennSearchMessage.sentThen_answers.mp hc.answers
  refine ⟨_, ?_, h.answer_sent hl hsome hwaits hfits rfl⟩
  rw [step_answer_search hl hwaits.flag, hsome]
  dsimp only
  rw [PennSearchMessage.sendTo, if_pos (PennSearchMessage.countable_of_fits hfits),
    ← searchPackets_sendTo (hdst l.lookupKey) hfits]
  rfl

/-- The searches stay matched along every run in which none meet. -/
theorem Served.run {es : List PennEvent} (h : s.Served owner stored ⟨[], []⟩)
    (hdst : ∀ key, owner key ≠ .getAny)
    (hrun : Run (PennNet.step viaService) (SearchRunApart owner) s es t) :
    t.Served owner stored (history (PennNet.step viaService) searchLog s ⟨[], []⟩ es) := by
  refine hrun.history_invariant (I := Served owner stored) h ?_
  rintro t log e u ht ⟨he, hapart⟩ hstep
  cases e with
  | search w v keyList => exact ht.search he hstep
  | deliver k => exact (ht.deliver (List.getElem?_eq_getElem he) hapart hstep).1
  | answer i b =>
      obtain ⟨l, hl, rfl⟩ := Option.map_eq_some_iff.mp he
      obtain ⟨u', hu', hserved, -⟩ := ht.answer hdst hl
      obtain rfl := Except.ok.inj (hstep.symm.trans hu')
      exact hserved
  | _ => exact he.elim

/-- The searches in progress are all answered, without a fault, however the deliveries and
the answers to lookups go on. -/
theorem Served.reaches (h : s.Served owner stored log) (hs : s.Searching)
    (hdst : ∀ key, owner key ≠ .getAny) :
    Reaches (PennNet.step viaService) (fun t e => t.Enabled owner e ∧ t.collides e = false)
      (fun _ => True) Idle s := by
  refine reaches_of_decreasing (J := fun t => (∃ log, t.Served owner stored log) ∧ t.Searching)
    (remaining stored) (fun _ _ => trivial) ?_ ?_ ⟨⟨log, h⟩, hs⟩
  · rintro t ⟨-, ht⟩
    match hlookups : t.lookups, hflight : t.search.inFlight with
    | l :: rest, _ =>
        refine Or.inr ⟨.answer 0 (owner l.lookupKey), ?_, rfl⟩
        rw [Enabled, hlookups]
        rfl
    | [], p :: rest =>
        refine Or.inr ⟨.deliver 0, ?_, ?_⟩
        · rw [Enabled, hflight]
          exact Nat.succ_pos _
        · -- without a lookup there is no entry to meet
          have hfree : (t.search.node p.dst).searchTracker.contains p.msg.transactionId =
              false := by
            rw [← Bool.not_eq_true, Std.TreeMap.contains_iff_mem]
            intro htx
            obtain ⟨l, hl, -⟩ := ht.entry _ _ htx
            rw [hlookups] at hl
            cases hl
          rw [collides, hflight, List.getElem?_cons_zero]
          dsimp only
          rw [hfree, Bool.and_false]
    | [], [] => exact Or.inl ⟨hflight, hlookups⟩
  · rintro t e ⟨⟨log, hserved⟩, ht⟩ ⟨he, hapart⟩
    cases e with
    | deliver k =>
        have hp := List.getElem?_eq_getElem he
        obtain ⟨u, hu⟩ := hserved.deliver_isOk hp
        obtain ⟨hserved', hlt⟩ := hserved.deliver hp hapart hu
        exact ⟨u, hu, ⟨⟨_, hserved'⟩, (ht.deliver hp hu).1⟩, hlt⟩
    | answer i b =>
        obtain ⟨l, hl, rfl⟩ := Option.map_eq_some_iff.mp he
        obtain ⟨u, hu, hserved', hlt⟩ := hserved.answer hdst hl
        exact ⟨u, hu, ⟨⟨log, hserved'⟩, (ht.answer hl hu).1⟩, hlt⟩
    | _ => exact he.elim

/-- Every command has a SEARCH_COMPLETE of its own, which its node has got under its id, with
the documents that are posted under all of its keywords. -/
def AllAnswered (s : PennNet) (log : SearchLog) : Prop :=
  Multiset.Rel (fun (i : IssuedSearch) (r : SearchAnswer) =>
      r.node = i.node ∧ r.transactionId = i.transactionId ∧
        ∀ d, d ∈ r.docList ↔ ∀ key ∈ i.keyList, s.Posted key d)
    log.issued log.received

variable {R : Finset Ipv4Address}

theorem Ready.served (h : ∀ tx, s.Ready R owner tx) :
    s.Served owner (s.postingList owner) ⟨[], []⟩ where
  data := rfl
  localAddress := (h 0).localAddress
  flight p hp := by
    rw [(h 0).inFlight] at hp
    cases hp
  addressed p hp := by
    rw [(h 0).inFlight] at hp
    cases hp
  waits l hl := by
    rw [(h 0).lookups] at hl
    cases hl
  distinct := by
    rw [(h 0).lookups]
    exact List.nodup_nil
  served := by
    rw [tokens, (h 0).inFlight, (h 0).lookups]
    exact .zero

theorem Ready.searching (h : ∀ tx, s.Ready R owner tx) : s.Searching where
  flight p hp := by
    rw [(h 0).inFlight] at hp
    cases hp
  flag l hl := by
    rw [(h 0).lookups] at hl
    cases hl
  entry a tx htx := by
    rw [Std.TreeMap.mem_iff_isSome_getElem?, (h tx).untracked a] at htx
    cases htx

omit [Sha1] in
theorem searchLog_issued (s : PennNet) (e : PennEvent) (log : SearchLog) :
    log.issued <+: (s.searchLog e log).issued := by
  unfold searchLog
  split
  · exact List.prefix_append _ _
  · split <;> exact List.prefix_rfl
  · exact List.prefix_rfl

omit [Sha1] in
theorem Served.collides_eq_false (h : s.Served owner stored log) (hs : s.Searching)
    (hnodup : (log.issued.map IssuedSearch.transactionId).Nodup) (e : PennEvent) :
    s.collides e = false := by
  by_contra hc
  rw [Bool.not_eq_false] at hc
  unfold collides at hc
  split at hc
  · rename_i k
    split at hc
    · cases hc
    · rename_i p hp
      rw [Bool.and_eq_true, Std.TreeMap.contains_iff_mem] at hc
      obtain ⟨l, hl, -, htx⟩ := hs.entry _ _ hc.2
      -- the message and the lookup are two tokens with the same id
      have hids : (s.tokens stored log).map SearchToken.transactionId =
          (log.issued : Multiset IssuedSearch).map IssuedSearch.transactionId := by
        refine (Multiset.rel_eq.mp (Multiset.rel_map.mpr ?_)).symm
        exact h.served.mono fun i _ x _ hix => hix.transactionId.symm
      have hnodup' : ((s.tokens stored log).map SearchToken.transactionId).Nodup := by
        rw [hids]
        exact hnodup
      rw [tokens_of_packet stored hp, Multiset.map_cons, Multiset.nodup_cons] at hnodup'
      refine hnodup'.1 (Multiset.mem_map.mpr ⟨s.lookupToken stored l, ?_, ?_⟩)
      · exact Multiset.mem_add.mpr (Or.inr (Multiset.mem_map_of_mem _ (Multiset.mem_coe.mpr hl)))
      · obtain ⟨searchData, hsome, -⟩ := h.waits l hl
        rw [lookupToken_of_tracked hsome]
        exact htx
  · cases hc

end PennNet

variable [Sha1]

theorem searches_apart_of_nodup {R : Finset Ipv4Address} {owner : CxxString → Ipv4Address}
    {s t : PennNet} {es : List PennEvent} (h : ∀ tx, s.Ready R owner tx)
    (hrun : Run (PennNet.step PennNet.viaService) (PennNet.SearchRun owner) s es t)
    (hnodup : ((history (PennNet.step PennNet.viaService) PennNet.searchLog s ⟨[], []⟩
      es).issued.map PennNet.IssuedSearch.transactionId).Nodup) :
    Run (PennNet.step PennNet.viaService) (PennNet.SearchRunApart owner) s es t := by
  have hdst : ∀ key, owner key ≠ .getAny :=
    fun key heq => (h 0).ring.getAny_notMem (heq ▸ ((h 0).isOwner key).1)
  induction hrun with
  | nil => exact .nil
  | @snoc es t u e run allowed eq ih =>
      rw [run.history_snoc eq] at hnodup
      have hprefix := hnodup.sublist ((PennNet.searchLog_issued t e _).sublist.map _)
      have hapart := ih hprefix
      have hserved := (PennNet.Ready.served h).run hdst hapart
      have hsearching := ((PennNet.Ready.searching h).run (h 0).toIdle run).1
      exact .snoc hapart ⟨allowed, hserved.collides_eq_false hsearching hprefix e⟩ eq

/-- From a stable ring at rest with its keys in place, any SEARCH commands for keywords that
can be answered are issued, at any nodes and times. As long as no searches meet, what is in
progress is brought to its end without a fault; and when nothing is in progress, every command
has got its own answer, and no other has come, exactly when no searches have met. -/
theorem searches_answered_iff {R : Finset Ipv4Address} {owner : CxxString → Ipv4Address}
    {s : PennNet} (h : ∀ tx, s.Ready R owner tx) :
    (∀ es t, Run (PennNet.step PennNet.viaService) (PennNet.SearchRunApart owner) s es t →
      Reaches (PennNet.step PennNet.viaService)
        (fun t e => t.Enabled owner e ∧ t.collides e = false) (fun _ => True) PennNet.Idle t) ∧
    ∀ es t, Run (PennNet.step PennNet.viaService) (PennNet.SearchRun owner) s es t → t.Idle →
      (s.AllAnswered (history (PennNet.step PennNet.viaService) PennNet.searchLog s ⟨[], []⟩ es) ↔
        Run (PennNet.step PennNet.viaService) (PennNet.SearchRunApart owner) s es t) := by
  have hdst : ∀ key, owner key ≠ .getAny :=
    fun key heq => (h 0).ring.getAny_notMem (heq ▸ ((h 0).isOwner key).1)
  have hserved := PennNet.Ready.served h
  have hsearching := PennNet.Ready.searching h
  refine ⟨fun es t hrun => ?_, fun es t hrun hidle => ⟨fun hanswered => ?_, fun hrun => ?_⟩⟩
  · have hrun' := hrun.mono fun t e (he : t.SearchRunApart owner e) => he.1
    exact (hserved.run hdst hrun).reaches (hsearching.run (h 0).toIdle hrun').1 hdst
  · obtain ⟨-, hapart | hlost, -⟩ := hsearching.run (h 0).toIdle hrun
    · exact hapart
    · have hcard := Multiset.card_eq_card_of_rel hanswered
      rw [Multiset.coe_card, Multiset.coe_card] at hcard
      omega
  · have hrel := (hserved.run hdst hrun).served
    rw [PennNet.tokens, hidle.inFlight, hidle.lookups] at hrel
    have hzero : ∀ m : Multiset SearchToken, m + Multiset.map (PennNet.packetToken
        (s.postingList owner)) (([] : List SearchPacket) : Multiset SearchPacket) +
        Multiset.map (t.lookupToken (s.postingList owner))
          (([] : List LookupCall) : Multiset LookupCall) = m := by
      intro m
      rw [Multiset.coe_nil, Multiset.coe_nil, Multiset.map_zero, Multiset.map_zero, add_zero,
        add_zero]
    rw [hzero, Multiset.rel_map_right] at hrel
    refine hrel.mono fun i _ r _ hir => ⟨hir.node, hir.transactionId, fun d => ?_⟩
    have hresult : ∀ d, d ∈ r.docList ↔ ∀ key ∈ i.keyList, Lists (s.postingList owner) key d :=
      hir.answers
    rw [hresult d]
    exact forall₂_congr fun key _ => (h 0).lists_iff

end PennSearch

namespace PennSearch

open MessagePassing

attribute [local instance] sampleSha1

instance : DecidablePred SearchFate.Printable
  | .complete .. => inferInstanceAs (Decidable (_ ∧ _))
  | .lost | .fault _ => .isFalse id

theorem samplePostings_ready_all (tx : UInt32) :
    samplePostings.Ready {sampleA, sampleB} sampleOwner tx :=
  { samplePostings_ready with
    untracked := fun a => by simp [samplePostings, SearchNode.start] }

theorem searchRun_of_postingList {s : PennNet} {w v : Ipv4Address} (hw : w ≠ .getAny)
    (hv : v ≠ .getAny) (hlist : s.postingList sampleOwner [84, 53] = some [[68], [71]])
    (hprintable : (searchFate w (s.search.node w).currentTransactionId (s.postingList sampleOwner)
      [[84, 53]]).Printable) :
    s.SearchRun sampleOwner (.search w v [[84, 53]]) := by
  refine ⟨hw, hv, answerable_cons.mpr ⟨by decide, fun docList hdocs => ?_⟩, hprintable⟩
  rw [hlist] at hdocs
  obtain rfl := Option.some.inj hdocs
  exact ⟨supplied_nil _, fun _ => by decide⟩

/-- A and B search for `T5`, and both commands go to B. -/
def sampleSearches : List PennEvent :=
  [.search sampleB sampleB [[84, 53]]] ++ [.search sampleA sampleB [[84, 53]]]

/-- B gets both commands before a lookup is answered. -/
def sampleMeeting : List PennEvent :=
  sampleSearches ++
    [.deliver 0, .deliver 0, .answer 0 sampleA, .answer 0 sampleA, .deliver 0, .deliver 0]

/-- B gets the command of A after it has sent its own search on. -/
def sampleApart : List PennEvent :=
  sampleSearches ++ [.deliver 0, .answer 0 sampleA, .deliver 0, .answer 0 sampleA, .deliver 0,
    .deliver 0, .deliver 0, .deliver 0]

/-- Both searches have the id 0. B keeps the entry of its own, the second lookup finds no entry,
and A never hears of its search. -/
theorem searches_interfere :
    (∀ tx, samplePostings.Ready {sampleA, sampleB} sampleOwner tx) ∧
    ∃ t, Run (PennNet.step PennNet.viaService) (PennNet.SearchRun sampleOwner) samplePostings
        sampleMeeting t ∧
      t.Idle ∧ ¬ samplePostings.AllAnswered
        (history (PennNet.step PennNet.viaService) PennNet.searchLog samplePostings ⟨[], []⟩
          sampleMeeting) := by
  have hrun : ∃ t, Run (PennNet.step PennNet.viaService) (PennNet.SearchRun sampleOwner)
      samplePostings sampleMeeting t ∧ t.Idle := by
    exact ⟨_, ((Run.single (searchRun_of_postingList (by decide) (by decide) (by decide)
      (by decide)) rfl).trans (Run.single (searchRun_of_postingList (by decide) (by decide)
        (by decide) (by decide)) rfl)).trans ((Run.of_execute rfl).mono fun _ _ => .of_enabled),
      ⟨rfl, rfl⟩⟩
  obtain ⟨t, hrun, hidle⟩ := hrun
  refine ⟨samplePostings_ready_all, t, hrun, hidle, fun hanswered => ?_⟩
  have hcard := Multiset.card_eq_card_of_rel hanswered
  have hissued : (history (PennNet.step PennNet.viaService) PennNet.searchLog samplePostings
      ⟨[], []⟩ sampleMeeting).issued.length = 2 := by decide
  have hreceived : (history (PennNet.step PennNet.viaService) PennNet.searchLog samplePostings
      ⟨[], []⟩ sampleMeeting).received.length = 1 := by decide
  rw [Multiset.coe_card, Multiset.coe_card, hissued, hreceived] at hcard
  exact absurd hcard (by decide)

/-- With the lookup in between, both get their own answer. -/
theorem searches_answered_iff_sample :
    samplePostings.AllAnswered (history (PennNet.step PennNet.viaService) PennNet.searchLog
      samplePostings ⟨[], []⟩ sampleApart) := by
  have hrun : ∃ t, Run (PennNet.step PennNet.viaService) (PennNet.SearchRunApart sampleOwner)
      samplePostings sampleApart t ∧ t.Idle := by
    refine ⟨_, ((Run.single ⟨searchRun_of_postingList (by decide) (by decide) (by decide)
      (by decide), rfl⟩ rfl).trans (Run.single ⟨searchRun_of_postingList (by decide) (by decide)
        (by decide) (by decide), rfl⟩ rfl)).trans ((Run.of_execute rfl :
          Run (PennNet.step PennNet.viaService)
            (fun t e => t.Enabled sampleOwner e ∧ t.collides e = false) _ _ _).mono
              fun t e he => ⟨.of_enabled he.1, he.2⟩), ⟨rfl, rfl⟩⟩
  obtain ⟨t, hrun, hidle⟩ := hrun
  exact ((searches_answered_iff samplePostings_ready_all).2 sampleApart t
    (hrun.mono fun t e (he : t.SearchRunApart sampleOwner e) => he.1) hidle).mpr hrun

end PennSearch
