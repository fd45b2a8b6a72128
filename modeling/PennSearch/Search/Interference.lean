import Mathlib.Data.Multiset.ZeroCons
import PennSearch.Search.Tokens

/-!
# Searches that meet

Any nodes issue SEARCH commands at any time, under ids that may coincide. A
search is in a message, or in the entry of a tracker together with a lookup. When a
handler tracks an id for which its node has an entry (`collides`), the message is
used up and no entry is made: one search is dropped for good, so that there are more
commands than answers when everything has been delivered.
-/

namespace PennSearch

open MessagePassing

/-- The counters of `ProcessSearchComplete` reach the ends of both lists. -/
def SearchFate.Printable : SearchFate → Prop
  | .complete keyList docList => docList.length < 256 ∧ keyList.length < 256
  | _ => False

variable [Sha1]

namespace PennNet

variable {owner : CxxString → Ipv4Address} {s t : PennNet} {e : PennEvent} {a : Ipv4Address}

/-- A SEARCH for keywords that can be answered, the delivery of a message, or the
answer to a lookup, which names the owner of its key. -/
def SearchRun (owner : CxxString → Ipv4Address) (s : PennNet) : PennEvent → Prop
  | .search w v keyList => w ≠ .getAny ∧ v ≠ .getAny ∧ Answerable (s.postingList owner) keyList ∧
      (searchFate w (s.search.node w).currentTransactionId (s.postingList owner) keyList).Printable
  | e => s.Enabled owner e

omit [Sha1] in
theorem SearchRun.of_enabled (h : s.Enabled owner e) : s.SearchRun owner e := by
  cases e with
  | search w v keyList => exact h.elim
  | _ => exact h

/-- The delivery of a message whose handler tracks an id that its node tracks already. -/
def collides (s : PennNet) : PennEvent → Bool
  | .deliver k =>
      match s.search.inFlight[k]? with
      | none => false
      | some p => (s.search.node p.dst).tracks p.msg &&
          (s.search.node p.dst).searchTracker.contains p.msg.transactionId
  | _ => false

/-- Only searches are under way, and an entry of a tracker waits for a lookup. -/
structure Searching (s : PennNet) : Prop where
  flight : ∀ p ∈ s.search.inFlight, p.msg.IsSearch
  flag : ∀ l ∈ s.lookups, l.flag = 1 ∨ l.flag = 2
  entry : ∀ (a : Ipv4Address) (tx : UInt32), tx ∈ (s.search.node a).searchTracker →
    ∃ l ∈ s.lookups, l.node = a ∧ l.transactionId = tx

omit [Sha1] in
theorem searchTurn_viaService (s : PennNet) (a : Ipv4Address) (n : SearchNode)
    (acts : List SearchAction) :
    s.searchTurn viaService a (.ok (n, acts)) = .ok { s with
      search := s.search.act a n (searchPackets a acts)
      lookups := s.lookups ++ lookupCalls a acts } :=
  foldlM_viaService _ _

theorem step_search_eq_ok {w v : Ipv4Address} {keyList : List CxxString} (hv : v ≠ .getAny)
    (h : s.step viaService (.search w v keyList) = .ok t) :
    t = { s with
      search := s.search.act w (s.search.node w).nextTransactionId (searchPackets w [.sendTo v
        ⟨(s.search.node w).currentTransactionId,
          .searchInitial (s.search.node w).localAddress keyList⟩]) } := by
  simp only [step, SearchNode.processSearchCommand, if_neg hv] at h
  obtain ⟨⟨n, acts⟩, hturn, h⟩ := bind_eq_ok.mp h
  obtain ⟨act, hact, hturn⟩ := bind_eq_ok.mp hturn
  obtain ⟨rfl, rfl⟩ := Prod.mk.inj (Except.ok.inj hturn)
  rw [SearchNode.sendTo_eq_ok hact] at h
  cases h
  rfl

theorem step_deliver_eq {k : ℕ} {p : SearchPacket} (hp : s.search.inFlight[k]? = some p) :
    s.step viaService (.deliver k) = do
      let (n, acts) ← (s.search.node p.dst).recvMessage p.msg p.src
      return { s with
        search := (s.search.take k).act p.dst n (searchPackets p.dst acts)
        lookups := s.lookups ++ lookupCalls p.dst acts } := by
  simp only [step, hp]
  cases (s.search.node p.dst).recvMessage p.msg p.src with
  | error f => rfl
  | ok r => exact searchTurn_viaService _ _ _ _

/-- `SendSearchBegin` and `SendSearch`: a lookup is answered from the entry that its node
has for the id. -/
theorem step_answer_search {i : ℕ} {l : LookupCall} (hl : s.lookups[i]? = some l)
    (hflag : l.flag = 1 ∨ l.flag = 2) (b : Ipv4Address) :
    s.step viaService (.answer i b) =
      match (s.search.node l.node).searchTracker[l.transactionId]? with
      | none => .ok { s with lookups := s.lookups.eraseIdx i }
      | some searchData => do
          let act ← (l.message searchData).sendTo b
          return { s with
            lookups := s.lookups.eraseIdx i
            search := s.search.act l.node { s.search.node l.node with
              searchTracker := (s.search.node l.node).searchTracker.erase l.transactionId }
              (searchPackets l.node [act]) } := by
  obtain ⟨act, hcall, hturn⟩ : ∃ act,
      ChordNode.lookupCallback l.flag l.lookupKey b l.transactionId = [act] ∧
        (s.search.node l.node).handleChord act =
          match (s.search.node l.node).searchTracker[l.transactionId]? with
          | none => .ok (s.search.node l.node, [])
          | some searchData => do
              let act ← (l.message searchData).sendTo b
              return ({ s.search.node l.node with
                searchTracker := (s.search.node l.node).searchTracker.erase l.transactionId },
                [act]) := by
    rcases hflag with hflag | hflag
    · refine ⟨.searchInitialSuccess l.lookupKey b l.transactionId, ?_, ?_⟩
      · simp [ChordNode.lookupCallback, hflag]
      · rw [SearchNode.handleChord, SearchNode.sendSearchBegin]
        cases (s.search.node l.node).searchTracker[l.transactionId]? with
        | none => rfl
        | some searchData =>
            dsimp only
            rw [LookupCall.message_begin hflag]
    · refine ⟨.searchBeginSuccess l.lookupKey b l.transactionId, ?_, ?_⟩
      · simp [ChordNode.lookupCallback, hflag]
      · rw [SearchNode.handleChord, SearchNode.sendSearch]
        cases (s.search.node l.node).searchTracker[l.transactionId]? with
        | none => rfl
        | some searchData =>
            dsimp only
            rw [LookupCall.message_round hflag]
  simp only [step, hl, hcall, callbacks, List.foldlM_cons, List.foldlM_nil, bind_pure, callback,
    hturn]
  cases (s.search.node l.node).searchTracker[l.transactionId]? with
  | none =>
      have hself : s.search.act l.node (s.search.node l.node) [] = s.search := Net.act_self _ _
      change Except.ok ({ s with
        lookups := s.lookups.eraseIdx i
        search := s.search.act l.node (s.search.node l.node) [] } : PennNet) = .ok _
      rw [hself]
  | some searchData =>
      dsimp only
      cases (l.message searchData).sendTo b with
      | error f => rfl
      | ok act => rfl

theorem step_deliver_cases (stored : CxxString → Option (List CxxString)) {k : ℕ}
    {p : SearchPacket} (hp : s.search.inFlight[k]? = some p) (hsearch : p.msg.IsSearch)
    (hread : ∀ key, p.msg.keyRead = some key → (s.search.node p.dst).dataMap[key]? = stored key)
    (h : s.step viaService (.deliver k) = .ok t) :
    (∃ keyList docList, p.msg.payload = .searchComplete keyList docList ∧
        t = { s with search := s.search.take k }) ∨
      (∀ keyList docList, p.msg.payload ≠ .searchComplete keyList docList) ∧
        ∃ n acts, SearchMove stored (s.search.node p.dst) p.msg p.dst n acts (p.msg.fate stored)
            ((s.search.node p.dst).tracks p.msg) ∧
          t = { s with
            search := (s.search.take k).act p.dst n (searchPackets p.dst acts)
            lookups := s.lookups ++ lookupCalls p.dst acts } := by
  rw [step_deliver_eq hp] at h
  obtain ⟨⟨n, acts⟩, hturn, h⟩ := bind_eq_ok.mp h
  cases h
  by_cases hcomplete : ∃ keyList docList, p.msg.payload = .searchComplete keyList docList
  · obtain ⟨keyList, docList, hpayload⟩ := hcomplete
    refine Or.inl ⟨keyList, docList, hpayload, ?_⟩
    rw [SearchNode.recvMessage, hpayload] at hturn
    simp only [SearchNode.processSearchComplete] at hturn
    split at hturn
    · cases hturn
    · cases hturn
      have hself : (s.search.take k).act p.dst (s.search.node p.dst) [] = s.search.take k :=
        Net.act_self (s.search.take k) p.dst
      simp only [searchPackets, lookupCalls, List.filterMap_cons, List.filterMap_nil,
        List.append_nil, hself]
  · have hnot : ∀ keyList docList, p.msg.payload ≠ .searchComplete keyList docList :=
      fun keyList docList h => hcomplete ⟨keyList, docList, h⟩
    exact Or.inr ⟨hnot, n, acts, SearchNode.recv_move hsearch hnot hread hturn, rfl⟩

theorem step_answer_cases {i : ℕ} {l : LookupCall} {b : Ipv4Address}
    (hl : s.lookups[i]? = some l) (hflag : l.flag = 1 ∨ l.flag = 2)
    (h : s.step viaService (.answer i b) = .ok t) :
    ((s.search.node l.node).searchTracker[l.transactionId]? = none ∧
        t = { s with lookups := s.lookups.eraseIdx i }) ∨
      ∃ searchData, (s.search.node l.node).searchTracker[l.transactionId]? = some searchData ∧
        t = { s with
          lookups := s.lookups.eraseIdx i
          search := s.search.act l.node { s.search.node l.node with
            searchTracker := (s.search.node l.node).searchTracker.erase l.transactionId }
            (searchPackets l.node [.sendTo b (l.message searchData)]) } := by
  rw [step_answer_search hl hflag] at h
  cases htrack : (s.search.node l.node).searchTracker[l.transactionId]? with
  | none =>
      rw [htrack] at h
      exact Or.inl ⟨rfl, (Except.ok.inj h).symm⟩
  | some searchData =>
      rw [htrack] at h
      obtain ⟨act, hact, h⟩ := bind_eq_ok.mp h
      rw [SearchNode.sendTo_eq_ok hact] at h
      exact Or.inr ⟨searchData, rfl, (Except.ok.inj h).symm⟩

/-! ## A collision loses a search -/

def liveEntries (s : PennNet) : Finset (Ipv4Address × UInt32) :=
  (s.lookups.map fun l => (l.node, l.transactionId)).toFinset.filter fun x =>
    x.2 ∈ (s.search.node x.1).searchTracker

/-- The searches that are still under way. -/
def load (s : PennNet) : ℕ := s.search.inFlight.length + s.liveEntries.card

omit [Sha1] in
theorem mem_liveEntries {x : Ipv4Address × UInt32} : x ∈ s.liveEntries ↔
    (∃ l ∈ s.lookups, l.node = x.1 ∧ l.transactionId = x.2) ∧
      x.2 ∈ (s.search.node x.1).searchTracker := by
  obtain ⟨a, tx⟩ := x
  simp only [liveEntries, Finset.mem_filter, List.mem_toFinset, List.mem_map, Prod.mk.injEq]

omit [Sha1] in
theorem length_searchPackets_sendTo (a b : Ipv4Address) (m : PennSearchMessage) :
    (searchPackets a [.sendTo b m]).length ≤ 1 :=
  List.length_filterMap_le _ _

/-- A command, with the id that it was issued under. -/
structure IssuedSearch where
  node : Ipv4Address
  transactionId : UInt32
  keyList : List CxxString

structure SearchAnswer where
  node : Ipv4Address
  transactionId : UInt32
  keyList : List CxxString
  docList : List CxxString

structure SearchLog where
  issued : List IssuedSearch
  received : List SearchAnswer

def searchLog (s : PennNet) (e : PennEvent) (log : SearchLog) : SearchLog :=
  match e with
  | .search w _ keyList =>
      { log with issued := log.issued ++ [⟨w, (s.search.node w).currentTransactionId, keyList⟩] }
  | .deliver k =>
      match s.search.inFlight[k]? with
      | some ⟨_, dst, ⟨transactionId, .searchComplete keyList docList⟩⟩ =>
          { log with received := log.received ++ [⟨dst, transactionId, keyList, docList⟩] }
      | _ => log
  | _ => log

omit [Sha1] in
theorem liveEntries_congr (hlookups : t.lookups = s.lookups)
    (htracker : ∀ a, (t.search.node a).searchTracker = (s.search.node a).searchTracker) :
    t.liveEntries = s.liveEntries := by
  ext x
  rw [mem_liveEntries, mem_liveEntries, hlookups, htracker]

omit [Sha1] in
theorem isSearch_of_mem_searchPackets {b : Ipv4Address} {m : PennSearchMessage} {p : SearchPacket}
    (hm : m.IsSearch) (hp : p ∈ searchPackets a [.sendTo b m]) : p.msg.IsSearch := by
  simp only [searchPackets, List.filterMap_cons, List.filterMap_nil] at hp
  split at hp
  · cases hp
  · rename_i q hq
    split at hq
    · cases hq
    · cases hq
      rw [List.mem_singleton.mp hp]
      exact hm

omit [Sha1] in
/-- Nothing is tracked, and no more searches are in messages. -/
theorem Searching.keep (hs : s.Searching) (hlookups : t.lookups = s.lookups)
    (htracker : ∀ a, (t.search.node a).searchTracker = (s.search.node a).searchTracker)
    (hflight : ∀ p ∈ t.search.inFlight, p.msg.IsSearch) :
    t.Searching ∧ t.load + s.search.inFlight.length = s.load + t.search.inFlight.length := by
  refine ⟨⟨hflight, hlookups ▸ hs.flag, fun a tx htx => ?_⟩, ?_⟩
  · rw [hlookups]
    exact hs.entry a tx (htracker a ▸ htx)
  · rw [load, load, liveEntries_congr hlookups htracker]
    omega

/-- A command adds one search. -/
theorem Searching.search (hs : s.Searching) {w v : Ipv4Address} {keyList : List CxxString}
    (hv : v ≠ .getAny) (h : s.step viaService (.search w v keyList) = .ok t) :
    t.Searching ∧ t.load ≤ s.load + 1 := by
  obtain rfl := step_search_eq_ok hv h
  have hlen := length_searchPackets_sendTo w v ⟨(s.search.node w).currentTransactionId,
    .searchInitial (s.search.node w).localAddress keyList⟩
  have hkeep := hs.keep rfl (t := { s with
    search := s.search.act w (s.search.node w).nextTransactionId (searchPackets w [.sendTo v
      ⟨(s.search.node w).currentTransactionId,
        .searchInitial (s.search.node w).localAddress keyList⟩]) })
    (Net.act_node_congr (s := (s.search.node w).nextTransactionId)
      (f := SearchNode.searchTracker) rfl _) (by
      intro p hp
      rcases List.mem_append.mp hp with hp | hp
      · exact hs.flight p hp
      · exact isSearch_of_mem_searchPackets (m := ⟨_, .searchInitial _ keyList⟩) trivial hp)
  simp only [Net.act_inFlight, List.length_append] at hkeep
  exact ⟨hkeep.1, by omega⟩

omit [Sha1] in
theorem length_eraseIdx_add_one {α : Type} {l : List α} {k : ℕ} {x : α} (h : l[k]? = some x) :
    (l.eraseIdx k).length + 1 = l.length := by
  have hk := (List.getElem?_eq_some_iff.mp h).1
  rw [List.length_eraseIdx_of_lt hk]
  omega

omit [Sha1] in
/-- A message turns into a lookup. An id that is tracked already gets no entry of its own. -/
theorem Searching.track (hs : s.Searching) {k : ℕ} {p : SearchPacket}
    (hp : s.search.inFlight[k]? = some p) {l : LookupCall} (searchData : SearchData)
    (hflag : l.flag = 1 ∨ l.flag = 2) (hlookups : t.lookups = s.lookups ++ [l])
    (hflight : t.search.inFlight = s.search.inFlight.eraseIdx k)
    (hnode : ∀ a, (t.search.node a).searchTracker =
      if a = l.node then (s.search.node a).searchTracker.insertIfNew l.transactionId searchData
      else (s.search.node a).searchTracker) :
    t.Searching ∧ t.load ≤ s.load ∧
      (l.transactionId ∈ (s.search.node l.node).searchTracker → t.load + 1 ≤ s.load) := by
  have hlen := length_eraseIdx_add_one hp
  have hold : ∀ a tx, tx ∈ (t.search.node a).searchTracker →
      (a = l.node ∧ tx = l.transactionId) ∨ tx ∈ (s.search.node a).searchTracker := by
    intro a tx htx
    rw [hnode a] at htx
    split at htx
    · rename_i ha
      rcases Std.TreeMap.mem_insertIfNew.mp htx with htx | htx
      · exact Or.inl ⟨ha, (Std.LawfulEqCmp.eq_of_compare htx).symm⟩
      · exact Or.inr htx
    · exact Or.inr htx
  have hentries : t.liveEntries ⊆ insert (l.node, l.transactionId) s.liveEntries := by
    rintro ⟨a, tx⟩ hx
    rw [mem_liveEntries, hlookups] at hx
    obtain ⟨⟨l', hl', ha, htx⟩, hmem⟩ := hx
    rcases hold a tx hmem with ⟨rfl, rfl⟩ | hmem
    · exact Finset.mem_insert_self _ _
    · rcases List.mem_append.mp hl' with hl' | hl'
      · exact Finset.mem_insert_of_mem (mem_liveEntries.mpr ⟨⟨l', hl', ha, htx⟩, hmem⟩)
      · obtain rfl := List.mem_singleton.mp hl'
        exact Finset.mem_insert.mpr (Or.inl (by rw [ha, htx]))
  refine ⟨⟨?_, ?_, ?_⟩, ?_, fun hmem => ?_⟩
  · rw [hflight]
    exact fun q hq => hs.flight q (List.mem_of_mem_eraseIdx hq)
  · rw [hlookups]
    intro l' hl'
    rcases List.mem_append.mp hl' with hl' | hl'
    · exact hs.flag l' hl'
    · rw [List.mem_singleton.mp hl']
      exact hflag
  · intro a tx htx
    rw [hlookups]
    rcases hold a tx htx with ⟨rfl, rfl⟩ | htx
    · exact ⟨l, List.mem_append_right _ (List.mem_singleton_self l), rfl, rfl⟩
    · obtain ⟨l', hl', h⟩ := hs.entry a tx htx
      exact ⟨l', List.mem_append_left _ hl', h⟩
  · have hcard := (Finset.card_le_card hentries).trans (Finset.card_insert_le _ _)
    rw [load, load, hflight]
    omega
  · have hlive : (l.node, l.transactionId) ∈ s.liveEntries :=
      mem_liveEntries.mpr ⟨hs.entry _ _ hmem, hmem⟩
    rw [Finset.insert_eq_of_mem hlive] at hentries
    have hcard := Finset.card_le_card hentries
    rw [load, load, hflight]
    omega

/-- A delivery adds none, and the answer of a search and a collision take one away. -/
theorem Searching.deliver (hs : s.Searching) {k : ℕ} {p : SearchPacket}
    (hp : s.search.inFlight[k]? = some p) (h : s.step viaService (.deliver k) = .ok t) :
    t.Searching ∧ t.load ≤ s.load ∧
      ((∃ keyList docList, p.msg.payload = .searchComplete keyList docList) → t.load + 1 ≤ s.load) ∧
      (s.collides (.deliver k) = true → t.load + 1 ≤ s.load) := by
  have hsearch := hs.flight p (List.mem_of_getElem? hp)
  have hlen := length_eraseIdx_add_one hp
  have hflight : ∀ q ∈ s.search.inFlight.eraseIdx k, q.msg.IsSearch :=
    fun q hq => hs.flight q (List.mem_of_mem_eraseIdx hq)
  have hcollides : s.collides (.deliver k) = true ↔ (s.search.node p.dst).tracks p.msg = true ∧
      p.msg.transactionId ∈ (s.search.node p.dst).searchTracker := by
    rw [collides, hp, Bool.and_eq_true, Std.TreeMap.contains_iff_mem]
  rcases step_deliver_cases (fun key => (s.search.node p.dst).dataMap[key]?) hp hsearch
    (fun key _ => rfl) h with ⟨keyList, docList, hpayload, rfl⟩ | ⟨hnot, n, acts, hmove, rfl⟩
  · obtain ⟨hsearching, hload⟩ := hs.keep (t := { s with search := s.search.take k }) rfl
      (fun _ => rfl) hflight
    simp only [Net.take_inFlight] at hload
    exact ⟨hsearching, by omega, fun _ => by omega, fun _ => by omega⟩
  · generalize p.msg.fate _ = fate at hmove
    generalize (s.search.node p.dst).tracks p.msg = tracked at hmove hcollides
    cases hmove with
    | complete keyList docList hops =>
        have hone := length_searchPackets_sendTo p.dst (p.msg.searcher p.dst)
          ⟨p.msg.transactionId, .searchComplete keyList docList⟩
        obtain ⟨hsearching, hload⟩ := hs.keep (t := { s with
          search := (s.search.take k).act p.dst (s.search.node p.dst) (searchPackets p.dst
            [.sendTo (p.msg.searcher p.dst) ⟨p.msg.transactionId, .searchComplete keyList docList⟩])
          lookups := s.lookups ++ [] }) (List.append_nil _)
          (Net.act_node_congr (c := s.search.take k) (f := SearchNode.searchTracker) rfl _) (by
            intro q hq
            rcases List.mem_append.mp hq with hq | hq
            · exact hflight q hq
            · exact isSearch_of_mem_searchPackets (m := ⟨_, .searchComplete keyList docList⟩)
                trivial hq)
        simp only [Net.act_inFlight, Net.take_inFlight, List.length_append] at hload
        refine ⟨hsearching, ?_, fun hpayload => ?_, fun hc => ?_⟩
        · change load { s with search := _, lookups := s.lookups ++ [] } ≤ _
          omega
        · obtain ⟨keyList, docList, hpayload⟩ := hpayload
          exact absurd hpayload (hnot keyList docList)
        · exact absurd (hcollides.mp hc).1 Bool.false_ne_true
    | lookup l searchData node tx initiator waits hops =>
        obtain ⟨hsearching, hload, hcollision⟩ := hs.track hp (l := l) searchData
          (t := { s with
            search := (s.search.take k).act p.dst
              ((s.search.node p.dst).track p.msg.transactionId searchData)
              (searchPackets p.dst [.lookupPublish l.lookupKey l.flag l.transactionId])
            lookups := s.lookups ++ lookupCalls p.dst
              [.lookupPublish l.lookupKey l.flag l.transactionId] })
          waits.flag (by rw [← node]; rfl) (List.append_nil _) (fun a => by
            rw [Net.act_node, ← tx, ← node]
            split
            · rename_i ha
              rw [ha]
              rfl
            · rfl)
        refine ⟨hsearching, hload, fun hpayload => ?_, fun hc => hcollision ?_⟩
        · obtain ⟨keyList, docList, hpayload⟩ := hpayload
          exact absurd hpayload (hnot keyList docList)
        · rw [tx, node]
          exact (hcollides.mp hc).2

/-- An answer adds none. -/
theorem Searching.answer (hs : s.Searching) {i : ℕ} {l : LookupCall} {b : Ipv4Address}
    (hl : s.lookups[i]? = some l) (h : s.step viaService (.answer i b) = .ok t) :
    t.Searching ∧ t.load ≤ s.load := by
  have hmem := List.mem_of_getElem? hl
  have hflag : ∀ l' ∈ s.lookups.eraseIdx i, l'.flag = 1 ∨ l'.flag = 2 :=
    fun l' hl' => hs.flag l' (List.mem_of_mem_eraseIdx hl')
  -- an entry that another lookup waits for keeps its lookup
  have hother : ∀ a tx, tx ∈ (s.search.node a).searchTracker → (a, tx) ≠ (l.node, l.transactionId) →
      ∃ l' ∈ s.lookups.eraseIdx i, l'.node = a ∧ l'.transactionId = tx := by
    intro a tx htx hne
    obtain ⟨l', hl', rfl, rfl⟩ := hs.entry a tx htx
    exact ⟨l', mem_eraseIdx_of_ne hl hl' fun heq => hne (by rw [heq]), rfl, rfl⟩
  rcases step_answer_cases hl (hs.flag l hmem) h with ⟨hnone, rfl⟩ | ⟨searchData, hsome, rfl⟩
  · refine ⟨⟨hs.flight, hflag, fun a tx htx => hother a tx htx ?_⟩, ?_⟩
    · intro heq
      obtain ⟨rfl, rfl⟩ := Prod.mk.inj heq
      rw [Std.TreeMap.mem_iff_isSome_getElem?, hnone] at htx
      cases htx
    · refine Nat.add_le_add_left (Finset.card_le_card fun x hx => ?_) _
      obtain ⟨⟨l', hl', h⟩, htx⟩ := mem_liveEntries.mp hx
      exact mem_liveEntries.mpr ⟨⟨l', List.mem_of_mem_eraseIdx hl', h⟩, htx⟩
  · have htracker : ∀ a tx, tx ∈ ((s.search.act l.node { s.search.node l.node with
        searchTracker := (s.search.node l.node).searchTracker.erase l.transactionId }
        (searchPackets l.node [.sendTo b (l.message searchData)])).node a).searchTracker →
        tx ∈ (s.search.node a).searchTracker ∧ (a, tx) ≠ (l.node, l.transactionId) := by
      intro a tx htx
      rw [Net.act_node] at htx
      split at htx
      · rename_i ha
        obtain ⟨hne, htx⟩ := Std.TreeMap.mem_erase.mp htx
        refine ⟨ha ▸ htx, fun heq => hne ?_⟩
        rw [(Prod.mk.inj heq).2]
        exact Std.ReflCmp.compare_self
      · rename_i ha
        exact ⟨htx, fun heq => ha (Prod.mk.inj heq).1⟩
    refine ⟨⟨?_, hflag, ?_⟩, ?_⟩
    · intro p hp
      rcases List.mem_append.mp hp with hp | hp
      · exact hs.flight p hp
      · exact isSearch_of_mem_searchPackets (l.message_isSearch searchData) hp
    · intro a tx htx
      obtain ⟨htx, hne⟩ := htracker a tx htx
      exact hother a tx htx hne
    · have hlive : (l.node, l.transactionId) ∈ s.liveEntries := by
        refine mem_liveEntries.mpr ⟨⟨l, hmem, rfl, rfl⟩, ?_⟩
        rw [Std.TreeMap.mem_iff_isSome_getElem?, hsome]
        rfl
      have hcard := Finset.card_erase_add_one hlive
      have hlen := length_searchPackets_sendTo l.node b (l.message searchData)
      have hsub : liveEntries { s with
          lookups := s.lookups.eraseIdx i
          search := s.search.act l.node { s.search.node l.node with
            searchTracker := (s.search.node l.node).searchTracker.erase l.transactionId }
            (searchPackets l.node [.sendTo b (l.message searchData)]) } ⊆
          s.liveEntries.erase (l.node, l.transactionId) := by
        rintro ⟨a, tx⟩ hx
        obtain ⟨⟨l', hl', h⟩, htx⟩ := mem_liveEntries.mp hx
        obtain ⟨htx, hne⟩ := htracker a tx htx
        exact Finset.mem_erase.mpr
          ⟨hne, mem_liveEntries.mpr ⟨⟨l', List.mem_of_mem_eraseIdx hl', h⟩, htx⟩⟩
      have hle := Finset.card_le_card hsub
      rw [load, load, Net.act_inFlight, List.length_append]
      omega

omit [Sha1] in
theorem searchLog_complete {k : ℕ} {p : SearchPacket} {keyList docList : List CxxString}
    (hp : s.search.inFlight[k]? = some p)
    (hpayload : p.msg.payload = .searchComplete keyList docList) (log : SearchLog) :
    s.searchLog (.deliver k) log = { log with
      received := log.received ++ [⟨p.dst, p.msg.transactionId, keyList, docList⟩] } := by
  obtain ⟨src, dst, tx, payload⟩ := p
  cases hpayload
  simp only [searchLog, hp]

omit [Sha1] in
theorem searchLog_of_not {k : ℕ} {p : SearchPacket} (hp : s.search.inFlight[k]? = some p)
    (hnot : ∀ keyList docList, p.msg.payload ≠ .searchComplete keyList docList) (log : SearchLog) :
    s.searchLog (.deliver k) log = log := by
  obtain ⟨src, dst, tx, payload⟩ := p
  cases payload with
  | searchComplete keyList docList => exact absurd rfl (hnot keyList docList)
  | _ => simp only [searchLog, hp]

/-- No step makes answers, and a collision takes one away. -/
theorem Searching.step (hs : s.Searching) (he : s.SearchRun owner e)
    (h : s.step viaService e = .ok t) (log : SearchLog) :
    t.Searching ∧
      (s.searchLog e log).received.length + t.load + log.issued.length +
          (if s.collides e then 1 else 0) ≤
        log.received.length + s.load + (s.searchLog e log).issued.length := by
  cases e with
  | search w v keyList =>
      obtain ⟨hsearching, hload⟩ := hs.search he.2.1 h
      refine ⟨hsearching, ?_⟩
      simp only [searchLog, collides, List.length_append, List.length_singleton]
      change _ + 0 ≤ _
      omega
  | deliver k =>
      obtain ⟨p, hp⟩ : ∃ p, s.search.inFlight[k]? = some p :=
        ⟨_, List.getElem?_eq_getElem he⟩
      obtain ⟨hsearching, hload, hanswer, hcollision⟩ := hs.deliver hp h
      refine ⟨hsearching, ?_⟩
      by_cases hcomplete : ∃ keyList docList, p.msg.payload = .searchComplete keyList docList
      · obtain ⟨keyList, docList, hpayload⟩ := hcomplete
        have hone := hanswer ⟨keyList, docList, hpayload⟩
        have hno : s.collides (.deliver k) = false := by
          rw [collides, hp]
          obtain ⟨src, dst, tx, payload⟩ := p
          cases hpayload
          rfl
        rw [searchLog_complete hp hpayload, hno]
        simp only [List.length_append, List.length_singleton]
        change _ + 0 ≤ _
        omega
      · rw [searchLog_of_not hp fun keyList docList h => hcomplete ⟨keyList, docList, h⟩]
        split
        · have hone := hcollision (by assumption)
          omega
        · omega
  | answer i b =>
      obtain ⟨l, hl, -⟩ := Option.map_eq_some_iff.mp he
      obtain ⟨hsearching, hload⟩ := hs.answer hl h
      refine ⟨hsearching, ?_⟩
      simp only [searchLog, collides]
      change _ + 0 ≤ _
      omega
  | _ => exact he.elim

def SearchRunApart (owner : CxxString → Ipv4Address) (s : PennNet) (e : PennEvent) : Prop :=
  s.SearchRun owner e ∧ s.collides e = false

/-- After a collision, one search has no answer and never gets one. -/
theorem Searching.run {es : List PennEvent} (hs : s.Searching) (hidle : s.Idle)
    (h : Run (PennNet.step viaService) (SearchRun owner) s es t) :
    t.Searching ∧
      (Run (PennNet.step viaService) (SearchRunApart owner) s es t ∨
        (history (PennNet.step viaService) searchLog s ⟨[], []⟩ es).received.length + t.load + 1 ≤
          (history (PennNet.step viaService) searchLog s ⟨[], []⟩ es).issued.length) ∧
      (history (PennNet.step viaService) searchLog s ⟨[], []⟩ es).received.length + t.load ≤
        (history (PennNet.step viaService) searchLog s ⟨[], []⟩ es).issued.length := by
  induction h with
  | nil =>
      refine ⟨hs, Or.inl .nil, ?_⟩
      have hload : s.load = 0 := by
        rw [load, liveEntries, hidle.inFlight, hidle.lookups]
        rfl
      change 0 + s.load ≤ 0
      omega
  | @snoc es t u e run allowed eq ih =>
      obtain ⟨hsearching, hapart, hle⟩ := ih
      rw [run.history_snoc eq]
      obtain ⟨hsearching', hstep⟩ := hsearching.step allowed eq
        (history (PennNet.step viaService) searchLog s ⟨[], []⟩ es)
      refine ⟨hsearching', ?_, by omega⟩
      cases hc : t.collides e with
      | true =>
          rw [hc, if_pos rfl] at hstep
          exact Or.inr (by omega)
      | false =>
          rw [hc, if_neg Bool.false_ne_true] at hstep
          rcases hapart with hapart | hlost
          · exact Or.inl (.snoc hapart ⟨allowed, hc⟩ eq)
          · exact Or.inr (by omega)

end PennNet

end PennSearch
