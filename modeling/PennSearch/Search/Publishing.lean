import Mathlib.Data.Multiset.Replicate
import PennSearch.Search.Inversion
import PennSearch.Search.Postings

/-!
# Publishing a metadata file

`occurrences lines key` is what a metadata file says about a keyword, read from
its lines alone: the document of each line, once for every time the line names
the keyword. The map that PUBLISH builds has exactly these documents. One map
serves all lookups that wait, so `owing` is what their replies will ship.
-/

namespace PennSearch

open MessagePassing

def lineOccurrences (key line : CxxString) : Multiset CxxString :=
  match tokenizer line [32] with
  | [] => 0
  | docx :: keyWords => Multiset.replicate (keyWords.count key) docx

def occurrences (lines : List CxxString) (key : CxxString) : Multiset CxxString :=
  (lines.map (lineOccurrences key)).sum

namespace PostingMap

variable {m m' : PostingMap} {key : CxxString}

def documents (m : PostingMap) (key : CxxString) : Multiset CxxString :=
  ((m[key]?.getD [] : List CxxString) : Multiset CxxString)

theorem documents_of_getElem? {docVector : List CxxString} (h : m[key]? = some docVector) :
    m.documents key = docVector := by
  rw [documents, h, Option.getD_some]

theorem documents_of_none (h : m[key]? = none) : m.documents key = 0 := by
  rw [documents, h, Option.getD_none, Multiset.coe_nil]

theorem Filled.documents_eq_zero (h : m.Filled) : m.documents key = 0 ↔ m[key]? = none := by
  constructor
  · intro hzero
    cases hget : m[key]? with
    | none => rfl
    | some docVector =>
        rw [documents_of_getElem? hget, Multiset.coe_eq_zero] at hzero
        exact absurd (hzero ▸ hget) (h key)
  · exact documents_of_none

/-- The documents of a line and of a file do not depend on their order here. -/
theorem coe_lineDocuments (key line : CxxString) :
    (lineDocuments key line : Multiset CxxString) = lineOccurrences key line := by
  unfold lineDocuments lineOccurrences
  cases tokenizer line [32] with
  | nil => rfl
  | cons docx keyWords => exact Multiset.coe_replicate _ _

theorem coe_fileDocuments (lines : List CxxString) (key : CxxString) :
    (fileDocuments lines key : Multiset CxxString) = occurrences lines key := by
  induction lines with
  | nil => rfl
  | cons line lines ih =>
      rw [fileDocuments, List.flatMap_cons, ← Multiset.coe_add, coe_lineDocuments]
      exact congrArg (lineOccurrences key line + ·) ih

theorem foldlM_invertLine {lines : List CxxString} (h : lines.foldlM invertLine m = .ok m') :
    (∀ key, m'.documents key = m.documents key + occurrences lines key) ∧
      (m.Filled → m'.Filled) := by
  refine ⟨fun key => ?_, fun hm => hm.foldlM_invertLine h⟩
  rw [documents, getD_foldlM_invertLine h key, ← Multiset.coe_add, coe_fileDocuments]
  rfl

end PostingMap

def storeListSize (key : CxxString) (docs : Multiset CxxString) : ℕ :=
  9 + key.length + (docs.map fun d => 2 + d.length).sum

theorem storeList_fits_iff (tx : UInt32) (key : CxxString) (docVector : List CxxString) :
    PennSearchMessage.fits ⟨tx, .storeList key docVector⟩ = true ↔
      storeListSize key docVector ≤ 65507 := by
  have hsum : ((docVector : Multiset CxxString).map fun d => 2 + d.length).sum =
      entriesSize docVector := by
    rw [Multiset.map_coe, Multiset.sum_coe]
    rfl
  rw [PennSearchMessage.fits, decide_eq_true_iff, PennSearchMessage.serializedSize, storeListSize,
    hsum]
  dsimp only
  omega

/-- What the socket takes of the STORE_LIST that answers a lookup of `key`. -/
def PostingMap.shippable (m : PostingMap) (key : CxxString) : Multiset CxxString :=
  if storeListSize key (m.documents key) ≤ 65507 then m.documents key else 0

def PennSearchMessage.ships (key : CxxString) (message : PennSearchMessage) : Multiset CxxString :=
  match message.payload with
  | .storeList k docVector => if k = key then docVector else 0
  | _ => 0

def SearchNet.shipped (c : SearchNet) (key : CxxString) : Multiset CxxString :=
  inTransit (PennSearchMessage.ships key) c.inFlight

/-- A STORE_LIST is lost on the way to nobody, and when it does not fit. -/
theorem ships_searchPackets (src b : Ipv4Address) (tx : UInt32) (k key : CxxString)
    (docVector : List CxxString) :
    inTransit (PennSearchMessage.ships key)
        (searchPackets src [.sendTo b ⟨tx, .storeList k docVector⟩]) =
      if b ≠ .getAny ∧ k = key ∧ storeListSize k docVector ≤ 65507 then ↑docVector else 0 := by
  have hfits := storeList_fits_iff tx k docVector
  by_cases hb : b = .getAny
  · simp [searchPackets, hb]
  · cases hlost : PennSearchMessage.fits ⟨tx, .storeList k docVector⟩ with
    | false =>
        rw [hlost, iff_comm] at hfits
        simp [searchPackets, hlost, hfits]
    | true =>
        rw [hlost, iff_comm] at hfits
        simp [searchPackets, hlost, hb, hfits, PennSearchMessage.ships]

theorem SearchNode.publishLoop_acts (n : SearchNode) (a : Ipv4Address) (keys : List CxxString) :
    (lookupCalls a (n.publishLoop keys).2).map LookupCall.lookupKey = keys ∧
      (∀ l ∈ lookupCalls a (n.publishLoop keys).2, l.node = a ∧ l.flag = 0) ∧
        searchPackets a (n.publishLoop keys).2 = [] := by
  induction keys generalizing n with
  | nil => exact ⟨rfl, by simp [publishLoop, lookupCalls], rfl⟩
  | cons key keys ih =>
      obtain ⟨hkeys, hcalls, hpackets⟩ := ih n.nextTransactionId
      refine ⟨congrArg (key :: ·) hkeys, ?_, hpackets⟩
      rw [show lookupCalls a (n.publishLoop (key :: keys)).2 =
        ⟨a, key, 0, n.currentTransactionId⟩ ::
          lookupCalls a (n.nextTransactionId.publishLoop keys).2
        from rfl, List.forall_mem_cons]
      exact ⟨⟨rfl, rfl⟩, hcalls⟩

def PennNet.waiting (s : PennNet) (key : CxxString) : ℕ :=
  s.lookups.countP fun l => l.lookupKey = key

/-- What has been shipped for `key`, and what the replies to the lookups that wait
will ship. -/
def PennNet.owing (s : PennNet) (a : Ipv4Address) (key : CxxString) : Multiset CxxString :=
  s.search.shipped key + s.waiting key • (s.search.node a).invertListMap.shippable key

def published (es : List PennEvent) (key : CxxString) : Multiset CxxString :=
  (es.map fun
    | .publish _ _ lines => occurrences (lines.getD []) key
    | _ => 0).sum

/-- One lookup more, served from the new list: nothing is lost when the new list
fits and, if a lookup waits, is the old one. -/
theorem owed_iff {w : ℕ} {docs docs' : Multiset CxxString} {fits : Prop} [Decidable fits] :
    (w + 1) • (if fits then docs' else 0) = w • docs + docs' ↔
      (docs' ≠ 0 → fits) ∧ (w ≠ 0 → docs' = docs) := by
  have hcancel : w • docs' = w • docs ↔ (w ≠ 0 → docs' = docs) := by
    constructor
    · intro h hw
      ext d
      have hcount := congrArg (Multiset.count d) h
      rw [Multiset.count_nsmul, Multiset.count_nsmul] at hcount
      exact Nat.eq_of_mul_eq_mul_left (Nat.pos_of_ne_zero hw) hcount
    · intro h
      by_cases hw : w = 0
      · rw [hw, zero_nsmul, zero_nsmul]
      · rw [h hw]
  by_cases hfits : fits
  · rw [if_pos hfits, add_nsmul, one_nsmul, add_left_inj, hcancel]
    exact (and_iff_right fun _ => hfits).symm
  · have hparts : w • docs + docs' = 0 ↔ w • docs = 0 ∧ docs' = 0 := by
      rw [← Multiset.card_eq_zero, Multiset.card_add, Nat.add_eq_zero_iff, Multiset.card_eq_zero,
        Multiset.card_eq_zero]
    rw [if_neg hfits, nsmul_zero, eq_comm, hparts]
    constructor
    · rintro ⟨hold, rfl⟩
      refine ⟨fun h => absurd rfl h, fun hw => ?_⟩
      exact (hcancel.mp (by rw [nsmul_zero, hold])) hw
    · rintro ⟨hnew, hold⟩
      have hzero : docs' = 0 := by
        by_contra h
        exact hfits (hnew h)
      subst hzero
      refine ⟨?_, rfl⟩
      rw [← hcancel.mpr hold, nsmul_zero]

theorem card_lt_of_storeListSize {key : CxxString} {docs : Multiset CxxString}
    (h : storeListSize key docs ≤ 65507) : docs.card < 65536 := by
  have hcard : docs.card ≤ (docs.map fun d => 2 + d.length).sum := by
    induction docs using Multiset.induction_on with
    | empty => exact le_rfl
    | cons d docs ih =>
        rw [storeListSize, Multiset.map_cons, Multiset.sum_cons] at h
        rw [Multiset.map_cons, Multiset.sum_cons, Multiset.card_cons]
        have hrest := ih (by rw [storeListSize]; omega)
        omega
  rw [storeListSize] at h
  omega

theorem published_snoc (es : List PennEvent) (e : PennEvent) (key : CxxString) :
    published (es ++ [e]) key = published es key + published [e] key := by
  rw [published, List.map_append, List.sum_append]
  rfl

variable [Sha1]

namespace PennNet

variable {s t : PennNet} {a : Ipv4Address}

def Publishing (a : Ipv4Address) (s : PennNet) : Prop := ∀ l ∈ s.lookups, l.node = a ∧ l.flag = 0

theorem step_answer_eq {i : ℕ} {l : LookupCall} (hl : s.lookups[i]? = some l) (hflag : l.flag = 0)
    (b : Ipv4Address) :
    s.step viaService (.answer i b) = do
      let (n, acts) ← (s.search.node l.node).sendInvertList l.lookupKey b l.transactionId
      return { s with
        lookups := s.lookups.eraseIdx i
        search := s.search.act l.node n (searchPackets l.node acts) } := by
  simp only [step, hl, hflag, ChordNode.lookupCallback, if_true]
  exact bind_pure _

/-- PUBLISH replaces the map, and asks for each of its keys once. -/
theorem publish_cases {lookup : PennNet → LookupCall → Except Fault PennNet} {filename : CxxString}
    {lines : Option (List CxxString)} (h : s.step lookup (.publish a filename lines) = .ok t) :
    filename.length < 50 ∧ ∃ (m : PostingMap) (n : SearchNode) (calls : List LookupCall),
      (lines.getD []).foldlM PostingMap.invertLine ∅ = .ok m ∧
      n = { s.search.node a with
        invertListMap := m, currentTransactionId := n.currentTransactionId } ∧
      calls.map LookupCall.lookupKey = m.keys ∧ (∀ l ∈ calls, l.node = a ∧ l.flag = 0) ∧
        calls.foldlM lookup { s with search := s.search.act a n [] } = .ok t := by
  have hlength : filename.length < 50 := by
    by_contra hlength
    rw [step, searchTurn, SearchNode.processPublishCommand, if_pos (by omega)] at h
    cases h
  refine ⟨hlength, ?_⟩
  rw [step, searchTurn, SearchNode.processPublishCommand_eq _ lines hlength] at h
  obtain ⟨⟨n, acts⟩, hresult, h⟩ := bind_eq_ok.mp h
  cases hm : (lines.getD []).foldlM PostingMap.invertLine ∅ with
  | error f =>
      rw [hm] at hresult
      cases hresult
  | ok m =>
      rw [hm] at hresult
      obtain ⟨rfl, rfl⟩ := Prod.mk.inj (Except.ok.inj hresult)
      let n : SearchNode := { s.search.node a with invertListMap := m }
      obtain ⟨hkeys, hcalls, hpackets⟩ := n.publishLoop_acts a m.keys
      exact ⟨m, _, _, rfl, n.publishLoop_same m.keys, hkeys, hcalls, hpackets ▸ h⟩

theorem step_publish {filename : CxxString} {lines : Option (List CxxString)}
    (h : s.step viaService (.publish a filename lines) = .ok t) :
    filename.length < 50 ∧ ∃ m calls, (lines.getD []).foldlM PostingMap.invertLine ∅ = .ok m ∧
      (t.search.node a).invertListMap = m ∧ t.search.inFlight = s.search.inFlight ∧
        t.lookups = s.lookups ++ calls ∧ calls.map LookupCall.lookupKey = m.keys ∧
          ∀ l ∈ calls, l.node = a ∧ l.flag = 0 := by
  obtain ⟨hlength, m, n, calls, hm, hn, hkeys, hcalls, hrest⟩ := publish_cases h
  obtain rfl := Except.ok.inj ((foldlM_viaService _ _).symm.trans hrest)
  refine ⟨hlength, m, calls, hm, ?_, ?_, rfl, hkeys, hcalls⟩
  · rw [Net.act_node_self, hn]
  · rw [Net.act_inFlight, List.append_nil]

theorem step_publish_isOk (s : PennNet) (a : Ipv4Address) {filename : CxxString}
    {lines : Option (List CxxString)} (hlength : filename.length < 50)
    (hlines : ∀ line ∈ lines.getD [], LineHasDocument line) :
    ∃ t, s.step viaService (.publish a filename lines) = .ok t := by
  obtain ⟨m, hm⟩ := (PostingMap.foldlM_invertLine_isOk ∅ _).mpr hlines
  rw [step, searchTurn, SearchNode.processPublishCommand_eq _ lines hlength, hm]
  exact ⟨_, foldlM_viaService _ _⟩

/-- A reply ships what the map has for its key now, and leaves the rest. -/
theorem step_answer {i : ℕ} {b : Ipv4Address} {l : LookupCall} (hl : s.lookups[i]? = some l)
    (hnode : l.node = a) (hflag : l.flag = 0) (h : s.step viaService (.answer i b) = .ok t) :
    t.lookups = s.lookups.eraseIdx i ∧
      (t.search.node a).invertListMap = (s.search.node a).invertListMap ∧
      ∀ key, t.search.shipped key = s.search.shipped key +
        if b ≠ .getAny ∧ l.lookupKey = key then (s.search.node a).invertListMap.shippable key
        else 0 := by
  subst hnode
  rw [step_answer_eq hl hflag] at h
  obtain ⟨⟨n, acts⟩, hresult, h⟩ := bind_eq_ok.mp h
  obtain rfl := Except.ok.inj h
  rw [SearchNode.sendInvertList] at hresult
  cases hget : (s.search.node l.node).invertListMap[l.lookupKey]? with
  | none =>
      rw [hget] at hresult
      obtain ⟨rfl, rfl⟩ := Prod.mk.inj (Except.ok.inj hresult)
      refine ⟨rfl, by simp, fun key => ?_⟩
      have hzero : (if b ≠ .getAny ∧ l.lookupKey = key then
          (s.search.node l.node).invertListMap.shippable key else 0) = 0 := by
        split
        · rename_i hkey
          rw [← hkey.2, PostingMap.shippable, PostingMap.documents_of_none hget, ite_self]
        · rfl
      rw [hzero, add_zero]
      simp [SearchNet.shipped, searchPackets]
  | some docVector =>
      rw [hget] at hresult
      obtain ⟨act, hact, hresult⟩ := bind_eq_ok.mp hresult
      obtain rfl := SearchNode.sendTo_eq_ok hact
      obtain ⟨rfl, rfl⟩ := Prod.mk.inj (Except.ok.inj hresult)
      refine ⟨rfl, by simp, fun key => ?_⟩
      rw [SearchNet.shipped, Net.act_inFlight, inTransit_append, ships_searchPackets]
      refine congrArg _ ?_
      have hdocs := PostingMap.documents_of_getElem? hget
      by_cases hkey : l.lookupKey = key
      · subst hkey
        rw [PostingMap.shippable, hdocs]
        by_cases hb : b = .getAny <;> simp [hb]
      · simp [hkey]

theorem step_answer_isOk {i : ℕ} {l : LookupCall} (hl : s.lookups[i]? = some l)
    (hnode : l.node = a) (hflag : l.flag = 0) (b : Ipv4Address) :
    (∃ t, s.step viaService (.answer i b) = .ok t) ↔
      ((s.search.node a).invertListMap.documents l.lookupKey).card < 65536 := by
  subst hnode
  rw [step_answer_eq hl hflag, SearchNode.sendInvertList]
  cases hget : (s.search.node l.node).invertListMap[l.lookupKey]? with
  | none =>
      rw [PostingMap.documents_of_none hget]
      exact iff_of_true ⟨_, rfl⟩ (by simp)
  | some docVector =>
      rw [PostingMap.documents_of_getElem? hget, Multiset.coe_card]
      have hcount : PennSearchMessage.countable
          ⟨l.transactionId, .storeList l.lookupKey docVector⟩ =
          decide (docVector.length < 65536) := by
        simp [PennSearchMessage.countable, PennSearchMessage.lists]
      dsimp only
      rw [PennSearchMessage.sendTo, hcount]
      by_cases hlen : docVector.length < 65536
      · simp only [hlen, decide_true, if_true, iff_true]
        exact ⟨_, rfl⟩
      · simp [hlen, bind, Except.bind]

def Replies (s : PennNet) : PennEvent → Prop
  | .answer i b => i < s.lookups.length ∧ b ≠ .getAny
  | _ => False

def PublishOrReply (a : Ipv4Address) (s : PennNet) : PennEvent → Prop
  | .publish b _ _ => b = a
  | .answer i _ => i < s.lookups.length
  | _ => False

def Shipped (docs : CxxString → Multiset CxxString) (s : PennNet) : Prop :=
  s.lookups = [] ∧ ∀ key, s.search.shipped key = docs key

/-- Nothing is lost or doubled in the commands and replies `es`: none of them
fails, and after any of them, however the lookups that wait are answered, every
posting published so far is shipped exactly as many times as it was published. -/
def NoPublishLost (a : Ipv4Address) (s : PennNet) (es : List PennEvent) : Prop :=
  ∀ pre t, pre <+: es → Run (step viaService) (PublishOrReply a) s pre t →
    Reaches (step viaService) Replies (fun _ => True) (Shipped (published pre)) t ∧
      ∀ e, pre ++ [e] <+: es → PublishOrReply a t e → ∃ u, t.step viaService e = .ok u

/-- A PUBLISH whose path fits the buffer, of a file without lines of spaces and
without a posting list too long for a datagram, and that finds for every key
whose lookup still waits the documents that the map has already; or a reply that
names somebody. -/
def Careful (a : Ipv4Address) (s : PennNet) : PennEvent → Prop
  | .publish _ filename lines =>
      filename.length < 50 ∧ (∀ line ∈ lines.getD [], LineHasDocument line) ∧
        (∀ key, occurrences (lines.getD []) key ≠ 0 →
          storeListSize key (occurrences (lines.getD []) key) ≤ 65507) ∧
        ∀ l ∈ s.lookups, occurrences (lines.getD []) l.lookupKey =
          (s.search.node a).invertListMap.documents l.lookupKey
  | .answer _ b => b ≠ .getAny
  | _ => False

omit [Sha1] in
theorem Publishing.eraseIdx (h : s.Publishing a) {i : ℕ} (ht : t.lookups = s.lookups.eraseIdx i) :
    t.Publishing a := by
  intro l hl
  rw [ht] at hl
  exact h l (List.mem_of_mem_eraseIdx hl)

omit [Sha1] in
theorem waiting_eraseIdx {i : ℕ} {l : LookupCall} (hl : s.lookups[i]? = some l)
    (ht : t.lookups = s.lookups.eraseIdx i) (key : CxxString) :
    s.waiting key = (if l.lookupKey = key then 1 else 0) + t.waiting key := by
  rw [waiting, waiting, ht, countP_eq_eraseIdx _ hl]
  simp only [decide_eq_true_eq]

theorem Publishing.owing_answer (h : s.Publishing a) {i : ℕ} {b : Ipv4Address}
    (he : s.Replies (.answer i b)) (ht : s.step viaService (.answer i b) = .ok t)
    (key : CxxString) :
    t.owing a key = s.owing a key := by
  have hl := List.getElem?_eq_getElem he.1
  obtain ⟨hnode, hflag⟩ := h _ (List.getElem_mem he.1)
  obtain ⟨hlookups, hmap, hshipped⟩ := step_answer hl hnode hflag ht
  rw [owing, owing, hshipped, hmap, waiting_eraseIdx hl hlookups, add_nsmul, add_assoc]
  have hi : i < s.lookups.length := he.1
  by_cases hkey : s.lookups[i].lookupKey = key
  · rw [if_pos hkey, one_nsmul]
    simp [hkey, he.2]
  · simp [hkey]

/-- However the lookups that wait are answered, what is owed is shipped. -/
theorem Publishing.reaches_iff (h : s.Publishing a) {docs : CxxString → Multiset CxxString} :
    Reaches (step viaService) Replies (fun _ => True) (Shipped docs) s ↔
      (∀ l ∈ s.lookups,
        ((s.search.node a).invertListMap.documents l.lookupKey).card < 65536) ∧
      ∀ key, s.owing a key = docs key := by
  constructor
  · intro hreach
    induction hreach with
    | @now s here =>
        obtain ⟨hlookups, hshipped⟩ := here
        refine ⟨by simp [hlookups], fun key => ?_⟩
        rw [owing, waiting, hlookups, hshipped]
        simp
    | @later s wait live safe next ih =>
        constructor
        · intro l hl
          obtain ⟨i, hi⟩ := List.getElem?_of_mem hl
          obtain ⟨hnode, hflag⟩ := h l hl
          have hlt : i < s.lookups.length := (List.getElem?_eq_some_iff.mp hi).1
          exact (step_answer_isOk hi hnode hflag ⟨1⟩).mp (safe _ ⟨hlt, by decide⟩)
        · obtain ⟨e, he⟩ := live
          obtain ⟨t, ht⟩ := safe e he
          cases e with
          | answer i b =>
              have hl := List.getElem?_eq_getElem he.1
              obtain ⟨hnode, hflag⟩ := h _ (List.getElem_mem he.1)
              have hlookups := (step_answer hl hnode hflag ht).1
              intro key
              rw [← h.owing_answer he ht, (ih _ t he ht (h.eraseIdx hlookups)).2 key]
          | _ => exact he.elim
  · rintro ⟨hcount, howing⟩
    refine reaches_of_decreasing (J := fun t => t.Publishing a ∧
      (∀ l ∈ t.lookups, ((t.search.node a).invertListMap.documents l.lookupKey).card < 65536) ∧
      ∀ key, t.owing a key = docs key) (fun t => t.lookups.length) (fun _ _ => trivial) ?_ ?_
      ⟨h, hcount, howing⟩
    · rintro t ⟨-, -, howing⟩
      by_cases hlookups : t.lookups = []
      · refine .inl ⟨hlookups, fun key => ?_⟩
        rw [← howing key, owing, waiting, hlookups]
        simp
      · exact .inr ⟨.answer 0 ⟨1⟩, List.length_pos_iff.mpr hlookups, by decide⟩
    · rintro t e ⟨h, hcount, howing⟩ he
      cases e with
      | answer i b =>
          have hl := List.getElem?_eq_getElem he.1
          have hmem := List.getElem_mem he.1
          obtain ⟨hnode, hflag⟩ := h _ hmem
          obtain ⟨u, hu⟩ := (step_answer_isOk hl hnode hflag b).mpr (hcount _ hmem)
          obtain ⟨hlookups, hmap, -⟩ := step_answer hl hnode hflag hu
          refine ⟨u, hu, ⟨h.eraseIdx hlookups, fun l hl => ?_, fun key => ?_⟩, ?_⟩
          · rw [hlookups] at hl
            rw [hmap]
            exact hcount l (List.mem_of_mem_eraseIdx hl)
          · rw [h.owing_answer he hu, howing]
          · rw [hlookups, List.length_eraseIdx, if_pos he.1]
            have := he.1
            omega
      | _ => exact he.elim

/-- Every lookup that waits has documents to ship, and they fit a datagram. -/
def Serving (a : Ipv4Address) (s : PennNet) : Prop :=
  ∀ l ∈ s.lookups, (s.search.node a).invertListMap.documents l.lookupKey ≠ 0 ∧
    storeListSize l.lookupKey ((s.search.node a).invertListMap.documents l.lookupKey) ≤ 65507

omit [Sha1] in
theorem countP_calls {m : PostingMap} {calls : List LookupCall}
    (hkeys : calls.map LookupCall.lookupKey = m.keys) (key : CxxString) :
    calls.countP (fun l => l.lookupKey = key) = if key ∈ m then 1 else 0 := by
  have hcount : calls.countP (fun l => l.lookupKey = key) = m.keys.count key := by
    rw [← hkeys, List.count, List.countP_map]
    refine List.countP_congr fun l _ => ?_
    simp
  have hnodup : m.keys.Nodup := Std.TreeMap.nodup_keys
  rw [hcount, hnodup.count]
  exact if_congr Std.TreeMap.mem_keys rfl rfl

/-- The state after a PUBLISH: what the file gives for every key, and one more
lookup for each of its keys. -/
theorem owing_publish {filename : CxxString} {lines : Option (List CxxString)}
    (ht : s.step viaService (.publish a filename lines) = .ok t) (key : CxxString) :
    (t.search.node a).invertListMap.documents key = occurrences (lines.getD []) key ∧
      t.owing a key = s.search.shipped key +
        (s.waiting key + 1) • (t.search.node a).invertListMap.shippable key := by
  obtain ⟨-, m, calls, hm, hmap, hflight, hlookups, hkeys, -⟩ := step_publish ht
  obtain ⟨hdocs, -⟩ := PostingMap.foldlM_invertLine hm
  have hempty : (∅ : PostingMap).documents key = 0 := PostingMap.documents_of_none (by simp)
  refine ⟨by rw [hmap, hdocs, hempty, zero_add], ?_⟩
  rw [owing, SearchNet.shipped, hflight, waiting, hlookups, List.countP_append,
    countP_calls hkeys, hmap]
  refine congrArg _ ?_
  by_cases hkey : key ∈ m
  · rw [if_pos hkey]
    rfl
  · have hget : m[key]? = none := Std.TreeMap.getElem?_eq_none hkey
    rw [PostingMap.shippable, PostingMap.documents_of_none hget, ite_self, nsmul_zero, nsmul_zero]

section Step

variable {filename : CxxString} {lines : Option (List CxxString)}

omit [Sha1] in
theorem waiting_ne_zero {key : CxxString} :
    s.waiting key ≠ 0 ↔ ∃ l ∈ s.lookups, l.lookupKey = key := by
  rw [waiting, ← Nat.pos_iff_ne_zero, List.countP_pos_iff]
  simp

theorem Publishing.publish (h : s.Publishing a)
    (ht : s.step viaService (.publish a filename lines) = .ok t) : t.Publishing a := by
  obtain ⟨-, m, calls, -, -, -, hlookups, -, hcalls⟩ := step_publish ht
  intro l hl
  rw [hlookups] at hl
  rcases List.mem_append.mp hl with hl | hl
  · exact h l hl
  · exact hcalls l hl

/-- A careful PUBLISH leaves nothing but lists that can be shipped. -/
theorem Serving.publish (h : s.Serving a) (hcare : s.Careful a (.publish a filename lines))
    (ht : s.step viaService (.publish a filename lines) = .ok t) : t.Serving a := by
  obtain ⟨-, -, hsize, hsame⟩ := hcare
  have hne : ∀ l ∈ t.lookups, (t.search.node a).invertListMap.documents l.lookupKey ≠ 0 := by
    obtain ⟨-, m, calls, hm, hmap, -, hlookups, hkeys, -⟩ := step_publish ht
    intro l hl
    rw [hlookups] at hl
    rcases List.mem_append.mp hl with hl | hl
    · rw [(owing_publish ht l.lookupKey).1, hsame l hl]
      exact (h l hl).1
    · have hmem : l.lookupKey ∈ m.keys := hkeys ▸ List.mem_map_of_mem hl
      have hfilled := (PostingMap.foldlM_invertLine hm).2 PostingMap.filled_empty
      rw [hmap, ne_eq, hfilled.documents_eq_zero]
      rw [Std.TreeMap.mem_keys, Std.TreeMap.mem_iff_isSome_getElem?] at hmem
      exact Option.isSome_iff_ne_none.mp hmem
  intro l hl
  refine ⟨hne l hl, ?_⟩
  have hdocs := (owing_publish ht l.lookupKey).1
  rw [hdocs]
  exact hsize _ (hdocs ▸ hne l hl)

theorem publish_iff (hpub : s.Publishing a) (hserve : s.Serving a)
    {docs : CxxString → Multiset CxxString}
    (howing : ∀ key, s.owing a key = docs key) :
    (∃ t, s.step viaService (.publish a filename lines) = .ok t ∧
        Reaches (step viaService) Replies (fun _ => True)
          (Shipped fun key => docs key + occurrences (lines.getD []) key) t) ↔
      s.Careful a (.publish a filename lines) := by
  have hstep : ∀ t, s.step viaService (.publish a filename lines) = .ok t → ∀ key,
      t.owing a key = docs key + occurrences (lines.getD []) key ↔
        (occurrences (lines.getD []) key ≠ 0 →
            storeListSize key (occurrences (lines.getD []) key) ≤ 65507) ∧
          (s.waiting key ≠ 0 → occurrences (lines.getD []) key =
            (s.search.node a).invertListMap.documents key) := by
    intro t ht key
    obtain ⟨hdocs, hnew⟩ := owing_publish ht key
    rw [hnew, ← howing key, owing, add_assoc, add_right_inj, PostingMap.shippable, hdocs,
        ← owed_iff]
    have hold : s.waiting key • (s.search.node a).invertListMap.shippable key =
        s.waiting key • (s.search.node a).invertListMap.documents key := by
      by_cases hw : s.waiting key = 0
      · rw [hw, zero_nsmul, zero_nsmul]
      · obtain ⟨l, hl, rfl⟩ := waiting_ne_zero.mp hw
        rw [PostingMap.shippable, if_pos (hserve l hl).2]
    rw [hold]
  constructor
  · rintro ⟨t, ht, hreach⟩
    obtain ⟨-, hall⟩ := (hpub.publish ht).reaches_iff.mp hreach
    obtain ⟨hlength, m, -, hm, -⟩ := step_publish ht
    refine ⟨hlength, (PostingMap.foldlM_invertLine_isOk ∅ _).mp ⟨m, hm⟩,
      fun key => ((hstep t ht key).mp (hall key)).1, fun l hl => ?_⟩
    exact ((hstep t ht l.lookupKey).mp (hall _)).2 (waiting_ne_zero.mpr ⟨l, hl, rfl⟩)
  · intro hcare
    obtain ⟨hlength, hlines, hsize, hsame⟩ := hcare
    obtain ⟨t, ht⟩ := step_publish_isOk s a hlength hlines
    refine ⟨t, ht, (hpub.publish ht).reaches_iff.mpr ⟨fun l hl => ?_, fun key => ?_⟩⟩
    · exact card_lt_of_storeListSize (hserve.publish ⟨hlength, hlines, hsize, hsame⟩ ht l hl).2
    · refine (hstep t ht key).mpr ⟨hsize key, fun hw => ?_⟩
      obtain ⟨l, hl, rfl⟩ := waiting_ne_zero.mp hw
      exact hsame l hl

theorem answer_iff (hpub : s.Publishing a) (hserve : s.Serving a)
    {docs : CxxString → Multiset CxxString}
    (howing : ∀ key, s.owing a key = docs key) {i : ℕ} (hi : i < s.lookups.length)
    {b : Ipv4Address} :
    (∃ t, s.step viaService (.answer i b) = .ok t ∧
        Reaches (step viaService) Replies (fun _ => True) (Shipped docs) t) ↔
      b ≠ .getAny := by
  have hl := List.getElem?_eq_getElem hi
  have hmem := List.getElem_mem hi
  obtain ⟨hnode, hflag⟩ := hpub _ hmem
  constructor
  · rintro ⟨t, ht, hreach⟩ rfl
    obtain ⟨hlookups, hmap, hshipped⟩ := step_answer hl hnode hflag ht
    obtain ⟨-, hall⟩ := (hpub.eraseIdx hlookups).reaches_iff.mp hreach
    obtain ⟨hne, hsize⟩ := hserve _ hmem
    have hlost := (hall s.lookups[i].lookupKey).trans (howing _).symm
    rw [owing, owing, hmap, hshipped, waiting_eraseIdx hl hlookups, if_pos rfl, add_nsmul,
        one_nsmul,
      PostingMap.shippable, if_pos hsize] at hlost
    simp only [ne_eq, not_true_eq_false, false_and, if_false, add_zero] at hlost
    rw [add_right_inj, right_eq_add] at hlost
    exact hne hlost
  · intro hb
    obtain ⟨t, ht⟩ := (step_answer_isOk hl hnode hflag b).mpr (card_lt_of_storeListSize
        (hserve _ hmem).2)
    obtain ⟨hlookups, hmap, -⟩ := step_answer hl hnode hflag ht
    refine ⟨t, ht, (hpub.eraseIdx hlookups).reaches_iff.mpr ⟨fun l hl => ?_, fun key => ?_⟩⟩
    · rw [hlookups] at hl
      rw [hmap]
      exact card_lt_of_storeListSize (hserve l (List.mem_of_mem_eraseIdx hl)).2
    · rw [hpub.owing_answer ⟨hi, hb⟩ ht, howing]

end Step

end PennNet

/-- Overlapping PUBLISH commands. From a state in which nothing is in flight, a
sequence of PUBLISH commands at one node and of replies to the lookups they start
loses and doubles nothing exactly when all of them are careful. -/
theorem noPublishLost_iff {s : PennNet} {a : Ipv4Address} (hlookups : s.lookups = [])
    (hflight : s.search.inFlight = []) (es : List PennEvent) :
    PennNet.NoPublishLost a s es ↔
      ∀ pre t e, pre ++ [e] <+: es →
        Run (PennNet.step PennNet.viaService) (PennNet.PublishOrReply a) s pre t →
          PennNet.PublishOrReply a t e → t.Careful a e := by
  refine always_safe_iff
    (P := fun pre t => Reaches (PennNet.step PennNet.viaService) PennNet.Replies (fun _ => True)
      (PennNet.Shipped (published pre)) t)
    (I := fun _ t => t.Publishing a ∧ t.Serving a) ⟨⟨?_, ?_⟩, .now ⟨hlookups, ?_⟩⟩ ?_
  · simp [PennNet.Publishing, hlookups]
  · simp [PennNet.Serving, hlookups]
  · intro key
    rw [SearchNet.shipped, hflight]
    rfl
  · rintro pre t e ⟨hpub, hserve⟩ hreach he
    obtain ⟨-, howing⟩ := hpub.reaches_iff.mp hreach
    have hsnoc : published (pre ++ [e]) = fun key => published pre key + published [e] key :=
      funext fun key => published_snoc pre e key
    cases e with
    | publish b filename lines =>
        obtain rfl : b = a := he
        have hone : published [.publish b filename lines] = occurrences (lines.getD []) :=
          funext fun key => add_zero _
        rw [hsnoc, hone]
        refine ⟨PennNet.publish_iff hpub hserve howing, fun u hcare hu => ?_⟩
        exact ⟨hpub.publish hu, hserve.publish hcare hu⟩
    | answer i b =>
        have hi : i < t.lookups.length := he
        have hone : ∀ key, published [.answer i b] key = 0 := fun key => rfl
        simp only [hone, add_zero] at hsnoc
        rw [hsnoc]
        refine ⟨PennNet.answer_iff hpub hserve howing hi, fun u _ hu => ?_⟩
        have hl := List.getElem?_eq_getElem hi
        obtain ⟨hnode, hflag⟩ := hpub _ (List.getElem_mem hi)
        obtain ⟨hrest, hmap, -⟩ := PennNet.step_answer hl hnode hflag hu
        refine ⟨hpub.eraseIdx hrest, fun l hl => ?_⟩
        rw [hrest] at hl
        rw [hmap]
        exact hserve l (List.mem_of_mem_eraseIdx hl)
    | _ => exact he.elim

end PennSearch

namespace PennSearch

open MessagePassing

attribute [local instance] sampleSha1

theorem noPublishLost_iff_sample :
    PennNet.NoPublishLost sampleA (.start (fun _ => 0) fun _ => 0)
        [.publish sampleA [102] (some [[68, 49, 32, 97]]), .answer 0 sampleB] ↔
      ∀ pre t e, pre ++ [e] <+: [.publish sampleA [102] (some [[68, 49, 32, 97]]),
          .answer 0 sampleB] →
        Run (PennNet.step PennNet.viaService) (PennNet.PublishOrReply sampleA)
          (.start (fun _ => 0) fun _ => 0) pre t →
          PennNet.PublishOrReply sampleA t e → t.Careful sampleA e :=
  noPublishLost_iff rfl rfl _

instance (a : Ipv4Address) (s : PennNet) (e : PennEvent) :
    Decidable (PennNet.PublishOrReply a s e) :=
  match e with
  | .publish .. => inferInstanceAs (Decidable (_ = _))
  | .answer .. => inferInstanceAs (Decidable (_ < _))
  | .chord _ | .search .. | .deliver _ => .isFalse id

/-- `D1 a` is published, and then `D2 b` before the lookup of `a` is answered:
all lookups are answered, and `D1` is never shipped. -/
theorem publish_overlap_loses :
    ∃ t, Run (PennNet.step PennNet.viaService) (PennNet.PublishOrReply sampleA)
        (.start (fun _ => 0) fun _ => 0)
        [.publish sampleA [102] (some [[68, 49, 32, 97]]),
          .publish sampleA [103] (some [[68, 50, 32, 98]]), .answer 0 sampleB,
            .answer 0 sampleB] t ∧
      t.lookups = [] ∧ t.search.shipped [97] = 0 ∧
        published [.publish sampleA [102] (some [[68, 49, 32, 97]]),
          .publish sampleA [103] (some [[68, 50, 32, 98]])] [97] = {[68, 49]} := by
  refine ⟨_, Run.of_execute rfl, ?_, ?_, ?_⟩
  · rfl
  · rfl
  · rfl

end PennSearch
