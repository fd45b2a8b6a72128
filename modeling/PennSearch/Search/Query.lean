import PennSearch.Chord.Ring
import PennSearch.Search.Net

/-!
# A search from its command to its answer

One search is a single token that travels through the network: a packet, or a
lookup that waits for its answer. `searchFate` follows it over the stored posting
lists alone, and `reaches_search` says that the network does what it says: the
initiator gets its `SEARCH_COMPLETE`, the token is lost in a packet that is too
long, or a handler faults.
-/

namespace PennSearch

open Clockwise MessagePassing

inductive SearchFate
  | complete (keyList docList : List CxxString)
  | lost
  | fault (f : Fault)

/-- A search that ends with documents that satisfy `good`. -/
def SearchFate.Answers (good : List CxxString → Prop) : SearchFate → Prop
  | .complete _ docList => good docList
  | _ => False

/-- What happens when `message` is sent and `next` follows its arrival. -/
def PennSearchMessage.sentThen (message : PennSearchMessage) (next : SearchFate) : SearchFate :=
  if message.countable = false then .fault .diverges
  else if message.fits = false then .lost
  else next

section Fate

variable (initiatorAddress : Ipv4Address) (transactionId : UInt32)
  (stored : CxxString → Option (List CxxString))

def finishFate (keyList docList : List CxxString) : SearchFate :=
  PennSearchMessage.sentThen ⟨transactionId, .searchComplete keyList docList⟩
    (.complete keyList docList)

/-- A search with documents found so far, and keywords that are left. -/
def continueFate : List CxxString → List CxxString → SearchFate
  | [], docList => finishFate transactionId [] docList
  | key :: rest, docList =>
      if docList = [] then finishFate transactionId (key :: rest) []
      else
        PennSearchMessage.sentThen ⟨transactionId, .search initiatorAddress (key :: rest) docList⟩
          (match stored key with
            | none => .fault .keyAbsent
            | some currentDocList =>
                continueFate rest (findIntersection currentDocList docList))

/-- A search for `keyList` over the posting lists `stored`. -/
def searchFate (keyList : List CxxString) : SearchFate :=
  PennSearchMessage.sentThen ⟨transactionId, .searchInitial initiatorAddress keyList⟩
    (match keyList with
      | [] => .fault .keyListEmpty
      | key :: rest =>
          PennSearchMessage.sentThen ⟨transactionId, .searchBegin initiatorAddress keyList []⟩
            (match stored key with
              | none => finishFate transactionId rest []
              | some docList =>
                  continueFate initiatorAddress transactionId stored rest docList))

end Fate

theorem PennSearchMessage.sentThen_answers {message : PennSearchMessage} {next : SearchFate}
    {good : List CxxString → Prop} :
    (message.sentThen next).Answers good ↔ message.fits = true ∧ next.Answers good := by
  unfold PennSearchMessage.sentThen
  split
  · rename_i hcount
    refine iff_of_false (fun h => h) fun h => ?_
    rw [countable_of_fits h.1] at hcount
    cases hcount
  · split
    · rename_i hfits
      simp [SearchFate.Answers, hfits]
    · rename_i hfits
      simp [hfits]

section Answers

variable {initiatorAddress : Ipv4Address} {transactionId : UInt32}
  {stored : CxxString → Option (List CxxString)} {Result : CxxString → Prop}

def Lists (stored : CxxString → Option (List CxxString)) (key d : CxxString) : Prop :=
  ∃ docList, stored key = some docList ∧ d ∈ docList

/-- A keyword that the search comes to with a document in hand is stored. -/
def Supplied (stored : CxxString → Option (List CxxString)) (docList keyList : List CxxString) :
    Prop :=
  ∀ pre key post, keyList = pre ++ key :: post →
    (∃ d ∈ docList, ∀ k ∈ pre, Lists stored k d) → stored key ≠ none

theorem supplied_nil (docList : List CxxString) : Supplied stored docList [] := by
  intro pre key post h
  simp at h

theorem supplied_of_nil (keyList : List CxxString) : Supplied stored [] keyList := by
  rintro pre key post - ⟨d, hd, -⟩
  cases hd

theorem supplied_cons {docList rest : List CxxString} {key : CxxString} (hdocs : docList ≠ []) :
    Supplied stored docList (key :: rest) ↔
      ∃ currentDocList, stored key = some currentDocList ∧
        Supplied stored (findIntersection currentDocList docList) rest := by
  constructor
  · intro h
    obtain ⟨d, hd⟩ := List.exists_mem_of_ne_nil docList hdocs
    have hkey := h [] key rest rfl ⟨d, hd, fun k hk => by cases hk⟩
    obtain ⟨current, hcurrent⟩ := Option.ne_none_iff_exists'.mp hkey
    refine ⟨current, hcurrent, ?_⟩
    rintro pre k post rfl ⟨d, hd, hpre⟩
    rw [findIntersection, Intersection.mem_sortedIntersection] at hd
    refine h (key :: pre) k post rfl ⟨d, hd.2, ?_⟩
    intro k' hk'
    rcases List.mem_cons.mp hk' with rfl | hk'
    · exact ⟨current, hcurrent, hd.1⟩
    · exact hpre k' hk'
  · rintro ⟨current, hcurrent, h⟩ pre k post hsplit ⟨d, hd, hpre⟩
    cases pre with
    | nil =>
        obtain ⟨rfl, -⟩ : key = k ∧ rest = post := by simpa using hsplit
        simp [hcurrent]
    | cons k' pre =>
        obtain ⟨rfl, rfl⟩ : key = k' ∧ rest = pre ++ k :: post := by simpa using hsplit
        refine h pre k post rfl ⟨d, ?_, fun k hk => hpre k (List.mem_cons_of_mem _ hk)⟩
        obtain ⟨docs, hdocs', hd'⟩ := hpre key List.mem_cons_self
        rw [hcurrent] at hdocs'
        obtain rfl := Option.some.inj hdocs'
        rw [findIntersection, Intersection.mem_sortedIntersection]
        exact ⟨hd', hd⟩

theorem fits_iff_size {m : PennSearchMessage} : m.fits = true ↔ m.serializedSize ≤ 65507 :=
  decide_eq_true_iff

theorem finishFate_answers {keyList docList : List CxxString} {good : List CxxString → Prop} :
    (finishFate transactionId keyList docList).Answers good ↔
      9 + entriesSize keyList + entriesSize docList ≤ 65507 ∧ good docList := by
  rw [finishFate, PennSearchMessage.sentThen_answers, fits_iff_size]
  refine and_congr_left fun _ => ?_
  simp only [PennSearchMessage.serializedSize]
  omega

/-- With room for the next message, there is room for all that follow: the
lists only get shorter. -/
theorem continueFate_answers {keyList docList : List CxxString}
    (hsize : 13 + entriesSize keyList + entriesSize docList ≤ 65507)
    (hresult : ∀ d, Result d ↔ d ∈ docList ∧ ∀ k ∈ keyList, Lists stored k d) :
    (continueFate initiatorAddress transactionId stored keyList docList).Answers
        (fun docs => ∀ d, d ∈ docs ↔ Result d) ↔
      Supplied stored docList keyList := by
  induction keyList generalizing docList with
  | nil =>
      rw [continueFate, finishFate_answers]
      rw [entriesSize_nil] at hsize ⊢
      refine iff_of_true ⟨by omega, fun d => ?_⟩ (supplied_nil docList)
      simp [hresult d]
  | cons key rest ih =>
      rw [continueFate]
      split
      · rename_i hdocs
        subst hdocs
        rw [finishFate_answers]
        rw [entriesSize_nil] at hsize ⊢
        refine iff_of_true ⟨by omega, fun d => ?_⟩ (supplied_of_nil _)
        simp [hresult d]
      · rename_i hdocs
        have hfits : (⟨transactionId, .search initiatorAddress (key :: rest) docList⟩ :
            PennSearchMessage).fits = true := by
          rw [fits_iff_size]
          simp only [PennSearchMessage.serializedSize]
          omega
        rw [PennSearchMessage.sentThen_answers, supplied_cons hdocs]
        cases hkey : stored key with
        | none => simp [SearchFate.Answers]
        | some current =>
            have hle := Intersection.sum_sortedIntersection_le (fun s : CxxString => 2 + s.length)
              current docList
            rw [entriesSize_cons] at hsize
            have hnext := @ih (findIntersection current docList)
              (by simp only [entriesSize, findIntersection] at hle hsize ⊢; omega) (by
                intro d
                rw [hresult d, findIntersection, Intersection.mem_sortedIntersection,
                  List.forall_mem_cons]
                simp only [Lists, hkey, Option.some.injEq, exists_eq_left']
                tauto)
            simp only [hfits, true_and, Option.some.injEq, exists_eq_left']
            exact hnext

/-- When the network answers a search for `keyList`: the list is not empty; a
keyword that the search comes to with a document in hand is stored; and the two
largest messages fit a datagram. -/
structure Answerable (stored : CxxString → Option (List CxxString)) (keyList : List CxxString) :
    Prop where
  nonempty : keyList ≠ []
  supplied : ∀ pre key post, keyList = pre ++ key :: post → pre ≠ [] →
    (∃ d, ∀ k ∈ pre, Lists stored k d) → stored key ≠ none
  begins : 13 + entriesSize keyList ≤ 65507
  continues : ∀ key rest docList, keyList = key :: rest → stored key = some docList →
    docList ≠ [] →
      (if rest = [] then 9 else 13) + entriesSize rest + entriesSize docList ≤ 65507

theorem answerable_cons {key : CxxString} {rest : List CxxString} :
    Answerable stored (key :: rest) ↔
      13 + entriesSize (key :: rest) ≤ 65507 ∧ ∀ docList, stored key = some docList →
        Supplied stored docList rest ∧ (docList ≠ [] →
          (if rest = [] then 9 else 13) + entriesSize rest + entriesSize docList ≤ 65507) := by
  constructor
  · intro h
    refine ⟨h.begins, fun docList hdocs => ⟨?_, h.continues key rest docList rfl hdocs⟩⟩
    rintro pre k post rfl ⟨d, hd, hpre⟩
    refine h.supplied (key :: pre) k post rfl (List.cons_ne_nil _ _) ⟨d, ?_⟩
    rw [List.forall_mem_cons]
    exact ⟨⟨docList, hdocs, hd⟩, hpre⟩
  · rintro ⟨hbegins, h⟩
    refine ⟨List.cons_ne_nil _ _, ?_, hbegins, ?_⟩
    · rintro pre k post hsplit hpre ⟨d, hd⟩
      obtain ⟨k', pre, rfl⟩ := List.exists_cons_of_ne_nil hpre
      obtain ⟨rfl, rfl⟩ : key = k' ∧ rest = pre ++ k :: post := by simpa using hsplit
      rw [List.forall_mem_cons] at hd
      obtain ⟨⟨docList, hdocs, hd'⟩, hpre⟩ := hd
      exact (h docList hdocs).1 pre k post rfl ⟨d, hd', hpre⟩
    · rintro k' rest' docList hsplit hdocs
      obtain ⟨rfl, rfl⟩ : key = k' ∧ rest = rest' := by simpa using hsplit
      exact (h docList hdocs).2

/-- A search is answered with the intersection of the posting lists of its
keywords exactly when it is answerable. -/
theorem searchFate_answers {keyList : List CxxString} :
    (searchFate initiatorAddress transactionId stored keyList).Answers
        (fun docs => ∀ d, d ∈ docs ↔ ∀ k ∈ keyList, Lists stored k d) ↔
      Answerable stored keyList := by
  unfold searchFate
  rw [PennSearchMessage.sentThen_answers, fits_iff_size]
  cases keyList with
  | nil => exact iff_of_false (fun h => h.2) fun h => h.nonempty rfl
  | cons key rest =>
      rw [PennSearchMessage.sentThen_answers, fits_iff_size, answerable_cons]
      simp only [PennSearchMessage.serializedSize, entriesSize_nil]
      have hinitial : (5 + (4 + 2 + entriesSize (key :: rest)) ≤ 65507 ∧
          5 + (4 + 2 + 2 + entriesSize (key :: rest) + 0) ≤ 65507) ↔
            13 + entriesSize (key :: rest) ≤ 65507 := by
        omega
      rw [← and_assoc, hinitial]
      refine and_congr_right fun hbegins => ?_
      rw [entriesSize_cons] at hbegins
      cases hkey : stored key with
      | none =>
          rw [finishFate_answers, entriesSize_nil]
          refine iff_of_true ⟨by omega, fun d => ?_⟩ fun docList h => by cases h
          simp [Lists, hkey]
      | some docList =>
          have hresult : ∀ d, (∀ k ∈ key :: rest, Lists stored k d) ↔
              d ∈ docList ∧ ∀ k ∈ rest, Lists stored k d := by
            intro d
            rw [List.forall_mem_cons]
            simp only [Lists, hkey, Option.some.injEq, exists_eq_left']
          simp only [Option.some.injEq, forall_eq']
          by_cases hdocs : docList = []
          · subst hdocs
            rw [continueFate_answers (by rw [entriesSize_nil]; omega) hresult]
            simp
          · cases rest with
            | nil =>
                rw [continueFate, finishFate_answers]
                have hgood : ∀ d, d ∈ docList ↔ ∀ k ∈ [key], Lists stored k d := by
                  intro d
                  rw [hresult d]
                  simp
                simp only [hgood, implies_true, and_true, supplied_nil, true_and, ne_eq, hdocs,
                  not_false_eq_true, forall_const, if_pos]
            | cons k rest =>
                simp only [ne_eq, hdocs, not_false_eq_true, forall_const,
                  reduceCtorEq, if_false]
                by_cases hsize : 13 + entriesSize (k :: rest) + entriesSize docList ≤ 65507
                · rw [continueFate_answers hsize hresult]
                  exact (and_iff_left hsize).symm
                · refine iff_of_false ?_ fun h => hsize h.2
                  rw [continueFate, if_neg hdocs, PennSearchMessage.sentThen_answers, fits_iff_size]
                  simp only [PennSearchMessage.serializedSize]
                  rintro ⟨h, -⟩
                  omega

end Answers

variable [Sha1]

namespace PennNet

/-- Something in flight in the search layer is delivered, or a lookup that waits
is answered with the owner of its key. -/
def Enabled (owner : CxxString → Ipv4Address) (s : PennNet) : PennEvent → Prop
  | .deliver k => k < s.search.inFlight.length
  | .answer i addressResponsible =>
      (s.lookups[i]?.map fun l => owner l.lookupKey) = some addressResponsible
  | _ => False

instance (owner : CxxString → Ipv4Address) (s : PennNet) (e : PennEvent) :
    Decidable (s.Enabled owner e) :=
  match e with
  | .deliver _ => inferInstanceAs (Decidable (_ < _))
  | .answer .. => inferInstanceAs (Decidable (_ = _))
  | .chord _ | .publish .. | .search .. => .isFalse id

def NotCompleted (s : PennNet) : Prop :=
  ∀ p ∈ s.search.inFlight, ∀ keyList docList, p.msg.payload ≠ .searchComplete keyList docList

/-- A `SEARCH_COMPLETE` to `w` with documents that satisfy `good` is all that is
left. -/
def Completed (w : Ipv4Address) (transactionId : UInt32) (good : List CxxString → Prop)
    (s : PennNet) : Prop :=
  s.lookups = [] ∧ ∃ src keyList docList,
    s.search.inFlight = [⟨src, w, ⟨transactionId, .searchComplete keyList docList⟩⟩] ∧
      good docList

/-- The postings of every node, and no node that tracks the given search. -/
structure Untracked (data : Ipv4Address → PostingMap) (transactionId : UInt32)
    (node : Ipv4Address → SearchNode) : Prop where
  data : ∀ a, (node a).dataMap = data a
  free : ∀ a, (node a).searchTracker[transactionId]? = none

structure Idle (s : PennNet) : Prop where
  inFlight : s.search.inFlight = []
  lookups : s.lookups = []

variable {owner : CxxString → Ipv4Address} {s : PennNet} {w a : Ipv4Address}
    {transactionId : UInt32}
  {good : List CxxString → Prop} {data : Ipv4Address → PostingMap}

omit [Sha1] in
theorem Untracked.update {node : Ipv4Address → SearchNode} (h : Untracked data transactionId node)
    {n : SearchNode} (hdata : n.dataMap = data a) (hfree : n.searchTracker[transactionId]? = none) :
    Untracked data transactionId (Function.update node a n) where
  data b := by
    by_cases hb : b = a
    · rw [hb, Function.update_self, hdata]
    · rw [Function.update_of_ne hb, h.data b]
  free b := by
    by_cases hb : b = a
    · rw [hb, Function.update_self, hfree]
    · rw [Function.update_of_ne hb, h.free b]

abbrev AnswerReached (owner : CxxString → Ipv4Address) (w : Ipv4Address) (transactionId : UInt32)
    (good : List CxxString → Prop) (s : PennNet) : Prop :=
  Reaches (step viaService) (Enabled owner) NotCompleted (Completed w transactionId good) s

theorem not_answerReached_of_idle (h : s.Idle) : ¬ s.AnswerReached owner w transactionId good := by
  refine not_reaches_of_stuck ?_ ?_
  · rintro ⟨-, src, keyList, docList, hflight, -⟩
    rw [h.inFlight] at hflight
    cases hflight
  · intro e he
    cases e with
    | deliver k =>
        rw [Enabled, h.inFlight] at he
        exact Nat.not_lt_zero k he
    | answer i addressResponsible =>
        rw [Enabled, h.lookups] at he
        cases he
    | _ => exact he

theorem answerReached_of_packet {p : SearchPacket} (hflight : s.search.inFlight = [p])
    (hlookups : s.lookups = [])
    (hp : ∀ keyList docList, p.msg.payload ≠ .searchComplete keyList docList) :
    s.AnswerReached owner w transactionId good ↔
      ∃ t, { s with search := s.search.take 0 }.searchTurn viaService p.dst
          ((s.search.node p.dst).recvMessage p.msg p.src) = .ok t ∧
        t.AnswerReached owner w transactionId good := by
  have hstep : step viaService s (.deliver 0) =
      { s with search := s.search.take 0 }.searchTurn viaService p.dst
        ((s.search.node p.dst).recvMessage p.msg p.src) := by
    simp [step, hflight]
  rw [← hstep]
  refine reaches_iff_of_only ?_ ?_ ?_ ?_
  · rintro ⟨-, src, keyList, docList, hflight', -⟩
    rw [hflight, List.singleton_inj] at hflight'
    exact hp keyList docList (by rw [hflight'])
  · intro q hq
    rw [hflight, List.mem_singleton] at hq
    rw [hq]
    exact hp
  · simp [Enabled, hflight]
  · intro e he
    cases e with
    | deliver k =>
        have hk : k < 1 := by simpa [Enabled, hflight] using he
        rw [Nat.lt_one_iff.mp hk]
    | answer i addressResponsible =>
        rw [Enabled, hlookups] at he
        cases he
    | _ => exact he.elim

theorem answerReached_of_complete {src : Ipv4Address} {keyList docList : List CxxString}
    (hflight : s.search.inFlight = [⟨src, w, ⟨transactionId, .searchComplete keyList docList⟩⟩])
    (hlookups : s.lookups = []) :
    s.AnswerReached owner w transactionId good ↔ good docList := by
  constructor
  · intro h
    by_contra hbad
    refine not_reaches_of_not ?_ ?_ h
    · rintro ⟨-, src', keyList', docList', hflight', hgood⟩
      rw [hflight] at hflight'
      simp only [List.cons.injEq, Packet.mk.injEq, PennSearchMessage.mk.injEq,
        SearchPayload.searchComplete.injEq, and_true, true_and] at hflight'
      exact hbad (hflight'.2.2 ▸ hgood)
    · intro hwait
      exact hwait _ (by rw [hflight, List.mem_singleton]) keyList docList rfl
  · intro hgood
    exact .now ⟨hlookups, src, keyList, docList, hflight, hgood⟩

theorem answerReached_of_lookup {l : LookupCall} (hflight : s.search.inFlight = [])
    (hlookups : s.lookups = [l]) :
    s.AnswerReached owner w transactionId good ↔
      ∃ t, { s with lookups := [] }.callbacks l.node (ChordNode.lookupCallback l.flag l.lookupKey
          (owner l.lookupKey) l.transactionId) = .ok t ∧
        t.AnswerReached owner w transactionId good := by
  have hstep : step viaService s (.answer 0 (owner l.lookupKey)) =
      { s with lookups := [] }.callbacks l.node (ChordNode.lookupCallback l.flag l.lookupKey
        (owner l.lookupKey) l.transactionId) := by
    simp [step, hlookups]
  rw [← hstep]
  refine reaches_iff_of_only ?_ ?_ ?_ ?_
  · rintro ⟨-, src, keyList, docList, hflight', -⟩
    rw [hflight] at hflight'
    cases hflight'
  · intro q hq
    rw [hflight] at hq
    cases hq
  · rw [Enabled, hlookups]
    rfl
  · intro e he
    cases e with
    | deliver k =>
        rw [Enabled, hflight] at he
        exact absurd he (Nat.not_lt_zero k)
    | answer i addressResponsible =>
        rw [Enabled, hlookups] at he
        cases i with
        | succ i => cases he
        | zero =>
            obtain rfl : owner l.lookupKey = addressResponsible := Option.some.inj he
            rfl
    | _ => exact he.elim

/-- What the socket makes of one message: it is encoded or the loop does not
end, and it is in flight or too long. -/
theorem exists_sendTo_iff (hs : s.Idle) {n : SearchNode} {m : PennSearchMessage}
    {dst : Ipv4Address} (hdst : dst ≠ .getAny) :
    (∃ t, s.searchTurn viaService a (do let act ← m.sendTo dst; return (n, [act])) = .ok t ∧
        t.AnswerReached owner w transactionId good) ↔
      m.fits = true ∧ PennNet.AnswerReached owner w transactionId good
        { s with search := ⟨Function.update s.search.node a n, [⟨a, dst, m⟩]⟩ } := by
  by_cases hcount : m.countable = true
  · have hturn : s.searchTurn viaService a (do let act ← m.sendTo dst; return (n, [act])) =
        .ok { s with search := s.search.act a n (searchPackets a [.sendTo dst m]) } := by
      simp only [PennSearchMessage.sendTo, hcount, if_true]
      rfl
    rw [hturn]
    simp only [Except.ok.injEq, exists_eq_left']
    by_cases hfits : m.fits = true
    · have hact : s.search.act a n (searchPackets a [.sendTo dst m]) =
          ⟨Function.update s.search.node a n, [⟨a, dst, m⟩]⟩ := by
        simp [Net.act, hs.inFlight, searchPackets, hdst, hfits]
      rw [hact]
      simp only [hfits, true_and]
    · refine iff_of_false (not_answerReached_of_idle ⟨?_, hs.lookups⟩) fun h => hfits h.1
      simp [hs.inFlight, searchPackets, hfits]
  · have hturn : s.searchTurn viaService a (do let act ← m.sendTo dst; return (n, [act])) =
        .error .diverges := by
      simp only [PennSearchMessage.sendTo, hcount]
      rfl
    rw [hturn]
    refine iff_of_false ?_ fun h => hcount (PennSearchMessage.countable_of_fits h.1)
    rintro ⟨t, h, -⟩
    cases h

variable (owner w transactionId good) in
theorem exists_sendTo_iff_recv (hs : s.Idle) {n : SearchNode} {m : PennSearchMessage}
    {dst : Ipv4Address} (hdst : dst ≠ .getAny)
    (hm : ∀ keyList docList, m.payload ≠ .searchComplete keyList docList) :
    ∃ s' : PennNet, s'.Idle ∧ s'.search.node = Function.update s.search.node a n ∧
      ((∃ t, s.searchTurn viaService a (do let act ← m.sendTo dst; return (n, [act])) = .ok t ∧
          t.AnswerReached owner w transactionId good) ↔
        m.fits = true ∧ ∃ t, s'.searchTurn viaService dst
            ((s'.search.node dst).recvMessage m a) = .ok t ∧
          t.AnswerReached owner w transactionId good) := by
  refine ⟨{ s with search := ⟨Function.update s.search.node a n, []⟩ }, ⟨rfl, hs.lookups⟩, rfl, ?_⟩
  rw [exists_sendTo_iff hs hdst]
  let s₁ : PennNet := { s with search := ⟨Function.update s.search.node a n, [⟨a, dst, m⟩]⟩ }
  exact and_congr_right fun _ => answerReached_of_packet (s := s₁) rfl hs.lookups hm

theorem exists_sendSearchComplete_iff (hs : s.Idle) (hw : w ≠ .getAny) {n : SearchNode}
    {keyList docList : List CxxString} :
    (∃ t, s.searchTurn viaService a (n.sendSearchComplete w keyList docList transactionId) = .ok t ∧
        t.AnswerReached owner w transactionId good) ↔
      (finishFate transactionId keyList docList).Answers good := by
  rw [SearchNode.sendSearchComplete, exists_sendTo_iff hs hw, finishFate,
    PennSearchMessage.sentThen_answers]
  exact and_congr_right fun _ => answerReached_of_complete rfl hs.lookups

theorem callbacks_eq_searchTurn {n : SearchNode} {m : PennSearchMessage} {dst : Ipv4Address}
    {act : ChordAction}
    (hact : (s.search.node a).handleChord act = do let x ← m.sendTo dst; return (n, [x])) :
    s.callbacks a [act] =
      s.searchTurn viaService a (do let x ← m.sendTo dst; return (n, [x])) := by
  simp only [callbacks, List.foldlM_cons, List.foldlM_nil, bind_pure, callback, hact, searchTurn]
  cases hsent : m.sendTo dst with
  | error f => rfl
  | ok x =>
      cases x with
      | sendTo dst' m' => rfl
      | lookupPublish lookupKey flag tx =>
          simp only [PennSearchMessage.sendTo] at hsent
          split at hsent <;> cases hsent
      | searchResults docs => rfl

variable (w a good) in
/-- A tracked search whose lookup is answered with the owner of the key sends
its message there. -/
theorem exists_lookup_iff (hs : s.Idle)
    (htrack : Untracked data transactionId s.search.node) {key : CxxString} (flag : UInt16)
    (searchData : SearchData) {m : PennSearchMessage} {act : ChordAction}
    (hdst : owner key ≠ .getAny)
    (hm : ∀ keyList docList, m.payload ≠ .searchComplete keyList docList)
    (hcall : ChordNode.lookupCallback flag key (owner key) transactionId = [act])
    (hact : ∀ n : SearchNode, n.searchTracker[transactionId]? = some searchData →
      n.handleChord act = do
        let x ← m.sendTo (owner key)
        return ({ n with searchTracker := n.searchTracker.erase transactionId }, [x])) :
    ∃ s' : PennNet, s'.Idle ∧ Untracked data transactionId s'.search.node ∧
      ((∃ t, s.searchTurn viaService a (.ok ((s.search.node a).track transactionId searchData,
          [.lookupPublish key flag transactionId])) = .ok t ∧
          t.AnswerReached owner w transactionId good) ↔
        m.fits = true ∧ ∃ t, s'.searchTurn viaService (owner key)
            ((s'.search.node (owner key)).recvMessage m a) = .ok t ∧
          t.AnswerReached owner w transactionId good) := by
  let n := (s.search.node a).track transactionId searchData
  let s₁ : PennNet := { s with search := s.search.act a n [], lookups := [] }
  have hs₁ : s₁.Idle := ⟨by simp [s₁, hs.inFlight], rfl⟩
  have htracked : n.searchTracker[transactionId]? = some searchData := by
    have hfree : transactionId ∉ (s.search.node a).searchTracker :=
      by simp [Std.TreeMap.mem_iff_isSome_getElem?, htrack.free a]
    simp only [n, SearchNode.track]
    rw [Std.TreeMap.getElem?_insertIfNew, if_pos ⟨Std.ReflCmp.compare_self, hfree⟩]
  have hdata : n.dataMap = data a := htrack.data a
  obtain ⟨s', hs', hnode, hiff⟩ := exists_sendTo_iff_recv (a := a) owner w
    transactionId good hs₁ (n := { n with searchTracker := n.searchTracker.erase transactionId })
    hdst hm
  refine ⟨s', hs', ?_, ?_⟩
  · have hs₁node : s₁.search.node = Function.update s.search.node a n := rfl
    rw [hnode, hs₁node, Function.update_idem]
    exact htrack.update hdata Std.TreeMap.getElem?_erase_self
  · have hn : (s₁.search.node a).handleChord act = n.handleChord act := by
      rw [show s₁.search.node a = n from Net.act_node_self _ _ _ _]
    have hback := callbacks_eq_searchTurn (hn.trans (hact n htracked))
    let s₂ : PennNet := { s₁ with lookups := [⟨a, key, flag, transactionId⟩] }
    have hturn : s.searchTurn viaService a (.ok (n, [.lookupPublish key flag transactionId])) =
        .ok s₂ := by
      simp only [searchTurn, lookupCalls, hs.lookups, searchPackets, s₂, s₁]
      rfl
    rw [hturn, ← hiff, ← hback, ← hcall]
    simp only [Except.ok.injEq, exists_eq_left']
    exact answerReached_of_lookup (s := s₂) hs₁.inFlight rfl

theorem exists_continueSearch_iff (hdst : ∀ key, owner key ≠ .getAny) (hw : w ≠ .getAny)
    (hs : s.Idle) (htrack : Untracked data transactionId s.search.node)
    {message : PennSearchMessage} (htx : message.transactionId = transactionId)
    (keyList docList : List CxxString) :
    (∃ t, s.searchTurn viaService a
        ((s.search.node a).continueSearch message w keyList docList) = .ok t ∧
        t.AnswerReached owner w transactionId good) ↔
      (continueFate w transactionId (fun key => (data (owner key))[key]?)
        keyList docList).Answers good := by
  induction keyList generalizing s a docList message with
  | nil =>
      rw [SearchNode.continueSearch, htx, exists_sendSearchComplete_iff hs hw, continueFate]
  | cons key rest ih =>
      rw [SearchNode.continueSearch, continueFate, htx]
      split
      · rename_i hdocs
        rw [exists_sendSearchComplete_iff hs hw, hdocs]
      · obtain ⟨s', hs', htrack', hiff⟩ := exists_lookup_iff w a good hs htrack 2
          ⟨w, key :: rest, docList⟩
          (m := ⟨transactionId, .search w (key :: rest) docList⟩) (hdst key)
          (fun _ _ h => by cases h) rfl (fun n hn => by
            simp only [SearchNode.handleChord, SearchNode.sendSearch, hn])
        rw [hiff, PennSearchMessage.sentThen_answers]
        refine and_congr_right fun _ => ?_
        simp only [SearchNode.recvMessage, SearchNode.processSearch, htrack'.data]
        cases (data (owner key))[key]? with
        | none =>
            refine iff_of_false ?_ fun h => h
            rintro ⟨t, h, -⟩
            cases h
        | some current => exact ih hs' htrack' rfl _

/-- A search that a node has received leads where `searchFate` says. -/
theorem exists_searchCommand_iff (hdst : ∀ key, owner key ≠ .getAny) (hw : w ≠ .getAny)
    {v : Ipv4Address} (hv : v ≠ .getAny) (hs : s.Idle)
    (hlocal : (s.search.node w).localAddress = w)
    (htrack : Untracked data (s.search.node w).currentTransactionId s.search.node)
    (keyList : List CxxString) :
    (∃ t, s.step viaService (.search w v keyList) = .ok t ∧
        t.AnswerReached owner w (s.search.node w).currentTransactionId good) ↔
      (searchFate w (s.search.node w).currentTransactionId
        (fun key => (data (owner key))[key]?) keyList).Answers good := by
  unfold searchFate
  simp only [step, SearchNode.processSearchCommand, if_neg hv, hlocal]
  obtain ⟨s₁, hs₁, hnode₁, hiff₁⟩ := exists_sendTo_iff_recv (a := w) owner w
    (s.search.node w).currentTransactionId good hs
    (n := (s.search.node w).nextTransactionId)
    (m := ⟨(s.search.node w).currentTransactionId, .searchInitial w keyList⟩) hv
    (fun _ _ h => by cases h)
  have htrack₁ : Untracked data (s.search.node w).currentTransactionId s₁.search.node := by
    rw [hnode₁]
    exact htrack.update (htrack.data w) (htrack.free w)
  generalize (s.search.node w).currentTransactionId = transactionId at *
  rw [hiff₁, PennSearchMessage.sentThen_answers]
  refine and_congr_right fun _ => ?_
  cases keyList with
  | nil =>
      refine iff_of_false ?_ fun h => h
      rintro ⟨t, h, -⟩
      cases h
  | cons key rest =>
      obtain ⟨s₂, hs₂, htrack₂, hiff₂⟩ := exists_lookup_iff w v good hs₁ htrack₁ 1
        ⟨w, key :: rest, []⟩
        (m := ⟨transactionId, .searchBegin w (key :: rest) []⟩) (hdst key)
        (fun _ _ h => by cases h) rfl (fun n hn => by
          simp only [SearchNode.handleChord, SearchNode.sendSearchBegin, hn])
      simp only [SearchNode.recvMessage, SearchNode.processSearchInitial]
      rw [hiff₂, PennSearchMessage.sentThen_answers]
      refine and_congr_right fun _ => ?_
      simp only [SearchNode.recvMessage, SearchNode.processSearchBegin, htrack₂.data]
      cases (data (owner key))[key]? with
      | none => exact exists_sendSearchComplete_iff hs₂ hw
      | some docList => exact exists_continueSearch_iff hdst hw hs₂ htrack₂ rfl rest docList

def Posted (s : PennNet) (key d : CxxString) : Prop :=
  ∃ a docList, (s.search.node a).dataMap[key]? = some docList ∧ d ∈ docList

def postingList (s : PennNet) (owner : CxxString → Ipv4Address) (key : CxxString) :
    Option (List CxxString) :=
  (s.search.node (owner key)).dataMap[key]?

/-- A stable ring at rest in which every stored key is held by its owner, and no
node tracks a search with the given id. -/
structure Ready (R : Finset Ipv4Address) (owner : CxxString → Ipv4Address)
    (transactionId : UInt32) (s : PennNet) : Prop extends Idle s where
  ring : StableRing s.chord.node R
  isOwner : ∀ key, IsOwner nodePos R (keyPos key) (owner key)
  placed : ∀ a key, key ∈ (s.search.node a).dataMap → a = owner key
  localAddress : ∀ a, (s.search.node a).localAddress = a
  untracked : ∀ a, (s.search.node a).searchTracker[transactionId]? = none

theorem Ready.lists_iff {R : Finset Ipv4Address} (h : s.Ready R owner transactionId)
    {key d : CxxString} : Lists (s.postingList owner) key d ↔ s.Posted key d := by
  constructor
  · rintro ⟨docList, hdocs, hd⟩
    exact ⟨owner key, docList, hdocs, hd⟩
  · rintro ⟨a, docList, hdocs, hd⟩
    have hmem : key ∈ (s.search.node a).dataMap := by
      simp [Std.TreeMap.mem_iff_isSome_getElem?, hdocs]
    obtain rfl := h.placed a key hmem
    exact ⟨docList, hdocs, hd⟩

end PennNet

/-- A SEARCH is answered, with the intersection of the posting lists of its
keywords, exactly when the keywords are `Answerable`. -/
theorem search_answered_iff {R : Finset Ipv4Address} {owner : CxxString → Ipv4Address}
    {s : PennNet} {w v : Ipv4Address} (hw : w ≠ .getAny) (hv : v ≠ .getAny)
    (h : s.Ready R owner (s.search.node w).currentTransactionId) (keyList : List CxxString) :
    (∃ t, s.step PennNet.viaService (.search w v keyList) = .ok t ∧
        t.AnswerReached owner w (s.search.node w).currentTransactionId
          fun docList => ∀ d, d ∈ docList ↔ ∀ key ∈ keyList, s.Posted key d) ↔
      Answerable (s.postingList owner) keyList := by
  have hdst : ∀ key, owner key ≠ .getAny :=
    fun key heq => h.ring.getAny_notMem (heq ▸ (h.isOwner key).1)
  rw [PennNet.exists_searchCommand_iff hdst hw hv h.toIdle (h.localAddress w)
    ⟨fun a => rfl, h.untracked⟩ keyList, ← searchFate_answers]
  simp only [h.lists_iff]
  rfl

end PennSearch

namespace PennSearch

open Clockwise MessagePassing

attribute [local instance] sampleSha1

def sampleOwner (key : CxxString) : Ipv4Address :=
  if IsOwner nodePos {sampleA, sampleB} (keyPos key) sampleA then sampleA else sampleB

theorem sampleOwner_isOwner (key : CxxString) :
    IsOwner nodePos {sampleA, sampleB} (keyPos key) (sampleOwner key) := by
  unfold sampleOwner
  split
  · assumption
  · rename_i hA
    have hsome : ∃ b, IsOwner nodePos {sampleA, sampleB} (keyPos key) b :=
      exists_isOwner ⟨sampleA, by simp⟩ (keyPos key)
    obtain ⟨b, hb⟩ := hsome
    have hmem := hb.1
    rw [Finset.mem_insert, Finset.mem_singleton] at hmem
    rcases hmem with rfl | rfl
    · exact absurd hb hA
    · exact hb

/-- The ring of A and B, where A holds the postings of `T5`, and B those of `T3`. -/
def samplePostings : PennNet where
  chord := ⟨samplePair, []⟩
  search := ⟨fun a => { SearchNode.start a 0 with
    dataMap :=
      if a = sampleA then (∅ : PostingMap).insert [84, 53] [[68], [71]]
      else if a = sampleB then (∅ : PostingMap).insert [84, 51] [[71], [72]]
      else ∅ }, []⟩
  lookups := []

theorem samplePostings_ready : samplePostings.Ready {sampleA, sampleB} sampleOwner 0 where
  inFlight := rfl
  lookups := rfl
  ring := samplePair_ring
  isOwner := sampleOwner_isOwner
  placed a key h := by
    simp only [samplePostings] at h
    split_ifs at h with hA hB
    · rw [Std.TreeMap.mem_insert] at h
      obtain rfl : [84, 53] = key := by simpa using h
      rw [hA]
      decide
    · rw [Std.TreeMap.mem_insert] at h
      obtain rfl : [84, 51] = key := by simpa using h
      rw [hB]
      decide
    · exact absurd h Std.TreeMap.not_mem_emptyc
  localAddress a := rfl
  untracked a := by simp [samplePostings, SearchNode.start]

/-- B searches for `T5` and `T3`, which A and B hold. -/
theorem search_answered_iff_sample :
    ∃ t, samplePostings.step PennNet.viaService (.search sampleB sampleB [[84, 53], [84, 51]]) =
        .ok t ∧
      t.AnswerReached sampleOwner sampleB 0 fun docList =>
        ∀ d, d ∈ docList ↔ ∀ key ∈ [[84, 53], [84, 51]], samplePostings.Posted key d := by
  refine (search_answered_iff (w := sampleB) (v := sampleB) (by decide) (by decide)
    samplePostings_ready _).mpr ?_
  have hfirst : samplePostings.postingList sampleOwner [84, 53] = some [[68], [71]] := by decide
  have hsecond : samplePostings.postingList sampleOwner [84, 51] = some [[71], [72]] := by decide
  refine answerable_cons.mpr ⟨by decide, fun docList hdocs => ?_⟩
  rw [hfirst] at hdocs
  obtain rfl := Option.some.inj hdocs
  refine ⟨(supplied_cons (by decide)).mpr ⟨_, hsecond, supplied_nil _⟩, fun _ => ?_⟩
  decide

def PennNet.faultAfter (s : PennNet) (es : List PennEvent) (e : PennEvent) : Option Fault :=
  (execute (PennNet.step PennNet.viaService) (fun s e => s.Enabled sampleOwner e) s es).bind
    fun t =>
    if t.Enabled sampleOwner e then
      match t.step PennNet.viaService e with
      | .ok _ => none
      | .error f => some f
    else none

/-- B searches for nothing, and for `T5` and a keyword that nobody published:
B reads the first of no keywords, and the posting list of an absent keyword. -/
theorem search_faults :
    samplePostings.Ready {sampleA, sampleB} sampleOwner 0 ∧
    (∃ s, samplePostings.step PennNet.viaService (.search sampleB sampleB []) = .ok s ∧
      s.faultAfter [] (.deliver 0) = some .keyListEmpty) ∧
    ∃ s, samplePostings.step PennNet.viaService (.search sampleB sampleB [[84, 53], [84, 50]])
        = .ok s ∧
      s.faultAfter [.deliver 0, .answer 0 sampleA, .deliver 0, .answer 0 sampleB] (.deliver 0) =
        some .keyAbsent := by
  refine ⟨samplePostings_ready, ⟨_, rfl, ?_⟩, ⟨_, rfl, ?_⟩⟩
  · decide
  · decide

end PennSearch
