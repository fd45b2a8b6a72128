import PennSearch.Search.Postings
import PennSearch.Search.Query

/-!
# Searches in progress

Many searches may be under way at once. Each is a token: a message, or a lookup
that waits together with the entry of `m_searchTracker` that it will be answered
from. `PennSearchMessage.fate` says how a search ends once a message has arrived,
and `recv_cases` how a handler moves the token on without changing its end. The
tracker is keyed by the transaction id alone, and an entry that is there is kept, so
a handler that tracks an id twice (`tracks`) drops a token.
-/

namespace PennSearch

open MessagePassing

/-! ## What a message leads to -/

section Fates

variable (initiatorAddress : Ipv4Address) (transactionId : UInt32)
  (stored : CxxString → Option (List CxxString))

def beginFate : List CxxString → SearchFate
  | [] => .fault .keyListEmpty
  | key :: rest =>
      match stored key with
      | none => finishFate transactionId rest []
      | some docList => continueFate initiatorAddress transactionId stored rest docList

def roundFate (docList : List CxxString) : List CxxString → SearchFate
  | [] => .fault .keyListEmpty
  | key :: rest =>
      match stored key with
      | none => .fault .keyAbsent
      | some currentDocList =>
          continueFate initiatorAddress transactionId stored rest
            (findIntersection currentDocList docList)

def initialFate (keyList : List CxxString) : SearchFate :=
  if keyList = [] then .fault .keyListEmpty
  else
    PennSearchMessage.sentThen ⟨transactionId, .searchBegin initiatorAddress keyList []⟩
      (beginFate initiatorAddress transactionId stored keyList)

theorem searchFate_eq (keyList : List CxxString) :
    searchFate initiatorAddress transactionId stored keyList =
      PennSearchMessage.sentThen ⟨transactionId, .searchInitial initiatorAddress keyList⟩
        (initialFate initiatorAddress transactionId stored keyList) := by
  cases keyList with
  | nil => rfl
  | cons key rest => rfl

theorem continueFate_cons (key : CxxString) (rest : List CxxString) {docList : List CxxString}
    (h : docList ≠ []) :
    continueFate initiatorAddress transactionId stored (key :: rest) docList =
      PennSearchMessage.sentThen ⟨transactionId, .search initiatorAddress (key :: rest) docList⟩
        (roundFate initiatorAddress transactionId stored docList (key :: rest)) := by
  rw [continueFate, if_neg h]
  rfl

end Fates

namespace PennSearchMessage

/-- How the search goes on once `m` has arrived. -/
def fate (stored : CxxString → Option (List CxxString)) (m : PennSearchMessage) : SearchFate :=
  match m.payload with
  | .searchInitial w keyList => initialFate w m.transactionId stored keyList
  | .searchBegin w keyList _ => beginFate w m.transactionId stored keyList
  | .search w keyList docList => roundFate w m.transactionId stored docList keyList
  | .searchComplete keyList docList => .complete keyList docList
  | _ => .lost

def IsSearch (m : PennSearchMessage) : Prop :=
  match m.payload with
  | .searchInitial _ _ | .searchBegin _ _ _ | .search _ _ _ | .searchComplete _ _ => True
  | _ => False

/-- The initiator of the search that `m`, sent to `dst`, belongs to. -/
def searcher (dst : Ipv4Address) (m : PennSearchMessage) : Ipv4Address :=
  match m.payload with
  | .searchInitial w _ | .searchBegin w _ _ | .search w _ _ => w
  | _ => dst

/-- The keyword whose posting list the receiver reads. -/
def keyRead (m : PennSearchMessage) : Option CxxString :=
  match m.payload with
  | .searchBegin _ keyList _ | .search _ keyList _ => keyList.head?
  | _ => none

/-- How many deliveries and lookups the search may still take. -/
def hops (m : PennSearchMessage) : ℕ :=
  match m.payload with
  | .searchInitial _ keyList => 2 * keyList.length + 3
  | .searchBegin _ keyList _ | .search _ keyList _ => 2 * keyList.length + 1
  | _ => 1

end PennSearchMessage

/-- The message that answers a lookup, from the tracked data. -/
def LookupCall.message (l : LookupCall) (searchData : SearchData) : PennSearchMessage :=
  ⟨l.transactionId,
    if l.flag = 1 then
      .searchBegin searchData.initiatorAddress searchData.keyList searchData.docList
    else .search searchData.initiatorAddress searchData.keyList searchData.docList⟩

theorem LookupCall.message_begin {l : LookupCall} (h : l.flag = 1) (searchData : SearchData) :
    l.message searchData = ⟨l.transactionId,
      .searchBegin searchData.initiatorAddress searchData.keyList searchData.docList⟩ := by
  rw [LookupCall.message, if_pos h]

theorem LookupCall.message_round {l : LookupCall} (h : l.flag = 2) (searchData : SearchData) :
    l.message searchData = ⟨l.transactionId,
      .search searchData.initiatorAddress searchData.keyList searchData.docList⟩ := by
  rw [LookupCall.message, if_neg]
  rw [h]
  decide

theorem LookupCall.message_isSearch (l : LookupCall) (searchData : SearchData) :
    (l.message searchData).IsSearch := by
  unfold LookupCall.message
  split <;> trivial

def LookupCall.fate (stored : CxxString → Option (List CxxString)) (l : LookupCall)
    (searchData : SearchData) : SearchFate :=
  (l.message searchData).sentThen ((l.message searchData).fate stored)

/-- A search that waits: it has keywords left, and the lookup is for the first one. -/
structure LookupCall.Waits (l : LookupCall) (searchData : SearchData) : Prop where
  flag : l.flag = 1 ∨ l.flag = 2
  head : searchData.keyList.head? = some l.lookupKey

namespace SearchNode

variable {n n' : SearchNode} {m : PennSearchMessage} {acts : List SearchAction}
  {stored : CxxString → Option (List CxxString)} {w src : Ipv4Address}

/-- Whether the handler of `m` inserts into `m_searchTracker`. -/
def tracks (n : SearchNode) (m : PennSearchMessage) : Bool :=
  match m.payload with
  | .searchInitial _ (_ :: _) => true
  | .searchBegin _ (key :: _ :: _) _ => n.dataMap[key]?.any fun docList => docList ≠ []
  | .search _ (key :: _ :: _) docList =>
      n.dataMap[key]?.any fun currentDocList => findIntersection currentDocList docList ≠ []
  | _ => false

end SearchNode

/-- What a handler makes of a search: it answers the initiator, or looks the next
keyword up. -/
inductive SearchMove (stored : CxxString → Option (List CxxString)) (n : SearchNode)
    (m : PennSearchMessage) (dst : Ipv4Address) :
    SearchNode → List SearchAction → SearchFate → Bool → Prop
  | complete (keyList docList : List CxxString) (hops : 1 < m.hops) :
      SearchMove stored n m dst n
        [.sendTo (m.searcher dst) ⟨m.transactionId, .searchComplete keyList docList⟩]
        (finishFate m.transactionId keyList docList) false
  | lookup (l : LookupCall) (searchData : SearchData) (node : l.node = dst)
      (transactionId : l.transactionId = m.transactionId)
      (initiator : searchData.initiatorAddress = m.searcher dst) (waits : l.Waits searchData)
      (hops : (l.message searchData).hops + 1 < m.hops) :
      SearchMove stored n m dst (n.track m.transactionId searchData)
        [.lookupPublish l.lookupKey l.flag l.transactionId] (l.fate stored searchData) true

namespace SearchNode

variable {n n' : SearchNode} {m : PennSearchMessage} {acts : List SearchAction}
  {stored : CxxString → Option (List CxxString)} {w src dst : Ipv4Address}
  {keyList docList : List CxxString}

theorem sendSearchComplete_eq_ok {tx : UInt32}
    (h : n.sendSearchComplete w keyList docList tx = .ok (n', acts)) :
    n' = n ∧ acts = [.sendTo w ⟨tx, .searchComplete keyList docList⟩] := by
  obtain ⟨act, hact, h⟩ := bind_eq_ok.mp h
  obtain ⟨rfl, rfl⟩ := Prod.mk.inj (Except.ok.inj h)
  exact ⟨rfl, by rw [sendTo_eq_ok hact]⟩

theorem continueSearch_move (hw : m.searcher dst = w) (hops : 2 * keyList.length + 2 < m.hops)
    (h : n.continueSearch m w keyList docList = .ok (n', acts)) :
    SearchMove stored n m dst n' acts (continueFate w m.transactionId stored keyList docList)
      (decide (keyList ≠ [] ∧ docList ≠ [])) := by
  subst hw
  cases keyList with
  | nil =>
      obtain ⟨rfl, rfl⟩ := sendSearchComplete_eq_ok h
      exact .complete [] docList (by omega)
  | cons key rest =>
      rw [continueSearch] at h
      split at h
      · rename_i hdocs
        subst hdocs
        obtain ⟨rfl, rfl⟩ := sendSearchComplete_eq_ok h
        exact .complete (key :: rest) [] (by omega)
      · rename_i hdocs
        obtain ⟨rfl, rfl⟩ := Prod.mk.inj (Except.ok.inj h)
        have htracked : decide (key :: rest ≠ [] ∧ docList ≠ []) = true :=
          decide_eq_true ⟨List.cons_ne_nil _ _, hdocs⟩
        rw [htracked, continueFate_cons _ _ _ _ _ hdocs]
        refine .lookup ⟨dst, key, 2, m.transactionId⟩ ⟨m.searcher dst, key :: rest, docList⟩
          rfl rfl rfl ⟨Or.inr rfl, rfl⟩ ?_
        change 2 * (key :: rest).length + 1 + 1 < m.hops
        omega

/-- The handlers of SEARCH_INITIAL, SEARCH_BEGIN and SEARCH, on the posting list that they
read. -/
theorem recv_move (hm : m.IsSearch)
    (hnot : ∀ keyList docList, m.payload ≠ .searchComplete keyList docList)
    (hread : ∀ key, m.keyRead = some key → n.dataMap[key]? = stored key)
    (h : n.recvMessage m src = .ok (n', acts)) :
    SearchMove stored n m dst n' acts (m.fate stored) (n.tracks m) := by
  obtain ⟨tx, payload⟩ := m
  cases payload with
  | searchInitial w keyList =>
      cases keyList with
      | nil => cases h
      | cons key rest =>
          obtain ⟨rfl, rfl⟩ := Prod.mk.inj (Except.ok.inj h)
          refine .lookup ⟨dst, key, 1, tx⟩ ⟨w, key :: rest, []⟩ rfl rfl rfl ⟨Or.inl rfl, rfl⟩ ?_
          change 2 * (key :: rest).length + 1 + 1 < 2 * (key :: rest).length + 3
          omega
  | searchBegin w keyList docs =>
      cases keyList with
      | nil => cases h
      | cons key rest =>
          have hkey := hread key rfl
          have hops : 2 * rest.length + 2 < 2 * (key :: rest).length + 1 := by
            rw [List.length_cons]
            omega
          change n.processSearchBegin _ w (key :: rest) = _ at h
          rw [processSearchBegin] at h
          cases hget : n.dataMap[key]? with
          | none =>
              rw [hget] at h
              obtain ⟨rfl, rfl⟩ := sendSearchComplete_eq_ok h
              have hfate : PennSearchMessage.fate stored ⟨tx, .searchBegin w (key :: rest) docs⟩ =
                  finishFate tx rest [] := by
                simp only [PennSearchMessage.fate, beginFate, ← hkey, hget]
              have htracks : n'.tracks ⟨tx, .searchBegin w (key :: rest) docs⟩ = false := by
                cases rest <;> simp [tracks, hget]
              rw [hfate, htracks]
              exact .complete rest [] (by change 1 < 2 * (key :: rest).length + 1; omega)
          | some docList =>
              rw [hget] at h
              have hfate : PennSearchMessage.fate stored ⟨tx, .searchBegin w (key :: rest) docs⟩ =
                  continueFate w tx stored rest docList := by
                simp only [PennSearchMessage.fate, beginFate, ← hkey, hget]
              have htracks : n.tracks ⟨tx, .searchBegin w (key :: rest) docs⟩ =
                  decide (rest ≠ [] ∧ docList ≠ []) := by
                cases rest <;> simp [tracks, hget]
              rw [hfate, htracks]
              exact continueSearch_move rfl hops h
  | search w keyList docs =>
      cases keyList with
      | nil => cases h
      | cons key rest =>
          have hkey := hread key rfl
          have hops : 2 * rest.length + 2 < 2 * (key :: rest).length + 1 := by
            rw [List.length_cons]
            omega
          change n.processSearch _ w (key :: rest) docs = _ at h
          rw [processSearch] at h
          cases hget : n.dataMap[key]? with
          | none =>
              rw [hget] at h
              cases h
          | some docList =>
              rw [hget] at h
              have hfate : PennSearchMessage.fate stored ⟨tx, .search w (key :: rest) docs⟩ =
                  continueFate w tx stored rest (findIntersection docList docs) := by
                simp only [PennSearchMessage.fate, roundFate, ← hkey, hget]
              have htracks : n.tracks ⟨tx, .search w (key :: rest) docs⟩ =
                  decide (rest ≠ [] ∧ findIntersection docList docs ≠ []) := by
                cases rest <;> simp [tracks, hget]
              rw [hfate, htracks]
              exact continueSearch_move rfl hops h
  | searchComplete keyList docList => exact absurd rfl (hnot keyList docList)
  | _ => exact hm.elim

theorem sendSearchComplete_isOk {tx : UInt32} {good : List CxxString → Prop}
    (h : (finishFate tx keyList docList).Answers good) :
    ∃ r, n.sendSearchComplete w keyList docList tx = .ok r := by
  have hfits := (PennSearchMessage.sentThen_answers.mp h).1
  rw [sendSearchComplete, PennSearchMessage.sendTo,
    if_pos (PennSearchMessage.countable_of_fits hfits)]
  exact ⟨_, rfl⟩

theorem continueSearch_isOk {good : List CxxString → Prop}
    (h : (continueFate w m.transactionId stored keyList docList).Answers good) :
    ∃ r, n.continueSearch m w keyList docList = .ok r := by
  cases keyList with
  | nil => exact sendSearchComplete_isOk h
  | cons key rest =>
      rw [continueSearch]
      rw [continueFate] at h
      split
      · rename_i hdocs
        rw [if_pos hdocs] at h
        exact sendSearchComplete_isOk (hdocs ▸ h)
      · exact ⟨_, rfl⟩

theorem recv_isOk (hm : m.IsSearch) {good : List CxxString → Prop}
    (hnot : ∀ keyList docList, m.payload ≠ .searchComplete keyList docList)
    (hread : ∀ key, m.keyRead = some key → n.dataMap[key]? = stored key)
    (hfate : (m.fate stored).Answers good) : ∃ r, n.recvMessage m src = .ok r := by
  obtain ⟨tx, payload⟩ := m
  cases payload with
  | searchInitial w keyList =>
      cases keyList with
      | nil => exact hfate.elim
      | cons key rest => exact ⟨_, rfl⟩
  | searchBegin w keyList docs =>
      cases keyList with
      | nil => exact hfate.elim
      | cons key rest =>
          have hkey := hread key rfl
          change ∃ r, n.processSearchBegin _ w (key :: rest) = .ok r
          rw [processSearchBegin, hkey]
          change (match stored key with
            | none => finishFate tx rest []
            | some docList => continueFate w tx stored rest docList).Answers good at hfate
          cases hget : stored key with
          | none =>
              rw [hget] at hfate
              exact sendSearchComplete_isOk hfate
          | some docList =>
              rw [hget] at hfate
              exact continueSearch_isOk hfate
  | search w keyList docs =>
      cases keyList with
      | nil => exact hfate.elim
      | cons key rest =>
          have hkey := hread key rfl
          change ∃ r, n.processSearch _ w (key :: rest) docs = .ok r
          rw [processSearch, hkey]
          change (match stored key with
            | none => SearchFate.fault .keyAbsent
            | some docList => continueFate w tx stored rest (findIntersection docList docs)).Answers
              good at hfate
          cases hget : stored key with
          | none =>
              rw [hget] at hfate
              exact hfate.elim
          | some docList =>
              rw [hget] at hfate
              exact continueSearch_isOk hfate
  | searchComplete keyList docList => exact absurd rfl (hnot keyList docList)
  | _ => exact hm.elim

end SearchNode

end PennSearch
