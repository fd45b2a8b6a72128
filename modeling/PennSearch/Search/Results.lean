import PennSearch.Search.Codec
import PennSearch.Search.Handlers

/-!
# The output of `ProcessSearchComplete`

The results of a search are put together by a loop over the documents of the
message, and a second loop passes over its keywords without doing anything. Both
count with a `uint8_t` that is compared with a `size_t`, so the output is complete
exactly when neither list has 256 entries; with more a loop never ends.
-/

namespace PennSearch

/-- One round of the first loop: the document and a space are appended. -/
def appendDoc (doc final_output : CxxString) : Option CxxString :=
  some (final_output ++ doc ++ [32])

/-- One round of the second loop, whose body is empty. -/
def skipKey (_ : CxxString) (u : Unit) : Option Unit := some u

/-- The first loop, as long as `fuel` tests of its condition last. -/
def docsLoop (fuel : ℕ) (docList : List CxxString) : Option CxxString :=
  CountedLoop.run 8 docList.length (fun i => appendDoc docList[i]) none fuel 0 []

def keysLoop (fuel : ℕ) (keyList : List CxxString) : Option Unit :=
  CountedLoop.run 8 keyList.length (fun i => skipKey keyList[i]) none fuel 0 ()

/-- The `final_output` of `ProcessSearchComplete`, once both loops have ended. -/
def searchCompleteOutput (fuel : ℕ) (keyList docList : List CxxString) : Option CxxString := do
  let final_output ← docsLoop fuel docList
  keysLoop fuel keyList
  return final_output

def resultListing (docList : List CxxString) : CxxString := docList.flatMap fun doc => doc ++ [32]

variable {keyList docList : List CxxString} {fuel : ℕ}

theorem foldlM_appendDoc (docList : List CxxString) (out : CxxString) :
    docList.foldlM (fun out doc => appendDoc doc out) out =
      some (out ++ resultListing docList) := by
  induction docList generalizing out with
  | nil => simp [resultListing]
  | cons doc docs ih =>
      rw [List.foldlM_cons, appendDoc, Option.bind_eq_bind, Option.bind_some, ih]
      simp [resultListing]

theorem docsLoop_of_lt (hdocs : docList.length < 256) (hfuel : docList.length < fuel) :
    docsLoop fuel docList = some (resultListing docList) := by
  rw [docsLoop, CountedLoop.run_list_eq_foldlM (w := 8) hdocs hfuel, foldlM_appendDoc]
  rfl

theorem docsLoop_of_le (hdocs : 256 ≤ docList.length) (fuel : ℕ) : docsLoop fuel docList = none :=
  CountedLoop.run_of_le hdocs (fun i out => ⟨out ++ docList[i] ++ [32], rfl⟩) fuel 0 []

theorem foldlM_skipKey (keyList : List CxxString) :
    keyList.foldlM (fun u key => skipKey key u) () = some () := by
  induction keyList with
  | nil => rfl
  | cons key keys ih => exact ih

theorem keysLoop_of_lt (hkeys : keyList.length < 256) (hfuel : keyList.length < fuel) :
    keysLoop fuel keyList = some () := by
  rw [keysLoop, CountedLoop.run_list_eq_foldlM (w := 8) hkeys hfuel, foldlM_skipKey]

theorem keysLoop_of_le (hkeys : 256 ≤ keyList.length) (fuel : ℕ) : keysLoop fuel keyList = none :=
  CountedLoop.run_of_le hkeys (fun _ u => ⟨u, rfl⟩) fuel 0 ()

theorem searchCompleteOutput_of_lt (hdocs : docList.length < 256) (hkeys : keyList.length < 256) :
    searchCompleteOutput 256 keyList docList = some (resultListing docList) := by
  rw [searchCompleteOutput, docsLoop_of_lt hdocs hdocs, keysLoop_of_lt hkeys hkeys]
  rfl

/-- With a long list one of the loops goes on for ever. -/
theorem searchCompleteOutput_of_le (h : 256 ≤ docList.length ∨ 256 ≤ keyList.length) (fuel : ℕ) :
    searchCompleteOutput fuel keyList docList = none := by
  rcases h with hdocs | hkeys
  · rw [searchCompleteOutput, docsLoop_of_le hdocs]
    rfl
  · rw [searchCompleteOutput, keysLoop_of_le hkeys]
    cases docsLoop fuel docList <;> rfl

/-- The handler gives results exactly when its loops end. -/
theorem processSearchComplete_eq_ok_iff (n : SearchNode) (keyList docList : List CxxString) :
    n.processSearchComplete keyList docList = .ok (n, [.searchResults docList]) ↔
      ∃ fuel, (searchCompleteOutput fuel keyList docList).isSome := by
  unfold SearchNode.processSearchComplete
  split
  · rename_i hlong
    constructor
    · intro h
      cases h
    · rintro ⟨fuel, hsome⟩
      rw [searchCompleteOutput_of_le hlong] at hsome
      cases hsome
  · rename_i hshort
    obtain ⟨hdocs, hkeys⟩ := not_or.mp hshort
    refine ⟨fun _ => ⟨256, ?_⟩, fun _ => rfl⟩
    rw [searchCompleteOutput_of_lt (not_le.mp hdocs) (not_le.mp hkeys)]
    rfl

/-- The output of a search comes to an end and lists every document once, in order,
exactly when the message has at most 255 documents and at most 255 keywords. -/
theorem search_complete_listed_iff (keyList docList : List CxxString) :
    (∃ fuel, searchCompleteOutput fuel keyList docList = some (resultListing docList)) ↔
      docList.length < 256 ∧ keyList.length < 256 := by
  constructor
  · rintro ⟨fuel, hsome⟩
    by_contra hlong
    rw [not_and_or, not_lt, not_lt] at hlong
    rw [searchCompleteOutput_of_le hlong] at hsome
    cases hsome
  · rintro ⟨hdocs, hkeys⟩
    exact ⟨256, searchCompleteOutput_of_lt hdocs hkeys⟩

/-- `Deserialize` reads a message with 256 documents, whose output never ends. -/
theorem search_complete_hangs :
    (∃ bytes, KeyDocLists.deserialize ⟨[], []⟩ bytes =
        .ok (⟨[], List.replicate 256 [68]⟩, [])) ∧
      ∀ fuel, searchCompleteOutput fuel [] (List.replicate 256 [68]) = none := by
  have hexpressible : KeyDocLists.Expressible ⟨[], List.replicate 256 [68]⟩ := by
    refine ⟨⟨by decide, fun s hs => absurd hs List.not_mem_nil⟩, ?_, fun s hs => ?_⟩
    · rw [List.length_replicate]
      decide
    · rw [List.eq_of_mem_replicate hs]
      decide
  refine ⟨⟨_, (KeyDocLists.deserialize_inverts rfl rfl _ _ _).mpr
    ⟨hexpressible, (List.append_nil _).symm⟩⟩, fun fuel => searchCompleteOutput_of_le ?_ fuel⟩
  rw [List.length_replicate]
  exact Or.inl le_rfl

end PennSearch
