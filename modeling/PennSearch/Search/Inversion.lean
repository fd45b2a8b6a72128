import Mathlib.Data.List.TakeWhile
import PennSearch.Search.Net

/-!
# The inverted list of a metadata file

`fileDocuments lines key` is what a metadata file says about a keyword, in the order
of the file: the first token of each line, once for every time the line names the
keyword behind it. The map that PUBLISH builds has this list as the entry of every
keyword, and no entry where the list is empty (`foldlM_invertLine_getElem?`). The
loop survives exactly the files whose lines are empty or have a token.
-/

namespace PennSearch

open MessagePassing

/-- The document of a line, once for every occurrence of `key` behind it. -/
def lineDocuments (key line : CxxString) : List CxxString :=
  match tokenizer line [32] with
  | [] => []
  | docx :: keyWords => List.replicate (keyWords.count key) docx

def fileDocuments (lines : List CxxString) (key : CxxString) : List CxxString :=
  lines.flatMap (lineDocuments key)

/-- A line that is not empty has a document: it is not made of spaces alone. -/
def LineHasDocument (line : CxxString) : Prop := line ≠ [] → tokenizer line [32] ≠ []

theorem tokenizer_eq_nil_iff (line : CxxString) :
    tokenizer line [32] = [] ↔ ∀ c ∈ line, c = 32 := by
  have hspaces : line.dropWhile (· ∈ [32]) = [] ↔ ∀ c ∈ line, c = 32 := by
    rw [List.dropWhile_eq_nil_iff]
    simp
  rw [← hspaces, tokenizer, tokenizerLoop]
  split
  · rename_i h
    exact iff_of_true rfl h
  · rename_i rest h
    exact iff_of_false (List.cons_ne_nil _ _) h

theorem lineHasDocument_iff (line : CxxString) :
    LineHasDocument line ↔ line = [] ∨ ∃ c ∈ line, c ≠ 32 := by
  rw [LineHasDocument, ne_eq, ne_eq, tokenizer_eq_nil_iff]
  simp only [not_forall, exists_prop]
  exact imp_iff_not_or.trans (or_congr_left not_not)

namespace PostingMap

variable {m m' : PostingMap} {key : CxxString}

def Filled (m : PostingMap) : Prop := ∀ key : CxxString, m[key]? ≠ some []

theorem filled_empty : (∅ : PostingMap).Filled := by
  intro key
  simp

theorem getD_pushBack (m : PostingMap) (docx keyWord key : CxxString) :
    ((m.pushBack docx keyWord)[key]?).getD [] =
      m[key]?.getD [] ++ if keyWord = key then [docx] else [] := by
  unfold pushBack
  cases hget : m[keyWord]? with
  | none =>
      by_cases hk : keyWord = key
      · subst hk
        simp [hget]
      · simp [Std.TreeMap.getElem?_insert, hk]
  | some docName =>
      by_cases hk : keyWord = key
      · subst hk
        simp [hget]
      · simp [Std.TreeMap.getElem?_insert, hk]

theorem Filled.pushBack (h : m.Filled) (docx keyWord : CxxString) :
    (m.pushBack docx keyWord).Filled := by
  intro key
  unfold PostingMap.pushBack
  cases hget : m[keyWord]? with
  | none =>
      simp only [Std.TreeMap.getElem?_insert]
      split
      · simp
      · exact h key
  | some docName =>
      simp only [Std.TreeMap.getElem?_insert]
      split
      · simp
      · exact h key

theorem getD_foldl_pushBack (m : PostingMap) (docx : CxxString) (keyWords : List CxxString)
    (key : CxxString) :
    ((keyWords.foldl (fun m keyWord => m.pushBack docx keyWord) m)[key]?).getD [] =
      m[key]?.getD [] ++ List.replicate (keyWords.count key) docx := by
  induction keyWords generalizing m with
  | nil => simp
  | cons keyWord keyWords ih =>
      rw [List.foldl_cons, ih, getD_pushBack, List.append_assoc, List.count_cons]
      by_cases hk : keyWord = key
      · simp [hk, List.replicate_succ]
      · simp [hk]

theorem Filled.foldl_pushBack (h : m.Filled) (docx : CxxString) (keyWords : List CxxString) :
    (keyWords.foldl (fun m keyWord => m.pushBack docx keyWord) m).Filled := by
  induction keyWords generalizing m with
  | nil => exact h
  | cons keyWord keyWords ih => exact ih (h.pushBack docx keyWord)

theorem getD_invertLine {line : CxxString} (h : m.invertLine line = .ok m') (key : CxxString) :
    m'[key]?.getD [] = m[key]?.getD [] ++ lineDocuments key line := by
  unfold invertLine at h
  split at h
  · rename_i hline
    obtain rfl := Except.ok.inj h
    subst hline
    exact (List.append_nil _).symm
  · cases htokens : tokenizer line [32] with
    | nil => simp [htokens] at h
    | cons docx keyWords =>
        simp only [htokens] at h
        obtain rfl := Except.ok.inj h
        simp only [lineDocuments, htokens]
        exact getD_foldl_pushBack m docx keyWords key

theorem Filled.invertLine {line : CxxString} (hm : m.Filled) (h : m.invertLine line = .ok m') :
    m'.Filled := by
  unfold PostingMap.invertLine at h
  split at h
  · obtain rfl := Except.ok.inj h
    exact hm
  · cases htokens : tokenizer line [32] with
    | nil => simp [htokens] at h
    | cons docx keyWords =>
        simp only [htokens] at h
        obtain rfl := Except.ok.inj h
        exact hm.foldl_pushBack docx keyWords

theorem invertLine_isOk (m : PostingMap) (line : CxxString) :
    (∃ m', m.invertLine line = .ok m') ↔ LineHasDocument line := by
  unfold invertLine LineHasDocument
  split
  · simp [*]
  · rename_i hline
    cases tokenizer line [32] <;> simp [hline]

theorem getD_foldlM_invertLine {lines : List CxxString}
    (h : lines.foldlM PostingMap.invertLine m = .ok m') (key : CxxString) :
    m'[key]?.getD [] = m[key]?.getD [] ++ fileDocuments lines key := by
  induction lines generalizing m with
  | nil =>
      obtain rfl := Except.ok.inj h
      exact (List.append_nil _).symm
  | cons line lines ih =>
      rw [List.foldlM_cons] at h
      obtain ⟨m₁, hline, hrest⟩ := bind_eq_ok.mp h
      rw [ih hrest, getD_invertLine hline, List.append_assoc]
      rfl

theorem Filled.foldlM_invertLine {lines : List CxxString} (hm : m.Filled)
    (h : lines.foldlM PostingMap.invertLine m = .ok m') : m'.Filled := by
  induction lines generalizing m with
  | nil =>
      obtain rfl := Except.ok.inj h
      exact hm
  | cons line lines ih =>
      rw [List.foldlM_cons] at h
      obtain ⟨m₁, hline, hrest⟩ := bind_eq_ok.mp h
      exact ih (hm.invertLine hline) hrest

theorem foldlM_invertLine_isOk (m : PostingMap) (lines : List CxxString) :
    (∃ m', lines.foldlM invertLine m = .ok m') ↔ ∀ line ∈ lines, LineHasDocument line := by
  induction lines generalizing m with
  | nil => exact iff_of_true ⟨m, rfl⟩ (by simp)
  | cons line lines ih =>
      rw [List.foldlM_cons, List.forall_mem_cons, ← invertLine_isOk m line]
      constructor
      · rintro ⟨m', h⟩
        obtain ⟨m₁, hline, hrest⟩ := bind_eq_ok.mp h
        exact ⟨⟨m₁, hline⟩, (ih m₁).mp ⟨m', hrest⟩⟩
      · rintro ⟨⟨m₁, hline⟩, hrest⟩
        obtain ⟨m', h⟩ := (ih m₁).mpr hrest
        exact ⟨m', bind_eq_ok.mpr ⟨m₁, hline, h⟩⟩

/-- The map built from an empty one: the list of a file as the entry of each keyword
that it names, and no other entry. -/
theorem foldlM_invertLine_getElem? {lines : List CxxString}
    (h : lines.foldlM invertLine ∅ = .ok m') (key : CxxString) :
    m'[key]? = if fileDocuments lines key = [] then none
      else some (fileDocuments lines key) := by
  have hdocs := getD_foldlM_invertLine h key
  have hfilled := filled_empty.foldlM_invertLine h key
  rw [Std.TreeMap.getElem?_emptyc, Option.getD_none, List.nil_append] at hdocs
  cases hget : m'[key]? with
  | none =>
      rw [hget, Option.getD_none] at hdocs
      rw [if_pos hdocs.symm]
  | some docVector =>
      rw [hget, Option.getD_some] at hdocs
      subst hdocs
      rw [hget] at hfilled
      rw [if_neg fun hnil => hfilled (congrArg some hnil)]

end PostingMap

namespace SearchNode

theorem publishLoop_same (n : SearchNode) (keys : List CxxString) :
    (n.publishLoop keys).1 =
      { n with currentTransactionId := (n.publishLoop keys).1.currentTransactionId } := by
  induction keys generalizing n with
  | nil => rfl
  | cons key keys ih => exact ih n.nextTransactionId

/-- A file that does not open is published like an empty one. -/
theorem processPublishCommand_eq (n : SearchNode) {filename : CxxString}
    (lines : Option (List CxxString)) (h : filename.length < 50) :
    n.processPublishCommand filename lines =
      (fun m => { n with invertListMap := m }.publish) <$>
        (lines.getD []).foldlM PostingMap.invertLine ∅ := by
  rw [processPublishCommand, if_neg (by omega)]
  cases lines with
  | none => rfl
  | some lines =>
      dsimp only [Option.getD_some]
      cases lines.foldlM PostingMap.invertLine ∅ with
      | error f => rfl
      | ok m => rfl

/-- PUBLISH inverts a file, each entry in the order of the file, exactly when every
line of it is empty or has a character other than a space. -/
theorem publish_inverts_iff (n : SearchNode) (filename : CxxString) (lines : List CxxString)
    (hpath : filename.length < 50) :
    (∃ n' acts, n.processPublishCommand filename (some lines) = .ok (n', acts) ∧
        ∀ key, n'.invertListMap[key]? =
          if fileDocuments lines key = [] then none else some (fileDocuments lines key)) ↔
      ∀ line ∈ lines, line = [] ∨ ∃ c ∈ line, c ≠ 32 := by
  have hlines : (∀ line ∈ lines, line = [] ∨ ∃ c ∈ line, c ≠ 32) ↔
      ∃ m, lines.foldlM PostingMap.invertLine ∅ = .ok m := by
    rw [PostingMap.foldlM_invertLine_isOk]
    simp only [lineHasDocument_iff]
  rw [hlines, processPublishCommand_eq n (some lines) hpath, Option.getD_some]
  constructor
  · rintro ⟨n', acts, hpublish, -⟩
    cases hfold : lines.foldlM PostingMap.invertLine ∅ with
    | error f =>
        rw [hfold] at hpublish
        cases hpublish
    | ok m => exact ⟨m, rfl⟩
  · rintro ⟨m, hfold⟩
    rw [hfold]
    refine ⟨_, _, rfl, fun key => ?_⟩
    rw [publishLoop_same]
    exact PostingMap.foldlM_invertLine_getElem? hfold key

/-- `D T T`, an empty line, and `E  T`. -/
def sampleMetadata : List CxxString := [[68, 32, 84, 32, 84], [], [69, 32, 32, 84]]

theorem publish_inverts_sampleMetadata :
    (∃ n' acts, (start sampleA 0).processPublishCommand [107] (some sampleMetadata) =
          .ok (n', acts) ∧
        ∀ key, n'.invertListMap[key]? =
          if fileDocuments sampleMetadata key = [] then none
          else some (fileDocuments sampleMetadata key)) ∧
      fileDocuments sampleMetadata [84] = [[68], [68], [69]] :=
  ⟨(publish_inverts_iff (start sampleA 0) [107] sampleMetadata (by decide)).mpr (by decide),
    by decide⟩

/-- A line of one space has no token to dereference. -/
theorem publish_faults_on_spaces :
    (start sampleA 0).processPublishCommand [107] (some [[32]]) = .error .tokenMissing ∧
      ¬ ∃ n' acts, (start sampleA 0).processPublishCommand [107] (some [[32]]) =
        .ok (n', acts) := by
  have hfault : (start sampleA 0).processPublishCommand [107] (some [[32]]) =
      .error .tokenMissing := rfl
  refine ⟨hfault, ?_⟩
  rintro ⟨n', acts, hok⟩
  rw [hfault] at hok
  cases hok

end SearchNode

end PennSearch
