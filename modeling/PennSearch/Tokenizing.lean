import PennSearch.Library.Pieces
import PennSearch.Search.Handlers

/-!
# `Tokenize` and `PennSearch::Tokenizer`

Both functions have the same body, a loop with two positions: where the next token
starts, and where it ends. `npos` stands for a search without a result, so for the
end of a token that reaches the end of the string, and the length that is asked of
`substr` is then `npos` less the start. The positions here are those of the source,
64 bits wide. `tokenizer`, on lists, is what the loop comes to, and its tokens are
the pieces of the string between delimiters.
-/

namespace PennSearch

open Pieces

/-- What can go wrong with a string: `substr` throws, or a loop does not end. -/
inductive TextFault
  | outOfRange
  | diverges
deriving DecidableEq

def npos : UInt64 := -1

/-- A `std::string`. Every position of it is below `npos`, and so is its size. -/
structure StdString where
  chars : CxxString
  length_lt : chars.length < npos.toNat

namespace StdString

/-- The first position from `pos` on with a character that is wanted. -/
def findFirst (str : StdString) (wanted : UInt8 → Bool) (pos : UInt64) : UInt64 :=
  match (str.chars.drop pos.toNat).findIdx? wanted with
  | some n => pos + UInt64.ofNat n
  | none => npos

def findFirstOf (str delimiters : StdString) (pos : UInt64) : UInt64 :=
  str.findFirst (· ∈ delimiters.chars) pos

def findFirstNotOf (str delimiters : StdString) (pos : UInt64) : UInt64 :=
  str.findFirst (· ∉ delimiters.chars) pos

/-- `substr`: at most `count` characters, from `pos` on. -/
def substr (str : StdString) (pos count : UInt64) : Except TextFault StdString :=
  if str.chars.length < pos.toNat then .error .outOfRange
  else .ok ⟨(str.chars.drop pos.toNat).take count.toNat, by
    have h := str.length_lt
    simp only [List.length_take, List.length_drop]
    omega⟩

def tokensLoop (str delimiters : StdString) :
    ℕ → List StdString → UInt64 → UInt64 → Except TextFault (List StdString)
  | 0, _, _, _ => .error .diverges
  | fuel + 1, tokens, lastPos, pos =>
      if npos ≠ pos ∨ npos ≠ lastPos then do
        let token ← str.substr lastPos (pos - lastPos)
        let lastPos := str.findFirstNotOf delimiters pos
        let pos := str.findFirstOf delimiters lastPos
        tokensLoop str delimiters fuel (tokens ++ [token]) lastPos pos
      else .ok tokens

/-- The body of both functions, with a round for every character and one more. -/
def appendTokens (str : StdString) (tokens : List StdString) (delimiters : StdString) :
    Except TextFault (List StdString) :=
  let lastPos := str.findFirstNotOf delimiters 0
  let pos := str.findFirstOf delimiters lastPos
  tokensLoop str delimiters (str.chars.length + 1) tokens lastPos pos

/-- `Tokenize`, in `simulator-main.cc`. -/
def tokenize (str : StdString) (tokens : List StdString) (delimiters : StdString) :
    Except TextFault (List StdString) := str.appendTokens tokens delimiters

/-- `PennSearch::Tokenizer`. -/
def tokenizer (str : StdString) (tokens : List StdString) (delimiters : StdString) :
    Except TextFault (List StdString) := str.appendTokens tokens delimiters

/-! ## Searches -/

variable {str delimiters : StdString} {wanted : UInt8 → Bool} {pos : UInt64} {fuel : ℕ}

theorem npos_toNat : npos.toNat = 2 ^ 64 - 1 := rfl

theorem drop_npos (str : StdString) : str.chars.drop npos.toNat = [] :=
  List.drop_of_length_le str.length_lt.le

theorem findFirst_cases (str : StdString) (wanted : UInt8 → Bool) (pos : UInt64) :
    (str.findFirst wanted pos = npos ∧ ∀ c ∈ str.chars.drop pos.toNat, wanted c = false) ∨
      (str.findFirst wanted pos).toNat = pos.toNat +
          (str.chars.drop pos.toNat).findIdx wanted ∧
        (str.findFirst wanted pos).toNat < str.chars.length := by
  cases hfind : (str.chars.drop pos.toNat).findIdx? wanted with
  | none =>
      left
      exact ⟨by simp [findFirst, hfind], List.findIdx?_eq_none_iff.mp hfind⟩
  | some n =>
      right
      have hn : (str.chars.drop pos.toNat).findIdx wanted = n := by
        rw [List.findIdx_eq_getD_findIdx?, hfind, Option.getD_some]
      have hlt : pos.toNat + n < str.chars.length := by
        have hlen := (List.findIdx?_eq_some_iff_findIdx_eq.mp hfind).1
        rw [List.length_drop] at hlen
        omega
      have hmax := str.length_lt
      rw [npos_toNat] at hmax
      have htoNat : (str.findFirst wanted pos).toNat = pos.toNat + n := by
        simp only [findFirst, hfind, UInt64.toNat_add, UInt64.toNat_ofNat']
        omega
      rw [htoNat, hn]
      exact ⟨rfl, hlt⟩

theorem drop_findFirst (str : StdString) (wanted : UInt8 → Bool) (pos : UInt64) :
    str.chars.drop (str.findFirst wanted pos).toNat =
      (str.chars.drop pos.toNat).dropWhile (!wanted ·) := by
  rcases str.findFirst_cases wanted pos with ⟨hnpos, hnone⟩ | ⟨hfound, -⟩
  · rw [hnpos, drop_npos, eq_comm, List.dropWhile_eq_nil_iff]
    simpa using hnone
  · rw [hfound, List.dropWhile_eq_drop_findIdx_not, List.drop_drop]
    simp

theorem findFirst_eq_npos_iff :
    str.findFirst wanted pos = npos ↔
      (str.chars.drop pos.toNat).dropWhile (!wanted ·) = [] := by
  rw [← drop_findFirst]
  refine ⟨fun h => by rw [h, drop_npos], fun h => ?_⟩
  rcases str.findFirst_cases wanted pos with ⟨hnpos, -⟩ | ⟨-, hlt⟩
  · exact hnpos
  · have hle := List.drop_eq_nil_iff.mp h
    omega

theorem substr_findFirst (wanted : UInt8 → Bool) (hpos : pos.toNat ≤ str.chars.length) :
    ∃ token, str.substr pos (str.findFirst wanted pos - pos) = .ok token ∧
      token.chars = (str.chars.drop pos.toNat).takeWhile (!wanted ·) := by
  have hlt : ¬ str.chars.length < pos.toNat := by omega
  refine ⟨_, by rw [substr, if_neg hlt], ?_⟩
  have hmax := str.length_lt
  rw [npos_toNat] at hmax
  rcases str.findFirst_cases wanted pos with ⟨hnpos, hnone⟩ | ⟨hfound, hend⟩
  · have hcount : (npos - pos).toNat = 2 ^ 64 - 1 - pos.toNat := by
      rw [UInt64.toNat_sub_of_le, npos_toNat]
      rw [UInt64.le_iff_toNat_le, npos_toNat]
      omega
    have hall : (str.chars.drop pos.toNat).takeWhile (!wanted ·) = str.chars.drop pos.toNat := by
      rw [List.takeWhile_eq_self_iff]
      simpa using hnone
    dsimp only
    rw [hnpos, hcount, hall, List.take_of_length_le]
    rw [List.length_drop]
    omega
  · have hcount : (str.findFirst wanted pos - pos).toNat =
        (str.chars.drop pos.toNat).findIdx wanted := by
      rw [UInt64.toNat_sub_of_le, hfound, Nat.add_sub_cancel_left]
      rw [UInt64.le_iff_toNat_le]
      omega
    dsimp only
    rw [hcount, List.takeWhile_eq_take_findIdx_not]
    simp

/-! ## The loop on positions and the loop on lists -/

/-- From the position that the last token ends at, with a round left for every
character behind it, the loop appends what `tokenizerLoop` finds there. -/
theorem tokensLoop_eq (hfuel : (str.chars.drop pos.toNat).length < fuel)
    (tokens : List StdString) :
    ∃ appended, str.tokensLoop delimiters fuel tokens (str.findFirstNotOf delimiters pos)
        (str.findFirstOf delimiters (str.findFirstNotOf delimiters pos)) =
          .ok (tokens ++ appended) ∧
      appended.map chars = tokenizerLoop delimiters.chars fuel (str.chars.drop pos.toNat) := by
  induction fuel generalizing pos tokens with
  | zero => omega
  | succ fuel ih =>
      generalize hlast : str.findFirstNotOf delimiters pos = lastPos
      generalize hend : str.findFirstOf delimiters lastPos = pos'
      have hskip : str.chars.drop lastPos.toNat =
          (str.chars.drop pos.toNat).dropWhile (· ∈ delimiters.chars) := by
        rw [← hlast, findFirstNotOf, drop_findFirst]
        simp
      have hrest : str.chars.drop pos'.toNat =
          (str.chars.drop lastPos.toNat).dropWhile (· ∉ delimiters.chars) := by
        rw [← hend, findFirstOf, drop_findFirst]
        simp
      cases hchars : (str.chars.drop pos.toNat).dropWhile (· ∈ delimiters.chars) with
      | nil =>
          have hlast' : lastPos = npos := by
            rw [← hlast, findFirstNotOf, findFirst_eq_npos_iff]
            simpa using hchars
          have hend' : pos' = npos := by
            rw [← hend, findFirstOf, findFirst_eq_npos_iff, hlast', drop_npos]
            rfl
          exact ⟨[], by simp [tokensLoop, hlast', hend'], by simp [tokenizerLoop, hchars]⟩
      | cons c rest =>
          rw [hchars] at hskip
          have hc : c ∉ delimiters.chars := by
            have hhead := List.head?_dropWhile_not (· ∈ delimiters.chars) (str.chars.drop pos.toNat)
            rw [hchars] at hhead
            simpa using hhead
          have hlast' : npos ≠ lastPos := by
            rintro rfl
            rw [drop_npos] at hskip
            cases hskip
          have hle : lastPos.toNat ≤ str.chars.length := by
            by_contra hlt
            rw [List.drop_of_length_le (by omega)] at hskip
            cases hskip
          obtain ⟨token, hsubstr, htoken⟩ := str.substr_findFirst (· ∈ delimiters.chars) hle
          rw [← findFirstOf, hend] at hsubstr
          have hshorter : (str.chars.drop pos'.toNat).length < fuel := by
            have hdropped := (str.chars.drop pos.toNat).length_dropWhile_le (· ∈ delimiters.chars)
            have htail := rest.length_dropWhile_le (· ∉ delimiters.chars)
            rw [hchars, List.length_cons] at hdropped
            rw [hrest, hskip, List.dropWhile_cons_of_pos (by simpa using hc)]
            omega
          obtain ⟨appended, hloop, happended⟩ := ih hshorter (tokens ++ [token])
          refine ⟨token :: appended, ?_, ?_⟩
          · rw [tokensLoop, if_pos (Or.inr hlast'), hsubstr]
            simpa [bind, Except.bind] using hloop
          · rw [List.map_cons, happended, htoken, hskip, hrest, hskip, tokenizerLoop, hchars]
            simp

theorem appendTokens_eq (str : StdString) (tokens : List StdString) (delimiters : StdString) :
    ∃ appended, str.appendTokens tokens delimiters = .ok (tokens ++ appended) ∧
      appended.map chars = PennSearch.tokenizer str.chars delimiters.chars := by
  have hfuel : (str.chars.drop (0 : UInt64).toNat).length < str.chars.length + 1 :=
    Nat.lt_succ_self _
  exact tokensLoop_eq hfuel tokens

end StdString

/-! ## Tokens are pieces -/

theorem tokenizerLoop_pieces {str delimiters : CxxString} {fuel k : ℕ}
    (hfuel : str.length < k + fuel)
    (hstart : k = 0 ∨ ∀ hk : k < str.length, str[k] ∈ delimiters) :
    ∃ pieces, PiecesFrom (· ∈ delimiters) str k pieces ∧
      tokenizerLoop delimiters fuel (str.drop k) =
        pieces.map fun piece => str.extract piece.1 piece.2 := by
  induction fuel generalizing k with
  | zero =>
      have hnil : str.drop k = [] := List.drop_of_length_le (by omega)
      exact ⟨[], .nil (by simp [hnil]), rfl⟩
  | succ fuel ih =>
      cases hrest : (str.drop k).dropWhile (· ∈ delimiters) with
      | nil =>
          have hall := List.dropWhile_eq_nil_iff.mp hrest
          exact ⟨[], .nil (by simpa using hall), by simp [tokenizerLoop, hrest]⟩
      | cons c rest =>
          obtain ⟨i, j, htake, hdrop, hkj, hstop, hcons⟩ :=
            PiecesFrom.cons_drop hstart hrest (List.cons_ne_nil c rest)
          obtain ⟨pieces, hpieces, hloop⟩ := ih (by omega) (Or.inr hstop)
          refine ⟨(i, j) :: pieces, hcons pieces hpieces, ?_⟩
          rw [tokenizerLoop, hrest, List.map_cons, ← htake, ← hloop, ← hdrop]

theorem tokenizer_pieces (str delimiters : CxxString) :
    ∃ pieces, PiecesFrom (· ∈ delimiters) str 0 pieces ∧
      tokenizer str delimiters = pieces.map fun piece => str.extract piece.1 piece.2 := by
  have hfuel : str.length < 0 + (str.length + 1) := by omega
  exact tokenizerLoop_pieces hfuel (Or.inl rfl)

/-- Tokenizing is exact: `Tokenize` and `PennSearch::Tokenizer` end, never ask `substr`
for more than there is, and append the pieces of the string between its delimiters. -/
theorem tokenize_exact (str : StdString) (tokens : List StdString) (delimiters : StdString) :
    ∃ (appended : List StdString) (pieces : List (ℕ × ℕ)),
      str.tokenize tokens delimiters = .ok (tokens ++ appended) ∧
      str.tokenizer tokens delimiters = .ok (tokens ++ appended) ∧
      PiecesFrom (· ∈ delimiters.chars) str.chars 0 pieces ∧
      appended.map StdString.chars =
        pieces.map fun piece => str.chars.extract piece.1 piece.2 := by
  obtain ⟨appended, hresult, happended⟩ := str.appendTokens_eq tokens delimiters
  obtain ⟨pieces, hpieces, htokens⟩ := tokenizer_pieces str.chars delimiters.chars
  exact ⟨appended, pieces, hresult, hresult, hpieces, happended.trans htokens⟩

/-- Delimiters at both ends, and two in a row. -/
example : (StdString.tokenize ⟨[32, 97, 32, 32, 98, 99, 32], by decide⟩ [] ⟨[32], by decide⟩).map
    (List.map StdString.chars) = .ok [[97], [98, 99]] := by decide

end PennSearch
