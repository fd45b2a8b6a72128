import Mathlib.Data.List.TakeWhile

/-!
# The pieces of a list between separators

A piece is a stretch `[i, j)` of positions that is not empty, has no separator, and
cannot be made longer. Two pieces that overlap are the same piece, so a list of them
in order is found from left to right: skip the separators, and take what follows up
to the next separator (`PiecesFrom.cons_drop`).
-/

namespace Pieces

variable {α : Type*} {sep : α → Prop} {l rest : List α} {i j k i' j' : ℕ}
  {pieces : List (ℕ × ℕ)}

/-- The stretch `[i, j)` is not empty and has no separator. -/
def Clear (sep : α → Prop) (l : List α) (i j : ℕ) : Prop :=
  i < j ∧ j ≤ l.length ∧ ∀ a ∈ l.extract i j, ¬ sep a

/-- A stretch without a separator that is part of no other. -/
def IsPiece (sep : α → Prop) (l : List α) (i j : ℕ) : Prop :=
  Clear sep l i j ∧ ∀ i' j', i' ≤ i → j ≤ j' → Clear sep l i' j' → i' = i ∧ j' = j

structure PiecesFrom (sep : α → Prop) (l : List α) (k : ℕ) (pieces : List (ℕ × ℕ)) : Prop where
  ordered : pieces.Pairwise fun s t => s.1 < t.1
  mem_iff : ∀ i j, (i, j) ∈ pieces ↔ k ≤ i ∧ IsPiece sep l i j

theorem clear_iff : Clear sep l i j ↔
    i < j ∧ j ≤ l.length ∧ ∀ m (hm : m < l.length), i ≤ m → m < j → ¬ sep l[m] := by
  refine and_congr_right fun _ => and_congr_right fun hj => ⟨fun h m hm him hmj => ?_, ?_⟩
  · refine h _ (List.mem_iff_getElem.mpr ⟨m - i, by simp; omega, ?_⟩)
    simp [show i + (m - i) = m by omega]
  · rintro h a ha
    obtain ⟨m, hm, rfl⟩ := List.mem_iff_getElem.mp ha
    simp only [List.length_take, List.length_drop] at hm
    simpa using h (i + m) (by omega) (by omega) (by omega)

theorem Clear.not_sep (h : Clear sep l i j) {m : ℕ} (hm : m < l.length) (him : i ≤ m)
    (hmj : m < j) : ¬ sep l[m] := (clear_iff.mp h).2.2 m hm him hmj

theorem IsPiece.of_bounds (h : Clear sep l i j)
    (hleft : ∀ m (hm : m < l.length), m + 1 = i → sep l[m])
    (hright : ∀ hj : j < l.length, sep l[j]) : IsPiece sep l i j := by
  refine ⟨h, fun i' j' hi hj hclear => ⟨?_, ?_⟩⟩
  · by_contra hne
    obtain ⟨hij, hjl, -⟩ := h
    have hlt : i - 1 < l.length := by omega
    exact hclear.not_sep hlt (by omega) (by omega) (hleft (i - 1) hlt (by omega))
  · by_contra hne
    obtain ⟨hij, -, -⟩ := h
    have hlt : j < l.length := by
      have hle := hclear.2.1
      omega
    exact hclear.not_sep hlt (by omega) (by omega) (hright hlt)

theorem IsPiece.eq_of_overlap (h : IsPiece sep l i j) (h' : IsPiece sep l i' j') (hij : i < j')
    (hij' : i' < j) : i = i' ∧ j = j' := by
  have hunion : Clear sep l (min i i') (max j j') := by
    obtain ⟨hlt, hle, hclear⟩ := clear_iff.mp h.1
    obtain ⟨hlt', hle', hclear'⟩ := clear_iff.mp h'.1
    refine clear_iff.mpr ⟨by omega, by omega, fun m hm him hmj => ?_⟩
    by_cases hin : i ≤ m ∧ m < j
    · exact hclear m hm hin.1 hin.2
    · exact hclear' m hm (by omega) (by omega)
  obtain ⟨hi, hj⟩ := h.2 _ _ (by omega) (by omega) hunion
  obtain ⟨hi', hj'⟩ := h'.2 _ _ (by omega) (by omega) hunion
  omega

theorem PiecesFrom.nil (h : ∀ a ∈ l.drop k, sep a) : PiecesFrom sep l k [] := by
  refine ⟨.nil, fun i j => iff_of_false List.not_mem_nil ?_⟩
  rintro ⟨hki, hclear, -⟩
  have hil : i < l.length := hclear.1.trans_le hclear.2.1
  have hmem : l[i] ∈ l.drop k := by
    refine List.mem_iff_getElem.mpr ⟨i - k, by simp; omega, ?_⟩
    simp [show k + (i - k) = i by omega]
  exact hclear.not_sep hil le_rfl hclear.1 (h _ hmem)

/-- The first piece, with separators before it, and the pieces after it. -/
theorem PiecesFrom.cons (hpiece : IsPiece sep l i j) (hki : k ≤ i)
    (hskip : ∀ m (hm : m < l.length), k ≤ m → m < i → sep l[m])
    (h : PiecesFrom sep l j pieces) : PiecesFrom sep l k ((i, j) :: pieces) := by
  have hij := hpiece.1.1
  refine ⟨List.pairwise_cons.mpr ⟨fun s hs => ?_, h.ordered⟩, fun i' j' => ?_⟩
  · exact hij.trans_le ((h.mem_iff s.1 s.2).mp hs).1
  · rw [List.mem_cons, h.mem_iff, Prod.mk.injEq]
    constructor
    · rintro (⟨rfl, rfl⟩ | ⟨hji, hpiece'⟩)
      · exact ⟨hki, hpiece⟩
      · exact ⟨by omega, hpiece'⟩
    · rintro ⟨hki', hpiece'⟩
      by_cases hji : j ≤ i'
      · exact Or.inr ⟨hji, hpiece'⟩
      · have hlt := hpiece'.1.1
        have hii : i ≤ i' := by
          by_contra hbefore
          have hl : i' < l.length := hlt.trans_le hpiece'.1.2.1
          exact hpiece'.1.not_sep hl le_rfl hlt (hskip i' hl hki' (by omega))
        obtain ⟨rfl, rfl⟩ := hpiece.eq_of_overlap hpiece' (by omega) (by omega)
        exact Or.inl ⟨rfl, rfl⟩

theorem exists_dropWhile (q : α → Bool) (hk : k ≤ l.length) : ∃ i, k ≤ i ∧ i ≤ l.length ∧
    (l.drop k).takeWhile q = l.extract k i ∧ (l.drop k).dropWhile q = l.drop i ∧
      (∀ m (hm : m < l.length), k ≤ m → m < i → q l[m] = true) ∧
      ∀ hi : i < l.length, q l[i] = false := by
  let n := (l.drop k).findIdx fun a => !q a
  have hn : n ≤ l.length - k := by
    rw [← List.length_drop]
    exact List.findIdx_le_length
  refine ⟨k + n, by omega, by omega, ?_, ?_, fun m hm hkm hmn => ?_, fun hi => ?_⟩
  · rw [List.takeWhile_eq_take_findIdx_not, List.extract_eq_take_drop, Nat.add_sub_cancel_left]
  · rw [List.dropWhile_eq_drop_findIdx_not, List.drop_drop]
  · have hlt : m - k < n := by omega
    have hnot := List.not_of_lt_findIdx hlt
    simpa [show k + (m - k) = m by omega] using hnot
  · have hlt : n < (l.drop k).length := by
      rw [List.length_drop]
      omega
    have hfound := List.findIdx_getElem (w := hlt)
    simpa using hfound

/-- Drop the separators at the front, and take what is before the next separator: it
is the first piece from `k` on, if no piece goes over `k`. -/
theorem PiecesFrom.cons_drop [DecidablePred sep] (hstart : k = 0 ∨ ∀ hk : k < l.length, sep l[k])
    (hrest : (l.drop k).dropWhile (sep ·) = rest) (hne : rest ≠ []) :
    ∃ i j, rest.takeWhile (¬ sep ·) = l.extract i j ∧ rest.dropWhile (¬ sep ·) = l.drop j ∧
      k < j ∧ (∀ hj : j < l.length, sep l[j]) ∧
      ∀ pieces, PiecesFrom sep l j pieces → PiecesFrom sep l k ((i, j) :: pieces) := by
  have hk : k ≤ l.length := by
    by_contra hlt
    rw [List.drop_of_length_le (by omega)] at hrest
    exact hne hrest.symm
  obtain ⟨i, hki, hil, -, hdrop, hskip, hfound⟩ := exists_dropWhile (sep ·) hk
  obtain ⟨j, hij, hjl, htake, hdrop', hclear, hstop⟩ := exists_dropWhile (¬ sep ·) hil
  simp only [decide_eq_true_eq, decide_eq_false_iff_not, not_not] at hskip hfound hclear hstop
  obtain rfl : l.drop i = rest := hdrop.symm.trans hrest
  have hi : i < l.length := by
    by_contra hlt
    exact hne (List.drop_of_length_le (by omega))
  have hlt : i < j := by
    by_contra hle
    obtain rfl : i = j := by omega
    exact hfound hi (hstop hi)
  have hpiece : IsPiece sep l i j := by
    refine .of_bounds (clear_iff.mpr ⟨hlt, hjl, hclear⟩) (fun m hm hmi => ?_) hstop
    by_cases hkm : k ≤ m
    · exact hskip m hm hkm (by omega)
    · obtain rfl : k = i := by omega
      rcases hstart with rfl | hsep
      · omega
      · exact absurd (hsep hi) (hfound hi)
  exact ⟨i, j, htake, hdrop', by omega, hstop, fun pieces h => h.cons hpiece hki hskip⟩

end Pieces
