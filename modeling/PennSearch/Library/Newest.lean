import Mathlib.Data.Set.Finite.Lemmas

/-!
# The newest record of each key

Records carry a key and a stamp, and a register keeps for each key the record with
the greatest stamp. Which records these are depends only on the set of records
seen so far (`IsNewest`): a record that is no newer than one already seen changes
nothing (`isNewest_insert_of_le`), and one that is newer than all of its key takes
their place (`isNewest_insert_of_lt`). So neither the order nor the repetition of
the records matters.
-/

namespace Newest

variable {ρ κ σ : Type*} [LinearOrder σ] (key : ρ → κ) (stamp : ρ → σ) {R : Set ρ} {r r' r₀ : ρ}

/-- No record of the same key in `R` has a greater stamp. -/
def IsNewest (R : Set ρ) (r : ρ) : Prop := r ∈ R ∧ ∀ r' ∈ R, key r' = key r → stamp r' ≤ stamp r

variable {key stamp}

theorem not_isNewest_empty : ¬ IsNewest key stamp ∅ r := fun h => h.1

theorem IsNewest.unique (hR : ∀ r ∈ R, ∀ r' ∈ R, key r = key r' → stamp r = stamp r' → r = r')
    (h : IsNewest key stamp R r) (h' : IsNewest key stamp R r') (hkey : key r = key r') : r = r' :=
  hR r h.1 r' h'.1 hkey (le_antisymm (h'.2 r h.1 hkey) (h.2 r' h'.1 hkey.symm))

theorem exists_isNewest (hR : R.Finite) (hr : r ∈ R) :
    ∃ r₀, IsNewest key stamp R r₀ ∧ key r₀ = key r := by
  obtain ⟨r₀, ⟨hmem, hkey⟩, hmax⟩ := Set.exists_max_image {r' ∈ R | key r' = key r} stamp
    (hR.subset (Set.sep_subset _ _)) ⟨r, hr, rfl⟩
  exact ⟨r₀, ⟨hmem, fun r' hr' hkey' => hmax r' ⟨hr', hkey'.trans hkey⟩⟩, hkey⟩

theorem isNewest_insert_of_lt (hlt : ∀ r' ∈ R, key r' = key r → stamp r' < stamp r) :
    IsNewest key stamp (insert r R) r' ↔
      r' = r ∨ (key r' ≠ key r ∧ IsNewest key stamp R r') := by
  constructor
  · rintro ⟨hmem, hmax⟩
    rcases hmem with rfl | hmem
    · exact Or.inl rfl
    · refine Or.inr ⟨fun hkey => ?_, hmem, fun r'' hr'' => hmax r'' (Or.inr hr'')⟩
      have hle := hmax r (Or.inl rfl) hkey.symm
      exact absurd (hlt r' hmem hkey) (not_lt_of_ge hle)
  · rintro (rfl | ⟨hkey, hmem, hmax⟩)
    · refine ⟨Or.inl rfl, ?_⟩
      rintro r'' (rfl | hr'') hkey
      · exact le_rfl
      · exact (hlt r'' hr'' hkey).le
    · refine ⟨Or.inr hmem, ?_⟩
      rintro r'' (rfl | hr'') hkey'
      · exact absurd hkey'.symm hkey
      · exact hmax r'' hr'' hkey'

theorem isNewest_insert_of_le (hmem : r₀ ∈ R) (hkey : key r₀ = key r)
    (hle : stamp r ≤ stamp r₀) (heq : stamp r = stamp r₀ → r = r₀) :
    IsNewest key stamp (insert r R) r' ↔ IsNewest key stamp R r' := by
  constructor
  · rintro ⟨hr', hmax⟩
    refine ⟨?_, fun r'' hr'' => hmax r'' (Or.inr hr'')⟩
    rcases hr' with rfl | hr'
    · -- the new record is as new as the old one, and so it is the old one
      rw [heq (le_antisymm hle (hmax r₀ (Or.inr hmem) hkey))]
      exact hmem
    · exact hr'
  · rintro ⟨hr', hmax⟩
    refine ⟨Or.inr hr', ?_⟩
    rintro r'' (rfl | hr'') hkey'
    · exact hle.trans (hmax r₀ hmem (hkey.trans hkey'))
    · exact hmax r'' hr'' hkey'

end Newest
