import Mathlib.Data.Set.Function
import Mathlib.Order.Lattice

/-!
# Keeping the closest candidate

One candidate is held at a time, and a newcomer takes its place unless it ranks
farther. After any number of newcomers the one held ranks least
(`rank_keepAll_le`), and which one that is depends neither on their order nor on
repetitions, as long as the rank tells the newcomers apart
(`keepAll_eq_of_mem_iff`). The candidate held at the start need not be told
apart: a newcomer of the same rank takes its place whenever it comes.
-/

namespace Closest

variable {α β : Type*} [LinearOrder β] (rank : α → β)

/-- The newcomer `c`, unless it ranks farther than the candidate held. -/
def keep (held c : α) : α := if rank c ≤ rank held then c else held

def keepAll (held : α) (cs : List α) : α := cs.foldl (keep rank) held

/-- `c` is one of the candidates, and none of them ranks before it. -/
def IsClosest (cs : List α) (c : α) : Prop := c ∈ cs ∧ ∀ d ∈ cs, rank c ≤ rank d

variable {rank} {held c : α} {cs ds : List α}

@[simp] theorem keepAll_nil : keepAll rank held [] = held := rfl

@[simp] theorem keepAll_cons : keepAll rank held (c :: cs) = keepAll rank (keep rank held c) cs :=
  rfl

variable (rank) in
theorem keep_eq_or (held c : α) : keep rank held c = c ∨ keep rank held c = held := by
  unfold keep
  split
  · exact Or.inl rfl
  · exact Or.inr rfl

theorem rank_keep_le (held c : α) : rank (keep rank held c) ≤ rank held := by
  unfold keep
  split
  · assumption
  · exact le_rfl

theorem rank_keep_le_new (held c : α) : rank (keep rank held c) ≤ rank c := by
  unfold keep
  split
  · exact le_rfl
  · exact (lt_of_not_ge ‹_›).le

variable (rank) in
theorem keepAll_mem (held : α) (cs : List α) : keepAll rank held cs ∈ held :: cs := by
  induction cs generalizing held with
  | nil => simp
  | cons c cs ih =>
      rw [keepAll_cons]
      rcases List.mem_cons.mp (ih (keep rank held c)) with h | h
      · rw [h]
        rcases keep_eq_or rank held c with hk | hk <;> simp [hk]
      · exact List.mem_cons_of_mem _ (List.mem_cons_of_mem _ h)

theorem rank_keepAll_le (held : α) (cs : List α) :
    ∀ c ∈ held :: cs, rank (keepAll rank held cs) ≤ rank c := by
  induction cs generalizing held with
  | nil => simp
  | cons d cs ih =>
      intro c hc
      have hkeep := ih (keep rank held d) (keep rank held d) List.mem_cons_self
      rw [keepAll_cons]
      rcases List.mem_cons.mp hc with rfl | hc
      · exact hkeep.trans (rank_keep_le c d)
      · rcases List.mem_cons.mp hc with rfl | hc
        · exact hkeep.trans (rank_keep_le_new held c)
        · exact ih (keep rank held d) c (List.mem_cons_of_mem _ hc)

variable (rank) in
theorem isClosest_keepAll (held : α) (cs : List α) :
    IsClosest rank (held :: cs) (keepAll rank held cs) :=
  ⟨keepAll_mem rank held cs, rank_keepAll_le held cs⟩

theorem keepAll_mem_of_le (hc : c ∈ cs) (hle : rank c ≤ rank held) :
    keepAll rank held cs ∈ cs := by
  induction cs generalizing held with
  | nil => simp at hc
  | cons d cs ih =>
      rw [keepAll_cons]
      rcases List.mem_cons.mp hc with rfl | hc
      · have hkeep : keep rank held c = c := if_pos hle
        rw [hkeep]
        exact keepAll_mem rank c cs
      · by_cases hd : rank d ≤ rank held
        · have hkeep : keep rank held d = d := if_pos hd
          rw [hkeep]
          exact keepAll_mem rank d cs
        · have hkeep : keep rank held d = held := if_neg hd
          rw [hkeep]
          exact List.mem_cons_of_mem _ (ih hc hle)

variable (rank held) in
/-- The same newcomers, in any order and however often, leave the same rank. -/
theorem rank_keepAll_eq_of_mem_iff (hsame : ∀ c, c ∈ cs ↔ c ∈ ds) :
    rank (keepAll rank held cs) = rank (keepAll rank held ds) := by
  have hmem : ∀ c, c ∈ held :: cs ↔ c ∈ held :: ds := fun c => by
    rw [List.mem_cons, List.mem_cons, hsame]
  exact le_antisymm
    (rank_keepAll_le held cs _ ((hmem _).mpr (keepAll_mem rank held ds)))
    (rank_keepAll_le held ds _ ((hmem _).mp (keepAll_mem rank held cs)))

theorem keepAll_eq_of_mem_iff (hinj : Set.InjOn rank {c | c ∈ cs})
    (hsame : ∀ c, c ∈ cs ↔ c ∈ ds) : keepAll rank held cs = keepAll rank held ds := by
  have hrank := rank_keepAll_eq_of_mem_iff rank held hsame
  by_cases hclose : ∃ c ∈ cs, rank c ≤ rank held
  · obtain ⟨c, hc, hle⟩ := hclose
    exact hinj (keepAll_mem_of_le hc hle)
      ((hsame _).mpr (keepAll_mem_of_le ((hsame c).mp hc) hle)) hrank
  · have hstay : ∀ es : List α, (∀ c, c ∈ es → c ∈ cs) → keepAll rank held es = held := by
      intro es hes
      rcases List.mem_cons.mp (keepAll_mem rank held es) with h | h
      · exact h
      · exact absurd ⟨_, hes _ h, rank_keepAll_le held es held List.mem_cons_self⟩ hclose
    rw [hstay cs fun c hc => hc, hstay ds fun c hc => (hsame c).mpr hc]

end Closest
