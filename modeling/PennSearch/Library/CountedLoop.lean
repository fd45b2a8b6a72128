import Mathlib.Data.BitVec
import Mathlib.Data.List.FinRange

/-!
# Loops over a counter of bounded width

`for (i = 0; i < n; i++)` where `i` has `w` bits and `n` need not fit in them. The
counter wraps around, so that such a loop ends exactly when `n < 2 ^ w`: then it
is the fold over `0, …, n - 1` (`counted_eq_foldlM`), and otherwise no number of
iterations is enough (`run_of_le`).
-/

namespace CountedLoop

universe u v

variable {m : Type u → Type v} [Monad m] {α : Type*} {σ : Type u} {w n : ℕ}

/-- The loop from a counter value on, while `fuel` tests of its condition last;
`stuck` stands for a loop that has not ended by then. -/
def run (w n : ℕ) (body : Fin n → σ → m σ) (stuck : m σ) : ℕ → BitVec w → σ → m σ
  | 0, _, _ => stuck
  | fuel + 1, i, s =>
      if h : i.toNat < n then
        body ⟨i.toNat, h⟩ s >>= run w n body stuck fuel (i + 1)
      else
        pure s

/-- The loop from 0: after `2 ^ w` iterations the counter is 0 again. -/
def counted (w n : ℕ) (body : Fin n → σ → m σ) (stuck : m σ) (s : σ) : m σ :=
  run w n body stuck (2 ^ w + 1) 0 s

def overList (w : ℕ) (l : List α) (body : α → σ → m σ) (stuck : m σ) (s : σ) : m σ :=
  counted w l.length (fun i => body l[i]) stuck s

variable {body : Fin n → σ → m σ} {stuck : m σ}

theorem drop_finRange {k : ℕ} (hk : k < n) :
    (List.finRange n).drop k = ⟨k, hk⟩ :: (List.finRange n).drop (k + 1) := by
  rw [List.drop_eq_getElem_cons (by simpa using hk), List.getElem_finRange]
  rfl

/-- With enough fuel the loop visits the indices from its counter on. -/
theorem run_eq_foldlM (hn : n < 2 ^ w) {fuel k : ℕ} (hk : k ≤ n) (hfuel : n < k + fuel) (s : σ) :
    run w n body stuck fuel (BitVec.ofNat w k) s =
      ((List.finRange n).drop k).foldlM (fun s i => body i s) s := by
  induction fuel generalizing k s with
  | zero => omega
  | succ fuel ih =>
      have hcount : (BitVec.ofNat w k).toNat = k := by
        rw [BitVec.toNat_ofNat]
        exact Nat.mod_eq_of_lt (hk.trans_lt hn)
      have hnext : BitVec.ofNat w k + 1 = BitVec.ofNat w (k + 1) :=
        (BitVec.ofNat_add k 1).symm
      rw [run]
      by_cases hlt : k < n
      · rw [dif_pos (hcount.symm ▸ hlt), drop_finRange hlt, List.foldlM_cons, hnext]
        simp only [hcount]
        congr 1
        funext s'
        apply ih hlt
        omega
      · rw [dif_neg (hcount.symm ▸ hlt), List.drop_of_length_le (by simp; omega)]
        rfl

theorem counted_eq_foldlM (hn : n < 2 ^ w) (s : σ) :
    counted w n body stuck s = (List.finRange n).foldlM (fun s i => body i s) s := by
  have h : run w n body stuck (2 ^ w + 1) (BitVec.ofNat w 0) s =
      ((List.finRange n).drop 0).foldlM (fun s i => body i s) s :=
    run_eq_foldlM hn n.zero_le (by omega) s
  simpa [counted] using h

/-- A counter that cannot reach the bound never leaves the loop. -/
theorem run_of_le [LawfulMonad m] (hn : 2 ^ w ≤ n) (hbody : ∀ i s, ∃ s', body i s = pure s')
    (fuel : ℕ) (i : BitVec w) (s : σ) : run w n body stuck fuel i s = stuck := by
  induction fuel generalizing i s with
  | zero => rfl
  | succ fuel ih =>
      obtain ⟨s', hs'⟩ := hbody ⟨i.toNat, i.isLt.trans_le hn⟩ s
      rw [run, dif_pos (i.isLt.trans_le hn), hs', pure_bind]
      exact ih (i + 1) s'

section List

variable {l : List α} {body : α → σ → m σ}

theorem run_list_eq_foldlM (hl : l.length < 2 ^ w) {fuel : ℕ} (hfuel : l.length < fuel) (s : σ) :
    run w l.length (fun i => body l[i]) stuck fuel 0 s = l.foldlM (fun s a => body a s) s := by
  have hrun : run w l.length (fun i => body l[i]) stuck fuel (BitVec.ofNat w 0) s =
      ((List.finRange l.length).drop 0).foldlM (fun s i => body l[i] s) s :=
    run_eq_foldlM hl l.length.zero_le (by omega) s
  have hmap : (List.finRange l.length).map l.get = l := List.map_get_finRange l
  refine hrun.trans ?_
  conv_rhs => rw [← hmap]
  rw [List.foldlM_map]
  rfl

theorem overList_eq_foldlM (hl : l.length < 2 ^ w) (s : σ) :
    overList w l body stuck s = l.foldlM (fun s a => body a s) s :=
  run_list_eq_foldlM hl (by omega) s

theorem overList_of_le [LawfulMonad m] (hl : 2 ^ w ≤ l.length)
    (hbody : ∀ a s, ∃ s', body a s = pure s') (s : σ) : overList w l body stuck s = stuck :=
  run_of_le hl (fun i => hbody l[i]) _ _ s

end List

end CountedLoop
