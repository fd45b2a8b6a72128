import Mathlib.Algebra.BigOperators.Group.Multiset.Basic
import Mathlib.Algebra.GroupWithZero.Nat
import Mathlib.Data.List.Sort
import Mathlib.Data.Multiset.UnionInter

/-!
# The intersection of two lists by sorting

`setIntersection` walks over two sorted lists and keeps what they share, an
element as often as the list that has it less often. `sortedIntersection` sorts
first. As a multiset the result is the intersection, whatever the order of the
arguments was.
-/

namespace Intersection

variable {α : Type*} [LinearOrder α]

/-- The common elements of two sorted lists, with their smaller multiplicity. -/
def setIntersection : List α → List α → List α
  | [], _ => []
  | a :: as, bs =>
      match bs.dropWhile (· < a) with
      | [] => []
      | b :: bs' => if a < b then setIntersection as (b :: bs') else a :: setIntersection as bs'

@[simp] theorem setIntersection_nil (bs : List α) : setIntersection [] bs = [] := rfl

theorem inter_dropWhile {a : α} {as : List α} (h : ∀ x ∈ a :: as, a ≤ x) (bs : List α) :
    ((a :: as : List α) : Multiset α) ∩ (bs.dropWhile (· < a) : List α) =
      ((a :: as : List α) : Multiset α) ∩ (bs : List α) := by
  induction bs with
  | nil => rfl
  | cons b bs ih =>
      by_cases hb : b < a
      · have hnot : b ∉ ((a :: as : List α) : Multiset α) := fun hmem =>
          absurd hb (not_lt.mpr (h b hmem))
        rw [List.dropWhile_cons_of_pos (by simpa using hb), ih, ← Multiset.cons_coe b bs,
          Multiset.inter_comm _ (b ::ₘ (bs : Multiset α)), Multiset.cons_inter_of_neg _ hnot,
          Multiset.inter_comm]
      · rw [List.dropWhile_cons_of_neg (by simpa using hb)]

theorem coe_setIntersection {as bs : List α} (ha : as.Pairwise (· ≤ ·))
    (hb : bs.Pairwise (· ≤ ·)) :
    (setIntersection as bs : Multiset α) = (as : Multiset α) ∩ (bs : Multiset α) := by
  induction as generalizing bs with
  | nil => simp
  | cons a as ih =>
      obtain ⟨hle, ha'⟩ := List.pairwise_cons.mp ha
      have hle' : ∀ x ∈ a :: as, a ≤ x := by simpa using hle
      rw [← inter_dropWhile hle', setIntersection]
      have hdrop : (bs.dropWhile (· < a)).Pairwise (· ≤ ·) :=
        hb.sublist (List.dropWhile_sublist _)
      cases hrest : bs.dropWhile (· < a) with
      | nil => simp
      | cons b rest =>
          have hba : a ≤ b := by
            have hhead := List.head_dropWhile_not (l := bs) (· < a) (by simp [hrest])
            simp only [hrest, List.head_cons, decide_eq_false_iff_not, not_lt] at hhead
            exact hhead
          rw [hrest] at hdrop
          obtain ⟨hrestle, hrest'⟩ := List.pairwise_cons.mp hdrop
          simp only
          split
          · rename_i hlt
            have hnot : a ∉ ((b :: rest : List α) : Multiset α) := by
              intro hmem
              rcases List.mem_cons.mp hmem with rfl | hmem
              · exact lt_irrefl _ hlt
              · exact absurd (hrestle a hmem) (not_le.mpr hlt)
            rw [ih ha' hdrop, ← Multiset.cons_coe a as, Multiset.cons_inter_of_neg _ hnot]
          · rename_i hnlt
            obtain rfl : a = b := le_antisymm hba (not_lt.mp hnlt)
            rw [← Multiset.cons_coe, ih ha' hrest', ← Multiset.cons_coe a as,
              ← Multiset.cons_coe a rest, Multiset.cons_inter_of_pos _ (Multiset.mem_cons_self a _),
              Multiset.erase_cons_head]

def sortedIntersection (as bs : List α) : List α :=
  setIntersection (as.insertionSort (· ≤ ·)) (bs.insertionSort (· ≤ ·))

theorem coe_sortedIntersection (as bs : List α) :
    (sortedIntersection as bs : Multiset α) = (as : Multiset α) ∩ (bs : Multiset α) := by
  rw [sortedIntersection, coe_setIntersection (List.pairwise_insertionSort _ _)
    (List.pairwise_insertionSort _ _)]
  exact congrArg₂ _ (Multiset.coe_eq_coe.mpr (List.perm_insertionSort _ _))
    (Multiset.coe_eq_coe.mpr (List.perm_insertionSort _ _))

@[simp] theorem mem_sortedIntersection {x : α} {as bs : List α} :
    x ∈ sortedIntersection as bs ↔ x ∈ as ∧ x ∈ bs := by
  rw [← Multiset.mem_coe, coe_sortedIntersection, Multiset.mem_inter]
  rfl

theorem sum_sortedIntersection_le (f : α → ℕ) (as bs : List α) :
    ((sortedIntersection as bs).map f).sum ≤ (bs.map f).sum := by
  have hle : (sortedIntersection as bs : Multiset α) ≤ (bs : Multiset α) := by
    rw [coe_sortedIntersection]
    exact Multiset.inter_le_right
  obtain ⟨rest, hrest⟩ := Multiset.le_iff_exists_add.mp hle
  have hsum := congrArg (fun m => (m.map f).sum) hrest
  simp only [Multiset.map_add, Multiset.sum_add, Multiset.map_coe, Multiset.sum_coe] at hsum
  omega

end Intersection
