import Mathlib.Data.Finset.Max
import Mathlib.Data.Finset.Insert
import Mathlib.Data.Set.Function
import Mathlib.Tactic.Ring

/-!
# Positions on a circle, read clockwise

Positions are the numbers below a modulus `M`. `cwDist x y` is the clockwise
distance from `x` to `y`, zero when they agree; `cwTurn x y` is the same
distance with a full turn in the place of zero, so that a point standing alone
is its own next point. `InArc a b t` says that `t` lies on the closed clockwise
arc from `a` to `b`, the whole circle when the end points agree.

The second half reads a finite set of members on the circle: `IsNext R a b`
says that `b` is the first member met after leaving `a`, and `IsOwner R t b`
that `b` is the first member at or after the position `t`. Both are stated as
minimality, so that existence, uniqueness and the effect of inserting or
erasing one member are lemmas about distances.
-/

namespace Clockwise

variable {M : ℕ}

def cwDist (x y : Fin M) : ℕ := (y.val + (M - x.val)) % M

/-- The clockwise distance from `x` to `y`, a full turn when they agree. -/
def cwTurn (x y : Fin M) : ℕ := if x = y then M else cwDist x y

/-- The closed clockwise arc from `a` to `b`; the whole circle when `a = b`. -/
def InArc (a b t : Fin M) : Prop := a = b ∨ cwDist a t ≤ cwDist a b

instance (a b t : Fin M) : Decidable (InArc a b t) := inferInstanceAs (Decidable (_ ∨ _))

/-- The two readings of the distance, with the bounds that linear arithmetic
needs about both positions. -/
theorem cwDist_cases (x y : Fin M) :
    x.val < M ∧ y.val < M ∧
      ((x.val ≤ y.val ∧ cwDist x y + x.val = y.val) ∨
        (y.val < x.val ∧ cwDist x y + x.val = M + y.val)) := by
  have hx := x.isLt
  have hy := y.isLt
  refine ⟨hx, hy, ?_⟩
  unfold cwDist
  by_cases h : x.val ≤ y.val
  · have hsum : y.val + (M - x.val) = M + (y.val - x.val) := by omega
    have hmod : (M + (y.val - x.val)) % M = y.val - x.val := by
      rw [Nat.add_mod_left, Nat.mod_eq_of_lt (by omega)]
    left
    rw [hsum, hmod]
    omega
  · have hmod : (y.val + (M - x.val)) % M = y.val + (M - x.val) :=
      Nat.mod_eq_of_lt (by omega)
    right
    rw [hmod]
    omega

theorem cwDist_eq_sub (x y : Fin M) : cwDist x y = (y - x).val := by
  rw [Fin.sub_def, cwDist, Nat.add_comm]

theorem cwTurn_cases (x y : Fin M) :
    (x.val = y.val ∧ cwTurn x y = M) ∨ (x.val ≠ y.val ∧ cwTurn x y = cwDist x y) := by
  by_cases h : x = y
  · exact Or.inl ⟨congrArg Fin.val h, by simp [cwTurn, h]⟩
  · exact Or.inr ⟨fun hv => h (Fin.ext hv), by simp [cwTurn, h]⟩

@[simp] theorem cwDist_self (x : Fin M) : cwDist x x = 0 := by
  have h := cwDist_cases x x
  omega

@[simp] theorem cwTurn_self (x : Fin M) : cwTurn x x = M := by
  simp [cwTurn]

theorem cwTurn_of_ne {x y : Fin M} (h : x ≠ y) : cwTurn x y = cwDist x y := by
  simp [cwTurn, h]

theorem cwDist_lt (x y : Fin M) : cwDist x y < M := by
  have h := cwDist_cases x y
  omega

theorem cwDist_inj_right {x y z : Fin M} (h : cwDist x y = cwDist x z) : y = z := by
  have hy := cwDist_cases x y
  have hz := cwDist_cases x z
  exact Fin.ext (by omega)

theorem cwTurn_inj_right {x y z : Fin M} (h : cwTurn x y = cwTurn x z) : y = z := by
  have hy := cwDist_cases x y
  have hz := cwDist_cases x z
  have hy' := cwTurn_cases x y
  have hz' := cwTurn_cases x z
  exact Fin.ext (by omega)

theorem cwTurn_inj_left {x y z : Fin M} (h : cwTurn x z = cwTurn y z) : x = y := by
  have hx := cwDist_cases x z
  have hy := cwDist_cases y z
  have hx' := cwTurn_cases x z
  have hy' := cwTurn_cases y z
  exact Fin.ext (by omega)

theorem cwTurn_le (x y : Fin M) : cwTurn x y ≤ M := by
  have h := cwDist_lt x y
  have h' := cwTurn_cases x y
  omega

theorem cwTurn_lt_iff {x y : Fin M} : cwTurn x y < M ↔ x ≠ y := by
  have h := cwDist_lt x y
  constructor
  · rintro hlt rfl
    simp at hlt
  · intro hne
    rw [cwTurn_of_ne hne]
    exact h

/-- A branch on the order of the end points, as it is written with byte-wise
comparisons, decides the closed arc. -/
theorem inArc_iff_branch (a b t : Fin M) :
    (if b ≤ a then a ≤ t ∨ t ≤ b else t ≤ b ∧ a ≤ t) ↔ InArc a b t := by
  have hb := cwDist_cases a b
  have ht := cwDist_cases a t
  have hab : a = b ↔ a.val = b.val := Fin.ext_iff
  unfold InArc
  simp only [hab, Fin.le_def]
  split <;> omega

theorem inArc_left (a b : Fin M) : InArc a b a := by
  simp [InArc]

theorem inArc_right (a b : Fin M) : InArc a b b := by
  simp [InArc]

@[simp] theorem inArc_self (a t : Fin M) : InArc a a t := Or.inl rfl

theorem inArc_iff_cwTurn {a b t : Fin M} : InArc a b t ↔ cwDist a t ≤ cwTurn a b := by
  have ht := cwDist_lt a t
  by_cases h : a = b
  · subst h
    simp [ht.le]
  · simp [InArc, h, cwTurn_of_ne h]

theorem cwDist_lt_of_inArc {a t f : Fin M} (hf : InArc a t f) (hat : a ≠ t) (hfa : f ≠ a) :
    cwDist f t < cwDist a t := by
  have h₁ := cwDist_cases a f
  have h₂ := cwDist_cases a t
  have h₃ := cwDist_cases f t
  have hne : f.val ≠ a.val := fun h => hfa (Fin.ext h)
  have hle : cwDist a f ≤ cwDist a t := hf.resolve_left hat
  omega

theorem cwDist_lt_of_not_inArc {a b t : Fin M} (h : ¬ InArc a b t) :
    cwDist b t < cwDist a t := by
  have h₁ := cwDist_cases a b
  have h₂ := cwDist_cases a t
  have h₃ := cwDist_cases b t
  obtain ⟨hab, hlt⟩ := not_or.mp h
  have hne : a.val ≠ b.val := fun h => hab (Fin.ext h)
  omega

theorem cwTurn_le_of_inArc {a b p : Fin M} (h : InArc a b p) (hp : p ≠ a) :
    cwTurn a p ≤ cwTurn a b := by
  rw [cwTurn_of_ne (Ne.symm hp)]
  exact inArc_iff_cwTurn.mp h

theorem inArc_of_cwTurn_le {a b p : Fin M} (h : cwTurn p b ≤ cwTurn a b) (hp : p ≠ b) :
    InArc a b p := by
  rw [inArc_iff_cwTurn]
  have hne : p.val ≠ b.val := fun hv => hp (Fin.ext hv)
  have h₁ := cwDist_cases a b
  have h₂ := cwDist_cases a p
  have h₃ := cwDist_cases p b
  have h₄ := cwTurn_cases a b
  have h₅ := cwTurn_cases p b
  omega

theorem cwTurn_lt_of_cwTurn_le {a b l : Fin M} (h : cwTurn a b ≤ cwTurn a l) (hba : b ≠ a)
    (hbl : b ≠ l) : cwTurn b l < cwTurn a l := by
  have hba' : b.val ≠ a.val := fun hv => hba (Fin.ext hv)
  have hbl' : b.val ≠ l.val := fun hv => hbl (Fin.ext hv)
  have d₁ := cwDist_cases a b
  have d₂ := cwDist_cases a l
  have d₃ := cwDist_cases b l
  have t₁ := cwTurn_cases a b
  have t₂ := cwTurn_cases a l
  have t₃ := cwTurn_cases b l
  omega

theorem cwTurn_le_of_inArc_left {a b p : Fin M} (h : InArc a b p) (hp : p ≠ b) :
    cwTurn p b ≤ cwTurn a b := by
  have h₁ := cwDist_cases a b
  have h₂ := cwDist_cases a p
  have h₃ := cwDist_cases p b
  have h₄ := cwTurn_cases a b
  have h₅ := cwTurn_cases p b
  have hne : p.val ≠ b.val := fun h => hp (Fin.ext h)
  have hle := inArc_iff_cwTurn.mp h
  omega

/-- An arc that ends no later than `l` does so too when it is cut short at its
start, by a point inside it. -/
theorem cwTurn_le_cwTurn_of_inArc {a b l x : Fin M} (h : cwTurn a b ≤ cwTurn a l)
    (hx : InArc a b x) (hxa : x ≠ a) (hxb : x ≠ b) : cwTurn x b ≤ cwTurn x l := by
  have h₁ := inArc_iff_cwTurn.mp hx
  have hxa' : x.val ≠ a.val := fun hv => hxa (Fin.ext hv)
  have hxb' : x.val ≠ b.val := fun hv => hxb (Fin.ext hv)
  have d₁ := cwDist_cases a b
  have d₂ := cwDist_cases a l
  have d₃ := cwDist_cases a x
  have d₄ := cwDist_cases x b
  have d₅ := cwDist_cases x l
  have t₁ := cwTurn_cases a b
  have t₂ := cwTurn_cases a l
  have t₃ := cwTurn_cases x b
  have t₄ := cwTurn_cases x l
  omega

/-- A point off the arc is farther behind its end than its start is. -/
theorem cwTurn_le_of_not_inArc {a b x : Fin M} (h : ¬ InArc a b x) :
    cwTurn a b ≤ cwTurn x b := by
  rw [inArc_iff_cwTurn] at h
  have d₁ := cwDist_cases a b
  have d₂ := cwDist_cases a x
  have d₃ := cwDist_cases x b
  have t₁ := cwTurn_cases a b
  have t₂ := cwTurn_cases x b
  omega

section Members

variable {α : Type*} (pos : α → Fin M)

/-- `b` is the first member of `R` met after leaving `a` clockwise; `a` itself
when no other member is there. -/
def IsNext (R : Finset α) (a b : α) : Prop :=
  b ∈ R ∧ ∀ c ∈ R, cwTurn (pos a) (pos b) ≤ cwTurn (pos a) (pos c)

/-- `b` is the first member of `R` at or after the position `t`. -/
def IsOwner (R : Finset α) (t : Fin M) (b : α) : Prop :=
  b ∈ R ∧ ∀ c ∈ R, cwDist t (pos b) ≤ cwDist t (pos c)

/-- `b` is the last member of `R` at or before the position `t`. -/
def IsLast (R : Finset α) (t : Fin M) (b : α) : Prop :=
  b ∈ R ∧ ∀ c ∈ R, cwDist (pos b) t ≤ cwDist (pos c) t

instance [DecidableEq α] (R : Finset α) (a b : α) : Decidable (IsNext pos R a b) :=
  inferInstanceAs (Decidable (_ ∧ _))

instance [DecidableEq α] (R : Finset α) (t : Fin M) (b : α) :
    Decidable (IsOwner pos R t b) :=
  inferInstanceAs (Decidable (_ ∧ _))

variable {pos} {R : Finset α}

theorem exists_isNext (hR : R.Nonempty) (a : α) : ∃ b, IsNext pos R a b := by
  obtain ⟨b, hb, hmin⟩ := R.exists_min_image (fun c => cwTurn (pos a) (pos c)) hR
  exact ⟨b, hb, hmin⟩

theorem exists_isOwner (hR : R.Nonempty) (t : Fin M) : ∃ b, IsOwner pos R t b := by
  obtain ⟨b, hb, hmin⟩ := R.exists_min_image (fun c => cwDist t (pos c)) hR
  exact ⟨b, hb, hmin⟩

theorem exists_isLast (hR : R.Nonempty) (t : Fin M) : ∃ b, IsLast pos R t b := by
  obtain ⟨b, hb, hmin⟩ := R.exists_min_image (fun c => cwDist (pos c) t) hR
  exact ⟨b, hb, hmin⟩

theorem IsNext.unique (hinj : Set.InjOn pos R) {a b c : α}
    (hb : IsNext pos R a b) (hc : IsNext pos R a c) : b = c :=
  hinj hb.1 hc.1 (cwTurn_inj_right (le_antisymm (hb.2 c hc.1) (hc.2 b hb.1)))

theorem IsOwner.unique (hinj : Set.InjOn pos R) {t : Fin M} {b c : α}
    (hb : IsOwner pos R t b) (hc : IsOwner pos R t c) : b = c :=
  hinj hb.1 hc.1 (cwDist_inj_right (le_antisymm (hb.2 c hc.1) (hc.2 b hb.1)))

theorem isOwner_pos {a : α} (ha : a ∈ R) : IsOwner pos R (pos a) a :=
  ⟨ha, fun c _ => by simp⟩

theorem IsLast.cwDist_add {a b c : α} {t : Fin M} (h : IsLast pos R t b) (ha : a ∈ R)
    (hc : c ∈ R) (harc : cwDist (pos a) (pos c) ≤ cwDist (pos a) t) :
    cwDist (pos a) (pos c) + cwDist (pos c) (pos b) = cwDist (pos a) (pos b) := by
  have h₁ := h.2 a ha
  have h₂ := h.2 c hc
  have d₁ := cwDist_cases (pos a) (pos c)
  have d₂ := cwDist_cases (pos a) (pos b)
  have d₃ := cwDist_cases (pos c) (pos b)
  have d₄ := cwDist_cases (pos a) t
  have d₅ := cwDist_cases (pos c) t
  have d₆ := cwDist_cases (pos b) t
  omega

theorem IsNext.prev_unique (hinj : Set.InjOn pos R) {a a' b : α} (ha : a ∈ R) (ha' : a' ∈ R)
    (h : IsNext pos R a b) (h' : IsNext pos R a' b) : a = a' := by
  by_contra hne
  have hpos : (pos a).val ≠ (pos a').val := fun hv => hne (hinj ha ha' (Fin.ext hv))
  have h₁ := h.2 a' ha'
  have h₂ := h'.2 a ha
  have d₁ := cwDist_cases (pos a) (pos b)
  have d₂ := cwDist_cases (pos a') (pos b)
  have d₃ := cwDist_cases (pos a) (pos a')
  have d₄ := cwDist_cases (pos a') (pos a)
  have t₁ := cwTurn_cases (pos a) (pos b)
  have t₂ := cwTurn_cases (pos a') (pos b)
  have t₃ := cwTurn_cases (pos a) (pos a')
  have t₄ := cwTurn_cases (pos a') (pos a)
  omega

theorem exists_isNext_to {b : α} (hb : b ∈ R) : ∃ a ∈ R, IsNext pos R a b := by
  obtain ⟨a, ha, hmin⟩ := R.exists_min_image (fun c => cwTurn (pos c) (pos b)) ⟨b, hb⟩
  refine ⟨a, ha, hb, fun c hc => ?_⟩
  have h₁ := hmin c hc
  have h₂ := hmin b hb
  have d₁ := cwDist_cases (pos a) (pos b)
  have d₂ := cwDist_cases (pos c) (pos b)
  have d₃ := cwDist_cases (pos a) (pos c)
  have t₁ := cwTurn_cases (pos a) (pos b)
  have t₂ := cwTurn_cases (pos c) (pos b)
  have t₃ := cwTurn_cases (pos a) (pos c)
  have t₄ := cwTurn_self (pos b)
  omega

theorem IsNext.eq_of_inArc (hinj : Set.InjOn pos R) {a b v : α} (h : IsNext pos R a b)
    (hv : v ∈ R) (harc : InArc (pos a) (pos b) (pos v)) (hne : pos v ≠ pos a) : v = b :=
  hinj hv h.1 (cwTurn_inj_right (le_antisymm (cwTurn_le_of_inArc harc hne) (h.2 v hv)))

theorem IsNext.inArc_of_mem {a b p : α} (h : IsNext pos R a b) (hp : p ∈ R) :
    InArc (pos p) (pos b) (pos a) := by
  rw [inArc_iff_cwTurn]
  have h₁ := h.2 p hp
  have d₁ := cwDist_cases (pos a) (pos b)
  have d₂ := cwDist_cases (pos a) (pos p)
  have d₃ := cwDist_cases (pos p) (pos b)
  have d₄ := cwDist_cases (pos p) (pos a)
  have t₁ := cwTurn_cases (pos a) (pos b)
  have t₂ := cwTurn_cases (pos a) (pos p)
  have t₃ := cwTurn_cases (pos p) (pos b)
  omega

/-- A member that is its own next member is the only position taken. -/
theorem IsNext.pos_eq_of_self {a c : α} (h : IsNext pos R a a) (hc : c ∈ R) :
    pos a = pos c := by
  have h₁ := h.2 c hc
  by_contra hne
  have h₂ := cwTurn_lt_iff.mpr hne
  rw [cwTurn_self] at h₁
  omega

/-- The member that ends an arc of the ring owns every position on it, except
the start of a proper arc. -/
theorem IsNext.isOwner {a b : α} {t : Fin M} (h : IsNext pos R a b)
    (ht : InArc (pos a) (pos b) t) (hne : pos a = t → pos a = pos b) :
    IsOwner pos R t b := by
  refine ⟨h.1, fun c hc => ?_⟩
  have h₁ := h.2 c hc
  have h₂ := inArc_iff_cwTurn.mp ht
  have hne' : (pos a).val = t.val → (pos a).val = (pos b).val :=
    fun hv => congrArg Fin.val (hne (Fin.ext hv))
  have d₁ := cwDist_cases (pos a) (pos b)
  have d₂ := cwDist_cases (pos a) (pos c)
  have d₃ := cwDist_cases (pos a) t
  have d₄ := cwDist_cases t (pos b)
  have d₅ := cwDist_cases t (pos c)
  have t₁ := cwTurn_cases (pos a) (pos b)
  have t₂ := cwTurn_cases (pos a) (pos c)
  omega

theorem IsOwner.of_inArc {b : α} {t t' : Fin M} (h : IsOwner pos R t b)
    (ht : InArc t (pos b) t') (hne : t ≠ pos b) : IsOwner pos R t' b := by
  refine ⟨h.1, fun c hc => ?_⟩
  have h₁ := h.2 c hc
  have h₂ := ht.resolve_left hne
  have d₁ := cwDist_cases t (pos b)
  have d₂ := cwDist_cases t (pos c)
  have d₃ := cwDist_cases t t'
  have d₄ := cwDist_cases t' (pos b)
  have d₅ := cwDist_cases t' (pos c)
  omega

theorem IsOwner.inArc {a b : α} {t : Fin M} (h : IsOwner pos R t b) (ha : a ∈ R) :
    InArc (pos a) (pos b) t := by
  rw [inArc_iff_cwTurn]
  have h₁ := h.2 a ha
  have d₁ := cwDist_cases (pos a) (pos b)
  have d₃ := cwDist_cases (pos a) t
  have d₄ := cwDist_cases t (pos b)
  have d₅ := cwDist_cases t (pos a)
  have t₁ := cwTurn_cases (pos a) (pos b)
  omega

variable [DecidableEq α]

theorem IsNext.insert_new {a b x : α} (h : IsNext pos R a b)
    (hx : InArc (pos a) (pos b) (pos x)) (hxa : pos x ≠ pos a) :
    IsNext pos (insert x R) a x := by
  refine ⟨Finset.mem_insert_self x R, fun c hc => ?_⟩
  rcases Finset.mem_insert.mp hc with rfl | hc
  · exact le_rfl
  · exact (cwTurn_le_of_inArc hx hxa).trans (h.2 c hc)

theorem IsNext.insert_from_new {a b x : α} (h : IsNext pos R a b)
    (hx : InArc (pos a) (pos b) (pos x)) (hxa : pos x ≠ pos a) (hxb : pos x ≠ pos b) :
    IsNext pos (insert x R) x b := by
  refine ⟨Finset.mem_insert_of_mem h.1, fun c hc => ?_⟩
  have h₁ := inArc_iff_cwTurn.mp hx
  have hxa' : (pos x).val ≠ (pos a).val := fun hv => hxa (Fin.ext hv)
  have hxb' : (pos x).val ≠ (pos b).val := fun hv => hxb (Fin.ext hv)
  rcases Finset.mem_insert.mp hc with rfl | hc
  · rw [cwTurn_self]
    exact cwTurn_le _ _
  · have h₂ := h.2 c hc
    have d₁ := cwDist_cases (pos a) (pos b)
    have d₂ := cwDist_cases (pos a) (pos c)
    have d₃ := cwDist_cases (pos a) (pos x)
    have d₄ := cwDist_cases (pos x) (pos b)
    have d₅ := cwDist_cases (pos x) (pos c)
    have t₁ := cwTurn_cases (pos a) (pos b)
    have t₂ := cwTurn_cases (pos a) (pos c)
    have t₃ := cwTurn_cases (pos x) (pos b)
    have t₄ := cwTurn_cases (pos x) (pos c)
    omega

theorem IsNext.insert_other {a b x m s : α} (h : IsNext pos R a b) (ha : a ∈ R)
    (hx : InArc (pos a) (pos b) (pos x)) (hma : pos m ≠ pos a) (hm : m ∈ R)
    (hms : IsNext pos R m s) : IsNext pos (insert x R) m s := by
  refine ⟨Finset.mem_insert_of_mem hms.1, fun c hc => ?_⟩
  rcases Finset.mem_insert.mp hc with rfl | hc
  · have hma' : (pos m).val ≠ (pos a).val := fun hv => hma (Fin.ext hv)
    have h₁ := inArc_iff_cwTurn.mp hx
    have h₂ := h.2 m hm
    have h₃ := hms.2 a ha
    have d₁ := cwDist_cases (pos a) (pos b)
    have d₂ := cwDist_cases (pos a) (pos m)
    have d₃ := cwDist_cases (pos a) (pos c)
    have d₄ := cwDist_cases (pos m) (pos s)
    have d₅ := cwDist_cases (pos m) (pos a)
    have d₆ := cwDist_cases (pos m) (pos c)
    have t₁ := cwTurn_cases (pos a) (pos b)
    have t₂ := cwTurn_cases (pos a) (pos m)
    have t₄ := cwTurn_cases (pos m) (pos s)
    have t₅ := cwTurn_cases (pos m) (pos a)
    have t₆ := cwTurn_cases (pos m) (pos c)
    omega
  · exact hms.2 c hc

theorem IsNext.erase_between (hinj : Set.InjOn pos R) {p x s : α} (hpx : IsNext pos R p x)
    (hxs : IsNext pos R x s) (hsx : s ≠ x) : IsNext pos (R.erase x) p s := by
  refine ⟨Finset.mem_erase.mpr ⟨hsx, hxs.1⟩, fun c hc => ?_⟩
  have hcR := Finset.mem_of_mem_erase hc
  have hcx : (pos c).val ≠ (pos x).val :=
    fun hv => Finset.ne_of_mem_erase hc (hinj hcR hpx.1 (Fin.ext hv))
  have hsx' : (pos s).val ≠ (pos x).val := fun hv => hsx (hinj hxs.1 hpx.1 (Fin.ext hv))
  have h₁ := hpx.2 c hcR
  have h₂ := hxs.2 c hcR
  have h₃ := hpx.2 s hxs.1
  have d₁ := cwDist_cases (pos p) (pos x)
  have d₂ := cwDist_cases (pos p) (pos c)
  have d₃ := cwDist_cases (pos p) (pos s)
  have d₄ := cwDist_cases (pos x) (pos s)
  have d₅ := cwDist_cases (pos x) (pos c)
  have t₁ := cwTurn_cases (pos p) (pos x)
  have t₂ := cwTurn_cases (pos p) (pos c)
  have t₃ := cwTurn_cases (pos p) (pos s)
  have t₄ := cwTurn_cases (pos x) (pos s)
  have t₅ := cwTurn_cases (pos x) (pos c)
  omega

theorem IsNext.insert_self {b x : α} (h : IsNext pos R x b) :
    IsNext pos (insert x R) x b := by
  refine ⟨Finset.mem_insert_of_mem h.1, fun c hc => ?_⟩
  rcases Finset.mem_insert.mp hc with rfl | hc
  · rw [cwTurn_self]
    exact cwTurn_le _ _
  · exact h.2 c hc

theorem IsNext.erase_other {m s x : α} (h : IsNext pos R m s) (hsx : s ≠ x) :
    IsNext pos (R.erase x) m s :=
  ⟨Finset.mem_erase.mpr ⟨hsx, h.1⟩, fun c hc => h.2 c (Finset.mem_of_mem_erase hc)⟩

theorem IsOwner.erase_other {t : Fin M} {a x : α} (h : IsOwner pos R t a) (hax : a ≠ x) :
    IsOwner pos (R.erase x) t a :=
  ⟨Finset.mem_erase.mpr ⟨hax, h.1⟩, fun c hc => h.2 c (Finset.mem_of_mem_erase hc)⟩

/-- What `x` owns goes to the member after it. -/
theorem IsOwner.erase_owner (hinj : Set.InjOn pos R) {t : Fin M} {x s : α}
    (h : IsOwner pos R t x) (hxs : IsNext pos R x s) (hsx : s ≠ x) :
    IsOwner pos (R.erase x) t s := by
  refine ⟨Finset.mem_erase.mpr ⟨hsx, hxs.1⟩, fun c hc => ?_⟩
  have hcR := Finset.mem_of_mem_erase hc
  have hcx : (pos c).val ≠ (pos x).val :=
    fun hv => Finset.ne_of_mem_erase hc (hinj hcR h.1 (Fin.ext hv))
  have hsx' : (pos s).val ≠ (pos x).val := fun hv => hsx (hinj hxs.1 h.1 (Fin.ext hv))
  have h₁ := h.2 c hcR
  have h₂ := h.2 s hxs.1
  have h₃ := hxs.2 c hcR
  have d₁ := cwDist_cases t (pos x)
  have d₂ := cwDist_cases t (pos s)
  have d₃ := cwDist_cases t (pos c)
  have d₄ := cwDist_cases (pos x) (pos s)
  have d₅ := cwDist_cases (pos x) (pos c)
  have t₁ := cwTurn_cases (pos x) (pos s)
  have t₂ := cwTurn_cases (pos x) (pos c)
  omega

/-- A newcomer takes over `t`, or changes nothing for `t`. -/
theorem IsOwner.insert_cases {t : Fin M} {a x : α} (h : IsOwner pos R t a) :
    IsOwner pos (insert x R) t a ∨ IsOwner pos (insert x R) t x := by
  rcases le_total (cwDist t (pos a)) (cwDist t (pos x)) with hle | hle
  · refine Or.inl ⟨Finset.mem_insert_of_mem h.1, fun c hc => ?_⟩
    rcases Finset.mem_insert.mp hc with rfl | hc
    · exact hle
    · exact h.2 c hc
  · refine Or.inr ⟨Finset.mem_insert_self x R, fun c hc => ?_⟩
    rcases Finset.mem_insert.mp hc with rfl | hc
    · exact le_rfl
    · exact hle.trans (h.2 c hc)

end Members

end Clockwise
