import Mathlib.Control.Basic
import Mathlib.Data.Nat.Bitwise
import PennSearch.Library.CountedLoop

/-!
# Readers of a byte stream

A reader takes a value from the front of the bytes that are left, or fails with a
fault. `Inverts r w P` says all about a reader that undoes the writer `w`: it
gives `a` and leaves `rest` exactly on the bytes `w a ++ rest`, for the values
`P`. Both halves of a round trip are its two directions. `FailsOnly r e` says
that `e` is the only fault of `r`.

A number of fixed width is shifted out byte by byte by `leBytes`, and in by
`leValue`; the big-endian order is the reverse.
-/

namespace Wire

variable {φ α β : Type}

/-! ## Bytes of a number -/

def leBytes : ℕ → ℕ → List UInt8
  | 0, _ => []
  | k + 1, n => UInt8.ofNat (n &&& 0xff) :: leBytes k (n >>> 8)

def leValue : List UInt8 → ℕ
  | [] => 0
  | b :: bytes => leValue bytes <<< 8 ||| b.toNat

theorem leValue_cons (b : UInt8) (bytes : List UInt8) :
    leValue (b :: bytes) = 256 * leValue bytes + b.toNat := by
  rw [leValue, ← Nat.shiftLeft_add_eq_or_of_lt (show b.toNat < 2 ^ 8 from b.toNat_lt),
    Nat.shiftLeft_eq]
  omega

theorem leBytes_succ (k n : ℕ) : leBytes (k + 1) n = UInt8.ofNat n :: leBytes k (n / 256) := by
  have hand : n &&& 0xff = n % 256 := Nat.and_two_pow_sub_one_eq_mod n 8
  have hshift : n >>> 8 = n / 256 := Nat.shiftRight_eq_div_pow n 8
  have hbyte : UInt8.ofNat (n % 256) = UInt8.ofNat n := by
    apply UInt8.toNat_inj.mp
    simp
  rw [leBytes, hand, hshift, hbyte]

@[simp] theorem length_leBytes (k n : ℕ) : (leBytes k n).length = k := by
  induction k generalizing n with
  | zero => rfl
  | succ k ih => rw [leBytes, List.length_cons, ih]

theorem leValue_leBytes {k n : ℕ} (hn : n < 256 ^ k) : leValue (leBytes k n) = n := by
  induction k generalizing n with
  | zero =>
      rw [pow_zero] at hn
      exact (Nat.lt_one_iff.mp hn).symm
  | succ k ih =>
      have hdiv : n / 256 < 256 ^ k := by
        rw [Nat.div_lt_iff_lt_mul (by decide)]
        rwa [pow_succ] at hn
      rw [leBytes_succ, leValue_cons, ih hdiv]
      simp only [UInt8.toNat_ofNat']
      omega

theorem leBytes_leValue (bytes : List UInt8) : leBytes bytes.length (leValue bytes) = bytes := by
  induction bytes with
  | nil => rfl
  | cons b bytes ih =>
      have hb := b.toNat_lt
      have hdiv : (256 * leValue bytes + b.toNat) / 256 = leValue bytes := by omega
      have hbyte : UInt8.ofNat (256 * leValue bytes + b.toNat) = b := by
        apply UInt8.toNat_inj.mp
        simp only [UInt8.toNat_ofNat']
        omega
      rw [List.length_cons, leBytes_succ, leValue_cons, hdiv, hbyte, ih]

theorem leValue_lt (bytes : List UInt8) : leValue bytes < 256 ^ bytes.length := by
  induction bytes with
  | nil => exact Nat.one_pos
  | cons b bytes ih =>
      have hb := b.toNat_lt
      rw [leValue_cons, List.length_cons, pow_succ]
      omega

/-! ## Readers -/

abbrev Reader (φ α : Type) := StateT (List UInt8) (Except φ) α

namespace Reader

def take (short : φ) (k : ℕ) : Reader φ (List UInt8) := fun bytes =>
  if k ≤ bytes.length then .ok (bytes.take k, bytes.drop k) else .error short

def fail (e : φ) : Reader φ α := fun _ => .error e

def ofExcept (x : Except φ α) : Reader φ α := fun bytes => x.map fun a => (a, bytes)

def pushBack (r : Reader φ α) (v : List α) : Reader φ (List α) := do
  let a ← r
  pure (v ++ [a])

/-- The reader `r` undoes the writer `w` on the values `P`, and accepts nothing else. -/
def Inverts (r : Reader φ α) (w : α → List UInt8) (P : α → Prop) : Prop :=
  ∀ bytes a rest, r bytes = .ok (a, rest) ↔ P a ∧ bytes = w a ++ rest

/-- Whenever the reader succeeds, the bytes before, the value and the bytes after are related. -/
def Yields (r : Reader φ α) (Q : List UInt8 → α → List UInt8 → Prop) : Prop :=
  ∀ bytes a rest, r bytes = .ok (a, rest) → Q bytes a rest

/-- The reader has no other fault than `e`. -/
def FailsOnly (r : Reader φ α) (e : φ) : Prop := ∀ bytes e', r bytes = .error e' → e' = e

variable {r : Reader φ α} {f : α → Reader φ β} {bytes rest : List UInt8}

theorem bind_apply : (r >>= f) bytes = (r bytes).bind fun p => f p.1 p.2 := rfl

theorem bind_of_ok {a : α} {mid : List UInt8} (h : r bytes = .ok (a, mid)) :
    (r >>= f) bytes = f a mid := by
  rw [bind_apply, h]
  rfl

@[simp] theorem bind_eq_ok {b : β} :
    (r >>= f) bytes = .ok (b, rest) ↔
      ∃ a mid, r bytes = .ok (a, mid) ∧ f a mid = .ok (b, rest) := by
  rw [bind_apply]
  cases hr : r bytes with
  | error e => simp [Except.bind]
  | ok p => simp [Except.bind, Prod.ext_iff]

@[simp] theorem bind_eq_error {e : φ} :
    (r >>= f) bytes = .error e ↔
      r bytes = .error e ∨ ∃ a mid, r bytes = .ok (a, mid) ∧ f a mid = .error e := by
  rw [bind_apply]
  cases hr : r bytes with
  | error e' => simp [Except.bind]
  | ok p => simp [Except.bind, Prod.ext_iff]

@[simp] theorem pure_eq_ok {a b : α} :
    (pure a : Reader φ α) bytes = .ok (b, rest) ↔ a = b ∧ bytes = rest := by
  have h : (pure a : Reader φ α) bytes = .ok (a, bytes) := rfl
  rw [h, Except.ok.injEq, Prod.mk.injEq]

@[simp] theorem pure_ne_error {a : α} {e : φ} : (pure a : Reader φ α) bytes ≠ .error e := by
  intro h
  cases h

@[simp] theorem ofExcept_ok (a : α) : (ofExcept (.ok a) : Reader φ α) = pure a := rfl

@[simp] theorem fail_ne_ok {e : φ} {p : α × List UInt8} : fail (α := α) e bytes ≠ .ok p := by
  intro h
  cases h

@[simp] theorem fail_eq_error {e e' : φ} : fail (α := α) e bytes = .error e' ↔ e = e' := by
  rw [fail, Except.error.injEq]

/-! ### Readers that undo a writer -/

namespace Inverts

variable {w : α → List UInt8} {P : α → Prop}

theorem eq_ok (h : Inverts r w P) {a : α} :
    r bytes = .ok (a, rest) ↔ P a ∧ bytes = w a ++ rest := h bytes a rest

theorem read_write (h : Inverts r w P) {a : α} (ha : P a) (rest : List UInt8) :
    r (w a ++ rest) = .ok (a, rest) := h.eq_ok.mpr ⟨ha, rfl⟩

/-- What comes after a reader only matters on the values that it gives. -/
theorem bind_congr (h : Inverts r w P) {g : α → Reader φ β} (hfg : ∀ a, P a → f a = g a) :
    r >>= f = r >>= g := by
  funext bytes
  rw [bind_apply, bind_apply]
  cases hr : r bytes with
  | error e => rfl
  | ok p =>
      obtain ⟨a, rest⟩ := p
      show f a rest = g a rest
      rw [hfg a (h.eq_ok.mp hr).1]

theorem bind_pure_eq_ok (h : Inverts r w P) {g : α → β} {b : β} :
    (do let a ← r; pure (g a)) bytes = .ok (b, rest) ↔
      ∃ a, P a ∧ b = g a ∧ bytes = w a ++ rest := by
  rw [bind_eq_ok]
  constructor
  · rintro ⟨a, mid, hr, hp⟩
    obtain ⟨rfl, rfl⟩ := pure_eq_ok.mp hp
    obtain ⟨ha, rfl⟩ := h.eq_ok.mp hr
    exact ⟨a, ha, rfl, rfl⟩
  · rintro ⟨a, ha, rfl, rfl⟩
    exact ⟨a, rest, h.read_write ha rest, rfl⟩

theorem map (h : Inverts r w P) {g : α → β} {g' : β → α} {Q : β → Prop}
    (hP : ∀ a, P a → Q (g a) ∧ g' (g a) = a) (hQ : ∀ b, Q b → P (g' b) ∧ g (g' b) = b) :
    Inverts (do let a ← r; pure (g a)) (fun b => w (g' b)) Q := by
  intro bytes b rest
  rw [h.bind_pure_eq_ok]
  constructor
  · rintro ⟨a, ha, rfl, rfl⟩
    obtain ⟨hq, hback⟩ := hP a ha
    exact ⟨hq, by simp only [hback]⟩
  · rintro ⟨hb, rfl⟩
    obtain ⟨hp, hback⟩ := hQ b hb
    exact ⟨g' b, hp, hback.symm, rfl⟩

end Inverts

theorem take_inverts (short : φ) (k : ℕ) :
    Inverts (take short k) (fun bytes => bytes) (fun bytes => bytes.length = k) := by
  intro bytes a rest
  rw [take]
  constructor
  · intro h
    split at h
    · rename_i hk
      cases h
      exact ⟨List.length_take_of_le hk, (List.take_append_drop k bytes).symm⟩
    · cases h
  · rintro ⟨rfl, rfl⟩
    rw [if_pos (by simp), List.take_left, List.drop_left]

/-- A field of `k` bytes in any encoding that fills them. -/
theorem take_map_inverts (short : φ) {k : ℕ} {enc : α → List UInt8} {dec : List UInt8 → α}
    (hlen : ∀ a, (enc a).length = k) (hdec : ∀ a, dec (enc a) = a)
    (henc : ∀ bytes, bytes.length = k → enc (dec bytes) = bytes) :
    Inverts (do let bytes ← take short k; pure (dec bytes)) enc fun _ => True :=
  (take_inverts short k).map (fun bytes h => ⟨trivial, henc bytes h⟩) fun a _ => ⟨hlen a, hdec a⟩

section Numbers

variable (short : φ) (k : ℕ) {toNat : α → ℕ} {ofNat : ℕ → α}

theorem le_inverts (hlt : ∀ a, toNat a < 256 ^ k) (hof : ∀ a, ofNat (toNat a) = a)
    (hto : ∀ n, n < 256 ^ k → toNat (ofNat n) = n) :
    Inverts (do let bytes ← take short k; pure (ofNat (leValue bytes)))
      (fun a => leBytes k (toNat a)) fun _ => True := by
  apply take_map_inverts
  · intro a
    exact length_leBytes k _
  · intro a
    rw [leValue_leBytes (hlt a), hof]
  · rintro bytes rfl
    rw [hto _ (leValue_lt bytes), leBytes_leValue]

theorem be_inverts (hlt : ∀ a, toNat a < 256 ^ k) (hof : ∀ a, ofNat (toNat a) = a)
    (hto : ∀ n, n < 256 ^ k → toNat (ofNat n) = n) :
    Inverts (do let bytes ← take short k; pure (ofNat (leValue bytes.reverse)))
      (fun a => (leBytes k (toNat a)).reverse) fun _ => True := by
  apply take_map_inverts
  · intro a
    rw [List.length_reverse, length_leBytes]
  · intro a
    rw [List.reverse_reverse, leValue_leBytes (hlt a), hof]
  · intro bytes h
    have hlen : bytes.reverse.length = k := by rw [List.length_reverse, h]
    have hback := leBytes_leValue bytes.reverse
    rw [hlen] at hback
    rw [hto _ (hlen ▸ leValue_lt bytes.reverse), hback, List.reverse_reverse]

end Numbers

theorem foldlM_pushBack {w : α → List UInt8} {P : α → Prop} (h : Inverts r w P) {ι : Type}
    (idx : List ι) {v v' : List α} :
    (idx.foldlM (fun v _ => pushBack r v) v) bytes = .ok (v', rest) ↔
      ∃ l : List α, l.length = idx.length ∧ (∀ a ∈ l, P a) ∧ v' = v ++ l ∧
        bytes = l.flatMap w ++ rest := by
  induction idx generalizing v bytes with
  | nil =>
      rw [List.foldlM_nil, pure_eq_ok]
      constructor
      · rintro ⟨rfl, rfl⟩
        exact ⟨[], rfl, by simp, by simp, by simp⟩
      · rintro ⟨l, hl, -, rfl, rfl⟩
        rw [List.eq_nil_of_length_eq_zero hl]
        simp
  | cons i idx ih =>
      rw [List.foldlM_cons, bind_eq_ok]
      constructor
      · rintro ⟨v₁, mid, hpush, hrest⟩
        obtain ⟨a, mid', ha, hpure⟩ := bind_eq_ok.mp hpush
        obtain ⟨rfl, rfl⟩ := pure_eq_ok.mp hpure
        obtain ⟨hPa, rfl⟩ := h.eq_ok.mp ha
        obtain ⟨l, hl, hP, rfl, rfl⟩ := ih.mp hrest
        refine ⟨a :: l, ?_, ?_, ?_, ?_⟩
        · rw [List.length_cons, List.length_cons, hl]
        · exact List.forall_mem_cons.mpr ⟨hPa, hP⟩
        · rw [List.append_assoc, List.singleton_append]
        · rw [List.flatMap_cons, List.append_assoc]
      · rintro ⟨l, hl, hP, rfl, rfl⟩
        obtain ⟨a, l, rfl⟩ := List.exists_cons_of_length_eq_add_one hl
        rw [List.forall_mem_cons] at hP
        refine ⟨v ++ [a], l.flatMap w ++ rest, ?_, ?_⟩
        · rw [List.flatMap_cons, List.append_assoc]
          exact bind_eq_ok.mpr ⟨a, _, h.read_write hP.1 _, pure_eq_ok.mpr ⟨rfl, rfl⟩⟩
        · exact ih.mpr ⟨l, by simpa using hl, hP.2, by simp, rfl⟩

/-! ### Faults -/

namespace FailsOnly

variable {e : φ}

theorem bind (h : FailsOnly r e) (hf : ∀ a, FailsOnly (f a) e) : FailsOnly (r >>= f) e := by
  intro bytes e' he
  rcases bind_eq_error.mp he with he | ⟨a, mid, -, he⟩
  · exact h bytes e' he
  · exact hf a mid e' he

theorem pure (a : α) : FailsOnly (Pure.pure a : Reader φ α) e := fun _ _ h =>
  absurd h pure_ne_error

theorem take (e : φ) (k : ℕ) : FailsOnly (Reader.take e k) e := by
  intro bytes e' h
  rw [Reader.take] at h
  split at h
  · cases h
  · exact (Except.error.inj h).symm

theorem foldlM {ι σ : Type} {g : σ → ι → Reader φ σ} (hg : ∀ s i, FailsOnly (g s i) e)
    (idx : List ι) (s : σ) : FailsOnly (idx.foldlM g s) e := by
  induction idx generalizing s with
  | nil => exact pure s
  | cons i idx ih => exact bind (hg s i) ih

theorem pushBack (h : FailsOnly r e) (v : List α) : FailsOnly (Reader.pushBack r v) e :=
  h.bind fun a => pure (v ++ [a])

end FailsOnly

end Reader

end Wire
