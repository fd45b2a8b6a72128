import Mathlib.Data.Nat.Digits.Defs
import Mathlib.Order.Fin.Basic
import PennSearch.Library.Clockwise

/-!
# Addresses and SHA-1 digests

A digest is the twenty bytes that `SHA1` writes, read as a big-endian number
below `2 ^ 160` (`Digest.pos`). OpenSSL's `SHA1` is not part of the repository:
it is the parameter `Sha1`, and `SHA_1` of an address hashes its dotted text.

`compareSHA1` is the byte loop of the source: 1 for greater, 0 for less and 2
for equal, the last one being true in a condition. `compareSHA1_ne_zero_iff`
reads it as an order of positions, after which every arc test of the handlers
is `Clockwise.InArc`.
-/

namespace PennSearch

open Clockwise

structure Ipv4Address where
  address : UInt32
deriving DecidableEq, Inhabited

def Ipv4Address.getAny : Ipv4Address := ⟨0⟩

def Ipv4Address.ofBytes (a b c d : UInt8) : Ipv4Address :=
  ⟨a.toUInt32 <<< 24 ||| b.toUInt32 <<< 16 ||| c.toUInt32 <<< 8 ||| d.toUInt32⟩

/-- A `std::string`: a sequence of bytes. -/
abbrev CxxString := List UInt8

/-- The decimal text of a number, as `operator<<` prints it. -/
def decimal (n : ℕ) : CxxString :=
  if n = 0 then [48] else ((Nat.digits 10 n).map fun d => UInt8.ofNat (48 + d)).reverse

/-- `Ipv4Address::Print`: four decimal numbers separated by dots. -/
def Ipv4Address.print (a : Ipv4Address) : CxxString :=
  let dot : CxxString := [46]
  decimal (a.address >>> 24 &&& 0xff).toNat ++ dot ++
    decimal (a.address >>> 16 &&& 0xff).toNat ++ dot ++
    decimal (a.address >>> 8 &&& 0xff).toNat ++ dot ++
    decimal (a.address &&& 0xff).toNat

abbrev Digest := Vector UInt8 20

namespace Digest

def ofBytes (bs : List UInt8) : ℕ := bs.foldl (fun n b => n * 256 + b.toNat) 0

theorem foldl_bytes (bs : List UInt8) (n : ℕ) :
    bs.foldl (fun n b => n * 256 + b.toNat) n = n * 256 ^ bs.length + ofBytes bs := by
  induction bs generalizing n with
  | nil => simp [ofBytes]
  | cons b bs ih =>
      have h₀ : ofBytes (b :: bs) = (0 * 256 + b.toNat) * 256 ^ bs.length + ofBytes bs := ih _
      rw [List.foldl_cons, ih, h₀, List.length_cons]
      ring

theorem ofBytes_cons (b : UInt8) (bs : List UInt8) :
    ofBytes (b :: bs) = b.toNat * 256 ^ bs.length + ofBytes bs := by
  rw [ofBytes, List.foldl_cons, foldl_bytes]
  ring

theorem ofBytes_lt (bs : List UInt8) : ofBytes bs < 256 ^ bs.length := by
  induction bs with
  | nil => simp [ofBytes]
  | cons b bs ih =>
      have hb : b.toNat + 1 ≤ 256 := b.toNat_lt
      have hmul := Nat.mul_le_mul_right (256 ^ bs.length) hb
      rw [ofBytes_cons, List.length_cons, pow_succ]
      linarith

theorem toNat_lt (d : Digest) : ofBytes d.toList < 2 ^ 160 := by
  have h := ofBytes_lt d.toList
  simpa using h

def pos (d : Digest) : Fin (2 ^ 160) := ⟨ofBytes d.toList, toNat_lt d⟩

end Digest

/-- The loop of `compareSHA1` on the bytes that are left: 1 or 0 at the first
difference, 2 when there is none. -/
def compareSHA1Loop : List UInt8 → List UInt8 → ℕ
  | a :: as, b :: bs => if a > b then 1 else if a < b then 0 else compareSHA1Loop as bs
  | _, _ => 2

/-- `PennChord::compareSHA1`, and the identical `PennSearch::compareSHA1`. -/
def compareSHA1 (digest1 digest2 : Digest) : ℕ :=
  compareSHA1Loop digest1.toList digest2.toList

theorem compareSHA1Loop_spec (as bs : List UInt8) (h : as.length = bs.length) :
    (compareSHA1Loop as bs = 1 ∧ Digest.ofBytes bs < Digest.ofBytes as) ∨
      (compareSHA1Loop as bs = 0 ∧ Digest.ofBytes as < Digest.ofBytes bs) ∨
      (compareSHA1Loop as bs = 2 ∧ as = bs) := by
  induction as generalizing bs with
  | nil =>
      obtain rfl := List.eq_nil_of_length_eq_zero h.symm
      simp [compareSHA1Loop]
  | cons a as ih =>
      cases bs with
      | nil => simp at h
      | cons b bs =>
          have hlen : as.length = bs.length := by simpa using h
          have ha := Digest.ofBytes_lt as
          have hb := Digest.ofBytes_lt bs
          simp only [compareSHA1Loop, Digest.ofBytes_cons, gt_iff_lt, UInt8.lt_iff_toNat_lt,
            hlen] at ha ⊢
          rcases lt_trichotomy a.toNat b.toNat with hab | hab | hab
          · have hmul := Nat.mul_le_mul_right (256 ^ bs.length) hab
            have hno : ¬ b.toNat < a.toNat := by omega
            right; left
            rw [if_neg hno, if_pos hab]
            exact ⟨rfl, by rw [Nat.succ_mul] at hmul; omega⟩
          · have heq : a = b := UInt8.toNat_inj.mp hab
            subst heq
            simp only [lt_self_iff_false, if_false, add_lt_add_iff_left, List.cons.injEq,
              true_and]
            exact ih bs hlen
          · have hmul := Nat.mul_le_mul_right (256 ^ bs.length) hab
            left
            rw [if_pos hab]
            exact ⟨rfl, by rw [Nat.succ_mul] at hmul; omega⟩

theorem compareSHA1_spec (d e : Digest) :
    (compareSHA1 d e = 1 ∧ e.pos < d.pos) ∨ (compareSHA1 d e = 0 ∧ d.pos < e.pos) ∨
      (compareSHA1 d e = 2 ∧ d = e) := by
  have h := compareSHA1Loop_spec d.toList e.toList (by simp)
  have heq : d.toList = e.toList ↔ d = e := Vector.toList_inj
  simpa only [compareSHA1, Digest.pos, Fin.lt_def, heq] using h

/-- In a condition `compareSHA1` is the order of positions, equality included. -/
theorem compareSHA1_ne_zero_iff {d e : Digest} : compareSHA1 d e ≠ 0 ↔ e.pos ≤ d.pos := by
  rcases compareSHA1_spec d e with ⟨h, hlt⟩ | ⟨h, hlt⟩ | ⟨h, rfl⟩
  · simp [h, hlt.le]
  · simpa [h] using hlt
  · simp [h]

theorem compareSHA1_eq_two_iff {d e : Digest} : compareSHA1 d e = 2 ↔ d = e := by
  rcases compareSHA1_spec d e with ⟨h, hlt⟩ | ⟨h, hlt⟩ | ⟨h, rfl⟩
  · simp only [h, OfNat.one_ne_ofNat, false_iff]
    rintro rfl
    exact lt_irrefl _ hlt
  · simp only [h, OfNat.zero_ne_ofNat, false_iff]
    rintro rfl
    exact lt_irrefl _ hlt
  · simp [h]

/-- The branch that the source writes out for every arc test decides the closed
arc from `a` to `b`, in whichever order its conditions stand. -/
theorem ite_compareSHA1 {β : Type*} {a b t : Digest} {Q R : Prop} [Decidable Q] [Decidable R]
    (hQ : Q ↔ compareSHA1 t a ≠ 0 ∨ compareSHA1 b t ≠ 0)
    (hR : R ↔ compareSHA1 b t ≠ 0 ∧ compareSHA1 t a ≠ 0) (x y : β) :
    (if compareSHA1 a b ≠ 0 then if Q then x else y else if R then x else y) =
      if InArc a.pos b.pos t.pos then x else y := by
  have h := inArc_iff_branch a.pos b.pos t.pos
  simp only [compareSHA1_ne_zero_iff] at hQ hR ⊢
  by_cases hab : b.pos ≤ a.pos
  · simp only [hab, if_true, ← hQ] at h ⊢
    exact if_congr h rfl rfl
  · simp only [hab, if_false, ← hR] at h ⊢
    exact if_congr h rfl rfl

theorem Digest.pos_injective : Function.Injective Digest.pos := by
  intro d e h
  rcases compareSHA1_spec d e with ⟨_, hlt⟩ | ⟨_, hlt⟩ | ⟨_, heq⟩
  · exact absurd hlt (by simp [h])
  · exact absurd hlt (by simp [h])
  · exact heq

/-- OpenSSL's `SHA1` on the bytes of a string. -/
class Sha1 where
  SHA1 : CxxString → Digest

section Hash

variable [Sha1]

/-- `SHA_1` of an address: the digest of its dotted text. -/
def sha1 (a : Ipv4Address) : Digest := Sha1.SHA1 a.print

def sha1Key (s : CxxString) : Digest := Sha1.SHA1 s

def nodePos (a : Ipv4Address) : Fin (2 ^ 160) := (sha1 a).pos

def keyPos (s : CxxString) : Fin (2 ^ 160) := (sha1Key s).pos

end Hash

/-! ## Sample digests

The SHA-1 digests of a few addresses of the simulated topologies, and of the
keywords of the sample metadata files, for runs on concrete inputs. Other
strings are given the zero digest there. -/

def Digest.ofNat (n : ℕ) : Digest := Vector.ofFn fun i => UInt8.ofNat (n / 256 ^ (19 - i.val))

def sampleA : Ipv4Address := .ofBytes 10 0 0 1
def sampleB : Ipv4Address := .ofBytes 10 0 0 2
def sampleC : Ipv4Address := .ofBytes 10 0 1 1
def sampleD : Ipv4Address := .ofBytes 10 0 2 1
def sampleE : Ipv4Address := .ofBytes 10 0 3 2

/-- Clockwise from zero the five nodes are D, B, C, E and A. -/
def sampleDigests : List (CxxString × ℕ) :=
  [(sampleA.print, 0xed1665c190146c4dcb8eb871f1d2499d61bb293b),
    (sampleB.print, 0x5ab187e3bc6375b95a0250f2d8c66723de97dcb9),
    (sampleC.print, 0x5fd399c0cff1fe99157a80eb0ac92c0e6f7603f7),
    (sampleD.print, 0x38681a16de6c9603265e2ec549e70e4b8a5dbf8c),
    (sampleE.print, 0xd05719abdcdedb54fa14f4d049532fd97c5e2bfb),
    (Ipv4Address.getAny.print, 0xe562f69ec36e625116376f376d991e41613e9bf3),
    ([84, 49], 0xe2398779d5a199b7adb4917fab0cbe5660e3c52f),
    ([84, 50], 0xf8cf5510c304dce728fc496fb7e48b5e2deed00d),
    ([84, 51], 0x101beb6f3fa11f324bf0e97d10f9b2e29abe2c20),
    ([84, 53], 0xa39d900d25e54ad5f61dfacf23077413ca49cf5d)]

abbrev sampleSha1 : Sha1 where
  SHA1 s := Digest.ofNat ((sampleDigests.lookup s).getD 0)

end PennSearch
