import PennSearch.Chord.FingerStart

/-!
# `FindIndexHash` with the counters of the source

`findIndexHash` counts its bytes by a natural number. The source keeps the index
of the byte and what is added to it in 16-bit variables, and its loop ends at the
first byte without a carry, or when the index underflows past zero
(`findIndexHashWhile`). Both write the same bytes, and for the 160 fingers these
are the big-endian bytes of the sum modulo `2 ^ 160`.
-/

namespace PennSearch

namespace Digest

theorem ofBytes_ofFn (n k : ℕ) :
    ofBytes (List.ofFn fun i : Fin k => UInt8.ofNat (n / 256 ^ (k - 1 - i.val))) =
      n % 256 ^ k := by
  induction k with
  | zero => simp [ofBytes, Nat.mod_one]
  | succ k ih =>
      have htail : (fun i : Fin k => UInt8.ofNat (n / 256 ^ (k + 1 - 1 - i.succ.val))) =
          fun i : Fin k => UInt8.ofNat (n / 256 ^ (k - 1 - i.val)) := by
        funext i
        rw [Fin.val_succ, Nat.add_sub_cancel, Nat.sub_sub, Nat.add_comm 1]
      rw [List.ofFn_succ, htail, ofBytes_cons, ih, List.length_ofFn, Nat.mod_pow_succ,
        UInt8.toNat_ofNat']
      simp only [Fin.val_zero, Nat.add_sub_cancel, Nat.sub_zero]
      ring

theorem toList_ofNat (n : ℕ) :
    (ofNat n).toList = List.ofFn fun i : Fin 20 => UInt8.ofNat (n / 256 ^ (20 - 1 - i.val)) := by
  rw [ofNat, Vector.toList_ofFn]

theorem ofBytes_ofNat {n : ℕ} (hn : n < 2 ^ 160) : ofBytes (ofNat n).toList = n := by
  have hpow : (256 : ℕ) ^ 20 = 2 ^ 160 := by norm_num
  rw [toList_ofNat, ofBytes_ofFn, hpow, Nat.mod_eq_of_lt hn]

theorem val_pos (d : Digest) : d.pos.val = ofBytes d.toList := rfl

theorem ofNat_val_pos (d : Digest) : ofNat d.pos.val = d := by
  apply pos_injective
  apply Fin.ext
  rw [val_pos, ofBytes_ofNat d.pos.isLt]

end Digest

/-- The loop of `FindIndexHash`. Its index never is below 0, as the source also
tests, and an index above 19 is one that has underflowed. -/
def findIndexHashWhile (indexHash : Digest) (byteIndex byteAdded : UInt16) : Digest :=
  if h : byteIndex.toNat < 20 then
    let sum := indexHash[byteIndex.toNat].toUInt16 + byteAdded
    if sum ≤ 255 then indexHash.set byteIndex.toNat sum.toUInt8
    else
      findIndexHashWhile (indexHash.set byteIndex.toNat (sum &&& 0xff).toUInt8)
        (byteIndex - 1) (sum >>> 8)
  else indexHash
termination_by if byteIndex.toNat < 20 then byteIndex.toNat + 1 else 0
decreasing_by
  by_cases hzero : byteIndex = 0
  · subst hzero
    decide
  · have hpos : 1 ≤ byteIndex.toNat := Nat.one_le_iff_ne_zero.mpr fun h0 =>
      hzero (UInt16.toNat_inj.mp h0)
    have hpred : (byteIndex - 1).toNat = byteIndex.toNat - 1 :=
      UInt16.toNat_sub_of_le _ _ (UInt16.le_iff_toNat_le.mpr hpos)
    rw [hpred, if_pos h, if_pos (by omega)]
    omega

/-- `FindIndexHash` with 16-bit counters. `index - 1` is an `int` in the source, and
its quotient passes through a `uint8_t`. -/
def findIndexHashCounted (localDigest : Digest) (index : UInt16) : Except Fault Digest :=
  if index = 0 then .error .shiftOutOfRange
  else
    let byteIndex := 20 - (((index - 1) / 8).toUInt8.toUInt16 + 1)
    let bitIndex := (index - 1) % 8
    .ok (findIndexHashWhile localDigest byteIndex (1 <<< bitIndex))

theorem findIndexHashWhile_eq {n : ℕ} (hn : n ≤ 20) (d : Digest) {byteAdded : UInt16}
    (hadded : byteAdded.toNat ≤ 255) :
    findIndexHashWhile d (UInt16.ofNat n - 1) byteAdded =
      findIndexHashLoop d n byteAdded.toNat := by
  induction n generalizing d byteAdded with
  | zero =>
      rw [findIndexHashWhile, dif_neg (by decide), findIndexHashLoop]
  | succ n ih =>
      have hlt : n < 20 := hn
      have hindex : (UInt16.ofNat (n + 1) - 1) = UInt16.ofNat n := by
        apply UInt16.toNat_inj.mp
        rw [UInt16.toNat_sub, UInt16.toNat_ofNat', UInt16.toNat_ofNat']
        change (2 ^ 16 - 1 + (n + 1) % 2 ^ 16) % 2 ^ 16 = n % 2 ^ 16
        omega
      have htoNat : (UInt16.ofNat n).toNat = n := by
        rw [UInt16.toNat_ofNat']
        omega
      have hbyte := d[n].toNat_lt
      have hsum : (d[n].toUInt16 + byteAdded).toNat = d[n].toNat + byteAdded.toNat := by
        rw [UInt16.toNat_add, UInt8.toNat_toUInt16]
        omega
      have hle : d[n].toUInt16 + byteAdded ≤ 255 ↔ d[n].toNat + byteAdded.toNat ≤ 255 := by
        rw [UInt16.le_iff_toNat_le, hsum]
        rfl
      rw [hindex, findIndexHashWhile, findIndexHashLoop, dif_pos hlt]
      simp only [htoNat, hlt, dite_true, hle]
      split
      · rename_i hsmall
        have hset : (d[n].toUInt16 + byteAdded).toUInt8 =
            UInt8.ofNat (d[n].toNat + byteAdded.toNat) := by
          apply UInt8.toNat_inj.mp
          rw [UInt16.toNat_toUInt8, UInt8.toNat_ofNat', hsum]
        rw [hset]
      · have hlow : ((d[n].toUInt16 + byteAdded) &&& 0xff).toUInt8 =
            UInt8.ofNat ((d[n].toNat + byteAdded.toNat) % 256) := by
          apply UInt8.toNat_inj.mp
          rw [UInt16.toNat_toUInt8, UInt8.toNat_ofNat', UInt16.toNat_and, hsum]
          exact congrArg (· % 2 ^ 8) (Nat.and_two_pow_sub_one_eq_mod _ 8)
        have hcarry : ((d[n].toUInt16 + byteAdded) >>> 8).toNat =
            (d[n].toNat + byteAdded.toNat) / 256 := by
          rw [UInt16.toNat_shiftRight, hsum]
          exact Nat.shiftRight_eq_div_pow _ 8
        rw [hlow, ih (by omega) _ (by rw [hcarry]; omega), hcarry]

/-- The counters of the source neither overflow nor end the loop early. -/
theorem findIndexHashCounted_eq (d : Digest) (i : UInt16) :
    findIndexHashCounted d i = findIndexHash d i := by
  unfold findIndexHashCounted findIndexHash
  by_cases hzero : i = 0
  · rw [if_pos hzero, if_pos hzero]
  · have hpos : 1 ≤ i.toNat := Nat.one_le_iff_ne_zero.mpr fun h0 =>
      hzero (UInt16.toNat_inj.mp h0)
    have hpred : (i - 1).toNat = i.toNat - 1 :=
      UInt16.toNat_sub_of_le _ _ (UInt16.le_iff_toNat_le.mpr hpos)
    have hmod : ((i - 1) % 8).toNat = (i.toNat - 1) % 8 := by
      rw [UInt16.toNat_mod, hpred]
      rfl
    have hbits : 2 ^ ((i.toNat - 1) % 8) ≤ 2 ^ 7 :=
      Nat.pow_le_pow_right (by norm_num) (by omega)
    have hbit : (1 <<< ((i - 1) % 8) : UInt16).toNat = 2 ^ ((i.toNat - 1) % 8) := by
      rw [UInt16.toNat_shiftLeft, hmod, Nat.mod_eq_of_lt (by omega : (i.toNat - 1) % 8 < 16),
        UInt16.toNat_one, Nat.one_shiftLeft, Nat.mod_eq_of_lt (by omega)]
    have hbyte : (((i - 1) / 8).toUInt8.toUInt16 + 1).toNat = (i.toNat - 1) / 8 % 256 + 1 := by
      rw [UInt16.toNat_add, UInt8.toNat_toUInt16, UInt16.toNat_toUInt8, UInt16.toNat_div, hpred]
      change ((i.toNat - 1) / 8 % 2 ^ 8 + 1) % 2 ^ 16 = (i.toNat - 1) / 8 % 256 + 1
      omega
    have hindex : (20 - (((i - 1) / 8).toUInt8.toUInt16 + 1)).toNat =
        (2 ^ 16 - ((i.toNat - 1) / 8 % 256 + 1) + 20) % 2 ^ 16 := by
      rw [UInt16.toNat_sub, hbyte]
      rfl
    rw [if_neg hzero, if_neg hzero]
    refine congrArg Except.ok ?_
    by_cases hlt : (i.toNat - 1) / 8 % 256 < 20
    · have hsame : 20 - (((i - 1) / 8).toUInt8.toUInt16 + 1) =
          UInt16.ofNat (20 - (i.toNat - 1) / 8 % 256) - 1 := by
        apply UInt16.toNat_inj.mp
        rw [hindex, UInt16.toNat_sub, UInt16.toNat_ofNat']
        change _ = (2 ^ 16 - 1 + (20 - (i.toNat - 1) / 8 % 256) % 2 ^ 16) % 2 ^ 16
        omega
      rw [hsame, findIndexHashWhile_eq (by omega) d (by rw [hbit]; omega), hbit]
    · have hnone : 20 - (i.toNat - 1) / 8 % 256 = 0 := by omega
      rw [findIndexHashWhile, dif_neg (by rw [hindex]; omega), hnone, findIndexHashLoop]

/-- For the 160 fingers `FindIndexHash` writes the big-endian bytes of the sum of the
digest and `2 ^ (i - 1)`, modulo `2 ^ 160`. -/
theorem findIndexHashCounted_encodes (d : Digest) (i : UInt16) (hpos : 1 ≤ i.toNat)
    (hi : i.toNat ≤ 160) :
    findIndexHashCounted d i =
      .ok (Digest.ofNat ((d.pos.val + 2 ^ (i.toNat - 1)) % 2 ^ 160)) := by
  obtain ⟨e, he, hstart⟩ := findIndexHash_pos d hpos hi
  have hval : e.pos.val = (d.pos.val + 2 ^ (i.toNat - 1)) % 2 ^ 160 := congrArg Fin.val hstart
  rw [findIndexHashCounted_eq, he, ← hval, Digest.ofNat_val_pos]

/-- The carry runs through all bytes and out of the top one. -/
theorem findIndexHashCounted_encodes_ones :
    findIndexHashCounted (Vector.replicate 20 255) 1 = .ok (Vector.replicate 20 0) := by
  rw [findIndexHashCounted_encodes (Vector.replicate 20 255) 1 (by decide) (by decide)]
  decide

end PennSearch
