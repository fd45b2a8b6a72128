import PennSearch.Chord.Spec

/-!
# Where the fingers start

`FindIndexHash` adds a power of two to a digest, byte by byte with carry. Read as
a number it is addition modulo `2 ^ 160`, so finger `i` starts `2 ^ (i - 1)`
positions after the node (`fingerStart`). With that a round of `SendFindFinger` is
one arc test, and a whole call of it copies the last finger up to the first start
point that lies beyond it.
-/

namespace PennSearch

open Clockwise

/-- The position `2 ^ (i - 1)` after `x` on the circle. -/
def fingerStart (x : Fin (2 ^ 160)) (i : ℕ) : Fin (2 ^ 160) :=
  ⟨(x.val + 2 ^ (i - 1)) % 2 ^ 160, Nat.mod_lt _ (by positivity)⟩

namespace Digest

theorem ofBytes_set (bs : List UInt8) {n : ℕ} (hn : n < bs.length) (b : UInt8) :
    ofBytes (bs.set n b) + bs[n].toNat * 256 ^ (bs.length - 1 - n) =
      ofBytes bs + b.toNat * 256 ^ (bs.length - 1 - n) := by
  induction bs generalizing n with
  | nil => cases hn
  | cons c bs ih =>
      cases n with
      | zero =>
          rw [List.set_cons_zero, ofBytes_cons, ofBytes_cons, List.getElem_cons_zero]
          simp only [List.length_cons, Nat.add_sub_cancel, Nat.sub_zero]
          ring
      | succ n =>
          have hn' : n < bs.length := Nat.lt_of_succ_lt_succ hn
          have hlen : (c :: bs).length - 1 - (n + 1) = bs.length - 1 - n := by
            rw [List.length_cons]
            omega
          rw [List.set_cons_succ, ofBytes_cons, ofBytes_cons, List.length_set,
            List.getElem_cons_succ, hlen]
          have hrest := ih hn'
          omega

end Digest

/-- The loop adds `byteAdded` in the place of the last byte before position `n`. -/
theorem findIndexHashLoop_spec (n : ℕ) (hn : n ≤ 20) :
    ∀ (d : Digest) (byteAdded : ℕ),
      Digest.ofBytes (findIndexHashLoop d n byteAdded).toList % 2 ^ 160 =
        (Digest.ofBytes d.toList + byteAdded * 256 ^ (20 - n)) % 2 ^ 160 := by
  induction n with
  | zero =>
      intro d byteAdded
      rw [findIndexHashLoop, Nat.sub_zero, show (256 : ℕ) ^ 20 = 2 ^ 160 by norm_num,
        Nat.add_mul_mod_self_right]
  | succ n ih =>
      intro d byteAdded
      have hlt : n < 20 := hn
      have hpow : (256 : ℕ) ^ (20 - n) = 256 * 256 ^ (20 - (n + 1)) := by
        rw [← pow_succ']
        congr 1
        omega
      have hset : ∀ b : UInt8, Digest.ofBytes (d.set n b).toList +
          d[n].toNat * 256 ^ (20 - (n + 1)) =
            Digest.ofBytes d.toList + b.toNat * 256 ^ (20 - (n + 1)) := by
        intro b
        have hlen : n < d.toList.length := by simpa using hlt
        have h := Digest.ofBytes_set d.toList hlen b
        have hexp : d.toList.length - 1 - n = 20 - (n + 1) := by
          simp
        rw [hexp, ← Vector.toList_set] at h
        exact h
      rw [findIndexHashLoop, dif_pos hlt]
      dsimp only
      split
      · rename_i hsmall
        have h := hset (UInt8.ofNat (d[n].toNat + byteAdded))
        have hbyte : (UInt8.ofNat (d[n].toNat + byteAdded)).toNat = d[n].toNat + byteAdded := by
          rw [UInt8.toNat_ofNat']
          omega
        rw [hbyte, Nat.add_mul] at h
        congr 1
        omega
      · rw [ih (by omega), hpow]
        have h := hset (UInt8.ofNat ((d[n].toNat + byteAdded) % 256))
        have hbyte : (UInt8.ofNat ((d[n].toNat + byteAdded) % 256)).toNat =
            (d[n].toNat + byteAdded) % 256 := by
          rw [UInt8.toNat_ofNat']
          omega
        have hdiv : (d[n].toNat + byteAdded) / 256 * (256 * 256 ^ (20 - (n + 1))) +
            (d[n].toNat + byteAdded) % 256 * 256 ^ (20 - (n + 1)) =
              d[n].toNat * 256 ^ (20 - (n + 1)) + byteAdded * 256 ^ (20 - (n + 1)) := by
          rw [← Nat.mul_assoc, ← Nat.add_mul, ← Nat.add_mul, Nat.div_add_mod']
        rw [hbyte] at h
        congr 1
        omega

theorem findIndexHash_pos (d : Digest) {i : UInt16} (hpos : 1 ≤ i.toNat) (hi : i.toNat ≤ 160) :
    ∃ e, findIndexHash d i = .ok e ∧ e.pos = fingerStart d.pos i.toNat := by
  have hne : i ≠ 0 := by
    rintro rfl
    simp at hpos
  have hbyte : (i.toNat - 1) / 8 % 256 = (i.toNat - 1) / 8 := Nat.mod_eq_of_lt (by omega)
  rw [findIndexHash, if_neg hne, hbyte]
  refine ⟨_, rfl, Fin.ext ?_⟩
  have h := findIndexHashLoop_spec (20 - (i.toNat - 1) / 8) (by omega) d (2 ^ ((i.toNat - 1) % 8))
  have hexp : 20 - (20 - (i.toNat - 1) / 8) = (i.toNat - 1) / 8 := by omega
  have hpow : 2 ^ ((i.toNat - 1) % 8) * 256 ^ ((i.toNat - 1) / 8) = 2 ^ (i.toNat - 1) := by
    rw [show (256 : ℕ) = 2 ^ 8 by norm_num, ← pow_mul, ← pow_add, Nat.mod_add_div]
  rw [hexp, hpow, Nat.mod_eq_of_lt (Digest.toNat_lt _)] at h
  exact h

variable [Sha1]

/-- The last finger lies at or after the start point of finger `i`, so it is
finger `i` as well. -/
def Reuses (x : Fin (2 ^ 160)) (finger : Ipv4Address) (i : ℕ) : Prop :=
  InArc (fingerStart x (i - 1)) (nodePos finger) (fingerStart x i)

instance (x : Fin (2 ^ 160)) (finger : Ipv4Address) (i : ℕ) : Decidable (Reuses x finger i) :=
  inferInstanceAs (Decidable (InArc _ _ _))

namespace ChordNode

/-- One round of the loop of `SendFindFinger` at index `i`. -/
theorem sendFindFingerLoop_succ {n : ChordNode} {i k : ℕ} (hi : 2 ≤ i) (hk : i + k = 160)
    {finger : Ipv4Address} (hprev : n.fingerTable[UInt16.ofNat (i - 1)]? = some finger) :
    ∃ e : Digest, e.pos = fingerStart (nodePos n.localAddress) i ∧
      n.sendFindFingerLoop (k + 1) =
        if Reuses (nodePos n.localAddress) finger i then
          { n with
            fingerTable := n.fingerTable.insert (UInt16.ofNat i) finger }.sendFindFingerLoop k
        else .ok (n.nextTransactionId, [.sendTo finger
          ⟨n.currentTransactionId, .findFinger n.localAddress e (UInt16.ofNat i)⟩]) := by
  have hsub : 160 - k = i := by omega
  have htoNat : (UInt16.ofNat i).toNat = i := by
    rw [UInt16.toNat_ofNat']
    omega
  have hpred : UInt16.ofNat i - 1 = UInt16.ofNat (i - 1) := by
    apply UInt16.toNat_inj.mp
    rw [UInt16.toNat_sub_of_le _ _
        (by rw [UInt16.le_iff_toNat_le, htoNat]; exact (by omega : 1 ≤ i)),
      htoNat, UInt16.toNat_ofNat']
    simp
    omega
  have htoNat' : (UInt16.ofNat (i - 1)).toNat = i - 1 := by
    rw [UInt16.toNat_ofNat']
    omega
  obtain ⟨e, he, hpos⟩ := findIndexHash_pos n.localDigest
      (i := UInt16.ofNat i) (by omega) (by omega)
  obtain ⟨e', he', hpos'⟩ :=
    findIndexHash_pos n.localDigest (i := UInt16.ofNat (i - 1)) (by omega) (by omega)
  rw [htoNat] at hpos
  rw [htoNat'] at hpos'
  refine ⟨e, hpos, ?_⟩
  rw [sendFindFingerLoop, hsub, hpred, he, he', hprev]
  refine Eq.trans (ite_compareSHA1 (a := e') (b := sha1 finger) (t := e) or_comm Iff.rfl _ _) ?_
  rw [hpos, hpos']
  rfl

/-- A whole call of `SendFindFinger` at index `i`: the last finger is copied up to
an index `j` that it does not serve, and is asked for finger `j`; when there is no
such index, the pass is over. -/
theorem sendFindFingerLoop_spec {finger : Ipv4Address} (k : ℕ) :
    ∀ {n : ChordNode} {i : ℕ}, 2 ≤ i → i + k = 161 →
      n.fingerTable[UInt16.ofNat (i - 1)]? = some finger →
      ∃ (j : ℕ) (t : Std.TreeMap UInt16 Ipv4Address), i ≤ j ∧
        (∀ m, i ≤ m → m < j → Reuses (nodePos n.localAddress) finger m) ∧
        (∀ m : UInt16, t[m]? =
          if i ≤ m.toNat ∧ m.toNat < j then some finger else n.fingerTable[m]?) ∧
        ((j = 161 ∧
            n.sendFindFingerLoop k = { n with fingerTable := t }.scheduleFixFinger) ∨
          (j ≤ 160 ∧ ¬ Reuses (nodePos n.localAddress) finger j ∧
            ∃ e : Digest, e.pos = fingerStart (nodePos n.localAddress) j ∧
              n.sendFindFingerLoop k =
                .ok ({ n.nextTransactionId with fingerTable := t }, [.sendTo finger
                  ⟨n.currentTransactionId, .findFinger n.localAddress e (UInt16.ofNat j)⟩]))) := by
  induction k with
  | zero =>
      intro n i _ hk _
      refine ⟨i, n.fingerTable, le_rfl, fun m hm hm' => absurd hm' (by omega), fun m => ?_,
        Or.inl ⟨hk, rfl⟩⟩
      rw [if_neg (by omega)]
  | succ k ih =>
      intro n i hi hk hprev
      have hik : i + k = 160 := by omega
      obtain ⟨e, hpos, hround⟩ := sendFindFingerLoop_succ hi hik hprev
      by_cases hreuse : Reuses (nodePos n.localAddress) finger i
      · rw [if_pos hreuse] at hround
        let n' : ChordNode :=
          { n with fingerTable := n.fingerTable.insert (UInt16.ofNat i) finger }
        have hnext : n'.fingerTable[UInt16.ofNat (i + 1 - 1)]? = some finger := by
          simp [n']
        obtain ⟨j, t, hij, hall, htable, hend⟩ := ih (by omega) (by omega) hnext
        refine ⟨j, t, by omega, fun m hm hmj => ?_, fun m => ?_, ?_⟩
        · by_cases hmi : m = i
          · rw [hmi]
            exact hreuse
          · exact hall m (by omega) hmj
        · rw [htable m]
          have htoNat : (UInt16.ofNat i).toNat = i := by
            rw [UInt16.toNat_ofNat']
            omega
          by_cases hmi : m.toNat = i
          · obtain rfl : UInt16.ofNat i = m := UInt16.toNat_inj.mp (htoNat.trans hmi.symm)
            rw [if_neg (by omega), if_pos (by omega)]
            simp [n']
          · have hne : UInt16.ofNat i ≠ m := by
              rintro rfl
              exact hmi htoNat
            have hrange : (i + 1 ≤ m.toNat ∧ m.toNat < j) ↔ (i ≤ m.toNat ∧ m.toNat < j) := by
              omega
            have hkeep : n'.fingerTable[m]? = n.fingerTable[m]? := by
              simp [n', Std.TreeMap.getElem?_insert, hne]
            rw [hkeep]
            simp only [hrange]
        · rw [hround]
          exact hend
      · rw [if_neg hreuse] at hround
        refine ⟨i, n.fingerTable, le_rfl, fun m hm hm' => absurd hm' (by omega), fun m => ?_,
          Or.inr ⟨by omega, hreuse, e, hpos, hround⟩⟩
        rw [if_neg (by omega)]

end ChordNode

end PennSearch
