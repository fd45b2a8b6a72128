import PennSearch.Chord.FingerStart
import PennSearch.Chord.Routing
import PennSearch.Chord.Stabilization

/-!
# A finger pass on a stable ring

The pass of node `a` has the fingers below some index right. The finger before
serves the next start point too, or lies in front of it, and then it is asked: the
request travels over members that are closer and closer to the start point, none
of which is `a`, and comes back with the owner.
-/

namespace PennSearch

open Clockwise MessagePassing

section Positions

variable {x f : Fin (2 ^ 160)} {i : ℕ}

theorem two_pow_start (hi : 2 ≤ i) (h160 : i ≤ 160) :
    2 ^ (i - 1) = 2 * 2 ^ (i - 1 - 1) ∧ 2 * 2 ^ (i - 1 - 1) ≤ 2 ^ 159 := by
  have hsucc : i - 1 = i - 1 - 1 + 1 := by omega
  have hpow : 2 ^ (i - 1) = 2 * 2 ^ (i - 1 - 1) := by
    nth_rewrite 1 [hsucc]
    rw [pow_succ, Nat.mul_comm]
  refine ⟨hpow, ?_⟩
  rw [← hpow]
  exact Nat.pow_le_pow_right (by omega) (by omega)

theorem cwDist_fingerStart (x : Fin (2 ^ 160)) (h160 : i ≤ 160) :
    cwDist x (fingerStart x i) = 2 ^ (i - 1) := by
  have hlt : 2 ^ (i - 1) < 2 ^ 160 := Nat.pow_lt_pow_right (by omega) (by omega)
  have hcases := cwDist_cases x (fingerStart x i)
  have hval : (fingerStart x i).val = (x.val + 2 ^ (i - 1)) % 2 ^ 160 := rfl
  generalize 2 ^ (i - 1) = d at *
  omega

/-- A finger that does not serve start point `i` lies at most half as far before it
as the node. -/
theorem cwDist_lt_of_not_reuses [Sha1] {finger : Ipv4Address} (hi : 2 ≤ i) (h160 : i ≤ 160)
    (h : ¬ Reuses x finger i) : cwDist (nodePos finger) (fingerStart x i) < 2 ^ (i - 1) := by
  obtain ⟨hne, hlt⟩ := not_or.mp h
  obtain ⟨hpow, hbound⟩ := two_pow_start hi h160
  have d₁ := cwDist_fingerStart (i := i) x h160
  have d₂ := cwDist_fingerStart (i := i - 1) x (by omega)
  have c₁ := cwDist_cases x (fingerStart x i)
  have c₂ := cwDist_cases x (fingerStart x (i - 1))
  have c₃ := cwDist_cases (fingerStart x (i - 1)) (fingerStart x i)
  have c₄ := cwDist_cases (fingerStart x (i - 1)) (nodePos finger)
  have c₅ := cwDist_cases (nodePos finger) (fingerStart x i)
  rw [hpow] at *
  generalize 2 ^ (i - 1 - 1) = d at *
  omega

theorem isOwner_fingerStart_one [Sha1] {R : Finset Ipv4Address} {a s : Ipv4Address}
    (h : IsNext nodePos R a s) : IsOwner nodePos R (fingerStart (nodePos a) 1) s := by
  refine ⟨h.1, fun c hc => ?_⟩
  have h₁ := h.2 c hc
  have d := cwDist_fingerStart (i := 1) (nodePos a) (by omega)
  have c₁ := cwDist_cases (nodePos a) (fingerStart (nodePos a) 1)
  have c₂ := cwDist_cases (nodePos a) (nodePos s)
  have c₃ := cwDist_cases (nodePos a) (nodePos c)
  have c₄ := cwDist_cases (fingerStart (nodePos a) 1) (nodePos s)
  have c₅ := cwDist_cases (fingerStart (nodePos a) 1) (nodePos c)
  have t₁ := cwTurn_cases (nodePos a) (nodePos s)
  have t₂ := cwTurn_cases (nodePos a) (nodePos c)
  simp only [Nat.sub_self, pow_zero] at d
  omega

end Positions

variable [Sha1]

def FingersRight (R : Finset Ipv4Address) (a : Ipv4Address) (n : ChordNode) (i : ℕ) : Prop :=
  ∀ m, 1 ≤ m → m < i → ∃ finger, n.fingerTable[UInt16.ofNat m]? = some finger ∧
    IsOwner nodePos R (fingerStart (nodePos a) m) finger

def PassDone (R : Finset Ipv4Address) (a : Ipv4Address) (c : ChordNet) : Prop :=
  c.inFlight = [] ∧ (c.node a).fixFingerTimer = true ∧ FingersRight R a (c.node a) 161

def ChordNet.Delivers (c : ChordNet) : ChordEvent → Prop
  | .deliver k => k < c.inFlight.length
  | _ => False

section Pass

variable {R : Finset Ipv4Address} {a : Ipv4Address} {n : ChordNode} {i : ℕ} {finger : Ipv4Address}

theorem isOwner_of_reuses (hgeneral : nodePos finger ≠ fingerStart (nodePos a) (i - 1))
    (h : IsOwner nodePos R (fingerStart (nodePos a) (i - 1)) finger)
    (hreuse : Reuses (nodePos a) finger i) :
    IsOwner nodePos R (fingerStart (nodePos a) i) finger :=
  h.of_inArc hreuse hgeneral.symm

/-- A call of `SendFindFinger` with the fingers right up to the last one ends the
pass with all fingers right, or asks the last one for the first finger that it does
not serve. -/
theorem sendFindFinger_right
    (hgeneral : ∀ b ∈ R, ∀ m, 1 ≤ m → m ≤ 160 → nodePos b ≠ fingerStart (nodePos a) m)
    (hlocal : n.localAddress = a) (htimer : n.fixFingerTimer = false) (hi : 2 ≤ i) (hi' : i ≤ 161)
    (hright : FingersRight R a n i) (hlast : n.fingerTable[UInt16.ofNat (i - 1)]? = some finger) :
    ∃ n' acts, n.sendFindFingerLoop (161 - i) = .ok (n', acts) ∧ n'.localAddress = a ∧
      ((acts = [] ∧ n'.fixFingerTimer = true ∧ FingersRight R a n' 161) ∨
        ∃ j tx e, i ≤ j ∧ j ≤ 160 ∧ n'.fixFingerTimer = false ∧ FingersRight R a n' j ∧
          ¬ Reuses (nodePos a) finger j ∧ e.pos = fingerStart (nodePos a) j ∧
            acts = [.sendTo finger ⟨tx, .findFinger a e (UInt16.ofNat j)⟩]) := by
  subst hlocal
  obtain ⟨j, t, hij, hall, htable, hend⟩ :=
    ChordNode.sendFindFingerLoop_spec (161 - i) hi (by omega) hlast
  have hbound : j ≤ 161 := by
    rcases hend with ⟨hj, -⟩ | ⟨hj, -⟩ <;> omega
  have hserves : ∀ m, i - 1 ≤ m → m < j →
      IsOwner nodePos R (fingerStart (nodePos n.localAddress) m) finger := by
    intro m hm
    induction m, hm using Nat.le_induction with
    | base =>
        intro _
        obtain ⟨last, hget, howner⟩ := hright (i - 1) (by omega) (by omega)
        rw [hlast] at hget
        rwa [Option.some.inj hget]
    | succ m hm ih =>
        intro hmj
        have howner := ih (by omega)
        exact isOwner_of_reuses (hgeneral _ howner.1 _ (by omega) (by omega)) howner
          (hall (m + 1) (by omega) hmj)
  have hright' : ∀ n' : ChordNode, n'.fingerTable = t → FingersRight R n.localAddress n' j := by
    intro n' ht m hm hmj
    have htoNat : (UInt16.ofNat m).toNat = m := by
      rw [UInt16.toNat_ofNat']
      omega
    rw [ht, htable, htoNat]
    by_cases him : i ≤ m
    · rw [if_pos ⟨him, hmj⟩]
      exact ⟨finger, rfl, hserves m (by omega) hmj⟩
    · rw [if_neg fun h => him h.1]
      exact hright m hm (by omega)
  rcases hend with ⟨rfl, hend⟩ | ⟨hj, hreuse, e, he, hend⟩
  · refine ⟨_, _, hend.trans (if_neg (by simp [htimer])), rfl, Or.inl ⟨rfl, rfl, ?_⟩⟩
    exact hright' _ rfl
  · exact ⟨_, _, hend, rfl, Or.inr ⟨j, _, e, hij, hj, htimer, hright' _ rfl, hreuse, he, rfl⟩⟩

end Pass

namespace ChordNet

variable {c u v : ChordNet} {R : Finset Ipv4Address} {a : Ipv4Address} {i : ℕ}

theorem reaches_of_packet {P : ChordNet → Prop} {p : ChordPacket} {n : ChordNode}
    {acts : List ChordAction} (hflight : u.inFlight = [p]) (hP : ¬ P u)
    (hrecv : (u.node p.dst).recvMessage p.msg p.src = .ok (n, acts))
    (hnext : Reaches step Delivers (fun _ => True) P
      ⟨Function.update u.node p.dst n, sentPackets p.dst acts⟩) :
    Reaches step Delivers (fun _ => True) P u := by
  have hp : u.inFlight[0]? = some p := by rw [hflight]; rfl
  have hact : (u.take 0).act p.dst n (sentPackets p.dst acts) =
      ⟨Function.update u.node p.dst n, sentPackets p.dst acts⟩ := by
    simp [Net.act, hflight]
  have honly : ∀ e, u.Delivers e → e = .deliver 0 := by
    intro e he
    cases e with
    | deliver k =>
        have hk : k < u.inFlight.length := he
        rw [hflight, List.length_singleton, Nat.lt_one_iff] at hk
        rw [hk]
    | _ => exact he.elim
  refine (reaches_iff_of_only hP trivial (e := .deliver 0) ?_ honly).mpr
    ⟨_, step_deliver hp hrecv, by rwa [hact]⟩
  rw [Delivers, hflight]
  exact Nat.zero_lt_one

/-- The pass of `a` has come to finger `i`: those before it are right, and the
other nodes are as they were. -/
structure PassAt (c : ChordNet) (R : Finset Ipv4Address) (a : Ipv4Address) (i : ℕ)
    (u : ChordNet) : Prop where
  others : ∀ b, b ≠ a → u.node b = c.node b
  localAddress : (u.node a).localAddress = a
  fixFingerTimer : (u.node a).fixFingerTimer = false
  right : FingersRight R a (u.node a) i

/-- What the pass needs of the other members, and of the digests. -/
structure PassReady (c : ChordNet) (R : Finset Ipv4Address) (a : Ipv4Address) : Prop where
  distinct : Set.InjOn nodePos (R : Set Ipv4Address)
  ring : StableRing c.node R
  mem : a ∈ R
  fingers : ∀ b ∈ R, b ≠ a → ¬ (c.node b).fingerTable.isEmpty ∧
    ∀ (i : UInt16) (finger : Ipv4Address), (c.node b).fingerTable[i]? = some finger → finger ∈ R
  general : ∀ b ∈ R, ∀ i, 1 ≤ i → i ≤ 160 → nodePos b ≠ fingerStart (nodePos a) i

theorem PassAt.not_passDone (h : PassAt c R a i u) : ¬ PassDone R a u := by
  rintro ⟨-, htimer, -⟩
  rw [h.fixFingerTimer] at htimer
  cases htimer

/-- A request for finger `i` that is closer to its start point than `a` is
answered with the owner of the start point. The induction is on the distance. -/
theorem PassReady.reaches_of_request (hready : PassReady c R a) (hi : 2 ≤ i) (h160 : i ≤ 160)
    (hanswer : ∀ v src tx finger, PassAt c R a i v → v.inFlight =
        [⟨src, a, ⟨tx, .findFingerSuccess finger (UInt16.ofNat i)⟩⟩] →
      IsOwner nodePos R (fingerStart (nodePos a) i) finger →
        Reaches step Delivers (fun _ => True) (PassDone R a) v) (d : ℕ) :
    ∀ {u : ChordNet} {src b : Ipv4Address} {tx : UInt32} {e : Digest}, PassAt c R a i u →
      u.inFlight = [⟨src, b, ⟨tx, .findFinger a e (UInt16.ofNat i)⟩⟩] →
      e.pos = fingerStart (nodePos a) i → b ∈ R → cwDist (nodePos b) e.pos = d → d < 2 ^ (i - 1) →
        Reaches step Delivers (fun _ => True) (PassDone R a) u := by
  induction d using Nat.strongRecOn with
  | ind d ih =>
      intro u src b tx e hu hflight he hb hd hlt
      have hba : b ≠ a := by
        rintro rfl
        rw [he, cwDist_fingerStart _ h160] at hd
        omega
      have hnode := hu.others b hba
      have hat : ∀ sent, PassAt c R a i ⟨Function.update u.node b (u.node b), sent⟩ := by
        intro sent
        rw [Function.update_eq_self]
        exact ⟨hu.others, hu.localAddress, hu.fixFingerTimer, hu.right⟩
      have htarget : (⟨tx, .findFinger a e (UInt16.ofNat i)⟩ : PennChordMessage).target =
          some e := rfl
      have hrecv := (u.node b).recvMessage_of_target htarget src
      have hloc : (c.node b).localAddress = b := hready.ring.localAddress b hb
      by_cases hown : (u.node b).inOwnArc e.pos
      · rw [if_pos hown] at hrecv
        refine reaches_of_packet hflight hu.not_passDone hrecv ?_
        have howner : IsOwner nodePos R (fingerStart (nodePos a) i) (u.node b).successorAddr := by
          rw [hnode] at hown ⊢
          rw [← he]
          refine hready.ring.owner_of_inOwnArc hb hown fun heq => ?_
          exact absurd (heq.trans he) (hready.general b hb i (by omega) h160)
        have ha : a ≠ .getAny := fun h => hready.ring.getAny_notMem (h ▸ hready.mem)
        refine hanswer _ b tx _ (hat _) ?_ howner
        simp [sentPackets, PennChordMessage.requester, PennChordMessage.answer, ha]
      · obtain ⟨hfilled, hfingers⟩ := hready.fingers b hb hba
        obtain ⟨hop, hhop⟩ := ChordNode.findNextHop_isOk e (hnode ▸ hfilled)
        rw [if_neg hown, hhop] at hrecv
        refine reaches_of_packet hflight hu.not_passDone hrecv ?_
        rw [hnode] at hhop hown
        have hknows : (c.node b).KnowsOnly R := ⟨by rw [hloc]; exact hb, hfingers⟩
        have hcloser := ChordNode.findNextHop_closer hready.distinct hknows hown hhop
        rw [hloc] at hcloser
        have hhopR : hop ∈ R := by
          rcases ChordNode.findNextHop_spec hhop with rfl | ⟨⟨m, hm⟩, -⟩
          · exact hready.ring.successor_mem hb
          · exact hfingers m hop hm
        have hhop0 : hop ≠ .getAny := fun h => hready.ring.getAny_notMem (h ▸ hhopR)
        have hsent : sentPackets b [.sendTo hop ⟨tx, .findFinger a e (UInt16.ofNat i)⟩] =
            [⟨b, hop, ⟨tx, .findFinger a e (UInt16.ofNat i)⟩⟩] := by
          simp [sentPackets, hhop0]
        exact ih _ (hd ▸ hcloser) (hat _) hsent he hhopR rfl (by omega)

/-- What `SendFindFinger` leaves behind, at the start of a pass and after an answer:
the pass is over, or its request is on the way. -/
theorem PassReady.reaches_of_sendFindFinger (hready : PassReady c R a) (hi : 2 ≤ i) (hi' : i ≤ 161)
    {n : ChordNode} {finger : Ipv4Address} (hothers : ∀ b, b ≠ a → u.node b = c.node b)
    (hlocal : n.localAddress = a) (htimer : n.fixFingerTimer = false)
    (hright : FingersRight R a n i) (hlast : n.fingerTable[UInt16.ofNat (i - 1)]? = some finger)
    (hanswer : ∀ j v src tx finger, i ≤ j → j ≤ 160 → PassAt c R a j v → v.inFlight =
        [⟨src, a, ⟨tx, .findFingerSuccess finger (UInt16.ofNat j)⟩⟩] →
      IsOwner nodePos R (fingerStart (nodePos a) j) finger →
        Reaches step Delivers (fun _ => True) (PassDone R a) v) :
    ∃ n' acts, n.sendFindFingerLoop (161 - i) = .ok (n', acts) ∧
      Reaches step Delivers (fun _ => True) (PassDone R a)
        ⟨Function.update u.node a n', sentPackets a acts⟩ := by
  obtain ⟨n', acts, hsend, hlocal', hend⟩ :=
    sendFindFinger_right hready.general hlocal htimer hi hi' hright hlast
  have hself : ∀ sent, (⟨Function.update u.node a n', sent⟩ : ChordNet).node a = n' :=
    fun _ => Function.update_self a n' u.node
  refine ⟨n', acts, hsend, ?_⟩
  rcases hend with ⟨rfl, hdone, hall⟩ | ⟨j, tx, e, hij, hj, hoff, hall, hreuse, he, rfl⟩
  · refine .now ⟨rfl, ?_, ?_⟩
    · rw [hself]
      exact hdone
    · rw [hself]
      exact hall
  · have hfinger : finger ∈ R := by
      obtain ⟨last, hget, howner⟩ := hright (i - 1) (by omega) (by omega)
      rw [hlast] at hget
      rw [Option.some.inj hget]
      exact howner.1
    have hfinger0 : finger ≠ .getAny := fun h => hready.ring.getAny_notMem (h ▸ hfinger)
    have hsent : sentPackets a [.sendTo finger ⟨tx, .findFinger a e (UInt16.ofNat j)⟩] =
        [⟨a, finger, ⟨tx, .findFinger a e (UInt16.ofNat j)⟩⟩] := by
      simp [sentPackets, hfinger0]
    rw [hsent]
    have hat : PassAt c R a j ⟨Function.update u.node a n',
        [⟨a, finger, ⟨tx, .findFinger a e (UInt16.ofNat j)⟩⟩]⟩ := by
      refine ⟨fun b hb => ?_, ?_, ?_, ?_⟩
      · exact (Function.update_of_ne hb _ _).trans (hothers b hb)
      · rw [hself]
        exact hlocal'
      · rw [hself]
        exact hoff
      · rw [hself]
        exact hall
    have hlt := cwDist_lt_of_not_reuses (by omega) hj hreuse
    rw [← he] at hlt
    exact hready.reaches_of_request (by omega) hj (fun v src tx finger =>
      hanswer j v src tx finger hij hj)
      _ hat rfl he hfinger rfl hlt

/-- An answer is entered into the table, and the pass goes on. The induction is on
the number of fingers left. -/
theorem PassReady.reaches_of_answer (hready : PassReady c R a) (k : ℕ) :
    ∀ {u : ChordNet} {i : ℕ} {src : Ipv4Address} {tx : UInt32} {finger : Ipv4Address},
      i + k = 160 → 2 ≤ i → PassAt c R a i u →
      u.inFlight = [⟨src, a, ⟨tx, .findFingerSuccess finger (UInt16.ofNat i)⟩⟩] →
      IsOwner nodePos R (fingerStart (nodePos a) i) finger →
        Reaches step Delivers (fun _ => True) (PassDone R a) u := by
  induction k using Nat.strongRecOn with
  | ind k ih =>
      intro u i src tx finger hik hi hu hflight howner
      let n : ChordNode := { u.node a with
        fingerTable := (u.node a).fingerTable.insert (UInt16.ofNat i) finger }
      have htoNat : ∀ m ≤ 161, (UInt16.ofNat m).toNat = m := by
        intro m hm
        rw [UInt16.toNat_ofNat']
        omega
      have hright : FingersRight R a n (i + 1) := by
        intro m hm hmi
        by_cases heq : m = i
        · rw [heq]
          exact ⟨finger, by simp [n], howner⟩
        · have hne : UInt16.ofNat i ≠ UInt16.ofNat m := by
            intro h
            have := congrArg UInt16.toNat h
            rw [htoNat i (by omega), htoNat m (by omega)] at this
            exact heq this.symm
          obtain ⟨f, hf, hown⟩ := hu.right m hm (by omega)
          exact ⟨f, by simp [n, Std.TreeMap.getElem?_insert, hne, hf], hown⟩
      have hlast : n.fingerTable[UInt16.ofNat (i + 1 - 1)]? = some finger := by simp [n]
      obtain ⟨n', acts, hsend, hreach⟩ := hready.reaches_of_sendFindFinger (i := i + 1) (u := u)
        (by omega) (by omega) hu.others (n := n) hu.localAddress hu.fixFingerTimer hright hlast
        fun j v src tx finger hij hj hat hfl hown =>
          ih (160 - j) (by omega) (by omega) (by omega) hat hfl hown
      have hsucc : UInt16.ofNat i + 1 = UInt16.ofNat (i + 1) := by
        apply UInt16.toNat_inj.mp
        rw [UInt16.toNat_add, htoNat i (by omega), htoNat (i + 1) (by omega)]
        simp
        omega
      refine reaches_of_packet hflight hu.not_passDone ?_ hreach
      change n.sendFindFinger (UInt16.ofNat i + 1) = _
      rw [hsucc, ChordNode.sendFindFinger, htoNat (i + 1) (by omega)]
      exact hsend

end ChordNet

/-- A finger pass is correct. On a stable ring of at least two members, where the
other members have fingers, all of them members, and no member sits at a start
point, the pass that `FixFinger` starts at `a` does not fail, whatever is in the
table of `a`, and ends with every finger the first member at or after its start
point. -/
theorem finger_pass {c : ChordNet} {R : Finset Ipv4Address} {a : Ipv4Address}
    (hinj : Set.InjOn nodePos (R : Set Ipv4Address)) (hstable : StableNet c R)
    (hcard : 2 ≤ R.card) (ha : a ∈ R)
    (hfingers : ∀ b ∈ R, b ≠ a → ¬ (c.node b).fingerTable.isEmpty ∧
      ∀ (i : UInt16) (finger : Ipv4Address), (c.node b).fingerTable[i]? = some finger → finger ∈ R)
    (hgeneral : ∀ b ∈ R, ∀ i, 1 ≤ i → i ≤ 160 → nodePos b ≠ fingerStart (nodePos a) i)
    (htimer : (c.node a).fixFingerTimer = true) :
    ∃ c', c.step (.fixFinger a) = .ok c' ∧
      Reaches ChordNet.step ChordNet.Delivers (fun _ => True) (PassDone R a) c' := by
  have hready : c.PassReady R a := ⟨hinj, hstable.ring, ha, hfingers, hgeneral⟩
  have hne : (c.node a).successorAddr ≠ (c.node a).localAddress := by
    intro hself
    rw [hstable.localAddress] at hself
    rw [hstable.ring.eq_singleton_of_self hinj ha hself, Finset.card_singleton] at hcard
    omega
  let n : ChordNode := { c.node a with
    fixFingerTimer := false
    fingerTable := (c.node a).fingerTable.insert 1 (c.node a).successorAddr }
  have hone : n.fingerTable[(1 : UInt16)]? = some (c.node a).successorAddr := by
    simp [n]
  have hright : FingersRight R a n 2 := by
    intro m hm hm2
    obtain rfl : m = 1 := by omega
    exact ⟨_, hone, isOwner_fingerStart_one (hstable.ring.successor a ha)⟩
  obtain ⟨n', acts, hsend, hreach⟩ := hready.reaches_of_sendFindFinger (i := 2) (u := c) (n := n)
    le_rfl (by omega) (fun _ _ => rfl) (hstable.localAddress a) rfl hright hone
    fun j v src tx finger hij hj hat hfl hown =>
      hready.reaches_of_answer (160 - j) (by omega) hij hat hfl hown
  have hfix : (c.node a).fixFinger = .ok (n', acts) := by
    rw [ChordNode.fixFinger, if_neg]
    · exact hsend
    · rintro (hout | hself)
      · rw [hstable.ring.status a ha] at hout
        cases hout
      · exact hne hself
  have hturn : c.turn (.fixFinger a) = some (c, a, .ok (n', acts)) := by
    simp [ChordNet.turn, htimer, hfix]
  refine ⟨_, ChordNet.step_of_turn hturn, ?_⟩
  · rw [show c.act a n' (sentPackets a acts) = ⟨Function.update c.node a n', sentPackets a acts⟩ by
      simp [Net.act, hstable.inFlight]]
    exact hreach

end PennSearch

namespace PennSearch

open Clockwise MessagePassing

attribute [local instance] sampleSha1

theorem samplePair_general : ∀ b ∈ ({sampleA, sampleB} : Finset Ipv4Address), ∀ i, 1 ≤ i → i ≤ 160 →
    nodePos b ≠ fingerStart (nodePos sampleA) i := by
  have hall : ∀ i < 161, 1 ≤ i → ∀ b ∈ ({sampleA, sampleB} : Finset Ipv4Address),
      nodePos b ≠ fingerStart (nodePos sampleA) i := by decide +kernel
  exact fun b hb i hi h160 => hall i (by omega) hi b hb

theorem finger_pass_sample :
    ∃ c', ChordNet.step ⟨samplePair, []⟩ (.fixFinger sampleA) = .ok c' ∧
      Reaches ChordNet.step ChordNet.Delivers (fun _ => True)
        (PassDone {sampleA, sampleB} sampleA) c' :=
  finger_pass samplePair_injOn samplePair_stable (by decide) (by decide)
    (fun b hb _ => samplePair_fingers b hb) samplePair_general rfl

end PennSearch
