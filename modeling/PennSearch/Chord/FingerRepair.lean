import PennSearch.Chord.FingerPass
import PennSearch.Chord.FingerToken
import PennSearch.Chord.Fingers

/-!
# Finger repair on a stable ring

Any number of nodes may be in the middle of a pass, and everything else that does
not change the membership goes on around them. A pass that `FixFinger` starts
writes right entries only, asks members only, and is over when its timer runs again.
Entries from before, which may be wrong, are still in the table until then. So the
fingers of a member are right, and stay right, from its second `FixFinger` on.
-/

namespace PennSearch

open Clockwise MessagePassing

variable [Sha1] {R : Finset Ipv4Address} {a b : Ipv4Address} {n n' : ChordNode}
  {acts : List ChordAction} {i j : ℕ} {finger : Ipv4Address}

omit [Sha1] in
theorem toNat_ofNat_of_le (hi : i ≤ 161) : (UInt16.ofNat i).toNat = i := by
  rw [UInt16.toNat_ofNat']
  omega

/-! ## The indices in use -/

def ChordNode.IndicesValid (n : ChordNode) : Prop :=
  ∀ i ∈ n.fingerTable, 1 ≤ i.toNat ∧ i.toNat ≤ 160

def ChordPayload.IndexValid : ChordPayload → Prop
  | .findFinger _ _ i => 1 ≤ i.toNat ∧ i.toNat ≤ 160
  | .findFingerSuccess _ i => 1 ≤ i.toNat ∧ i.toNat ≤ 160
  | _ => True

structure ChordNet.IndicesValid (c : ChordNet) : Prop where
  table : ∀ a, (c.node a).IndicesValid
  packets : ∀ p ∈ c.inFlight, p.msg.payload.IndexValid

omit [Sha1] in
theorem ChordPayload.indexValid_of_isFinger {payload : ChordPayload}
    (h : payload.isFinger = false) : payload.IndexValid := by
  cases payload <;> trivial

omit [Sha1] in
theorem ChordNode.IndicesValid.insert (h : n.IndicesValid) (n' : ChordNode) {i : UInt16}
    (h1 : 1 ≤ i.toNat) (h160 : i.toNat ≤ 160)
    (ht : n'.fingerTable = n.fingerTable.insert i finger) :
    n'.IndicesValid := by
  intro m hm
  rw [ht, Std.TreeMap.mem_insert, Std.compare_eq_iff_eq] at hm
  rcases hm with rfl | hm
  · exact ⟨h1, h160⟩
  · exact h m hm

theorem ChordNode.IndicesValid.sendFindFinger (h : n.IndicesValid) (hi : 2 ≤ i) (hi' : i ≤ 161)
    (hlast : n.fingerTable[UInt16.ofNat (i - 1)]? = some finger)
    (hsend : n.sendFindFinger (UInt16.ofNat i) = .ok (n', acts)) :
    n'.IndicesValid ∧ ∀ dst message, .sendTo dst message ∈ acts → message.payload.IndexValid := by
  rw [ChordNode.sendFindFinger, toNat_ofNat_of_le hi'] at hsend
  obtain ⟨j, t, hij, -, htable, hend⟩ :=
    ChordNode.sendFindFingerLoop_spec (161 - i) hi (by omega) hlast
  have ht : j ≤ 161 → ∀ n' : ChordNode, n'.fingerTable = t → n'.IndicesValid := by
    intro hj n' hn m hm
    rw [hn, Std.TreeMap.mem_iff_isSome_getElem?, htable] at hm
    split at hm
    · omega
    · exact h m (Std.TreeMap.mem_iff_isSome_getElem?.mpr hm)
  rcases hend with ⟨rfl, hdone⟩ | ⟨hj, -, e, -, hask⟩
  · rw [hdone] at hsend
    obtain ⟨rfl, rfl⟩ := ChordNode.scheduleFixFinger_eq hsend
    exact ⟨ht le_rfl _ rfl, by simp⟩
  · rw [hask] at hsend
    obtain ⟨rfl, rfl⟩ := Prod.mk.inj (Except.ok.inj hsend)
    refine ⟨ht (by omega) _ rfl, fun dst message hmem => ?_⟩
    obtain ⟨-, rfl⟩ := ChordAction.sendTo.inj (List.mem_singleton.mp hmem)
    rw [ChordPayload.IndexValid, toNat_ofNat_of_le (by omega)]
    exact ⟨by omega, hj⟩

namespace ChordNet.IndicesValid

variable {c c' c₀ : ChordNet} {e : ChordEvent} {x : Ipv4Address}

theorem turn (h : c.IndicesValid) (hturn : c.turn e = some (c₀, x, .ok (n, acts)))
    (hn : n.IndicesValid)
    (hacts : ∀ dst message, .sendTo dst message ∈ acts → message.payload.IndexValid) :
    ChordNet.IndicesValid (c₀.act x n (sentPackets x acts)) := by
  refine ⟨fun a => ?_, fun p hp => ?_⟩
  · rw [Net.act_node, ChordNet.turn_node hturn]
    split
    · exact hn
    · exact h.table a
  · rcases List.mem_append.mp hp with hp | hp
    · exact h.packets p (ChordNet.turn_inFlight_subset hturn p hp)
    · exact hacts _ _ (mem_sentPackets.mp hp).2.2

theorem outOfPass (h : c.IndicesValid) (hturn : c.turn e = some (c₀, x, .ok (n, acts)))
    (hout : ChordNode.OutOfPass (c.node x) n acts)
    (htable : n.fingerTable = (c.node x).fingerTable ∨ n.fingerTable = ∅) :
    ChordNet.IndicesValid (c₀.act x n (sentPackets x acts)) := by
  refine h.turn hturn (fun i hi => ?_) fun dst message hmem =>
    ChordPayload.indexValid_of_isFinger (hout.acts _ hmem)
  rcases htable with htable | htable
  · exact h.table x i (htable ▸ hi)
  · rw [htable] at hi
    simp at hi

theorem step (h : c.IndicesValid) (hstep : c.step e = .ok c') : c'.IndicesValid := by
  rcases ChordNet.step_cases hstep with ⟨-, rfl⟩ | ⟨c₀, x, n, acts, hturn, rfl⟩
  · exact h
  · have hturn' := hturn
    cases e with
    | join y nodeAddr =>
        obtain ⟨rfl, rfl, hr⟩ : _ = _ ∧ _ = _ ∧ _ = _ := by simpa [ChordNet.turn] using hturn
        have hout := (c.node y).outOfPass_processJoinCommand nodeAddr
        have htable := (c.node y).processJoinCommand_fingerTable nodeAddr
        rw [hr] at hout htable
        exact h.outOfPass hturn' hout (Or.inl htable)
    | leave y =>
        obtain ⟨rfl, rfl, hr⟩ : _ = _ ∧ _ = _ ∧ _ = _ := by simpa [ChordNet.turn] using hturn
        have hout := (c.node y).outOfPass_processLeaveCommand
        have htable := (c.node y).processLeaveCommand_fingerTable
        rw [hr] at hout htable
        refine h.outOfPass hturn' hout ?_
        split at htable
        · exact Or.inr htable
        · exact Or.inl htable
    | stabilize y =>
        obtain ⟨rfl, rfl, hr⟩ : _ = _ ∧ _ = _ ∧ _ = _ := by simpa [ChordNet.turn] using hturn
        have hout := (c.node y).outOfPass_stabilize
        have htable := (c.node y).stabilize_fingerTable
        rw [hr] at hout htable
        exact h.outOfPass hturn' hout (Or.inl htable)
    | ringstate y =>
        obtain ⟨rfl, rfl, hr⟩ : _ = _ ∧ _ = _ ∧ _ = _ := by simpa [ChordNet.turn] using hturn
        have hout := (c.node y).outOfPass_processRingstateCommand
        have htable := (c.node y).processRingstateCommand_fingerTable
        rw [hr] at hout htable
        exact h.outOfPass hturn' hout (Or.inl htable)
    | lookupPublish y key flag tx =>
        obtain ⟨rfl, rfl, hr⟩ : _ = _ ∧ _ = _ ∧ _ = _ := by simpa [ChordNet.turn] using hturn
        exact h.outOfPass hturn' (ChordNode.outOfPass_lookupPublish hr)
          (Or.inl (by rw [ChordNode.lookupPublish_eq_self hr]))
    | fixFinger y =>
        simp only [ChordNet.turn] at hturn
        split at hturn
        · obtain ⟨rfl, rfl, hr⟩ : _ = _ ∧ _ = _ ∧ _ = _ := by simpa using hturn
          rcases ChordNode.fixFinger_cases hr with ⟨-, rfl, rfl⟩ | ⟨-, -, hsend⟩
          · exact h.turn hturn' (h.table y) (by simp)
          · have hfirst := (h.table y).insert { c.node y with
              fixFingerTimer := false
              fingerTable := (c.node y).fingerTable.insert 1 (c.node y).successorAddr }
              (i := 1) (by decide) (by decide) rfl
            have hlast : ((c.node y).fingerTable.insert 1 (c.node y).successorAddr)[
                UInt16.ofNat (2 - 1)]? = some (c.node y).successorAddr := by simp
            obtain ⟨hn, hacts⟩ := hfirst.sendFindFinger (i := 2) (by omega) (by omega) hlast hsend
            exact h.turn hturn' hn hacts
        · cases hturn
    | deliver k =>
        simp only [ChordNet.turn] at hturn
        split at hturn
        · cases hturn
        · rename_i p hp
          obtain ⟨rfl, rfl, hr⟩ : _ = _ ∧ _ = _ ∧ _ = _ := by simpa using hturn
          have hindex := h.packets p (mem_of_getElem? hp)
          cases hpayload : p.msg.payload with
          | findFinger a d i =>
              rw [hpayload] at hindex
              obtain ⟨rfl, hacts⟩ := ChordNode.recvMessage_target_cases p.msg p.src
                (by rw [PennChordMessage.target, hpayload]) hr
              refine h.turn hturn' (h.table p.dst) fun dst message hmem => ?_
              rcases hacts with ⟨-, rfl⟩ | ⟨-, hop, -, rfl⟩
              · obtain ⟨-, rfl⟩ := ChordAction.sendTo.inj (List.mem_singleton.mp hmem)
                rw [PennChordMessage.answer, hpayload]
                exact hindex
              · obtain ⟨-, rfl⟩ := ChordAction.sendTo.inj (List.mem_singleton.mp hmem)
                rw [hpayload]
                exact hindex
          | findFingerSuccess f i =>
              rw [hpayload] at hindex
              obtain ⟨h1, h160⟩ := hindex
              have hnext : i + 1 = UInt16.ofNat (i.toNat + 1) := by
                apply UInt16.toNat_inj.mp
                rw [UInt16.toNat_add, toNat_ofNat_of_le (by omega)]
                simp
                omega
              have hrecv : (c.node p.dst).processFindFingerSuccess f i = .ok (n, acts) := by
                obtain ⟨src, dst, tx, payload⟩ := p
                obtain rfl : payload = .findFingerSuccess f i := hpayload
                exact hr
              rw [ChordNode.processFindFingerSuccess, hnext] at hrecv
              have hinsert := (h.table p.dst).insert { c.node p.dst with
                fingerTable := (c.node p.dst).fingerTable.insert i f } h1 h160 rfl
              have hlast : ((c.node p.dst).fingerTable.insert i f)[
                  UInt16.ofNat (i.toNat + 1 - 1)]? = some f := by simp
              obtain ⟨hn, hacts⟩ := hinsert.sendFindFinger (i := i.toNat + 1) (by omega) (by omega)
                hlast hrecv
              exact h.turn hturn' hn hacts
          | _ =>
              exact h.outOfPass hturn' (ChordNode.outOfPass_recvMessage (by rw [hpayload]; rfl) hr)
                (Or.inl (ChordNode.recvMessage_fingerTable (by simp [hpayload]) hr))

/-- In every run from the start, the tables and the messages are about fingers 1
to 160. -/
theorem run {tx : Ipv4Address → UInt32} {es : List ChordEvent} {c : ChordNet}
    (hrun : Run ChordNet.step (fun _ _ => True) (ChordNet.start tx) es c) : c.IndicesValid :=
  hrun.invariant
    ⟨fun a i hi => by simp [ChordNet.start, ChordNode.start] at hi, by simp [ChordNet.start]⟩
    fun _ _ _ h _ hstep => h.step hstep

end ChordNet.IndicesValid
/-! ## What a pass writes -/

/-- Every entry of the table of `n'` is the one of `n`, or right. -/
def WritesRight (R : Finset Ipv4Address) (a : Ipv4Address) (n n' : ChordNode) : Prop :=
  ∀ m : UInt16, n'.fingerTable[m]? = n.fingerTable[m]? ∨
    1 ≤ m.toNat ∧ m.toNat ≤ 160 ∧ ∃ f, n'.fingerTable[m]? = some f ∧
      IsOwner nodePos R (fingerStart (nodePos a) m.toNat) f

theorem WritesRight.fingersRight (h : WritesRight R a n n') (hi : i ≤ 161)
    (hright : FingersRight R a n i) : FingersRight R a n' i := by
  intro m hm hmi
  have htoNat : (UInt16.ofNat m).toNat = m := by
    rw [UInt16.toNat_ofNat']
    omega
  rcases h (UInt16.ofNat m) with hsame | ⟨-, -, f, hf, howner⟩
  · rw [hsame]
    exact hright m hm hmi
  · rw [htoNat] at howner
    exact ⟨f, hf, howner⟩

def FingersValid (R : Finset Ipv4Address) (n : ChordNode) : Prop :=
  ∀ (i : UInt16) (f : Ipv4Address), n.fingerTable[i]? = some f →
    f ∈ R ∧ 1 ≤ i.toNat ∧ i.toNat ≤ 160

theorem WritesRight.fingersValid (h : WritesRight R a n n') (hvalid : FingersValid R n) :
    FingersValid R n' := by
  intro m f hf
  rcases h m with hsame | ⟨h1, h160, f', hf', howner⟩
  · exact hvalid m f (hsame ▸ hf)
  · rw [hf] at hf'
    exact ⟨Option.some.inj hf' ▸ howner.1, h1, h160⟩

theorem WritesRight.of_eq (h : n'.fingerTable = n.fingerTable) : WritesRight R a n n' :=
  fun m => Or.inl (by rw [h])

theorem WritesRight.trans {n₁ : ChordNode} (h : WritesRight R a n n₁)
    (h' : WritesRight R a n₁ n') : WritesRight R a n n' := by
  intro m
  rcases h' m with hsame | hright
  · rw [hsame]
    exact h m
  · exact Or.inr hright

theorem WritesRight.filled (h : WritesRight R a n n') (hfilled : ¬ n.fingerTable.isEmpty) :
    ¬ n'.fingerTable.isEmpty := by
  intro hempty
  refine hfilled (Std.TreeMap.isEmpty_iff_forall_not_mem.mpr fun m hm => ?_)
  have hnone := Std.TreeMap.isEmpty_iff_forall_not_mem.mp hempty m
  rw [Std.TreeMap.mem_iff_isSome_getElem?] at hm hnone
  rcases h m with hsame | ⟨-, -, f, hf, -⟩
  · exact hnone (hsame ▸ hm)
  · rw [hf] at hnone
    exact hnone rfl

theorem writesRight_insert (h1 : 1 ≤ i) (h160 : i ≤ 160)
    (howner : IsOwner nodePos R (fingerStart (nodePos a) i) finger)
    (ht : n'.fingerTable = n.fingerTable.insert (UInt16.ofNat i) finger) :
    WritesRight R a n n' := by
  intro m
  rw [ht, Std.TreeMap.getElem?_insert]
  by_cases hm : UInt16.ofNat i = m
  · subst hm
    rw [toNat_ofNat_of_le (by omega)]
    exact Or.inr ⟨h1, h160, finger, by simp, howner⟩
  · exact Or.inl (by simp [hm])

theorem fingersRight_insert (h160 : i ≤ 160) (hright : FingersRight R a n i)
    (howner : IsOwner nodePos R (fingerStart (nodePos a) i) finger)
    (ht : n'.fingerTable = n.fingerTable.insert (UInt16.ofNat i) finger) :
    FingersRight R a n' (i + 1) := by
  intro m hm hmi
  by_cases heq : m = i
  · subst heq
    exact ⟨finger, by rw [ht]; simp, howner⟩
  · obtain ⟨f, hf, hown⟩ := hright m hm (by omega)
    have hne : UInt16.ofNat i ≠ UInt16.ofNat m := by
      intro h
      have hnat := congrArg UInt16.toNat h
      rw [toNat_ofNat_of_le (by omega), toNat_ofNat_of_le (by omega)] at hnat
      exact heq hnat.symm
    exact ⟨f, by rw [ht]; simp [Std.TreeMap.getElem?_insert, hne, hf], hown⟩

/-- A call of `SendFindFinger` writes right entries. It ends the pass with all
fingers right, or asks for the first one that the last finger does not serve. -/
theorem sendFindFinger_writes
    (hgeneral : ∀ b ∈ R, ∀ m, 1 ≤ m → m ≤ 160 → nodePos b ≠ fingerStart (nodePos a) m)
    (hlocal : n.localAddress = a) (htimer : n.fixFingerTimer = false) (hi : 2 ≤ i) (hi' : i ≤ 161)
    (hright : FingersRight R a n i) (hlast : n.fingerTable[UInt16.ofNat (i - 1)]? = some finger)
    (h : n.sendFindFinger (UInt16.ofNat i) = .ok (n', acts)) :
    WritesRight R a n n' ∧
      ((acts = [] ∧ n'.fixFingerTimer = true ∧ FingersRight R a n' 161) ∨
        ∃ j tx e, 2 ≤ j ∧ j ≤ 160 ∧ FingersRight R a n' j ∧ e.pos = fingerStart (nodePos a) j ∧
          n'.fixFingerTimer = false ∧
          acts = [.sendTo finger ⟨tx, .findFinger a e (UInt16.ofNat j)⟩]) := by
  rw [ChordNode.sendFindFinger, toNat_ofNat_of_le hi'] at h
  obtain ⟨n₁, acts₁, hloop, -, hend⟩ :=
    sendFindFinger_right hgeneral hlocal htimer hi hi' hright hlast
  obtain ⟨rfl, rfl⟩ := Prod.mk.inj (Except.ok.inj (hloop.symm.trans h))
  subst hlocal
  obtain ⟨j, t, hij, -, htable, hspec⟩ :=
    ChordNode.sendFindFingerLoop_spec (161 - i) hi (by omega) hlast
  have hwrites : ∀ n' : ChordNode, n'.fingerTable = t → j ≤ 161 →
      FingersRight R n.localAddress n' j → WritesRight R n.localAddress n n' := by
    intro n' ht hj hright' m
    rw [ht, htable m]
    by_cases hm : i ≤ m.toNat ∧ m.toNat < j
    · obtain ⟨f, hf, howner⟩ := hright' m.toNat (by omega) hm.2
      rw [UInt16.ofNat_toNat, ht, htable m, if_pos hm] at hf
      exact Or.inr ⟨by omega, by omega, finger, if_pos hm, Option.some.inj hf ▸ howner⟩
    · exact Or.inl (if_neg hm)
  rcases hspec with ⟨rfl, hdone⟩ | ⟨hj, -, e, he, hask⟩
  · rw [hdone] at h
    obtain ⟨hn, rfl⟩ := ChordNode.scheduleFixFinger_eq h
    rcases hend with ⟨-, hon, hall⟩ | ⟨j', tx, e, -, -, -, -, -, -, hacts⟩
    · exact ⟨hwrites _ (by rw [hn]) le_rfl hall, Or.inl ⟨rfl, hon, hall⟩⟩
    · cases hacts
  · rw [hask] at h
    obtain ⟨rfl, rfl⟩ := Prod.mk.inj (Except.ok.inj h)
    rcases hend with ⟨hacts, -, -⟩ | ⟨j', tx, e', hij', hj', hoff, hall, -, he', hacts⟩
    · cases hacts
    · obtain rfl : j = j' := by
        have hidx : UInt16.ofNat j = UInt16.ofNat j' := by
          simp only [List.cons.injEq, ChordAction.sendTo.injEq, PennChordMessage.mk.injEq,
            ChordPayload.findFinger.injEq, and_true, true_and] at hacts
          exact hacts.2.2
        have hnat := congrArg UInt16.toNat hidx
        rwa [toNat_ofNat_of_le (by omega), toNat_ofNat_of_le (by omega)] at hnat
      exact ⟨hwrites _ rfl (by omega) hall, Or.inr ⟨j, _, e, by omega, hj, hall, he, hoff, rfl⟩⟩

/-! ## Along a run -/

/-- A packet of the pass of `a` at finger `i`: the request for the owner of the start
point, or the answer that names it. -/
structure PassPacket (R : Finset Ipv4Address) (a : Ipv4Address) (n : ChordNode) (p : ChordPacket) :
    Prop where
  mem : a ∈ R
  dst_mem : p.dst ∈ R
  payload : ∃ i, 2 ≤ i ∧ i ≤ 160 ∧ FingersRight R a n i ∧
    ((∃ e, p.msg.payload = .findFinger a e (UInt16.ofNat i) ∧ e.pos = fingerStart (nodePos a) i) ∨
      p.dst = a ∧ ∃ f, p.msg.payload = .findFingerSuccess f (UInt16.ofNat i) ∧
        IsOwner nodePos R (fingerStart (nodePos a) i) f)

theorem PassPacket.mono {p : ChordPacket} (h : PassPacket R a n p)
    (hwrites : WritesRight R a n n') : PassPacket R a n' p := by
  obtain ⟨i, hi, h160, hright, hpayload⟩ := h.payload
  exact ⟨h.mem, h.dst_mem, i, hi, h160, hwrites.fingersRight (by omega) hright, hpayload⟩

/-- A run on a stable ring whose passes waited for their timers: `es` has happened. -/
structure Repairing (R : Finset Ipv4Address) (es : List ChordEvent) (c : ChordNet) : Prop where
  settled : Settled R c.view
  localAddress : ∀ a, (c.node a).localAddress = a
  filled : ∀ a ∈ R, ¬ (c.node a).fingerTable.isEmpty
  valid : ∀ a ∈ R, FingersValid R (c.node a)
  token : ∀ a ∈ R, c.passes a = 1
  packets : ∀ p ∈ c.inFlight, p.msg.payload.isFinger = true →
    ∃ a, PassPacket R a (c.node a) p ∧ .fixFinger a ∈ es
  waiting : ∀ a ∈ R, .fixFinger a ∈ es → (c.node a).fixFingerTimer = true →
    FingersRight R a (c.node a) 161
  repaired : ∀ a ∈ R, 2 ≤ es.count (.fixFinger a) → FingersRight R a (c.node a) 161

/-- No command changes the membership, and the timer of a `FixFinger` runs. -/
def ChordNet.Undisturbed (c : ChordNet) : ChordEvent → Prop
  | .join _ _ => False
  | .leave _ => False
  | .fixFinger a => (c.node a).fixFingerTimer = true
  | _ => True

instance (c : ChordNet) (e : ChordEvent) : Decidable (c.Undisturbed e) :=
  match e with
  | .fixFinger _ => inferInstanceAs (Decidable (_ = _))
  | .ringstate _ | .stabilize _ | .lookupPublish .. | .deliver _ => .isTrue trivial
  | .join .. | .leave _ => .isFalse id

omit [Sha1] in
theorem ChordNet.Undisturbed.keepsMembers {c : ChordNet} {e : ChordEvent} (h : c.Undisturbed e) :
    e.KeepsMembers := by
  cases e with
  | join a nodeAddr => exact h
  | leave a => exact h
  | _ => trivial

namespace Repairing

variable {es : List ChordEvent} {c c' c₀ : ChordNet} {e : ChordEvent} {x : Ipv4Address}

omit [Sha1] in
theorem mem_of_ne (hne : a ≠ c.actor e) (h : .fixFinger a ∈ es ++ [e]) : .fixFinger a ∈ es := by
  rcases List.mem_append.mp h with h | h
  · exact h
  · rw [← List.mem_singleton.mp h] at hne
    exact absurd rfl hne

omit [Sha1] in
theorem count_of_ne (hne : a ≠ c.actor e) :
    (es ++ [e]).count (.fixFinger a) = es.count (.fixFinger a) := by
  rw [List.count_append, List.count_singleton, if_neg, Nat.add_zero]
  intro heq
  rw [beq_iff_eq] at heq
  rw [heq] at hne
  exact hne rfl

/-- A turn that writes right entries at the node that acts. -/
theorem turn (h : Repairing R es c) (hturn : c.turn e = some (c₀, x, .ok (n, acts)))
    (hc : c' = c₀.act x n (sentPackets x acts)) (hsettled : Settled R c'.view)
    (hlocal : ∀ a, (c'.node a).localAddress = a) (htoken : ∀ a ∈ R, c'.passes a = 1)
    (hwrites : x ∈ R → WritesRight R x (c.node x) n)
    (hsent : ∀ p ∈ sentPackets x acts, p.msg.payload.isFinger = true →
      ∃ a, PassPacket R a (if a = x then n else c.node a) p ∧ .fixFinger a ∈ es ++ [e])
    (hdone : x ∈ R → (.fixFinger x ∈ es ++ [e] → n.fixFingerTimer = true → FingersRight R x n 161) ∧
      (2 ≤ (es ++ [e]).count (.fixFinger x) → FingersRight R x n 161)) :
    Repairing R (es ++ [e]) c' := by
  have hactor := ChordNet.turn_actor hturn
  have hnode : ∀ a, c'.node a = if a = x then n else c.node a := by
    intro a
    rw [hc, Net.act_node, ChordNet.turn_node hturn]
  have hwrites' : ∀ a ∈ R, WritesRight R a (c.node a) (if a = x then n else c.node a) := by
    intro a ha
    split
    · rename_i hax
      subst hax
      exact hwrites ha
    · exact .of_eq rfl
  refine ⟨hsettled, hlocal, fun a ha => ?_, fun a ha => ?_, htoken, fun p hp hfinger => ?_,
    fun a ha hmem htimer => ?_, fun a ha hcount => ?_⟩
  · rw [hnode]
    exact (hwrites' a ha).filled (h.filled a ha)
  · rw [hnode]
    exact (hwrites' a ha).fingersValid (h.valid a ha)
  · rw [hc] at hp
    rcases List.mem_append.mp hp with hp | hp
    · obtain ⟨a, hpass, hmem⟩ := h.packets p (ChordNet.turn_inFlight_subset hturn p hp) hfinger
      refine ⟨a, ?_, List.mem_append_left _ hmem⟩
      rw [hnode]
      exact hpass.mono (hwrites' a hpass.mem)
    · obtain ⟨a, hpass, hmem⟩ := hsent p hp hfinger
      exact ⟨a, (hnode a).symm ▸ hpass, hmem⟩
  · rw [hnode] at htimer ⊢
    split
    · rename_i hax
      subst hax
      rw [if_pos rfl] at htimer
      exact (hdone ha).1 hmem htimer
    · rename_i hax
      rw [if_neg hax] at htimer
      exact h.waiting a ha (mem_of_ne (hactor ▸ hax) hmem) htimer
  · rw [hnode]
    split
    · rename_i hax
      subst hax
      exact (hdone ha).2 hcount
    · rename_i hax
      rw [count_of_ne (hactor ▸ hax)] at hcount
      exact h.repaired a ha hcount

structure Kept (R : Finset Ipv4Address) (c : ChordNet) : Prop where
  settled : Settled R c.view
  localAddress : ∀ a, (c.node a).localAddress = a
  token : ∀ a ∈ R, c.passes a = 1

/-- A turn without a part in a finger pass. -/
theorem outOfPass (h : Repairing R es c) (hturn : c.turn e = some (c₀, x, .ok (n, acts)))
    (hc : c' = c₀.act x n (sentPackets x acts)) (hkept : Kept R c')
    (hout : ChordNode.OutOfPass (c.node x) n acts) (htable : n.fingerTable = (c.node x).fingerTable)
    (he : ∀ a, e ≠ .fixFinger a) : Repairing R (es ++ [e]) c' := by
  have hcount : (es ++ [e]).count (.fixFinger x) = es.count (.fixFinger x) := by
    rw [List.count_append, List.count_singleton, if_neg (by simpa using he x), Nat.add_zero]
  refine h.turn hturn hc hkept.settled hkept.localAddress hkept.token (fun _ => .of_eq htable)
    (fun p hp hfinger => ?_) fun hx => ⟨fun hmem htimer => ?_, fun hcount' => ?_⟩
  · have hact := hout.acts _ (mem_sentPackets.mp hp).2.2
    rw [ChordAction.isFinger, hfinger] at hact
    cases hact
  · have hmem' : .fixFinger x ∈ es := by
      rw [← List.count_pos_iff] at hmem ⊢
      rwa [hcount] at hmem
    exact (WritesRight.of_eq htable).fingersRight le_rfl
      (h.waiting x hx hmem' (hout.fixFingerTimer ▸ htimer))
  · rw [hcount] at hcount'
    exact (WritesRight.of_eq htable).fingersRight le_rfl (h.repaired x hx hcount')

theorem fixFinger (h : Repairing R es c) (hinj : Set.InjOn nodePos (R : Set Ipv4Address))
    (hcard : 2 ≤ R.card)
    (hgeneral : ∀ a ∈ R, ∀ b ∈ R, ∀ m, 1 ≤ m → m ≤ 160 → nodePos b ≠ fingerStart (nodePos a) m)
    (hturn : c.turn (.fixFinger x) = some (c₀, x, .ok (n, acts)))
    (hfix : (c.node x).fixFinger = .ok (n, acts)) (htimer : (c.node x).fixFingerTimer = true)
    (hc : c' = c₀.act x n (sentPackets x acts)) (hkept : Kept R c') :
    Repairing R (es ++ [.fixFinger x]) c' := by
  have hturn' := h.turn hturn hc hkept.settled hkept.localAddress hkept.token
  have hmember : (c.node x).chordStatus = true ↔ x ∈ R := h.settled.member x
  rcases ChordNode.fixFinger_cases hfix with ⟨hskip, rfl, rfl⟩ | ⟨hstatus, hne, hsend⟩
  · -- the node has no others to ask
    have hx : x ∉ R := by
      intro hx
      rcases hskip with hout | hself
      · rw [hmember.mpr hx] at hout
        cases hout
      · have hnext : IsNext nodePos R x (c.node x).successorAddr := h.settled.successor x hx
        rw [hself, h.localAddress] at hnext
        rw [eq_singleton_of_isNext_self hinj hx hnext, Finset.card_singleton] at hcard
        omega
    exact hturn' (fun hx' => absurd hx' hx) (fun p hp => by cases hp) fun hx' => absurd hx' hx
  · have hx := hmember.mp hstatus
    have hnext : IsNext nodePos R x (c.node x).successorAddr := h.settled.successor x hx
    have hlocal := h.localAddress x
    have howner := isOwner_fingerStart_one hnext
    obtain ⟨n₁, hn₁⟩ : ∃ n₁ : ChordNode, n₁ = { c.node x with
        fixFingerTimer := false
        fingerTable := (c.node x).fingerTable.insert 1 (c.node x).successorAddr } := ⟨_, rfl⟩
    rw [← hn₁] at hsend
    have htable : n₁.fingerTable =
        (c.node x).fingerTable.insert (UInt16.ofNat 1) (c.node x).successorAddr := by rw [hn₁]; rfl
    have hfirst : WritesRight R x (c.node x) n₁ :=
      writesRight_insert le_rfl (by omega) howner htable
    have hright : FingersRight R x n₁ 2 :=
      fingersRight_insert (by omega) (fun m hm hm1 => by omega) howner htable
    have hlast : n₁.fingerTable[UInt16.ofNat (2 - 1)]? = some (c.node x).successorAddr := by
      rw [htable]
      simp
    obtain ⟨hwrites, hend⟩ := sendFindFinger_writes (hgeneral x hx) (by rw [hn₁]; exact hlocal)
      (by rw [hn₁]) le_rfl (by omega) hright hlast hsend
    have hall := hfirst.trans hwrites
    refine hturn' (fun _ => hall) (fun p hp _ => ?_) fun _ =>
      ⟨fun _ htimer' => ?_, fun hcount => ?_⟩
    · rcases hend with ⟨rfl, -⟩ | ⟨j, tx, e, hj, hj', hall', he, -, rfl⟩
      · cases hp
      · obtain ⟨hsrc, -, hmem⟩ := mem_sentPackets.mp hp
        obtain ⟨hdst, hmsg⟩ := ChordAction.sendTo.inj (List.mem_singleton.mp hmem)
        refine ⟨x, ⟨hx, hdst ▸ hnext.1, j, hj, hj', ?_, Or.inl ⟨e, by rw [hmsg], he⟩⟩,
          List.mem_append_right _ (List.mem_singleton_self _)⟩
        rw [if_pos rfl]
        exact hall'
    · rcases hend with ⟨-, -, hall'⟩ | ⟨j, tx, e, -, -, -, -, hoff, -⟩
      · exact hall'
      · rw [hoff] at htimer'
        cases htimer'
    · have hmem : .fixFinger x ∈ es := by
        rw [← List.count_pos_iff]
        rw [List.count_append, List.count_singleton, if_pos (by simp)] at hcount
        omega
      exact hall.fingersRight le_rfl (h.waiting x hx hmem htimer)

/-- A request for a finger is answered with the owner of the start point, or handed on
to a member. -/
theorem findFinger (h : Repairing R es c)
    (hgeneral : ∀ a ∈ R, ∀ b ∈ R, ∀ m, 1 ≤ m → m ≤ 160 → nodePos b ≠ fingerStart (nodePos a) m)
    {k : ℕ} {p : ChordPacket} (hp : c.inFlight[k]? = some p) {d : Digest} {idx : UInt16}
    (hpayload : p.msg.payload = .findFinger a d idx)
    (hturn : c.turn (.deliver k) = some (c₀, p.dst, .ok (n, acts)))
    (hrecv : (c.node p.dst).recvMessage p.msg p.src = .ok (n, acts))
    (hc : c' = c₀.act p.dst n (sentPackets p.dst acts)) (hkept : Kept R c') :
    Repairing R (es ++ [.deliver k]) c' := by
  have hmem : p ∈ c.inFlight := mem_of_getElem? hp
  obtain ⟨a', ⟨ha, hdst, i, hi, h160, hright, hcase⟩, hes⟩ :=
    h.packets p hmem (by rw [hpayload]; rfl)
  obtain ⟨e, hreq, he⟩ | ⟨-, f, hans, -⟩ := hcase
  · rw [hpayload] at hreq
    obtain ⟨rfl, rfl, rfl⟩ := ChordPayload.findFinger.inj hreq
    have htarget : p.msg.target = some d := by rw [PennChordMessage.target, hpayload]
    obtain ⟨rfl, hacts⟩ := ChordNode.recvMessage_target_cases p.msg p.src htarget hrecv
    refine h.turn hturn hc hkept.settled hkept.localAddress hkept.token (fun _ => .of_eq rfl)
      (fun q hq _ => ⟨a, ?_, List.mem_append_left _ hes⟩)
      fun hx => ⟨fun hmem' => h.waiting p.dst hx ?_, fun hcount => h.repaired p.dst hx ?_⟩
    · have hnode : (if a = p.dst then c.node p.dst else c.node a) = c.node a := by
        split
        · rename_i hax
          rw [hax]
        · rfl
      rw [hnode]
      obtain ⟨-, -, hact⟩ := mem_sentPackets.mp hq
      rcases hacts with ⟨hown, rfl⟩ | ⟨-, hop, hhop, rfl⟩
      · -- the answer goes back to the node whose pass it is
        obtain ⟨hqdst, hqmsg⟩ := ChordAction.sendTo.inj (List.mem_singleton.mp hact)
        have hqa : q.dst = a := by rw [hqdst, PennChordMessage.requester, hpayload]
        have howner : IsOwner nodePos R d.pos (c.node p.dst).successorAddr := by
          refine (h.settled.stableRing h.localAddress).owner_of_inOwnArc hdst hown fun heq => ?_
          exact absurd (heq.trans he) (hgeneral a ha p.dst hdst i (by omega) h160)
        rw [he] at howner
        refine ⟨ha, hqa ▸ ha, i, hi, h160, hright, Or.inr ⟨hqa, _, ?_, howner⟩⟩
        rw [hqmsg, PennChordMessage.answer, hpayload]
      · obtain ⟨hqdst, hqmsg⟩ := ChordAction.sendTo.inj (List.mem_singleton.mp hact)
        refine ⟨ha, ?_, i, hi, h160, hright, Or.inl ⟨d, by rw [hqmsg, hpayload], he⟩⟩
        rw [hqdst]
        rcases ChordNode.findNextHop_spec hhop with rfl | ⟨⟨m, hm⟩, -⟩
        · exact (h.settled.successor p.dst hdst).1
        · exact (h.valid p.dst hdst m hop hm).1
    · simpa using hmem'
    · simpa using hcount
  · rw [hpayload] at hans
    cases hans

theorem findFingerSuccess (h : Repairing R es c)
    (hgeneral : ∀ a ∈ R, ∀ b ∈ R, ∀ m, 1 ≤ m → m ≤ 160 → nodePos b ≠ fingerStart (nodePos a) m)
    {k : ℕ} {p : ChordPacket} (hp : c.inFlight[k]? = some p) {f : Ipv4Address} {idx : UInt16}
    (hpayload : p.msg.payload = .findFingerSuccess f idx)
    (hturn : c.turn (.deliver k) = some (c₀, p.dst, .ok (n, acts)))
    (hrecv : (c.node p.dst).processFindFingerSuccess f idx = .ok (n, acts))
    (hc : c' = c₀.act p.dst n (sentPackets p.dst acts)) (hkept : Kept R c') :
    Repairing R (es ++ [.deliver k]) c' := by
  have hmem : p ∈ c.inFlight := mem_of_getElem? hp
  obtain ⟨a, ⟨ha, -, i, hi, h160, hright, hcase⟩, hes⟩ :=
    h.packets p hmem (by rw [hpayload]; rfl)
  obtain ⟨e, hreq, -⟩ | ⟨hdst, f', hans, howner⟩ := hcase
  · rw [hpayload] at hreq
    cases hreq
  · rw [hpayload] at hans
    obtain ⟨rfl, rfl⟩ := ChordPayload.findFingerSuccess.inj hans
    have htimer : (c.node p.dst).fixFingerTimer = false := by
      -- the pass is this packet, so it does not wait
      by_contra hon
      have hone := h.token a ha
      have hpos : 0 < c.inFlight.countP (OfPass a) :=
        List.countP_pos_iff.mpr ⟨p, hmem, by simp [OfPass, hpayload, hdst]⟩
      rw [ChordNet.passes, ← hdst, if_pos (by simpa using hon), hdst] at hone
      omega
    subst hdst
    obtain ⟨n₁, hn₁⟩ : ∃ n₁ : ChordNode, n₁ = { c.node p.dst with
        fingerTable := (c.node p.dst).fingerTable.insert (UInt16.ofNat i) f } := ⟨_, rfl⟩
    rw [ChordNode.processFindFingerSuccess, ← hn₁] at hrecv
    have htable : n₁.fingerTable = (c.node p.dst).fingerTable.insert (UInt16.ofNat i) f := by
      rw [hn₁]
    have hnext : UInt16.ofNat i + 1 = UInt16.ofNat (i + 1) := by
      apply UInt16.toNat_inj.mp
      rw [UInt16.toNat_add, toNat_ofNat_of_le (by omega), toNat_ofNat_of_le (by omega)]
      simp
      omega
    rw [hnext] at hrecv
    have hlast : n₁.fingerTable[UInt16.ofNat (i + 1 - 1)]? = some f := by
      rw [htable]
      simp
    obtain ⟨hwrites, hend⟩ := sendFindFinger_writes (hgeneral p.dst ha)
      (by rw [hn₁]; exact h.localAddress p.dst) (by rw [hn₁]; exact htimer) (by omega) (by omega)
      (fingersRight_insert h160 hright howner htable) hlast hrecv
    have hall := (writesRight_insert (by omega) h160 howner htable).trans hwrites
    refine h.turn hturn hc hkept.settled hkept.localAddress hkept.token (fun _ => hall)
      (fun q hq _ => ?_) fun _ => ⟨fun _ hon => ?_, fun hcount => ?_⟩
    · rcases hend with ⟨rfl, -⟩ | ⟨j, tx, e, hj, hj', hright', he, -, rfl⟩
      · cases hq
      · obtain ⟨-, -, hact⟩ := mem_sentPackets.mp hq
        obtain ⟨hqdst, hqmsg⟩ := ChordAction.sendTo.inj (List.mem_singleton.mp hact)
        refine ⟨p.dst, ⟨ha, hqdst ▸ howner.1, j, hj, hj', ?_, Or.inl ⟨e, by rw [hqmsg], he⟩⟩,
          List.mem_append_left _ hes⟩
        rw [if_pos rfl]
        exact hright'
    · rcases hend with ⟨-, -, hright'⟩ | ⟨j, tx, e, -, -, -, -, hoff, -⟩
      · exact hright'
      · rw [hoff] at hon
        cases hon
    · exact hall.fingersRight le_rfl (h.repaired p.dst ha (by simpa using hcount))

theorem not_losesPass (h : Repairing R es c) (ha : a ∈ R) : ¬ c.LosesPass a e := by
  have hany : ∀ b ∈ R, b ≠ .getAny := fun b hb heq => h.settled.getAny_notMem (heq ▸ hb)
  intro hloses
  cases e with
  | fixFinger x =>
      obtain ⟨rfl, -, -, -, -, hsucc⟩ := hloses
      exact hany _ (h.settled.successor a ha).1 hsucc
  | deliver k =>
      obtain ⟨p, hp, hloses⟩ := hloses
      have hmem : p ∈ c.inFlight := mem_of_getElem? hp
      cases hpayload : p.msg.payload with
      | findFinger target digest i =>
          rw [hpayload] at hloses
          obtain ⟨-, -, hhop⟩ := hloses
          obtain ⟨a', hpass, -⟩ := h.packets p hmem (by rw [hpayload]; rfl)
          rcases ChordNode.findNextHop_spec hhop with hsucc | ⟨⟨m, hm⟩, -⟩
          · exact hany _ (h.settled.successor p.dst hpass.dst_mem).1 hsucc.symm
          · exact hany _ (h.valid p.dst hpass.dst_mem m _ hm).1 rfl
      | findFingerSuccess finger i =>
          rw [hpayload] at hloses
          obtain ⟨-, -, hfinger⟩ := hloses
          obtain ⟨a', ⟨-, -, j, -, -, -, hcase⟩, -⟩ := h.packets p hmem (by rw [hpayload]; rfl)
          obtain ⟨d, hreq, -⟩ | ⟨-, f, hans, howner⟩ := hcase
          · rw [hpayload] at hreq
            cases hreq
          · rw [hpayload] at hans
            obtain ⟨rfl, -⟩ := ChordPayload.findFingerSuccess.inj hans
            exact hany _ howner.1 hfinger
      | _ =>
          rw [hpayload] at hloses
          exact hloses
  | _ => exact hloses

theorem kept (h : Repairing R es c) (hinj : Set.InjOn nodePos (R : Set Ipv4Address))
    (he : c.Undisturbed e) (hstep : c.step e = .ok c') : Kept R c' := by
  obtain ⟨hring, hlocal⟩ := ChordNet.step_view (F := fun _ _ => True) h.localAddress
    (fun _ _ _ _ => trivial) hstep
  refine ⟨(h.settled.step hinj (he.keepsMembers.ringEvent c) hring).1, hlocal, fun a ha => ?_⟩
  have hany : a ≠ .getAny := fun heq => h.settled.getAny_notMem (heq ▸ ha)
  exact (ChordNet.passes_step h.localAddress hstep hany (h.token a ha)).mpr (h.not_losesPass ha)

/-- An event that is not enabled. -/
theorem idle (h : Repairing R es c) (he : ∀ a, e ≠ .fixFinger a) : Repairing R (es ++ [e]) c := by
  have hmem : ∀ a, .fixFinger a ∈ es ++ [e] → .fixFinger a ∈ es := by
    intro a h
    rcases List.mem_append.mp h with h | h
    · exact h
    · exact absurd (List.mem_singleton.mp h).symm (he a)
  refine { h with packets := fun p hp hfinger => ?_, waiting := fun a ha ht => ?_,
                  repaired := fun a ha hcount => h.repaired a ha ?_ }
  · obtain ⟨a, hpass, hin⟩ := h.packets p hp hfinger
    exact ⟨a, hpass, List.mem_append_left _ hin⟩
  · exact h.waiting a ha (hmem a ht)
  · rwa [List.count_append, List.count_singleton, if_neg (by simpa using he a), Nat.add_zero]
      at hcount

theorem step (h : Repairing R es c) (hinj : Set.InjOn nodePos (R : Set Ipv4Address))
    (hcard : 2 ≤ R.card)
    (hgeneral : ∀ a ∈ R, ∀ b ∈ R, ∀ m, 1 ≤ m → m ≤ 160 → nodePos b ≠ fingerStart (nodePos a) m)
    (he : c.Undisturbed e) (hstep : c.step e = .ok c') : Repairing R (es ++ [e]) c' := by
  have hkept := h.kept hinj he hstep
  rcases ChordNet.step_cases hstep with ⟨hnone, rfl⟩ | ⟨c₀, x, n, acts, hturn, hc⟩
  · refine h.idle fun a heq => ?_
    subst heq
    have htimer : (c'.node a).fixFingerTimer = true := he
    simp [ChordNet.turn, htimer] at hnone
  · have hturn' := hturn
    cases e with
    | join y nodeAddr => exact he.elim
    | leave y => exact he.elim
    | stabilize y =>
        obtain ⟨rfl, rfl, hr⟩ : _ = _ ∧ _ = _ ∧ _ = _ := by simpa [ChordNet.turn] using hturn
        have hout := (c.node y).outOfPass_stabilize
        have htable := (c.node y).stabilize_fingerTable
        rw [hr] at hout htable
        exact h.outOfPass hturn' hc hkept hout htable (by simp)
    | ringstate y =>
        obtain ⟨rfl, rfl, hr⟩ : _ = _ ∧ _ = _ ∧ _ = _ := by simpa [ChordNet.turn] using hturn
        have hout := (c.node y).outOfPass_processRingstateCommand
        have htable := (c.node y).processRingstateCommand_fingerTable
        rw [hr] at hout htable
        exact h.outOfPass hturn' hc hkept hout htable (by simp)
    | lookupPublish y key flag tx =>
        obtain ⟨rfl, rfl, hr⟩ : _ = _ ∧ _ = _ ∧ _ = _ := by simpa [ChordNet.turn] using hturn
        exact h.outOfPass hturn' hc hkept (ChordNode.outOfPass_lookupPublish hr)
          (by rw [ChordNode.lookupPublish_eq_self hr]) (by simp)
    | fixFinger y =>
        have htimer : (c.node y).fixFingerTimer = true := he
        obtain ⟨rfl, rfl, hr⟩ : _ = _ ∧ _ = _ ∧ _ = _ := by
          simpa [ChordNet.turn, htimer] using hturn
        exact h.fixFinger hinj hcard hgeneral hturn' hr htimer hc hkept
    | deliver k =>
        simp only [ChordNet.turn] at hturn
        split at hturn
        · cases hturn
        · rename_i p hp
          obtain ⟨rfl, rfl, hr⟩ : _ = _ ∧ _ = _ ∧ _ = _ := by simpa using hturn
          cases hpayload : p.msg.payload with
          | findFinger a d i => exact h.findFinger hgeneral hp hpayload hturn' hr hc hkept
          | findFingerSuccess f i =>
              refine h.findFingerSuccess hgeneral hp hpayload hturn' ?_ hc hkept
              obtain ⟨src, dst, tx, payload⟩ := p
              obtain rfl : payload = .findFingerSuccess f i := hpayload
              exact hr
          | _ =>
              exact h.outOfPass hturn' hc hkept
                (ChordNode.outOfPass_recvMessage (by rw [hpayload]; rfl) hr)
                (ChordNode.recvMessage_fingerTable (by simp [hpayload]) hr) (by simp)

theorem run {es' : List ChordEvent} (h : Repairing R es c)
    (hinj : Set.InjOn nodePos (R : Set Ipv4Address)) (hcard : 2 ≤ R.card)
    (hgeneral : ∀ a ∈ R, ∀ b ∈ R, ∀ m, 1 ≤ m → m ≤ 160 → nodePos b ≠ fingerStart (nodePos a) m)
    (hrun : Run ChordNet.step ChordNet.Undisturbed c es' c') : Repairing R (es ++ es') c' := by
  induction hrun with
  | nil => rwa [List.append_nil]
  | snoc run he hstep ih =>
      rw [← List.append_assoc]
      exact ih.step hinj hcard hgeneral he hstep

theorem start (hstable : StableNet c R) (hfingers : FingersWithin c.node R)
    (hindices : c.IndicesValid) (htimer : ∀ a ∈ R, (c.node a).fixFingerTimer = true) :
    Repairing R [] c where
  settled := ⟨hstable.stableAt, by simp [ChordNet.view_inFlight_nil hstable.inFlight]⟩
  localAddress := hstable.localAddress
  filled a ha := (hfingers a ha).1
  valid a ha i f hf := by
    refine ⟨(hfingers a ha).2 i f hf, hindices.table a i ?_⟩
    rw [Std.TreeMap.mem_iff_isSome_getElem?, hf]
    rfl
  token a ha := by simp [ChordNet.passes, htimer a ha, hstable.inFlight]
  packets p hp := by
    rw [hstable.inFlight] at hp
    cases hp
  waiting _ _ hmem := by cases hmem
  repaired _ _ hcount := by simp at hcount

end Repairing

end PennSearch
