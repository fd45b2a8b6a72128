import Mathlib.Dynamics.PeriodicPts.Lemmas
import PennSearch.Chord.ConcurrentJoin
import PennSearch.Chord.Stabilization

/-!
# Joins keep the ring in one piece

The invariants of `Chord/ConcurrentJoin.lean` along the runs of the Chord network.
In careful runs no member is its own successor as soon as there are two members;
with a second request in flight the joiner ends up as its own successor. If
moreover `NOTIFY` is delivered only at members, a network at rest has all its
members on one cycle; a notification that overtakes the answer to its receiver
leaves a member that no other member reaches.
-/

namespace PennSearch

open Clockwise MessagePassing

/-- A permutation of finitely many points, each of which reaches `r`, has one
cycle. -/
theorem exists_iterate_eq {α : Type*} [Finite α] {f : α → α} (hf : Function.Injective f) {r : α}
    (hr : ∀ a, ∃ k, f^[k] a = r) (a b : α) : ∃ k, 0 < k ∧ f^[k] a = b := by
  obtain ⟨j, hj⟩ := hr b
  obtain ⟨n, hn, hper⟩ := hf.mem_periodicPts b
  obtain ⟨i, hi⟩ := hr a
  -- `b` comes back after every multiple of its period, in particular after `j` steps
  have hback : f^[(j + 1) * n - j] r = b := by
    have hle : j ≤ (j + 1) * n := (Nat.le_mul_of_pos_right j hn).trans (by nlinarith)
    rw [← hj, ← Function.iterate_add_apply, Nat.sub_add_cancel hle]
    exact hper.const_mul (j + 1)
  refine ⟨(j + 1) * n - j + i, ?_, ?_⟩
  · have : j < (j + 1) * n := by nlinarith
    omega
  · rw [Function.iterate_add_apply, hi, hback]

namespace ChordNet

/-- A request of `x` to join, or the answer to it, is in flight. -/
def Outstanding (c : ChordNet) (x : Ipv4Address) : Prop :=
  ∃ p ∈ c.inFlight, match p.msg.payload with
    | .joinChord => p.src = x
    | .findSuccessor destAddress _ => destAddress = x
    | .joinChordSuccess _ => p.dst = x
    | _ => False

instance (c : ChordNet) (x : Ipv4Address) : Decidable (c.Outstanding x) :=
  have : DecidablePred fun p : ChordPacket => match p.msg.payload with
      | .joinChord => p.src = x
      | .findSuccessor destAddress _ => destAddress = x
      | .joinChordSuccess _ => p.dst = x
      | _ => False := fun ⟨_, _, _, payload⟩ =>
    match payload with
    | .joinChord | .findSuccessor .. | .joinChordSuccess _ => inferInstanceAs (Decidable (_ = _))
    | .pingReq _ | .pingRsp _ | .joinChordFail | .notify | .stabilizeReq | .stabilizeResp _
    | .ringstate _ | .leaveSuccessor _ | .leavePredecessor _ | .findFinger ..
    | .findFingerSuccess .. | .lookupPublish .. | .lookupPublishSuccess .. => .isFalse id
  inferInstanceAs (Decidable (∃ p ∈ _, _))

structure Landmark (c : ChordNet) (A : Ipv4Address) : Prop where
  landmark : (c.node A).pointers = ⟨true, A, .getAny⟩
  outside : ∀ a, a ≠ A → (c.node a).pointers = .outside
  localAddress : ∀ a, (c.node a).localAddress = a
  inFlight : c.inFlight = []

/-- Any node of `N` joins through a member at any moment; nobody leaves. -/
def Joins (N : Finset Ipv4Address) (c : ChordNet) : ChordEvent → Prop
  | .join a nodeAddr => a ∈ N ∧ (c.node nodeAddr).chordStatus = true
  | .leave _ => False
  | _ => True

instance (N : Finset Ipv4Address) (c : ChordNet) (e : ChordEvent) : Decidable (Joins N c e) :=
  match e with
  | .join .. => inferInstanceAs (Decidable (_ ∧ _))
  | .leave _ => .isFalse id
  | .ringstate _ | .stabilize _ | .fixFinger _ | .lookupPublish .. | .deliver _ => .isTrue trivial

/-- A node outside issues JOIN only while no request of its own is outstanding,
and `FIND_SUCCESSOR` is delivered at members. -/
def Careful (c : ChordNet) : ChordEvent → Prop
  | .join a _ => (c.node a).chordStatus = false → ¬ c.Outstanding a
  | .deliver k => ∀ p ∈ c.inFlight[k]?, match p.msg.payload with
      | .findSuccessor _ _ => (c.node p.dst).chordStatus = true
      | _ => True
  | _ => True

instance (c : ChordNet) (e : ChordEvent) : Decidable (Careful c e) :=
  match e with
  | .join .. => inferInstanceAs (Decidable (_ → _))
  | .deliver _ =>
      have : DecidablePred fun p : ChordPacket => match p.msg.payload with
          | .findSuccessor _ _ => (c.node p.dst).chordStatus = true
          | _ => True := fun ⟨_, dst, _, payload⟩ =>
        match payload with
        | .findSuccessor .. => inferInstanceAs (Decidable ((c.node dst).chordStatus = true))
        | .pingReq _ | .pingRsp _ | .joinChord | .joinChordSuccess _ | .joinChordFail | .notify
        | .stabilizeReq | .stabilizeResp _ | .ringstate _ | .leaveSuccessor _
        | .leavePredecessor _ | .findFinger .. | .findFingerSuccess .. | .lookupPublish ..
        | .lookupPublishSuccess .. => .isTrue trivial
      inferInstanceAs (Decidable (∀ p ∈ _, _))
  | .leave _ | .ringstate _ | .stabilize _ | .fixFinger _ | .lookupPublish .. => .isTrue trivial

def NotifiesMembers (c : ChordNet) : ChordEvent → Prop
  | .deliver k => ∀ p ∈ c.inFlight[k]?, p.msg.payload = .notify →
      (c.node p.dst).chordStatus = true
  | _ => True

instance (c : ChordNet) (e : ChordEvent) : Decidable (NotifiesMembers c e) :=
  match e with
  | .deliver _ => inferInstanceAs (Decidable (∀ p ∈ _, _ → _))
  | .join .. | .leave _ | .ringstate _ | .stabilize _ | .fixFinger _ | .lookupPublish .. =>
      .isTrue trivial

variable [Sha1]

/-- Nothing is in flight, and stabilization moves no pointer any more. -/
def Quiescent (c : ChordNet) : Prop :=
  c.inFlight = [] ∧ ∀ (es : List ChordEvent) (c' : ChordNet),
    Run ChordNet.step (fun _ e => e.Stabilizes) c es c' →
      ∀ a, (c'.node a).pointers = (c.node a).pointers

def OneCycle (c : ChordNet) : Prop :=
  (∀ a, (c.node a).chordStatus = true →
      (c.node (c.node a).successorAddr).chordStatus = true) ∧
    ∀ a b, (c.node a).chordStatus = true → (c.node b).chordStatus = true →
      ∃ k, 0 < k ∧ (fun x => (c.node x).successorAddr)^[k] a = b

theorem step_stabilize {c : ChordNet} {a : Ipv4Address} (ha : (c.node a).chordStatus = true)
    (hlocal : (c.node a).localAddress = a) (hne : (c.node a).successorAddr ≠ a)
    (hany : (c.node a).successorAddr ≠ .getAny) :
    c.step (.stabilize a) = .ok (c.act a (c.node a).nextTransactionId
      [⟨a, (c.node a).successorAddr, ⟨(c.node a).currentTransactionId, .stabilizeReq⟩⟩]) := by
  have hturn : c.turn (.stabilize a) = some (c, a, .ok ((c.node a).nextTransactionId,
      [.sendTo (c.node a).successorAddr ⟨(c.node a).currentTransactionId, .stabilizeReq⟩])) := by
    simp [turn, ChordNode.stabilize, ha, hlocal, hne]
  rw [step_of_turn hturn]
  simp [sentPackets, hany]

/-- An exchange of `STABILIZE_REQ` and `STABILIZE_RESP` with nothing else in
flight: `a` adopts a predecessor of its successor that is closer. -/
theorem exchange {c : ChordNet} {a v : Ipv4Address} (hquiet : c.inFlight = [])
    (hlocal : ∀ a, (c.node a).localAddress = a) (ha : (c.node a).chordStatus = true)
    (haany : a ≠ .getAny) (hv : (c.node a).successorAddr = v) (hne : v ≠ a) (hany : v ≠ .getAny)
    (hpred : (c.node v).predecessorAddr ≠ .getAny)
    (hpos : nodePos (c.node v).predecessorAddr ≠ nodePos a)
    (harc : InArc (nodePos a) (nodePos v) (nodePos (c.node v).predecessorAddr)) :
    ∃ c', Run ChordNet.step (fun _ e => e.Stabilizes) c
        [.stabilize a, .deliver 0, .deliver 0] c' ∧
      (c'.node a).successorAddr = (c.node v).predecessorAddr := by
  subst hv
  generalize hvs : (c.node a).successorAddr = v at *
  generalize hq : (c.node v).predecessorAddr = q at *
  generalize htx : (c.node a).currentTransactionId = tx
  have h₁ : c.step (.stabilize a) = .ok (c.act a (c.node a).nextTransactionId
      [⟨a, v, ⟨tx, .stabilizeReq⟩⟩]) := by
    rw [step_stabilize ha (hlocal a) (by rwa [hvs]) (by rwa [hvs]), hvs, htx]
  generalize hc₁ : c.act a (c.node a).nextTransactionId [⟨a, v, ⟨tx, .stabilizeReq⟩⟩] = c₁ at h₁
  have hnodea : c₁.node a = (c.node a).nextTransactionId := by
    rw [← hc₁, Net.act_node_self]
  have hnodev : c₁.node v = c.node v := by
    rw [← hc₁, Net.act_node_of_ne _ _ _ hne]
  have hflight₁ : c₁.inFlight = [⟨a, v, ⟨tx, .stabilizeReq⟩⟩] := by
    rw [← hc₁, Net.act_inFlight, hquiet, List.nil_append]
  -- the successor names its predecessor
  have h₂ : step c₁ (.deliver 0) = .ok ((c₁.take 0).act v (c.node v)
      [⟨v, a, ⟨tx, .stabilizeResp q⟩⟩]) := by
    have hrecv : (c₁.node v).recvMessage ⟨tx, .stabilizeReq⟩ a =
        .ok (c.node v, [.sendTo a ⟨tx, .stabilizeResp q⟩]) := by
      rw [hnodev]
      simp [ChordNode.recvMessage, ChordNode.processStabilizeReq, hq, hpred]
    rw [step_deliver (p := ⟨a, v, ⟨tx, .stabilizeReq⟩⟩) (by rw [hflight₁]; rfl) hrecv]
    simp [sentPackets, haany]
  generalize hc₂ : (c₁.take 0).act v (c.node v) [⟨v, a, ⟨tx, .stabilizeResp q⟩⟩] = c₂ at h₂
  have hnodea₂ : c₂.node a = (c.node a).nextTransactionId := by
    rw [← hc₂, Net.act_node_of_ne _ _ _ (Ne.symm hne), Net.take_node, hnodea]
  have hflight₂ : c₂.inFlight = [⟨v, a, ⟨tx, .stabilizeResp q⟩⟩] := by
    rw [← hc₂, Net.act_inFlight, Net.take_inFlight, hflight₁]
    rfl
  -- and `a` adopts it
  have h₃ : step c₂ (.deliver 0) = .ok ((c₂.take 0).act a
      ((c.node a).nextTransactionId.setSuccessorAddress q)
      (sentPackets a [ChordNode.sendNotify ⟨tx, .stabilizeResp q⟩ q])) := by
    refine step_deliver (p := ⟨v, a, ⟨tx, .stabilizeResp q⟩⟩) (by rw [hflight₂]; rfl) ?_
    have howns : q ≠ .getAny ∧
        nodePos q ≠ nodePos (c.node a).nextTransactionId.localAddress ∧
        (c.node a).nextTransactionId.inOwnArc (nodePos q) := by
      refine ⟨hpred, ?_, ?_⟩
      · rwa [show (c.node a).nextTransactionId.localAddress = a from hlocal a]
      · rw [ChordNode.inOwnArc, show (c.node a).nextTransactionId.localAddress = a from hlocal a,
          show (c.node a).nextTransactionId.successorAddr = v from hvs]
        exact harc
    simp only [ChordNode.recvMessage, hnodea₂, ChordNode.processStabilizeResp_eq, if_pos howns]
  have hrun : Run ChordNet.step (fun _ e => e.Stabilizes) c [.stabilize a, .deliver 0] c₂ :=
    (Run.single (e := .stabilize a) trivial h₁).trans (.single trivial h₂)
  refine ⟨_, hrun.trans (.single trivial h₃), ?_⟩
  rw [Net.act_node_self]
  rfl

/-! ## The invariant along runs -/

section Growth

variable {N : Finset Ipv4Address} {A : Ipv4Address} {c c' : ChordNet} {e : ChordEvent}

omit [Sha1] in
theorem Landmark.eq_of_member (h : c.Landmark A) {a : Ipv4Address}
    (ha : (c.view.node a).member = true) : a = A := by
  by_contra hne
  rw [show c.view.node a = .outside from h.outside a hne] at ha
  cases ha

theorem Landmark.growing (h : c.Landmark A) (hA : A ∈ N) : Growing N A c.view := by
  have hflight : c.view.inFlight = [] := view_inFlight_nil h.inFlight
  have hlandmark : c.view.node A = ⟨true, A, .getAny⟩ := h.landmark
  refine ⟨by rw [hlandmark], fun a ha => ?_, fun a ha => ?_, fun a => ?_, by simp [hflight],
    fun x => ?_, fun _ => ⟨fun a ha => h.eq_of_member ha, by simp [hflight]⟩⟩
  · rwa [h.eq_of_member ha]
  · obtain rfl := h.eq_of_member ha
    rw [hlandmark]
    exact ⟨hA, Or.inl ha, le_rfl⟩
  · left
    by_cases ha : a = A
    · rw [ha, hlandmark]
    · rw [show c.view.node a = .outside from h.outside a ha]
      rfl
  · simpa [hflight] using Bool.toNat_le _

theorem Landmark.announced (h : c.Landmark A) : Announced c.view := by
  intro a ha hne
  obtain rfl := h.eq_of_member ha
  rw [show c.view.node a = ⟨true, a, .getAny⟩ from h.landmark] at hne
  exact absurd rfl hne

omit [Sha1] in
theorem outstanding_of_carries {x : Ipv4Address} {q : RingPacket} (hq : q ∈ c.view.inFlight)
    (hx : carries x q = true) : c.Outstanding x := by
  obtain ⟨p, hp, hpq⟩ := List.mem_filterMap.mp hq
  refine ⟨p, hp, ?_⟩
  obtain ⟨src, dst, tx, payload⟩ := p
  cases payload <;> simp_all [ringPacket, ringMessage] <;> subst hpq <;>
    simp_all [carries]

omit [Sha1] in
theorem growthAllowed (hjoins : Joins N c e) (hcareful : Careful c e) :
    c.view.GrowthAllowed N (c.ringEvent e) := by
  cases e with
  | join a nodeAddr =>
      refine ⟨hjoins.1, hjoins.2, fun hout q hq => ?_⟩
      by_contra hx
      exact hcareful hout (outstanding_of_carries hq (by simpa using hx))
  | leave a => exact hjoins.elim
  | deliver k =>
      rcases ringEvent_deliver_cases c k with hquiet | ⟨p, q, j, hp, hq, hevent, hat⟩
      · rw [hquiet]
        trivial
      · rw [hevent]
        rintro q' hq' ⟨x, t, hmsg⟩
        obtain rfl := Option.some.inj (hat.symm.trans hq')
        have hguard := hcareful p (by simp [hp])
        obtain ⟨src, dst, tx, payload⟩ := p
        cases payload <;> simp_all [ringPacket, ringMessage] <;> subst hq <;>
          simp_all [view, ChordNode.pointers]
  | _ => trivial

omit [Sha1] in
theorem NotifiesMembers.view (h : NotifiesMembers c e) :
    c.view.NotifiesMembers (c.ringEvent e) := by
  cases e with
  | deliver k =>
      rcases ringEvent_deliver_cases c k with hquiet | ⟨p, q, j, hp, hq, hevent, hat⟩
      · rw [hquiet]
        trivial
      · rw [hevent]
        intro q' hq' hmsg
        obtain rfl := Option.some.inj (hat.symm.trans hq')
        have hguard := h p (by simp [hp])
        obtain ⟨src, dst, tx, payload⟩ := p
        cases payload <;> simp_all [ringPacket, ringMessage] <;> subst hq <;>
          simp_all [ChordNet.view, ChordNode.pointers]
  | _ => trivial

theorem Landmark.run (hinj : Set.InjOn nodePos (N : Set Ipv4Address)) (hany : .getAny ∉ N)
    (hA : A ∈ N) {c₀ : ChordNet} (h : c₀.Landmark A) {es : List ChordEvent}
    (hrun : Run ChordNet.step (fun c e => Joins N c e ∧ Careful c e) c₀ es c) :
    Growing N A c.view ∧ ∀ a, (c.node a).localAddress = a := by
  refine hrun.invariant
    (P := fun c => Growing N A c.view ∧ ∀ a, (c.node a).localAddress = a)
    ⟨h.growing hA, h.localAddress⟩ ?_
  rintro c₁ e c₂ ⟨hgrowing, hlocal⟩ ⟨hjoins, hcareful⟩ hstep
  obtain ⟨hring, hlocal'⟩ := step_view (F := fun _ _ => True) hlocal
    (fun _ _ _ _ => trivial) hstep
  exact ⟨hgrowing.step hinj hany (growthAllowed hjoins hcareful) hring, hlocal'⟩

theorem Landmark.run_announced (hinj : Set.InjOn nodePos (N : Set Ipv4Address))
    (hany : .getAny ∉ N) (hA : A ∈ N) {c₀ : ChordNet} (h : c₀.Landmark A) {es : List ChordEvent}
    (hrun : Run ChordNet.step (fun c e => Joins N c e ∧ Careful c e ∧ NotifiesMembers c e)
      c₀ es c) : Announced c.view := by
  have hall := hrun.invariant
    (P := fun c => (Growing N A c.view ∧ Announced c.view) ∧ ∀ a, (c.node a).localAddress = a)
    ⟨⟨h.growing hA, h.announced⟩, h.localAddress⟩ ?_
  · exact hall.1.2
  · rintro c₁ e c₂ ⟨⟨hgrowing, hannounced⟩, hlocal⟩ ⟨hjoins, hcareful, hnotifies⟩ hstep
    obtain ⟨hring, hlocal'⟩ := step_view (F := fun _ _ => True) hlocal
      (fun _ _ _ _ => trivial) hstep
    have hallowed := growthAllowed hjoins hcareful
    exact ⟨⟨hgrowing.step hinj hany hallowed hring,
      hannounced.step hinj hany hgrowing hallowed hnotifies.view hring⟩, hlocal'⟩

end Growth

end ChordNet

section Rest

variable [Sha1] {N : Finset Ipv4Address} {A : Ipv4Address} {c : ChordNet}

theorem Growing.several {s : RingNet} (h : Growing N A s)
    (hinj : Set.InjOn nodePos (N : Set Ipv4Address)) {a b : Ipv4Address}
    (ha : (s.node a).member = true) (hb : (s.node b).member = true) (hab : a ≠ b)
    {m : Ipv4Address} (hm : (s.node m).member = true) : (s.node m).successor ≠ m := by
  intro hself
  have hmA : m = A := by
    by_contra hne
    exact h.successor_ne hinj hm hne hself
  subst hmA
  obtain ⟨honly, -⟩ := h.alone hself
  exact hab ((honly a ha).trans (honly b hb).symm)

theorem Growing.successor_member {s : RingNet} (h : Growing N A s) (hs : s.inFlight = [])
    {a : Ipv4Address} (ha : (s.node a).member = true) :
    (s.node (s.node a).successor).member = true := by
  rcases (h.aims a ha).known with hmem | ⟨src, v, hans⟩
  · exact hmem
  · rw [hs] at hans
    cases hans

/-- At rest every member is the predecessor of its successor. -/
theorem Growing.predecessor_successor (hinj : Set.InjOn nodePos (N : Set Ipv4Address))
    (hany : .getAny ∉ N) (h : Growing N A c.view) (hannounced : Announced c.view)
    (hlocal : ∀ a, (c.node a).localAddress = a) (hrest : c.Quiescent) {a : Ipv4Address}
    (ha : (c.node a).chordStatus = true) (hne : (c.node a).successorAddr ≠ a) :
    (c.node (c.node a).successorAddr).predecessorAddr = a := by
  have hflight : c.view.inFlight = [] := ChordNet.view_inFlight_nil hrest.1
  have hnot := hannounced a ha hne
  rw [Notified, hflight] at hnot
  obtain ⟨hv, hpred, hle⟩ := hnot.resolve_left (by simp)
  by_contra hother
  generalize hsucc : (c.node a).successorAddr = v at *
  have hview : (c.view.node a).successor = v := hsucc
  rw [hview] at hv hpred hle
  change (c.node v).predecessorAddr ≠ .getAny at hpred
  change cwTurn (nodePos (c.node v).predecessorAddr) (nodePos v) ≤ _ at hle
  obtain ⟨hpredne, hpredmem⟩ := (h.predecessor v).resolve_left hpred
  have hvN := h.mem v hv
  have haN := h.mem a ha
  have hpredN := h.mem _ hpredmem
  have hpos : nodePos (c.node v).predecessorAddr ≠ nodePos a :=
    fun heq => hother (hinj hpredN haN heq)
  have hpos' : nodePos (c.node v).predecessorAddr ≠ nodePos v :=
    fun heq => hpredne (hinj hpredN hvN heq)
  obtain ⟨c', hrun, hadopted⟩ := ChordNet.exchange hrest.1 hlocal ha
    (ne_getAny_of_mem hany haN) hsucc hne (ne_getAny_of_mem hany hvN) hpred hpos
    (inArc_of_cwTurn_le hle hpos')
  have hsame := congrArg Pointers.successor (hrest.2 _ c' hrun a)
  refine hpredne ?_
  calc (c.view.node v).predecessor = (c'.node a).successorAddr := hadopted.symm
    _ = (c.node a).successorAddr := hsame
    _ = v := hsucc

/-- Every member reaches the landmark along successors. -/
theorem Growing.reaches {s : RingNet} (h : Growing N A s)
    (hinj : Set.InjOn nodePos (N : Set Ipv4Address)) (hs : s.inFlight = []) {a : Ipv4Address}
    (ha : (s.node a).member = true) : ∃ k, (fun x => (s.node x).successor)^[k] a = A := by
  induction hd : cwTurn (nodePos a) (nodePos A) using Nat.strong_induction_on generalizing a with
  | _ d ih =>
    by_cases haA : a = A
    · exact ⟨0, haA⟩
    · have hmem := h.successor_member hs ha
      by_cases hsA : (s.node a).successor = A
      · exact ⟨1, hsA⟩
      · have hpos : nodePos (s.node a).successor ≠ nodePos a := fun heq =>
          h.successor_ne hinj ha haA (hinj (h.aims a ha).mem (h.mem a ha) heq)
        have hpos' : nodePos (s.node a).successor ≠ nodePos A := fun heq =>
          hsA (hinj (h.aims a ha).mem (h.mem A h.landmark) heq)
        have hlt := cwTurn_lt_of_cwTurn_le (h.aims a ha).le hpos hpos'
        obtain ⟨k, hk⟩ := ih _ (hd ▸ hlt) hmem rfl
        exact ⟨k + 1, hk⟩

/-- A network at rest whose successors are all notified has one cycle. -/
theorem Growing.oneCycle (hinj : Set.InjOn nodePos (N : Set Ipv4Address)) (hany : .getAny ∉ N)
    (h : Growing N A c.view) (hannounced : Announced c.view)
    (hlocal : ∀ a, (c.node a).localAddress = a) (hrest : c.Quiescent) : c.OneCycle := by
  have hflight : c.view.inFlight = [] := ChordNet.view_inFlight_nil hrest.1
  have hclosed : ∀ a, (c.node a).chordStatus = true →
      (c.node (c.node a).successorAddr).chordStatus = true :=
    fun a ha => h.successor_member hflight ha
  refine ⟨hclosed, fun a b ha hb => ?_⟩
  -- the successor function on the finitely many members
  let member := {x : Ipv4Address // (c.node x).chordStatus = true}
  let successor : member → member := fun x => ⟨(c.node x).successorAddr, hclosed x x.2⟩
  have hfinite : Finite member := Finite.of_injective
    (fun x : member => (⟨x.1, h.mem x.1 x.2⟩ : N)) fun x y hxy =>
      Subtype.ext (congrArg (fun z : N => (z : Ipv4Address)) hxy)
  have hval : ∀ (k : ℕ) (x : member),
      (successor^[k] x : Ipv4Address) = (fun y => (c.node y).successorAddr)^[k] x := by
    intro k x
    exact Function.Semiconj.iterate_right (f := Subtype.val) (fun y : member => rfl) k x
  have hinjective : Function.Injective successor := by
    intro x y hxy
    have heq : (c.node x).successorAddr = (c.node y).successorAddr := congrArg Subtype.val hxy
    by_contra hne
    have hxy' : (x : Ipv4Address) ≠ y := fun h => hne (Subtype.ext h)
    have hx := h.predecessor_successor hinj hany hannounced hlocal hrest x.2
      (h.several hinj x.2 y.2 hxy' x.2)
    have hy := h.predecessor_successor hinj hany hannounced hlocal hrest y.2
      (h.several hinj x.2 y.2 hxy' y.2)
    rw [heq] at hx
    exact hxy' (hx.symm.trans hy)
  have hroot : ∀ x : member, ∃ k, successor^[k] x = ⟨A, h.landmark⟩ := by
    intro x
    obtain ⟨k, hk⟩ := h.reaches hinj hflight x.2
    exact ⟨k, Subtype.ext ((hval k x).trans hk)⟩
  obtain ⟨k, hk, hab⟩ := exists_iterate_eq hinjective hroot ⟨a, ha⟩ ⟨b, hb⟩
  exact ⟨k, hk, (hval k ⟨a, ha⟩).symm.trans (congrArg Subtype.val hab)⟩

def Keeps (s : RingNet) (a q : Ipv4Address) : Prop :=
  ¬ (q ≠ .getAny ∧ nodePos q ≠ nodePos a ∧ (s.node a).owns a (nodePos q))

instance (s : RingNet) (a q : Ipv4Address) : Decidable (Keeps s a q) :=
  inferInstanceAs (Decidable (¬ (_ ∧ _ ∧ InArc _ _ _)))

/-- An answer on the way, or a request and its answer, move no pointer. -/
def Idle (s : RingNet) (p : RingPacket) : Prop :=
  (p.msg = .stabilizeReq ∧ Keeps s p.src (s.node p.dst).predecessor) ∨
    ∃ q, p.msg = .stabilizeResp q ∧ Keeps s p.dst q

structure AtRest (s : RingNet) : Prop where
  keeps : ∀ a, (s.node a).member = true → (s.node a).successor ≠ a →
    Keeps s a (s.node (s.node a).successor).predecessor
  traffic : ∀ p ∈ s.inFlight, Idle s p

theorem AtRest.turn {s : RingNet} {e : RingEvent} {F : Ipv4Address → Ipv4Address → Prop}
    {a : Ipv4Address} {q : Pointers} {out : List RingAction} (h : AtRest s) (he : e.Stabilizes)
    (hturn : RingTurn F s e a q out) : q = s.node a ∧ ∀ p ∈ ringSends a out, Idle s p := by
  cases hturn with
  | quiet a => simp
  | stabilizeSkip skip => simp
  | stabilize member several =>
      refine ⟨rfl, fun p hp => ?_⟩
      obtain rfl := eq_of_mem_ringSends hp
      exact Or.inl ⟨rfl, h.keeps a member several⟩
  | deliver packet reacts =>
      rename_i k p
      rcases h.traffic p (mem_of_getElem? packet) with ⟨hmsg, hkeeps⟩ | ⟨v, hmsg, hkeeps⟩
      · rw [hmsg] at reacts
        cases reacts with
        | reqIgnore none => simp
        | reqAnswer some =>
            refine ⟨rfl, fun p' hp' => ?_⟩
            obtain rfl := eq_of_mem_ringSends hp'
            exact Or.inr ⟨_, rfl, hkeeps⟩
      · rw [hmsg] at reacts
        cases reacts with
        | respAdopt some ne owns => exact absurd ⟨some, ne, owns⟩ hkeeps
        | respKeep keep => simp
  | _ => exact absurd he (by simp [RingEvent.Stabilizes])

theorem AtRest.step {s s' : RingNet} {e : RingEvent} {F : Ipv4Address → Ipv4Address → Prop}
    (h : AtRest s) (he : e.Stabilizes) (hstep : RingStep F s e s') :
    AtRest s' ∧ s'.node = s.node := by
  obtain ⟨a, q, out, hturn, rfl⟩ := hstep
  obtain ⟨rfl, hsent⟩ := h.turn he hturn
  have hnode : ((s.before e).act a (s.node a) (ringSends a out)).node = s.node := by
    simp [Net.act]
  refine ⟨⟨?_, fun p hp => ?_⟩, hnode⟩
  · simpa only [Keeps, hnode] using h.keeps
  · simp only [Idle, Keeps, hnode]
    rcases List.mem_append.mp hp with hp | hp
    · exact h.traffic p (RingNet.mem_before hp)
    · exact hsent p hp

theorem AtRest.quiescent (h : AtRest c.view) (hflight : c.inFlight = [])
    (hlocal : ∀ a, (c.node a).localAddress = a) : c.Quiescent := by
  refine ⟨hflight, fun es c' hrun => ?_⟩
  have hall := hrun.invariant
    (P := fun d => AtRest d.view ∧ d.view.node = c.view.node ∧ ∀ a, (d.node a).localAddress = a)
    ⟨h, rfl, hlocal⟩ ?_
  · exact congrFun hall.2.1
  · rintro c₁ e c₂ ⟨hatrest, hnode, hlocal⟩ he hstep
    obtain ⟨hring, hlocal'⟩ := ChordNet.step_view (F := fun _ _ => True) hlocal
      (fun _ _ _ _ => trivial) hstep
    obtain ⟨hatrest', hnode'⟩ := hatrest.step (he.ringEvent c₁) hring
    exact ⟨hatrest', hnode'.trans hnode, hlocal'⟩

end Rest

/-- Joins keep the ring in one piece. From a landmark alone, along every careful run
of joins, no member among several is its own successor. If `NOTIFY` is delivered at
members as well, a network at rest has its members on one cycle of successors. -/
theorem joins_keep_one_ring [Sha1] {N : Finset Ipv4Address} {A : Ipv4Address}
    {c₀ c : ChordNet} {es : List ChordEvent}
    (hinj : Set.InjOn nodePos (N : Set Ipv4Address)) (hany : .getAny ∉ N) (hA : A ∈ N)
    (hstart : c₀.Landmark A)
    (hrun : Run ChordNet.step (fun c e => c.Joins N e ∧ c.Careful e) c₀ es c) :
    ((∃ a b, a ≠ b ∧ (c.node a).chordStatus = true ∧ (c.node b).chordStatus = true) →
        ∀ m, (c.node m).chordStatus = true → (c.node m).successorAddr ≠ m) ∧
      (Run ChordNet.step (fun c e => c.Joins N e ∧ c.Careful e ∧ c.NotifiesMembers e) c₀ es c →
        c.Quiescent → c.OneCycle) := by
  obtain ⟨h, hlocal⟩ := hstart.run hinj hany hA hrun
  refine ⟨?_, fun hnotifies hrest => ?_⟩
  · rintro ⟨a, b, hab, ha, hb⟩ m hm
    exact h.several hinj ha hb hab hm
  · exact h.oneCycle hinj hany (hstart.run_announced hinj hany hA hnotifies) hlocal hrest

end PennSearch

namespace PennSearch

open Clockwise MessagePassing

attribute [local instance] sampleSha1

def sampleLandmark : ChordNet where
  node a := if a = sampleA then sampleMember sampleA sampleA .getAny [] else ChordNode.start a 0
  inFlight := []

theorem sampleLandmark_landmark : sampleLandmark.Landmark sampleA where
  landmark := by decide
  outside a ha := by
    simp [sampleLandmark, ha, ChordNode.start, ChordNode.pointers, Pointers.outside]
  localAddress a := by
    by_cases ha : a = sampleA
    · simp [sampleLandmark, ha, sampleMember, ChordNode.start]
    · simp [sampleLandmark, ha, ChordNode.start]
  inFlight := rfl

/-- A run of joins ends at rest when no member among the joiners adopts the
predecessor of its successor. -/
theorem sampleLandmark_quiescent {c : ChordNet} {es : List ChordEvent}
    (hrun : Run ChordNet.step (fun c e => c.Joins sampleFourMembers e ∧ c.Careful e)
      sampleLandmark es c) (hflight : c.inFlight = [])
    (hkeeps : ∀ a ∈ sampleFourMembers, (c.node a).chordStatus = true →
      Keeps c.view a (c.node (c.node a).successorAddr).predecessorAddr) : c.Quiescent := by
  obtain ⟨h, hlocal⟩ := sampleLandmark_landmark.run sampleFour_injOn (by decide) (by decide) hrun
  exact AtRest.quiescent ⟨fun a ha _ => hkeeps a (h.mem a ha) ha,
    by simp [ChordNet.view_inFlight_nil hflight]⟩ hflight hlocal

/-- C and B join the landmark A at the same time, and A then finds B between itself
and C. -/
theorem joins_keep_one_ring_sample :
    ∃ c, Run ChordNet.step (fun c e => c.Joins sampleFourMembers e ∧ c.Careful e) sampleLandmark
        [.join sampleC sampleA, .deliver 0, .join sampleB sampleA, .deliver 2, .deliver 0,
          .deliver 1, .deliver 0, .deliver 0, .deliver 0, .stabilize sampleA, .deliver 0,
          .deliver 0, .deliver 0] c ∧
      (∀ m, (c.node m).chordStatus = true → (c.node m).successorAddr ≠ m) ∧ c.OneCycle := by
  have hrun : ((execute ChordNet.step
      (fun c e => c.Joins sampleFourMembers e ∧ c.Careful e ∧ c.NotifiesMembers e) sampleLandmark
      [.join sampleC sampleA, .deliver 0, .join sampleB sampleA, .deliver 2, .deliver 0,
        .deliver 1, .deliver 0, .deliver 0, .deliver 0, .stabilize sampleA, .deliver 0,
        .deliver 0, .deliver 0]).map fun c =>
        decide (c.inFlight = [] ∧ (c.node sampleA).chordStatus = true ∧
          (c.node sampleB).chordStatus = true ∧ ∀ a ∈ sampleFourMembers,
            (c.node a).chordStatus = true →
              Keeps c.view a (c.node (c.node a).successorAddr).predecessorAddr)) =
        some true := by decide
  obtain ⟨c, hc, hfacts⟩ := Option.map_eq_some_iff.mp hrun
  obtain ⟨hflight, hmemA, hmemB, hkeeps⟩ := of_decide_eq_true hfacts
  have hnotifies := Run.of_execute hc
  have hcareful := hnotifies.mono fun _ _ h => And.intro h.1 h.2.1
  obtain ⟨hseveral, hcycle⟩ := joins_keep_one_ring sampleFour_injOn (by decide) (by decide)
    sampleLandmark_landmark hcareful
  exact ⟨c, hcareful, hseveral ⟨sampleA, sampleB, by decide, hmemA, hmemB⟩,
    hcycle hnotifies (sampleLandmark_quiescent hcareful hflight hkeeps)⟩

/-- Careful joins of C and B, where the `NOTIFY` of B overtakes the answer to C. The
network comes to rest with B off the cycle of A and C. -/
theorem overtaken_notify_splits :
    ∃ c, Run ChordNet.step
        (fun c e => (c.Joins sampleFourMembers e ∧ c.Careful e) ∧ c.Fifo e) sampleLandmark
        [.join sampleC sampleA, .deliver 0, .join sampleB sampleA, .deliver 2, .deliver 2,
          .deliver 2, .deliver 0, .deliver 0, .deliver 0] c ∧
      c.Quiescent ∧ ¬ c.OneCycle := by
  have hrun : ((execute ChordNet.step
      (fun c e => (c.Joins sampleFourMembers e ∧ c.Careful e) ∧ c.Fifo e) sampleLandmark
      [.join sampleC sampleA, .deliver 0, .join sampleB sampleA, .deliver 2, .deliver 2,
        .deliver 2, .deliver 0, .deliver 0, .deliver 0]).map fun c =>
        decide (c.inFlight = [] ∧ (∀ a ∈ sampleFourMembers, (c.node a).chordStatus = true →
            Keeps c.view a (c.node (c.node a).successorAddr).predecessorAddr) ∧
          (c.node sampleA).chordStatus = true ∧ (c.node sampleB).chordStatus = true ∧
          (c.node sampleA).successorAddr = sampleC ∧ (c.node sampleC).successorAddr = sampleA)) =
        some true := by decide
  obtain ⟨c, hc, hfacts⟩ := Option.map_eq_some_iff.mp hrun
  obtain ⟨hflight, hkeeps, hmemA, hmemB, hsuccA, hsuccC⟩ := of_decide_eq_true hfacts
  have hcareful := Run.of_execute hc
  refine ⟨c, hcareful, sampleLandmark_quiescent (hcareful.mono fun _ _ h => h.1) hflight hkeeps,
    fun hcycle => ?_⟩
  obtain ⟨k, -, hk⟩ := hcycle.2 sampleA sampleB hmemA hmemB
  have hmaps : Set.MapsTo (fun x => (c.node x).successorAddr) {sampleA, sampleC}
      {sampleA, sampleC} := by
    rintro x (rfl | rfl)
    · exact Or.inr hsuccA
    · exact Or.inl hsuccC
  have hB : sampleB ∈ ({sampleA, sampleC} : Set Ipv4Address) :=
    hk ▸ hmaps.iterate k (Or.inl rfl)
  rcases hB with hB | hB
  · exact absurd hB (by decide)
  · exact absurd hB (by decide)

/-- B issues JOIN twice before it is answered. A answers the first request with
itself and the second with B, whose successor is then B itself. -/
theorem double_join_splits :
    ∃ c, sampleLandmark.Landmark sampleA ∧
      Run ChordNet.step (fun c e => c.Joins {sampleA, sampleB} e ∧ c.Fifo e) sampleLandmark
        [.join sampleB sampleA, .join sampleB sampleA, .deliver 0, .deliver 0, .deliver 0,
          .deliver 0, .deliver 0] c ∧
      (c.node sampleA).chordStatus = true ∧ (c.node sampleB).chordStatus = true ∧
      sampleA ≠ sampleB ∧ (c.node sampleB).successorAddr = sampleB := by
  have hrun : ((execute ChordNet.step
      (fun c e => c.Joins {sampleA, sampleB} e ∧ c.Fifo e) sampleLandmark
      [.join sampleB sampleA, .join sampleB sampleA, .deliver 0, .deliver 0, .deliver 0,
        .deliver 0, .deliver 0]).map fun c => decide ((c.node sampleA).chordStatus = true ∧
          (c.node sampleB).chordStatus = true ∧ sampleA ≠ sampleB ∧
            (c.node sampleB).successorAddr = sampleB)) = some true := by decide
  obtain ⟨c, hc, hfacts⟩ := Option.map_eq_some_iff.mp hrun
  exact ⟨c, sampleLandmark_landmark, .of_execute hc, of_decide_eq_true hfacts⟩

end PennSearch
