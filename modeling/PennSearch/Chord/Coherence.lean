import PennSearch.Chord.Fingers

/-!
# Membership coherence

A member has a successor, and a node outside has neither pointers nor fingers.
The commands and the timers keep this, but most message handlers write without a
look at `m_chordStatus`, and a message sent before its receiver left, or an answer
given by a node outside, breaks it. `Harmless` says which deliveries do not: the
states of a run are all coherent exactly when its steps are all harmless.
-/

namespace PennSearch

open Clockwise MessagePassing

namespace ChordNode

/-- A member has a successor, a node outside has no pointers and no fingers. -/
structure Coherent (n : ChordNode) : Prop where
  member : n.chordStatus = true → n.successorAddr ≠ .getAny
  outside : n.chordStatus = false →
    n.successorAddr = .getAny ∧ n.predecessorAddr = .getAny ∧ n.fingerTable.isEmpty

variable {n n' : ChordNode} {acts : List ChordAction}

theorem Coherent.congr (h : n.Coherent) (hp : n'.pointers = n.pointers)
    (hf : n'.fingerTable = n.fingerTable) : n'.Coherent := by
  obtain ⟨hs, hsucc, hpred⟩ := Pointers.mk.inj hp
  refine ⟨fun hmem => ?_, fun hout => ?_⟩
  · rw [hsucc]
    exact h.member (hs.symm.trans hmem)
  · rw [hsucc, hpred, hf]
    exact h.outside (hs.symm.trans hout)

theorem coherent_of_member (hmem : n.chordStatus = true) (hsucc : n.successorAddr ≠ .getAny) :
    n.Coherent :=
  ⟨fun _ => hsucc, fun hout => by simp [hmem] at hout⟩

theorem coherent_start (localAddress : Ipv4Address) (transactionId : UInt32) :
    (start localAddress transactionId).Coherent :=
  ⟨fun hmem => by simp [start] at hmem, fun _ => ⟨rfl, rfl, by simp [start]⟩⟩

theorem coherent_clear (n : ChordNode) : n.clear.Coherent :=
  ⟨fun hmem => by simp [clear] at hmem, fun _ => ⟨rfl, rfl, by simp [clear]⟩⟩

/-! ## Commands -/

theorem Coherent.processJoinCommand (h : n.Coherent) (hlocal : n.localAddress ≠ .getAny)
    (nodeAddr : Ipv4Address) : (n.processJoinCommand nodeAddr).1.Coherent := by
  unfold ChordNode.processJoinCommand
  split
  · exact h
  · split
    · exact coherent_of_member rfl hlocal
    · split
      · exact h.congr rfl rfl
      · exact h

theorem Coherent.processLeaveCommand (h : n.Coherent) : n.processLeaveCommand.1.Coherent := by
  unfold ChordNode.processLeaveCommand
  split
  · exact h
  · split
    · exact coherent_clear n
    · exact coherent_clear _

theorem Coherent.processRingstateCommand (h : n.Coherent) :
    n.processRingstateCommand.1.Coherent := by
  unfold ChordNode.processRingstateCommand
  split
  · exact h
  · exact h.congr rfl rfl

theorem Coherent.stabilize (h : n.Coherent) : n.stabilize.1.Coherent := by
  unfold ChordNode.stabilize
  split
  · exact h.congr rfl rfl
  · exact h

variable [Sha1]

theorem Coherent.fixFinger (h : n.Coherent) (hfix : n.fixFinger = .ok (n', acts)) :
    n'.Coherent := by
  have hq := quiet_fixFinger hfix
  obtain ⟨hs, hsucc, -⟩ := Pointers.mk.inj hq.pointers
  rcases fixFinger_fingerTable hfix with ⟨-, hf⟩ | ⟨hmem, -⟩
  · exact h.congr hq.pointers hf
  · refine coherent_of_member (hs.trans hmem) ?_
    rw [hsucc]
    exact h.member hmem

/-! ## Messages -/

/-- The payloads that do no harm to a node: an answer that names a node, and, at
a node outside, nothing that is written down. -/
def Harmless (n : ChordNode) : ChordPayload → Prop
  | .joinChordSuccess successorAddress => successorAddress ≠ .getAny
  | .notify => n.chordStatus = true
  | .stabilizeResp predecessorAddress => n.chordStatus = true ∨
      ¬ (predecessorAddress ≠ .getAny ∧ nodePos predecessorAddress ≠ nodePos n.localAddress ∧
        n.inOwnArc (nodePos predecessorAddress))
  | .leaveSuccessor predecessorAddress => n.chordStatus = true ∨ predecessorAddress = .getAny
  | .leavePredecessor _ => n.chordStatus = true
  | .findFingerSuccess _ _ => n.chordStatus = true
  | _ => True

instance (n : ChordNode) (payload : ChordPayload) : Decidable (n.Harmless payload) :=
  match payload with
  | .joinChordSuccess _ => inferInstanceAs (Decidable (_ ≠ _))
  | .stabilizeResp _ | .leaveSuccessor _ => inferInstanceAs (Decidable (_ ∨ _))
  | .notify | .leavePredecessor _ | .findFingerSuccess .. => inferInstanceAs (Decidable (_ = _))
  | .pingReq _ | .pingRsp _ | .joinChord | .findSuccessor .. | .joinChordFail | .stabilizeReq
  | .ringstate _ | .findFinger .. | .lookupPublish .. | .lookupPublishSuccess .. => .isTrue trivial

theorem Harmless.of_member (hmem : n.chordStatus = true) {payload : ChordPayload}
    (hpayload : ∀ v, payload ≠ .joinChordSuccess v) : n.Harmless payload := by
  cases payload with
  | joinChordSuccess v => exact absurd rfl (hpayload v)
  | stabilizeResp q => exact Or.inl hmem
  | leaveSuccessor v => exact Or.inl hmem
  | notify => exact hmem
  | leavePredecessor v => exact hmem
  | findFingerSuccess finger i => exact hmem
  | _ => trivial

theorem Coherent.recvMessage_member (h : n.Coherent) (hmem : n.chordStatus = true)
    {message : PennChordMessage} {src : Ipv4Address} (hsrc : src ≠ .getAny)
    (hleave : ∀ v, message.payload = .leavePredecessor v → v ≠ .getAny)
    (hjoined : ∀ v, message.payload ≠ .joinChordSuccess v)
    (hrecv : n.recvMessage message src = .ok (n', acts)) : n'.Coherent := by
  have hF : n.FingersIn fun _ => True := fun _ _ _ => trivial
  have hsucc := h.member hmem
  suffices hkept : n'.pointers.member = true ∧ n'.pointers.successor ≠ .getAny from
    coherent_of_member hkept.1 hkept.2
  rcases recvMessage_view hF hrecv with ⟨m, hm, hsim⟩ | ⟨-, hq⟩
  · have hreacts : Reacts _ _ n.pointers src m n'.pointers (acts.filterMap ringAction) :=
      hsim.reacts
    generalize n'.pointers = q at hreacts ⊢
    generalize acts.filterMap ringAction = out at hreacts
    cases hreacts with
    | joinSplit member alone => exact ⟨hmem, hsrc⟩
    | respAdopt some ne owns => exact ⟨hmem, some⟩
    | leavePredecessor =>
        refine ⟨hmem, hleave _ ?_⟩
        cases hpay : message.payload <;> simp_all [ringMessage]
    | joined =>
        cases hpay : message.payload <;> simp_all [ringMessage]
    | _ => exact ⟨hmem, hsucc⟩
  · rw [hq.pointers]
    exact ⟨hmem, hsucc⟩

theorem Coherent.recvMessage_outside_iff (h : n.Coherent) (hout : n.chordStatus = false)
    {message : PennChordMessage} {src : Ipv4Address} (hsrc : src ≠ .getAny)
    (hleave : ∀ v, message.payload = .leavePredecessor v → v ≠ .getAny)
    (hrecv : n.recvMessage message src = .ok (n', acts)) :
    n'.Coherent ↔ n.Harmless message.payload := by
  obtain ⟨hsucc, hpred, hfingers⟩ := h.outside hout
  obtain ⟨tx, payload⟩ := message
  have hkept : ringMessage payload = none → (∀ finger i, payload ≠ .findFingerSuccess finger i) →
      n'.Coherent := by
    intro hm hmsg
    have hF : n.FingersIn fun _ => True := fun _ _ _ => trivial
    rcases recvMessage_view hF hrecv with ⟨m, hm', -⟩ | ⟨-, hq⟩
    · simp [hm] at hm'
    · exact h.congr hq.pointers (recvMessage_fingerTable hmsg hrecv)
  cases payload with
  | joinChord =>
      simp only [recvMessage, processJoinChord, if_pos hout] at hrecv
      cases hrecv
      exact iff_of_true h trivial
  | findSuccessor destAddress targetDigest =>
      obtain ⟨rfl, -⟩ := recvMessage_target_cases _ src rfl hrecv
      exact iff_of_true h trivial
  | joinChordSuccess v =>
      cases hrecv
      exact ⟨fun h' => h'.member rfl, fun hv => coherent_of_member rfl hv⟩
  | notify =>
      have heq := n.processNotify_eq ⟨tx, .notify⟩ src
      rw [if_pos hpred, Except.ok.inj hrecv] at heq
      obtain ⟨rfl, -⟩ := Prod.mk.inj heq
      simp only [Harmless, hout, Bool.false_eq_true, iff_false]
      exact fun h' => hsrc (h'.outside hout).2.1
  | stabilizeReq =>
      have heq : (n.processStabilizeReq ⟨tx, .stabilizeReq⟩ src).1 = n := by
        simp [processStabilizeReq, hpred]
      rw [Except.ok.inj hrecv] at heq
      exact iff_of_true (h.congr (congrArg pointers heq) (congrArg fingerTable heq)) trivial
  | stabilizeResp q =>
      have heq := n.processStabilizeResp_eq ⟨tx, .stabilizeResp q⟩ q
      rw [Except.ok.inj hrecv] at heq
      simp only [Harmless, hout, Bool.false_eq_true, false_or]
      split at heq
      · rename_i hadopt
        obtain ⟨rfl, -⟩ := Prod.mk.inj heq
        exact ⟨fun h' => absurd (h'.outside hout).1 hadopt.1, fun hnot => absurd hadopt hnot⟩
      · rename_i hkeep
        obtain ⟨rfl, -⟩ := Prod.mk.inj heq
        exact ⟨fun _ => hkeep, fun _ => h⟩
  | leaveSuccessor v =>
      cases hrecv
      simp only [Harmless, hout, Bool.false_eq_true, false_or]
      exact ⟨fun h' => (h'.outside hout).2.1, fun hv =>
        h.congr (Pointers.ext rfl rfl (hv.trans hpred.symm)) rfl⟩
  | leavePredecessor v =>
      cases hrecv
      simp only [Harmless, hout, Bool.false_eq_true, iff_false]
      exact fun h' => hleave v rfl (h'.outside hout).1
  | findFingerSuccess finger i =>
      have hq := (quiet_sendFindFingerLoop _ hrecv).pointers
      simp only [Harmless, hout, Bool.false_eq_true, iff_false]
      exact fun h' => processFindFingerSuccess_fingerTable hrecv
        (h'.outside ((congrArg Pointers.member hq).trans hout)).2.2
  | _ => exact iff_of_true (hkept rfl (by simp)) trivial

/-- A coherent node stays coherent exactly at the harmless messages. -/
theorem Coherent.recvMessage_iff (h : n.Coherent) {message : PennChordMessage}
    {src : Ipv4Address} (hsrc : src ≠ .getAny)
    (hleave : ∀ v, message.payload = .leavePredecessor v → v ≠ .getAny)
    (hrecv : n.recvMessage message src = .ok (n', acts)) :
    n'.Coherent ↔ n.Harmless message.payload := by
  rcases hs : n.chordStatus with _ | _
  · exact h.recvMessage_outside_iff hs hsrc hleave hrecv
  · by_cases hjoined : ∃ v, message.payload = .joinChordSuccess v
    · obtain ⟨v, hv⟩ := hjoined
      obtain ⟨tx, payload⟩ := message
      obtain rfl : payload = .joinChordSuccess v := hv
      cases hrecv
      exact ⟨fun h' => h'.member rfl, fun hv => coherent_of_member rfl hv⟩
    · have hjoined' := not_exists.mp hjoined
      exact iff_of_true (h.recvMessage_member hs hsrc hleave hjoined' hrecv)
        (Harmless.of_member hs hjoined')

end ChordNode

/-! ## Runs -/

/-- `0.0.0.0` is no node: it runs no command and no timer. -/
def ChordEvent.Started : ChordEvent → Prop
  | .join a _ => a ≠ .getAny
  | .leave a => a ≠ .getAny
  | .ringstate a => a ≠ .getAny
  | .stabilize a => a ≠ .getAny
  | .fixFinger a => a ≠ .getAny
  | .lookupPublish a _ _ _ => a ≠ .getAny
  | .deliver _ => True

instance (e : ChordEvent) : Decidable e.Started :=
  match e with
  | .deliver _ => .isTrue trivial
  | .join .. | .leave _ | .ringstate _ | .stabilize _ | .fixFinger _ | .lookupPublish .. =>
      inferInstanceAs (Decidable (_ ≠ _))

theorem Reacts.no_leavePredecessor [Sha1] {F : Ipv4Address → Prop} {a src dst v : Ipv4Address}
    {p q : Pointers} {m : RingMessage} {out : List RingAction} (h : Reacts F a p src m q out) :
    RingAction.send dst (.leavePredecessor v) ∉ out := by
  cases h <;> simp

namespace ChordNet

def Coherent (c : ChordNet) : Prop := ∀ a, (c.node a).Coherent

/-- What runs keep besides: a packet has two real ends, and a leave message to a
predecessor names a node. -/
structure Addressed (c : ChordNet) : Prop where
  localAddress : ∀ a, (c.node a).localAddress = a
  ends : ∀ p ∈ c.inFlight, p.src ≠ .getAny ∧ p.dst ≠ .getAny
  leavePredecessor : ∀ p ∈ c.inFlight, ∀ v, p.msg.payload = .leavePredecessor v → v ≠ .getAny

variable [Sha1]

/-- The steps that do no harm: every step but the deliveries that write something
down at a node outside, and the answers that name `0.0.0.0`. -/
def Harmless (c : ChordNet) : ChordEvent → Prop
  | .deliver k => ∀ p ∈ c.inFlight[k]?, (c.node p.dst).Harmless p.msg.payload
  | _ => True

instance (c : ChordNet) (e : ChordEvent) : Decidable (c.Harmless e) :=
  match e with
  | .deliver _ => inferInstanceAs (Decidable (∀ p ∈ _, _))
  | .join .. | .leave _ | .ringstate _ | .stabilize _ | .fixFinger _ | .lookupPublish .. =>
      .isTrue trivial

variable {c c' c₀ : ChordNet} {e : ChordEvent} {a : Ipv4Address} {n : ChordNode}
  {acts : List ChordAction}

/-- A turn of a node keeps it coherent exactly when it is harmless. -/
theorem turn_coherent_iff (h : c.Coherent) (haddr : c.Addressed) (he : e.Started)
    (hturn : c.turn e = some (c₀, a, .ok (n, acts))) : n.Coherent ↔ c.Harmless e := by
  cases e with
  | deliver k =>
      simp only [turn] at hturn
      split at hturn
      · cases hturn
      · rename_i p hp
        simp only [Option.some.injEq, Prod.mk.injEq] at hturn
        obtain ⟨-, rfl, hrecv⟩ := hturn
        have hmem := mem_of_getElem? hp
        rw [(h p.dst).recvMessage_iff (haddr.ends p hmem).1
          (haddr.leavePredecessor p hmem) hrecv]
        simp [Harmless, hp]
  | fixFinger b =>
      simp only [turn] at hturn
      split at hturn
      · simp only [Option.some.injEq, Prod.mk.injEq] at hturn
        obtain ⟨-, rfl, hfix⟩ := hturn
        exact iff_of_true ((h b).fixFinger hfix) trivial
      · cases hturn
  | lookupPublish b key flag tx =>
      simp only [turn, Option.some.injEq, Prod.mk.injEq] at hturn
      obtain ⟨-, rfl, hlookup⟩ := hturn
      rw [ChordNode.lookupPublish_eq_self hlookup]
      exact iff_of_true (h b) trivial
  | join b nodeAddr =>
      simp only [turn, Option.some.injEq, Prod.mk.injEq] at hturn
      obtain ⟨-, rfl, hjoin⟩ := hturn
      have hcoherent := (h b).processJoinCommand ((haddr.localAddress b).trans_ne he) nodeAddr
      rw [Except.ok.inj hjoin] at hcoherent
      exact iff_of_true hcoherent trivial
  | leave b =>
      simp only [turn, Option.some.injEq, Prod.mk.injEq] at hturn
      obtain ⟨-, rfl, hleave⟩ := hturn
      have hcoherent := (h b).processLeaveCommand
      rw [Except.ok.inj hleave] at hcoherent
      exact iff_of_true hcoherent trivial
  | ringstate b =>
      simp only [turn, Option.some.injEq, Prod.mk.injEq] at hturn
      obtain ⟨-, rfl, hring⟩ := hturn
      have hcoherent := (h b).processRingstateCommand
      rw [Except.ok.inj hring] at hcoherent
      exact iff_of_true hcoherent trivial
  | stabilize b =>
      simp only [turn, Option.some.injEq, Prod.mk.injEq] at hturn
      obtain ⟨-, rfl, hstab⟩ := hturn
      have hcoherent := (h b).stabilize
      rw [Except.ok.inj hstab] at hcoherent
      exact iff_of_true hcoherent trivial

/-- A step keeps the network coherent exactly when it is harmless. -/
theorem step_coherent_iff (h : c.Coherent) (haddr : c.Addressed) (he : e.Started)
    (hstep : c.step e = .ok c') : c'.Coherent ↔ c.Harmless e := by
  rcases step_cases hstep with ⟨hnone, rfl⟩ | ⟨c₀, a, n, acts, hturn, rfl⟩
  · refine iff_of_true h ?_
    cases e with
    | deliver k =>
        intro p hp
        simp [turn, Option.mem_def.mp hp] at hnone
    | _ => trivial
  · rw [← turn_coherent_iff h haddr he hturn]
    constructor
    · intro h'
      have ha := h' a
      rwa [Net.act_node_self] at ha
    · intro hn b
      rw [Net.act_node]
      split
      · exact hn
      · rw [turn_node hturn]
        exact h b

theorem turn_ne_getAny (haddr : c.Addressed) (he : e.Started) {r : ChordResult}
    (hturn : c.turn e = some (c₀, a, r)) : a ≠ .getAny := by
  cases e with
  | deliver k =>
      simp only [turn] at hturn
      split at hturn
      · cases hturn
      · rename_i p hp
        cases hturn
        exact (haddr.ends p (mem_of_getElem? hp)).2
  | fixFinger b =>
      simp only [turn] at hturn
      split at hturn
      · cases hturn
        exact he
      · cases hturn
  | _ =>
      cases hturn
      exact he

/-- Only a member that leaves sends a leave message to its predecessor, and it
names its successor. -/
theorem turn_leavePredecessor (h : c.Coherent) (hlocal : ∀ a, (c.node a).localAddress = a)
    (hturn : c.turn e = some (c₀, a, .ok (n, acts))) {dst v : Ipv4Address} {tx : UInt32}
    (hsend : .sendTo dst ⟨tx, .leavePredecessor v⟩ ∈ acts) : v ≠ .getAny := by
  obtain ⟨⟨-, hring⟩, -⟩ := turn_view (F := fun _ _ => True) hlocal (fun _ _ _ _ => trivial) hturn
  have hout : RingAction.send dst (.leavePredecessor v) ∈ acts.filterMap ringAction :=
    List.mem_filterMap.mpr ⟨_, hsend, rfl⟩
  generalize acts.filterMap ringAction = out at hring hout
  generalize c.ringEvent e = re at hring
  generalize n.pointers = q at hring
  cases hring with
  | leave member several =>
      obtain ⟨-, rfl⟩ : dst = (c.view.node a).predecessor ∧ v = (c.view.node a).successor := by
        simpa using hout
      exact (h a).member member
  | deliver packet reacts => exact absurd hout reacts.no_leavePredecessor
  | _ => simp at hout

theorem Addressed.step (haddr : c.Addressed) (h : c.Coherent) (he : e.Started)
    (hstep : c.step e = .ok c') : c'.Addressed := by
  obtain ⟨-, hlocal'⟩ := step_view (F := fun _ _ => True) haddr.localAddress
    (fun _ _ _ _ => trivial) hstep
  rcases step_cases hstep with ⟨-, rfl⟩ | ⟨c₀, a, n, acts, hturn, rfl⟩
  · exact haddr
  · have hsub := turn_inFlight_subset hturn
    refine ⟨hlocal', fun p hp => ?_, fun p hp v hv => ?_⟩
    · rcases List.mem_append.mp hp with hp | hp
      · exact haddr.ends p (hsub p hp)
      · obtain ⟨hsrc, hdst, -⟩ := mem_sentPackets.mp hp
        rw [hsrc]
        exact ⟨turn_ne_getAny haddr he hturn, hdst⟩
    · rcases List.mem_append.mp hp with hp | hp
      · exact haddr.leavePredecessor p (hsub p hp) v hv
      · obtain ⟨-, -, hact⟩ := mem_sentPackets.mp hp
        obtain ⟨src, dst, tx, payload⟩ := p
        obtain rfl : payload = .leavePredecessor v := hv
        exact turn_leavePredecessor h haddr.localAddress hturn hact

end ChordNet

/-- A run from the start goes through coherent states only exactly when all its
steps are harmless. -/
theorem coherent_iff_harmless [Sha1] {transactionId : Ipv4Address → UInt32}
    {es : List ChordEvent} {c : ChordNet}
    (hrun : Run ChordNet.step (fun _ e => e.Started) (.start transactionId) es c) :
    (∀ es' c', es' <+: es →
        Run ChordNet.step (fun _ e => e.Started) (.start transactionId) es' c' →
        ∀ a, (c'.node a).Coherent) ↔
      Run ChordNet.step (fun c e => e.Started ∧ c.Harmless e) (.start transactionId) es c := by
  refine hrun.always_iff (P := ChordNet.Coherent) (I := ChordNet.Addressed)
    ⟨⟨fun a => rfl, fun p hp => ?_, fun p hp => ?_⟩, fun a => ?_⟩ ?_
  · cases hp
  · cases hp
  · exact ChordNode.coherent_start a _
  · intro c e c' haddr h he hstep
    exact ⟨haddr.step h he hstep, ChordNet.step_coherent_iff h haddr he hstep⟩

end PennSearch

namespace PennSearch

open MessagePassing

attribute [local instance] sampleSha1

/-- B joins the landmark A, and both stay coherent. -/
theorem coherent_iff_harmless_sample :
    ∃ c, Run ChordNet.step (fun _ e => e.Started) (.start fun _ => 0)
        [.join sampleA sampleA, .join sampleB sampleA, .deliver 0, .deliver 0] c ∧
      ((∀ es' c', es' <+: [.join sampleA sampleA, .join sampleB sampleA, .deliver 0, .deliver 0] →
          Run ChordNet.step (fun _ e => e.Started) (.start fun _ => 0) es' c' →
          ∀ a, (c'.node a).Coherent) ↔
        Run ChordNet.step (fun c e => e.Started ∧ c.Harmless e) (.start fun _ => 0)
          [.join sampleA sampleA, .join sampleB sampleA, .deliver 0, .deliver 0] c) := by
  have hrun : (execute ChordNet.step (fun _ e => e.Started) (.start fun _ => 0)
      [.join sampleA sampleA, .join sampleB sampleA, .deliver 0, .deliver 0]).isSome := by decide
  obtain ⟨c, hc⟩ := Option.isSome_iff_exists.mp hrun
  exact ⟨c, .of_execute hc, coherent_iff_harmless (.of_execute hc)⟩

/-- A leaves before the notification of B arrives, and is outside with a
predecessor then. -/
theorem late_notify_breaks_coherence :
    ∃ c, Run ChordNet.step (fun c e => e.Started ∧ c.Fifo e) (.start fun _ => 0)
        [.join sampleA sampleA, .join sampleB sampleA, .deliver 0, .deliver 0, .leave sampleA,
          .deliver 1] c ∧
      (c.node sampleA).chordStatus = false ∧ (c.node sampleA).predecessorAddr = sampleB ∧
      ¬ (c.node sampleA).Coherent := by
  have hrun : ((execute ChordNet.step (fun c e => e.Started ∧ c.Fifo e) (.start fun _ => 0)
      [.join sampleA sampleA, .join sampleB sampleA, .deliver 0, .deliver 0, .leave sampleA,
        .deliver 1]).map fun c => decide ((c.node sampleA).chordStatus = false ∧
          (c.node sampleA).predecessorAddr = sampleB)) = some true := by decide
  obtain ⟨c, hc, hfacts⟩ := Option.map_eq_some_iff.mp hrun
  obtain ⟨hout, hpred⟩ := of_decide_eq_true hfacts
  refine ⟨c, .of_execute hc, hout, hpred, fun h => ?_⟩
  exact absurd (hpred.symm.trans (h.outside hout).2.1) (by decide)

end PennSearch
