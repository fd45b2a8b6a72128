import PennSearch.Chord.Stabilization

/-!
# One exchange of stabilization

`Stabilize` runs at a member `p`, and the messages that it causes are delivered
one after another: a request to the successor `s`, the answer of `s`, and the
notification that `p` sends when the answer makes it take another successor.
Each stage has at most one of these in flight (`ExchangeStage`). Neither an
unknown predecessor nor one behind `p` is repaired: in the first case `s` does
not answer, in the second `p` does not notify it.
-/

namespace PennSearch

open Clockwise MessagePassing

/-- A member of the ring; `0.0.0.0` is nobody's address. -/
def ChordNet.IsMember (c : ChordNet) (a : Ipv4Address) : Prop :=
  a ≠ .getAny ∧ (c.node a).chordStatus = true

def ChordNet.DeliversNew (c : ChordNet) : ChordEvent → Prop
  | .deliver k => c.inFlight.length ≤ k
  | _ => False

instance (c : ChordNet) (e : ChordEvent) : Decidable (c.DeliversNew e) :=
  match e with
  | .deliver _ => inferInstanceAs (Decidable (_ ≤ _))
  | .join .. | .leave _ | .ringstate _ | .stabilize _ | .fixFinger _ | .lookupPublish .. =>
      .isFalse id

variable [Sha1]

/-- `x` is on the arc from `p`, included, to `s`, excluded. -/
def FromUpTo (p s x : Ipv4Address) : Prop :=
  InArc (nodePos p) (nodePos s) (nodePos x) ∧ nodePos x ≠ nodePos s

/-- `x` is on the arc between `p` and `s`, and is neither. -/
def StrictlyBetween (p s x : Ipv4Address) : Prop :=
  FromUpTo p s x ∧ nodePos x ≠ nodePos p

instance (p s x : Ipv4Address) : Decidable (FromUpTo p s x) := inferInstanceAs (Decidable (_ ∧ _))

instance (p s x : Ipv4Address) : Decidable (StrictlyBetween p s x) :=
  inferInstanceAs (Decidable (_ ∧ _))

namespace ChordNet

instance (c : ChordNet) (a : Ipv4Address) : Decidable (c.IsMember a) :=
  inferInstanceAs (Decidable (_ ∧ _))

/-- What the exchange of `p` with its successor `s` is for: the predecessor of
`s` is a member from `p` on, or `p` has found a closer successor. -/
def Repaired (c : ChordNet) (p s : Ipv4Address) : Prop :=
  (c.IsMember (c.node s).predecessorAddr ∧ FromUpTo p s (c.node s).predecessorAddr) ∨
    StrictlyBetween p s (c.node p).successorAddr

instance (c : ChordNet) (p s : Ipv4Address) : Decidable (c.Repaired p s) :=
  inferInstanceAs (Decidable (_ ∨ _))

/-- The predecessor of `s` is known, and it is `s` itself, a member from `p` on,
or an address between the two. -/
def Repairable (c : ChordNet) (p s : Ipv4Address) : Prop :=
  (c.node s).predecessorAddr ≠ .getAny ∧
    ((c.node s).predecessorAddr = s ∨
      (c.IsMember (c.node s).predecessorAddr ∧ FromUpTo p s (c.node s).predecessorAddr) ∨
      StrictlyBetween p s (c.node s).predecessorAddr)

instance (c : ChordNet) (p s : Ipv4Address) : Decidable (c.Repairable p s) :=
  inferInstanceAs (Decidable (_ ∧ _))

/-- `p`, whose successor is `s`, takes `q` as its successor when `s` names it. -/
def Adopts (p s q : Ipv4Address) : Prop :=
  nodePos q ≠ nodePos p ∧ InArc (nodePos p) (nodePos s) (nodePos q)

instance (p s q : Ipv4Address) : Decidable (Adopts p s q) := inferInstanceAs (Decidable (_ ∧ _))

/-- The nodes of `d` have the addresses and the membership that they have in
`c`, `p` has the successor `succ`, and `s` the predecessor `pred`. -/
structure Pointing (c : ChordNet) (p s : Ipv4Address) (d : ChordNet) (succ pred : Ipv4Address) :
    Prop where
  localAddress : ∀ a, (d.node a).localAddress = (c.node a).localAddress
  status : ∀ a, (d.node a).chordStatus = (c.node a).chordStatus
  successor : (d.node p).successorAddr = succ
  predecessor : (d.node s).predecessorAddr = pred

/-- The network `d` in the course of the exchange that `p` starts with `s` in
`c`, where `q` is the predecessor of `s`. -/
inductive ExchangeStage (c : ChordNet) (p s q : Ipv4Address) (d : ChordNet) : Prop
  | asked (transactionId : UInt32)
      (inFlight : d.inFlight = c.inFlight ++ [⟨p, s, ⟨transactionId, .stabilizeReq⟩⟩])
      (pointing : Pointing c p s d s q)
  | answered (transactionId : UInt32)
      (inFlight : d.inFlight = c.inFlight ++ [⟨s, p, ⟨transactionId, .stabilizeResp q⟩⟩])
      (known : q ≠ .getAny) (pointing : Pointing c p s d s q)
  | notified (transactionId : UInt32)
      (inFlight : d.inFlight = c.inFlight ++ [⟨p, q, ⟨transactionId, .notify⟩⟩])
      (known : q ≠ .getAny) (adopts : Adopts p s q) (pointing : Pointing c p s d q q)
  | silent (inFlight : d.inFlight = c.inFlight) (quiet : q = .getAny ∨ ¬ Adopts p s q)
      (pointing : Pointing c p s d s q)
  | ended (inFlight : d.inFlight = c.inFlight) (known : q ≠ .getAny) (adopts : Adopts p s q)
      (pointing : Pointing c p s d q (if q = s then p else q))

variable {c c₁ d d' : ChordNet} {p s q succ pred succ' pred' : Ipv4Address} {e : ChordEvent}

omit [Sha1] in
/-- A turn of node `a` moves the pointers of `a` alone. -/
theorem Pointing.act (h : Pointing c p s d succ pred) {a : Ipv4Address} {n : ChordNode}
    (sent : List ChordPacket) (hlocal : n.localAddress = (d.node a).localAddress)
    (hstatus : n.chordStatus = (d.node a).chordStatus)
    (hsucc : if p = a then n.successorAddr = succ' else succ = succ')
    (hpred : if s = a then n.predecessorAddr = pred' else pred = pred') :
    Pointing c p s (d.act a n sent) succ' pred' where
  localAddress b := by
    rw [Net.act_node_congr (f := ChordNode.localAddress) hlocal sent b, h.localAddress]
  status b := by
    rw [Net.act_node_congr (f := ChordNode.chordStatus) hstatus sent b, h.status]
  successor := by
    rw [Net.act_node]
    split_ifs at hsucc ⊢
    · exact hsucc
    · rw [h.successor, hsucc]
  predecessor := by
    rw [Net.act_node]
    split_ifs at hpred ⊢
    · exact hpred
    · rw [h.predecessor, hpred]

theorem deliver_none (hnew : d.inFlight = c.inFlight) (he : c.DeliversNew e)
    (hstep : d.step e = .ok d') : d' = d := by
  cases e with
  | deliver k =>
      have hk : c.inFlight.length ≤ k := he
      have hnone : d.inFlight[k]? = none := by
        rw [hnew]
        exact List.getElem?_eq_none hk
      rcases step_cases hstep with ⟨-, heq⟩ | ⟨c₀, a, n, acts, hturn, -⟩
      · exact heq
      · simp [turn, hnone] at hturn
  | _ => exact he.elim

/-- When one packet was sent after `c`, such a delivery is the delivery of this
packet, or does nothing. -/
theorem deliver_one {packet : ChordPacket} (hnew : d.inFlight = c.inFlight ++ [packet])
    (he : c.DeliversNew e) (hstep : d.step e = .ok d') :
    d' = d ∨ ∃ (n : ChordNode) (acts : List ChordAction),
      (d.node packet.dst).recvMessage packet.msg packet.src = .ok (n, acts) ∧
        d' = Net.act ⟨d.node, c.inFlight⟩ packet.dst n (sentPackets packet.dst acts) := by
  cases e with
  | deliver k =>
      have hk : c.inFlight.length ≤ k := he
      rcases step_cases hstep with ⟨-, heq⟩ | ⟨c₀, a, n, acts, hturn, heq⟩
      · exact Or.inl heq
      · right
        rcases Nat.lt_or_eq_of_le hk with hlt | rfl
        · have hnone : d.inFlight[k]? = none := by
            rw [hnew, List.getElem?_eq_none]
            simpa using Nat.succ_le_of_lt hlt
          simp [turn, hnone] at hturn
        · have hpacket : d.inFlight[c.inFlight.length]? = some packet := by
            rw [hnew, List.getElem?_concat_length]
          rw [turn_deliver hpacket] at hturn
          injection hturn with hturn
          injection hturn with hc₀ hturn
          injection hturn with ha hrecv
          subst hc₀ ha
          refine ⟨n, acts, hrecv, ?_⟩
          have htake : d.take c.inFlight.length = ⟨d.node, c.inFlight⟩ := by
            simp [Net.take, hnew, List.eraseIdx_append_of_length_le]
          rw [heq, htake]
  | _ => exact he.elim

omit [Sha1] in
theorem Pointing.restore (h : Pointing c p s d succ pred) (inFlight : List ChordPacket) :
    Pointing c p s ⟨d.node, inFlight⟩ succ pred :=
  ⟨h.localAddress, h.status, h.successor, h.predecessor⟩

theorem ExchangeStage.deliver_asked {transactionId : UInt32} {n : ChordNode}
    {acts : List ChordAction} (hp : p ≠ .getAny) (hps : p ≠ s) (hd : Pointing c p s d s q)
    (hrecv : (d.node s).recvMessage ⟨transactionId, .stabilizeReq⟩ p = .ok (n, acts)) :
    ExchangeStage c p s q (Net.act ⟨d.node, c.inFlight⟩ s n (sentPackets s acts)) := by
  have hturn : (n, acts) = (d.node s).processStabilizeReq ⟨transactionId, .stabilizeReq⟩ p :=
    (Except.ok.inj hrecv).symm
  have hsame : ∀ sent, Pointing c p s (Net.act ⟨d.node, c.inFlight⟩ s (d.node s) sent) s q :=
    fun sent => (hd.restore _).act sent rfl rfl (by simp [hps]) (by simp [hd.predecessor])
  unfold ChordNode.processStabilizeReq at hturn
  rw [hd.predecessor] at hturn
  split at hturn
  · rename_i known
    cases hturn
    refine .answered transactionId ?_ known (hsame _)
    simp [sentPackets, hp]
  · rename_i unknown
    cases hturn
    refine .silent ?_ (Or.inl (not_not.mp unknown)) (hsame _)
    simp [sentPackets]

theorem ExchangeStage.deliver_answered {transactionId : UInt32} {n : ChordNode}
    {acts : List ChordAction} (hlocal : (c.node p).localAddress = p) (hps : p ≠ s)
    (known : q ≠ .getAny) (hd : Pointing c p s d s q)
    (hrecv : (d.node p).recvMessage ⟨transactionId, .stabilizeResp q⟩ s = .ok (n, acts)) :
    ExchangeStage c p s q (Net.act ⟨d.node, c.inFlight⟩ p n (sentPackets p acts)) := by
  have hturn : (n, acts) =
      (d.node p).processStabilizeResp ⟨transactionId, .stabilizeResp q⟩ q :=
    (Except.ok.inj hrecv).symm
  have hadopts : (q ≠ .getAny ∧ nodePos q ≠ nodePos (d.node p).localAddress ∧
      (d.node p).inOwnArc (nodePos q)) ↔ Adopts p s q := by
    simp [ChordNode.inOwnArc, Adopts, known, hd.localAddress, hlocal, hd.successor]
  rw [ChordNode.processStabilizeResp_eq, if_congr hadopts rfl rfl] at hturn
  split at hturn
  · rename_i adopts
    cases hturn
    refine .notified transactionId ?_ known adopts ?_
    · simp [sentPackets, ChordNode.sendNotify, known]
    · exact (hd.restore _).act _ rfl rfl (by simp [ChordNode.setSuccessorAddress])
        (by simp [hps.symm])
  · rename_i keeps
    cases hturn
    refine .silent ?_ (Or.inr keeps) ?_
    · simp [sentPackets]
    · exact (hd.restore _).act _ rfl rfl (by simp [hd.successor]) (by simp [hps.symm])

/-- The notification reaches `q`; only when `q` is `s` itself does the
predecessor of `s` change. -/
theorem ExchangeStage.deliver_notified {transactionId : UInt32} {n : ChordNode}
    {acts : List ChordAction} (hlocal : (c.node s).localAddress = s)
    (known : q ≠ .getAny) (adopts : Adopts p s q) (hd : Pointing c p s d q q)
    (hrecv : (d.node q).recvMessage ⟨transactionId, .notify⟩ p = .ok (n, acts)) :
    ExchangeStage c p s q (Net.act ⟨d.node, c.inFlight⟩ q n (sentPackets q acts)) := by
  have hturn : (n, acts) = (d.node q).processNotify ⟨transactionId, .notify⟩ p :=
    (Except.ok.inj hrecv).symm
  have hpq : p ≠ q := by
    rintro rfl
    exact adopts.1 rfl
  by_cases hqs : q = s
  · subst hqs
    have harc : InArc (nodePos (d.node q).predecessorAddr) (nodePos (d.node q).localAddress)
        (nodePos p) := by
      rw [hd.predecessor, hd.localAddress, hlocal]
      exact Or.inl rfl
    have hknown : (d.node q).predecessorAddr ≠ .getAny := by rwa [hd.predecessor]
    rw [ChordNode.processNotify_eq, if_neg hknown, if_pos harc] at hturn
    cases hturn
    refine .ended (by simp [sentPackets]) known adopts ?_
    exact (hd.restore _).act _ rfl rfl (by simp [hpq]) (by simp [ChordNode.setPredecessorAddress])
  · have hquiet : sentPackets q acts = [] ∧ n.localAddress = (d.node q).localAddress ∧
        n.chordStatus = (d.node q).chordStatus := by
      rw [ChordNode.processNotify_eq] at hturn
      split_ifs at hturn <;> cases hturn <;> exact ⟨rfl, rfl, rfl⟩
    obtain ⟨hsent, haddr, hstatus⟩ := hquiet
    rw [hsent]
    refine .ended (by simp) known adopts ?_
    exact (hd.restore _).act _ haddr hstatus (by simp [hpq]) (by simp [Ne.symm hqs, hqs])

/-- A delivery leads to the next stage, or does nothing. -/
theorem ExchangeStage.step (hp : p ≠ .getAny) (hps : p ≠ s)
    (hlocal_p : (c.node p).localAddress = p) (hlocal_s : (c.node s).localAddress = s)
    (h : ExchangeStage c p s q d) (he : c.DeliversNew e) (hstep : d.step e = .ok d') :
    ExchangeStage c p s q d' := by
  cases h with
  | asked transactionId hnew hd =>
      rcases deliver_one hnew he hstep with rfl | ⟨n, acts, hrecv, rfl⟩
      · exact .asked transactionId hnew hd
      · exact .deliver_asked hp hps hd hrecv
  | answered transactionId hnew known hd =>
      rcases deliver_one hnew he hstep with rfl | ⟨n, acts, hrecv, rfl⟩
      · exact .answered transactionId hnew known hd
      · exact .deliver_answered hlocal_p hps known hd hrecv
  | notified transactionId hnew known adopts hd =>
      rcases deliver_one hnew he hstep with rfl | ⟨n, acts, hrecv, rfl⟩
      · exact .notified transactionId hnew known adopts hd
      · exact .deliver_notified hlocal_s known adopts hd hrecv
  | silent hnew quiet hd =>
      rw [deliver_none hnew he hstep]
      exact .silent hnew quiet hd
  | ended hnew known adopts hd =>
      rw [deliver_none hnew he hstep]
      exact .ended hnew known adopts hd

theorem exchangeStage_stabilize (hp : c.IsMember p) (hs : s ≠ .getAny) (hps : p ≠ s)
    (hlocal : (c.node p).localAddress = p) (hsucc : (c.node p).successorAddr = s)
    (hstep : c.step (.stabilize p) = .ok c₁) :
    ExchangeStage c p s (c.node s).predecessorAddr c₁ := by
  have hturn : c.turn (.stabilize p) = some (c, p, .ok ((c.node p).nextTransactionId,
      [.sendTo s ⟨(c.node p).currentTransactionId, .stabilizeReq⟩])) := by
    simp [turn, ChordNode.stabilize, hp.2, hsucc, hlocal, hps.symm]
  rw [step_of_turn hturn] at hstep
  cases hstep
  refine .asked (c.node p).currentTransactionId (by simp [sentPackets, hs]) ?_
  have hc : Pointing c p s c s (c.node s).predecessorAddr :=
    ⟨fun _ => rfl, fun _ => rfl, hsucc, rfl⟩
  exact hc.act _ rfl rfl (by simp [ChordNode.nextTransactionId, hsucc]) (by simp [hps.symm])

/-- After the exchange the purpose is met exactly when the predecessor that `s`
had before was of one of the kinds that make somebody speak. -/
theorem ExchangeStage.repaired_iff (hp : c.IsMember p) (hps : nodePos p ≠ nodePos s)
    (h : ExchangeStage c p s (c.node s).predecessorAddr d) (hall : d.inFlight = c.inFlight) :
    d.Repaired p s ↔ c.Repairable p s := by
  have hmember : ∀ {succ pred : Ipv4Address}, Pointing c p s d succ pred →
      ∀ a, d.IsMember a ↔ c.IsMember a := by
    intro succ pred hd a
    rw [IsMember, IsMember, hd.status]
  unfold Repaired Repairable
  cases h with
  | asked transactionId hnew hd => simp [hnew] at hall
  | answered transactionId hnew known hd => simp [hnew] at hall
  | notified transactionId hnew known adopts hd => simp [hnew] at hall
  | silent hnew quiet hd =>
      have hstay : ¬ StrictlyBetween p s s := fun h => h.1.2 rfl
      rw [hd.successor, hd.predecessor, hmember hd, or_iff_left hstay]
      generalize (c.node s).predecessorAddr = q at quiet
      constructor
      · rintro ⟨hmem, hfrom⟩
        exact ⟨hmem.1, Or.inr (Or.inl ⟨hmem, hfrom⟩)⟩
      · rintro ⟨known, hkind⟩
        have hnot : ¬ Adopts p s q := quiet.resolve_left known
        rcases hkind with rfl | hfrom | hbetween
        · exact absurd ⟨hps.symm, inArc_right _ _⟩ hnot
        · exact hfrom
        · exact absurd ⟨hbetween.2, hbetween.1.1⟩ hnot
  | ended hnew known adopts hd =>
      rw [hd.successor, hd.predecessor, hmember hd]
      generalize (c.node s).predecessorAddr = q at known adopts hd
      by_cases hqs : q = s
      · rw [if_pos hqs]
        exact iff_of_true (Or.inl ⟨hp, inArc_left _ _, hps⟩) ⟨known, Or.inl hqs⟩
      · rw [if_neg hqs]
        constructor
        · exact fun h => ⟨known, Or.inr h⟩
        · rintro ⟨-, hkind⟩
          exact hkind.resolve_left hqs

/-- However the messages that `Stabilize` at `p` causes are delivered, once all
of them are the exchange has met its purpose exactly when it started from a
`Repairable` state. -/
theorem stabilize_repairs_iff {es : List ChordEvent} (hp : c.IsMember p) (hs : c.IsMember s)
    (hps : nodePos p ≠ nodePos s) (hlocal : ∀ a, (c.node a).localAddress = a)
    (hsucc : (c.node p).successorAddr = s) (hstep : c.step (.stabilize p) = .ok c₁)
    (hrun : Run ChordNet.step (fun _ e => c.DeliversNew e) c₁ es d)
    (hall : d.inFlight = c.inFlight) :
    d.Repaired p s ↔ c.Repairable p s := by
  have hne : p ≠ s := fun h => hps (congrArg nodePos h)
  have hstage : ExchangeStage c p s (c.node s).predecessorAddr d :=
    hrun.invariant (exchangeStage_stabilize hp hs.1 hne (hlocal p) hsucc hstep)
      fun _ _ _ h he => h.step hp.1 hne (hlocal p) (hlocal s) he
  exact hstage.repaired_iff hp hps hall

end ChordNet

end PennSearch

namespace PennSearch

open MessagePassing

attribute [local instance] sampleSha1

/-- B joins through A, the notification of A overtaking its answer, and then A
stabilizes: B still knows no predecessor. -/
theorem stabilize_leaves_unknown :
    ∃ c c₁ d : ChordNet,
      Run ChordNet.step (fun _ _ => True) (ChordNet.start fun _ => 0)
        [.join sampleA sampleA, .join sampleB sampleA, .deliver 0, .deliver 1, .deliver 0,
          .deliver 0] c ∧
      c.IsMember sampleA ∧ c.IsMember sampleB ∧ (c.node sampleA).successorAddr = sampleB ∧
      c.step (.stabilize sampleA) = .ok c₁ ∧
      Run ChordNet.step (fun _ e => c.DeliversNew e) c₁ [.deliver 0] d ∧
      d.inFlight = c.inFlight ∧ ¬ d.Repaired sampleA sampleB ∧
      (d.node sampleB).predecessorAddr = .getAny := by
  have hrun : ((execute ChordNet.step (fun _ _ => True) (ChordNet.start fun _ => 0)
      [.join sampleA sampleA, .join sampleB sampleA, .deliver 0, .deliver 1, .deliver 0,
        .deliver 0]).bind fun c => (c.step (.stabilize sampleA)).toOption.bind fun c₁ =>
      (execute ChordNet.step (fun _ e => c.DeliversNew e) c₁ [.deliver 0]).map fun d =>
        decide (c.IsMember sampleA ∧ c.IsMember sampleB ∧
          (c.node sampleA).successorAddr = sampleB ∧ d.inFlight = c.inFlight ∧
          ¬ d.Repaired sampleA sampleB ∧ (d.node sampleB).predecessorAddr = .getAny)) =
      some true := by
    decide
  obtain ⟨c, hc, hrun⟩ := Option.bind_eq_some_iff.mp hrun
  obtain ⟨c₁, hc₁, hrun⟩ := Option.bind_eq_some_iff.mp hrun
  obtain ⟨d, hd, hfacts⟩ := Option.map_eq_some_iff.mp hrun
  obtain ⟨hA, hB, hsucc, hall, hnot, hany⟩ := of_decide_eq_true hfacts
  exact ⟨c, c₁, d, .of_execute hc, hA, hB, hsucc, eq_ok_of_toOption hc₁, .of_execute hd,
    hall, hnot, hany⟩

theorem stabilize_repairs_samplePair :
    ∃ c₁ d : ChordNet,
      ChordNet.step ⟨samplePair, []⟩ (.stabilize sampleA) = .ok c₁ ∧
      Run ChordNet.step (fun _ e => ChordNet.DeliversNew ⟨samplePair, []⟩ e) c₁
        [.deliver 0, .deliver 0] d ∧
      d.inFlight = [] ∧
      (d.Repaired sampleA sampleB ↔ ChordNet.Repairable ⟨samplePair, []⟩ sampleA sampleB) := by
  have hrun : ((ChordNet.step ⟨samplePair, []⟩ (.stabilize sampleA)).toOption.bind fun c₁ =>
      (execute ChordNet.step (fun _ e => ChordNet.DeliversNew ⟨samplePair, []⟩ e) c₁
        [.deliver 0, .deliver 0]).map fun d => decide (d.inFlight = [])) = some true := by
    decide
  obtain ⟨c₁, hc₁, hrun⟩ := Option.bind_eq_some_iff.mp hrun
  obtain ⟨d, hd, hall⟩ := Option.map_eq_some_iff.mp hrun
  have hstep := eq_ok_of_toOption hc₁
  have hall := of_decide_eq_true hall
  refine ⟨c₁, d, hstep, .of_execute hd, hall, ?_⟩
  exact ChordNet.stabilize_repairs_iff (by decide) (by decide) (by decide)
    samplePair_stable.localAddress (by decide) hstep (.of_execute hd) hall

end PennSearch
