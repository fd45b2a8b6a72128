import PennSearch.Chord.Join

/-!
# One join converges

After the join messages are delivered the successor `S` of the newcomer `X` has
taken it as its predecessor. From then on a stabilization of the member `P` before
`X` asks `S`, is answered with `X` and notifies `X` (`Asked`), and what is then in
flight changes no pointer. `join_converges` puts the phases together on runs of
the Chord network: stabilization before the JOIN, the join messages, and one more
stabilization of every member.
-/

namespace PennSearch

open Clockwise MessagePassing

variable [Sha1] {R : Finset Ipv4Address} {X P S : Ipv4Address}

/-- `P` and `S` are the neighbours of `X`. -/
structure Between (R : Finset Ipv4Address) (X P S : Ipv4Address) : Prop where
  before_mem : P ∈ R
  after_mem : S ∈ R
  before : IsNext nodePos (insert X R) P X
  after : IsNext nodePos (insert X R) X S
  next : IsNext nodePos R P S

/-- `S` has taken `X` as its predecessor. -/
structure Converging (R : Finset Ipv4Address) (X S : Ipv4Address) (s : RingNet) : Prop
    extends Joined R X s where
  taken : (s.node S).predecessor = X

/-- `P` has `X` as its successor, or is about to learn of it. -/
def Asked (X P S : Ipv4Address) (s : RingNet) : Prop :=
  (s.node P).successor = X ∨ ⟨P, S, .stabilizeReq⟩ ∈ s.inFlight ∨
    ∃ src, ⟨src, P, .stabilizeResp X⟩ ∈ s.inFlight

section Steps

variable {s : RingNet} {F : Ipv4Address → Ipv4Address → Prop}

theorem Between.isNext (hb : Between R X P S)
    (hinj : Set.InjOn nodePos (insert X R : Finset Ipv4Address)) {a v : Ipv4Address}
    (ha : a ∈ R) (haP : a ≠ P) (h : IsNext nodePos R a v) :
    IsNext nodePos (insert X R) a v := by
  have hpos : nodePos a ≠ nodePos P := fun heq => haP
    (hinj (Finset.mem_coe.mpr (Finset.mem_insert_of_mem ha))
      (Finset.mem_coe.mpr (Finset.mem_insert_of_mem hb.before_mem)) heq)
  exact hb.next.insert_other hb.before_mem
    (hb.after.inArc_of_mem (Finset.mem_insert_of_mem hb.before_mem)) hpos ha h

theorem Between.successor_or (hb : Between R X P S) (hX : X ∉ R)
    (hinj : Set.InjOn nodePos (insert X R : Finset Ipv4Address)) (h : Joined R X s) :
    (s.node P).successor = X ∨ (s.node P).successor = S := by
  have hnext := (h.takesPart P (Finset.mem_insert_of_mem hb.before_mem)).successor
  by_cases hPX : (s.node P).successor = X
  · exact Or.inl hPX
  · exact Or.inr ((hnext.isNext hX hPX).unique
      (hinj.mono (Finset.coe_subset.mpr (Finset.subset_insert X R))) hb.next)

theorem Converging.stabilize (h : Converging R X S s) {a : Ipv4Address} (ha : a ∈ insert X R) :
    Converging R X S (s.act a (s.node a)
      (ringSends a [.send (s.node a).successor .stabilizeReq])) := by
  refine ⟨h.toJoined.stabilize ha, ?_⟩
  simpa [Net.act] using h.taken

theorem Converging.deliver (h : Converging R X S s) (hX : X ∉ R)
    (hinj : Set.InjOn nodePos (insert X R : Finset Ipv4Address))
    (hany : .getAny ∉ insert X R) (hb : Between R X P S) {k : ℕ} {p : RingPacket}
    {q : Pointers} {out : List RingAction} (packet : s.inFlight[k]? = some p)
    (reacts : Reacts (F p.dst) p.dst (s.node p.dst) p.src p.msg q out) :
    Converging R X S ((s.take k).act p.dst q (ringSends p.dst out)) :=
  ⟨h.toJoined.deliver hX hinj hany packet reacts,
    h.toJoined.predecessor_deliver hinj hany packet reacts (Finset.mem_insert_self X R)
      hb.after h.taken⟩

omit [Sha1] in
theorem Asked.stabilize (h : Asked X P S s) (a : Ipv4Address) (sent : List RingPacket) :
    Asked X P S (s.act a (s.node a) sent) := by
  have hnode : (s.act a (s.node a) sent).node = s.node := by simp [Net.act]
  unfold Asked
  rw [hnode]
  rcases h with h | h | ⟨src, h⟩
  · exact Or.inl h
  · exact Or.inr (Or.inl (List.mem_append_left _ h))
  · exact Or.inr (Or.inr ⟨src, List.mem_append_left _ h⟩)

theorem Converging.asked_stabilize (h : Converging R X S s) (hX : X ∉ R)
    (hinj : Set.InjOn nodePos (insert X R : Finset Ipv4Address))
    (hany : .getAny ∉ insert X R) (hb : Between R X P S) :
    Asked X P S (s.act P (s.node P)
      (ringSends P [.send (s.node P).successor .stabilizeReq])) := by
  have hnode : (s.act P (s.node P)
      (ringSends P [.send (s.node P).successor .stabilizeReq])).node = s.node := by
    simp [Net.act]
  rcases hb.successor_or hX hinj h.toJoined with hPX | hPS
  · exact Or.inl (by rw [hnode, hPX])
  · have hSany : S ≠ .getAny := fun h => hany (h ▸ Finset.mem_insert_of_mem hb.after_mem)
    rw [hPS, ringSends_send hSany]
    exact Or.inr (Or.inl (by simp))

theorem Converging.asked_deliver (h : Converging R X S s) (hX : X ∉ R)
    (hinj : Set.InjOn nodePos (insert X R : Finset Ipv4Address))
    (hany : .getAny ∉ insert X R) (hb : Between R X P S) {k : ℕ} {p : RingPacket}
    {q : Pointers} {out : List RingAction} (packet : s.inFlight[k]? = some p)
    (reacts : Reacts (F p.dst) p.dst (s.node p.dst) p.src p.msg q out)
    (hasked : Asked X P S s) :
    Asked X P S ((s.take k).act p.dst q (ringSends p.dst out)) := by
  have hp := h.traffic p (mem_of_getElem? packet)
  have hXany : X ≠ .getAny := fun h => hany (h ▸ Finset.mem_insert_self X R)
  have hPany : P ≠ .getAny := fun h => hany (h ▸ Finset.mem_insert_of_mem hb.before_mem)
  have hPmem : P ∈ insert X R := Finset.mem_insert_of_mem hb.before_mem
  have hXP : nodePos X ≠ nodePos P := fun heq => hX
    (hinj (Finset.mem_coe.mpr (Finset.mem_insert_self X R)) (Finset.mem_coe.mpr hPmem) heq ▸
      hb.before_mem)
  rcases hasked with hsucc | hreq | ⟨src, hresp⟩
  · -- the successor of `P` stays
    left
    rw [Net.act_node]
    split
    · rename_i hdst
      subst hdst
      obtain ⟨psrc, pdst, pmsg⟩ := p
      cases hp with
      | notify src_mem dst_mem ne next =>
          rcases reacts.notify_cases with ⟨-, -⟩ | ⟨rfl, -⟩
          · cases reacts <;> exact hsucc
          · exact hsucc
      | stabilizeReq src_mem dst_mem => cases reacts <;> exact hsucc
      | stabilizeResp dst_mem mem =>
          cases reacts with
          | respKeep keep => exact hsucc
          | respAdopt some ne owns =>
              unfold Pointers.owns at owns
              rw [hsucc] at owns
              exact hb.before.eq_of_inArc hinj mem owns ne
    · exact hsucc
  · by_cases hthis : p = ⟨P, S, .stabilizeReq⟩
    · -- `S` names `X`
      subst hthis
      right; right
      have htaken := h.taken
      cases reacts with
      | reqIgnore none => exact absurd (htaken.symm.trans none) hXany
      | reqAnswer some =>
          refine ⟨S, List.mem_append_right _ ?_⟩
          rw [ringSends_send hPany, htaken]
          simp
    · exact Or.inr (Or.inl (List.mem_append_left _
        (mem_eraseIdx_of_ne packet hreq (Ne.symm hthis))))
  · by_cases hthis : p = ⟨src, P, .stabilizeResp X⟩
    · -- `P` takes `X` up
      subst hthis
      left
      rw [Net.act_node_self]
      cases reacts with
      | respAdopt some ne owns => rfl
      | respKeep keep =>
          refine absurd ⟨hXany, hXP, ?_⟩ keep
          unfold Pointers.owns
          rcases hb.successor_or hX hinj h.toJoined with hPX | hPS
          · rw [hPX]
            exact inArc_right _ _
          · rw [hPS]
            exact hb.after.inArc_of_mem hPmem
    · exact Or.inr (Or.inr ⟨src, List.mem_append_left _
        (mem_eraseIdx_of_ne packet hresp (Ne.symm hthis))⟩)

theorem Converging.stableAt (h : Converging R X S s) (hX : X ∉ R)
    (hinj : Set.InjOn nodePos (insert X R : Finset Ipv4Address))
    (hany : .getAny ∉ insert X R) (hb : Between R X P S) (hasked : Asked X P S s)
    (hquiet : s.inFlight = []) : s.StableAt (insert X R) := by
  have hsucc : (s.node P).successor = X := by simpa [Asked, hquiet] using hasked
  have hinjR : Set.InjOn nodePos (R : Set Ipv4Address) :=
    hinj.mono (Finset.coe_subset.mpr (Finset.subset_insert X R))
  have hPX : P ≠ X := fun heq => hX (heq ▸ hb.before_mem)
  have hSX : X ≠ S := fun heq => hX (heq ▸ hb.after_mem)
  refine ⟨hany, fun a => ⟨fun ha => ?_, fun ha => (h.takesPart a ha).member⟩, fun a ha => ?_,
    fun a ha => ?_⟩
  · by_contra hnot
    rw [h.outside a hnot] at ha
    cases ha
  · have hnext := (h.takesPart a ha).successor
    rcases Finset.mem_insert.mp ha with rfl | haR
    · exact hnext.of_newcomer
    · by_cases haP : a = P
      · rw [haP, hsucc]
        exact hb.before
      · have hne : (s.node a).successor ≠ X := by
          intro heq
          have hnext' := (heq ▸ hnext).isNext_newcomer hX
          exact haP (hnext'.prev_unique hinj ha (Finset.mem_insert_of_mem hb.before_mem) hb.before)
        exact hb.isNext hinj haR haP (hnext.isNext hX hne)
  · rcases Finset.mem_insert.mp ha with rfl | haR
    · have hpred : (s.node a).predecessor = P := by
        have htold := h.noticed P hb.before_mem hsucc
        simpa [Told, hquiet] using htold
      rw [hpred]
      exact isPredecessor_of_isNext (Finset.mem_insert_of_mem hb.before_mem) hPX hb.before
    · by_cases haS : a = S
      · rw [haS, h.taken]
        exact isPredecessor_of_isNext (Finset.mem_insert_self X R) hSX hb.after
      · rcases (h.takesPart a ha).predecessor with hpred | hpred | ⟨rfl, -⟩
        · have hone := hpred.of_ne hb.after_mem (Ne.symm haS)
          refine isPredecessor_of_isNext (Finset.mem_insert_of_mem hone.1) ?_
            (hb.isNext hinj hone.1 ?_ hone.2)
          · intro heq
            rw [heq] at hone
            have hR := eq_singleton_of_isNext_self hinjR haR hone.2
            have hS := hb.after_mem
            rw [hR, Finset.mem_singleton] at hS
            exact haS hS.symm
          · intro heq
            rw [heq] at hone
            exact haS (hone.2.unique hinjR hb.next)
        · exact hpred
        · exact absurd haR hX

/-- The events after the JOIN, on the view. -/
def RingNet.JoinTraffic (s : RingNet) : RingEvent → Prop
  | .stabilize _ => True
  | .deliver k => IsOldest s.inFlight k
  | .quiet => True
  | _ => False

variable {s' : RingNet} {e : RingEvent}

theorem Joining.step (h : Joining R X s) (hX : X ∉ R)
    (hinj : Set.InjOn nodePos (insert X R : Finset Ipv4Address)) (hR : R.Nonempty)
    (hany : .getAny ∉ insert X R) (hF : ∀ a ∈ R, R ≠ {a} → ∀ b, F a b → b ∈ R)
    (he : s.JoinTraffic e) (hstep : RingStep F s e s') : Joining R X s' ∨ Joined R X s' := by
  obtain ⟨a, q, out, hturn, rfl⟩ := hstep
  cases hturn with
  | quiet a => exact Or.inl (by simpa [RingNet.before] using h)
  | stabilizeSkip skip => exact Or.inl (by simpa [RingNet.before] using h)
  | stabilize member several =>
      have ha : a ∈ R := by
        by_contra hnot
        rw [h.outside a hnot] at member
        cases member
      exact Or.inl (h.stabilize hX ha)
  | deliver packet reacts => exact h.deliver hX hinj hR hany hF packet he reacts
  | _ => exact he.elim

theorem Joined.step (h : Joined R X s) (hX : X ∉ R)
    (hinj : Set.InjOn nodePos (insert X R : Finset Ipv4Address))
    (hany : .getAny ∉ insert X R) (he : s.JoinTraffic e) (hstep : RingStep F s e s') :
    Joined R X s' := by
  obtain ⟨a, q, out, hturn, rfl⟩ := hstep
  cases hturn with
  | quiet a => simpa [RingNet.before] using h
  | stabilizeSkip skip => simpa [RingNet.before] using h
  | stabilize member several =>
      have ha : a ∈ insert X R := by
        by_contra hnot
        rw [h.outside a hnot] at member
        cases member
      exact h.stabilize ha
  | deliver packet reacts => exact h.deliver hX hinj hany packet reacts
  | _ => exact he.elim

/-- From the notification of `S` on; the stabilization of `P` starts the asking. -/
theorem Converging.step (h : Converging R X S s) (hX : X ∉ R)
    (hinj : Set.InjOn nodePos (insert X R : Finset Ipv4Address))
    (hany : .getAny ∉ insert X R) (hb : Between R X P S) (he : s.JoinTraffic e)
    (hstep : RingStep F s e s') :
    Converging R X S s' ∧ (Asked X P S s ∨ e = .stabilize P → Asked X P S s') := by
  obtain ⟨a, q, out, hturn, rfl⟩ := hstep
  have hPmem : P ∈ insert X R := Finset.mem_insert_of_mem hb.before_mem
  cases hturn with
  | quiet a =>
      simp only [RingNet.before, ringSends_nil, Net.act_self]
      exact ⟨h, fun hasked => hasked.resolve_right (by simp)⟩
  | stabilizeSkip skip =>
      simp only [RingNet.before, ringSends_nil, Net.act_self]
      refine ⟨h, fun hasked => hasked.resolve_right fun heq => skip ?_⟩
      obtain rfl := RingEvent.stabilize.inj heq
      exact ⟨(h.takesPart a hPmem).member, h.several a hb.before_mem⟩
  | stabilize member several =>
      have ha : a ∈ insert X R := by
        by_contra hnot
        rw [h.outside a hnot] at member
        cases member
      refine ⟨h.stabilize ha, fun hasked => ?_⟩
      rcases hasked with hasked | heq
      · exact hasked.stabilize a _
      · obtain rfl := RingEvent.stabilize.inj heq
        exact h.asked_stabilize hX hinj hany hb
  | deliver packet reacts =>
      refine ⟨h.deliver hX hinj hany hb packet reacts, fun hasked => ?_⟩
      exact h.asked_deliver hX hinj hany hb packet reacts (hasked.resolve_right (by simp))
  | _ => exact he.elim

theorem Settled.chatter (h : Settled R s) {p : RingPacket} (hp : p ∈ s.inFlight) :
    Chatter R X R p := by
  obtain ⟨src, dst, msg⟩ := p
  rcases h.traffic _ hp with ⟨hmsg, hsrc, hdst, -⟩ | ⟨hmsg, hdst⟩
  · obtain rfl : msg = .stabilizeReq := hmsg
    obtain rfl : dst = (s.node src).successor := hdst
    exact .stabilizeReq hsrc (Finset.mem_insert_of_mem (h.successor src hsrc).1)
  · obtain rfl : msg = .stabilizeResp dst := hmsg
    exact .stabilizeResp hdst hdst

theorem Settled.takesPart (h : Settled R s) {a : Ipv4Address} (ha : a ∈ R) :
    TakesPart R X R a (s.node a) := by
  have hpred := h.predecessor a ha
  refine ⟨(h.member a).mpr ha, Or.inl (h.successor a ha), Or.inl hpred, ?_⟩
  unfold IsPredecessor at hpred
  split at hpred
  · exact Or.inl hpred
  · exact Or.inr hpred.1

theorem Settled.join (h : Settled R s) (hX : X ∉ R) (hnew : s.node X = .outside)
    {L : Ipv4Address} (hL : L ∈ R) (hstep : RingStep F s (.join X L) s') : Joining R X s' := by
  have hLX : L ≠ X := fun heq => hX (heq ▸ hL)
  have hLany : L ≠ .getAny := fun heq => h.getAny_notMem (heq ▸ hL)
  have hout : (s.node X).member = false := by rw [hnew]; rfl
  obtain ⟨a, q, out, hturn, rfl⟩ := hstep
  cases hturn with
  | joinIgnored ignored =>
      rcases ignored with hmem | ⟨-, hnone⟩
      · rw [hout] at hmem
        cases hmem
      · exact absurd hnone hLany
  | joinLandmark outside => exact absurd rfl hLX
  | joinRequest outside ne some =>
      have hnode : ((s.before (.join X L)).act X (s.node X)
          (ringSends X [.send L .joinChord])).node = s.node := by
        simp [Net.act]
      have hzero : s.inFlight.countP (fun p => p.msg.isToken) = 0 :=
        List.countP_eq_zero.mpr fun p hp => by simp [(h.chatter hp).isToken (X := X)]
      rw [ringSends_send hLany] at hnode ⊢
      refine ⟨?_, ?_, ?_, fun p hp => ?_, ?_, fun a ha haX => ?_, fun src v hv => ?_, ?_⟩
      · rw [hnode]
        exact fun a ha => h.takesPart ha
      · rw [hnode]
        intro a ha
        have hiff := h.member a
        simpa [ha] using hiff
      · rw [hnode]
        exact hnew
      · rcases List.mem_append.mp hp with hp | hp
        · exact Or.inr (h.chatter hp)
        · exact Or.inl (List.mem_singleton.mp hp ▸ .request hL)
      · simp only [RingNet.before, Net.act_inFlight, List.countP_append, hzero]
        rfl
      · rw [hnode] at haX
        exact absurd (haX ▸ (h.successor a ha).1) hX
      · rcases List.mem_append.mp hv with hv | hv
        · cases (h.chatter hv).isToken (X := X)
        · cases List.mem_singleton.mp hv
      · refine (Heralded.of_none fun p hp hQ => ?_).append (by simp)
        rcases h.traffic p hp with ⟨hmsg, -⟩ | ⟨hmsg, -⟩ <;>
          · rw [hQ.2] at hmsg
            cases hmsg

end Steps

/-! ## Runs of the Chord network -/

/-- The events after the JOIN: stabilization, and deliveries that keep the order
between every two nodes. -/
def JoinTraffic (c : ChordNet) : ChordEvent → Prop
  | .stabilize _ => True
  | .deliver k => IsOldest c.inFlight k
  | _ => False

instance (c : ChordNet) (e : ChordEvent) : Decidable (JoinTraffic c e) :=
  match e with
  | .stabilize _ => .isTrue trivial
  | .deliver _ => inferInstanceAs (Decidable (IsOldest _ _))
  | .join .. | .leave _ | .ringstate _ | .fixFinger _ | .lookupPublish .. => .isFalse id

def IsJoinMessage (X : Ipv4Address) (p : ChordPacket) : Prop :=
  match p.msg.payload with
  | .joinChord => True
  | .findSuccessor _ _ => True
  | .joinChordSuccess _ => True
  | .notify => p.src = X
  | _ => False

omit [Sha1] in
theorem JoinTraffic.stabilizes {c : ChordNet} {e : ChordEvent} (h : JoinTraffic c e) :
    e.Stabilizes := by
  cases e <;> trivial

omit [Sha1] in
theorem JoinTraffic.joinEvent {c : ChordNet} {e : ChordEvent} (h : JoinTraffic c e) :
    ChordNet.JoinEvent e := by
  cases e <;> trivial

omit [Sha1] in
theorem JoinTraffic.view {c : ChordNet} {e : ChordEvent} (h : JoinTraffic c e) :
    c.view.JoinTraffic (c.ringEvent e) := by
  cases e with
  | stabilize a => trivial
  | deliver k =>
      simp only [ChordNet.ringEvent]
      cases hp : c.inFlight[k]? with
      | none => trivial
      | some p =>
          cases hq : ringPacket p with
          | none => simp [hq, RingNet.JoinTraffic]
          | some q => simpa [hq, RingNet.JoinTraffic] using ChordNet.view_isOldest hp hq h
  | _ => exact h.elim

def OldFingers (R : Finset Ipv4Address) (c : ChordNet) : Prop :=
  ∀ a ∈ R, R ≠ {a} → ¬ (c.node a).fingerTable.isEmpty ∧
    ∀ (i : UInt16) (finger : Ipv4Address), (c.node a).fingerTable[i]? = some finger → finger ∈ R

/-- What holds of the Chord network from the JOIN on. -/
structure JoinRun (R : Finset Ipv4Address) (X : Ipv4Address) (c : ChordNet) : Prop where
  phase : Joining R X c.view ∨ Joined R X c.view
  localAddress : ∀ a, (c.node a).localAddress = a
  pointersOnly : c.PointersOnly
  fingers : OldFingers R c

theorem step_view_oldFingers {c c' : ChordNet} {e : ChordEvent}
    (hlocal : ∀ a, (c.node a).localAddress = a) (hfingers : OldFingers R c)
    (hstep : c.step e = .ok c') :
    RingStep (fun a b => a ∈ R → R ≠ {a} → b ∈ R) c.view (c.ringEvent e) c'.view ∧
      ∀ a, (c'.node a).localAddress = a :=
  ChordNet.step_view hlocal (fun a i finger hi ha hR => (hfingers a ha hR).2 i finger hi) hstep

theorem OldFingers.step {c c' : ChordNet} {e : ChordEvent} (h : OldFingers R c)
    (hpure : c.PointersOnly) (he : ChordNet.JoinEvent e) (hstep : c.step e = .ok c') :
    c'.PointersOnly ∧ OldFingers R c' := by
  obtain ⟨hpure', hsame⟩ := ChordNet.step_pointersOnly hpure he hstep
  refine ⟨hpure', fun a ha hR => ?_⟩
  rw [hsame a]
  exact h a ha hR

theorem JoinRun.step {c c' : ChordNet} {e : ChordEvent} (h : JoinRun R X c) (hX : X ∉ R)
    (hinj : Set.InjOn nodePos (insert X R : Finset Ipv4Address)) (hR : R.Nonempty)
    (hany : .getAny ∉ insert X R) (he : JoinTraffic c e) (hstep : c.step e = .ok c') :
    JoinRun R X c' := by
  obtain ⟨hring, hlocal⟩ := step_view_oldFingers h.localAddress h.fingers hstep
  obtain ⟨hpure, hfingers⟩ := h.fingers.step h.pointersOnly he.joinEvent hstep
  refine ⟨?_, hlocal, hpure, hfingers⟩
  rcases h.phase with hphase | hphase
  · exact hphase.step hX hinj hR hany (fun a ha hRa b hF => hF ha hRa) he.view hring
  · exact Or.inr (hphase.step hX hinj hany he.view hring)

theorem JoinRun.isOk {c : ChordNet} {e : ChordEvent} (h : JoinRun R X c) (hX : X ∉ R)
    (he : JoinTraffic c e) : ∃ c', c.step e = .ok c' := by
  cases e with
  | stabilize a => exact ⟨_, rfl⟩
  | deliver k =>
      cases hp : c.inFlight[k]? with
      | none => exact ⟨c, by simp [ChordNet.step, ChordNet.stepActions, ChordNet.turn, hp]⟩
      | some p =>
          have hmem := mem_of_getElem? hp
          have hok : ∃ r, (c.node p.dst).recvMessage p.msg p.src = .ok r := by
            refine ChordNode.recvMessage_isOk (h.pointersOnly p hmem) (fun hpay hne => ?_)
              fun x t hpay => ?_
            · have hview : ⟨p.src, p.dst, .joinChord⟩ ∈ c.view.inFlight :=
                ChordNet.mem_view hmem (by rw [hpay]; rfl)
              rcases h.phase with hphase | hphase
              · rcases hphase.traffic _ hview with htoken | hchatter
                · cases htoken with
                  | request dst_mem =>
                      refine (h.fingers p.dst dst_mem fun hR => hne ?_).1
                      obtain ⟨k', hk'⟩ := List.mem_iff_getElem?.mp hview
                      have hnext := (hphase.isNext_of_request hX hk' rfl (by simp) dst_mem).2
                      rw [hR] at hnext
                      rw [h.localAddress]
                      exact (Finset.mem_singleton.mp hnext.1).symm
                · cases hchatter
              · cases hphase.traffic _ hview
            · have hview : ⟨p.src, p.dst, .findSuccessor x t⟩ ∈ c.view.inFlight :=
                ChordNet.mem_view hmem (by rw [hpay]; rfl)
              rcases h.phase with hphase | hphase
              · rcases hphase.traffic _ hview with htoken | hchatter
                · cases htoken with
                  | relayed dst_mem several => exact (h.fingers p.dst dst_mem several).1
                · cases hchatter
              · cases hphase.traffic _ hview
          obtain ⟨⟨n, acts⟩, hr⟩ := hok
          exact ⟨_, by simp [ChordNet.step, ChordNet.stepActions, ChordNet.turn, hp, hr]; rfl⟩
  | _ => exact he.elim

/-- Once the join messages are delivered the newcomer is a member, and its
successor has taken it as its predecessor. -/
theorem JoinRun.converging {c : ChordNet} (h : JoinRun R X c) (hb : Between R X P S)
    (hdelivered : ∀ p ∈ c.inFlight, ¬ IsJoinMessage X p) : Converging R X S c.view := by
  rcases h.phase with hphase | hphase
  · have hpos : 0 < c.view.inFlight.countP fun p => p.msg.isToken := by
      rw [hphase.single]
      exact Nat.one_pos
    obtain ⟨q, hq, htoken⟩ := List.countP_pos_iff.mp hpos
    obtain ⟨p, hp, hpq⟩ := List.mem_filterMap.mp hq
    obtain ⟨m, hm, rfl⟩ := Option.map_eq_some_iff.mp hpq
    refine absurd ?_ (hdelivered p hp)
    unfold IsJoinMessage
    cases hpay : p.msg.payload <;> simp_all [ringMessage, RingMessage.isToken]
    all_goals
      subst hm
      cases htoken
  · refine ⟨hphase, ?_⟩
    rcases hphase.notified S hb.after with hmem | hpred
    · obtain ⟨p, hp, hpq⟩ := List.mem_filterMap.mp hmem
      obtain ⟨m, hm, heq⟩ := Option.map_eq_some_iff.mp hpq
      refine absurd ?_ (hdelivered p hp)
      unfold IsJoinMessage
      cases hpay : p.msg.payload <;> simp_all [ringMessage]
    · exact hpred

/-- Along a run after the join messages: the ring converges, and once the member
before the newcomer has stabilized, it is about to learn of the newcomer. -/
theorem JoinRun.converges {c c' : ChordNet} {es : List ChordEvent} (h : JoinRun R X c)
    (hX : X ∉ R) (hinj : Set.InjOn nodePos (insert X R : Finset Ipv4Address)) (hR : R.Nonempty)
    (hany : .getAny ∉ insert X R) (hb : Between R X P S) (hconv : Converging R X S c.view)
    (hrun : Run ChordNet.step JoinTraffic c es c') :
    JoinRun R X c' ∧ Converging R X S c'.view ∧ (.stabilize P ∈ es → Asked X P S c'.view) := by
  induction hrun with
  | nil => exact ⟨h, hconv, by simp⟩
  | snoc run allowed eq ih =>
      rename_i es c₁ c₂ e
      obtain ⟨h₁, hconv₁, hasked₁⟩ := ih
      obtain ⟨hring, -⟩ := step_view_oldFingers h₁.localAddress h₁.fingers eq
      obtain ⟨hconv₂, hasked₂⟩ := hconv₁.step hX hinj hany hb allowed.view hring
      refine ⟨h₁.step hX hinj hR hany allowed eq, hconv₂, fun hmem => hasked₂ ?_⟩
      rcases List.mem_append.mp hmem with hmem | hmem
      · exact Or.inl (hasked₁ hmem)
      · rw [← List.mem_singleton.mp hmem]
        exact Or.inr rfl

/-- One join converges. On a stable ring `R`, with stabilization going on, `X`
issues JOIN through a member. From then on no handler faults; and once the join
messages are delivered, every member and `X` have stabilized again, and nothing
is left in flight, the members and `X` form a stable ring. -/
theorem join_converges {c₀ c c' : ChordNet} {R : Finset Ipv4Address} {X L : Ipv4Address}
    (hinj : Set.InjOn nodePos (insert X R : Finset Ipv4Address)) (hstart : StableNet c₀ R)
    (hfingers : R.card ≠ 1 → FingersWithin c₀.node R) (hX : X ∉ R) (hXany : X ≠ .getAny)
    (hsucc : (c₀.node X).successorAddr = .getAny)
    (hpred : (c₀.node X).predecessorAddr = .getAny) (hL : L ∈ R) {before : List ChordEvent}
    (hbefore : Run ChordNet.step JoinTraffic c₀ before c)
    (hjoin : c.step (.join X L) = .ok c') :
    (∀ (es : List ChordEvent) (d : ChordNet), Run ChordNet.step JoinTraffic c' es d →
        ∀ e, JoinTraffic d e → ∃ d', d.step e = .ok d') ∧
      ∀ (joining after : List ChordEvent) (c₁ c₂ : ChordNet),
        Run ChordNet.step JoinTraffic c' joining c₁ →
        (∀ p ∈ c₁.inFlight, ¬ IsJoinMessage X p) →
        Run ChordNet.step JoinTraffic c₁ after c₂ →
        (∀ a ∈ insert X R, .stabilize a ∈ after) → c₂.inFlight = [] →
          StableNet c₂ (insert X R) := by
  have hR : R.Nonempty := ⟨L, hL⟩
  have hany : .getAny ∉ insert X R := by
    rw [Finset.mem_insert, not_or]
    exact ⟨Ne.symm hXany, hstart.ring.getAny_notMem⟩
  -- the state at the JOIN
  have hsettled₀ : Settled R c₀.view :=
    ⟨hstart.stableAt, fun p hp => by simp [ChordNet.view, hstart.inFlight] at hp⟩
  obtain ⟨hsettled, hnode, hlocal⟩ := hsettled₀.run
    (hinj.mono (Finset.coe_subset.mpr (Finset.subset_insert X R))) hstart.localAddress
    (hbefore.mono fun _ _ he => he.stabilizes)
  obtain ⟨hpure, hold⟩ : c.PointersOnly ∧ OldFingers R c := by
    refine hbefore.invariant (P := fun c => c.PointersOnly ∧ OldFingers R c) ⟨?_, ?_⟩
      fun d e d' hd he hstep => hd.2.step hd.1 he.joinEvent hstep
    · intro p hp
      rw [hstart.inFlight] at hp
      cases hp
    · intro a ha hRa
      refine hfingers (fun hcard => hRa ?_) a ha
      obtain ⟨b, rfl⟩ := Finset.card_eq_one.mp hcard
      rw [Finset.mem_singleton.mp ha]
  have hnew : c.view.node X = .outside := by
    rw [hnode]
    simp [ChordNet.view, ChordNode.pointers, Pointers.outside, hsucc, hpred,
      hstart.outside X hX]
  -- the JOIN
  obtain ⟨hring, hlocal'⟩ := step_view_oldFingers hlocal hold hjoin
  obtain ⟨hpure', hold'⟩ := hold.step hpure (show ChordNet.JoinEvent (.join X L) from trivial) hjoin
  have hjoined : JoinRun R X c' :=
    ⟨Or.inl (hsettled.join hX hnew hL hring), hlocal', hpure', hold'⟩
  have hrun : ∀ {es : List ChordEvent} {d : ChordNet}, Run ChordNet.step JoinTraffic c' es d →
      JoinRun R X d := fun h =>
    h.invariant hjoined fun _ _ _ hd he hstep => hd.step hX hinj hR hany he hstep
  refine ⟨fun es d hes e he => (hrun hes).isOk hX he, ?_⟩
  intro joining after c₁ c₂ hjoining hdelivered hafter hall hquiet
  obtain ⟨P, hP, S, hS, hPX, hXS, hPS⟩ := exists_neighbours hX hinj hR
  have hb : Between R X P S := ⟨hP, hS, hPX, hXS, hPS⟩
  have h₁ := hrun hjoining
  obtain ⟨h₂, hconv, hasked⟩ := h₁.converges hX hinj hR hany hb (h₁.converging hb hdelivered) hafter
  have hstable := hconv.stableAt hX hinj hany hb
    (hasked (hall P (Finset.mem_insert_of_mem hP))) (ChordNet.view_inFlight_nil hquiet)
  refine ⟨hstable.stableRing h₂.localAddress, h₂.localAddress, fun a ha => ?_, hquiet⟩
  exact hconv.outside a ha

end PennSearch

namespace PennSearch

open Clockwise MessagePassing

attribute [local instance] sampleSha1

/-- C joins the stable pair of A and B through A, which hands the request to B. -/
theorem join_converges_sample :
    ∃ c' c₁ c₂, ChordNet.step ⟨samplePair, []⟩ (.join sampleC sampleA) = .ok c' ∧
      Run ChordNet.step JoinTraffic c' [.deliver 0, .deliver 0, .deliver 0, .deliver 0] c₁ ∧
      Run ChordNet.step JoinTraffic c₁
        [.stabilize sampleB, .stabilize sampleA, .stabilize sampleC, .deliver 0, .deliver 0,
          .deliver 0, .deliver 0, .deliver 0, .deliver 0, .deliver 0] c₂ ∧
      StableNet c₂ {sampleC, sampleA, sampleB} := by
  have hrun : (((ChordNet.step ⟨samplePair, []⟩ (.join sampleC sampleA)).toOption.bind fun c' =>
      (execute ChordNet.step JoinTraffic c' [.deliver 0, .deliver 0, .deliver 0, .deliver 0]).bind
        fun c₁ => (execute ChordNet.step JoinTraffic c₁
          [.stabilize sampleB, .stabilize sampleA, .stabilize sampleC, .deliver 0, .deliver 0,
            .deliver 0, .deliver 0, .deliver 0, .deliver 0, .deliver 0]).map
            fun c₂ => decide (c₁.inFlight = [] ∧ c₂.inFlight = []))) = some true := by
    decide
  obtain ⟨c', hc', hrun⟩ := Option.bind_eq_some_iff.mp hrun
  obtain ⟨c₁, hc₁, hrun⟩ := Option.bind_eq_some_iff.mp hrun
  obtain ⟨c₂, hc₂, hquiet⟩ := Option.map_eq_some_iff.mp hrun
  obtain ⟨hquiet₁, hquiet₂⟩ := of_decide_eq_true hquiet
  have hjoin : ChordNet.step ⟨samplePair, []⟩ (.join sampleC sampleA) = .ok c' :=
    eq_ok_of_toOption hc'
  have hinj : Set.InjOn nodePos (insert sampleC {sampleA, sampleB} : Finset Ipv4Address) := by
    have h : ∀ a ∈ (insert sampleC {sampleA, sampleB} : Finset Ipv4Address),
        ∀ b ∈ (insert sampleC {sampleA, sampleB} : Finset Ipv4Address),
          nodePos a = nodePos b → a = b := by decide
    exact fun a ha b hb => h a ha b hb
  refine ⟨c', c₁, c₂, hjoin, .of_execute hc₁, .of_execute hc₂, ?_⟩
  exact (join_converges hinj samplePair_stable (fun _ => samplePair_fingers) (by decide)
    (by decide) rfl rfl (Finset.mem_insert_self _ _) .nil hjoin).2 _ _ c₁ c₂ (.of_execute hc₁)
    (by simp [hquiet₁]) (.of_execute hc₂) (by decide) hquiet₂

end PennSearch
