import PennSearch.Chord.Arrival
import PennSearch.Chord.Mending
import PennSearch.Chord.StabilizeExchange

/-!
# From one stable ring to the next

A command on a stable ring is followed by deliveries and stabilization, until
nothing is in flight and stabilization moves no pointer any more (`Calm`). After a
LEAVE the ring is `Mending` meanwhile; after a JOIN it is `Admitting` the newcomer,
which covers the ring of one. In both cases the end is a stable ring.

Two things can go wrong on the way, and each is a condition on a delivery: a join
request goes to a finger that is not on the ring (`RelaysToMembers`), or an answer
brings back a node that has left (`AdoptsMembers`).
-/

namespace PennSearch

open Clockwise MessagePassing

variable [Sha1]

/-! ## Stabilization that moves nothing -/

/-- `Stabilize` at a node of `V`, with the request and the answer that it causes,
moves no pointer of a node of `V`. -/
def ChordNet.Calm (V : Finset Ipv4Address) (c : ChordNet) : Prop :=
  ∀ a ∈ V, ∀ d ∈ execute ChordNet.step (fun _ e => e.Stabilizes) c
    [.stabilize a, .deliver 0, .deliver 0], ∀ b ∈ V, (d.node b).pointers = (c.node b).pointers

instance (V : Finset Ipv4Address) (c : ChordNet) : Decidable (c.Calm V) :=
  inferInstanceAs (Decidable (∀ a ∈ V, ∀ d ∈ execute ChordNet.step _ c _, ∀ b ∈ V, _))

/-- On a calm ring no member would take the predecessor of its successor as its
new successor. -/
theorem ChordNet.Calm.not_adopts {V : Finset Ipv4Address} {c : ChordNet} (h : c.Calm V)
    (hflight : c.inFlight = []) {p s q : Ipv4Address} (hp : p ∈ V)
    (hlocal : (c.node p).localAddress = p) (hmember : c.IsMember p) (hs : s ≠ .getAny)
    (hps : p ≠ s) (hsucc : (c.node p).successorAddr = s)
    (hpred : (c.node s).predecessorAddr = q) (hq : q ≠ .getAny) (hqs : q ≠ s) :
    ¬ ChordNet.Adopts p s q := by
  intro hadopts
  have hstabilize : c.turn (.stabilize p) = some (c, p, .ok ((c.node p).nextTransactionId,
      [.sendTo s ⟨(c.node p).currentTransactionId, .stabilizeReq⟩])) := by
    simp [turn, ChordNode.stabilize, hmember.2, hsucc, hlocal, hps.symm]
  -- the request, the answer, and the state that they lead to
  let tx := (c.node p).currentTransactionId
  let c₁ : ChordNet := c.act p (c.node p).nextTransactionId [⟨p, s, ⟨tx, .stabilizeReq⟩⟩]
  have h₁ : c.step (.stabilize p) = .ok c₁ := by
    rw [step_of_turn hstabilize]
    simp [c₁, tx, sentPackets, hs]
  have hnode₁ : c₁.node s = c.node s := Net.act_node_of_ne _ _ _ hps.symm
  let c₂ : ChordNet := (c₁.take 0).act s (c.node s) [⟨s, p, ⟨tx, .stabilizeResp q⟩⟩]
  have h₂ : c₁.step (.deliver 0) = .ok c₂ := by
    have hpacket : c₁.inFlight[0]? = some ⟨p, s, ⟨tx, .stabilizeReq⟩⟩ := by simp [c₁, hflight]
    have hrecv : (c₁.node s).recvMessage ⟨tx, .stabilizeReq⟩ p =
        .ok (c.node s, [.sendTo p ⟨tx, .stabilizeResp q⟩]) := by
      simp [hnode₁, ChordNode.recvMessage, ChordNode.processStabilizeReq, hpred, hq]
    rw [step_deliver hpacket hrecv]
    simp [c₂, sentPackets, hmember.1]
  have hnode₂ : c₂.node p = (c.node p).nextTransactionId := by
    simp [c₂, c₁, Net.act, hps]
  have hadopt : (c₂.node p).recvMessage ⟨tx, .stabilizeResp q⟩ s =
      .ok ((c₂.node p).setSuccessorAddress q, [ChordNode.sendNotify ⟨tx, .stabilizeResp q⟩ q]) := by
    have hcond : q ≠ .getAny ∧ nodePos q ≠ nodePos (c₂.node p).localAddress ∧
        (c₂.node p).inOwnArc (nodePos q) := by
      rw [hnode₂]
      simpa [ChordNode.inOwnArc, ChordNode.nextTransactionId, hlocal, hsucc, hq, Adopts]
        using hadopts
    change Except.ok ((c₂.node p).processStabilizeResp ⟨tx, .stabilizeResp q⟩ q) = _
    rw [ChordNode.processStabilizeResp_eq, if_pos hcond]
  have hpacket : c₂.inFlight[0]? = some ⟨s, p, ⟨tx, .stabilizeResp q⟩⟩ := by
    simp [c₂, c₁, hflight]
  have hrun := h p hp ((c₂.take 0).act p ((c₂.node p).setSuccessorAddress q)
    (sentPackets p [ChordNode.sendNotify ⟨tx, .stabilizeResp q⟩ q]))
    (by simp [execute, h₁, h₂, step_deliver hpacket hadopt, ChordEvent.Stabilizes]) p hp
  have hmoved := congrArg Pointers.successor hrun
  rw [Net.act_node_self] at hmoved
  simp only [ChordNode.pointers, ChordNode.setSuccessorAddress, hsucc] at hmoved
  exact hqs hmoved

/-! ## Where a join request goes -/

/-- A member that cannot answer a join request hands it to a member. -/
def ChordNet.RelaysToMembers (c : ChordNet) : ChordEvent → Prop
  | .deliver k => ∀ p ∈ c.inFlight[k]?, ∀ t ∈ joinTarget p.src p.msg.payload,
      ¬ (c.node p.dst).inOwnArc t.pos → ∀ hop ∈ ((c.node p.dst).findNextHop t).toOption,
        (c.node hop).chordStatus = true
  | _ => True

-- A digest is a vector of bytes, and those must not be enumerated here.
instance (c : ChordNet) (e : ChordEvent) : Decidable (c.RelaysToMembers e) :=
  match e with
  | .deliver _ => @Option.decidableForallMem _ _ (fun _ => Option.decidableForallMem _) _
  | .join .. | .leave _ | .stabilize _ | .fixFinger _ | .ringstate _ | .lookupPublish .. =>
      .isTrue trivial

def ChordPayload.namedPredecessor : ChordPayload → Option Ipv4Address
  | .stabilizeResp v => some v
  | _ => none

/-- A node that an answer makes the successor of a member is a member. -/
def ChordNet.AdoptsMembers (c : ChordNet) : ChordEvent → Prop
  | .deliver k => ∀ p ∈ c.inFlight[k]?, ∀ v ∈ p.msg.payload.namedPredecessor,
      v ≠ .getAny → ChordNet.Adopts p.dst (c.node p.dst).successorAddr v →
        (c.node v).chordStatus = true
  | _ => True

instance (c : ChordNet) (e : ChordEvent) : Decidable (c.AdoptsMembers e) :=
  match e with
  | .deliver _ => inferInstanceAs (Decidable (∀ p ∈ _, ∀ v ∈ _, _))
  | .join .. | .leave _ | .ringstate _ | .stabilize _ | .fixFinger _ | .lookupPublish .. =>
      .isTrue trivial

/-- The hop that node `a` finds for a join request that the event delivers. -/
def ChordNet.Hop (c : ChordNet) (e : ChordEvent) (a hop : Ipv4Address) : Prop :=
  ∃ k p t, e = .deliver k ∧ c.inFlight[k]? = some p ∧ t ∈ joinTarget p.src p.msg.payload ∧
    p.dst = a ∧ (c.node a).findNextHop t = .ok hop

theorem ChordNet.hopsIn_hop (c : ChordNet) (e : ChordEvent) : c.HopsIn (c.Hop e) e := by
  cases e with
  | deliver k => exact fun p hp t ht hop hhop => Or.inr ⟨k, p, t, rfl, hp, ht, rfl, hhop⟩
  | _ => trivial

/-- The digest that a join request asks for, in the pointer protocol. -/
def RingMessage.target (src : Ipv4Address) : RingMessage → Option Digest
  | .joinChord => some (sha1 src)
  | .findSuccessor _ t => some t
  | _ => none

theorem Reacts.relays {F F' : Ipv4Address → Prop} {a src : Ipv4Address} {p q : Pointers}
    {m : RingMessage} {out : List RingAction} (h : Reacts F a p src m q out)
    (hF : ∀ t ∈ m.target src, ¬ p.owns a t.pos → ∀ hop, F hop → F' hop) :
    Reacts F' a p src m q out := by
  cases h with
  | joinForward member several owns known =>
      exact .joinForward member several owns (known.imp_right (hF _ rfl owns _))
  | findForward owns known => exact .findForward owns (known.imp_right (hF _ rfl owns _))
  | joinRefused outside => exact .joinRefused outside
  | joinSplit member alone => exact .joinSplit member alone
  | joinAnswer member several owns => exact .joinAnswer member several owns
  | findAnswer owns => exact .findAnswer owns
  | joined => exact .joined
  | notifyFirst none => exact .notifyFirst none
  | notifyAdopt some arc => exact .notifyAdopt some arc
  | notifyIgnore some arc => exact .notifyIgnore some arc
  | reqAnswer some => exact .reqAnswer some
  | reqIgnore none => exact .reqIgnore none
  | respAdopt some ne owns => exact .respAdopt some ne owns
  | respKeep keep => exact .respKeep keep
  | leaveSuccessor => exact .leaveSuccessor
  | leavePredecessor => exact .leavePredecessor

omit [Sha1] in
theorem ringPacket_eq_some {p : ChordPacket} {q : RingPacket} :
    ringPacket p = some q ↔ ringMessage p.msg.payload = some q.msg ∧ p.src = q.src ∧
      p.dst = q.dst := by
  obtain ⟨src, dst, msg⟩ := q
  constructor
  · intro h
    obtain ⟨m, hm, hq⟩ := Option.map_eq_some_iff.mp h
    cases hq
    exact ⟨hm, rfl, rfl⟩
  · rintro ⟨hm, rfl, rfl⟩
    exact Option.map_eq_some_iff.mpr ⟨msg, hm, rfl⟩

theorem ringMessage_target {payload : ChordPayload} {m : RingMessage}
    (h : ringMessage payload = some m) (src : Ipv4Address) :
    m.target src = joinTarget src payload := by
  cases payload <;> cases h <;> rfl

/-- With join requests handed to members only, the hops of a turn are members. -/
theorem ChordNet.RelaysToMembers.turn {c : ChordNet} {e : ChordEvent} (h : c.RelaysToMembers e)
    (hlocal : ∀ a, (c.node a).localAddress = a) {a : Ipv4Address} {q : Pointers}
    {out : List RingAction} (hturn : RingTurn (c.Hop e) c.view (c.ringEvent e) a q out) :
    RingTurn (fun _ hop => (c.view.node hop).member = true) c.view (c.ringEvent e) a q out := by
  generalize hevent : c.ringEvent e = e' at hturn
  cases hturn with
  | deliver packet reacts =>
      rename_i k' q'
      obtain ⟨k, p, rfl, hp, hring⟩ := ringEvent_deliver hevent packet
      obtain ⟨hm, hsrc, hdst⟩ := ringPacket_eq_some.mp hring
      refine .deliver packet (reacts.relays fun t ht howns hop hhop => ?_)
      rw [ringMessage_target hm, ← hsrc] at ht
      obtain ⟨k₁, p₁, t₁, heq, hp₁, ht₁, hdst₁, hhop⟩ := hhop
      cases heq
      obtain rfl := Option.some.inj (hp.symm.trans hp₁)
      obtain rfl := Option.some.inj (ht.symm.trans ht₁)
      refine h p hp t ht (fun hown => howns ?_) hop ?_
      · rw [← hdst]
        rw [ChordNode.inOwnArc, hlocal] at hown
        exact hown
      · rw [hdst₁, hhop]
        rfl
  | quiet => exact .quiet _
  | joinIgnored ignored => exact .joinIgnored ignored
  | joinLandmark outside => exact .joinLandmark outside
  | joinRequest outside ne some => exact .joinRequest outside ne some
  | leaveIgnored outside => exact .leaveIgnored outside
  | leaveAlone member alone => exact .leaveAlone member alone
  | leave member several => exact .leave member several
  | stabilizeSkip skip => exact .stabilizeSkip skip
  | stabilize member several => exact .stabilize member several

/-! ## A newcomer on its way -/

variable {R : Finset Ipv4Address} {X : Ipv4Address} {s s' : RingNet} {e : RingEvent}
  {F : Ipv4Address → Ipv4Address → Prop}

/-- `X` has issued its JOIN to the ring `R`, and the nodes that take no part in it
are untouched. -/
structure Admitting (R : Finset Ipv4Address) (X : Ipv4Address) (s : RingNet) : Prop where
  phase : Joining R X s ∨ Joined R X s
  outside : ∀ a ∉ insert X R, s.node a = .outside

namespace Admitting

theorem traffic (h : Admitting R X s) {p : RingPacket} (hp : p ∈ s.inFlight) :
    (JoinToken R X p ∧ s.node X = .outside) ∨ Chatter R X (insert X R) p := by
  rcases h.phase with hphase | hphase
  · exact (hphase.traffic p hp).imp (fun htoken => ⟨htoken, hphase.newcomer⟩)
      (Chatter.mono (Finset.subset_insert X R))
  · exact Or.inr (hphase.traffic p hp)

theorem dst_mem (h : Admitting R X s) {p : RingPacket} (hp : p ∈ s.inFlight) :
    p.dst ∈ insert X R := by
  rcases h.traffic hp with ⟨htoken, -⟩ | hchatter
  · cases htoken with
    | request dst_mem => exact Finset.mem_insert_of_mem dst_mem
    | relayed dst_mem several => exact Finset.mem_insert_of_mem dst_mem
    | answer next => exact Finset.mem_insert_self X R
  · cases hchatter with
    | notify src_mem dst_mem ne next => exact dst_mem
    | stabilizeReq src_mem dst_mem => exact dst_mem
    | stabilizeResp dst_mem mem => exact dst_mem

/-- A turn takes the newcomer further. Hops are members. -/
theorem turn (h : Admitting R X s) (hX : X ∉ R)
    (hinj : Set.InjOn nodePos (insert X R : Finset Ipv4Address)) (hR : R.Nonempty)
    (hany : .getAny ∉ insert X R) (he : s.JoinTraffic e) {a : Ipv4Address} {q : Pointers}
    {out : List RingAction}
    (hturn : RingTurn (fun _ hop => (s.node hop).member = true) s e a q out) :
    Admitting R X ((s.before e).act a q (ringSends a out)) := by
  constructor
  · rcases h.phase with hphase | hphase
    · refine hphase.step hX hinj hR hany (fun _ _ _ b hb => ?_) he ⟨a, q, out, hturn, rfl⟩
      by_contra hnot
      rw [hphase.outside b hnot] at hb
      cases hb
    · exact Or.inr (hphase.step hX hinj hany he ⟨a, q, out, hturn, rfl⟩)
  · intro b hb
    have hsame : b = a → q = s.node a := by
      rintro rfl
      cases hturn with
      | quiet => rfl
      | stabilizeSkip skip => rfl
      | stabilize member several => rfl
      | deliver packet reacts => exact absurd (h.dst_mem (mem_of_getElem? packet)) hb
      | _ => exact he.elim
    rw [Net.act_node]
    split
    · rename_i hba
      rw [hsame hba, ← hba]
      exact h.outside b hb
    · rw [RingNet.before_node]
      exact h.outside b hb

/-- Only a notification that is followed hands keys over; at any other turn the
predecessor stays, or was unknown. -/
theorem turn_cases (h : Admitting R X s) (he : s.JoinTraffic e) {a : Ipv4Address} {q : Pointers}
    {out : List RingAction} (hturn : RingTurn F s e a q out) :
    (∃ k src, e = .deliver k ∧ s.inFlight[k]? = some ⟨src, a, .notify⟩ ∧
        out = [.joinNotify src] ∧ q.predecessor = src ∧ NextOnce R X src a ∧
        src ∈ insert X R ∧ a ∈ insert X R ∧ (s.node a).predecessor ≠ .getAny ∧
        InArc (nodePos (s.node a).predecessor) (nodePos a) (nodePos src)) ∨
      ((∀ act ∈ out, ∃ dst msg, act = .send dst msg) ∧
        (q.predecessor = (s.node a).predecessor ∨ (s.node a).predecessor = .getAny)) := by
  cases hturn with
  | quiet a => exact Or.inr ⟨by simp, Or.inl rfl⟩
  | stabilizeSkip skip => exact Or.inr ⟨by simp, Or.inl rfl⟩
  | stabilize member several => exact Or.inr ⟨by simp, Or.inl rfl⟩
  | deliver packet reacts =>
      rename_i k p
      obtain ⟨src, dst, msg⟩ := p
      rcases h.traffic (mem_of_getElem? packet) with ⟨htoken, houtside⟩ | hchatter
      · right
        cases htoken with
        | request dst_mem => cases reacts <;> exact ⟨by simp, Or.inl rfl⟩
        | relayed dst_mem several => cases reacts <;> exact ⟨by simp, Or.inl rfl⟩
        | answer next =>
            cases reacts with
            | joined => exact ⟨by simp, Or.inr (by rw [houtside]; rfl)⟩
      · cases hchatter with
        | notify src_mem dst_mem ne next =>
            cases reacts with
            | notifyFirst none => exact Or.inr ⟨by simp, Or.inr none⟩
            | notifyAdopt some arc =>
                exact Or.inl ⟨k, src, rfl, packet, rfl, rfl, next, src_mem, dst_mem, some, arc⟩
            | notifyIgnore some arc => exact Or.inr ⟨by simp, Or.inl rfl⟩
        | stabilizeReq src_mem dst_mem => cases reacts <;> exact Or.inr ⟨by simp, Or.inl rfl⟩
        | stabilizeResp dst_mem mem => cases reacts <;> exact Or.inr ⟨by simp, Or.inl rfl⟩
  | _ => exact he.elim

end Admitting

theorem Admitting.stableAt {V : Finset Ipv4Address} {c : ChordNet} (h : Admitting R X c.view)
    (hX : X ∉ R) (hinj : Set.InjOn nodePos (insert X R : Finset Ipv4Address)) (hR : R.Nonempty)
    (hany : .getAny ∉ insert X R) (hV : R ⊆ V) (hlocal : ∀ a, (c.node a).localAddress = a)
    (hflight : c.inFlight = []) (hcalm : c.Calm V) : c.view.StableAt (insert X R) := by
  have hquiet : c.view.inFlight = [] := ChordNet.view_inFlight_nil hflight
  have hjoined : Joined R X c.view := by
    refine h.phase.resolve_left fun hjoining => ?_
    have hsingle := hjoining.single
    rw [hquiet] at hsingle
    cases hsingle
  obtain ⟨P, hP, S, hS, hPX, hXS, hPS⟩ := exists_neighbours hX hinj hR
  have hb : Between R X P S := ⟨hP, hS, hPX, hXS, hPS⟩
  have htaken : (c.view.node S).predecessor = X := by
    have htold := hjoined.notified S hXS
    simpa [Told, hquiet] using htold
  have hne : ∀ {a}, a ∈ insert X R → a ≠ .getAny := fun ha heq => hany (heq ▸ ha)
  have hXmem := Finset.mem_insert_self X R
  have hPmem : P ∈ insert X R := Finset.mem_insert_of_mem hP
  have hSmem : S ∈ insert X R := Finset.mem_insert_of_mem hS
  refine (Converging.mk hjoined htaken).stableAt hX hinj hany hb (Or.inl ?_) hquiet
  refine (hb.successor_or hX hinj hjoined).resolve_right fun hsucc => ?_
  -- otherwise the stabilization of `P` would make it take `X` up
  refine hcalm.not_adopts hflight (hV hP) (hlocal P)
    ⟨hne hPmem, (hjoined.takesPart P hPmem).member⟩ (hne hSmem)
    (fun hPS' => hjoined.several P hP (hPS' ▸ hsucc)) hsucc htaken (hne hXmem)
    (fun hXS' => hX (hXS' ▸ hS)) ⟨fun heq => ?_, hXS.inArc_of_mem hPmem⟩
  exact hX (hinj (Finset.mem_coe.mpr hXmem) (Finset.mem_coe.mpr hPmem) heq ▸ hP)

end PennSearch
