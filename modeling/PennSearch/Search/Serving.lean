import PennSearch.Search.Errands
import PennSearch.Search.GracefulLeave
import PennSearch.Search.Interference

/-!
# Lookups on a ring that stays

No node joins or leaves, and the timers run, the fingers are repaired and the ring is
walked as it comes. `Serving` is the invariant of the Chord layer meanwhile: requests
go to members, carry the digest of their key, and an answer names a node that the
ring makes responsible for the key.
-/

namespace PennSearch

open Clockwise MessagePassing

variable [Sha1] {R : Finset Ipv4Address}

/-- `b` follows a member on whose closed arc `key` lies. -/
def Responsible (R : Finset Ipv4Address) (b : Ipv4Address) (key : CxxString) : Prop :=
  ∃ a ∈ R, IsNext nodePos R a b ∧ InArc (nodePos a) (nodePos b) (keyPos key)

instance (R : Finset Ipv4Address) (b : Ipv4Address) (key : CxxString) :
    Decidable (Responsible R b key) :=
  inferInstanceAs (Decidable (∃ a ∈ R, _))

theorem Responsible.mem {b : Ipv4Address} {key : CxxString} (h : Responsible R b key) : b ∈ R := by
  obtain ⟨a, -, hnext, -⟩ := h
  exact hnext.1

theorem Responsible.owns {b : Ipv4Address} {key : CxxString} (h : Responsible R b key)
    (hnone : ∀ a ∈ R, nodePos a ≠ keyPos key) : Owns R b key := by
  obtain ⟨a, ha, hnext, harc⟩ := h
  exact hnext.isOwner harc fun heq => absurd heq (hnone a ha)

/-- What a message for the fingers, or for a lookup, carries on the ring `R`. -/
def Served (R : Finset Ipv4Address) (p : ChordPacket) : Prop :=
  match p.msg.payload with
  | .findFinger targetAddress _ _ => p.dst ∈ R ∧ targetAddress ∈ R
  | .findFingerSuccess fingerAddress _ => p.dst ∈ R ∧ fingerAddress ∈ R
  | .lookupPublish _ initiatorAddress lookupDigest lookupKey =>
      p.dst ∈ R ∧ initiatorAddress ∈ R ∧ lookupDigest = sha1Key lookupKey
  | .lookupPublishSuccess _ lookupKey addressResponsible =>
      p.dst ∈ R ∧ Responsible R addressResponsible lookupKey
  | _ => True

structure Serving (R : Finset Ipv4Address) (c : ChordNet) : Prop where
  settled : Settled R c.view
  localAddress : ∀ a, (c.node a).localAddress = a
  fingers : ∀ a ∈ R, (c.node a).FingersIn (· ∈ R)
  served : ∀ p ∈ c.inFlight, Served R p

/-- No command changes the membership, and only members look keys up. -/
def ChordEvent.KeepsRing (R : Finset Ipv4Address) : ChordEvent → Prop
  | .join _ _ => False
  | .leave _ => False
  | .lookupPublish a _ _ _ => a ∈ R
  | _ => True

instance (R : Finset Ipv4Address) (e : ChordEvent) : Decidable (e.KeepsRing R) :=
  match e with
  | .join .. | .leave _ => .isFalse id
  | .lookupPublish .. => inferInstanceAs (Decidable (_ ∈ R))
  | .ringstate _ | .stabilize _ | .fixFinger _ | .deliver _ => .isTrue trivial

omit [Sha1] in
theorem ChordEvent.KeepsRing.keepsMembers {e : ChordEvent} (h : e.KeepsRing R) :
    e.KeepsMembers := by
  cases e with
  | join a nodeAddr => exact h
  | leave a => exact h
  | _ => trivial

theorem served_of_kind {p : ChordPacket} (hfingers : p.msg.payload.kind ≠ .fingers)
    (hlookups : p.msg.payload.kind ≠ .lookups) : Served R p := by
  obtain ⟨src, dst, tx, payload⟩ := p
  cases payload <;> trivial

/-- `LookupPublish` answers what lies on the own arc, and asks the next hop in any case. -/
theorem ChordNode.lookupPublish_acts {n n' : ChordNode} {key : CxxString} {flag : UInt16}
    {tx : UInt32} {acts : List ChordAction} (h : n.lookupPublish key flag tx = .ok (n', acts)) :
    n' = n ∧ (∀ b ∈ n.localAnswers key flag tx, b = n.successorAddr ∧ n.inOwnArc (keyPos key)) ∧
      ∃ hop, n.findNextHop (sha1Key key) = .ok hop ∧
        acts = ((n.localAnswers key flag tx).flatMap fun b => lookupCallback flag key b tx) ++
          [.sendTo hop ⟨tx, .lookupPublish flag n.localAddress (sha1Key key) key⟩] := by
  rw [lookupPublish_eq_steps] at h
  cases hsteps : n.lookupPublishSteps key flag tx with
  | error f =>
      rw [hsteps] at h
      cases h
  | ok steps =>
      rw [hsteps] at h
      obtain ⟨answers, hop, hhop, rfl, hall, hown⟩ := lookupPublishSteps_spec hsteps
      have hanswers : n.localAnswers key flag tx = answers.filterMap LookupStep.answer := by
        rw [localAnswers, hsteps]
        simp [LookupStep.answer]
      cases h
      refine ⟨rfl, fun b hb => ?_, hop, hhop, ?_⟩
      · rw [hanswers] at hb
        obtain ⟨s, hs, hb⟩ := List.mem_filterMap.mp hb
        rw [hall s hs] at hb
        exact ⟨(Option.some.inj hb).symm, hown.mp (List.ne_nil_of_mem hs)⟩
      · rw [List.flatMap_append, hanswers]
        congr 1
        -- each answer is a call of `LookupCallback` with the successor
        clear hsteps hanswers hown
        induction answers with
        | nil => rfl
        | cons s answers ih =>
            obtain ⟨rfl, hrest⟩ := List.forall_mem_cons.mp hall
            rw [List.flatMap_cons, ih hrest]
            rfl

namespace Serving

variable {c c₀ c' : ChordNet} {e : ChordEvent} {a : Ipv4Address} {n : ChordNode}
  {acts : List ChordAction}

theorem successor_mem (h : Serving R c) (ha : a ∈ R) : (c.node a).successorAddr ∈ R :=
  (h.settled.successor a ha).1

theorem hop_mem (h : Serving R c) (ha : a ∈ R) {target : Digest} {hop : Ipv4Address}
    (hhop : (c.node a).findNextHop target = .ok hop) : hop ∈ R := by
  rcases ChordNode.findNextHop_spec hhop with rfl | ⟨⟨i, hi⟩, -⟩
  · exact h.successor_mem ha
  · exact h.fingers a ha i hop hi

/-- On its own arc a member names the node that is responsible. -/
theorem responsible (h : Serving R c) (ha : a ∈ R) {key : CxxString}
    (harc : (c.node a).inOwnArc (keyPos key)) : Responsible R (c.node a).successorAddr key := by
  refine ⟨a, ha, h.settled.successor a ha, ?_⟩
  simpa only [ChordNode.inOwnArc, h.localAddress a] using harc

theorem recv_request (h : Serving R c) {p : ChordPacket} {target : Digest} (hp : Served R p)
    (htarget : p.msg.target = some target) (hkind : p.msg.payload.kind ≠ .pointers)
    (hr : (c.node p.dst).recvMessage p.msg p.src = .ok (n, acts)) :
    n = c.node p.dst ∧ ∀ q ∈ sentPackets p.dst acts, Served R q := by
  obtain ⟨src, dst, tx, payload⟩ := p
  obtain ⟨rfl, ⟨harc, rfl⟩ | ⟨-, hop, hhop, rfl⟩⟩ :=
    ChordNode.recvMessage_target_cases _ _ htarget hr
  · refine ⟨rfl, fun q hq => ?_⟩
    obtain ⟨-, -, hact⟩ := mem_sentPackets.mp hq
    obtain ⟨hdst, hmsg⟩ := ChordAction.sendTo.inj (List.mem_singleton.mp hact)
    cases payload with
    | findFinger targetAddress digest i =>
        rw [Served, hmsg]
        exact ⟨hdst ▸ hp.2, h.successor_mem hp.1⟩
    | lookupPublish flag initiator digest key =>
        obtain ⟨hmem, hinitiator, rfl⟩ := hp
        obtain rfl := Option.some.inj htarget
        rw [Served, hmsg]
        exact ⟨hdst ▸ hinitiator, h.responsible hmem harc⟩
    | findSuccessor x t => exact absurd rfl hkind
    | _ => cases htarget
  · refine ⟨rfl, fun q hq => ?_⟩
    obtain ⟨-, -, hact⟩ := mem_sentPackets.mp hq
    obtain ⟨hdst, hmsg⟩ := ChordAction.sendTo.inj (List.mem_singleton.mp hact)
    cases payload with
    | findFinger targetAddress digest i =>
        rw [Served, hmsg]
        exact ⟨hdst ▸ h.hop_mem hp.1 hhop, hp.2⟩
    | lookupPublish flag initiator digest key =>
        rw [Served, hmsg]
        exact ⟨hdst ▸ h.hop_mem hp.1 hhop, hp.2⟩
    | findSuccessor x t => exact absurd rfl hkind
    | _ => cases htarget

theorem served_findFinger {b : Ipv4Address} (ha : a ∈ R)
    (hacts : ∀ act ∈ acts, ∃ finger tx indexHash i, finger ∈ R ∧
      act = .sendTo finger ⟨tx, .findFinger a indexHash i⟩) :
    ∀ p ∈ sentPackets b acts, Served R p := by
  intro p hp
  obtain ⟨-, -, hact⟩ := mem_sentPackets.mp hp
  obtain ⟨finger, tx, indexHash, i, hfinger, heq⟩ := hacts _ hact
  obtain ⟨hdst, hmsg⟩ := ChordAction.sendTo.inj heq
  rw [Served, hmsg]
  exact ⟨hdst ▸ hfinger, ha⟩

theorem served_of_eventKind (hturn : c.turn e = some (c₀, a, .ok (n, acts)))
    (hkind : c.eventKind e ≠ some .fingers ∧ c.eventKind e ≠ some .lookups) :
    ∀ p ∈ sentPackets a acts, Served R p := by
  intro p hp
  obtain ⟨-, -, hact⟩ := mem_sentPackets.mp hp
  have heq := ChordNet.turn_kind hturn _ hact
  exact served_of_kind (fun h => hkind.1 (heq.trans (congrArg some h)))
    fun h => hkind.2 (heq.trans (congrArg some h))

/-- A delivery keeps the fingers and the messages among the members. -/
theorem recv (h : Serving R c) {p : ChordPacket} (hp : p ∈ c.inFlight)
    (hr : (c.node p.dst).recvMessage p.msg p.src = .ok (n, acts)) :
    (p.dst ∈ R → n.FingersIn (· ∈ R)) ∧ ∀ q ∈ sentPackets p.dst acts, Served R q := by
  have hserved := h.served p hp
  have hkind := ChordNode.recvMessage_kind hr
  obtain ⟨src, dst, tx, payload⟩ := p
  have hplain : payload.kind ≠ .fingers → payload.kind ≠ .lookups →
      (dst ∈ R → n.FingersIn (· ∈ R)) ∧ ∀ q ∈ sentPackets dst acts, Served R q := by
    intro hfingers hlookups
    have htable := ChordNode.recvMessage_fingerTable
      (fun finger i heq => hfingers (congrArg ChordPayload.kind heq)) hr
    refine ⟨fun ha i finger hfinger => h.fingers dst ha i finger (htable ▸ hfinger),
      fun q hq => ?_⟩
    obtain ⟨-, -, hact⟩ := mem_sentPackets.mp hq
    have heq := hkind _ hact
    exact served_of_kind (fun h => hfingers (heq.symm.trans h))
      fun h => hlookups (heq.symm.trans h)
  have hrequest : ∀ {target}, (⟨tx, payload⟩ : PennChordMessage).target = some target →
      payload.kind ≠ .pointers →
      (dst ∈ R → n.FingersIn (· ∈ R)) ∧ ∀ q ∈ sentPackets dst acts, Served R q := by
    intro target htarget hpointers
    obtain ⟨rfl, hsent⟩ := h.recv_request hserved htarget hpointers hr
    exact ⟨fun ha => h.fingers dst ha, hsent⟩
  cases payload with
  | findFinger target digest i => exact hrequest rfl (by simp [ChordPayload.kind])
  | lookupPublish flag initiator digest key => exact hrequest rfl (by simp [ChordPayload.kind])
  | findFingerSuccess finger i =>
      obtain ⟨hdst, hfinger⟩ := hserved
      have hloop : { c.node dst with
          fingerTable := (c.node dst).fingerTable.insert i finger }.sendFindFingerLoop _ =
            .ok (n, acts) := hr
      obtain ⟨hfingers, hacts⟩ := ChordNode.sendFindFingerLoop_fingersIn _ hloop
        ((h.fingers dst hdst).insert i hfinger)
      dsimp only at hacts
      rw [h.localAddress dst] at hacts
      exact ⟨fun _ => hfingers, served_findFinger hdst hacts⟩
  | lookupPublishSuccess flag key responsible =>
      cases hr
      refine ⟨fun ha => h.fingers dst ha, fun q hq => ?_⟩
      rw [ChordNode.sentPackets_lookupCallback] at hq
      cases hq
  | _ => exact hplain (by simp [ChordPayload.kind]) (by simp [ChordPayload.kind])

/-- A turn keeps the fingers and the messages among the members. -/
theorem turn (h : Serving R c) (he : e.KeepsRing R)
    (hturn : c.turn e = some (c₀, a, .ok (n, acts))) :
    (a ∈ R → n.FingersIn (· ∈ R)) ∧ ∀ p ∈ sentPackets a acts, Served R p := by
  have hstays : n.fingerTable = (c.node a).fingerTable → a ∈ R → n.FingersIn (· ∈ R) := by
    intro htable ha i finger hfinger
    exact h.fingers a ha i finger (htable ▸ hfinger)
  cases e with
  | join b nodeAddr => exact he.elim
  | leave b => exact he.elim
  | stabilize b =>
      obtain ⟨rfl, rfl, hr⟩ : _ = _ ∧ _ = _ ∧ _ = _ := by simpa [ChordNet.turn] using hturn
      refine ⟨hstays ?_, served_of_eventKind hturn ⟨by simp [ChordNet.eventKind],
        by simp [ChordNet.eventKind]⟩⟩
      rw [← (c.node b).stabilize_fingerTable, hr]
  | ringstate b =>
      obtain ⟨rfl, rfl, hr⟩ : _ = _ ∧ _ = _ ∧ _ = _ := by simpa [ChordNet.turn] using hturn
      refine ⟨hstays ?_, served_of_eventKind hturn ⟨by simp [ChordNet.eventKind],
        by simp [ChordNet.eventKind]⟩⟩
      rw [← (c.node b).processRingstateCommand_fingerTable, hr]
  | fixFinger b =>
      simp only [ChordNet.turn] at hturn
      split at hturn
      · obtain ⟨rfl, rfl, hr⟩ : _ = _ ∧ _ = _ ∧ _ = _ := by simpa using hturn
        by_cases hb : b ∈ R
        · obtain ⟨hfingers, hacts⟩ := ChordNode.fixFinger_fingersIn hr (h.fingers b hb)
            fun _ => h.successor_mem hb
          rw [h.localAddress b] at hacts
          exact ⟨fun _ => hfingers, served_findFinger hb hacts⟩
        · rcases ChordNode.fixFinger_cases hr with ⟨-, -, rfl⟩ | ⟨hstatus, -, -⟩
          · exact ⟨fun ha => absurd ha hb, by simp [sentPackets]⟩
          · exact absurd ((h.settled.member b).mp hstatus) hb
      · cases hturn
  | lookupPublish b key flag tx =>
      obtain ⟨rfl, rfl, hr⟩ : _ = _ ∧ _ = _ ∧ _ = _ := by simpa [ChordNet.turn] using hturn
      have hb : b ∈ R := he
      obtain ⟨rfl, hop, hhop, hsends⟩ := ChordNode.lookupPublish_sends hr b
      refine ⟨hstays rfl, fun p hp => ?_⟩
      rw [hsends] at hp
      obtain ⟨-, -, hact⟩ := mem_sentPackets.mp hp
      obtain ⟨hdst, hmsg⟩ := ChordAction.sendTo.inj (List.mem_singleton.mp hact)
      rw [Served, hmsg]
      exact ⟨hdst ▸ h.hop_mem hb hhop, (h.localAddress b).symm ▸ hb, rfl⟩
  | deliver k =>
      cases hp : c.inFlight[k]? with
      | none => simp [ChordNet.turn, hp] at hturn
      | some p =>
          rw [ChordNet.turn_deliver hp] at hturn
          obtain ⟨rfl, rfl, hr⟩ : _ = _ ∧ _ = _ ∧ _ = _ := by simpa using hturn
          exact h.recv (mem_of_getElem? hp) hr

/-- Every event that keeps the ring keeps the invariant. -/
theorem step (h : Serving R c) (hinj : Set.InjOn nodePos (R : Set Ipv4Address))
    (he : e.KeepsRing R) (hstep : c.stepActions e = .ok (c', acts)) : Serving R c' := by
  obtain ⟨hring, hlocal⟩ := ChordNet.step_view (F := fun _ _ => True) h.localAddress
    (fun _ _ _ _ => trivial) (ChordNet.step_eq_ok.mpr ⟨acts, hstep⟩)
  have hsettled := (h.settled.step hinj (he.keepsMembers.ringEvent c) hring).1
  rcases ChordNet.stepActions_cases hstep with ⟨-, rfl, -⟩ | ⟨c₀, a, n, hturn, rfl⟩
  · exact h
  · obtain ⟨hfingers, hsent⟩ := h.turn he hturn
    refine ⟨hsettled, hlocal, fun b hb => ?_, fun p hp => ?_⟩
    · intro i finger hfinger
      rw [Net.act_node] at hfinger
      split at hfinger
      · rename_i hba
        exact hfingers (hba ▸ hb) i finger hfinger
      · rw [ChordNet.turn_node hturn] at hfinger
        exact h.fingers b hb i finger hfinger
    · rcases List.mem_append.mp hp with hp | hp
      · exact h.served p (ChordNet.turn_inFlight_subset hturn p hp)
      · exact hsent p hp

/-- A stable ring serves before anything is in flight. -/
theorem start (hstable : StableNet c R) (hfingers : FingersWithin c.node R) : Serving R c where
  settled := ⟨hstable.stableAt, by simp [ChordNet.view_inFlight_nil hstable.inFlight]⟩
  localAddress := hstable.localAddress
  fingers a ha i finger hfinger := (hfingers a ha).2 i finger hfinger
  served p hp := by
    rw [hstable.inFlight] at hp
    cases hp

end Serving

end PennSearch
