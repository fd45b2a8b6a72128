import PennSearch.Search.EndToEnd
import PennSearch.Search.Serving

/-!
# The ring as a lookup service

On a ring that stays, the Chord layer is a service that the search layer asks: a
lookup waits while its packets are under way, and is answered with a node that is
responsible for the key (`viaRing`). The relays between the members are steps in which
nothing happens. A caller on whose own arc the key lies is called back at once as well;
without such calls the service is `viaService`, which answers every lookup once.
-/

namespace PennSearch

open Clockwise MessagePassing

def lookupOf (p : ChordPacket) : Option LookupCall :=
  match p.msg.payload with
  | .lookupPublish flag initiatorAddress _ lookupKey =>
      some ⟨initiatorAddress, lookupKey, flag, p.msg.transactionId⟩
  | .lookupPublishSuccess flag lookupKey _ => some ⟨p.dst, lookupKey, flag, p.msg.transactionId⟩
  | _ => none

theorem lookupOf_eq_none_iff {p : ChordPacket} :
    lookupOf p = none ↔ p.msg.payload.isLookup = false := by
  obtain ⟨src, dst, tx, payload⟩ := p
  cases payload <;> simp [lookupOf, ChordPayload.isLookup]

namespace ChordNet

def pending (c : ChordNet) : List LookupCall := c.inFlight.filterMap lookupOf

def withoutLookups (c : ChordNet) : ChordNet :=
  { c with inFlight := c.inFlight.filter fun p => !p.msg.payload.isLookup }

/-- The same event where the packets of lookups are not counted. -/
def shifted (c : ChordNet) : ChordEvent → ChordEvent
  | .deliver k => .deliver ((c.inFlight.take k).filter fun p => !p.msg.payload.isLookup).length
  | e => e

variable {c c' c₀ : ChordNet} {e : ChordEvent} {acts : List ChordAction} {k : ℕ} {p : ChordPacket}

@[simp] theorem withoutLookups_node : c.withoutLookups.node = c.node := rfl

theorem pending_act (a : Ipv4Address) (n : ChordNode) (sent : List ChordPacket) :
    pending (c.act a n sent) = c.pending ++ sent.filterMap lookupOf :=
  List.filterMap_append

theorem withoutLookups_act (a : Ipv4Address) (n : ChordNode) (sent : List ChordPacket) :
    withoutLookups (c.act a n sent) =
      c.withoutLookups.act a n (sent.filter fun p => !p.msg.payload.isLookup) := by
  simp only [withoutLookups, Net.act, List.filter_append]

theorem pending_take (hk : c.inFlight[k]? = some p) :
    c.pending.Perm ((lookupOf p).toList ++ pending (c.take k)) := by
  obtain ⟨pre, post, hsplit, -, herase⟩ := exists_split hk
  rw [pending, pending, Net.take_inFlight, herase, hsplit]
  cases hp : lookupOf p with
  | none => simp [hp]
  | some l => simp [hp]

theorem withoutLookups_take_lookup (hk : c.inFlight[k]? = some p)
    (hp : p.msg.payload.isLookup = true) : withoutLookups (c.take k) = c.withoutLookups := by
  have herase := filter_eraseIdx_of_not (f := fun p : ChordPacket => !p.msg.payload.isLookup) hk
    (by simp [hp])
  simp only [withoutLookups, Net.take, herase]

theorem withoutLookups_act_lookup {a : Ipv4Address} {sent : List ChordPacket}
    (hsent : ∀ p ∈ sent, p.msg.payload.isLookup = true) :
    withoutLookups (c.act a (c.node a) sent) = c.withoutLookups := by
  rw [withoutLookups_act, List.filter_eq_nil_iff.mpr fun p hp => by simp [hsent p hp]]
  exact Net.act_self c.withoutLookups a

variable [Sha1]

/-- A turn of another protocol does not depend on the packets of lookups. -/
theorem turn_withoutLookups (he : c.eventKind e ≠ some .lookups) :
    c.withoutLookups.turn (c.shifted e) =
      (c.turn e).map fun t => (t.1.withoutLookups, t.2) := by
  cases e with
  | deliver k =>
      cases hk : c.inFlight[k]? with
      | none =>
          have hall : c.inFlight.take k = c.inFlight :=
            List.take_of_length_le (List.getElem?_eq_none_iff.mp hk)
          simp [turn, shifted, hk, hall, withoutLookups]
      | some p =>
          have hp : p.msg.payload.isLookup = false := by
            rw [ChordPayload.isLookup_eq_false_iff]
            intro hkind
            simp [eventKind, hk, hkind] at he
          obtain ⟨hk', herase⟩ := filter_split
            (f := fun p : ChordPacket => !p.msg.payload.isLookup) hk (by simp [hp])
          rw [turn_deliver hk]
          simp only [shifted, Option.map_some]
          rw [turn_deliver (c := c.withoutLookups) hk']
          simp only [withoutLookups, Net.take, herase]
  | fixFinger a =>
      by_cases htimer : (c.node a).fixFingerTimer = true
      · simp [turn, shifted, htimer]
      · simp [turn, shifted, htimer]
  | _ => rfl

theorem stepActions_withoutLookups (he : c.eventKind e ≠ some .lookups)
    (h : c.stepActions e = .ok (c', acts)) :
    c.withoutLookups.stepActions (c.shifted e) = .ok (c'.withoutLookups, acts) ∧
      c'.pending = c.pending ∧ ∀ act ∈ acts, act.isLookup = false := by
  have hacts : ∀ act ∈ acts, act.isLookup = false := by
    intro act hact
    rw [ChordAction.isLookup_eq_false_iff]
    intro hkind
    exact he ((stepActions_kind h act hact).trans (congrArg some hkind))
  have hturn' := turn_withoutLookups he
  rcases stepActions_cases h with ⟨hturn, rfl, rfl⟩ | ⟨c₀, a, n, hturn, rfl⟩
  · rw [hturn] at hturn'
    refine ⟨?_, rfl, hacts⟩
    simp only [stepActions, hturn', Option.map_none]
  · rw [hturn] at hturn'
    have hsent : ∀ p ∈ sentPackets a acts, p.msg.payload.isLookup = false :=
      fun p hp => hacts _ (mem_sentPackets.mp hp).2.2
    refine ⟨?_, ?_, hacts⟩
    · simp only [stepActions, hturn', Option.map_some]
      rw [withoutLookups_act, List.filter_eq_self.mpr fun p hp => by simp [hsent p hp]]
      rfl
    · rw [pending_act, List.filterMap_eq_nil_iff.mpr fun p hp =>
        lookupOf_eq_none_iff.mpr (hsent p hp), List.append_nil]
      rcases turn_inFlight hturn with hsame | ⟨k, p, rfl, hk, herase⟩
      · rw [pending, hsame, pending]
      · have hp : lookupOf p = none := by
          rw [lookupOf_eq_none_iff, ChordPayload.isLookup_eq_false_iff]
          intro hkind
          simp [eventKind, hk, hkind] at he
        obtain ⟨pre, post, hsplit, -, hpost⟩ := exists_split hk
        rw [pending, herase, hpost, pending, hsplit]
        simp [hp]

omit [Sha1] in
theorem shifted_keepsRing {R : Finset Ipv4Address} (h : e.KeepsRing R) :
    (c.shifted e).KeepsRing R := by
  cases e with
  | deliver k => trivial
  | _ => exact h

end ChordNet

/-! ## The packets of a lookup -/

namespace Serving

variable [Sha1] {R : Finset Ipv4Address} {c c' : ChordNet} {acts : List ChordAction} {k : ℕ}
  {p : ChordPacket} {flag : UInt16} {key : CxxString} {tx : UInt32}

theorem ne_getAny (h : Serving R c) {a : Ipv4Address} (ha : a ∈ R) : a ≠ .getAny :=
  fun heq => h.settled.getAny_notMem (heq ▸ ha)

theorem deliver_request (h : Serving R c) (hk : c.inFlight[k]? = some p)
    {initiator : Ipv4Address} {digest : Digest}
    (hp : p.msg.payload = .lookupPublish flag initiator digest key)
    (hstep : c.stepActions (.deliver k) = .ok (c', acts)) :
    c'.withoutLookups = c.withoutLookups ∧ c'.pending.Perm c.pending ∧
      ∃ dst m, acts = [.sendTo dst m] := by
  have hserved := h.served p (mem_of_getElem? hk)
  obtain ⟨src, dst, tx, payload⟩ := p
  obtain rfl : payload = .lookupPublish flag initiator digest key := hp
  obtain ⟨hdst, hinitiator, -⟩ := hserved
  rcases ChordNet.stepActions_cases hstep with ⟨hturn, -, -⟩ | ⟨c₀, a, n, hturn, rfl⟩
  · rw [ChordNet.turn_deliver hk] at hturn
    cases hturn
  · rw [ChordNet.turn_deliver hk] at hturn
    obtain ⟨rfl, rfl, hr⟩ : _ = _ ∧ _ = _ ∧ _ = _ := by simpa using hturn
    have hpacket : ∃ q, sentPackets dst acts = [q] ∧
        lookupOf q = some ⟨initiator, key, flag, tx⟩ ∧ ∃ b m, acts = [.sendTo b m] := by
      obtain ⟨-, ⟨-, rfl⟩ | ⟨-, hop, hhop, rfl⟩⟩ :=
        ChordNode.recvMessage_target_cases _ _ rfl hr
      · have hne : initiator ≠ .getAny := h.ne_getAny hinitiator
        exact ⟨⟨dst, initiator, ⟨tx, .lookupPublishSuccess flag key (c.node dst).successorAddr⟩⟩,
          by simp [sentPackets, PennChordMessage.requester, PennChordMessage.answer, hne],
          rfl, _, _, rfl⟩
      · have hne : hop ≠ .getAny := h.ne_getAny (h.hop_mem hdst hhop)
        exact ⟨⟨dst, hop, ⟨tx, .lookupPublish flag initiator digest key⟩⟩,
          by simp [sentPackets, hne], rfl, _, _, rfl⟩
    obtain ⟨rfl, -⟩ := ChordNode.recvMessage_target_cases _ _ rfl hr
    obtain ⟨q, hsent, hq, hacts⟩ := hpacket
    refine ⟨?_, ?_, hacts⟩
    · have hlookup : q.msg.payload.isLookup = true := by
        by_contra hnot
        rw [Bool.not_eq_true, ← lookupOf_eq_none_iff, hq] at hnot
        cases hnot
      rw [hsent, ← ChordNet.withoutLookups_take_lookup hk rfl]
      exact ChordNet.withoutLookups_act_lookup (c := c.take k) (by simpa using hlookup)
    · rw [ChordNet.pending_act, hsent, List.filterMap_cons_some hq]
      exact (List.perm_append_singleton _ _).trans (ChordNet.pending_take hk).symm

theorem deliver_answer (h : Serving R c) (hk : c.inFlight[k]? = some p) {b : Ipv4Address}
    (hp : p.msg.payload = .lookupPublishSuccess flag key b)
    (hstep : c.stepActions (.deliver k) = .ok (c', acts)) :
    c'.withoutLookups = c.withoutLookups ∧
      c.pending.Perm (⟨p.dst, key, flag, p.msg.transactionId⟩ :: c'.pending) ∧
      acts = ChordNode.lookupCallback flag key b p.msg.transactionId ∧ Responsible R b key := by
  have hserved := h.served p (mem_of_getElem? hk)
  obtain ⟨src, dst, tx, payload⟩ := p
  obtain rfl : payload = .lookupPublishSuccess flag key b := hp
  rcases ChordNet.stepActions_cases hstep with ⟨hturn, -, -⟩ | ⟨c₀, a, n, hturn, rfl⟩
  · rw [ChordNet.turn_deliver hk] at hturn
    cases hturn
  · rw [ChordNet.turn_deliver hk] at hturn
    obtain ⟨rfl, rfl, hr⟩ : _ = _ ∧ _ = _ ∧ _ = _ := by simpa using hturn
    obtain ⟨rfl, rfl⟩ := Prod.mk.inj (Except.ok.inj hr)
    have hnone : sentPackets dst (ChordNode.lookupCallback flag key b tx) = [] :=
      ChordNode.sentPackets_lookupCallback dst flag key b tx
    refine ⟨?_, ?_, rfl, hserved.2⟩
    · rw [hnone, ← ChordNet.withoutLookups_take_lookup hk rfl]
      exact ChordNet.withoutLookups_act_lookup (c := c.take k) (by simp)
    · rw [ChordNet.pending_act, hnone, List.filterMap_nil, List.append_nil]
      exact ChordNet.pending_take hk

theorem call (h : Serving R c) {a : Ipv4Address} (ha : a ∈ R)
    (hstep : c.stepActions (.lookupPublish a key flag tx) = .ok (c', acts)) :
    c'.withoutLookups = c.withoutLookups ∧ c'.pending = c.pending ++ [⟨a, key, flag, tx⟩] ∧
      (∀ b ∈ (c.node a).localAnswers key flag tx, Responsible R b key) ∧
      ∃ hop m, acts = (((c.node a).localAnswers key flag tx).flatMap fun b =>
        ChordNode.lookupCallback flag key b tx) ++ [.sendTo hop m] := by
  rcases ChordNet.stepActions_cases hstep with ⟨hturn, -, -⟩ | ⟨c₀, a', n, hturn, rfl⟩
  · cases hturn
  · obtain ⟨rfl, rfl, hr⟩ : _ = _ ∧ _ = _ ∧ _ = _ := by simpa [ChordNet.turn] using hturn
    obtain ⟨rfl, hown, hop, hhop, hacts⟩ := ChordNode.lookupPublish_acts hr
    obtain ⟨-, hop', hhop', hsent⟩ := ChordNode.lookupPublish_sends hr a
    obtain rfl := Except.ok.inj (hhop.symm.trans hhop')
    have hne : hop ≠ .getAny := h.ne_getAny (h.hop_mem ha hhop)
    have hone : sentPackets a acts =
        [⟨a, hop, ⟨tx, .lookupPublish flag a (sha1Key key) key⟩⟩] := by
      rw [hsent, h.localAddress]
      simp [sentPackets, hne]
    refine ⟨?_, ?_, fun b hb => ?_, _, _, hacts⟩
    · rw [hone]
      exact ChordNet.withoutLookups_act_lookup (by simp [ChordPayload.isLookup])
    · rw [ChordNet.pending_act, hone]
      rfl
    · obtain ⟨rfl, harc⟩ := hown b hb
      exact h.responsible ha harc

end Serving

/-! ## Where searches go -/

/-- The messages of a search that makes the node it reaches consult its index. -/
def PennSearchMessage.Consults (m : PennSearchMessage) : Prop :=
  match m.payload with
  | .searchInitial _ _ | .searchBegin _ _ _ | .search _ _ _ => True
  | _ => False

def ChordAction.AnswersIn (R : Finset Ipv4Address) : ChordAction → Prop
  | .searchInitialSuccess _ addressResponsible _ => addressResponsible ∈ R
  | .searchBeginSuccess _ addressResponsible _ => addressResponsible ∈ R
  | _ => True

def SearchAction.ConsultsIn (R : Finset Ipv4Address) : SearchAction → Prop
  | .sendTo dst m => m.Consults → dst ∈ R
  | _ => True

def SearchNet.ConsultsIn (R : Finset Ipv4Address) (c : SearchNet) : Prop :=
  ∀ p ∈ c.inFlight, p.msg.Consults → p.dst ∈ R

theorem answersIn_lookupCallback {R : Finset Ipv4Address} {flag : UInt16} {key : CxxString}
    {b : Ipv4Address} {tx : UInt32} (hb : b ∈ R) :
    ∀ act ∈ ChordNode.lookupCallback flag key b tx, act.AnswersIn R := by
  unfold ChordNode.lookupCallback
  split_ifs <;> simp [ChordAction.AnswersIn, hb]

theorem SearchNet.ConsultsIn.act {R : Finset Ipv4Address} {c : SearchNet} (h : c.ConsultsIn R)
    {sent : List SearchPacket} (hsent : ∀ p ∈ sent, p.msg.Consults → p.dst ∈ R)
    (a : Ipv4Address) (n : SearchNode) : SearchNet.ConsultsIn R (c.act a n sent) := by
  intro p hp
  rcases List.mem_append.mp hp with hp | hp
  · exact h p hp
  · exact hsent p hp

theorem consults_searchPackets {R : Finset Ipv4Address} {acts : List SearchAction}
    (hacts : ∀ act ∈ acts, act.ConsultsIn R) (a : Ipv4Address) :
    ∀ p ∈ searchPackets a acts, p.msg.Consults → p.dst ∈ R :=
  fun _ hp => hacts _ (mem_searchPackets.mp hp).2.2.2

namespace SearchNode

variable {n n' : SearchNode} {acts : List SearchAction} {R : Finset Ipv4Address}

theorem sendTo_consultsIn {m : PennSearchMessage} {dst : Ipv4Address} {act : SearchAction}
    (h : m.sendTo dst = .ok act) (hm : m.Consults → dst ∈ R) : act.ConsultsIn R := by
  unfold PennSearchMessage.sendTo at h
  split at h
  · rw [← Except.ok.inj h]
    exact hm
  · cases h

theorem consultsIn_of_sendTo {m : PennSearchMessage} {dst : Ipv4Address} {n₁ : SearchNode}
    (h : (do let act ← m.sendTo dst; return (n₁, [act]) : SearchResult) = .ok (n', acts))
    (hm : m.Consults → dst ∈ R) : ∀ act ∈ acts, act.ConsultsIn R := by
  obtain ⟨act, hact, h⟩ := bind_eq_ok.mp h
  obtain ⟨-, rfl⟩ := Prod.mk.inj (Except.ok.inj h)
  intro act' hact'
  rw [List.mem_singleton.mp hact']
  exact sendTo_consultsIn hact hm

theorem processSearchCommand_consultsIn {v : Ipv4Address} {keyList : List CxxString} (hv : v ∈ R)
    (h : n.processSearchCommand v keyList = .ok (n', acts)) : ∀ act ∈ acts, act.ConsultsIn R := by
  unfold processSearchCommand at h
  split at h
  · obtain ⟨-, rfl⟩ := Prod.mk.inj (Except.ok.inj h)
    simp
  · exact consultsIn_of_sendTo h fun _ => hv

theorem continueSearch_acts {m : PennSearchMessage} {w : Ipv4Address}
    {keyList docList : List CxxString}
    (h : n.continueSearch m w keyList docList = .ok (n', acts)) :
    ∀ act ∈ acts, act.ConsultsIn R := by
  have hcomplete : ∀ {kl dl : List CxxString},
      n.sendSearchComplete w kl dl m.transactionId = .ok (n', acts) →
        ∀ act ∈ acts, act.ConsultsIn R :=
    fun h => consultsIn_of_sendTo h fun hm => hm.elim
  unfold continueSearch at h
  split at h
  · exact hcomplete h
  · split at h
    · exact hcomplete h
    · obtain ⟨-, rfl⟩ := Prod.mk.inj (Except.ok.inj h)
      simp [SearchAction.ConsultsIn]

/-- A message that is received makes a node send nothing that consults an index, and look
a key up only if the message consults its own. -/
theorem recvMessage_consults {m : PennSearchMessage} {src : Ipv4Address} (a : Ipv4Address)
    (h : n.recvMessage m src = .ok (n', acts)) :
    (∀ act ∈ acts, act.ConsultsIn R) ∧ (lookupCalls a acts ≠ [] → m.Consults) := by
  obtain ⟨tx, payload⟩ := m
  cases payload with
  | searchInitial w keyList =>
      refine ⟨?_, fun _ => trivial⟩
      simp only [recvMessage, processSearchInitial] at h
      split at h
      · cases h
      · obtain ⟨-, rfl⟩ := Prod.mk.inj (Except.ok.inj h)
        simp [SearchAction.ConsultsIn]
  | searchBegin w keyList docList =>
      refine ⟨?_, fun _ => trivial⟩
      simp only [recvMessage, processSearchBegin] at h
      split at h
      · cases h
      · split at h
        · exact consultsIn_of_sendTo h fun hm => hm.elim
        · exact continueSearch_acts h
  | search w keyList docList =>
      refine ⟨?_, fun _ => trivial⟩
      simp only [recvMessage, processSearch] at h
      split at h
      · cases h
      · split at h
        · cases h
        · exact continueSearch_acts h
  | pingReq text =>
      obtain ⟨-, rfl⟩ := Prod.mk.inj (Except.ok.inj h)
      simp [SearchAction.ConsultsIn, PennSearchMessage.Consults, lookupCalls]
  | pingRsp text =>
      obtain ⟨-, rfl⟩ := Prod.mk.inj (Except.ok.inj h)
      simp [lookupCalls]
  | storeList key docVector =>
      simp only [recvMessage, processStoreList] at h
      split at h
      · cases h
      · obtain ⟨-, rfl⟩ := Prod.mk.inj (Except.ok.inj h)
        simp [lookupCalls]
  | searchComplete keyList docList =>
      simp only [recvMessage, processSearchComplete] at h
      split at h
      · cases h
      · obtain ⟨-, rfl⟩ := Prod.mk.inj (Except.ok.inj h)
        simp [SearchAction.ConsultsIn, lookupCalls]
  | passKeys key docVector =>
      obtain ⟨-, rfl⟩ := Prod.mk.inj (Except.ok.inj h)
      simp [lookupCalls]

variable [Sha1]

theorem handleChord_consultsIn {act : ChordAction} (hact : act.AnswersIn R)
    (h : n.handleChord act = .ok (n', acts)) : ∀ act' ∈ acts, act'.ConsultsIn R := by
  have hpass : ∀ {pass : CxxString → Prop} [DecidablePred pass] {dst : Ipv4Address},
      HandsOver pass dst n n' acts → ∀ act' ∈ acts, act'.ConsultsIn R := by
    intro pass _ dst ho act' hact'
    obtain ⟨tx, key, docVector, rfl, -⟩ := ho.sends act' hact'
    exact fun hm => hm.elim
  have hnone : (.ok (n, []) : SearchResult) = .ok (n', acts) →
      ∀ act' ∈ acts, act'.ConsultsIn R := by
    intro heq
    obtain ⟨-, rfl⟩ := Prod.mk.inj (Except.ok.inj heq)
    simp
  cases act with
  | chordJoinNotify predecessorAddress tx => exact hpass (passKeysJoin_handsOver h)
  | chordLeaveNotify successorAddress tx => exact hpass (passKeysLeave_handsOver h)
  | lookupPublishSuccess key b tx =>
      simp only [handleChord, sendInvertList] at h
      split at h
      · exact hnone h
      · exact consultsIn_of_sendTo h fun hm => hm.elim
  | searchInitialSuccess key b tx =>
      simp only [handleChord, sendSearchBegin] at h
      split at h
      · exact hnone h
      · exact consultsIn_of_sendTo h fun _ => hact
  | searchBeginSuccess key b tx =>
      simp only [handleChord, sendSearch] at h
      split at h
      · exact hnone h
      · exact consultsIn_of_sendTo h fun _ => hact
  | _ => exact hnone h

end SearchNode

/-! ## The refinement -/

def PennEvent.ofSearch (e : PennEvent) : Option PennEvent :=
  match e with
  | .publish _ _ _ | .search _ _ _ | .deliver _ => some e
  | .chord _ | .answer _ _ => none

namespace PennNet

variable [Sha1] {R : Finset Ipv4Address} {s s' t : PennNet} {a : Ipv4Address}

/-- The lookup service that the ring is: the lookup waits for its answer, and a caller on
whose own arc the key lies is called back at once as well. -/
def viaRing (s : PennNet) (l : LookupCall) : Except Fault PennNet :=
  { s with lookups := s.lookups ++ [l] }.callbacks l.node
    (((s.chord.node l.node).localAnswers l.lookupKey l.flag l.transactionId).flatMap fun b =>
      ChordNode.lookupCallback l.flag l.lookupKey b l.transactionId)

def resultCalls (a : Ipv4Address) : SearchResult → List LookupCall
  | .ok (_, acts) => lookupCalls a acts
  | .error _ => []

def calls (s : PennNet) : PennEvent → List LookupCall
  | .publish a filename lines =>
      resultCalls a ((s.search.node a).processPublishCommand filename lines)
  | .search a nodeAddr keyList =>
      resultCalls a ((s.search.node a).processSearchCommand nodeAddr keyList)
  | .deliver k =>
      match s.search.inFlight[k]? with
      | none => []
      | some p => resultCalls p.dst ((s.search.node p.dst).recvMessage p.msg p.src)
  | _ => []

/-- Members publish and are asked to search, nobody joins or leaves, and a lookup that
waits is answered with a node that is responsible for its key. -/
def OnRing (R : Finset Ipv4Address) (s : PennNet) : PennEvent → Prop
  | .chord e => e.KeepsRing R
  | .publish a _ _ => a ∈ R
  | .search _ nodeAddr _ => nodeAddr ∈ R
  | .deliver _ => True
  | .answer i addressResponsible =>
      ∀ l ∈ s.lookups[i]?, Responsible R addressResponsible l.lookupKey

instance (R : Finset Ipv4Address) (s : PennNet) (e : PennEvent) : Decidable (s.OnRing R e) :=
  match e with
  | .chord e => inferInstanceAs (Decidable (e.KeepsRing R))
  | .publish a _ _ => inferInstanceAs (Decidable (a ∈ R))
  | .search _ nodeAddr _ => inferInstanceAs (Decidable (nodeAddr ∈ R))
  | .deliver _ => .isTrue trivial
  | .answer _ _ => inferInstanceAs (Decidable (∀ l ∈ (_ : Option LookupCall), _))

/-- No lookup is called for a key on the arc of its caller. -/
def AsksOthers (s : PennNet) (e : PennEvent) : Prop :=
  ∀ l ∈ s.calls e, ¬ (s.chord.node l.node).inOwnArc (keyPos l.lookupKey)

instance (s : PennNet) (e : PennEvent) : Decidable (s.AsksOthers e) :=
  inferInstanceAs (Decidable (∀ l ∈ s.calls e, _))

/-- The system `s` and the service `t` are at the same point: the lookups that wait in `t`
are those whose packets are under way in `s`. -/
structure Refines (R : Finset Ipv4Address) (s t : PennNet) : Prop where
  chord : t.chord = s.chord.withoutLookups
  search : t.search = s.search
  lookups : t.lookups.Perm s.chord.pending
  serving : PennSearch.Serving R s.chord
  idle : s.lookups = []
  consults : s.search.ConsultsIn R

/-! ### Callbacks -/

theorem callbacks_append (s : PennNet) (a : Ipv4Address) (acts acts' : List ChordAction) :
    s.callbacks a (acts ++ acts') = s.callbacks a acts >>= fun s => s.callbacks a acts' :=
  List.foldlM_append

theorem callbacks_sendTo (s : PennNet) (a dst : Ipv4Address) (m : PennChordMessage) :
    s.callbacks a [.sendTo dst m] = .ok s := by
  simp [callbacks, callback, SearchNode.handleChord, searchPackets, bind, Except.bind, pure,
    Except.pure]

theorem callbacks_congr {acts : List ChordAction} (h : s.callbacks a acts = .ok s') :
    s' = { s with search := s'.search } ∧
      ∀ t : PennNet, t.search = s.search → t.callbacks a acts = .ok { t with search := s'.search }
      := by
  induction acts generalizing s with
  | nil =>
      obtain rfl := Except.ok.inj h
      exact ⟨rfl, fun t ht => congrArg Except.ok (by rw [← ht])⟩
  | cons act acts ih =>
      obtain ⟨s₁, h₁, hrest⟩ := bind_eq_ok.mp (List.foldlM_cons.symm.trans h)
      obtain ⟨⟨n, out⟩, hresult, hs₁⟩ := bind_eq_ok.mp h₁
      obtain rfl := Except.ok.inj hs₁
      obtain ⟨hsame, hcongr⟩ := ih hrest
      refine ⟨hsame, fun t ht => ?_⟩
      refine List.foldlM_cons.trans (bind_eq_ok.mpr
        ⟨{ t with search := s.search.act a n (searchPackets a out) }, ?_, hcongr _ rfl⟩)
      refine bind_eq_ok.mpr ⟨(n, out), ht ▸ hresult, ?_⟩
      rw [ht]
      rfl

theorem callbacks_consultsIn {acts : List ChordAction} (hs : s.search.ConsultsIn R)
    (hacts : ∀ act ∈ acts, act.AnswersIn R) (h : s.callbacks a acts = .ok s') :
    s'.search.ConsultsIn R := by
  induction acts generalizing s with
  | nil =>
      obtain rfl := Except.ok.inj h
      exact hs
  | cons act acts ih =>
      obtain ⟨hact, hacts⟩ := List.forall_mem_cons.mp hacts
      obtain ⟨s₁, h₁, hrest⟩ := bind_eq_ok.mp (List.foldlM_cons.symm.trans h)
      obtain ⟨⟨n, out⟩, hresult, hs₁⟩ := bind_eq_ok.mp h₁
      obtain rfl := Except.ok.inj hs₁
      have hsent := consults_searchPackets (SearchNode.handleChord_consultsIn hact hresult) a
      exact ih (hs.act hsent a n) hacts hrest

namespace Refines

variable {lookup : PennNet → LookupCall → Except Fault PennNet} {calls : List LookupCall}

theorem node (h : Refines R s t) : t.chord.node = s.chord.node := by
  rw [h.chord]
  rfl

/-! ### Calls of the search layer -/

theorem call (h : Refines R s t) (hinj : Set.InjOn nodePos (R : Set Ipv4Address)) {l : LookupCall}
    (hl : l.node ∈ R) (hstep : s.viaChord l = .ok s') :
    s'.chord.node = s.chord.node ∧ ∃ t', t.viaRing l = .ok t' ∧ Refines R s' t' := by
  obtain ⟨⟨c, acts⟩, hchord, hback⟩ := bind_eq_ok.mp hstep
  obtain ⟨hwithout, hpending, hanswers, hop, m, hacts⟩ := h.serving.call hl hchord
  dsimp only at hback
  rw [hacts, callbacks_append] at hback
  obtain ⟨s₁, hown, hsend⟩ := bind_eq_ok.mp hback
  rw [callbacks_sendTo] at hsend
  obtain rfl := Except.ok.inj hsend
  obtain ⟨hsame, hcongr⟩ := callbacks_congr hown
  have hchord' : s₁.chord = c := congrArg PennNet.chord hsame
  refine ⟨?_, { t with search := s₁.search, lookups := t.lookups ++ [l] }, ?_, ?_⟩
  · rw [hchord', ← ChordNet.withoutLookups_node, hwithout]
    rfl
  · unfold viaRing
    rw [h.node]
    exact hcongr { t with lookups := t.lookups ++ [l] } h.search
  · refine ⟨?_, rfl, ?_, ?_, ?_, ?_⟩
    · rw [hchord', hwithout]
      exact h.chord
    · rw [hchord', hpending]
      exact h.lookups.append_right [l]
    · rw [hchord']
      exact h.serving.step hinj
        (e := .lookupPublish l.node l.lookupKey l.flag l.transactionId) hl hchord
    · rw [congrArg PennNet.lookups hsame]
      exact h.idle
    · refine callbacks_consultsIn (s := { s with chord := c }) h.consults (fun act hact => ?_) hown
      obtain ⟨b, hb, hact⟩ := List.mem_flatMap.mp hact
      exact answersIn_lookupCallback (hanswers b hb).mem act hact

theorem foldlM_calls (h : Refines R s t) (hinj : Set.InjOn nodePos (R : Set Ipv4Address))
    (hcalls : ∀ l ∈ calls, l.node ∈ R)
    (hvia : ∀ l ∈ calls, ∀ u : PennNet, u.chord.node = s.chord.node → lookup u l = u.viaRing l)
    (hstep : calls.foldlM viaChord s = .ok s') :
    ∃ t', calls.foldlM lookup t = .ok t' ∧ Refines R s' t' := by
  induction calls generalizing s t with
  | nil =>
      obtain rfl := Except.ok.inj hstep
      exact ⟨t, rfl, h⟩
  | cons l calls ih =>
      obtain ⟨hl, hcalls⟩ := List.forall_mem_cons.mp hcalls
      obtain ⟨hvial, hvia⟩ := List.forall_mem_cons.mp hvia
      rw [List.foldlM_cons] at hstep
      obtain ⟨s₁, hcall, hrest⟩ := bind_eq_ok.mp hstep
      obtain ⟨hnode, t₁, hcall', h₁⟩ := h.call hinj hl hcall
      obtain ⟨t', hrest', h'⟩ := ih h₁ hcalls (fun l hl u hu => hvia l hl u (hu.trans hnode)) hrest
      refine ⟨t', ?_, h'⟩
      rw [List.foldlM_cons, hvial t h.node, hcall']
      exact hrest'

theorem searchTurn (h : Refines R s t) (hinj : Set.InjOn nodePos (R : Set Ipv4Address))
    {result : SearchResult} (hcalls : resultCalls a result ≠ [] → a ∈ R)
    (hsent : ∀ n acts, result = .ok (n, acts) →
      ∀ p ∈ searchPackets a acts, p.msg.Consults → p.dst ∈ R)
    (hvia : ∀ l ∈ resultCalls a result, ∀ u : PennNet, u.chord.node = s.chord.node →
      lookup u l = u.viaRing l)
    (hstep : s.searchTurn viaChord a result = .ok s') :
    ∃ t', t.searchTurn lookup a result = .ok t' ∧ Refines R s' t' := by
  obtain ⟨⟨n, acts⟩, rfl, hfold⟩ := bind_eq_ok.mp hstep
  have h₁ : Refines R { s with search := s.search.act a n (searchPackets a acts) }
      { t with search := t.search.act a n (searchPackets a acts) } :=
    ⟨h.chord, congrArg (fun c => Net.act c a n (searchPackets a acts)) h.search, h.lookups,
      h.serving, h.idle, h.consults.act (hsent n acts rfl) a n⟩
  refine h₁.foldlM_calls hinj (fun l hl => ?_) hvia hfold
  have hmem : a ∈ R := hcalls (List.ne_nil_of_mem hl)
  obtain ⟨act, -, hact⟩ := List.mem_filterMap.mp hl
  cases act with
  | lookupPublish key flag tx =>
      rw [← Option.some.inj hact]
      exact hmem
  | _ => cases hact

/-! ### Events of the Chord layer -/

theorem step_chord_eq {e : ChordEvent} (he : e.isLookup = false) (s : PennNet) :
    s.step lookup (.chord e) = s.chordStep e := by
  cases e with
  | lookupPublish a key flag tx => cases he
  | _ => rfl

theorem exists_position {l : LookupCall} {pending : List LookupCall} (h : Refines R s t)
    (hpending : s.chord.pending.Perm (l :: pending)) :
    ∃ i, t.lookups[i]? = some l ∧ (t.lookups.eraseIdx i).Perm pending := by
  have hperm := h.lookups.trans hpending
  obtain ⟨i, hi⟩ := List.mem_iff_getElem?.mp (hperm.symm.subset List.mem_cons_self)
  refine ⟨i, hi, ?_⟩
  have hcons := coe_eq_cons_eraseIdx hi
  rw [Multiset.coe_eq_coe.mpr hperm, ← Multiset.cons_coe, Multiset.cons_inj_right] at hcons
  exact (Multiset.coe_eq_coe.mp hcons).symm

variable (lookup) in
/-- A step of another protocol is taken by the service too. -/
theorem chordStep_other (h : Refines R s t) (hinj : Set.InjOn nodePos (R : Set Ipv4Address))
    {e : ChordEvent} (he : e.KeepsRing R) (hkind : s.chord.eventKind e ≠ some .lookups)
    (hstep : s.chordStep e = .ok s') :
    ∃ t', t.step lookup (.chord (s.chord.shifted e)) = .ok t' ∧ Refines R s' t' := by
  obtain ⟨⟨c, acts⟩, hchord, hback⟩ := bind_eq_ok.mp hstep
  obtain ⟨hwithout, hpending, hacts⟩ := ChordNet.stepActions_withoutLookups hkind hchord
  obtain ⟨hsame, hcongr⟩ := callbacks_congr hback
  have hchord' : s'.chord = c := congrArg PennNet.chord hsame
  have hlookup : (s.chord.shifted e).isLookup = false := by
    cases e with
    | lookupPublish a key flag tx => exact absurd rfl hkind
    | _ => rfl
  refine ⟨{ t with chord := c.withoutLookups, search := s'.search }, ?_, ?_⟩
  · rw [step_chord_eq hlookup]
    refine bind_eq_ok.mpr ⟨(c.withoutLookups, acts), h.chord ▸ hwithout, ?_⟩
    have hactor : acts ≠ [] → t.chord.actor (s.chord.shifted e) = s.chord.actor e := by
      intro hne
      rcases ChordNet.stepActions_cases hchord with ⟨-, -, rfl⟩ | ⟨c₀, a, n, hturn, -⟩
      · exact absurd rfl hne
      · have hturn' := ChordNet.turn_withoutLookups hkind
        rw [hturn] at hturn'
        rw [h.chord, ChordNet.turn_actor hturn, ChordNet.turn_actor hturn']
    cases acts with
    | nil =>
        have hs : ({ s with chord := c } : PennNet) = s' := Except.ok.inj hback
        rw [← hs, ← h.search]
        rfl
    | cons act acts =>
        dsimp only
        rw [hactor (List.cons_ne_nil act acts)]
        exact hcongr { t with chord := c.withoutLookups } h.search
  · refine ⟨by rw [hchord'], rfl, ?_, ?_, ?_, ?_⟩
    · rw [hchord', hpending]
      exact h.lookups
    · rw [hchord']
      exact h.serving.step hinj he hchord
    · rw [congrArg PennNet.lookups hsame]
      exact h.idle
    · refine callbacks_consultsIn (s := { s with chord := c }) h.consults (fun act hact => ?_) hback
      have hno := hacts act hact
      cases act <;> trivial

variable (lookup) in
/-- A packet of a lookup is relayed unseen, or brings the answer. -/
theorem chordStep_lookup (h : Refines R s t) (hinj : Set.InjOn nodePos (R : Set Ipv4Address))
    {k : ℕ} (hkind : s.chord.eventKind (.deliver k) = some .lookups)
    (hstep : s.chordStep (.deliver k) = .ok s') :
    Refines R s' t ∨ ∃ i b t', OnRing R t (.answer i b) ∧
      t.step lookup (.answer i b) = .ok t' ∧ Refines R s' t' := by
  obtain ⟨⟨c, acts⟩, hchord, hback⟩ := bind_eq_ok.mp hstep
  obtain ⟨p, hk, hp⟩ := Option.map_eq_some_iff.mp hkind
  have hserving := h.serving.step hinj (e := .deliver k) trivial hchord
  obtain ⟨hsame, hcongr⟩ := callbacks_congr hback
  have hchord' : s'.chord = c := congrArg PennNet.chord hsame
  have hactor : s.chord.actor (.deliver k) = p.dst := by simp [ChordNet.actor, hk]
  have hidle : s'.lookups = [] := (congrArg PennNet.lookups hsame).trans h.idle
  cases hpayload : p.msg.payload with
  | lookupPublish flag initiator digest key =>
      obtain ⟨hwithout, hpending, dst, m, rfl⟩ := h.serving.deliver_request hk hpayload hchord
      dsimp only at hback
      rw [callbacks_sendTo] at hback
      have hsearch : s'.search = s.search := by rw [← Except.ok.inj hback]
      refine Or.inl ⟨?_, h.search.trans hsearch.symm, ?_, hchord' ▸ hserving, hidle,
        hsearch ▸ h.consults⟩
      · rw [hchord', hwithout]
        exact h.chord
      · rw [hchord']
        exact h.lookups.trans hpending.symm
  | lookupPublishSuccess flag key b =>
      obtain ⟨hwithout, hpending, rfl, hresponsible⟩ :=
        h.serving.deliver_answer hk hpayload hchord
      obtain ⟨i, hi, hperm⟩ := h.exists_position hpending
      dsimp only at hback hcongr
      rw [hactor] at hback hcongr
      refine Or.inr ⟨i, b, { t with
        search := s'.search, lookups := t.lookups.eraseIdx i }, ?_, ?_, ?_⟩
      · intro l hl
        rw [hi] at hl
        rw [← Option.mem_some_iff.mp hl]
        exact hresponsible
      · simp only [PennNet.step, hi]
        exact hcongr { t with lookups := t.lookups.eraseIdx i } h.search
      · refine ⟨?_, rfl, ?_, hchord' ▸ hserving, hidle, ?_⟩
        · rw [hchord', hwithout]
          exact h.chord
        · rw [hchord']
          exact hperm
        · exact callbacks_consultsIn (s := { s with chord := c }) h.consults
            (answersIn_lookupCallback hresponsible.mem) hback
  | _ => simp [hpayload, ChordPayload.kind] at hp

/-! ### Runs -/

/-- Every step of the system is matched by the service, whichever way it takes the calls of
the step as long as that is the way of `viaRing`. -/
theorem step (h : Refines R s t) (hinj : Set.InjOn nodePos (R : Set Ipv4Address)) {e : PennEvent}
    (he : s.OnRing R e) (hvia : ∀ l ∈ s.calls e, ∀ u : PennNet, u.chord.node = s.chord.node →
      lookup u l = u.viaRing l)
    (hstep : s.step viaChord e = .ok s') :
    ∃ fs t', Run (PennNet.step lookup) (OnRing R) t fs t' ∧
      fs.filterMap PennEvent.ofSearch = [e].filterMap PennEvent.ofSearch ∧ Refines R s' t' := by
  have hone : ∀ {t'}, OnRing R t e → e.ofSearch = some e → t.step lookup e = .ok t' →
      Refines R s' t' → ∃ fs t', Run (PennNet.step lookup) (OnRing R) t fs t' ∧
        fs.filterMap PennEvent.ofSearch = [e].filterMap PennEvent.ofSearch ∧ Refines R s' t' :=
    fun hon _ hok h' => ⟨[e], _, Run.single hon hok, rfl, h'⟩
  cases e with
  | publish w filename lines =>
      obtain ⟨t', hturn, h'⟩ := h.searchTurn hinj (fun _ => he) (fun n acts hresult p hp => by
        rw [(processPublishCommand_acts w hresult).1] at hp
        cases hp) hvia hstep
      exact hone he rfl (by simpa only [PennNet.step, h.search] using hturn) h'
  | search w v keyList =>
      have hnone : resultCalls w ((s.search.node w).processSearchCommand v keyList) = [] := by
        unfold SearchNode.processSearchCommand PennSearchMessage.sendTo
        split_ifs <;> rfl
      obtain ⟨t', hturn, h'⟩ := h.searchTurn hinj (fun hne => absurd hnone hne)
        (fun n acts hresult => consults_searchPackets
          (SearchNode.processSearchCommand_consultsIn he hresult) w) hvia hstep
      exact hone he rfl (by simpa only [PennNet.step, h.search] using hturn) h'
  | deliver k =>
      cases hk : s.search.inFlight[k]? with
      | none =>
          simp only [PennNet.step, hk] at hstep
          obtain rfl := Except.ok.inj hstep
          exact hone he rfl (by simp only [PennNet.step, h.search, hk]) h
      | some p =>
          simp only [PennNet.step, hk] at hstep
          simp only [PennNet.calls, hk] at hvia
          have h₁ : Refines R { s with search := s.search.take k }
              { t with search := s.search.take k } :=
            ⟨h.chord, rfl, h.lookups, h.serving, h.idle,
              fun q hq => h.consults q (List.mem_of_mem_eraseIdx hq)⟩
          have hmember : resultCalls p.dst
              ((s.search.node p.dst).recvMessage p.msg p.src) ≠ [] → p.dst ∈ R := by
            intro hne
            cases hresult : (s.search.node p.dst).recvMessage p.msg p.src with
            | error f =>
                rw [hresult] at hne
                exact absurd rfl hne
            | ok r =>
                rw [hresult] at hne
                exact h.consults p (mem_of_getElem? hk)
                  ((SearchNode.recvMessage_consults (R := R) p.dst hresult).2 hne)
          obtain ⟨t', hturn, h'⟩ := h₁.searchTurn hinj hmember
            (fun n acts hresult => consults_searchPackets
              (SearchNode.recvMessage_consults p.dst hresult).1 p.dst) hvia hstep
          exact hone he rfl (by simpa only [PennNet.step, h.search, hk] using hturn) h'
  | answer i b =>
      simp only [PennNet.step, h.idle, List.getElem?_nil] at hstep
      obtain rfl := Except.ok.inj hstep
      exact ⟨[], t, .nil, rfl, h⟩
  | chord e =>
      by_cases hlookup : e.isLookup = true
      · -- the system is not asked for a lookup by an event
        cases e with
        | lookupPublish w key flag tx =>
            obtain rfl := Except.ok.inj hstep
            exact ⟨[], t, .nil, rfl, h⟩
        | _ => cases hlookup
      · rw [step_chord_eq (Bool.eq_false_of_not_eq_true hlookup)] at hstep
        by_cases hkind : s.chord.eventKind e = some .lookups
        · cases e with
          | deliver k =>
              rcases h.chordStep_lookup lookup hinj hkind hstep with
                h' | ⟨i, b, t', hon, hok, h'⟩
              · exact ⟨[], t, .nil, rfl, h'⟩
              · exact ⟨[.answer i b], t', Run.single hon hok, rfl, h'⟩
          | lookupPublish w key flag tx => exact absurd rfl hlookup
          | _ => cases hkind
        · obtain ⟨t', hok, h'⟩ := h.chordStep_other lookup hinj he hkind hstep
          exact ⟨[.chord (s.chord.shifted e)], t',
            Run.single (ChordNet.shifted_keepsRing he) hok, rfl, h'⟩

theorem start (hstable : StableNet s.chord R) (hfingers : FingersWithin s.chord.node R)
    (hidle : s.lookups = []) (hconsults : s.search.ConsultsIn R) : Refines R s s where
  chord := by
    have hnone : s.chord.inFlight.filter (fun p => !p.msg.payload.isLookup) = s.chord.inFlight := by
      rw [hstable.inFlight]
      rfl
    simp only [ChordNet.withoutLookups, hnone]
  search := rfl
  lookups := by simp [ChordNet.pending, hstable.inFlight, hidle]
  serving := .start hstable hfingers
  idle := hidle
  consults := hconsults

end Refines

theorem viaRing_eq_viaService {l : LookupCall}
    (hl : ¬ (s.chord.node l.node).inOwnArc (keyPos l.lookupKey)) :
    s.viaRing l = s.viaService l := by
  have hnone : (s.chord.node l.node).localAnswers l.lookupKey l.flag l.transactionId = [] := by
    unfold ChordNode.localAnswers
    cases hsteps : (s.chord.node l.node).lookupPublishSteps l.lookupKey l.flag l.transactionId with
    | error f => rfl
    | ok steps =>
        obtain ⟨answers, hop, -, rfl, -, hown⟩ := ChordNode.lookupPublishSteps_spec hsteps
        obtain rfl : answers = [] := not_not.mp (mt hown.mp hl)
        rfl
  rw [viaRing, hnone]
  rfl

/-- What a run of the system from `s` to `s'` shows of a lookup service: the service has a
run with the same commands and the same deliveries of the search layer. It ends with the
same search layer, the same Chord layer but for the lookups, and those that are under way
wait in it. -/
def Shows (lookup : PennNet → LookupCall → Except Fault PennNet) (R : Finset Ipv4Address)
    (s : PennNet) (es : List PennEvent) (s' : PennNet) : Prop :=
  ∃ fs t, Run (PennNet.step lookup) (OnRing R) s fs t ∧
    fs.filterMap PennEvent.ofSearch = es.filterMap PennEvent.ofSearch ∧
    t.search = s'.search ∧ t.chord = s'.chord.withoutLookups ∧ t.lookups.Perm s'.chord.pending

end PennNet

/-- The Chord layer implements the lookup service. Start with a stable ring whose fingers
are members, and let members publish and be asked to search at any time, while the timers
run and messages are delivered in any order. Every such run of the whole system is, for the
search layer, a run of `viaRing`: each lookup waits until it is answered once, with a node
that the ring makes responsible for its key, and the caller is called back at once as well
exactly when the key lies on its own arc. When no lookup is called for such a key it is a
run of `viaService`. -/
theorem ring_serves_lookups [Sha1] {R : Finset Ipv4Address} {s s' : PennNet} {es : List PennEvent}
    (hinj : Set.InjOn nodePos (R : Set Ipv4Address)) (hstable : StableNet s.chord R)
    (hfingers : FingersWithin s.chord.node R) (hidle : s.lookups = [])
    (hconsults : s.search.ConsultsIn R) :
    (Run (PennNet.step PennNet.viaChord) (PennNet.OnRing R) s es s' →
      PennNet.Shows PennNet.viaRing R s es s') ∧
    (Run (PennNet.step PennNet.viaChord) (fun s e => s.OnRing R e ∧ s.AsksOthers e) s es s' →
      PennNet.Shows PennNet.viaService R s es s') := by
  have hstart := PennNet.Refines.start hstable hfingers hidle hconsults
  have hshows : ∀ {lookup : PennNet → LookupCall → Except Fault PennNet},
      (∃ fs t, Run (PennNet.step lookup) (PennNet.OnRing R) s fs t ∧
        fs.filterMap PennEvent.ofSearch = es.filterMap PennEvent.ofSearch ∧
          PennNet.Refines R s' t) → PennNet.Shows lookup R s es s' := by
    rintro lookup ⟨fs, t, hrun, hvisible, h⟩
    exact ⟨fs, t, hrun, hvisible, h.search, h.chord, h.lookups⟩
  constructor
  · intro hrun
    refine hshows (hrun.simulate hstart fun u e u' t h he hstep => ?_)
    exact h.step hinj he (fun _ _ _ _ => rfl) hstep
  · intro hrun
    refine hshows (hrun.simulate hstart fun u e u' t h he hstep => ?_)
    refine h.step hinj he.1 (fun l hl v hv => ?_) hstep
    exact (PennNet.viaRing_eq_viaService (by rw [hv]; exact he.2 l hl)).symm

end PennSearch

namespace PennSearch

open MessagePassing

attribute [local instance] sampleSha1

/-- B has A search for `T5` while A stabilizes: A looks the key up, B answers that A is
responsible, and A consults itself. -/
def sampleAsked : List PennEvent :=
  [.search sampleB sampleA [[84, 53]], .deliver 0, .chord (.stabilize sampleA),
    .chord (.deliver 0), .chord (.deliver 1), .deliver 0, .deliver 0]

theorem ring_serves_lookups_sample :
    ∃ s', Run (PennNet.step PennNet.viaChord)
        (fun s e => s.OnRing {sampleA, sampleB} e ∧ s.AsksOthers e) samplePostings sampleAsked s' ∧
      PennNet.Shows PennNet.viaService {sampleA, sampleB} samplePostings sampleAsked s' := by
  have hexec : (execute (PennNet.step PennNet.viaChord)
      (fun s e => s.OnRing {sampleA, sampleB} e ∧ s.AsksOthers e) samplePostings
        sampleAsked).isSome := by decide +kernel
  obtain ⟨s', hs'⟩ := Option.isSome_iff_exists.mp hexec
  have hrun := Run.of_execute hs'
  exact ⟨s', hrun, (ring_serves_lookups samplePair_injOn samplePair_stable samplePair_fingers rfl
    (fun p hp => absurd hp List.not_mem_nil)).2 hrun⟩

end PennSearch
