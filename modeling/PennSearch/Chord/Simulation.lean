import PennSearch.Chord.Protocol
import PennSearch.Chord.Routing

/-!
# The Chord network simulates the pointer protocol

`ChordNet.view` forgets everything but the pointers and the pointer packets.
Each handler of a pointer message is one case of `Reacts` on the view, the other
handlers do not touch the pointers, and so every step of the network is a step
of the protocol (`ChordNet.step_view`), at the event `ChordNet.ringEvent`.
-/

namespace PennSearch

open Clockwise MessagePassing

def ChordNode.pointers (n : ChordNode) : Pointers :=
  ⟨n.chordStatus, n.successorAddr, n.predecessorAddr⟩

def ringMessage : ChordPayload → Option RingMessage
  | .joinChord => some .joinChord
  | .findSuccessor destAddress targetDigest => some (.findSuccessor destAddress targetDigest)
  | .joinChordSuccess successorAddress => some (.joinChordSuccess successorAddress)
  | .notify => some .notify
  | .stabilizeReq => some .stabilizeReq
  | .stabilizeResp predecessorAddress => some (.stabilizeResp predecessorAddress)
  | .leaveSuccessor predecessorAddress => some (.leaveSuccessor predecessorAddress)
  | .leavePredecessor successorAddress => some (.leavePredecessor successorAddress)
  | _ => none

def ringPacket (p : ChordPacket) : Option RingPacket :=
  (ringMessage p.msg.payload).map fun m => ⟨p.src, p.dst, m⟩

def ringAction : ChordAction → Option RingAction
  | .sendTo dst message => (ringMessage message.payload).map (.send dst)
  | .chordJoinNotify predecessorAddress _ => some (.joinNotify predecessorAddress)
  | .chordLeaveNotify successorAddress _ => some (.leaveNotify successorAddress)
  | _ => none

/-- The pointer messages, and the refusal of a join. -/
def plainMessage : ChordPayload → Bool
  | .joinChordFail => true
  | payload => (ringMessage payload).isSome

def plainAction : ChordAction → Bool
  | .sendTo _ message => plainMessage message.payload
  | .chordJoinNotify _ _ => true
  | .chordLeaveNotify _ _ => true
  | _ => false

def ChordNet.view (c : ChordNet) : RingNet where
  node a := (c.node a).pointers
  inFlight := c.inFlight.filterMap ringPacket

def ChordNet.ringEvent (c : ChordNet) : ChordEvent → RingEvent
  | .join a nodeAddr => .join a nodeAddr
  | .leave a => .leave a
  | .stabilize a => .stabilize a
  | .deliver k =>
      match c.inFlight[k]? with
      | none => .quiet
      | some p =>
          if (ringPacket p).isSome then
            .deliver ((c.inFlight.take k).filterMap ringPacket).length
          else .quiet
  | _ => .quiet

theorem filterMap_sentPackets (a : Ipv4Address) (acts : List ChordAction) :
    (sentPackets a acts).filterMap ringPacket = ringSends a (acts.filterMap ringAction) := by
  simp only [sentPackets, ringSends, List.filterMap_filterMap]
  congr 1
  funext act
  cases act with
  | sendTo dst message =>
      cases hm : ringMessage message.payload <;> by_cases hdst : dst = .getAny <;>
        simp [ringAction, ringPacket, hm, hdst]
  | _ => rfl

namespace ChordNet

variable {c : ChordNet}

theorem view_act (c : ChordNet) (a : Ipv4Address) (n : ChordNode) (acts : List ChordAction) :
    view (c.act a n (sentPackets a acts)) =
      c.view.act a n.pointers (ringSends a (acts.filterMap ringAction)) := by
  have hnode : (fun b => (Function.update c.node a n b).pointers) =
      Function.update (fun b => (c.node b).pointers) a n.pointers := by
    funext b
    by_cases hb : b = a
    · subst hb
      simp
    · simp [hb]
  simp only [view, Net.act, hnode, List.filterMap_append, filterMap_sentPackets]

theorem view_inFlight_nil (h : c.inFlight = []) : c.view.inFlight = [] := by simp [view, h]

theorem mem_view {p : ChordPacket} {m : RingMessage} (hp : p ∈ c.inFlight)
    (hm : ringMessage p.msg.payload = some m) : ⟨p.src, p.dst, m⟩ ∈ c.view.inFlight :=
  List.mem_filterMap.mpr ⟨p, hp, by simp [ringPacket, hm]⟩

/-- A pointer packet is at the place in the view that the pointer packets before
it leave. -/
theorem view_deliver {k : ℕ} {p : ChordPacket} {q : RingPacket} (hp : c.inFlight[k]? = some p)
    (hq : ringPacket p = some q) :
    c.view.inFlight[((c.inFlight.take k).filterMap ringPacket).length]? = some q ∧
      view (c.take k) = c.view.take ((c.inFlight.take k).filterMap ringPacket).length := by
  obtain ⟨pre, post, hsplit, htake, herase⟩ := exists_split hp
  rw [htake]
  have hview : c.view.inFlight =
      pre.filterMap ringPacket ++ q :: post.filterMap ringPacket := by
    simp [view, hsplit, hq]
  refine ⟨by simp [hview], ?_⟩
  have hleft : (view (c.take k)).inFlight = (pre ++ post).filterMap ringPacket := by
    simp [view, herase]
  have hright : (c.view.take (pre.filterMap ringPacket).length).inFlight =
      (pre ++ post).filterMap ringPacket := by
    simp [hview, List.eraseIdx_append_of_length_le]
  exact congrArg₂ Net.mk rfl (hleft.trans hright.symm)

theorem ringEvent_deliver_cases (c : ChordNet) (k : ℕ) : c.ringEvent (.deliver k) = .quiet ∨
    ∃ p q j, c.inFlight[k]? = some p ∧ ringPacket p = some q ∧
      c.ringEvent (.deliver k) = .deliver j ∧ c.view.inFlight[j]? = some q := by
  simp only [ringEvent]
  split
  · exact Or.inl rfl
  · rename_i p hp
    split
    · rename_i hsome
      obtain ⟨q, hq⟩ := Option.isSome_iff_exists.mp hsome
      exact Or.inr ⟨p, q, _, hp, hq, rfl, (view_deliver hp hq).1⟩
    · exact Or.inl rfl

theorem view_deliver_quiet {k : ℕ} {p : ChordPacket} (hp : c.inFlight[k]? = some p)
    (hq : ringPacket p = none) : view (c.take k) = c.view := by
  obtain ⟨pre, post, hsplit, -, herase⟩ := exists_split hp
  have hleft : (view (c.take k)).inFlight = (pre ++ post).filterMap ringPacket := by
    simp [view, herase]
  have hright : c.view.inFlight = (pre ++ post).filterMap ringPacket := by
    simp [view, hsplit, hq]
  exact congrArg₂ Net.mk rfl (hleft.trans hright.symm)

theorem view_isOldest {k : ℕ} {p : ChordPacket} {q : RingPacket} (hp : c.inFlight[k]? = some p)
    (hq : ringPacket p = some q) (h : IsOldest c.inFlight k) :
    IsOldest c.view.inFlight ((c.inFlight.take k).filterMap ringPacket).length := by
  obtain ⟨hview, -⟩ := view_deliver hp hq
  obtain ⟨pre, post, hsplit, htake, -⟩ := exists_split hp
  intro q' hq' r hr
  rw [hview] at hq'
  obtain rfl := Option.mem_some_iff.mp hq'
  have hr' : r ∈ pre.filterMap ringPacket := by
    rw [htake] at hr
    simpa [view, hsplit] using hr
  obtain ⟨r', hr'pre, hr'eq⟩ := List.mem_filterMap.mp hr'
  have hold := h p (by simp [hp]) r' (htake ▸ hr'pre)
  obtain ⟨m, -, rfl⟩ := Option.map_eq_some_iff.mp hr'eq
  obtain ⟨m', -, rfl⟩ := Option.map_eq_some_iff.mp hq
  exact hold

end ChordNet

variable [Sha1]

def joinTarget (src : Ipv4Address) : ChordPayload → Option Digest
  | .joinChord => some (sha1 src)
  | .findSuccessor _ targetDigest => some targetDigest
  | _ => none

namespace ChordNode

variable {n n' : ChordNode} {message : PennChordMessage} {src : Ipv4Address}
  {acts : List ChordAction} {F : Ipv4Address → Prop}

/-- The next hop of a node towards `target` is its successor, or satisfies `F`. -/
def HopIn (n : ChordNode) (F : Ipv4Address → Prop) (target : Digest) : Prop :=
  ∀ hop, n.findNextHop target = .ok hop → hop = n.successorAddr ∨ F hop

def FingersIn (n : ChordNode) (F : Ipv4Address → Prop) : Prop :=
  ∀ (i : UInt16) (finger : Ipv4Address), n.fingerTable[i]? = some finger → F finger

theorem FingersIn.hopIn (hF : n.FingersIn F) (target : Digest) : n.HopIn F target := by
  intro hop h
  rcases findNextHop_spec h with rfl | ⟨⟨i, hi⟩, -⟩
  · exact Or.inl rfl
  · exact Or.inr (hF i hop hi)

theorem findSuccessor_cases {dest : Ipv4Address} {digest : Digest} (hF : n.HopIn F digest)
    (h : n.findSuccessor message dest digest = .ok (n', acts)) :
    n' = n ∧
      ((n.inOwnArc digest.pos ∧ acts = [replyFindSuccessor message dest n.successorAddr]) ∨
        (¬ n.inOwnArc digest.pos ∧ ∃ hop, (hop = n.successorAddr ∨ F hop) ∧
          acts = [.sendTo hop ⟨message.transactionId, .findSuccessor dest digest⟩])) := by
  obtain ⟨hn, hans | ⟨hown, hop, hhop, hacts⟩⟩ := recvMessage_target_cases
    ⟨message.transactionId, .findSuccessor dest digest⟩ .getAny rfl h
  · exact ⟨hn, Or.inl hans⟩
  · exact ⟨hn, Or.inr ⟨hown, hop, hF hop hhop, hacts⟩⟩

/-- A handler of the pointer message `m` is a case of `Reacts`, changes neither
the address nor the fingers, and performs nothing else. -/
structure Simulates (F : Ipv4Address → Prop) (n : ChordNode) (src : Ipv4Address)
    (m : RingMessage) (r : ChordNode × List ChordAction) : Prop where
  localAddress : r.1.localAddress = n.localAddress
  fingerTable : r.1.fingerTable = n.fingerTable
  reacts : Reacts F n.localAddress n.pointers src m r.1.pointers (r.2.filterMap ringAction)
  actions : r.2.all plainAction = true

theorem simulates_processJoinChord (hF : n.HopIn F (sha1 src))
    (h : n.processJoinChord message src = .ok (n', acts)) :
    Simulates F n src .joinChord (n', acts) := by
  unfold processJoinChord at h
  split at h
  · rename_i hout
    cases h
    exact ⟨rfl, rfl, .joinRefused hout, rfl⟩
  · rename_i hmem
    have hmem' : n.chordStatus = true := by simpa using hmem
    split at h
    · rename_i halone
      cases h
      exact ⟨rfl, rfl, .joinSplit hmem' halone.symm, rfl⟩
    · rename_i hseveral
      obtain ⟨rfl, ⟨hown, rfl⟩ | ⟨hown, hop, hhop, rfl⟩⟩ := findSuccessor_cases hF h
      · exact ⟨rfl, rfl, .joinAnswer hmem' (Ne.symm hseveral) hown, rfl⟩
      · exact ⟨rfl, rfl, .joinForward hmem' (Ne.symm hseveral) hown hhop, rfl⟩

theorem simulates_processFindSuccessor {dest : Ipv4Address} {digest : Digest}
    (hF : n.HopIn F digest) (h : n.processFindSuccessor message dest digest = .ok (n', acts)) :
    Simulates F n src (.findSuccessor dest digest) (n', acts) := by
  obtain ⟨rfl, ⟨hown, rfl⟩ | ⟨hown, hop, hhop, rfl⟩⟩ := findSuccessor_cases hF h
  · exact ⟨rfl, rfl, .findAnswer hown, rfl⟩
  · exact ⟨rfl, rfl, .findForward hown hhop, rfl⟩

theorem simulates_processNotify (F : Ipv4Address → Prop) (n : ChordNode)
    (message : PennChordMessage) (src : Ipv4Address) :
    Simulates F n src .notify (n.processNotify message src) := by
  rw [processNotify_eq]
  split
  · rename_i hnone
    exact ⟨rfl, rfl, .notifyFirst hnone, rfl⟩
  · rename_i hsome
    split
    · rename_i harc
      exact ⟨rfl, rfl, .notifyAdopt hsome harc, rfl⟩
    · rename_i harc
      exact ⟨rfl, rfl, .notifyIgnore hsome harc, rfl⟩

theorem simulates_processStabilizeReq (F : Ipv4Address → Prop) (n : ChordNode)
    (message : PennChordMessage) (src : Ipv4Address) :
    Simulates F n src .stabilizeReq (n.processStabilizeReq message src) := by
  unfold processStabilizeReq
  split
  · rename_i hsome
    exact ⟨rfl, rfl, .reqAnswer hsome, rfl⟩
  · rename_i hnone
    exact ⟨rfl, rfl, .reqIgnore (not_not.mp hnone), rfl⟩

theorem simulates_processStabilizeResp (F : Ipv4Address → Prop) (n : ChordNode)
    (message : PennChordMessage) (src q : Ipv4Address) :
    Simulates F n src (.stabilizeResp q) (n.processStabilizeResp message q) := by
  rw [processStabilizeResp_eq]
  split
  · rename_i h
    exact ⟨rfl, rfl, .respAdopt h.1 h.2.1 h.2.2, rfl⟩
  · rename_i h
    exact ⟨rfl, rfl, .respKeep h, rfl⟩

structure Quiet (n n' : ChordNode) (acts : List ChordAction) : Prop where
  pointers : n'.pointers = n.pointers
  localAddress : n'.localAddress = n.localAddress
  actions : acts.filterMap ringAction = []

omit [Sha1] in
theorem Quiet.trans {n₁ : ChordNode} (h : Quiet n₁ n' acts) (hp : n₁.pointers = n.pointers)
    (hl : n₁.localAddress = n.localAddress) : Quiet n n' acts :=
  ⟨h.pointers.trans hp, h.localAddress.trans hl, h.actions⟩

omit [Sha1] in
theorem quiet_scheduleFixFinger (h : n.scheduleFixFinger = .ok (n', acts)) :
    Quiet n n' acts := by
  obtain ⟨rfl, rfl⟩ := scheduleFixFinger_eq h
  exact ⟨rfl, rfl, rfl⟩

theorem quiet_sendFindFingerLoop (k : ℕ) :
    ∀ {n : ChordNode}, n.sendFindFingerLoop k = .ok (n', acts) → Quiet n n' acts := by
  induction k with
  | zero => exact quiet_scheduleFixFinger
  | succ k ih =>
      intro n h
      obtain ⟨i, finger, -, hkeep | ⟨rfl, indexHash, rfl⟩⟩ := sendFindFingerLoop_cases h
      · exact (ih hkeep).trans rfl rfl
      · exact ⟨rfl, rfl, rfl⟩

theorem quiet_fixFinger (h : n.fixFinger = .ok (n', acts)) : Quiet n n' acts := by
  rcases fixFinger_cases h with ⟨-, rfl, rfl⟩ | ⟨-, -, h⟩
  · exact ⟨rfl, rfl, rfl⟩
  · exact (quiet_sendFindFingerLoop _ h).trans rfl rfl

omit [Sha1] in
theorem filterMap_lookupCallback (flag : UInt16) (key : CxxString) (owner : Ipv4Address)
    (transactionId : UInt32) :
    (lookupCallback flag key owner transactionId).filterMap ringAction = [] := by
  unfold lookupCallback
  split
  · rfl
  · split
    · rfl
    · split
      · rfl
      · rfl

theorem quiet_lookupPublish {key : CxxString} {flag : UInt16} {transactionId : UInt32}
    (h : n.lookupPublish key flag transactionId = .ok (n', acts)) : Quiet n n' acts := by
  simp only [lookupPublish] at h
  cases hhop : n.findNextHop (sha1Key key) with
  | error f =>
      rw [hhop] at h
      cases h
  | ok hop =>
      rw [hhop] at h
      cases h
      refine ⟨rfl, rfl, ?_⟩
      simp only [List.filterMap_append]
      split <;> split <;>
        simp [filterMap_lookupCallback, ringAction, ringMessage]

/-- A request of the fingers or of the search layer, relayed or answered. -/
theorem quiet_of_target {target : Digest} (htarget : message.target = some target)
    (hquiet : ringMessage message.payload = none)
    (h : n.recvMessage message src = .ok (n', acts)) : Quiet n n' acts := by
  have hanswer : ∀ owner, ringMessage (message.answer owner).payload = none := by
    intro owner
    obtain ⟨tx, payload⟩ := message
    cases payload <;> simp_all [PennChordMessage.answer, PennChordMessage.target, ringMessage]
  obtain ⟨rfl, ⟨-, rfl⟩ | ⟨-, hop, -, rfl⟩⟩ := recvMessage_target_cases message src htarget h
  · exact ⟨rfl, rfl, by simp [ringAction, hanswer]⟩
  · exact ⟨rfl, rfl, by simp [ringAction, hquiet]⟩

omit [Sha1] in
theorem quiet_processRingstateCommand (n : ChordNode) :
    Quiet n n.processRingstateCommand.1 n.processRingstateCommand.2 := by
  unfold processRingstateCommand
  split
  · exact ⟨rfl, rfl, rfl⟩
  · exact ⟨rfl, rfl, rfl⟩

omit [Sha1] in
theorem quiet_processRingstate (n : ChordNode) (message : PennChordMessage)
    (initiator : Ipv4Address) :
    Quiet n (n.processRingstate message initiator).1 (n.processRingstate message initiator).2 := by
  unfold processRingstate
  split
  · exact ⟨rfl, rfl, rfl⟩
  · exact ⟨rfl, rfl, rfl⟩

omit [Sha1] in
theorem quiet_processPingRsp (n : ChordNode) (message : PennChordMessage) (src : Ipv4Address)
    (pingMessage : CxxString) :
    Quiet n (n.processPingRsp message src pingMessage).1
      (n.processPingRsp message src pingMessage).2 := by
  unfold processPingRsp
  split
  · exact ⟨rfl, rfl, rfl⟩
  · exact ⟨rfl, rfl, rfl⟩

/-- Receiving a message is one case of `Reacts`, or nothing for the pointers. -/
theorem recvMessage_view_of_hopIn (hF : ∀ t ∈ joinTarget src message.payload, n.HopIn F t)
    (h : n.recvMessage message src = .ok (n', acts)) :
    (∃ m, ringMessage message.payload = some m ∧ Simulates F n src m (n', acts)) ∨
      (ringMessage message.payload = none ∧ Quiet n n' acts) := by
  obtain ⟨tx, payload⟩ := message
  cases payload with
  | joinChord => exact Or.inl ⟨_, rfl, simulates_processJoinChord (hF _ rfl) h⟩
  | findSuccessor dest digest => exact Or.inl ⟨_, rfl, simulates_processFindSuccessor (hF _ rfl) h⟩
  | joinChordSuccess successorAddress =>
      cases h
      exact Or.inl ⟨_, rfl, rfl, rfl, .joined, rfl⟩
  | notify => exact Or.inl ⟨_, rfl, Except.ok.inj h ▸ simulates_processNotify F n _ src⟩
  | stabilizeReq =>
      exact Or.inl ⟨_, rfl, Except.ok.inj h ▸ simulates_processStabilizeReq F n _ src⟩
  | stabilizeResp q =>
      exact Or.inl ⟨_, rfl, Except.ok.inj h ▸ simulates_processStabilizeResp F n _ src q⟩
  | leaveSuccessor q =>
      cases h
      exact Or.inl ⟨_, rfl, rfl, rfl, .leaveSuccessor, rfl⟩
  | leavePredecessor q =>
      cases h
      exact Or.inl ⟨_, rfl, rfl, rfl, .leavePredecessor, rfl⟩
  | findFinger targetAddress targetDigest targetIndex =>
      exact Or.inr ⟨rfl, quiet_of_target rfl rfl h⟩
  | lookupPublish flag initiatorAddress lookupDigest lookupKey =>
      exact Or.inr ⟨rfl, quiet_of_target rfl rfl h⟩
  | findFingerSuccess fingerAddress fingerIndex =>
      exact Or.inr ⟨rfl, (quiet_sendFindFingerLoop _ h).trans rfl rfl⟩
  | lookupPublishSuccess flag lookupKey owner =>
      cases h
      exact Or.inr ⟨rfl, rfl, rfl, filterMap_lookupCallback _ _ _ _⟩
  | ringstate initiator =>
      have hq := quiet_processRingstate n ⟨tx, .ringstate initiator⟩ initiator
      rw [Except.ok.inj h] at hq
      exact Or.inr ⟨rfl, hq⟩
  | pingReq pingMessage =>
      cases h
      exact Or.inr ⟨rfl, rfl, rfl, rfl⟩
  | pingRsp pingMessage =>
      have hq := quiet_processPingRsp n ⟨tx, .pingRsp pingMessage⟩ src pingMessage
      rw [Except.ok.inj h] at hq
      exact Or.inr ⟨rfl, hq⟩
  | joinChordFail =>
      cases h
      exact Or.inr ⟨rfl, rfl, rfl, rfl⟩

theorem recvMessage_view (hF : n.FingersIn F) (h : n.recvMessage message src = .ok (n', acts)) :
    (∃ m, ringMessage message.payload = some m ∧ Simulates F n src m (n', acts)) ∨
      (ringMessage message.payload = none ∧ Quiet n n' acts) :=
  recvMessage_view_of_hopIn (fun t _ => hF.hopIn t) h

end ChordNode

namespace ChordNet

variable {c c' c₀ : ChordNet} {e : ChordEvent} {F : Ipv4Address → Ipv4Address → Prop}

section Commands

variable {a : Ipv4Address}

theorem turn_join (hlocal : (c.node a).localAddress = a) (b : Ipv4Address) :
    ((c.node a).processJoinCommand b).1.localAddress = a ∧
      RingTurn F c.view (.join a b) a ((c.node a).processJoinCommand b).1.pointers
        (((c.node a).processJoinCommand b).2.filterMap ringAction) := by
  unfold ChordNode.processJoinCommand
  split
  · rename_i hmem
    exact ⟨hlocal, .joinIgnored (Or.inl hmem)⟩
  · rename_i hout
    have hout' : (c.node a).chordStatus = false := by simpa using hout
    rw [hlocal]
    split
    · rename_i hself
      subst hself
      exact ⟨rfl, .joinLandmark hout'⟩
    · rename_i hne
      split
      · rename_i hsome
        exact ⟨hlocal, .joinRequest hout' hne hsome⟩
      · rename_i hnone
        exact ⟨hlocal, .joinIgnored (Or.inr ⟨hne, not_not.mp hnone⟩)⟩

theorem turn_leave (hlocal : (c.node a).localAddress = a) :
    (c.node a).processLeaveCommand.1.localAddress = a ∧
      RingTurn F c.view (.leave a) a (c.node a).processLeaveCommand.1.pointers
        ((c.node a).processLeaveCommand.2.filterMap ringAction) := by
  unfold ChordNode.processLeaveCommand
  split
  · rename_i hout
    exact ⟨hlocal, .leaveIgnored hout⟩
  · rename_i hmem
    have hmem' : (c.node a).chordStatus = true := by simpa using hmem
    rw [hlocal]
    split
    · rename_i halone
      exact ⟨hlocal, .leaveAlone hmem' halone⟩
    · rename_i hseveral
      exact ⟨hlocal, .leave hmem' hseveral⟩

theorem turn_stabilize (hlocal : (c.node a).localAddress = a) :
    (c.node a).stabilize.1.localAddress = a ∧
      RingTurn F c.view (.stabilize a) a (c.node a).stabilize.1.pointers
        ((c.node a).stabilize.2.filterMap ringAction) := by
  unfold ChordNode.stabilize
  rw [hlocal]
  split
  · rename_i h
    exact ⟨hlocal, .stabilize h.1 h.2⟩
  · rename_i h
    exact ⟨hlocal, .stabilizeSkip h⟩

theorem turn_quiet (hlocal : (c.node a).localAddress = a) {n : ChordNode}
    {acts : List ChordAction} (h : (c.node a).Quiet n acts) :
    n.localAddress = a ∧
      RingTurn F c.view .quiet a n.pointers (acts.filterMap ringAction) := by
  refine ⟨h.localAddress.trans hlocal, ?_⟩
  rw [h.pointers, h.actions]
  exact .quiet a

end Commands

def HopsIn (F : Ipv4Address → Ipv4Address → Prop) (c : ChordNet) : ChordEvent → Prop
  | .deliver k =>
      ∀ p ∈ c.inFlight[k]?, ∀ t ∈ joinTarget p.src p.msg.payload, (c.node p.dst).HopIn (F p.dst) t
  | _ => True

theorem hopsIn_of_fingersIn (hF : ∀ a, (c.node a).FingersIn (F a)) (e : ChordEvent) :
    c.HopsIn F e := by
  cases e with
  | deliver k => exact fun p _ t _ => (hF p.dst).hopIn t
  | _ => trivial

/-- Every turn of a Chord node is a turn of the pointer protocol. -/
theorem turn_view_of_hopsIn (hlocal : ∀ a, (c.node a).localAddress = a) (hF : c.HopsIn F e)
    {a : Ipv4Address} {n : ChordNode}
    {acts : List ChordAction} (h : c.turn e = some (c₀, a, .ok (n, acts))) :
    (n.localAddress = a ∧
      RingTurn F c.view (c.ringEvent e) a n.pointers (acts.filterMap ringAction)) ∧
      view c₀ = c.view.before (c.ringEvent e) := by
  cases e with
  | join b nodeAddr =>
      simp only [turn, Option.some.injEq, Prod.mk.injEq] at h
      obtain ⟨rfl, rfl, h⟩ := h
      have hturn := turn_join (F := F) (hlocal b) nodeAddr
      rw [Except.ok.inj h] at hturn
      exact ⟨hturn, rfl⟩
  | leave b =>
      simp only [turn, Option.some.injEq, Prod.mk.injEq] at h
      obtain ⟨rfl, rfl, h⟩ := h
      have hturn := turn_leave (F := F) (hlocal b)
      rw [Except.ok.inj h] at hturn
      exact ⟨hturn, rfl⟩
  | stabilize b =>
      simp only [turn, Option.some.injEq, Prod.mk.injEq] at h
      obtain ⟨rfl, rfl, h⟩ := h
      have hturn := turn_stabilize (F := F) (hlocal b)
      rw [Except.ok.inj h] at hturn
      exact ⟨hturn, rfl⟩
  | ringstate b =>
      simp only [turn, Option.some.injEq, Prod.mk.injEq] at h
      obtain ⟨rfl, rfl, h⟩ := h
      have hq := (c.node b).quiet_processRingstateCommand
      rw [Except.ok.inj h] at hq
      exact ⟨turn_quiet (hlocal b) hq, rfl⟩
  | fixFinger b =>
      simp only [turn] at h
      split at h
      · simp only [Option.some.injEq, Prod.mk.injEq] at h
        obtain ⟨rfl, rfl, h⟩ := h
        exact ⟨turn_quiet (hlocal b) (ChordNode.quiet_fixFinger h), rfl⟩
      · cases h
  | lookupPublish b key flag transactionId =>
      simp only [turn, Option.some.injEq, Prod.mk.injEq] at h
      obtain ⟨rfl, rfl, h⟩ := h
      exact ⟨turn_quiet (hlocal b) (ChordNode.quiet_lookupPublish h), rfl⟩
  | deliver k =>
      simp only [turn] at h
      split at h
      · cases h
      · rename_i p hp
        simp only [Option.some.injEq, Prod.mk.injEq] at h
        obtain ⟨rfl, rfl, h⟩ := h
        rcases ChordNode.recvMessage_view_of_hopIn (hF p hp) h with ⟨m, hm, hsim⟩ | ⟨hm, hq⟩
        · have hpacket : ringPacket p = some ⟨p.src, p.dst, m⟩ := by simp [ringPacket, hm]
          have hevent : c.ringEvent (.deliver k) =
              .deliver ((c.inFlight.take k).filterMap ringPacket).length := by
            simp [ringEvent, hp, hpacket]
          obtain ⟨hat, hbefore⟩ := view_deliver hp hpacket
          have hreacts := hsim.reacts
          rw [hlocal] at hreacts
          rw [hevent]
          exact ⟨⟨hsim.localAddress.trans (hlocal _), .deliver hat hreacts⟩, hbefore⟩
        · have hpacket : ringPacket p = none := by simp [ringPacket, hm]
          have hevent : c.ringEvent (.deliver k) = .quiet := by
            simp [ringEvent, hp, hpacket]
          rw [hevent]
          exact ⟨turn_quiet (hlocal _) hq, view_deliver_quiet hp hpacket⟩

theorem turn_view (hlocal : ∀ a, (c.node a).localAddress = a)
    (hF : ∀ a, (c.node a).FingersIn (F a)) {a : Ipv4Address} {n : ChordNode}
    {acts : List ChordAction} (h : c.turn e = some (c₀, a, .ok (n, acts))) :
    (n.localAddress = a ∧
      RingTurn F c.view (c.ringEvent e) a n.pointers (acts.filterMap ringAction)) ∧
      view c₀ = c.view.before (c.ringEvent e) :=
  turn_view_of_hopsIn hlocal (hopsIn_of_fingersIn hF e) h

theorem ringEvent_of_turn_none (h : c.turn e = none) : c.ringEvent e = .quiet := by
  cases e with
  | deliver k =>
      cases hp : c.inFlight[k]? with
      | none => simp [ringEvent, hp]
      | some p => simp [turn, hp] at h
  | fixFinger b => rfl
  | ringstate b => rfl
  | lookupPublish b key flag transactionId => rfl
  | _ => simp [turn] at h

/-- The simulation: one step of the Chord network is one step of the pointer
protocol on its view, with the same callbacks. -/
theorem stepActions_view {acts : List ChordAction} (hlocal : ∀ a, (c.node a).localAddress = a)
    (hF : c.HopsIn F e) (h : c.stepActions e = .ok (c', acts)) :
    (∃ q, RingTurn F c.view (c.ringEvent e) (c.actor e) q (acts.filterMap ringAction) ∧
        view c' = (c.view.before (c.ringEvent e)).act (c.actor e) q
          (ringSends (c.actor e) (acts.filterMap ringAction))) ∧
      ∀ a, (c'.node a).localAddress = a := by
  rcases stepActions_cases h with ⟨hnone, rfl, rfl⟩ | ⟨c₀, a, n, hturn, rfl⟩
  · rw [ringEvent_of_turn_none hnone]
    exact ⟨⟨_, .quiet _, by simp [RingNet.before, Net.act]⟩, hlocal⟩
  · obtain ⟨⟨hn, hring⟩, hbefore⟩ := turn_view_of_hopsIn hlocal hF hturn
    rw [turn_actor hturn]
    refine ⟨⟨_, hring, by rw [view_act, hbefore]⟩, fun b => ?_⟩
    by_cases hb : b = a
    · subst hb
      simpa using hn
    · rw [Net.act_node_of_ne _ _ _ hb, turn_node hturn]
      exact hlocal b

theorem step_view (hlocal : ∀ a, (c.node a).localAddress = a)
    (hF : ∀ a, (c.node a).FingersIn (F a)) (h : c.step e = .ok c') :
    RingStep F c.view (c.ringEvent e) (view c') ∧ ∀ a, (c'.node a).localAddress = a := by
  obtain ⟨acts, h⟩ := step_eq_ok.mp h
  obtain ⟨⟨q, hturn, hview⟩, hlocal'⟩ := stepActions_view hlocal (hopsIn_of_fingersIn hF e) h
  exact ⟨⟨_, q, _, hturn, hview⟩, hlocal'⟩

/-! ## Networks without finger and lookup traffic -/

/-- Nothing but pointer messages, and refusals of a join, is in flight. -/
def PointersOnly (c : ChordNet) : Prop := ∀ p ∈ c.inFlight, plainMessage p.msg.payload = true

omit [Sha1] in
theorem pointersOnly_act {a : Ipv4Address} {n : ChordNode} {acts : List ChordAction}
    (h : c.PointersOnly) (hacts : acts.all plainAction = true) :
    PointersOnly (c.act a n (sentPackets a acts)) := by
  intro p hp
  rcases List.mem_append.mp hp with hp | hp
  · exact h p hp
  · obtain ⟨-, -, hmem⟩ := mem_sentPackets.mp hp
    exact List.all_eq_true.mp hacts _ hmem

def JoinEvent : ChordEvent → Prop
  | .join _ _ => True
  | .stabilize _ => True
  | .deliver _ => True
  | _ => False

/-- Such an event causes pointer packets only, and changes no finger. -/
theorem turn_pointersOnly (hpure : c.PointersOnly) (he : JoinEvent e) {a : Ipv4Address}
    {n : ChordNode} {acts : List ChordAction} (h : c.turn e = some (c₀, a, .ok (n, acts))) :
    c₀.PointersOnly ∧ n.fingerTable = (c.node a).fingerTable ∧
      acts.all plainAction = true := by
  cases e with
  | join b nodeAddr =>
      simp only [turn, Option.some.injEq, Prod.mk.injEq] at h
      obtain ⟨rfl, rfl, h⟩ := h
      have hjoin : ((c.node b).processJoinCommand nodeAddr).1.fingerTable =
          (c.node b).fingerTable ∧
        ((c.node b).processJoinCommand nodeAddr).2.all plainAction = true := by
        unfold ChordNode.processJoinCommand
        split
        · exact ⟨rfl, rfl⟩
        · split
          · exact ⟨rfl, rfl⟩
          · split
            · exact ⟨rfl, rfl⟩
            · exact ⟨rfl, rfl⟩
      rw [Except.ok.inj h] at hjoin
      exact ⟨hpure, hjoin⟩
  | stabilize b =>
      simp only [turn, Option.some.injEq, Prod.mk.injEq] at h
      obtain ⟨rfl, rfl, h⟩ := h
      have hstabilize : (c.node b).stabilize.1.fingerTable = (c.node b).fingerTable ∧
          (c.node b).stabilize.2.all plainAction = true := by
        unfold ChordNode.stabilize
        split
        · exact ⟨rfl, rfl⟩
        · exact ⟨rfl, rfl⟩
      rw [Except.ok.inj h] at hstabilize
      exact ⟨hpure, hstabilize⟩
  | deliver k =>
      simp only [turn] at h
      split at h
      · cases h
      · rename_i p hp
        simp only [Option.some.injEq, Prod.mk.injEq] at h
        obtain ⟨rfl, rfl, h⟩ := h
        have hsome := hpure p (mem_of_getElem? hp)
        have hF : (c.node p.dst).FingersIn fun _ => True := fun _ _ _ => trivial
        rcases ChordNode.recvMessage_view hF h with ⟨m, -, hsim⟩ | ⟨hm, -⟩
        · exact ⟨fun p' hp' => hpure p' (List.mem_of_mem_eraseIdx hp'), hsim.fingerTable,
            hsim.actions⟩
        · obtain ⟨src, dst, tx, payload⟩ := p
          cases payload with
          | joinChordFail =>
              cases h
              exact ⟨fun p' hp' => hpure p' (List.mem_of_mem_eraseIdx hp'), rfl, rfl⟩
          | _ => simp [plainMessage, ringMessage] at hsome hm
  | _ => exact he.elim

theorem step_pointersOnly (hpure : c.PointersOnly) (he : JoinEvent e) (h : c.step e = .ok c') :
    c'.PointersOnly ∧ ∀ a, (c'.node a).fingerTable = (c.node a).fingerTable := by
  rcases step_cases h with ⟨-, rfl⟩ | ⟨c₀, b, n, acts, hturn, rfl⟩
  · exact ⟨hpure, fun _ => rfl⟩
  · obtain ⟨hpure₀, hfingers, hacts⟩ := turn_pointersOnly hpure he hturn
    refine ⟨pointersOnly_act hpure₀ hacts, fun a => ?_⟩
    rw [Net.act_node]
    split
    · rename_i hab
      rw [hab, hfingers]
    · rw [turn_node hturn]

end ChordNet

/-- A pointer message is handled without a fault by a node with fingers; a member
that is alone needs none for a join. -/
theorem ChordNode.recvMessage_isOk {n : ChordNode} {message : PennChordMessage}
    {src : Ipv4Address} (hm : plainMessage message.payload = true)
    (hfingers : message.payload = .joinChord → n.localAddress ≠ n.successorAddr →
      ¬ n.fingerTable.isEmpty)
    (hfingers' : ∀ x t, message.payload = .findSuccessor x t → ¬ n.fingerTable.isEmpty) :
    ∃ r, n.recvMessage message src = .ok r := by
  obtain ⟨tx, payload⟩ := message
  have hfind : ∀ (dest : Ipv4Address) (digest : Digest), ¬ n.fingerTable.isEmpty →
      ∃ r, n.findSuccessor ⟨tx, payload⟩ dest digest = .ok r := by
    intro dest digest hne
    obtain ⟨hop, hhop⟩ := findNextHop_isOk digest hne
    rw [findSuccessor_eq]
    split
    · exact ⟨_, rfl⟩
    · rw [sendFindSuccessor, hhop]
      exact ⟨_, rfl⟩
  cases payload with
  | joinChord =>
      simp only [recvMessage, processJoinChord]
      split
      · exact ⟨_, rfl⟩
      · split
        · exact ⟨_, rfl⟩
        · rename_i hne
          exact hfind _ _ (hfingers rfl hne)
  | findSuccessor x t => exact hfind x t (hfingers' x t rfl)
  | joinChordSuccess _ => exact ⟨_, rfl⟩
  | notify => exact ⟨_, rfl⟩
  | stabilizeReq => exact ⟨_, rfl⟩
  | stabilizeResp _ => exact ⟨_, rfl⟩
  | leaveSuccessor _ => exact ⟨_, rfl⟩
  | leavePredecessor _ => exact ⟨_, rfl⟩
  | joinChordFail => exact ⟨_, rfl⟩
  | _ => simp [plainMessage, ringMessage] at hm

end PennSearch
