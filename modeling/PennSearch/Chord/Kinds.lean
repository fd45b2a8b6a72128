import PennSearch.Chord.Simulation

/-!
# The protocols that share a socket

The messages of a node belong to five protocols that do not cause one another:
what a node does with a message, a timer or a command is of the kind of the
message, the timer or the command. So the packets of one protocol can be followed
through a run in which the others go on as they like.
-/

namespace PennSearch

open MessagePassing

/-- The protocol that a message belongs to. -/
inductive MessageKind
  | pointers
  | ringstate
  | fingers
  | lookups
  | pings
deriving DecidableEq

def ChordPayload.kind : ChordPayload → MessageKind
  | .ringstate _ => .ringstate
  | .findFinger _ _ _ => .fingers
  | .findFingerSuccess _ _ => .fingers
  | .lookupPublish _ _ _ _ => .lookups
  | .lookupPublishSuccess _ _ _ => .lookups
  | .pingReq _ => .pings
  | .pingRsp _ => .pings
  | _ => .pointers

def ChordAction.kind : ChordAction → MessageKind
  | .sendTo _ message => message.payload.kind
  | .chordJoinNotify _ _ => .pointers
  | .chordLeaveNotify _ _ => .pointers
  | .lookupPublishSuccess _ _ _ => .lookups
  | .searchInitialSuccess _ _ _ => .lookups
  | .searchBeginSuccess _ _ _ => .lookups
  | .pingSuccess _ _ => .pings
  | .pingRecv _ _ => .pings

theorem ChordAction.kind_of_plain {act : ChordAction} (h : plainAction act = true) :
    act.kind = .pointers := by
  cases act with
  | sendTo dst message =>
      obtain ⟨tx, payload⟩ := message
      cases payload <;> first | rfl | cases h
  | _ => first | rfl | cases h

theorem kind_of_ringMessage {payload : ChordPayload} {m : RingMessage}
    (h : ringMessage payload = some m) : payload.kind = .pointers := by
  cases payload <;> first | rfl | cases h

/-- The kind of an event; `none` when nothing is delivered. -/
def ChordNet.eventKind (c : ChordNet) : ChordEvent → Option MessageKind
  | .join _ _ => some .pointers
  | .leave _ => some .pointers
  | .stabilize _ => some .pointers
  | .ringstate _ => some .ringstate
  | .fixFinger _ => some .fingers
  | .lookupPublish _ _ _ _ => some .lookups
  | .deliver k => c.inFlight[k]?.map fun p => p.msg.payload.kind

variable [Sha1]

namespace ChordNode

variable {n n' : ChordNode} {acts : List ChordAction} {message : PennChordMessage}
  {src : Ipv4Address}

theorem sendFindFingerLoop_kind (k : ℕ) :
    ∀ {n : ChordNode}, n.sendFindFingerLoop k = .ok (n', acts) →
      ∀ act ∈ acts, act.kind = .fingers := by
  induction k with
  | zero =>
      intro n h
      obtain ⟨-, rfl⟩ := scheduleFixFinger_eq h
      simp
  | succ k ih =>
      intro n h
      obtain ⟨i, finger, -, hkeep | ⟨-, indexHash, rfl⟩⟩ := sendFindFingerLoop_cases h
      · exact ih hkeep
      · simp [ChordAction.kind, ChordPayload.kind]

omit [Sha1] in
theorem lookupCallback_kind (flag : UInt16) (key : CxxString) (owner : Ipv4Address)
    (tx : UInt32) : ∀ act ∈ lookupCallback flag key owner tx, act.kind = .lookups := by
  unfold lookupCallback
  split_ifs <;> simp [ChordAction.kind]

theorem recvMessage_target_kind {target : Digest} (htarget : message.target = some target)
    (hanswer : ∀ owner, (message.answer owner).payload.kind = message.payload.kind)
    (h : n.recvMessage message src = .ok (n', acts)) :
    ∀ act ∈ acts, act.kind = message.payload.kind := by
  obtain ⟨-, ⟨-, rfl⟩ | ⟨-, hop, -, rfl⟩⟩ := recvMessage_target_cases message src htarget h
  · intro act hact
    rw [List.mem_singleton.mp hact]
    exact hanswer _
  · intro act hact
    rw [List.mem_singleton.mp hact]
    rfl

theorem recvMessage_kind (h : n.recvMessage message src = .ok (n', acts)) :
    ∀ act ∈ acts, act.kind = message.payload.kind := by
  have hF : n.FingersIn fun _ => True := fun _ _ _ => trivial
  rcases recvMessage_view hF h with ⟨m, hm, hsim⟩ | ⟨hm, -⟩
  · rw [kind_of_ringMessage hm]
    exact fun act hact => ChordAction.kind_of_plain (List.all_eq_true.mp hsim.actions act hact)
  · obtain ⟨tx, payload⟩ := message
    cases payload with
    | findFinger targetAddress targetDigest targetIndex =>
        exact recvMessage_target_kind rfl (fun _ => rfl) h
    | lookupPublish flag initiatorAddress lookupDigest lookupKey =>
        exact recvMessage_target_kind rfl (fun _ => rfl) h
    | findFingerSuccess fingerAddress fingerIndex => exact sendFindFingerLoop_kind _ h
    | lookupPublishSuccess flag lookupKey owner =>
        cases h
        exact lookupCallback_kind flag lookupKey owner tx
    | ringstate initiator =>
        have hacts : ∀ act ∈ (n.processRingstate ⟨tx, .ringstate initiator⟩ initiator).2,
            act.kind = .ringstate := by
          unfold processRingstate
          split <;> simp [ChordAction.kind, ChordPayload.kind]
        rw [Except.ok.inj h] at hacts
        exact hacts
    | pingReq pingMessage =>
        cases h
        simp [ChordAction.kind, ChordPayload.kind]
    | pingRsp pingMessage =>
        have hacts : ∀ act ∈ (n.processPingRsp ⟨tx, .pingRsp pingMessage⟩ src pingMessage).2,
            act.kind = .pings := by
          unfold processPingRsp
          split <;> simp [ChordAction.kind]
        rw [Except.ok.inj h] at hacts
        exact hacts
    | joinChordFail =>
        cases h
        simp
    | _ => cases hm

theorem lookupPublish_kind {key : CxxString} {flag : UInt16} {tx : UInt32}
    (h : n.lookupPublish key flag tx = .ok (n', acts)) : ∀ act ∈ acts, act.kind = .lookups := by
  simp only [lookupPublish] at h
  cases hhop : n.findNextHop (sha1Key key) with
  | error f =>
      rw [hhop] at h
      cases h
  | ok hop =>
      rw [hhop] at h
      cases h
      have hite : ∀ (p : Prop) [Decidable p], ∀ act ∈
          (if p then lookupCallback flag key n.successorAddr tx else []), act.kind = .lookups := by
        intro p _
        split
        · exact lookupCallback_kind flag key n.successorAddr tx
        · simp
      intro act hact
      rcases List.mem_append.mp hact with hact | hact
      · rcases List.mem_append.mp hact with hact | hact
        · exact hite _ act hact
        · exact hite _ act hact
      · rw [List.mem_singleton.mp hact]
        rfl

end ChordNode

theorem ChordNet.turn_kind {c c₀ : ChordNet} {e : ChordEvent} {a : Ipv4Address} {n : ChordNode}
    {acts : List ChordAction} (h : c.turn e = some (c₀, a, .ok (n, acts))) :
    ∀ act ∈ acts, c.eventKind e = some act.kind := by
  cases e with
  | join b nodeAddr =>
      have hacts : ∀ act ∈ ((c.node b).processJoinCommand nodeAddr).2, act.kind = .pointers := by
        unfold ChordNode.processJoinCommand
        split_ifs <;> simp [ChordAction.kind, ChordPayload.kind]
      simp only [turn, Option.some.injEq, Prod.mk.injEq] at h
      rw [Except.ok.inj h.2.2] at hacts
      exact fun act hact => congrArg some (hacts act hact).symm
  | leave b =>
      have hacts : ∀ act ∈ (c.node b).processLeaveCommand.2, act.kind = .pointers := by
        unfold ChordNode.processLeaveCommand
        split_ifs <;> simp [ChordAction.kind, ChordPayload.kind]
      simp only [turn, Option.some.injEq, Prod.mk.injEq] at h
      rw [Except.ok.inj h.2.2] at hacts
      exact fun act hact => congrArg some (hacts act hact).symm
  | ringstate b =>
      have hacts : ∀ act ∈ (c.node b).processRingstateCommand.2, act.kind = .ringstate := by
        unfold ChordNode.processRingstateCommand
        split_ifs <;> simp [ChordAction.kind, ChordPayload.kind]
      simp only [turn, Option.some.injEq, Prod.mk.injEq] at h
      rw [Except.ok.inj h.2.2] at hacts
      exact fun act hact => congrArg some (hacts act hact).symm
  | stabilize b =>
      have hacts : ∀ act ∈ (c.node b).stabilize.2, act.kind = .pointers := by
        unfold ChordNode.stabilize
        split_ifs <;> simp [ChordAction.kind, ChordPayload.kind]
      simp only [turn, Option.some.injEq, Prod.mk.injEq] at h
      rw [Except.ok.inj h.2.2] at hacts
      exact fun act hact => congrArg some (hacts act hact).symm
  | fixFinger b =>
      simp only [turn] at h
      split at h
      · simp only [Option.some.injEq, Prod.mk.injEq] at h
        rcases ChordNode.fixFinger_cases h.2.2 with ⟨-, -, rfl⟩ | ⟨-, -, hsend⟩
        · simp
        · exact fun act hact =>
            congrArg some (ChordNode.sendFindFingerLoop_kind _ hsend act hact).symm
      · cases h
  | lookupPublish b key flag tx =>
      simp only [turn, Option.some.injEq, Prod.mk.injEq] at h
      exact fun act hact => congrArg some (ChordNode.lookupPublish_kind h.2.2 act hact).symm
  | deliver k =>
      simp only [turn] at h
      split at h
      · cases h
      · rename_i p hp
        simp only [Option.some.injEq, Prod.mk.injEq] at h
        intro act hact
        simp only [eventKind, hp, Option.map_some,
          ChordNode.recvMessage_kind h.2.2 act hact]

theorem ChordNet.stepActions_kind {c c' : ChordNet} {e : ChordEvent} {acts : List ChordAction}
    (h : c.stepActions e = .ok (c', acts)) : ∀ act ∈ acts, c.eventKind e = some act.kind := by
  rcases stepActions_cases h with ⟨-, -, rfl⟩ | ⟨c₀, a, n, hturn, -⟩
  · simp
  · exact turn_kind hturn

end PennSearch
