import PennSearch.Chord.Fingers
import PennSearch.Chord.Routing

/-!
# Who executes `FindNextHop`

`Routes` says of an event that its node executes `FindNextHop`, and `noteFilled`
keeps a record of the nodes that have put a finger into their table since they
last left. The step faults on an empty table exactly when the node that routes is
not in the record.
-/

namespace PennSearch

open Clockwise MessagePassing

def ChordPayload.isFindFingerSuccess : ChordPayload → Bool
  | .findFingerSuccess _ _ => true
  | _ => false

/-- The node that acts puts a finger into its table: `FixFinger` of a member
among others, or `ProcessFindFingerSuccess`. -/
def ChordNet.Fills (c : ChordNet) : ChordEvent → Prop
  | .fixFinger a => (c.node a).fixFingerTimer = true ∧ (c.node a).chordStatus = true ∧
      (c.node a).successorAddr ≠ (c.node a).localAddress
  | .deliver k => ∃ p ∈ c.inFlight[k]?, p.msg.payload.isFindFingerSuccess = true
  | _ => False

def ChordNet.Empties (c : ChordNet) : ChordEvent → Prop
  | .leave a => (c.node a).chordStatus = true
  | _ => False

instance (c : ChordNet) (e : ChordEvent) : Decidable (c.Fills e) :=
  match e with
  | .fixFinger _ => inferInstanceAs (Decidable (_ ∧ _ ∧ _))
  | .deliver _ => inferInstanceAs (Decidable (∃ p ∈ _, _))
  | .join .. | .leave _ | .ringstate _ | .stabilize _ | .lookupPublish .. => .isFalse id

instance (c : ChordNet) (e : ChordEvent) : Decidable (c.Empties e) :=
  match e with
  | .leave _ => inferInstanceAs (Decidable (_ = true))
  | .join .. | .ringstate _ | .stabilize _ | .fixFinger _ | .lookupPublish .. | .deliver _ =>
      .isFalse id

/-- The record of the nodes that have filled their table since they last left. -/
def ChordNet.noteFilled (c : ChordNet) (e : ChordEvent) (filled : Ipv4Address → Bool) :
    Ipv4Address → Bool :=
  if c.Fills e then Function.update filled (c.actor e) true
  else if c.Empties e then Function.update filled (c.actor e) false
  else filled

def ChordNet.Noted (c : ChordNet) (filled : Ipv4Address → Bool) : Prop :=
  ∀ a, (c.node a).fingerTable.isEmpty = !filled a

variable [Sha1]

/-- At this message, node `n` executes `FindNextHop`. -/
def ChordNode.Routes (n : ChordNode) (message : PennChordMessage) (sourceAddress : Ipv4Address) :
    Prop :=
  match message.payload with
  | .joinChord => n.chordStatus = true ∧ n.localAddress ≠ n.successorAddr ∧
      ¬ n.inOwnArc (nodePos sourceAddress)
  | .findSuccessor _ targetDigest => ¬ n.inOwnArc targetDigest.pos
  | .findFinger _ targetDigest _ => ¬ n.inOwnArc targetDigest.pos
  | .lookupPublish _ _ lookupDigest _ => ¬ n.inOwnArc lookupDigest.pos
  | _ => False

def ChordNet.Routes (c : ChordNet) : ChordEvent → Prop
  | .lookupPublish _ _ _ _ => True
  | .deliver k => ∃ p ∈ c.inFlight[k]?, (c.node p.dst).Routes p.msg p.src
  | _ => False

namespace ChordNode

variable {n n' : ChordNode} {acts : List ChordAction}

theorem findNextHop_bind_error_iff (n : ChordNode) (target : Digest) {α : Type}
    (next : Ipv4Address → α) :
    (do let hop ← n.findNextHop target; return next hop : Except Fault α) =
        .error .fingerTableEmpty ↔ n.fingerTable.isEmpty = true := by
  cases hhop : n.findNextHop target with
  | error f =>
      obtain ⟨rfl, hempty⟩ := findNextHop_eq_error hhop
      exact iff_of_true rfl hempty
  | ok hop =>
      refine iff_of_false (fun h => by cases h) fun hempty => ?_
      rw [findNextHop_of_isEmpty target hempty] at hhop
      cases hhop

omit [Sha1] in
theorem findIndexHash_avoids (d : Digest) (i : UInt16) :
    Avoids .fingerTableEmpty (findIndexHash d i) := by
  unfold findIndexHash
  split_ifs
  · exact fun h => by cases h
  · exact avoids_ok _

theorem sendFindFingerLoop_avoids (k : ℕ) :
    ∀ n : ChordNode, Avoids .fingerTableEmpty (n.sendFindFingerLoop k) := by
  induction k with
  | zero =>
      intro n h
      simp only [sendFindFingerLoop, scheduleFixFinger] at h
      split at h <;> cases h
  | succ k ih =>
      intro n
      refine (findIndexHash_avoids _ _).bind fun indexHash =>
        (findIndexHash_avoids _ _).bind fun prevIndexHash => ?_
      split
      · exact fun h => by cases h
      · split_ifs
        · exact ih _
        · exact avoids_ok _
        · exact ih _
        · exact avoids_ok _

theorem fixFinger_avoids (n : ChordNode) : Avoids .fingerTableEmpty n.fixFinger := by
  unfold fixFinger
  simp only [scheduleFixFinger]
  split_ifs
  · exact fun h => by cases h
  · exact avoids_ok _
  · exact sendFindFingerLoop_avoids _ _

/-- A message faults on an empty table exactly when it is routed. -/
theorem recvMessage_error_iff (n : ChordNode) (message : PennChordMessage) (src : Ipv4Address) :
    n.recvMessage message src = .error .fingerTableEmpty ↔
      n.Routes message src ∧ n.fingerTable.isEmpty = true := by
  have htarget : ∀ target, message.target = some target →
      (n.recvMessage message src = .error .fingerTableEmpty ↔
        ¬ n.inOwnArc target.pos ∧ n.fingerTable.isEmpty = true) := by
    intro target htarget
    rw [recvMessage_of_target n htarget]
    by_cases hown : n.inOwnArc target.pos
    · rw [if_pos hown]
      exact iff_of_false (fun h => by cases h) fun h => h.1 hown
    · rw [if_neg hown, findNextHop_bind_error_iff]
      exact (and_iff_right hown).symm
  obtain ⟨tx, payload⟩ := message
  cases payload with
  | findSuccessor destAddress targetDigest => exact htarget targetDigest rfl
  | findFinger targetAddress targetDigest targetIndex => exact htarget targetDigest rfl
  | lookupPublish flag initiatorAddress lookupDigest lookupKey => exact htarget lookupDigest rfl
  | joinChord =>
      simp only [recvMessage, processJoinChord, Routes]
      by_cases hstatus : n.chordStatus = true
      · rw [if_neg (by simp [hstatus])]
        by_cases hself : n.localAddress = n.successorAddr
        · rw [if_pos hself]
          exact iff_of_false (fun h => by cases h) fun h => h.1.2.1 hself
        · rw [if_neg hself, findSuccessor_eq]
          by_cases hown : n.inOwnArc (sha1 src).pos
          · rw [if_pos hown]
            exact iff_of_false (fun h => by cases h) fun h => h.1.2.2 hown
          · rw [if_neg hown, sendFindSuccessor, findNextHop_bind_error_iff]
            exact (and_iff_right ⟨hstatus, hself, hown⟩).symm
      · rw [if_pos (by simpa using hstatus)]
        exact iff_of_false (fun h => by cases h) fun h => hstatus h.1.1
  | findFingerSuccess fingerAddress fingerIndex =>
      exact iff_of_false (sendFindFingerLoop_avoids _ _) fun h => h.1
  | _ => exact iff_of_false (fun h => by cases h) fun h => h.1

theorem lookupPublish_error_iff (n : ChordNode) (key : CxxString) (flag : UInt16)
    (transactionId : UInt32) :
    n.lookupPublish key flag transactionId = .error .fingerTableEmpty ↔
      n.fingerTable.isEmpty = true :=
  findNextHop_bind_error_iff n (sha1Key key) _

end ChordNode

namespace ChordNet

variable {c c' c₀ : ChordNet} {e : ChordEvent} {acts : List ChordAction}
  {filled : Ipv4Address → Bool}

theorem stepActions_error_iff (c : ChordNet) (e : ChordEvent) :
    c.stepActions e = .error .fingerTableEmpty ↔
      c.Routes e ∧ (c.node (c.actor e)).fingerTable.isEmpty = true := by
  have hbind : ∀ (c₀ : ChordNet) (a : Ipv4Address) (r : ChordResult),
      c.turn e = some (c₀, a, r) →
        (c.stepActions e = .error .fingerTableEmpty ↔ r = .error .fingerTableEmpty) := by
    intro c₀ a r hturn
    rw [stepActions, hturn]
    cases r with
    | error f => exact ⟨fun h => by cases h; rfl, fun h => by cases h; rfl⟩
    | ok r => exact iff_of_false (fun h => by cases h) fun h => by cases h
  cases e with
  | lookupPublish a key flag transactionId =>
      rw [hbind _ _ _ rfl, ChordNode.lookupPublish_error_iff]
      exact (and_iff_right trivial).symm
  | fixFinger a =>
      refine iff_of_false ?_ fun h => h.1
      cases htimer : (c.node a).fixFingerTimer with
      | true =>
          rw [hbind c a (c.node a).fixFinger (by simp [turn, htimer])]
          exact ChordNode.fixFinger_avoids _
      | false =>
          simp [stepActions, turn, htimer]
  | deliver k =>
      cases hp : c.inFlight[k]? with
      | none => simp [stepActions, turn, hp, Routes]
      | some p =>
          rw [hbind _ _ _ (turn_deliver hp), ChordNode.recvMessage_error_iff]
          simp [Routes, actor, hp]
  | _ =>
      rw [hbind _ _ _ rfl]
      exact iff_of_false (fun h => by cases h) fun h => h.1

theorem turn_fingerTable {a : Ipv4Address} {n : ChordNode}
    (h : c.turn e = some (c₀, a, .ok (n, acts))) :
    n.fingerTable.isEmpty =
      if c.Fills e then false else if c.Empties e then true
      else (c.node a).fingerTable.isEmpty := by
  cases e with
  | join b nodeAddr =>
      simp only [turn, Option.some.injEq, Prod.mk.injEq] at h
      obtain ⟨-, rfl, hn⟩ := h
      have htable := (c.node b).processJoinCommand_fingerTable nodeAddr
      rw [Except.ok.inj hn] at htable
      simp only [Fills, Empties, if_false, ← htable]
  | leave b =>
      simp only [turn, Option.some.injEq, Prod.mk.injEq] at h
      obtain ⟨-, rfl, hn⟩ := h
      have htable := (c.node b).processLeaveCommand_fingerTable
      rw [Except.ok.inj hn] at htable
      have hfill : ¬ c.Fills (.leave b) := id
      rw [if_neg hfill, show n.fingerTable = _ from htable]
      by_cases hmem : (c.node b).chordStatus = true
      · rw [if_pos hmem, if_pos (show c.Empties (.leave b) from hmem)]
        exact Std.TreeMap.isEmpty_emptyc
      · rw [if_neg hmem, if_neg (show ¬ c.Empties (.leave b) from hmem)]
  | ringstate b =>
      simp only [turn, Option.some.injEq, Prod.mk.injEq] at h
      obtain ⟨-, rfl, hn⟩ := h
      have htable := (c.node b).processRingstateCommand_fingerTable
      rw [Except.ok.inj hn] at htable
      simp only [Fills, Empties, if_false, ← htable]
  | stabilize b =>
      simp only [turn, Option.some.injEq, Prod.mk.injEq] at h
      obtain ⟨-, rfl, hn⟩ := h
      have htable := (c.node b).stabilize_fingerTable
      rw [Except.ok.inj hn] at htable
      simp only [Fills, Empties, if_false, ← htable]
  | fixFinger b =>
      simp only [turn] at h
      split at h
      · rename_i htimer
        simp only [Option.some.injEq, Prod.mk.injEq] at h
        obtain ⟨-, rfl, hn⟩ := h
        rcases ChordNode.fixFinger_fingerTable hn with ⟨hskip, htable⟩ | ⟨hmem, hne, htable⟩
        · rw [if_neg, htable]
          · rfl
          rintro ⟨-, hmem, hne⟩
          rcases hskip with hout | hself
          · simp [hout] at hmem
          · exact hne hself
        · rw [if_pos ⟨htimer, hmem, hne⟩]
          simpa using htable
      · cases h
  | lookupPublish b key flag transactionId =>
      simp only [turn, Option.some.injEq, Prod.mk.injEq] at h
      obtain ⟨-, rfl, hn⟩ := h
      rw [ChordNode.lookupPublish_eq_self hn]
      rfl
  | deliver k =>
      simp only [turn] at h
      split at h
      · cases h
      · rename_i p hp
        simp only [Option.some.injEq, Prod.mk.injEq] at h
        obtain ⟨-, rfl, hn⟩ := h
        by_cases hfill : p.msg.payload.isFindFingerSuccess = true
        · rw [if_pos ⟨p, hp, hfill⟩]
          obtain ⟨src, dst, tx, payload⟩ := p
          cases payload with
          | findFingerSuccess finger i =>
              simpa using ChordNode.processFindFingerSuccess_fingerTable hn
          | _ => cases hfill
        · have hkeep := ChordNode.recvMessage_fingerTable
            (fun finger i heq => hfill (by rw [heq]; rfl)) hn
          rw [if_neg, hkeep]
          · rfl
          rintro ⟨p', hp', hfill'⟩
          obtain rfl : p = p' := Option.some.inj (hp.symm.trans hp')
          exact hfill hfill'

theorem Noted.stepActions (h : c.Noted filled) (hstep : c.stepActions e = .ok (c', acts)) :
    c'.Noted (c.noteFilled e filled) := by
  rcases stepActions_cases hstep with ⟨hnone, rfl, -⟩ | ⟨c₀, a, n, hturn, rfl⟩
  · have hnote : c'.noteFilled e filled = filled := by
      cases e with
      | fixFinger b =>
          have htimer : (c'.node b).fixFingerTimer = false := by
            simpa [turn] using hnone
          simp [noteFilled, Fills, Empties, htimer]
      | deliver k =>
          have hp : c'.inFlight[k]? = none := by
            cases hp : c'.inFlight[k]? with
            | none => rfl
            | some p => simp [turn, hp] at hnone
          simp [noteFilled, Fills, Empties, hp]
      | _ => cases hnone
    rwa [hnote]
  · intro b
    rw [noteFilled, turn_actor hturn, Net.act_node]
    by_cases hb : b = a
    · subst hb
      rw [if_pos rfl, turn_fingerTable hturn, h b]
      split_ifs <;> simp
    · rw [if_neg hb, turn_node hturn, h b]
      split_ifs <;> simp [hb]

end ChordNet

end PennSearch
