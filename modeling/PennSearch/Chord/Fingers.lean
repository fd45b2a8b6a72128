import PennSearch.Chord.Simulation

/-!
# What fills the finger table

Three handlers write `m_fingerTable`: LEAVE clears it, and `FixFinger` and
`ProcessFindFingerSuccess` put an entry into it before anything else. Every other
handler leaves it as it is.
-/

namespace PennSearch

open Clockwise

namespace ChordNode

variable {n n' : ChordNode} {acts : List ChordAction}

theorem not_isEmpty_insert (n : ChordNode) (i : UInt16) (finger : Ipv4Address) :
    ¬ (n.fingerTable.insert i finger).isEmpty := by
  simp

theorem processJoinCommand_fingerTable (n : ChordNode) (nodeAddr : Ipv4Address) :
    (n.processJoinCommand nodeAddr).1.fingerTable = n.fingerTable := by
  unfold processJoinCommand
  split
  · rfl
  · split
    · rfl
    · split
      · rfl
      · rfl

theorem stabilize_fingerTable (n : ChordNode) : n.stabilize.1.fingerTable = n.fingerTable := by
  unfold stabilize
  split
  · rfl
  · rfl

theorem processRingstateCommand_fingerTable (n : ChordNode) :
    n.processRingstateCommand.1.fingerTable = n.fingerTable := by
  unfold processRingstateCommand
  split
  · rfl
  · rfl

theorem processLeaveCommand_fingerTable (n : ChordNode) :
    n.processLeaveCommand.1.fingerTable = if n.chordStatus then ∅ else n.fingerTable := by
  unfold processLeaveCommand
  split
  · rename_i hout
    simp [hout]
  · rename_i hmem
    have hmem' : n.chordStatus = true := by simpa using hmem
    rw [if_pos hmem']
    split
    · rfl
    · rfl

variable [Sha1]

theorem sendFindFingerLoop_not_isEmpty (k : ℕ) :
    ∀ {n : ChordNode}, n.sendFindFingerLoop k = .ok (n', acts) → ¬ n.fingerTable.isEmpty →
      ¬ n'.fingerTable.isEmpty := by
  induction k with
  | zero =>
      intro n h hne
      obtain ⟨rfl, -⟩ := scheduleFixFinger_eq h
      exact hne
  | succ k ih =>
      intro n h hne
      obtain ⟨i, finger, -, hkeep | ⟨rfl, -⟩⟩ := sendFindFingerLoop_cases h
      · exact ih hkeep (not_isEmpty_insert n i finger)
      · exact hne

theorem fixFinger_fingerTable (h : n.fixFinger = .ok (n', acts)) :
    ((n.chordStatus = false ∨ n.successorAddr = n.localAddress) ∧
        n'.fingerTable = n.fingerTable) ∨
      (n.chordStatus = true ∧ n.successorAddr ≠ n.localAddress ∧
        ¬ n'.fingerTable.isEmpty) := by
  rcases fixFinger_cases h with ⟨hskip, rfl, -⟩ | ⟨hmem, hne, hsend⟩
  · exact Or.inl ⟨hskip, rfl⟩
  · exact Or.inr ⟨hmem, hne,
      sendFindFingerLoop_not_isEmpty _ hsend (not_isEmpty_insert n 1 n.successorAddr)⟩

theorem processFindFingerSuccess_fingerTable {finger : Ipv4Address} {i : UInt16}
    (h : n.processFindFingerSuccess finger i = .ok (n', acts)) : ¬ n'.fingerTable.isEmpty :=
  sendFindFingerLoop_not_isEmpty _ h (not_isEmpty_insert n i finger)

theorem lookupPublish_eq_self {key : CxxString} {flag : UInt16} {transactionId : UInt32}
    (h : n.lookupPublish key flag transactionId = .ok (n', acts)) : n' = n := by
  simp only [lookupPublish] at h
  cases hhop : n.findNextHop (sha1Key key) with
  | error f =>
      rw [hhop] at h
      cases h
  | ok hop =>
      rw [hhop] at h
      cases h
      rfl

theorem recvMessage_fingerTable {message : PennChordMessage} {src : Ipv4Address}
    (hmsg : ∀ finger i, message.payload ≠ .findFingerSuccess finger i)
    (h : n.recvMessage message src = .ok (n', acts)) : n'.fingerTable = n.fingerTable := by
  have hF : n.FingersIn fun _ => True := fun _ _ _ => trivial
  rcases recvMessage_view hF h with ⟨m, -, hsim⟩ | ⟨hm, -⟩
  · exact hsim.fingerTable
  · cases htarget : message.target with
    | some target => rw [(recvMessage_target_cases message src htarget h).1]
    | none =>
        obtain ⟨tx, payload⟩ := message
        cases payload with
        | findFingerSuccess finger i => exact absurd rfl (hmsg finger i)
        | ringstate initiator =>
            have hring : (n.processRingstate ⟨tx, .ringstate initiator⟩ initiator).1 = n := by
              unfold processRingstate
              split
              · rfl
              · rfl
            rw [Except.ok.inj h] at hring
            rw [← hring]
        | pingRsp pingMessage =>
            have hping : (n.processPingRsp ⟨tx, .pingRsp pingMessage⟩ src
                pingMessage).1.fingerTable =
                n.fingerTable := by
              unfold processPingRsp
              split
              · rfl
              · rfl
            rw [Except.ok.inj h] at hping
            exact hping
        | pingReq pingMessage =>
            cases h
            rfl
        | joinChordFail =>
            cases h
            rfl
        | lookupPublishSuccess flag key owner =>
            cases h
            rfl
        | _ => simp [ringMessage, PennChordMessage.target] at hm htarget

end ChordNode

end PennSearch
