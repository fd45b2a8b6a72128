import PennSearch.Chord.Handlers

/-!
# What the Chord handlers do, read on the circle

Every arc test of the handlers is the closed arc `Clockwise.InArc`: the lemmas
below restate the handlers with it, and with the addresses of the messages they
send. `findNextHop` is read through the properties of the hop that it returns.
Later modules use these lemmas and never unfold a handler that tests an arc.
-/

namespace PennSearch

open Clockwise

variable [Sha1]

namespace ChordNode

def inOwnArc (n : ChordNode) (t : Fin (2 ^ 160)) : Prop :=
  InArc (nodePos n.localAddress) (nodePos n.successorAddr) t

instance (n : ChordNode) (t : Fin (2 ^ 160)) : Decidable (n.inOwnArc t) :=
  inferInstanceAs (Decidable (InArc _ _ _))

theorem findSuccessor_eq (n : ChordNode) (message : PennChordMessage) (destAddr : Ipv4Address)
    (digest : Digest) :
    n.findSuccessor message destAddr digest =
      if n.inOwnArc digest.pos then
        .ok (n, [replyFindSuccessor message destAddr n.successorAddr])
      else n.sendFindSuccessor message destAddr digest :=
  ite_compareSHA1 Iff.rfl Iff.rfl _ _

theorem processFindFinger_eq (n : ChordNode) (message : PennChordMessage)
    (targetAddr : Ipv4Address) (targetDig : Digest) (targetInd : UInt16) :
    n.processFindFinger message targetAddr targetDig targetInd =
      if n.inOwnArc targetDig.pos then
        .ok (n, [n.replyFindFinger message targetAddr targetInd])
      else do
        let nextHopAddr ← n.findNextHop targetDig
        return (n, [.sendTo nextHopAddr
          ⟨message.transactionId, .findFinger targetAddr targetDig targetInd⟩]) :=
  ite_compareSHA1 Iff.rfl Iff.rfl _ _

theorem processLookupPublish_eq (n : ChordNode) (message : PennChordMessage) (flag : UInt16)
    (initiatorAddress : Ipv4Address) (keyDigest : Digest) (key : CxxString) :
    n.processLookupPublish message flag initiatorAddress keyDigest key =
      if n.inOwnArc keyDigest.pos then
        .ok (n, [n.replyLookupPublishSuccess message flag initiatorAddress key])
      else n.sendLookupPublish message flag initiatorAddress keyDigest key :=
  ite_compareSHA1 Iff.rfl Iff.rfl _ _

theorem processNotify_eq (n : ChordNode) (message : PennChordMessage)
    (sourceAddress : Ipv4Address) :
    n.processNotify message sourceAddress =
      if n.predecessorAddr = .getAny then (n.setPredecessorAddress sourceAddress, [])
      else if InArc (nodePos n.predecessorAddr) (nodePos n.localAddress)
          (nodePos sourceAddress) then
        (n.setPredecessorAddress sourceAddress,
          [.chordJoinNotify sourceAddress message.transactionId])
      else (n, []) := by
  unfold processNotify
  exact if_congr Iff.rfl rfl (ite_compareSHA1 Iff.rfl And.comm _ _)

theorem processStabilizeResp_eq (n : ChordNode) (message : PennChordMessage)
    (predecessorAddress : Ipv4Address) :
    n.processStabilizeResp message predecessorAddress =
      if predecessorAddress ≠ .getAny ∧
          nodePos predecessorAddress ≠ nodePos n.localAddress ∧
          n.inOwnArc (nodePos predecessorAddress) then
        (n.setSuccessorAddress predecessorAddress, [sendNotify message predecessorAddress])
      else (n, []) := by
  have hlocal : compareSHA1 (sha1 predecessorAddress) n.localDigest = 2 ↔
      nodePos predecessorAddress = nodePos n.localAddress := by
    rw [compareSHA1_eq_two_iff]
    exact Digest.pos_injective.eq_iff.symm
  have harc := ite_compareSHA1 (a := n.localDigest) (b := n.successorDigest)
    (t := sha1 predecessorAddress) Iff.rfl And.comm
    (n.setSuccessorAddress predecessorAddress, [sendNotify message predecessorAddress])
    (n, ([] : List ChordAction))
  unfold processStabilizeResp
  by_cases h₁ : predecessorAddress = .getAny
  · simp [h₁]
  · by_cases h₂ : nodePos predecessorAddress = nodePos n.localAddress
    · simp [h₁, h₂, hlocal]
    · simp only [h₁, hlocal, h₂, if_false, harc, ne_eq, not_false_eq_true, true_and]
      rfl

/-! ## Routing -/

theorem findNextHop_eq_error {n : ChordNode} {target : Digest} {f : Fault}
    (h : n.findNextHop target = .error f) :
    f = .fingerTableEmpty ∧ n.fingerTable.isEmpty := by
  unfold findNextHop at h
  split at h
  · rename_i hnil
    cases h
    exact ⟨rfl, by rw [← Std.TreeMap.isEmpty_toList, hnil, List.isEmpty_nil]⟩
  · cases h

theorem findNextHop_of_isEmpty {n : ChordNode} (target : Digest)
    (h : n.fingerTable.isEmpty) : n.findNextHop target = .error .fingerTableEmpty := by
  rw [← Std.TreeMap.isEmpty_toList, List.isEmpty_iff] at h
  simp [findNextHop, h]

theorem findNextHopLoop_cons (n : ChordNode) (target : Digest) (i : UInt16)
    (finger : Ipv4Address) (rest : List (UInt16 × Ipv4Address)) :
    n.findNextHopLoop target ((i, finger) :: rest) =
      if finger ≠ n.localAddress ∧
          InArc (nodePos n.localAddress) target.pos (nodePos finger) then finger
      else n.findNextHopLoop target rest := by
  by_cases h : n.localAddress = finger
  · simp [findNextHopLoop, h]
  · rw [findNextHopLoop, if_neg h, ite_compareSHA1 (or_comm) Iff.rfl]
    exact if_congr (by simp [Ne.symm h, localDigest, nodePos]) rfl rfl

/-- The next hop is the successor, or a finger of another node on the arc from
the node to the target. -/
theorem findNextHopLoop_spec (n : ChordNode) (target : Digest)
    (fingers : List (UInt16 × Ipv4Address)) :
    n.findNextHopLoop target fingers = n.successorAddr ∨
      (n.findNextHopLoop target fingers ∈ fingers.map Prod.snd ∧
        n.findNextHopLoop target fingers ≠ n.localAddress ∧
        InArc (nodePos n.localAddress) target.pos
          (nodePos (n.findNextHopLoop target fingers))) := by
  induction fingers with
  | nil => exact Or.inl rfl
  | cons entry rest ih =>
      obtain ⟨i, finger⟩ := entry
      rw [findNextHopLoop_cons]
      split
      · rename_i h
        exact Or.inr ⟨by simp, h.1, h.2⟩
      · rcases ih with h | ⟨hmem, h⟩
        · exact Or.inl h
        · exact Or.inr ⟨List.mem_cons_of_mem _ hmem, h⟩

theorem findNextHop_spec {n : ChordNode} {target : Digest} {hop : Ipv4Address}
    (h : n.findNextHop target = .ok hop) :
    hop = n.successorAddr ∨
      ((∃ i : UInt16, n.fingerTable[i]? = some hop) ∧ hop ≠ n.localAddress ∧
        InArc (nodePos n.localAddress) target.pos (nodePos hop)) := by
  unfold findNextHop at h
  split at h
  · cases h
  · rename_i first rest hlist
    injection h with h
    subst h
    rcases n.findNextHopLoop_spec target rest.reverse with h | ⟨hmem, h⟩
    · exact Or.inl h
    · obtain ⟨⟨i, finger⟩, hin, heq⟩ := List.mem_map.mp hmem
      have hin' : (i, finger) ∈ n.fingerTable.toList := by
        rw [hlist]
        exact List.mem_cons_of_mem _ (List.mem_reverse.mp hin)
      refine Or.inr ⟨⟨i, ?_⟩, h⟩
      rw [← heq]
      exact Std.TreeMap.mem_toList_iff_getElem?_eq_some.mp hin'

theorem findNextHop_isOk {n : ChordNode} (target : Digest) (h : ¬ n.fingerTable.isEmpty) :
    ∃ hop, n.findNextHop target = .ok hop := by
  cases hhop : n.findNextHop target with
  | ok hop => exact ⟨hop, rfl⟩
  | error f => exact absurd (findNextHop_eq_error hhop).2 h

/-! ## Fingers -/

/-- One round of the loop of `SendFindFinger`: finger `i - 1` is there, and the
loop goes on with a copy of it as finger `i`, or it is asked for finger `i`. -/
theorem sendFindFingerLoop_cases {n n' : ChordNode} {k : ℕ} {acts : List ChordAction}
    (h : n.sendFindFingerLoop (k + 1) = .ok (n', acts)) :
    ∃ (i : UInt16) (finger : Ipv4Address), n.fingerTable[i - 1]? = some finger ∧
      (({ n with fingerTable := n.fingerTable.insert i finger }.sendFindFingerLoop k =
          .ok (n', acts)) ∨
        (n' = n.nextTransactionId ∧ ∃ indexHash,
          acts = [.sendTo finger
            ⟨n.currentTransactionId, .findFinger n.localAddress indexHash i⟩])) := by
  simp only [sendFindFingerLoop] at h
  cases hi : findIndexHash n.localDigest (UInt16.ofNat (160 - k)) with
  | error f =>
      rw [hi] at h
      cases h
  | ok indexHash =>
      cases hp : findIndexHash n.localDigest (UInt16.ofNat (160 - k) - 1) with
      | error f =>
          rw [hi, hp] at h
          cases h
      | ok prevIndexHash =>
          cases hf : n.fingerTable[UInt16.ofNat (160 - k) - 1]? with
          | none =>
              rw [hi, hp, hf] at h
              cases h
          | some finger =>
              rw [hi, hp, hf] at h
              refine ⟨_, finger, hf, ?_⟩
              simp only [bind, Except.bind] at h
              split at h <;> split at h
              · exact Or.inl h
              · cases h
                exact Or.inr ⟨rfl, indexHash, rfl⟩
              · exact Or.inl h
              · cases h
                exact Or.inr ⟨rfl, indexHash, rfl⟩

omit [Sha1] in
theorem scheduleFixFinger_eq {n n' : ChordNode} {acts : List ChordAction}
    (h : n.scheduleFixFinger = .ok (n', acts)) :
    n' = { n with fixFingerTimer := true } ∧ acts = [] := by
  unfold scheduleFixFinger at h
  split at h
  · cases h
  · cases h
    exact ⟨rfl, rfl⟩

/-- `FixFinger` of a member among others starts a round of `SendFindFinger`; any
other node only restarts the timer. -/
theorem fixFinger_cases {n n' : ChordNode} {acts : List ChordAction}
    (h : n.fixFinger = .ok (n', acts)) :
    ((n.chordStatus = false ∨ n.successorAddr = n.localAddress) ∧
        n' = { n with fixFingerTimer := true } ∧ acts = []) ∨
      (n.chordStatus = true ∧ n.successorAddr ≠ n.localAddress ∧
        { n with
          fixFingerTimer := false
          fingerTable := n.fingerTable.insert 1 n.successorAddr }.sendFindFinger 2 =
            .ok (n', acts)) := by
  simp only [fixFinger] at h
  by_cases hskip : n.chordStatus = false ∨ n.successorAddr = n.localAddress
  · rw [if_pos hskip] at h
    obtain ⟨rfl, rfl⟩ := scheduleFixFinger_eq h
    exact Or.inl ⟨hskip, rfl, rfl⟩
  · rw [if_neg hskip] at h
    obtain ⟨hmem, hne⟩ := not_or.mp hskip
    exact Or.inr ⟨by simpa using hmem, hne, h⟩

end ChordNode

end PennSearch
