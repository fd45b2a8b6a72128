import PennSearch.Chord.FingerStart
import PennSearch.Search.Conservation

/-!
# The arc tests, read as one circular interval

The decision whether a digest lies on an arc is written out with `compareSHA1` in
eight functions. `OnArc` is what all of them decide: with the digests read as
numbers, the distance from the start of the arc modulo `2 ^ 160` is at most that
of its end, and an arc whose end points agree is the whole circle.
-/

namespace PennSearch

open Clockwise

/-- `t` lies on the arc from `a` to `b`; differences are modulo `2 ^ 160`. -/
def OnArc (a b t : Digest) : Prop := a = b ∨ t.pos - a.pos ≤ b.pos - a.pos

instance (a b t : Digest) : Decidable (OnArc a b t) := inferInstanceAs (Decidable (_ ∨ _))

theorem onArc_iff {a b t : Digest} : OnArc a b t ↔ InArc a.pos b.pos t.pos := by
  rw [OnArc, InArc, Digest.pos_injective.eq_iff, Fin.le_def, cwDist_eq_sub, cwDist_eq_sub]

theorem branch_iff_onArc (a b t : Digest) :
    (if compareSHA1 a b ≠ 0 then compareSHA1 t a ≠ 0 ∨ compareSHA1 b t ≠ 0
      else compareSHA1 b t ≠ 0 ∧ compareSHA1 t a ≠ 0) ↔ OnArc a b t := by
  rw [onArc_iff, ← inArc_iff_branch]
  simp only [compareSHA1_ne_zero_iff]

variable [Sha1]

namespace ChordNode

theorem findSuccessor_onArc (n : ChordNode) (message : PennChordMessage)
    (destAddr : Ipv4Address) (digest : Digest) :
    n.findSuccessor message destAddr digest =
      if OnArc n.localDigest n.successorDigest digest then
        .ok (n, [replyFindSuccessor message destAddr n.successorAddr])
      else n.sendFindSuccessor message destAddr digest := by
  rw [findSuccessor_eq]
  exact if_congr onArc_iff.symm rfl rfl

theorem processFindFinger_onArc (n : ChordNode) (message : PennChordMessage)
    (targetAddr : Ipv4Address) (targetDig : Digest) (targetInd : UInt16) :
    n.processFindFinger message targetAddr targetDig targetInd =
      if OnArc n.localDigest n.successorDigest targetDig then
        .ok (n, [n.replyFindFinger message targetAddr targetInd])
      else do
        let nextHopAddr ← n.findNextHop targetDig
        return (n, [.sendTo nextHopAddr
          ⟨message.transactionId, .findFinger targetAddr targetDig targetInd⟩]) := by
  rw [processFindFinger_eq]
  exact if_congr onArc_iff.symm rfl rfl

theorem processLookupPublish_onArc (n : ChordNode) (message : PennChordMessage) (flag : UInt16)
    (initiatorAddress : Ipv4Address) (keyDigest : Digest) (key : CxxString) :
    n.processLookupPublish message flag initiatorAddress keyDigest key =
      if OnArc n.localDigest n.successorDigest keyDigest then
        .ok (n, [n.replyLookupPublishSuccess message flag initiatorAddress key])
      else n.sendLookupPublish message flag initiatorAddress keyDigest key := by
  rw [processLookupPublish_eq]
  exact if_congr onArc_iff.symm rfl rfl

theorem processNotify_onArc {n : ChordNode} (hpred : n.predecessorAddr ≠ .getAny)
    (message : PennChordMessage) (sourceAddress : Ipv4Address) :
    n.processNotify message sourceAddress =
      if OnArc n.predecessorDigest n.localDigest (sha1 sourceAddress) then
        (n.setPredecessorAddress sourceAddress,
          [.chordJoinNotify sourceAddress message.transactionId])
      else (n, []) := by
  rw [processNotify_eq, if_neg hpred]
  exact if_congr onArc_iff.symm rfl rfl

theorem processStabilizeResp_onArc {n : ChordNode} {predecessorAddress : Ipv4Address}
    (hany : predecessorAddress ≠ .getAny) (hlocal : sha1 predecessorAddress ≠ n.localDigest)
    (message : PennChordMessage) :
    n.processStabilizeResp message predecessorAddress =
      if OnArc n.localDigest n.successorDigest (sha1 predecessorAddress) then
        (n.setSuccessorAddress predecessorAddress, [sendNotify message predecessorAddress])
      else (n, []) := by
  have hne : nodePos predecessorAddress ≠ nodePos n.localAddress :=
    fun h => hlocal (Digest.pos_injective h)
  rw [processStabilizeResp_eq]
  refine if_congr (Iff.trans ?_ onArc_iff.symm) rfl rfl
  exact ⟨fun h => h.2.2, fun h => ⟨hany, hne, h⟩⟩

/-- A round of `SendFindFinger`: the last finger is copied when the start of the next
one lies on the arc from the last start to the last finger. -/
theorem sendFindFingerLoop_onArc (n : ChordNode) {k : ℕ} {i : UInt16}
    {indexHash prevIndexHash : Digest} {prevFinger : Ipv4Address}
    (hi : i = UInt16.ofNat (160 - k)) (hindex : findIndexHash n.localDigest i = .ok indexHash)
    (hprev : findIndexHash n.localDigest (i - 1) = .ok prevIndexHash)
    (hfinger : n.fingerTable[i - 1]? = some prevFinger) :
    n.sendFindFingerLoop (k + 1) =
      if OnArc prevIndexHash (sha1 prevFinger) indexHash then
        { n with fingerTable := n.fingerTable.insert i prevFinger }.sendFindFingerLoop k
      else .ok (n.nextTransactionId, [.sendTo prevFinger
        ⟨n.currentTransactionId, .findFinger n.localAddress indexHash i⟩]) := by
  rw [sendFindFingerLoop, ← hi, hindex, hprev, hfinger]
  refine Eq.trans (ite_compareSHA1 (a := prevIndexHash) (b := sha1 prevFinger) (t := indexHash)
    or_comm Iff.rfl _ _) ?_
  exact if_congr onArc_iff.symm rfl rfl

theorem findNextHopLoop_onArc {n : ChordNode} {finger : Ipv4Address}
    (hfinger : finger ≠ n.localAddress) (targetDigest : Digest) (i : UInt16)
    (rest : List (UInt16 × Ipv4Address)) :
    n.findNextHopLoop targetDigest ((i, finger) :: rest) =
      if OnArc n.localDigest targetDigest (sha1 finger) then finger
      else n.findNextHopLoop targetDigest rest := by
  rw [findNextHopLoop_cons]
  refine if_congr (Iff.trans ?_ onArc_iff.symm) rfl rfl
  exact ⟨fun h => h.2, fun h => ⟨hfinger, h⟩⟩

end ChordNode

namespace SearchNode

theorem keepsKey_iff_onArc (n : SearchNode) (predecessorAddress : Ipv4Address)
    (key : CxxString) :
    n.keepsKey predecessorAddress key = true ↔
      OnArc (sha1 predecessorAddress) (sha1 n.localAddress) (sha1Key key) := by
  rw [keepsKey_iff, onArc_iff]
  rfl

theorem passKeysJoinLoop_onArc (n : SearchNode) (predecessorAddress : Ipv4Address)
    (key : CxxString) (docVector : List CxxString) (rest : List (CxxString × List CxxString)) :
    n.passKeysJoinLoop predecessorAddress ((key, docVector) :: rest) =
      if OnArc (sha1 predecessorAddress) (sha1 n.localAddress) (sha1Key key) then
        n.passKeysJoinLoop predecessorAddress rest
      else do
        let act ← PennSearchMessage.sendTo ⟨n.currentTransactionId, .passKeys key docVector⟩
          predecessorAddress
        let (n', acts) ← { n.nextTransactionId with
          dataMap := n.dataMap.erase key }.passKeysJoinLoop predecessorAddress rest
        return (n', act :: acts) := by
  rw [passKeysJoinLoop]
  exact if_congr (n.keepsKey_iff_onArc predecessorAddress key) rfl rfl

end SearchNode

/-- The branches decide the circular interval, in all eight functions. The digests of the
nodes are those of any addresses, and `Sha1` is any function. -/
theorem arc_tests_are_circular_intervals :
    (∀ a b t : Digest,
      (if compareSHA1 a b ≠ 0 then compareSHA1 t a ≠ 0 ∨ compareSHA1 b t ≠ 0
        else compareSHA1 b t ≠ 0 ∧ compareSHA1 t a ≠ 0) ↔ OnArc a b t) ∧
    (∀ (n : ChordNode) (message : PennChordMessage) (destAddr : Ipv4Address) (digest : Digest),
      n.findSuccessor message destAddr digest =
        if OnArc n.localDigest n.successorDigest digest then
          .ok (n, [ChordNode.replyFindSuccessor message destAddr n.successorAddr])
        else n.sendFindSuccessor message destAddr digest) ∧
    (∀ (n : ChordNode) (message : PennChordMessage) (targetAddr : Ipv4Address)
        (targetDig : Digest) (targetInd : UInt16),
      n.processFindFinger message targetAddr targetDig targetInd =
        if OnArc n.localDigest n.successorDigest targetDig then
          .ok (n, [n.replyFindFinger message targetAddr targetInd])
        else do
          let nextHopAddr ← n.findNextHop targetDig
          return (n, [.sendTo nextHopAddr
            ⟨message.transactionId, .findFinger targetAddr targetDig targetInd⟩])) ∧
    (∀ (n : ChordNode) (message : PennChordMessage) (flag : UInt16)
        (initiatorAddress : Ipv4Address) (keyDigest : Digest) (key : CxxString),
      n.processLookupPublish message flag initiatorAddress keyDigest key =
        if OnArc n.localDigest n.successorDigest keyDigest then
          .ok (n, [n.replyLookupPublishSuccess message flag initiatorAddress key])
        else n.sendLookupPublish message flag initiatorAddress keyDigest key) ∧
    (∀ (n : ChordNode) (message : PennChordMessage) (sourceAddress : Ipv4Address),
      n.predecessorAddr ≠ .getAny →
      n.processNotify message sourceAddress =
        if OnArc n.predecessorDigest n.localDigest (sha1 sourceAddress) then
          (n.setPredecessorAddress sourceAddress,
            [.chordJoinNotify sourceAddress message.transactionId])
        else (n, [])) ∧
    (∀ (n : ChordNode) (message : PennChordMessage) (predecessorAddress : Ipv4Address),
      predecessorAddress ≠ .getAny → sha1 predecessorAddress ≠ n.localDigest →
      n.processStabilizeResp message predecessorAddress =
        if OnArc n.localDigest n.successorDigest (sha1 predecessorAddress) then
          (n.setSuccessorAddress predecessorAddress,
            [ChordNode.sendNotify message predecessorAddress])
        else (n, [])) ∧
    (∀ (n : ChordNode) (k : ℕ) (indexHash prevIndexHash : Digest) (prevFinger : Ipv4Address),
      findIndexHash n.localDigest (UInt16.ofNat (160 - k)) = .ok indexHash →
      findIndexHash n.localDigest (UInt16.ofNat (160 - k) - 1) = .ok prevIndexHash →
      n.fingerTable[UInt16.ofNat (160 - k) - 1]? = some prevFinger →
      n.sendFindFingerLoop (k + 1) =
        if OnArc prevIndexHash (sha1 prevFinger) indexHash then
          { n with fingerTable :=
            n.fingerTable.insert (UInt16.ofNat (160 - k)) prevFinger }.sendFindFingerLoop k
        else .ok (n.nextTransactionId, [.sendTo prevFinger
          ⟨n.currentTransactionId,
            .findFinger n.localAddress indexHash (UInt16.ofNat (160 - k))⟩])) ∧
    (∀ (n : ChordNode) (targetDigest : Digest) (i : UInt16) (finger : Ipv4Address)
        (rest : List (UInt16 × Ipv4Address)), finger ≠ n.localAddress →
      n.findNextHopLoop targetDigest ((i, finger) :: rest) =
        if OnArc n.localDigest targetDigest (sha1 finger) then finger
        else n.findNextHopLoop targetDigest rest) ∧
    (∀ (n : SearchNode) (predecessorAddress : Ipv4Address) (key : CxxString)
        (docVector : List CxxString) (rest : List (CxxString × List CxxString)),
      n.passKeysJoinLoop predecessorAddress ((key, docVector) :: rest) =
        if OnArc (sha1 predecessorAddress) (sha1 n.localAddress) (sha1Key key) then
          n.passKeysJoinLoop predecessorAddress rest
        else do
          let act ← PennSearchMessage.sendTo ⟨n.currentTransactionId, .passKeys key docVector⟩
            predecessorAddress
          let (n', acts) ← { n.nextTransactionId with
            dataMap := n.dataMap.erase key }.passKeysJoinLoop predecessorAddress rest
          return (n', act :: acts)) :=
  ⟨branch_iff_onArc, ChordNode.findSuccessor_onArc, ChordNode.processFindFinger_onArc,
    ChordNode.processLookupPublish_onArc,
    fun _ message sourceAddress hpred =>
      ChordNode.processNotify_onArc hpred message sourceAddress,
    fun _ message _ hany hlocal => ChordNode.processStabilizeResp_onArc hany hlocal message,
    fun n _ _ _ _ hindex hprev hfinger =>
      n.sendFindFingerLoop_onArc rfl hindex hprev hfinger,
    fun _ targetDigest i _ rest hfinger =>
      ChordNode.findNextHopLoop_onArc hfinger targetDigest i rest,
    SearchNode.passKeysJoinLoop_onArc⟩

end PennSearch

namespace PennSearch

attribute [local instance] sampleSha1

/-- The tests that have a condition, at B with predecessor and successor A: it is notified
by D and told of it, goes on to its second finger, and looks for the next hop. -/
theorem arc_tests_are_circular_intervals_sample :
    let n := sampleMember sampleB sampleA sampleA [(1, sampleA)]
    let message : PennChordMessage := ⟨1, .notify⟩
    n.processNotify message sampleD =
        (if OnArc n.predecessorDigest n.localDigest (sha1 sampleD) then
          (n.setPredecessorAddress sampleD, [.chordJoinNotify sampleD 1])
        else (n, [])) ∧
      n.processStabilizeResp message sampleD =
        (if OnArc n.localDigest n.successorDigest (sha1 sampleD) then
          (n.setSuccessorAddress sampleD, [ChordNode.sendNotify message sampleD])
        else (n, [])) ∧
      (∃ indexHash prevIndexHash, findIndexHash n.localDigest 2 = .ok indexHash ∧
        findIndexHash n.localDigest 1 = .ok prevIndexHash ∧
        n.sendFindFingerLoop 159 =
          if OnArc prevIndexHash (sha1 sampleA) indexHash then
            { n with fingerTable := n.fingerTable.insert 2 sampleA }.sendFindFingerLoop 158
          else .ok (n.nextTransactionId, [.sendTo sampleA
            ⟨n.currentTransactionId, .findFinger n.localAddress indexHash 2⟩])) ∧
      n.findNextHopLoop (sha1 sampleC) [(1, sampleA)] =
        (if OnArc n.localDigest (sha1 sampleC) (sha1 sampleA) then sampleA
        else n.findNextHopLoop (sha1 sampleC) []) := by
  intro n message
  obtain ⟨-, -, -, -, hnotify, hresp, hfinger, hhop, -⟩ := arc_tests_are_circular_intervals
  exact ⟨hnotify n message sampleD (by decide),
    hresp n message sampleD (by decide) (by decide),
    ⟨_, _, rfl, rfl, hfinger n 158 _ _ sampleA rfl rfl (by decide)⟩,
    hhop n (sha1 sampleC) 1 sampleA [] (by decide)⟩

end PennSearch
