import PennSearch.Chord.FingerStart
import PennSearch.Chord.Simulation

/-!
# The token of finger repair

The finger pass of a node is either waiting for its timer or under way, and then
it is one message: a `FIND_FINGER` that carries the node's address, or the
`FIND_FINGER_SUCCESS` that answers it. `passes` counts both. A step changes the
count of a node only when the next message of its pass goes to 0.0.0.0.
-/

namespace PennSearch

open Clockwise MessagePassing

/-- The packet belongs to the finger pass of node `a`. -/
def OfPass (a : Ipv4Address) (p : ChordPacket) : Bool :=
  match p.msg.payload with
  | .findFinger targetAddress _ _ => targetAddress = a
  | .findFingerSuccess _ _ => p.dst = a
  | _ => false

/-- The messages of a finger pass. -/
def ChordPayload.isFinger : ChordPayload → Bool
  | .findFinger _ _ _ => true
  | .findFingerSuccess _ _ => true
  | _ => false

/-- The actions that send such a message. -/
def ChordAction.isFinger : ChordAction → Bool
  | .sendTo _ message => message.payload.isFinger
  | _ => false

/-- The finger passes of node `a`: one that waits for the timer, and those under
way. -/
def ChordNet.passes (c : ChordNet) (a : Ipv4Address) : ℕ :=
  (if (c.node a).fixFingerTimer then 1 else 0) + c.inFlight.countP (OfPass a)

/-- What a handler leaves alone when it has no part in a finger pass. -/
structure ChordNode.OutOfPass (n n' : ChordNode) (acts : List ChordAction) : Prop where
  localAddress : n'.localAddress = n.localAddress
  fixFingerTimer : n'.fixFingerTimer = n.fixFingerTimer
  acts : ∀ act ∈ acts, act.isFinger = false

theorem countP_sentPackets_of_outOfPass {acts : List ChordAction}
    (h : ∀ act ∈ acts, act.isFinger = false) (src a : Ipv4Address) :
    (sentPackets src acts).countP (OfPass a) = 0 := by
  rw [List.countP_eq_zero]
  intro p hp
  have hact := h _ (mem_sentPackets.mp hp).2.2
  obtain ⟨psrc, pdst, tx, payload⟩ := p
  cases payload <;> simp_all [OfPass, ChordAction.isFinger, ChordPayload.isFinger]

namespace ChordNode

variable {n n' : ChordNode} {acts : List ChordAction}

theorem outOfPass_processJoinCommand (n : ChordNode) (nodeAddr : Ipv4Address) :
    OutOfPass n (n.processJoinCommand nodeAddr).1 (n.processJoinCommand nodeAddr).2 := by
  unfold processJoinCommand
  split_ifs <;> exact ⟨rfl, rfl, by simp [ChordAction.isFinger, ChordPayload.isFinger]⟩

theorem outOfPass_processLeaveCommand (n : ChordNode) :
    OutOfPass n n.processLeaveCommand.1 n.processLeaveCommand.2 := by
  unfold processLeaveCommand
  split_ifs <;> exact ⟨rfl, rfl, by simp [ChordAction.isFinger, ChordPayload.isFinger]⟩

theorem outOfPass_processRingstateCommand (n : ChordNode) :
    OutOfPass n n.processRingstateCommand.1 n.processRingstateCommand.2 := by
  unfold processRingstateCommand
  split_ifs <;> exact ⟨rfl, rfl, by simp [ChordAction.isFinger, ChordPayload.isFinger]⟩

theorem outOfPass_stabilize (n : ChordNode) : OutOfPass n n.stabilize.1 n.stabilize.2 := by
  unfold stabilize
  split_ifs <;> exact ⟨rfl, rfl, by simp [ChordAction.isFinger, ChordPayload.isFinger]⟩

variable [Sha1]

theorem outOfPass_lookupPublish {key : CxxString} {flag : UInt16} {transactionId : UInt32}
    (h : n.lookupPublish key flag transactionId = .ok (n', acts)) : OutOfPass n n' acts := by
  obtain ⟨hop, -, h⟩ := bind_eq_ok.mp h
  obtain ⟨rfl, rfl⟩ := Prod.mk.inj (Except.ok.inj h)
  refine ⟨rfl, rfl, fun act hact => ?_⟩
  have hcallback : ∀ owner, ∀ act ∈ lookupCallback flag key owner transactionId,
      act.isFinger = false := by
    intro owner
    unfold lookupCallback
    split_ifs <;> simp [ChordAction.isFinger]
  rw [List.mem_append, List.mem_append, List.mem_singleton] at hact
  rcases hact with (hact | hact) | rfl
  · split at hact
    · exact hcallback _ act hact
    · cases hact
  · split at hact
    · exact hcallback _ act hact
    · cases hact
  · rfl

theorem outOfPass_recvMessage {message : PennChordMessage} {src : Ipv4Address}
    (hmsg : message.payload.isFinger = false) (h : n.recvMessage message src = .ok (n', acts)) :
    OutOfPass n n' acts := by
  have htarget : ∀ target, message.target = some target → OutOfPass n n' acts := by
    intro target htarget
    obtain ⟨rfl, ⟨-, rfl⟩ | ⟨-, hop, -, rfl⟩⟩ := recvMessage_target_cases message src htarget h
    · refine ⟨rfl, rfl, ?_⟩
      obtain ⟨tx, payload⟩ := message
      cases payload <;>
        simp_all [PennChordMessage.target, PennChordMessage.answer, ChordAction.isFinger,
          ChordPayload.isFinger]
    · exact ⟨rfl, rfl, by simpa [ChordAction.isFinger] using hmsg⟩
  obtain ⟨tx, payload⟩ := message
  cases payload with
  | findSuccessor destAddress targetDigest => exact htarget targetDigest rfl
  | lookupPublish flag initiatorAddress lookupDigest lookupKey => exact htarget lookupDigest rfl
  | findFinger targetAddress targetDigest targetIndex => cases hmsg
  | findFingerSuccess fingerAddress fingerIndex => cases hmsg
  | joinChord =>
      simp only [recvMessage, processJoinChord] at h
      split at h
      · cases h
        exact ⟨rfl, rfl, by simp [ChordAction.isFinger, ChordPayload.isFinger]⟩
      · split at h
        · cases h
          exact ⟨rfl, rfl, by
            simp [ChordAction.isFinger, ChordPayload.isFinger, replyFindSuccessor, sendNotify]⟩
        · have hF : n.HopIn (fun _ => True) (sha1 src) := fun _ _ => Or.inr trivial
          obtain ⟨rfl, ⟨-, rfl⟩ | ⟨-, hop, -, rfl⟩⟩ := findSuccessor_cases hF h
          · exact ⟨rfl, rfl, by
              simp [ChordAction.isFinger, ChordPayload.isFinger, replyFindSuccessor]⟩
          · exact ⟨rfl, rfl, by simp [ChordAction.isFinger, ChordPayload.isFinger]⟩
  | notify =>
      have hout : OutOfPass n (n.processNotify ⟨tx, .notify⟩ src).1
          (n.processNotify ⟨tx, .notify⟩ src).2 := by
        rw [processNotify_eq]
        split_ifs <;> exact ⟨rfl, rfl, by simp [ChordAction.isFinger]⟩
      rw [Except.ok.inj h] at hout
      exact hout
  | stabilizeReq =>
      have hout : OutOfPass n (n.processStabilizeReq ⟨tx, .stabilizeReq⟩ src).1
          (n.processStabilizeReq ⟨tx, .stabilizeReq⟩ src).2 := by
        unfold processStabilizeReq
        split_ifs <;> exact ⟨rfl, rfl, by simp [ChordAction.isFinger, ChordPayload.isFinger]⟩
      rw [Except.ok.inj h] at hout
      exact hout
  | stabilizeResp q =>
      have hout : OutOfPass n (n.processStabilizeResp ⟨tx, .stabilizeResp q⟩ q).1
          (n.processStabilizeResp ⟨tx, .stabilizeResp q⟩ q).2 := by
        rw [processStabilizeResp_eq]
        split_ifs <;>
          exact ⟨rfl, rfl, by simp [ChordAction.isFinger, ChordPayload.isFinger, sendNotify]⟩
      rw [Except.ok.inj h] at hout
      exact hout
  | ringstate initiator =>
      have hout : OutOfPass n (n.processRingstate ⟨tx, .ringstate initiator⟩ initiator).1
          (n.processRingstate ⟨tx, .ringstate initiator⟩ initiator).2 := by
        unfold processRingstate
        split_ifs <;> exact ⟨rfl, rfl, by simp [ChordAction.isFinger, ChordPayload.isFinger]⟩
      rw [Except.ok.inj h] at hout
      exact hout
  | pingRsp pingMessage =>
      have hout : OutOfPass n (n.processPingRsp ⟨tx, .pingRsp pingMessage⟩ src pingMessage).1
          (n.processPingRsp ⟨tx, .pingRsp pingMessage⟩ src pingMessage).2 := by
        unfold processPingRsp
        split_ifs <;> exact ⟨rfl, rfl, by simp [ChordAction.isFinger]⟩
      rw [Except.ok.inj h] at hout
      exact hout
  | lookupPublishSuccess flag lookupKey owner =>
      cases h
      refine ⟨rfl, rfl, ?_⟩
      unfold lookupCallback
      split_ifs <;> simp [ChordAction.isFinger]
  | _ =>
      cases h
      exact ⟨rfl, rfl, by
        simp [ChordAction.isFinger, ChordPayload.isFinger, sendNotify]⟩

end ChordNode

def Asks [Sha1] (x : Fin (2 ^ 160)) (finger : Ipv4Address) (i : ℕ) : Prop :=
  ∃ j, i ≤ j ∧ j ≤ 160 ∧ ¬ Reuses x finger j

theorem ChordNode.sendFindFinger_eq [Sha1] {n n' : ChordNode} {acts : List ChordAction} {i : UInt16}
    {finger : Ipv4Address} (hprev : n.fingerTable[i - 1]? = some finger)
    (h : n.sendFindFinger i = .ok (n', acts)) :
    n'.localAddress = n.localAddress ∧
      ((¬ Asks (nodePos n.localAddress) finger i.toNat ∧ n'.fixFingerTimer = true ∧ acts = []) ∨
        (Asks (nodePos n.localAddress) finger i.toNat ∧ n'.fixFingerTimer = n.fixFingerTimer ∧
          ∃ tx e j, acts = [.sendTo finger ⟨tx, .findFinger n.localAddress e j⟩])) := by
  unfold sendFindFinger at h
  by_cases hlow : i.toNat < 2
  · -- a call at index 0 or 1 asks for the start point of finger 0
    have hfault : ∀ r, n.sendFindFingerLoop (161 - i.toNat) ≠ .ok r := by
      intro r hr
      have hi : i = 0 ∨ i = 1 := by
        rcases Nat.lt_succ_iff_lt_or_eq.mp hlow with h | h
        · exact Or.inl (UInt16.toNat_inj.mp (Nat.lt_one_iff.mp h))
        · exact Or.inr (UInt16.toNat_inj.mp h)
      rcases hi with rfl | rfl
      · simp [sendFindFingerLoop, findIndexHash, bind, Except.bind] at hr
      · have hone : 161 - (1 : UInt16).toNat = 159 + 1 := rfl
        rw [hone, sendFindFingerLoop] at hr
        simp [findIndexHash, bind, Except.bind] at hr
    exact absurd h (hfault _)
  · by_cases hhigh : 161 ≤ i.toNat
    · rw [Nat.sub_eq_zero_of_le hhigh] at h
      obtain ⟨rfl, rfl⟩ := scheduleFixFinger_eq h
      refine ⟨rfl, Or.inl ⟨?_, rfl, rfl⟩⟩
      rintro ⟨j, hij, hj, -⟩
      omega
    · have hpred : i - 1 = UInt16.ofNat (i.toNat - 1) := by
        apply UInt16.toNat_inj.mp
        rw [UInt16.toNat_sub_of_le _ _
            (by rw [UInt16.le_iff_toNat_le]; exact (by omega : 1 ≤ i.toNat)),
          UInt16.toNat_ofNat']
        simp
        omega
      rw [hpred] at hprev
      obtain ⟨j, t, hij, hall, -, ⟨rfl, hend⟩ | ⟨hj, hreuse, e, -, hend⟩⟩ :=
        sendFindFingerLoop_spec (161 - i.toNat) (by omega) (by omega) hprev
      · rw [h] at hend
        obtain ⟨rfl, rfl⟩ := scheduleFixFinger_eq hend.symm
        refine ⟨rfl, Or.inl ⟨?_, rfl, rfl⟩⟩
        rintro ⟨j, hij, hj, hreuse⟩
        exact hreuse (hall j hij (by omega))
      · rw [h] at hend
        obtain ⟨rfl, rfl⟩ := Prod.mk.inj (Except.ok.inj hend)
        exact ⟨rfl, Or.inr ⟨⟨j, hij, hj, hreuse⟩, rfl, _, e, _, rfl⟩⟩

/-- The step takes the next message of the pass of node `b` to 0.0.0.0. -/
def ChordNet.LosesPass [Sha1] (c : ChordNet) (b : Ipv4Address) : ChordEvent → Prop
  | .fixFinger a => b = a ∧ (c.node a).fixFingerTimer = true ∧ (c.node a).chordStatus = true ∧
      (c.node a).successorAddr ≠ (c.node a).localAddress ∧
      Asks (nodePos (c.node a).localAddress) (c.node a).successorAddr 2 ∧
      (c.node a).successorAddr = .getAny
  | .deliver k => ∃ p ∈ c.inFlight[k]?,
      match p.msg.payload with
      | .findFinger targetAddress targetDigest _ => b = targetAddress ∧
          ¬ (c.node p.dst).inOwnArc targetDigest.pos ∧
          (c.node p.dst).findNextHop targetDigest = .ok .getAny
      | .findFingerSuccess fingerAddress fingerIndex => b = p.dst ∧
          Asks (nodePos (c.node p.dst).localAddress) fingerAddress (fingerIndex + 1).toNat ∧
          fingerAddress = .getAny
      | _ => False
  | _ => False

namespace ChordNet

variable {c c' c₀ : ChordNet} {e : ChordEvent} {a b : Ipv4Address} {n : ChordNode}
  {acts : List ChordAction}

theorem passes_act (c : ChordNet) (a : Ipv4Address) (n : ChordNode) (acts : List ChordAction)
    (b : Ipv4Address) :
    passes (c.act a n (sentPackets a acts)) b =
      (if (if b = a then n else c.node b).fixFingerTimer then 1 else 0) +
        c.inFlight.countP (OfPass b) + (sentPackets a acts).countP (OfPass b) := by
  rw [passes, Net.act_node, Net.act_inFlight, List.countP_append, Nat.add_assoc]

theorem countP_sendTo (src dst b : Ipv4Address) (message : PennChordMessage) :
    (sentPackets src [.sendTo dst message]).countP (OfPass b) =
      if dst ≠ .getAny ∧ OfPass b ⟨src, dst, message⟩ = true then 1 else 0 := by
  by_cases hdst : dst = .getAny
  · simp [sentPackets, hdst]
  · simp [sentPackets, hdst, List.countP_cons]

theorem passes_outOfPass (h : ChordNode.OutOfPass (c.node a) n acts) (b : Ipv4Address) :
    passes (c.act a n (sentPackets a acts)) b = c.passes b := by
  rw [passes_act, countP_sentPackets_of_outOfPass h.acts, Nat.add_zero, passes]
  by_cases hb : b = a
  · subst hb
    rw [if_pos rfl, h.fixFingerTimer]
  · rw [if_neg hb]

section Step

variable [Sha1]

theorem passes_fixFinger (hlocal : (c.node a).localAddress = a)
    (htimer : (c.node a).fixFingerTimer = true) (h : (c.node a).fixFinger = .ok (n, acts))
    (hone : c.passes b = 1) :
    passes (c.act a n (sentPackets a acts)) b = 1 ↔ ¬ c.LosesPass b (.fixFinger a) := by
  rw [passes_act]
  by_cases hba : b = a
  · subst hba
    have hflight : c.inFlight.countP (OfPass b) = 0 := by
      rw [passes, if_pos htimer] at hone
      omega
    rw [if_pos rfl, hflight]
    rcases ChordNode.fixFinger_cases h with ⟨hskip, rfl, rfl⟩ | ⟨hmem, hne, hsend⟩
    · refine iff_of_true rfl ?_
      rintro ⟨-, -, hmem, hne, -⟩
      rcases hskip with hout | hself
      · rw [hmem] at hout
        cases hout
      · exact hne hself
    · obtain ⟨-, ⟨hasks, hn, rfl⟩ | ⟨hasks, hn, tx, e, j, rfl⟩⟩ :=
        @ChordNode.sendFindFinger_eq _ _ _ _ 2 (c.node b).successorAddr (by simp) hsend
      · rw [hn]
        exact iff_of_true rfl fun h => hasks h.2.2.2.2.1
      · rw [hn, countP_sendTo]
        have hof : OfPass b ⟨b, (c.node b).successorAddr, ⟨tx, .findFinger
            (c.node b).localAddress e j⟩⟩ = true := by
          simp [OfPass, hlocal]
        by_cases hany : (c.node b).successorAddr = .getAny
        · refine iff_of_false (by simp [hany]) (not_not.mpr ?_)
          exact ⟨rfl, htimer, hmem, hne, hasks, hany⟩
        · refine iff_of_true (by simp [hany, hof]) ?_
          exact fun h => hany h.2.2.2.2.2
  · have hsent : (sentPackets a acts).countP (OfPass b) = 0 := by
      rcases ChordNode.fixFinger_cases h with ⟨-, -, rfl⟩ | ⟨-, -, hsend⟩
      · rfl
      · obtain ⟨-, ⟨-, -, rfl⟩ | ⟨-, -, tx, e, j, rfl⟩⟩ :=
          @ChordNode.sendFindFinger_eq _ _ _ _ 2 (c.node a).successorAddr (by simp) hsend
        · rfl
        · rw [countP_sendTo]
          simp [OfPass, hlocal, Ne.symm hba]
    rw [if_neg hba, hsent, Nat.add_zero]
    exact iff_of_true hone fun h => hba h.1

theorem passes_findFinger {k : ℕ} {p : ChordPacket} (hp : c.inFlight[k]? = some p)
    {target : Ipv4Address} {digest : Digest} {i : UInt16}
    (hpayload : p.msg.payload = .findFinger target digest i)
    (h : (c.node p.dst).recvMessage p.msg p.src = .ok (n, acts))
    (hb : b ≠ .getAny) (hone : c.passes b = 1) :
    passes ((c.take k).act p.dst n (sentPackets p.dst acts)) b = 1 ↔
      ¬ c.LosesPass b (.deliver k) := by
  have hloses : c.LosesPass b (.deliver k) ↔ b = target ∧ ¬ (c.node p.dst).inOwnArc digest.pos ∧
      (c.node p.dst).findNextHop digest = .ok .getAny := by
    simp [LosesPass, hp, hpayload]
  have hpof : OfPass b p = decide (target = b) := by
    simp [OfPass, hpayload]
  have hsame : n = c.node p.dst ∧ passes ((c.take k).act p.dst n (sentPackets p.dst acts)) b +
      (if target = b then 1 else 0) = c.passes b + (sentPackets p.dst acts).countP (OfPass b) := by
    have hn : n = c.node p.dst :=
      (ChordNode.recvMessage_target_cases p.msg p.src
        (by rw [PennChordMessage.target, hpayload]) h).1
    refine ⟨hn, ?_⟩
    have htimer : (if b = p.dst then n else (c.take k).node b).fixFingerTimer =
        (c.node b).fixFingerTimer := by
      split
      · rename_i hbd
        rw [hn, hbd]
      · rfl
    rw [passes_act, htimer, passes, countP_eq_eraseIdx _ hp, hpof, Net.take_inFlight]
    simp only [decide_eq_true_eq]
    omega
  obtain ⟨-, hcount⟩ := hsame
  rw [hloses]
  obtain ⟨-, ⟨hown, rfl⟩ | ⟨hown, hop, hhop, rfl⟩⟩ :=
    ChordNode.recvMessage_target_cases p.msg p.src (by rw [PennChordMessage.target, hpayload]) h
  · have hanswer : (sentPackets p.dst [.sendTo p.msg.requester
        (p.msg.answer (c.node p.dst).successorAddr)]).countP (OfPass b) =
          if target = b then 1 else 0 := by
      rw [countP_sendTo]
      by_cases htb : target = b
      · simp [OfPass, PennChordMessage.answer, PennChordMessage.requester, hpayload, htb, hb]
      · simp [OfPass, PennChordMessage.answer, PennChordMessage.requester, hpayload, htb]
    rw [hanswer] at hcount
    exact iff_of_true (by omega) fun h => h.2.1 hown
  · rw [countP_sendTo] at hcount
    have hof : OfPass b ⟨p.dst, hop, p.msg⟩ = decide (target = b) := by
      simp [OfPass, hpayload]
    rw [hof] at hcount
    rw [hhop]
    by_cases htb : target = b
    · by_cases hany : hop = .getAny
      · rw [if_pos htb, if_neg fun h => h.1 hany] at hcount
        exact iff_of_false (by omega) (not_not.mpr ⟨htb.symm, hown, by rw [hany]⟩)
      · rw [if_pos htb, if_pos ⟨hany, decide_eq_true htb⟩] at hcount
        exact iff_of_true (by omega) fun h => hany (Except.ok.inj h.2.2)
    · rw [if_neg htb, if_neg fun h => htb (of_decide_eq_true h.2)] at hcount
      exact iff_of_true (by omega) fun h => htb h.1.symm

theorem passes_findFingerSuccess (hlocal : ∀ a, (c.node a).localAddress = a) {k : ℕ}
    {p : ChordPacket} (hp : c.inFlight[k]? = some p) {finger : Ipv4Address} {i : UInt16}
    (hpayload : p.msg.payload = .findFingerSuccess finger i)
    (h : (c.node p.dst).recvMessage p.msg p.src = .ok (n, acts)) (hone : c.passes b = 1) :
    passes ((c.take k).act p.dst n (sentPackets p.dst acts)) b = 1 ↔
      ¬ c.LosesPass b (.deliver k) := by
  have hloses : c.LosesPass b (.deliver k) ↔ b = p.dst ∧
      Asks (nodePos (c.node p.dst).localAddress) finger (i + 1).toNat ∧ finger = .getAny := by
    simp [LosesPass, hp, hpayload]
  have hsend : { c.node p.dst with
      fingerTable := (c.node p.dst).fingerTable.insert i finger }.sendFindFinger (i + 1) =
        .ok (n, acts) := by
    obtain ⟨src, dst, tx, payload⟩ := p
    obtain rfl : payload = .findFingerSuccess finger i := hpayload
    exact h
  have hcases := @ChordNode.sendFindFinger_eq _ _ _ _ _ finger (by simp) hsend
  have hpof : OfPass b p = decide (p.dst = b) := by
    simp [OfPass, hpayload]
  rw [hloses, passes_act, Net.take_inFlight]
  rw [passes, countP_eq_eraseIdx _ hp, hpof] at hone
  by_cases hbd : b = p.dst
  · subst hbd
    simp only [decide_true, if_true] at hone
    have htimer : (c.node p.dst).fixFingerTimer = false := by
      by_contra htimer
      rw [Bool.not_eq_false] at htimer
      rw [if_pos htimer] at hone
      omega
    rw [htimer] at hone
    simp only [Bool.false_eq_true, if_false, if_pos] at hone ⊢
    obtain ⟨-, ⟨hasks, hn, rfl⟩ | ⟨hasks, hn, tx, e, j, rfl⟩⟩ := hcases
    · rw [hn]
      refine iff_of_true ?_ fun h => hasks h.2.1
      simp only [if_true, sentPackets, List.filterMap_nil, List.countP_nil]
      omega
    · rw [hn, countP_sendTo]
      have hof : ∀ dst, OfPass p.dst ⟨p.dst, dst, ⟨tx, .findFinger
          (c.node p.dst).localAddress e j⟩⟩ = true := by
        simp [OfPass, hlocal]
      simp only [htimer, Bool.false_eq_true, if_false]
      by_cases hany : finger = .getAny
      · simp only [hany, ne_eq, not_true_eq_false, false_and, if_false]
        refine iff_of_false (by omega) (not_not.mpr ⟨trivial, ?_, trivial⟩)
        rw [← hany]
        exact hasks
      · rw [if_pos ⟨hany, hof finger⟩]
        exact iff_of_true (by omega) fun h => hany h.2.2
  · have hsent : (sentPackets p.dst acts).countP (OfPass b) = 0 := by
      obtain ⟨-, ⟨-, -, rfl⟩ | ⟨-, -, tx, e, j, rfl⟩⟩ := hcases
      · rfl
      · rw [countP_sendTo]
        simp [OfPass, hlocal, Ne.symm hbd]
    simp only [Ne.symm hbd, decide_false, Bool.false_eq_true, if_false, Nat.zero_add] at hone
    rw [if_neg hbd, hsent, Nat.add_zero, Net.take_node]
    exact iff_of_true hone fun h => hbd h.1

/-- One step: the pass of a node goes on, exactly if its next message is not lost. -/
theorem passes_step (hlocal : ∀ a, (c.node a).localAddress = a) (h : c.step e = .ok c')
    (hb : b ≠ .getAny) (hone : c.passes b = 1) : c'.passes b = 1 ↔ ¬ c.LosesPass b e := by
  have hquiet : ∀ {a : Ipv4Address} {n : ChordNode} {acts : List ChordAction},
      ChordNode.OutOfPass (c.node a) n acts → c' = c.act a n (sentPackets a acts) →
        ¬ c.LosesPass b e → (c'.passes b = 1 ↔ ¬ c.LosesPass b e) := by
    rintro a n acts hout rfl hkeep
    rw [passes_outOfPass hout]
    exact iff_of_true hone hkeep
  rcases step_cases h with ⟨hnone, rfl⟩ | ⟨c₀, a, n, acts, hturn, rfl⟩
  · refine iff_of_true hone ?_
    cases e with
    | fixFinger a =>
        rintro ⟨-, htimer, -⟩
        simp [turn, htimer] at hnone
    | deliver k =>
        rintro ⟨p, hp, -⟩
        rw [turn_deliver hp] at hnone
        cases hnone
    | _ => exact id
  · cases e with
    | join b nodeAddr =>
        obtain ⟨rfl, rfl, hr⟩ : _ = _ ∧ _ = _ ∧ _ = _ := by simpa [turn] using hturn
        have hout := (c.node b).outOfPass_processJoinCommand nodeAddr
        rw [hr] at hout
        exact hquiet hout rfl id
    | leave b =>
        obtain ⟨rfl, rfl, hr⟩ : _ = _ ∧ _ = _ ∧ _ = _ := by simpa [turn] using hturn
        have hout := (c.node b).outOfPass_processLeaveCommand
        rw [hr] at hout
        exact hquiet hout rfl id
    | ringstate b =>
        obtain ⟨rfl, rfl, hr⟩ : _ = _ ∧ _ = _ ∧ _ = _ := by simpa [turn] using hturn
        have hout := (c.node b).outOfPass_processRingstateCommand
        rw [hr] at hout
        exact hquiet hout rfl id
    | stabilize b =>
        obtain ⟨rfl, rfl, hr⟩ : _ = _ ∧ _ = _ ∧ _ = _ := by simpa [turn] using hturn
        have hout := (c.node b).outOfPass_stabilize
        rw [hr] at hout
        exact hquiet hout rfl id
    | lookupPublish b key flag transactionId =>
        obtain ⟨rfl, rfl, hr⟩ : _ = _ ∧ _ = _ ∧ _ = _ := by simpa [turn] using hturn
        exact hquiet (ChordNode.outOfPass_lookupPublish hr) rfl id
    | fixFinger b =>
        simp only [turn] at hturn
        split at hturn
        · rename_i htimer
          obtain ⟨rfl, rfl, hr⟩ : _ = _ ∧ _ = _ ∧ _ = _ := by simpa using hturn
          exact passes_fixFinger (hlocal _) htimer hr hone
        · cases hturn
    | deliver k =>
        simp only [turn] at hturn
        split at hturn
        · cases hturn
        · rename_i p hp
          obtain ⟨rfl, rfl, hr⟩ : _ = _ ∧ _ = _ ∧ _ = _ := by simpa using hturn
          cases hfinger : p.msg.payload.isFinger with
          | false =>
              have hout := ChordNode.outOfPass_recvMessage hfinger hr
              have hpof : OfPass b p = false := by
                obtain ⟨src, dst, tx, payload⟩ := p
                cases payload <;> first | rfl | cases hfinger
              have hkeep : ¬ c.LosesPass b (.deliver k) := by
                rintro ⟨q, hq, hloses⟩
                obtain rfl : p = q := Option.some.inj (hp.symm.trans hq)
                obtain ⟨src, dst, tx, payload⟩ := p
                cases payload <;> first | exact hloses | cases hfinger
              rw [passes_outOfPass (c := c.take k) hout]
              refine iff_of_true ?_ hkeep
              rw [passes, countP_eq_eraseIdx _ hp, hpof] at hone
              rw [passes, Net.take_node, Net.take_inFlight]
              simpa using hone
          | true =>
              cases hpayload : p.msg.payload with
              | findFinger target digest i => exact passes_findFinger hp hpayload hr hb hone
              | findFingerSuccess finger i =>
                  exact passes_findFingerSuccess hlocal hp hpayload hr hone
              | _ =>
                  rw [hpayload] at hfinger
                  cases hfinger

end Step

end ChordNet

/-- Finger repair. In every run from the start, every started node has exactly one
finger pass, waiting or under way, in all states exactly if no step takes the next
message of a pass to 0.0.0.0. -/
theorem one_pass_iff [Sha1] {transactionId : Ipv4Address → UInt32} {es : List ChordEvent}
    {t : ChordNet}
    (hrun : Run ChordNet.step (fun _ _ => True) (ChordNet.start transactionId) es t) :
    (∀ pre u, pre <+: es →
        Run ChordNet.step (fun _ _ => True) (ChordNet.start transactionId) pre u →
          ∀ a, a ≠ .getAny → u.passes a = 1) ↔
      Run ChordNet.step (fun u e => ∀ a, a ≠ .getAny → ¬ u.LosesPass a e)
        (ChordNet.start transactionId) es t := by
  have hstep : ∀ u e v, (∀ a, (u.node a).localAddress = a) →
      (∀ a, a ≠ .getAny → u.passes a = 1) → True → ChordNet.step u e = .ok v →
        (∀ a, (v.node a).localAddress = a) ∧
          ((∀ a, a ≠ .getAny → v.passes a = 1) ↔ ∀ a, a ≠ .getAny → ¬ u.LosesPass a e) := by
    intro u e v hlocal hone _ hstep
    have hlocal' : ∀ a, (v.node a).localAddress = a :=
      (ChordNet.step_view (F := fun _ _ => True) hlocal (fun _ _ _ _ => trivial) hstep).2
    refine ⟨hlocal', forall_congr' fun a => forall_congr' fun ha => ?_⟩
    exact ChordNet.passes_step hlocal hstep ha (hone a ha)
  refine (hrun.always_iff ⟨fun _ => rfl, fun _ _ => rfl⟩ hstep).trans ⟨fun h => ?_, fun h => ?_⟩
  · exact h.mono fun _ _ he => he.2
  · exact h.mono fun _ _ he => ⟨trivial, he⟩

end PennSearch

namespace PennSearch

open MessagePassing

attribute [local instance] sampleSha1

/-- D joins A, and then A repairs its fingers. -/
def samplePass : List ChordEvent :=
  [.join sampleA sampleA, .join sampleD sampleA, .deliver 0, .deliver 0, .deliver 0, .deliver 0,
    .fixFinger sampleA]

theorem one_pass_iff_sample :
    ∃ t, Run ChordNet.step (fun _ _ => True) (ChordNet.start fun _ => 0) samplePass t ∧
      (t.node sampleA).fixFingerTimer = false ∧ t.inFlight.countP (OfPass sampleA) = 1 ∧
      ((∀ pre u, pre <+: samplePass →
          Run ChordNet.step (fun _ _ => True) (ChordNet.start fun _ => 0) pre u →
            ∀ a, a ≠ .getAny → u.passes a = 1) ↔
        Run ChordNet.step (fun u e => ∀ a, a ≠ .getAny → ¬ u.LosesPass a e)
          (ChordNet.start fun _ => 0) samplePass t) := by
  have hexec : ((execute ChordNet.step (fun _ _ => True) (ChordNet.start fun _ => 0)
      samplePass).map fun t => decide ((t.node sampleA).fixFingerTimer = false ∧
        t.inFlight.countP (OfPass sampleA) = 1)) = some true := by decide +kernel
  obtain ⟨t, ht, hpass⟩ := Option.map_eq_some_iff.mp hexec
  obtain ⟨htimer, hcount⟩ := of_decide_eq_true hpass
  exact ⟨t, Run.of_execute ht, htimer, hcount, one_pass_iff (Run.of_execute ht)⟩

/-- A relays the join of E to D, which leaves before it gets the request, answers
it all the same, and names 0.0.0.0. E takes that for its successor, and asks it for
a finger. All channels are first in, first out. -/
theorem finger_repair_stops :
    ∃ t, Run ChordNet.step ChordNet.Fifo (ChordNet.start fun _ => 0)
        [.join sampleA sampleA, .join sampleD sampleA, .deliver 0, .deliver 0, .deliver 0,
          .deliver 0, .fixFinger sampleA, .deliver 0, .join sampleE sampleA, .deliver 1,
          .leave sampleD, .deliver 1, .deliver 3, .fixFinger sampleE] t ∧
      t.passes sampleE = 0 := by
  have hexec : ((execute ChordNet.step ChordNet.Fifo (ChordNet.start fun _ => 0)
      [.join sampleA sampleA, .join sampleD sampleA, .deliver 0, .deliver 0, .deliver 0,
        .deliver 0, .fixFinger sampleA, .deliver 0, .join sampleE sampleA, .deliver 1,
        .leave sampleD, .deliver 1, .deliver 3, .fixFinger sampleE]).map
      fun t => t.passes sampleE) = some 0 := by decide +kernel
  obtain ⟨t, ht, hpasses⟩ := Option.map_eq_some_iff.mp hexec
  exact ⟨t, Run.of_execute ht, hpasses⟩

end PennSearch
