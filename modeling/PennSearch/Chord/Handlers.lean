import PennSearch.Chord.Node

/-!
# The handlers of `PennChord`

Every function of `penn-chord.cc` that reads or writes the ring state, under
the name it has there. The conditions are kept as the source writes them, with
`compareSHA1` in the place of a truth value; the log output is left out. All
nodes listen on the same port, so a packet is addressed by its node alone.
-/

namespace PennSearch

abbrev ChordResult := Except Fault (ChordNode × List ChordAction)

namespace ChordNode

variable [Sha1]

/-! ## Commands -/

/-- `ProcessCommand` for `JOIN`; `nodeAddr` is the resolved argument. -/
def processJoinCommand (n : ChordNode) (nodeAddr : Ipv4Address) :
    ChordNode × List ChordAction :=
  if n.chordStatus then (n, [])
  else if nodeAddr = n.localAddress then
    (({ n with chordStatus := true }.setSuccessorAddress n.localAddress).setPredecessorAddress
      .getAny, [])
  else if nodeAddr ≠ .getAny then
    (n.nextTransactionId, [.sendTo nodeAddr ⟨n.currentTransactionId, .joinChord⟩])
  else (n, [])

def processLeaveCommand (n : ChordNode) : ChordNode × List ChordAction :=
  if n.chordStatus = false then (n, [])
  else if n.successorAddr = n.localAddress then (n.clear, [])
  else
    let stransactionId := n.currentTransactionId
    let ptransactionId := n.currentTransactionId + 1
    let predecessor :=
      if n.successorAddr = n.predecessorAddr then .getAny else n.predecessorAddr
    (n.nextTransactionId.nextTransactionId.clear,
      [.sendTo n.successorAddr ⟨stransactionId, .leaveSuccessor predecessor⟩,
        .chordLeaveNotify n.successorAddr stransactionId,
        .sendTo n.predecessorAddr ⟨ptransactionId, .leavePredecessor n.successorAddr⟩])

def processRingstateCommand (n : ChordNode) : ChordNode × List ChordAction :=
  if n.chordStatus = false then (n, [])
  else
    (n.nextTransactionId,
      [.sendTo n.successorAddr ⟨n.currentTransactionId, .ringstate n.localAddress⟩])

/-! ## Routing -/

/-- The loop of `FindNextHop` over the fingers that are left, last one first. -/
def findNextHopLoop (n : ChordNode) (targetDigest : Digest) :
    List (UInt16 × Ipv4Address) → Ipv4Address
  | [] => n.successorAddr
  | (_, finger) :: rest =>
      if n.localAddress = finger then n.findNextHopLoop targetDigest rest
      else if compareSHA1 n.localDigest targetDigest ≠ 0 then
        if compareSHA1 targetDigest (sha1 finger) ≠ 0 ∨
            compareSHA1 (sha1 finger) n.localDigest ≠ 0 then finger
        else n.findNextHopLoop targetDigest rest
      else if compareSHA1 targetDigest (sha1 finger) ≠ 0 ∧
          compareSHA1 (sha1 finger) n.localDigest ≠ 0 then finger
      else n.findNextHopLoop targetDigest rest

/-- `FindNextHop`. The iterator runs from the last entry down to, but not
including, the first one. -/
def findNextHop (n : ChordNode) (targetDigest : Digest) : Except Fault Ipv4Address :=
  match n.fingerTable.toList with
  | [] => .error .fingerTableEmpty
  | _ :: rest => .ok (n.findNextHopLoop targetDigest rest.reverse)

/-! ## Joining -/

def sendNotify (message : PennChordMessage) (destAddr : Ipv4Address) : ChordAction :=
  .sendTo destAddr ⟨message.transactionId, .notify⟩

def replyFindSuccessor (message : PennChordMessage) (destAddr successorAddr : Ipv4Address) :
    ChordAction :=
  .sendTo destAddr ⟨message.transactionId, .joinChordSuccess successorAddr⟩

def sendFindSuccessor (n : ChordNode) (message : PennChordMessage) (destAddr : Ipv4Address)
    (targetDigest : Digest) : ChordResult := do
  let nextHopAddr ← n.findNextHop targetDigest
  return (n,
    [.sendTo nextHopAddr ⟨message.transactionId, .findSuccessor destAddr targetDigest⟩])

def findSuccessor (n : ChordNode) (message : PennChordMessage) (destAddr : Ipv4Address)
    (digest : Digest) : ChordResult :=
  if compareSHA1 n.localDigest n.successorDigest ≠ 0 then
    if compareSHA1 digest n.localDigest ≠ 0 ∨ compareSHA1 n.successorDigest digest ≠ 0 then
      .ok (n, [replyFindSuccessor message destAddr n.successorAddr])
    else n.sendFindSuccessor message destAddr digest
  else if compareSHA1 n.successorDigest digest ≠ 0 ∧ compareSHA1 digest n.localDigest ≠ 0 then
    .ok (n, [replyFindSuccessor message destAddr n.successorAddr])
  else n.sendFindSuccessor message destAddr digest

def processJoinChord (n : ChordNode) (message : PennChordMessage)
    (sourceAddress : Ipv4Address) : ChordResult :=
  if n.chordStatus = false then
    .ok (n, [.sendTo sourceAddress ⟨message.transactionId, .joinChordFail⟩])
  else if n.localAddress = n.successorAddr then
    .ok (n.setSuccessorAddress sourceAddress,
      [replyFindSuccessor message sourceAddress n.localAddress,
        sendNotify message sourceAddress])
  else n.findSuccessor message sourceAddress (sha1 sourceAddress)

def processFindSuccessor (n : ChordNode) (message : PennChordMessage)
    (destAddress : Ipv4Address) (targetDigest : Digest) : ChordResult :=
  n.findSuccessor message destAddress targetDigest

def processJoinChordSuccess (n : ChordNode) (message : PennChordMessage)
    (successorAddress : Ipv4Address) : ChordNode × List ChordAction :=
  ((({ n with chordStatus := true }.setSuccessorAddress
      successorAddress).setPredecessorAddress .getAny),
    [sendNotify message successorAddress])

def processNotify (n : ChordNode) (message : PennChordMessage)
    (sourceAddress : Ipv4Address) : ChordNode × List ChordAction :=
  let adopt := (n.setPredecessorAddress sourceAddress,
    [ChordAction.chordJoinNotify sourceAddress message.transactionId])
  if n.predecessorAddr = .getAny then (n.setPredecessorAddress sourceAddress, [])
  else if compareSHA1 n.predecessorDigest n.localDigest ≠ 0 then
    if compareSHA1 (sha1 sourceAddress) n.predecessorDigest ≠ 0 ∨
        compareSHA1 n.localDigest (sha1 sourceAddress) ≠ 0 then adopt
    else (n, [])
  else if compareSHA1 (sha1 sourceAddress) n.predecessorDigest ≠ 0 ∧
      compareSHA1 n.localDigest (sha1 sourceAddress) ≠ 0 then adopt
  else (n, [])

/-! ## Stabilization -/

/-- `Stabilize`, run by its timer. -/
def stabilize (n : ChordNode) : ChordNode × List ChordAction :=
  if n.chordStatus ∧ n.successorAddr ≠ n.localAddress then
    (n.nextTransactionId, [.sendTo n.successorAddr ⟨n.currentTransactionId, .stabilizeReq⟩])
  else (n, [])

def processStabilizeReq (n : ChordNode) (message : PennChordMessage)
    (sourceAddress : Ipv4Address) : ChordNode × List ChordAction :=
  if n.predecessorAddr ≠ .getAny then
    (n, [.sendTo sourceAddress ⟨message.transactionId, .stabilizeResp n.predecessorAddr⟩])
  else (n, [])

def processStabilizeResp (n : ChordNode) (message : PennChordMessage)
    (predecessorAddress : Ipv4Address) : ChordNode × List ChordAction :=
  let adopt := (n.setSuccessorAddress predecessorAddress,
    [sendNotify message predecessorAddress])
  if predecessorAddress = .getAny then (n, [])
  else if compareSHA1 (sha1 predecessorAddress) n.localDigest = 2 then (n, [])
  else if compareSHA1 n.localDigest n.successorDigest ≠ 0 then
    if compareSHA1 (sha1 predecessorAddress) n.localDigest ≠ 0 ∨
        compareSHA1 n.successorDigest (sha1 predecessorAddress) ≠ 0 then adopt
    else (n, [])
  else if compareSHA1 (sha1 predecessorAddress) n.localDigest ≠ 0 ∧
      compareSHA1 n.successorDigest (sha1 predecessorAddress) ≠ 0 then adopt
  else (n, [])

def processRingstate (n : ChordNode) (message : PennChordMessage)
    (initiatorAddress : Ipv4Address) : ChordNode × List ChordAction :=
  if initiatorAddress = n.localAddress then (n, [])
  else (n, [.sendTo n.successorAddr ⟨message.transactionId, .ringstate initiatorAddress⟩])

def processLeaveSuccessor (n : ChordNode) (predecessorAddress : Ipv4Address) :
    ChordNode × List ChordAction :=
  (n.setPredecessorAddress predecessorAddress, [])

def processLeavePredecessor (n : ChordNode) (successorAddress : Ipv4Address) :
    ChordNode × List ChordAction :=
  (n.setSuccessorAddress successorAddress, [])

/-! ## Fingers -/

/-- `m_fixFingerTimer.Schedule`. -/
def scheduleFixFinger (n : ChordNode) : ChordResult :=
  if n.fixFingerTimer then .error .timerRunning
  else .ok ({ n with fixFingerTimer := true }, [])

/-- The loop of `SendFindFinger`. Its argument counts the indices left up to
160, so the loop is at `i = 161 - k`. -/
def sendFindFingerLoop (n : ChordNode) : ℕ → ChordResult
  | 0 => n.scheduleFixFinger
  | k + 1 => do
      let i := UInt16.ofNat (160 - k)
      let indexHash ← findIndexHash n.localDigest i
      let prevIndexHash ← findIndexHash n.localDigest (i - 1)
      match n.fingerTable[i - 1]? with
      | none => .error .fingerMissing
      | some prevFinger =>
          let keep := { n with fingerTable := n.fingerTable.insert i prevFinger }
          let ask := (n.nextTransactionId,
            [ChordAction.sendTo prevFinger
              ⟨n.currentTransactionId, .findFinger n.localAddress indexHash i⟩])
          if compareSHA1 prevIndexHash (sha1 prevFinger) ≠ 0 then
            if compareSHA1 (sha1 prevFinger) indexHash ≠ 0 ∨
                compareSHA1 indexHash prevIndexHash ≠ 0 then keep.sendFindFingerLoop k
            else .ok ask
          else if compareSHA1 (sha1 prevFinger) indexHash ≠ 0 ∧
              compareSHA1 indexHash prevIndexHash ≠ 0 then keep.sendFindFingerLoop k
          else .ok ask

def sendFindFinger (n : ChordNode) (i : UInt16) : ChordResult :=
  n.sendFindFingerLoop (161 - i.toNat)

/-- `FixFinger`, run by its timer, which has expired. -/
def fixFinger (n : ChordNode) : ChordResult :=
  let n := { n with fixFingerTimer := false }
  if n.chordStatus = false ∨ n.successorAddr = n.localAddress then n.scheduleFixFinger
  else { n with fingerTable := n.fingerTable.insert 1 n.successorAddr }.sendFindFinger 2

def replyFindFinger (n : ChordNode) (message : PennChordMessage) (targetAddr : Ipv4Address)
    (targetInd : UInt16) : ChordAction :=
  .sendTo targetAddr ⟨message.transactionId, .findFingerSuccess n.successorAddr targetInd⟩

def processFindFinger (n : ChordNode) (message : PennChordMessage)
    (targetAddr : Ipv4Address) (targetDig : Digest) (targetInd : UInt16) : ChordResult :=
  let forward : ChordResult := do
    let nextHopAddr ← n.findNextHop targetDig
    return (n, [.sendTo nextHopAddr
      ⟨message.transactionId, .findFinger targetAddr targetDig targetInd⟩])
  if compareSHA1 n.localDigest n.successorDigest ≠ 0 then
    if compareSHA1 targetDig n.localDigest ≠ 0 ∨ compareSHA1 n.successorDigest targetDig ≠ 0 then
      .ok (n, [n.replyFindFinger message targetAddr targetInd])
    else forward
  else if compareSHA1 n.successorDigest targetDig ≠ 0 ∧
      compareSHA1 targetDig n.localDigest ≠ 0 then
    .ok (n, [n.replyFindFinger message targetAddr targetInd])
  else forward

def processFindFingerSuccess (n : ChordNode) (fingerAddress : Ipv4Address)
    (fingerIndex : UInt16) : ChordResult :=
  { n with fingerTable := n.fingerTable.insert fingerIndex fingerAddress }.sendFindFinger
    (fingerIndex + 1)

/-! ## Lookups for the search layer -/

def lookupCallback (flag : UInt16) (key : CxxString) (addressResponsible : Ipv4Address)
    (transactionId : UInt32) : List ChordAction :=
  if flag = 0 then [.lookupPublishSuccess key addressResponsible transactionId]
  else if flag = 1 then [.searchInitialSuccess key addressResponsible transactionId]
  else if flag = 2 then [.searchBeginSuccess key addressResponsible transactionId]
  else []

/-- `LookupPublish`, called by the search layer. Neither branch that answers
locally returns, so the lookup is sent on in every case. -/
def lookupPublish (n : ChordNode) (key : CxxString) (flag : UInt16)
    (transactionId : UInt32) : ChordResult := do
  let digestkey := sha1Key key
  let first :=
    if compareSHA1 n.localDigest n.successorDigest ≠ 0 ∧
        (compareSHA1 digestkey n.localDigest ≠ 0 ∨ compareSHA1 n.successorDigest digestkey ≠ 0)
    then lookupCallback flag key n.successorAddr transactionId else []
  let second :=
    if compareSHA1 n.successorDigest digestkey ≠ 0 ∧ compareSHA1 digestkey n.localDigest ≠ 0
    then lookupCallback flag key n.successorAddr transactionId else []
  let nextHopAddr ← n.findNextHop digestkey
  return (n, first ++ second ++
    [.sendTo nextHopAddr ⟨transactionId, .lookupPublish flag n.localAddress digestkey key⟩])

def sendLookupPublish (n : ChordNode) (message : PennChordMessage) (flag : UInt16)
    (initiatorAddress : Ipv4Address) (digestkey : Digest) (key : CxxString) : ChordResult := do
  let nextHopAddr ← n.findNextHop digestkey
  return (n, [.sendTo nextHopAddr
    ⟨message.transactionId, .lookupPublish flag initiatorAddress digestkey key⟩])

def replyLookupPublishSuccess (n : ChordNode) (message : PennChordMessage) (flag : UInt16)
    (initiatorAddress : Ipv4Address) (key : CxxString) : ChordAction :=
  .sendTo initiatorAddress
    ⟨message.transactionId, .lookupPublishSuccess flag key n.successorAddr⟩

def processLookupPublish (n : ChordNode) (message : PennChordMessage) (flag : UInt16)
    (initiatorAddress : Ipv4Address) (keyDigest : Digest) (key : CxxString) : ChordResult :=
  if compareSHA1 n.localDigest n.successorDigest ≠ 0 then
    if compareSHA1 keyDigest n.localDigest ≠ 0 ∨ compareSHA1 n.successorDigest keyDigest ≠ 0 then
      .ok (n, [n.replyLookupPublishSuccess message flag initiatorAddress key])
    else n.sendLookupPublish message flag initiatorAddress keyDigest key
  else if compareSHA1 n.successorDigest keyDigest ≠ 0 ∧
      compareSHA1 keyDigest n.localDigest ≠ 0 then
    .ok (n, [n.replyLookupPublishSuccess message flag initiatorAddress key])
  else n.sendLookupPublish message flag initiatorAddress keyDigest key

/-! ## Pings and dispatch -/

def processPingReq (n : ChordNode) (message : PennChordMessage) (sourceAddress : Ipv4Address)
    (pingMessage : CxxString) : ChordNode × List ChordAction :=
  (n, [.sendTo sourceAddress ⟨message.transactionId, .pingRsp pingMessage⟩,
    .pingRecv sourceAddress pingMessage])

def processPingRsp (n : ChordNode) (message : PennChordMessage) (sourceAddress : Ipv4Address)
    (pingMessage : CxxString) : ChordNode × List ChordAction :=
  if message.transactionId ∈ n.pingTracker then
    ({ n with pingTracker := n.pingTracker.erase message.transactionId },
      [.pingSuccess sourceAddress pingMessage])
  else (n, [])

/-- `RecvMessage`: the dispatch on the message type. -/
def recvMessage (n : ChordNode) (message : PennChordMessage) (sourceAddress : Ipv4Address) :
    ChordResult :=
  match message.payload with
  | .pingReq pingMessage => .ok (n.processPingReq message sourceAddress pingMessage)
  | .pingRsp pingMessage => .ok (n.processPingRsp message sourceAddress pingMessage)
  | .joinChord => n.processJoinChord message sourceAddress
  | .joinChordFail => .ok (n, [])
  | .joinChordSuccess successorAddress =>
      .ok (n.processJoinChordSuccess message successorAddress)
  | .findSuccessor destAddress targetDigest =>
      n.processFindSuccessor message destAddress targetDigest
  | .notify => .ok (n.processNotify message sourceAddress)
  | .stabilizeReq => .ok (n.processStabilizeReq message sourceAddress)
  | .stabilizeResp predecessorAddress =>
      .ok (n.processStabilizeResp message predecessorAddress)
  | .ringstate initiatorAddress => .ok (n.processRingstate message initiatorAddress)
  | .leaveSuccessor predecessorAddress => .ok (n.processLeaveSuccessor predecessorAddress)
  | .leavePredecessor successorAddress => .ok (n.processLeavePredecessor successorAddress)
  | .findFinger targetAddress targetDigest targetIndex =>
      n.processFindFinger message targetAddress targetDigest targetIndex
  | .findFingerSuccess fingerAddress fingerIndex =>
      n.processFindFingerSuccess fingerAddress fingerIndex
  | .lookupPublish flag initiatorAddress lookupDigest lookupKey =>
      n.processLookupPublish message flag initiatorAddress lookupDigest lookupKey
  | .lookupPublishSuccess flag lookupKey addressResponsible =>
      .ok (n, lookupCallback flag lookupKey addressResponsible message.transactionId)

end ChordNode

end PennSearch
