import Std.Data.TreeMap.Lemmas
import PennSearch.Digest

/-!
# Chord messages and the state of one Chord node

`PennChordMessage` has the sixteen message types with their payloads, and
`ChordNode` the fields of `PennChord` that its handlers read or write. A digest
field of the source always holds `SHA_1` of the address field beside it (they
are written together by `SetSuccessorAddress` and `SetPredecessorAddress`), so
the digests are functions of the addresses here.

A handler returns the new state and the actions it performs, in order: packets
handed to `SendTo`, and the calls of the callbacks that the search layer
registered. A `Fault` is a point where the source has no defined behaviour, or
where the simulator aborts.
-/

namespace PennSearch

/-- The payload of a Chord message, one constructor per `MessageType`. -/
inductive ChordPayload
  | pingReq (pingMessage : CxxString)
  | pingRsp (pingMessage : CxxString)
  | joinChord
  | findSuccessor (destAddress : Ipv4Address) (targetDigest : Digest)
  | joinChordSuccess (successorAddress : Ipv4Address)
  | joinChordFail
  | notify
  | stabilizeReq
  | stabilizeResp (predecessorAddress : Ipv4Address)
  | ringstate (initiatorAddress : Ipv4Address)
  | leaveSuccessor (predecessorAddress : Ipv4Address)
  | leavePredecessor (successorAddress : Ipv4Address)
  | findFinger (targetAddress : Ipv4Address) (targetDigest : Digest) (targetIndex : UInt16)
  | findFingerSuccess (fingerAddress : Ipv4Address) (fingerIndex : UInt16)
  | lookupPublish (flag : UInt16) (initiatorAddress : Ipv4Address) (lookupDigest : Digest)
      (lookupKey : CxxString)
  | lookupPublishSuccess (flag : UInt16) (lookupKey : CxxString)
      (addressResponsible : Ipv4Address)
deriving DecidableEq

structure PennChordMessage where
  transactionId : UInt32
  payload : ChordPayload
deriving DecidableEq

/-- `PingRequest`, an entry of the ping tracker. -/
structure PingRequest where
  timestamp : ℕ
  destinationAddress : Ipv4Address
  pingMessage : CxxString
deriving DecidableEq

/-- The state of one `PennChord` object. `fixFingerTimer` says that
`m_fixFingerTimer` is running. -/
structure ChordNode where
  chordStatus : Bool
  localAddress : Ipv4Address
  successorAddr : Ipv4Address
  predecessorAddr : Ipv4Address
  fingerTable : Std.TreeMap UInt16 Ipv4Address
  currentTransactionId : UInt32
  fixFingerTimer : Bool
  pingTracker : Std.TreeMap UInt32 PingRequest

/-- What a Chord handler does besides changing its own state. -/
inductive ChordAction
  | sendTo (destAddress : Ipv4Address) (message : PennChordMessage)
  | chordJoinNotify (predecessorAddress : Ipv4Address) (transactionId : UInt32)
  | chordLeaveNotify (successorAddress : Ipv4Address) (transactionId : UInt32)
  | lookupPublishSuccess (key : CxxString) (addressResponsible : Ipv4Address)
      (transactionId : UInt32)
  | searchInitialSuccess (key : CxxString) (addressResponsible : Ipv4Address)
      (transactionId : UInt32)
  | searchBeginSuccess (key : CxxString) (addressResponsible : Ipv4Address)
      (transactionId : UInt32)
  | pingSuccess (address : Ipv4Address) (pingMessage : CxxString)
  | pingRecv (address : Ipv4Address) (pingMessage : CxxString)
deriving DecidableEq

/-- Undefined behaviour of the source, or an abort of the simulator. -/
inductive Fault
  /-- `--m_fingerTable.end()` on an empty map, in `FindNextHop`. -/
  | fingerTableEmpty
  /-- `m_fingerTable.find(i-1)->second` without an entry, in `SendFindFinger`. -/
  | fingerMissing
  /-- A shift by 65535, in `FindIndexHash(0)`. -/
  | shiftOutOfRange
  /-- `Timer::Schedule` on a running timer, a fatal error of ns-3. -/
  | timerRunning
  /-- `keyList[0]`, or `begin()` dereferenced, on an empty keyword list. -/
  | keyListEmpty
  /-- `m_dataMap.find(key)->second` without an entry, in `ProcessSearch`. -/
  | keyAbsent
  /-- A `uint8_t` or `uint16_t` loop counter that never reaches the size of its list. -/
  | diverges
  /-- `*it` on the empty token list of a line of spaces, in `PUBLISH`. -/
  | tokenMissing
  /-- `strcat` of a path of 50 or more bytes into `char result[50]`, in `PUBLISH`. -/
  | pathOverflow
deriving DecidableEq

namespace ChordNode

/-- The state that `StartApplication` sets up, with the drawn transaction id. -/
def start (localAddress : Ipv4Address) (transactionId : UInt32) : ChordNode where
  chordStatus := false
  localAddress := localAddress
  successorAddr := .getAny
  predecessorAddr := .getAny
  fingerTable := ∅
  currentTransactionId := transactionId
  fixFingerTimer := true
  pingTracker := ∅

def setSuccessorAddress (n : ChordNode) (a : Ipv4Address) : ChordNode :=
  { n with successorAddr := a }

def setPredecessorAddress (n : ChordNode) (a : Ipv4Address) : ChordNode :=
  { n with predecessorAddr := a }

/-- `GetNextTransactionId`: the state after it; the id drawn is the counter before. -/
def nextTransactionId (n : ChordNode) : ChordNode :=
  { n with currentTransactionId := n.currentTransactionId + 1 }

/-- The assignments that `ProcessCommand` makes when the node leaves. -/
def clear (n : ChordNode) : ChordNode :=
  { n with
    chordStatus := false
    successorAddr := .getAny
    predecessorAddr := .getAny
    fingerTable := ∅ }

section Digests

variable [Sha1] (n : ChordNode)

def localDigest : Digest := sha1 n.localAddress

def successorDigest : Digest := sha1 n.successorAddr

def predecessorDigest : Digest := sha1 n.predecessorAddr

end Digests

end ChordNode

/-- The loop of `FindIndexHash`: adds `byteAdded` to the byte before position
`n`, and the carry to the bytes before that one. -/
def findIndexHashLoop (d : Digest) : ℕ → ℕ → Digest
  | 0, _ => d
  | n + 1, byteAdded =>
      if h : n < 20 then
        let sum := d[n].toNat + byteAdded
        if sum ≤ 255 then d.set n (UInt8.ofNat sum)
        else findIndexHashLoop (d.set n (UInt8.ofNat (sum % 256))) n (sum / 256)
      else d

/-- `FindIndexHash`: the start of finger `index`. For index 0 the bit index is `-1`
in 16 bits, and the shift out of range; an index above 160 leaves the digest as it is. -/
def findIndexHash (localDigest : Digest) (index : UInt16) : Except Fault Digest :=
  if index = 0 then .error .shiftOutOfRange
  else
    let byte := (index.toNat - 1) / 8 % 256
    .ok (findIndexHashLoop localDigest (20 - byte) (2 ^ ((index.toNat - 1) % 8)))

def sampleMember (localAddress successorAddr predecessorAddr : Ipv4Address)
    (fingers : List (UInt16 × Ipv4Address)) : ChordNode :=
  { ChordNode.start localAddress 0 with
    chordStatus := true
    successorAddr := successorAddr
    predecessorAddr := predecessorAddr
    fingerTable := Std.TreeMap.ofList fingers }

end PennSearch
