import PennSearch.Library.Intersection
import PennSearch.Search.Message

/-!
# The handlers of `PennSearch`

The state of one `PennSearch` object and the functions of `penn-search.cc` that
publish, search and hand postings over, under the names they have there. A
handler returns the new state and its actions in order: packets handed to the
socket, calls of `PennChord::LookupPublish`, and the results that a search
prints. The other log output is left out, and so are the pings that the search
layer sends itself.
-/

namespace PennSearch

structure SearchData where
  initiatorAddress : Ipv4Address
  keyList : List CxxString
  docList : List CxxString
deriving DecidableEq

/-- The postings of a `std::map<std::string, std::vector<std::string>>`. -/
abbrev PostingMap := Std.TreeMap CxxString (List CxxString)

structure SearchNode where
  localAddress : Ipv4Address
  currentTransactionId : UInt32
  invertListMap : PostingMap
  dataMap : PostingMap
  searchTracker : Std.TreeMap UInt32 SearchData
  pingTracker : Std.TreeMap UInt32 PingRequest

inductive SearchAction
  | sendTo (destAddress : Ipv4Address) (message : PennSearchMessage)
  | lookupPublish (lookupKey : CxxString) (flag : UInt16) (transactionId : UInt32)
  | searchResults (docList : List CxxString)
deriving DecidableEq

abbrev SearchResult := Except Fault (SearchNode × List SearchAction)

/-- `AddHeader` and `SendTo`: the header is encoded, or counts for ever. -/
def PennSearchMessage.sendTo (message : PennSearchMessage) (destAddress : Ipv4Address) :
    Except Fault SearchAction :=
  if message.countable then .ok (.sendTo destAddress message) else .error .diverges

/-! ## Text -/

/-- The loop of `Tokenizer` on what follows the last token; every round takes
at least one character. -/
def tokenizerLoop (delimiters : CxxString) : ℕ → CxxString → List CxxString
  | 0, _ => []
  | fuel + 1, str =>
      match str.dropWhile (· ∈ delimiters) with
      | [] => []
      | rest =>
          rest.takeWhile (· ∉ delimiters) ::
            tokenizerLoop delimiters fuel (rest.dropWhile (· ∉ delimiters))

def tokenizer (str delimiters : CxxString) : List CxxString :=
  tokenizerLoop delimiters (str.length + 1) str

/-- `FindIntersection`: both lists are sorted, and `std::set_intersection` is
taken of them. -/
def findIntersection (v1 v2 : List CxxString) : List CxxString :=
  Intersection.sortedIntersection v1 v2

/-- One keyword of a metadata line: the document is pushed back on its entry. -/
def PostingMap.pushBack (m : PostingMap) (docx keyWord : CxxString) : PostingMap :=
  match m[keyWord]? with
  | none => m.insert keyWord [docx]
  | some docName => m.insert keyWord (docName ++ [docx])

/-- One line of the metadata file. A line of spaces has no token for `*it`. -/
def PostingMap.invertLine (m : PostingMap) (line : CxxString) : Except Fault PostingMap :=
  if line = [] then .ok m
  else
    match tokenizer line [32] with
    | [] => .error .tokenMissing
    | docx :: keyWords => .ok (keyWords.foldl (fun m keyWord => m.pushBack docx keyWord) m)

/-- The entries of a received list are pushed back on the entry of its key. -/
def PostingMap.store (m : PostingMap) (key : CxxString) (recVect : List CxxString) :
    PostingMap :=
  match m[key]? with
  | none => m.insert key recVect
  | some docs => m.insert key (docs ++ recVect)

namespace SearchNode

def start (localAddress : Ipv4Address) (transactionId : UInt32) : SearchNode where
  localAddress := localAddress
  currentTransactionId := transactionId
  invertListMap := ∅
  dataMap := ∅
  searchTracker := ∅
  pingTracker := ∅

/-- `GetNextTransactionId`: the state after it; the id drawn is the counter before. -/
def nextTransactionId (n : SearchNode) : SearchNode :=
  { n with currentTransactionId := n.currentTransactionId + 1 }

/-! ## Publishing -/

def publishLoop (n : SearchNode) : List CxxString → SearchNode × List SearchAction
  | [] => (n, [])
  | key :: rest =>
      let (n', acts) := n.nextTransactionId.publishLoop rest
      (n', .lookupPublish key 0 n.currentTransactionId :: acts)

def publish (n : SearchNode) : SearchNode × List SearchAction :=
  n.publishLoop n.invertListMap.keys

/-- `ProcessCommand` for `PUBLISH`. `lines` is what `getline` reads from the
file, `none` when it does not open. The path is copied into 50 bytes. -/
def processPublishCommand (n : SearchNode) (filename : CxxString)
    (lines : Option (List CxxString)) : SearchResult :=
  if 50 ≤ filename.length then .error .pathOverflow
  else
    let n := { n with invertListMap := ∅ }
    match lines with
    | none => .ok (n, [])
    | some lines => do
        let invertListMap ← lines.foldlM PostingMap.invertLine ∅
        return { n with invertListMap := invertListMap }.publish

def sendInvertList (n : SearchNode) (key : CxxString) (addressResponsible : Ipv4Address)
    (transactionId : UInt32) : SearchResult :=
  match n.invertListMap[key]? with
  | none => .ok (n, [])
  | some docVector => do
      let act ← PennSearchMessage.sendTo ⟨transactionId, .storeList key docVector⟩
        addressResponsible
      return (n, [act])

/-- `ProcessStoreList`; its first loop only logs, with a `uint16_t` counter. -/
def processStoreList (n : SearchNode) (key : CxxString) (recVect : List CxxString) :
    SearchResult :=
  if 65536 ≤ recVect.length then .error .diverges
  else .ok ({ n with dataMap := n.dataMap.store key recVect }, [])

/-! ## Searching -/

/-- `ProcessCommand` for `SEARCH`; `nodeAddr` is the resolved first argument. -/
def processSearchCommand (n : SearchNode) (nodeAddr : Ipv4Address) (keyList : List CxxString) :
    SearchResult :=
  if nodeAddr = .getAny then .ok (n, [])
  else do
    let act ← PennSearchMessage.sendTo
      ⟨n.currentTransactionId, .searchInitial n.localAddress keyList⟩ nodeAddr
    return (n.nextTransactionId, [act])

/-- `m_searchTracker.insert`, which keeps an entry that is there. -/
def track (n : SearchNode) (transactionId : UInt32) (searchData : SearchData) : SearchNode :=
  { n with searchTracker := n.searchTracker.insertIfNew transactionId searchData }

def processSearchInitial (n : SearchNode) (message : PennSearchMessage)
    (initiatorAddress : Ipv4Address) (keyList : List CxxString) : SearchResult :=
  match keyList with
  | [] => .error .keyListEmpty
  | key :: _ =>
      .ok (n.track message.transactionId ⟨initiatorAddress, keyList, []⟩,
        [.lookupPublish key 1 message.transactionId])

def sendSearchBegin (n : SearchNode) (addressResponsible : Ipv4Address)
    (transactionId : UInt32) : SearchResult :=
  match n.searchTracker[transactionId]? with
  | none => .ok (n, [])
  | some ⟨initiatorAddress, keyList, docList⟩ => do
      let act ← PennSearchMessage.sendTo
        ⟨transactionId, .searchBegin initiatorAddress keyList docList⟩ addressResponsible
      return ({ n with searchTracker := n.searchTracker.erase transactionId }, [act])

def sendSearchComplete (n : SearchNode) (initiatorAddress : Ipv4Address)
    (keyList docList : List CxxString) (transactionId : UInt32) : SearchResult := do
  let act ← PennSearchMessage.sendTo ⟨transactionId, .searchComplete keyList docList⟩
    initiatorAddress
  return (n, [act])

/-- The end of `ProcessSearchBegin` and `ProcessSearch`: the search is complete
when no keyword or no document is left, and goes on with the next keyword
otherwise. -/
def continueSearch (n : SearchNode) (message : PennSearchMessage)
    (initiatorAddress : Ipv4Address) (currentKeyList currentDocList : List CxxString) :
    SearchResult :=
  match currentKeyList with
  | [] => n.sendSearchComplete initiatorAddress [] currentDocList message.transactionId
  | key :: _ =>
      if currentDocList = [] then
        n.sendSearchComplete initiatorAddress currentKeyList currentDocList message.transactionId
      else
        .ok (n.track message.transactionId ⟨initiatorAddress, currentKeyList, currentDocList⟩,
          [.lookupPublish key 2 message.transactionId])

def processSearchBegin (n : SearchNode) (message : PennSearchMessage)
    (initiatorAddress : Ipv4Address) (keyList : List CxxString) : SearchResult :=
  match keyList with
  | [] => .error .keyListEmpty
  | key :: currentKeyList =>
      match n.dataMap[key]? with
      | none => n.sendSearchComplete initiatorAddress currentKeyList [] message.transactionId
      | some currentDocList =>
          n.continueSearch message initiatorAddress currentKeyList currentDocList

def sendSearch (n : SearchNode) (addressResponsible : Ipv4Address)
    (transactionId : UInt32) : SearchResult :=
  match n.searchTracker[transactionId]? with
  | none => .ok (n, [])
  | some ⟨initiatorAddress, keyList, docList⟩ => do
      let act ← PennSearchMessage.sendTo
        ⟨transactionId, .search initiatorAddress keyList docList⟩ addressResponsible
      return ({ n with searchTracker := n.searchTracker.erase transactionId }, [act])

/-- `ProcessSearch`. It takes the posting list of the keyword without a test. -/
def processSearch (n : SearchNode) (message : PennSearchMessage)
    (initiatorAddress : Ipv4Address) (keyList docList : List CxxString) : SearchResult :=
  match keyList with
  | [] => .error .keyListEmpty
  | key :: currentKeyList =>
      match n.dataMap[key]? with
      | none => .error .keyAbsent
      | some currentDocList =>
          n.continueSearch message initiatorAddress currentKeyList
            (findIntersection currentDocList docList)

/-- `ProcessSearchComplete`. Both loops count with a `uint8_t`. -/
def processSearchComplete (n : SearchNode) (keyList docList : List CxxString) : SearchResult :=
  if 256 ≤ docList.length ∨ 256 ≤ keyList.length then .error .diverges
  else .ok (n, [.searchResults docList])

/-! ## Handing postings over -/

def processPassKeys (n : SearchNode) (key : CxxString) (recVect : List CxxString) :
    SearchNode × List SearchAction :=
  ({ n with dataMap := n.dataMap.store key recVect }, [])

def passKeysLeaveLoop (n : SearchNode) (successorAddress : Ipv4Address) :
    List (CxxString × List CxxString) → SearchResult
  | [] => .ok ({ n with dataMap := ∅ }, [])
  | (key, docVector) :: rest => do
      let act ← PennSearchMessage.sendTo ⟨n.currentTransactionId, .passKeys key docVector⟩
        successorAddress
      let (n', acts) ← n.nextTransactionId.passKeysLeaveLoop successorAddress rest
      return (n', act :: acts)

def passKeysLeave (n : SearchNode) (successorAddress : Ipv4Address) : SearchResult :=
  n.passKeysLeaveLoop successorAddress n.dataMap.toList

/-! ## Pings -/

def processPingReq (n : SearchNode) (message : PennSearchMessage) (sourceAddress : Ipv4Address)
    (pingMessage : CxxString) : SearchNode × List SearchAction :=
  (n, [.sendTo sourceAddress ⟨message.transactionId, .pingRsp pingMessage⟩])

def processPingRsp (n : SearchNode) (message : PennSearchMessage) :
    SearchNode × List SearchAction :=
  ({ n with pingTracker := n.pingTracker.erase message.transactionId }, [])

/-- `RecvMessage`: the dispatch on the message type. -/
def recvMessage (n : SearchNode) (message : PennSearchMessage) (sourceAddress : Ipv4Address) :
    SearchResult :=
  match message.payload with
  | .pingReq pingMessage => .ok (n.processPingReq message sourceAddress pingMessage)
  | .pingRsp _ => .ok (n.processPingRsp message)
  | .storeList key docVector => n.processStoreList key docVector
  | .searchInitial initiatorAddress keyList =>
      n.processSearchInitial message initiatorAddress keyList
  | .searchBegin initiatorAddress keyList _ =>
      n.processSearchBegin message initiatorAddress keyList
  | .search initiatorAddress keyList docList =>
      n.processSearch message initiatorAddress keyList docList
  | .searchComplete keyList docList => n.processSearchComplete keyList docList
  | .passKeys key docVector => .ok (n.processPassKeys key docVector)

variable [Sha1]

/-- The test of `PassKeysJoin` for a key that stays. -/
def keepsKey (n : SearchNode) (predecessorAddress : Ipv4Address) (key : CxxString) : Bool :=
  let predHash := sha1 predecessorAddress
  let localHash := sha1 n.localAddress
  let digestHash := sha1Key key
  if compareSHA1 predHash localHash ≠ 0 then
    compareSHA1 digestHash predHash ≠ 0 ∨ compareSHA1 localHash digestHash ≠ 0
  else compareSHA1 digestHash predHash ≠ 0 ∧ compareSHA1 localHash digestHash ≠ 0

def passKeysJoinLoop (n : SearchNode) (predecessorAddress : Ipv4Address) :
    List (CxxString × List CxxString) → SearchResult
  | [] => .ok (n, [])
  | (key, docVector) :: rest =>
      if n.keepsKey predecessorAddress key then n.passKeysJoinLoop predecessorAddress rest
      else do
        let act ← PennSearchMessage.sendTo ⟨n.currentTransactionId, .passKeys key docVector⟩
          predecessorAddress
        let (n', acts) ← { n.nextTransactionId with
          dataMap := n.dataMap.erase key }.passKeysJoinLoop predecessorAddress rest
        return (n', act :: acts)

def passKeysJoin (n : SearchNode) (predecessorAddress : Ipv4Address) : SearchResult :=
  n.passKeysJoinLoop predecessorAddress n.dataMap.toList

/-- The callbacks that the search layer registers with the Chord layer. -/
def handleChord (n : SearchNode) : ChordAction → SearchResult
  | .chordJoinNotify predecessorAddress _ => n.passKeysJoin predecessorAddress
  | .chordLeaveNotify successorAddress _ => n.passKeysLeave successorAddress
  | .lookupPublishSuccess key addressResponsible transactionId =>
      n.sendInvertList key addressResponsible transactionId
  | .searchInitialSuccess _ addressResponsible transactionId =>
      n.sendSearchBegin addressResponsible transactionId
  | .searchBeginSuccess _ addressResponsible transactionId =>
      n.sendSearch addressResponsible transactionId
  | _ => .ok (n, [])

end SearchNode

end PennSearch
