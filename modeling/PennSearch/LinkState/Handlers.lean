import PennSearch.LinkState.RouteTable

/-!
# The handlers of `LSRoutingProtocol`

The functions of `ls-routing-protocol.cc` that discover neighbours, flood LSPs
and route packets, under the names they have there. A handler returns the new
state and what it sends on which sockets. The log output is left out, and so are
the commands, `AuditPings` and what `RouteOutput` leaves to the static routes.
-/

namespace PennSearch

open MessagePassing

def neighbourDiscoveryText : CxxString := "Neighbour Discovery".toUTF8.toList

/-- The text of an LSP of the node itself, and of one that it forwards. -/
def lspText : CxxString := "LSP".toUTF8.toList

def forwardingText : CxxString := "Forwarding LSPs".toUTF8.toList

/-- What `RouteOutput` fills in; the output device is that of `interfaceAddr`. -/
structure LsRoute where
  destination : Ipv4Address
  source : Ipv4Address
  gateway : Ipv4Address
  interfaceAddr : Ipv4Address
deriving DecidableEq

namespace RouteMapDetails

/-- The details at the start of `UpdateMap`. -/
def empty (nodeAddr : Ipv4Address) : RouteMapDetails where
  nodeAddr := nodeAddr
  neighborList := []
  neighborListAddr := []
  neighborListCost := []
  costs := rfl

def push (details : RouteMapDetails) (neighborAddr : Ipv4Address) (number : UInt32) :
    RouteMapDetails where
  nodeAddr := details.nodeAddr
  neighborList := details.neighborList ++ [number]
  neighborListAddr := details.neighborListAddr ++ [neighborAddr]
  neighborListCost := details.neighborListCost ++ [1]
  costs := by rw [details.costs, List.length_append, List.replicate_add]; rfl

end RouteMapDetails

/-- What `UpdateMap` enters for an originator and the neighbours that its LSP lists. -/
def AddressMaps.routeMapDetails (maps : AddressMaps) (nodeAddr : Ipv4Address)
    (neighborAddrlist : List Ipv4Address) : Except LsFault RouteMapDetails :=
  neighborAddrlist.foldlM (fun details neighborAddr => do
    let number ← maps.numberOf neighborAddr
    return details.push neighborAddr number) (RouteMapDetails.empty nodeAddr)

variable [CostQueue]

namespace LsNode

/-- `RouteOutput`: `none` is left to the static routes. -/
def routeOutput (n : LsNode) (destination : Ipv4Address) : Except LsFault (Option LsRoute) := do
  let node ← n.maps.numberOf destination
  match n.routeTable[node]? with
  | none => return none
  | some details =>
      let neighbor ← findIn .neighborTable n.neighborTable details.nextHopNumber
      return some ⟨destination, n.mainAddress, details.nextHopAddr, neighbor.interfaceAddr⟩

def broadcastPacket (n : LsNode) (message : LSMessage) : List (LsSocket × LSMessage) :=
  n.socketAddresses.keys.map fun socket => (socket, message)

/-- `ForwardPacket`: not on the socket where it came from. -/
def forwardPacket (n : LsNode) (message : LSMessage) (socket : LsSocket) :
    List (LsSocket × LSMessage) :=
  (n.socketAddresses.keys.filter (· ≠ socket)).map fun socket => (socket, message)

def isOwnAddress (n : LsNode) (originatorAddress : Ipv4Address) : Bool :=
  n.socketAddresses.toList.any fun interface => originatorAddress = interface.2

/-- `GetNextSequenceNumber`: the state after it; the number drawn is the counter before. -/
def nextSequenceNumber (n : LsNode) : LsNode :=
  { n with currentSequenceNumber := n.currentSequenceNumber + 1 }

/-! ## Pings -/

def processPingReq (n : LsNode) (m : LSMessage) (ping : LsPing) : LsResult :=
  if n.isOwnAddress ping.destinationAddress then
    .ok (n, n.broadcastPacket ⟨m.sequenceNumber, n.maxTTL, n.mainAddress,
      .pingRsp ⟨m.originatorAddress, ping.pingMessage⟩⟩)
  else .ok (n, [])

def processPingRsp (n : LsNode) (m : LSMessage) (ping : LsPing) : LsResult :=
  if n.isOwnAddress ping.destinationAddress then
    .ok ({ n with pingTracker := n.pingTracker.erase m.sequenceNumber }, [])
  else .ok (n, [])

/-! ## Neighbour discovery -/

def neighborDiscovery (n : LsNode) : LsNode × List (LsSocket × LSMessage) :=
  (n.nextSequenceNumber, n.broadcastPacket ⟨n.currentSequenceNumber, n.singleHop, n.mainAddress,
    .ndReq ⟨.unset, neighbourDiscoveryText⟩⟩)

/-- `ProcessNdReq`: the answer goes out on the socket of the request. -/
def processNdReq (n : LsNode) (m : LSMessage) (ping : LsPing) (socket : LsSocket) : LsResult := do
  let _ ← findIn .socketAddresses n.socketAddresses socket
  return (n, [(socket, ⟨m.sequenceNumber, n.singleHop, n.mainAddress,
    .ndRsp ⟨m.originatorAddress, ping.pingMessage⟩⟩)])

def processNdRsp (n : LsNode) (m : LSMessage) (ping : LsPing) (socket : LsSocket) : LsResult :=
  if n.isOwnAddress ping.destinationAddress then do
    let interfaceAddr ← findIn .socketAddresses n.socketAddresses socket
    let nodeNumber ← n.maps.numberOf m.originatorAddress
    return ({ n with
      currentneighborTable :=
        n.currentneighborTable.insert nodeNumber ⟨m.originatorAddress, interfaceAddr⟩ }, [])
  else .ok (n, [])

def flooding (n : LsNode) : LsNode × List (LsSocket × LSMessage) :=
  ({ n.nextSequenceNumber with lspSequenceNumber := n.lspSequenceNumber + 1 },
    n.broadcastPacket ⟨n.currentSequenceNumber, n.maxTTL, n.mainAddress,
      .lsp ⟨n.lspSequenceNumber, n.neighborTable.toList.map fun entry => entry.2.neighborAddr,
        .unset, lspText⟩⟩)

/-- The comparison of the two tables in `NdRequests`. Its last condition compares
an interface address with itself. -/
def floodingFlag (neighborTable currentneighborTable : NeighborTable) : Bool :=
  if neighborTable.size ≠ currentneighborTable.size then true
  else
    (neighborTable.toList.zip currentneighborTable.toList).any fun (iter1, iter2) =>
      iter1.1 ≠ iter2.1 || iter1.2.neighborAddr ≠ iter2.2.neighborAddr ||
        iter1.2.interfaceAddr ≠ iter1.2.interfaceAddr

def ndRequests (n : LsNode) : LsResult := do
  let flag := floodingFlag n.neighborTable n.currentneighborTable
  let n := { n with neighborTable := n.currentneighborTable }
  let flooded := if flag then n.flooding else (n, [])
  let n ← if flag then flooded.1.dijkstraAlgo else .ok flooded.1
  let discovery := { n with currentneighborTable := ∅ }.neighborDiscovery
  return (discovery.1, flooded.2 ++ discovery.2)

/-! ## Link-state packets -/

def updateMap (n : LsNode) (m : LSMessage) (lsp : Lsp) : Except LsFault LsNode := do
  let sourceNode ← n.maps.numberOf m.originatorAddress
  let details ← n.maps.routeMapDetails m.originatorAddress lsp.neighborAddrlist
  { n with routeMap := n.routeMap.insert sourceNode details }.dijkstraAlgo

/-- Whether `ProcessLsp` returns at once. -/
def knowsLsp (n : LsNode) (originatorAddress : Ipv4Address) (sequenceNumber : UInt64) : Bool :=
  match n.lspSequenceNumberTable[originatorAddress]? with
  | none => false
  | some known => sequenceNumber ≤ known

def processLsp (n : LsNode) (m : LSMessage) (lsp : Lsp) (socket : LsSocket) : LsResult :=
  if n.knowsLsp m.originatorAddress lsp.sequenceNumber then .ok (n, [])
  else do
    let n := { n with
      lspSequenceNumberTable :=
        n.lspSequenceNumberTable.insert m.originatorAddress lsp.sequenceNumber }
    let lspForward : LSMessage := ⟨m.sequenceNumber, m.ttl - 1, m.originatorAddress,
      .lsp ⟨lsp.sequenceNumber, lsp.neighborAddrlist, lsp.destinationAddress, forwardingText⟩⟩
    let sent := n.forwardPacket lspForward socket
    let n ← n.updateMap m lsp
    return (n, sent)

def recvLSMessage (n : LsNode) (socket : LsSocket) (m : LSMessage) : LsResult :=
  match m.payload with
  | .pingReq ping => n.processPingReq m ping
  | .pingRsp ping => n.processPingRsp m ping
  | .ndReq ping => n.processNdReq m ping socket
  | .ndRsp ping => n.processNdRsp m ping socket
  | .lsp lsp => n.processLsp m lsp socket

/-! ## What the handlers do -/

variable {n n' : LsNode} {m : LSMessage} {lsp : Lsp} {socket : LsSocket}
  {sent : List (LsSocket × LSMessage)}

theorem dijkstraAlgo_eq_ok :
    n.dijkstraAlgo = .ok n' ↔ ∃ table, dijkstraTable n.maps n.neighborTable n.routeMap = .ok table ∧
      n' = { n with routeTable := table } := by
  rw [dijkstraAlgo, bind_eq_ok]
  constructor
  · rintro ⟨table, htable, hn⟩
    cases hn
    exact ⟨table, htable, rfl⟩
  · rintro ⟨table, htable, rfl⟩
    exact ⟨table, htable, rfl⟩

theorem ndRequests_of_not_flag (h : floodingFlag n.neighborTable n.currentneighborTable = false) :
    n.ndRequests = .ok ({ n with neighborTable := n.currentneighborTable }
      |> fun n => { n with currentneighborTable := ∅ }.neighborDiscovery) := by
  simp only [ndRequests, h]
  rfl

theorem ndRequests_of_flag (h : floodingFlag n.neighborTable n.currentneighborTable = true) :
    n.ndRequests = .ok (n', sent) ↔
      ∃ table, dijkstraTable n.maps n.currentneighborTable n.routeMap = .ok table ∧
        n' = { n with
          neighborTable := n.currentneighborTable
          currentneighborTable := ∅
          routeTable := table
          lspSequenceNumber := n.lspSequenceNumber + 1
          currentSequenceNumber := n.currentSequenceNumber + 1 + 1 } ∧
        sent = { n with neighborTable := n.currentneighborTable }.flooding.2 ++
          n.nextSequenceNumber.neighborDiscovery.2 := by
  simp only [ndRequests, h, if_true, bind_eq_ok, dijkstraAlgo_eq_ok]
  constructor
  · rintro ⟨n₁, ⟨table, htable, rfl⟩, hn⟩
    cases hn
    exact ⟨table, htable, rfl, rfl⟩
  · rintro ⟨table, htable, rfl, rfl⟩
    exact ⟨_, ⟨table, htable, rfl⟩, rfl⟩

theorem updateMap_eq_ok :
    n.updateMap m lsp = .ok n' ↔
      ∃ sourceNode details table, n.maps.numberOf m.originatorAddress = .ok sourceNode ∧
        n.maps.routeMapDetails m.originatorAddress lsp.neighborAddrlist = .ok details ∧
        dijkstraTable n.maps n.neighborTable (n.routeMap.insert sourceNode details) = .ok table ∧
        n' = { n with routeMap := n.routeMap.insert sourceNode details, routeTable := table } := by
  simp only [updateMap, bind_eq_ok, dijkstraAlgo_eq_ok]
  constructor
  · rintro ⟨k, hk, details, hdetails, table, htable, rfl⟩
    exact ⟨k, details, table, hk, hdetails, htable, rfl⟩
  · rintro ⟨k, details, table, hk, hdetails, htable, rfl⟩
    exact ⟨k, hk, details, hdetails, table, htable, rfl⟩

theorem processLsp_of_knows (h : n.knowsLsp m.originatorAddress lsp.sequenceNumber = true) :
    n.processLsp m lsp socket = .ok (n, []) := by
  rw [processLsp, if_pos h]

/-- An LSP with a new sequence number is recorded, forwarded and entered. -/
theorem processLsp_of_not_knows (h : n.knowsLsp m.originatorAddress lsp.sequenceNumber = false) :
    n.processLsp m lsp socket = .ok (n', sent) ↔
      ∃ sourceNode details table, n.maps.numberOf m.originatorAddress = .ok sourceNode ∧
        n.maps.routeMapDetails m.originatorAddress lsp.neighborAddrlist = .ok details ∧
        dijkstraTable n.maps n.neighborTable (n.routeMap.insert sourceNode details) = .ok table ∧
        n' = { n with
          lspSequenceNumberTable :=
            n.lspSequenceNumberTable.insert m.originatorAddress lsp.sequenceNumber
          routeMap := n.routeMap.insert sourceNode details
          routeTable := table } ∧
        sent = n.forwardPacket ⟨m.sequenceNumber, m.ttl - 1, m.originatorAddress,
          .lsp { lsp with message := forwardingText }⟩ socket := by
  have hnot : ¬ n.knowsLsp m.originatorAddress lsp.sequenceNumber = true := by simp [h]
  rw [processLsp, if_neg hnot]
  simp only [bind_eq_ok, updateMap_eq_ok]
  constructor
  · rintro ⟨n₁, ⟨k, details, table, hk, hdetails, htable, rfl⟩, hn⟩
    cases hn
    exact ⟨k, details, table, hk, hdetails, htable, rfl, rfl⟩
  · rintro ⟨k, details, table, hk, hdetails, htable, rfl, rfl⟩
    exact ⟨_, ⟨k, details, table, hk, hdetails, htable, rfl⟩, rfl⟩

omit [CostQueue] in
theorem processNdRsp_eq_ok {ping : LsPing} (h : n.processNdRsp m ping socket = .ok (n', sent)) :
    sent = [] ∧ (n' = n ∨ ∃ nodeNumber interfaceAddr,
      n.isOwnAddress ping.destinationAddress = true ∧
      n.socketAddresses[socket]? = some interfaceAddr ∧
      n.maps.numberOf m.originatorAddress = .ok nodeNumber ∧
      n' = { n with
        currentneighborTable :=
          n.currentneighborTable.insert nodeNumber ⟨m.originatorAddress, interfaceAddr⟩ }) := by
  unfold processNdRsp at h
  split at h
  · rename_i hown
    obtain ⟨interfaceAddr, hi, h⟩ := bind_eq_ok.mp h
    obtain ⟨nodeNumber, hk, h⟩ := bind_eq_ok.mp h
    cases h
    exact ⟨rfl, Or.inr ⟨nodeNumber, interfaceAddr, hown, findIn_eq_ok.mp hi, hk, rfl⟩⟩
  · cases h
    exact ⟨rfl, Or.inl rfl⟩

/-- A message is an LSP, or its handler sends none, and changes at most the pings that
are waited for or the neighbours that are found. -/
theorem recvLSMessage_cases (h : n.recvLSMessage socket m = .ok (n', sent)) :
    (∃ lsp, m.payload = .lsp lsp ∧ n.processLsp m lsp socket = .ok (n', sent)) ∨
      (∀ lsp, m.payload ≠ .lsp lsp) ∧ (∀ p ∈ sent, ∀ lsp, p.2.payload ≠ .lsp lsp) ∧
        ((∃ tracker, n' = { n with pingTracker := tracker }) ∨
          ∃ nodeNumber entry, n.maps.numberOf m.originatorAddress = .ok nodeNumber ∧
            n' = { n with
              currentneighborTable := n.currentneighborTable.insert nodeNumber entry }) := by
  unfold recvLSMessage at h
  split at h
  · rename_i ping hp
    refine Or.inr ⟨by simp [hp], ?_⟩
    unfold processPingReq at h
    split at h <;> cases h
    · refine ⟨fun p hsent => ?_, Or.inl ⟨_, rfl⟩⟩
      obtain ⟨socket', -, rfl⟩ := List.mem_map.mp hsent
      simp
    · exact ⟨by simp, Or.inl ⟨_, rfl⟩⟩
  · rename_i ping hp
    refine Or.inr ⟨by simp [hp], ?_⟩
    unfold processPingRsp at h
    split at h <;> cases h <;> exact ⟨by simp, Or.inl ⟨_, rfl⟩⟩
  · rename_i ping hp
    obtain ⟨a, -, h⟩ := bind_eq_ok.mp h
    cases h
    exact Or.inr ⟨by simp [hp], by simp, Or.inl ⟨_, rfl⟩⟩
  · rename_i ping hp
    refine Or.inr ⟨by simp [hp], ?_⟩
    obtain ⟨rfl, rfl | ⟨k, i, -, -, hk, rfl⟩⟩ := processNdRsp_eq_ok h
    · exact ⟨by simp, Or.inl ⟨_, rfl⟩⟩
    · exact ⟨by simp, Or.inr ⟨k, _, hk, rfl⟩⟩
  · rename_i lsp hp
    exact Or.inl ⟨lsp, hp, h⟩

end LsNode

end PennSearch
