import PennSearch.LinkState.Pings

/-!
# Pings do not disturb routing

Pings share the sequence numbers, the sockets and the links with the routing protocol.
`routing` is what is left of a network when the ping packets, the trackers and all these
numbers are taken away. Every step of the network with pings is, up to that, a step of
`LinkedNet` alone or none at all, also where it faults; so every run is one of the routing
protocol (`pings_apart`).
-/

namespace PennSearch

open MessagePassing

def LSMessage.unnumbered (m : LSMessage) : LSMessage := { m with sequenceNumber := 0 }

def LsNode.routing (n : LsNode) : LsNode :=
  { n with currentSequenceNumber := 0, pingTracker := ∅ }

def unnumberedAll (sent : List (LsSocket × LSMessage)) : List (LsSocket × LSMessage) :=
  sent.map fun p => (p.1, p.2.unnumbered)

def routingResult (r : LsResult) : LsResult := r.map fun t => (t.1.routing, unnumberedAll t.2)

theorem unnumberedAll_append (sent sent' : List (LsSocket × LSMessage)) :
    unnumberedAll (sent ++ sent') = unnumberedAll sent ++ unnumberedAll sent' :=
  List.map_append

namespace LsNode

variable {n n' : LsNode} {m m' : LSMessage} {s : LsSocket}

theorem unnumbered_broadcastPacket (n : LsNode) (m : LSMessage) :
    unnumberedAll (n.broadcastPacket m) = n.routing.broadcastPacket m.unnumbered := by
  rw [unnumberedAll, broadcastPacket, List.map_map]
  rfl

theorem unnumbered_forwardPacket (n : LsNode) (m : LSMessage) (s : LsSocket) :
    unnumberedAll (n.forwardPacket m s) = n.routing.forwardPacket m.unnumbered s := by
  rw [unnumberedAll, forwardPacket, List.map_map]
  rfl

variable [CostQueue]

theorem ndRequests_eq_of_flag (h : floodingFlag n.neighborTable n.currentneighborTable = true) :
    n.ndRequests = (dijkstraTable n.maps n.currentneighborTable n.routeMap).map fun table =>
      ({ n with
          neighborTable := n.currentneighborTable
          currentneighborTable := ∅
          routeTable := table
          lspSequenceNumber := n.lspSequenceNumber + 1
          currentSequenceNumber := n.currentSequenceNumber + 1 + 1 },
        { n with neighborTable := n.currentneighborTable }.flooding.2 ++
          n.nextSequenceNumber.neighborDiscovery.2) := by
  cases htable : dijkstraTable n.maps n.currentneighborTable n.routeMap with
  | error fault =>
      have hfault : ({ n with
          neighborTable := n.currentneighborTable } : LsNode).flooding.1.dijkstraAlgo =
            .error fault := bind_eq_error.mpr (Or.inl htable)
      simp only [ndRequests, h, if_true, hfault]
      rfl
  | ok table => exact (ndRequests_of_flag h).mpr ⟨table, htable, rfl, rfl⟩

/-- A timer does the same, whatever the number and the pings. -/
theorem ndRequests_routing (n : LsNode) :
    routingResult n.ndRequests = routingResult n.routing.ndRequests := by
  cases hflag : floodingFlag n.neighborTable n.currentneighborTable with
  | false =>
      have hflag' : floodingFlag n.routing.neighborTable n.routing.currentneighborTable = false :=
        hflag
      rw [ndRequests_of_not_flag hflag, ndRequests_of_not_flag hflag']
      simp only [routingResult, Except.map, neighborDiscovery, unnumbered_broadcastPacket]
      rfl
  | true =>
      have hflag' : floodingFlag n.routing.neighborTable n.routing.currentneighborTable = true :=
        hflag
      have htable : dijkstraTable n.routing.maps n.routing.currentneighborTable
          n.routing.routeMap = dijkstraTable n.maps n.currentneighborTable n.routeMap := rfl
      rw [ndRequests_eq_of_flag hflag, ndRequests_eq_of_flag hflag', htable]
      cases dijkstraTable n.maps n.currentneighborTable n.routeMap with
      | error fault => rfl
      | ok table =>
          simp only [routingResult, Except.map, flooding, neighborDiscovery,
            unnumberedAll_append, unnumbered_broadcastPacket]
          rfl

def lspDetails (n : LsNode) (originatorAddress : Ipv4Address) (lsp : Lsp) :
    Except LsFault (UInt32 × RouteMapDetails × RouteTable) := do
  let sourceNode ← n.maps.numberOf originatorAddress
  let details ← n.maps.routeMapDetails originatorAddress lsp.neighborAddrlist
  let table ← dijkstraTable n.maps n.neighborTable (n.routeMap.insert sourceNode details)
  return (sourceNode, details, table)

theorem processLsp_eq_of_not_knows {lsp : Lsp}
    (h : n.knowsLsp m.originatorAddress lsp.sequenceNumber = false) :
    n.processLsp m lsp s = (n.lspDetails m.originatorAddress lsp).map fun t =>
      ({ n with
          lspSequenceNumberTable :=
            n.lspSequenceNumberTable.insert m.originatorAddress lsp.sequenceNumber
          routeMap := n.routeMap.insert t.1 t.2.1
          routeTable := t.2.2 },
        n.forwardPacket ⟨m.sequenceNumber, m.ttl - 1, m.originatorAddress,
          .lsp { lsp with message := forwardingText }⟩ s) := by
  cases hdetails : n.lspDetails m.originatorAddress lsp with
  | error fault =>
      have hnot : ¬ n.knowsLsp m.originatorAddress lsp.sequenceNumber = true := by simp [h]
      rw [processLsp, if_neg hnot]
      refine bind_eq_error.mpr (Or.inl ?_)
      rcases bind_eq_error.mp hdetails with hk | ⟨k, hk, hrest⟩
      · exact bind_eq_error.mpr (Or.inl hk)
      refine bind_eq_error.mpr (Or.inr ⟨k, hk, ?_⟩)
      rcases bind_eq_error.mp hrest with hd | ⟨details, hd, hrest⟩
      · exact bind_eq_error.mpr (Or.inl hd)
      refine bind_eq_error.mpr (Or.inr ⟨details, hd, bind_eq_error.mpr (Or.inl ?_)⟩)
      rcases bind_eq_error.mp hrest with htable | ⟨table, -, hrest⟩
      · exact htable
      · cases hrest
  | ok t =>
      obtain ⟨k, hk, hrest⟩ := bind_eq_ok.mp hdetails
      obtain ⟨details, hd, hrest⟩ := bind_eq_ok.mp hrest
      obtain ⟨table, htable, hrest⟩ := bind_eq_ok.mp hrest
      obtain rfl := Except.ok.inj hrest
      exact (processLsp_of_not_knows h).mpr ⟨k, details, table, hk, hd, htable, rfl, rfl⟩

theorem recv_routing (n : LsNode) (s : LsSocket) (hm : m.isPing = false) :
    routingResult (n.recvLSMessage s m) =
      routingResult (n.routing.recvLSMessage s m.unnumbered) := by
  obtain ⟨sequenceNumber, ttl, originatorAddress, payload⟩ := m
  cases payload with
  | pingReq ping => cases hm
  | pingRsp ping => cases hm
  | ndReq ping =>
      change routingResult (n.processNdReq _ ping s) =
        routingResult (n.routing.processNdReq _ ping s)
      unfold processNdReq
      cases hs : findIn .socketAddresses n.socketAddresses s with
      | error fault => simp only [routing, hs]; rfl
      | ok a => simp only [routing, hs]; rfl
  | ndRsp ping =>
      change routingResult (n.processNdRsp _ ping s) =
        routingResult (n.routing.processNdRsp _ ping s)
      have hown : n.routing.isOwnAddress ping.destinationAddress =
          n.isOwnAddress ping.destinationAddress := rfl
      unfold processNdRsp
      rw [hown]
      split
      · cases hs : findIn .socketAddresses n.socketAddresses s with
        | error fault => simp only [routing, hs]; rfl
        | ok a =>
            cases hk : n.maps.numberOf originatorAddress with
            | error fault => simp only [routing, LSMessage.unnumbered, hs, hk]; rfl
            | ok k => simp only [routing, LSMessage.unnumbered, hs, hk]; rfl
      · rfl
  | lsp lsp =>
      change routingResult (n.processLsp _ lsp s) = routingResult (n.routing.processLsp _ lsp s)
      have hknows : n.routing.knowsLsp originatorAddress lsp.sequenceNumber =
          n.knowsLsp originatorAddress lsp.sequenceNumber := rfl
      cases hnew : n.knowsLsp originatorAddress lsp.sequenceNumber with
      | true => rw [processLsp_of_knows hnew, processLsp_of_knows (hknows.trans hnew)]; rfl
      | false =>
          rw [processLsp_eq_of_not_knows hnew, processLsp_eq_of_not_knows (hknows.trans hnew)]
          have hdetails : n.routing.lspDetails originatorAddress lsp =
              n.lspDetails originatorAddress lsp := rfl
          simp only [LSMessage.unnumbered, hdetails]
          cases n.lspDetails originatorAddress lsp with
          | error fault => rfl
          | ok t =>
              simp only [routingResult, Except.map, unnumbered_forwardPacket]
              rfl

/-- A ping never faults, and does nothing else. -/
theorem recv_ping (n : LsNode) (s : LsSocket) (hm : m.isPing = true) :
    ∃ n' sent, n.recvLSMessage s m = .ok (n', sent) ∧ n'.routing = n.routing ∧
      ∀ p ∈ sent, p.2.isPing = true := by
  obtain ⟨sequenceNumber, ttl, originatorAddress, payload⟩ := m
  cases payload with
  | pingReq ping =>
      by_cases hown : n.isOwnAddress ping.destinationAddress = true
      · refine ⟨_, _, if_pos hown, rfl, ?_⟩
        rintro ⟨s', m'⟩ hp
        rw [(mem_broadcastPacket.mp hp).2]
        rfl
      · exact ⟨_, _, if_neg hown, rfl, by simp⟩
  | pingRsp ping =>
      by_cases hown : n.isOwnAddress ping.destinationAddress = true
      · exact ⟨_, _, if_pos hown, rfl, by simp⟩
      · exact ⟨_, _, if_neg hown, rfl, by simp⟩
  | ndReq ping => cases hm
  | ndRsp ping => cases hm
  | lsp lsp => cases hm

end LsNode

/-- Results that routing cannot tell apart. -/
theorem routingResult_cases {r r' : LsResult} (h : routingResult r = routingResult r') :
    (∃ fault, r = .error fault ∧ r' = .error fault) ∨
      ∃ n sent n' sent', r = .ok (n, sent) ∧ r' = .ok (n', sent') ∧ n.routing = n'.routing ∧
        unnumberedAll sent = unnumberedAll sent' := by
  cases r with
  | error fault =>
      cases r' with
      | error fault' =>
          obtain rfl : fault = fault' := Except.error.inj h
          exact Or.inl ⟨fault, rfl, rfl⟩
      | ok t => cases h
  | ok t =>
      cases r' with
      | error fault => cases h
      | ok t' =>
          obtain ⟨hn, hsent⟩ := Prod.mk.inj (Except.ok.inj h)
          exact Or.inr ⟨t.1, t.2, t'.1, t'.2, rfl, rfl, hn, hsent⟩

/-! ## The network -/

def routingPacket (p : LsPacket UInt32) : LsPacket UInt32 :=
  { p with msg := (p.msg.1, p.msg.2.unnumbered) }

def routingPackets (l : List (LsPacket UInt32)) : List (LsPacket UInt32) :=
  (l.filter fun p => !p.msg.2.isPing).map routingPacket

section Packets

variable {l l' : List (LsPacket UInt32)} {k : ℕ} {p : LsPacket UInt32} {ears : Ears UInt32}
  {u : UInt32}

theorem routingPackets_append :
    routingPackets (l ++ l') = routingPackets l ++ routingPackets l' := by
  simp only [routingPackets, List.filter_append, List.map_append]

theorem routingPackets_of_pings (h : ∀ p ∈ l, p.msg.2.isPing = true) : routingPackets l = [] := by
  rw [routingPackets, List.filter_eq_nil_iff.mpr fun p hp => by simp [h p hp]]
  rfl

theorem routingPackets_of_no_pings (h : ∀ p ∈ l, p.msg.2.isPing = false) :
    routingPackets l = l.map routingPacket := by
  rw [routingPackets, List.filter_eq_self.mpr fun p hp => by simp [h p hp]]

theorem routingPackets_eraseIdx_ping (hk : l[k]? = some p) (hp : p.msg.2.isPing = true) :
    routingPackets (l.eraseIdx k) = routingPackets l := by
  rw [routingPackets, filter_eraseIdx_of_not hk (by simp [hp])]
  rfl

theorem routingPackets_transmit (sent : List (LsSocket × LSMessage)) :
    routingPackets (transmit ears u sent) =
      routingPackets (transmit ears u (unnumberedAll sent)) := by
  induction sent with
  | nil => rfl
  | cons x sent ih =>
      have hcons : ∀ (y : LsSocket × LSMessage) (l : List (LsSocket × LSMessage)),
          transmit ears u (y :: l) =
            ((ears u y.1).map fun q => (⟨u, q.1, (q.2, y.2)⟩ : LsPacket UInt32)) ++
              transmit ears u l := fun y l => List.flatMap_cons
      have hmap : unnumberedAll (x :: sent) = (x.1, x.2.unnumbered) :: unnumberedAll sent := rfl
      rw [hmap, hcons, hcons, routingPackets_append, routingPackets_append, ih]
      congr 1
      cases hx : x.2.isPing with
      | true =>
          rw [routingPackets_of_pings, routingPackets_of_pings]
          · intro p hp
            obtain ⟨q, -, rfl⟩ := List.mem_map.mp hp
            exact hx
          · intro p hp
            obtain ⟨q, -, rfl⟩ := List.mem_map.mp hp
            exact hx
      | false =>
          rw [routingPackets_of_no_pings, routingPackets_of_no_pings, List.map_map, List.map_map]
          · rfl
          · intro p hp
            obtain ⟨q, -, rfl⟩ := List.mem_map.mp hp
            exact hx
          · intro p hp
            obtain ⟨q, -, rfl⟩ := List.mem_map.mp hp
            exact hx

end Packets

namespace LinkedNet

variable {w : Wiring} {c d : LinkedNet w} {u : UInt32} {n n' : LsNode} {k : ℕ}
  {sent sent' : List (LsSocket × LSMessage)} {p : LsPacket UInt32}

def routing (c : LinkedNet w) : LinkedNet w where
  net :=
    { node := fun u => (c.net.node u).routing
      inFlight := routingPackets c.net.inFlight }
  links := c.links

/-- The place of the packet at `k` among those that are no pings. -/
def place (c : LinkedNet w) (k : ℕ) : Option ℕ :=
  match c.net.inFlight[k]? with
  | none => none
  | some p =>
      if p.msg.2.isPing then none
      else some ((c.net.inFlight.take k).filter fun p => !p.msg.2.isPing).length

/-- `d` is the network `c` without its pings, but for the numbers. -/
structure Apart (c d : LinkedNet w) : Prop where
  routing_eq : c.routing = d.routing
  no_pings : ∀ p ∈ d.net.inFlight, p.msg.2.isPing = false

namespace Apart

theorem links_eq (h : Apart c d) : c.links = d.links := by
  have heq := congrArg LinkedNet.links h.routing_eq
  exact heq

theorem node_eq (h : Apart c d) (u : UInt32) : (c.net.node u).routing = (d.net.node u).routing :=
  congrArg (fun c : LinkedNet w => c.net.node u) h.routing_eq

theorem inFlight_eq (h : Apart c d) :
    routingPackets c.net.inFlight = d.net.inFlight.map routingPacket := by
  rw [← routingPackets_of_no_pings h.no_pings]
  exact congrArg (fun c : LinkedNet w => c.net.inFlight) h.routing_eq

theorem of_eqs (hlinks : c.links = d.links)
    (hnode : ∀ u, (c.net.node u).routing = (d.net.node u).routing)
    (hinFlight : routingPackets c.net.inFlight = routingPackets d.net.inFlight)
    (hno : ∀ p ∈ d.net.inFlight, p.msg.2.isPing = false) : Apart c d where
  routing_eq := by
    unfold routing
    rw [hlinks, hinFlight, funext hnode]
  no_pings := hno

/-- Both networks let a router act alike. -/
theorem act (h : Apart c d) (hn : n.routing = n'.routing)
    (hsent : unnumberedAll sent = unnumberedAll sent') (hno : ∀ p ∈ sent', p.2.isPing = false) :
    Apart { c with net := c.net.act u n (transmit c.links.ears u sent) }
      { d with net := d.net.act u n' (transmit d.links.ears u sent') } := by
  refine of_eqs h.links_eq (fun v => ?_) ?_ fun p hp => ?_
  · simp only [Net.act_node]
    split
    · exact hn
    · exact h.node_eq v
  · simp only [Net.act_inFlight, routingPackets_append]
    rw [routingPackets_transmit sent, routingPackets_transmit sent', hsent,
      h.links_eq, h.inFlight_eq, routingPackets_of_no_pings h.no_pings]
  · rcases List.mem_append.mp hp with hp | hp
    · exact h.no_pings p hp
    · obtain ⟨-, s, -, -, hp⟩ := mem_transmit_ears.mp hp
      exact hno (s, p.msg.2) hp

theorem act_pings (h : Apart c d) (hn : n.routing = (c.net.node u).routing)
    (hsent : ∀ p ∈ sent, p.2.isPing = true) :
    Apart { c with net := c.net.act u n (transmit c.links.ears u sent) } d := by
  refine of_eqs h.links_eq (fun v => ?_) ?_ h.no_pings
  · refine (Net.act_node_congr (c := c.net) (f := LsNode.routing) hn _ v).trans (h.node_eq v)
  · have hpings : ∀ p ∈ transmit c.links.ears u sent, p.msg.2.isPing = true := by
      intro p hp
      obtain ⟨-, s, -, -, hp⟩ := mem_transmit_ears.mp hp
      exact hsent (s, p.msg.2) hp
    rw [Net.act_inFlight, routingPackets_append, routingPackets_of_pings hpings, List.append_nil,
      h.inFlight_eq, routingPackets_of_no_pings h.no_pings]

theorem take (h : Apart c d) (hk : c.net.inFlight[k]? = some p) (hp : p.msg.2.isPing = false) :
    ∃ j q, c.place k = some j ∧ d.net.inFlight[j]? = some q ∧ routingPacket q = routingPacket p ∧
      Apart { c with net := c.net.take k } { d with net := d.net.take j } := by
  obtain ⟨hj, herase⟩ := filter_split (f := fun p : LsPacket UInt32 => !p.msg.2.isPing) hk
    (by simp [hp])
  generalize hplace : ((c.net.inFlight.take k).filter fun p => !p.msg.2.isPing).length = j
    at hj herase
  have hmap : (d.net.inFlight.map routingPacket)[j]? = some (routingPacket p) := by
    rw [← h.inFlight_eq, routingPackets, List.getElem?_map, hj]
    rfl
  rw [List.getElem?_map, Option.map_eq_some_iff] at hmap
  obtain ⟨q, hq, hqp⟩ := hmap
  refine ⟨j, q, ?_, hq, hqp, of_eqs h.links_eq h.node_eq ?_ fun p' hp' =>
    h.no_pings p' (List.mem_of_mem_eraseIdx hp')⟩
  · simp only [place, hk, hp, hplace]
    rfl
  · simp only [Net.take_inFlight]
    rw [routingPackets_of_no_pings fun p' hp' => h.no_pings p' (List.mem_of_mem_eraseIdx hp'),
      routingPackets, ← herase, ← List.eraseIdx_map, ← List.eraseIdx_map, ← h.inFlight_eq]
    rfl

theorem take_ping (h : Apart c d) (hk : c.net.inFlight[k]? = some p)
    (hp : p.msg.2.isPing = true) : Apart { c with net := c.net.take k } d :=
  of_eqs h.links_eq h.node_eq
    (by rw [Net.take_inFlight, routingPackets_eraseIdx_ping hk hp, h.inFlight_eq,
      routingPackets_of_no_pings h.no_pings]) h.no_pings

end Apart

/-- What an event is to the network without pings, if it is anything. -/
def routingEvent (c : LinkedNet w) : LsPingEvent → Option FaultyEvent
  | .linked (.linked (.link u s b)) => some (.linked (.link u s b))
  | .linked (.linked (.router (.ndRequests u))) => some (.linked (.router (.ndRequests u)))
  | .linked (.linked (.router (.deliver k))) =>
      (c.place k).map fun j => .linked (.router (.deliver j))
  | .linked (.lose k) => (c.place k).map .lose
  | .linked (.duplicate k) => (c.place k).map .duplicate
  | .ping _ _ _ | .auditPings _ | .wait _ => none

/-- The step, if there is one. -/
def follow [CostQueue] (d : LinkedNet w) : Option FaultyEvent → Except LsFault (LinkedNet w)
  | none => .ok d
  | some e => d.faultyStep e

/-- Both networks fault alike, or neither does. -/
inductive Alike : Except LsFault (LinkedNet w) → Except LsFault (LinkedNet w) → Prop
  | error (fault : LsFault) : Alike (.error fault) (.error fault)
  | ok {c d : LinkedNet w} (h : Apart c d) : Alike (.ok c) (.ok d)

namespace Apart

variable [CostQueue]

omit [CostQueue] in
theorem place_of_none (hk : c.net.inFlight[k]? = none) : c.place k = none := by
  simp only [place, hk]

omit [CostQueue] in
theorem place_of_ping (hk : c.net.inFlight[k]? = some p) (hp : p.msg.2.isPing = true) :
    c.place k = none := by
  simp only [place, hk, hp, if_true]

omit [CostQueue] in
theorem link (h : Apart c d) (u : UInt32) (s : LsSocket) (b : Bool) :
    Apart { c with links := c.links.set u s b } { d with links := d.links.set u s b } :=
  of_eqs (by rw [h.links_eq]) h.node_eq
    (by rw [h.inFlight_eq, routingPackets_of_no_pings h.no_pings]) h.no_pings

theorem ndRequests (h : Apart c d) (u : UInt32) :
    Alike (c.step (.router (.ndRequests u))) (d.step (.router (.ndRequests u))) := by
  have hresult : routingResult (c.net.node u).ndRequests =
      routingResult (d.net.node u).ndRequests := by
    rw [LsNode.ndRequests_routing, h.node_eq u, ← LsNode.ndRequests_routing]
  rcases routingResult_cases hresult with ⟨fault, hc, hd⟩ | ⟨n, sent, n', sent', hc, hd, hn, hsent⟩
  · simp only [LinkedNet.step, LsNet.step, hc, hd]
    exact .error fault
  · simp only [LinkedNet.step, LsNet.step, hc, hd]
    exact .ok (h.act hn hsent (LsNode.ndRequests_pings hd).2.2.2)

theorem deliver (h : Apart c d) (k : ℕ) : Alike (c.step (.router (.deliver k)))
    (d.follow ((c.place k).map fun j => .linked (.router (.deliver j)))) := by
  cases hk : c.net.inFlight[k]? with
  | none =>
      rw [place_of_none hk]
      simp only [LinkedNet.step, LsNet.step, hk]
      exact .ok h
  | some p =>
      cases hp : p.msg.2.isPing with
      | true =>
          obtain ⟨n, sent, hrecv, hn, hsent⟩ := LsNode.recv_ping (c.net.node p.dst) p.msg.1 hp
          rw [place_of_ping hk hp]
          simp only [LinkedNet.step, LsNet.step, hk, hrecv]
          exact .ok ((h.take_ping hk hp).act_pings (c := { c with net := c.net.take k }) hn hsent)
      | false =>
          obtain ⟨j, q, hj, hq, hqp, htake⟩ := h.take hk hp
          have hno := h.no_pings q (List.mem_of_getElem? hq)
          obtain ⟨hsrc, hdst, hmsg⟩ := Packet.mk.inj hqp
          obtain ⟨hsocket, hmessage⟩ := Prod.mk.inj hmsg
          have hresult : routingResult ((c.net.node p.dst).recvLSMessage p.msg.1 p.msg.2) =
              routingResult ((d.net.node q.dst).recvLSMessage q.msg.1 q.msg.2) := by
            rw [LsNode.recv_routing _ _ hp, LsNode.recv_routing _ _ hno, h.node_eq, hmessage,
              hsocket, hdst]
          rw [hj]
          simp only [Option.map_some, follow, faultyStep, LinkedNet.step, LsNet.step, hk, hq]
          rcases routingResult_cases hresult with ⟨fault, hc, hd⟩ |
            ⟨n, sent, n', sent', hc, hd, hn, hsent⟩
          · rw [hc, hd]
            exact .error fault
          · rw [hc, hd, hdst]
            exact .ok (htake.act hn hsent (LsNode.recv_of_not_isPing hno hd).2.2.2)

theorem lose (h : Apart c d) (k : ℕ) :
    Alike (c.faultyStep (.lose k)) (d.follow ((c.place k).map .lose)) := by
  cases hk : c.net.inFlight[k]? with
  | none =>
      have hsame : c.net.inFlight.eraseIdx k = c.net.inFlight :=
        List.eraseIdx_of_length_le (List.getElem?_eq_none_iff.mp hk)
      rw [place_of_none hk]
      simp only [faultyStep, Net.take, hsame]
      exact .ok h
  | some p =>
      cases hp : p.msg.2.isPing with
      | true =>
          rw [place_of_ping hk hp]
          exact .ok (h.take_ping hk hp)
      | false =>
          obtain ⟨j, q, hj, -, -, htake⟩ := h.take hk hp
          rw [hj]
          exact .ok htake

theorem duplicate (h : Apart c d) (k : ℕ) :
    Alike (c.faultyStep (.duplicate k)) (d.follow ((c.place k).map .duplicate)) := by
  cases hk : c.net.inFlight[k]? with
  | none =>
      rw [place_of_none hk]
      simp only [faultyStep, hk, Option.toList_none, List.append_nil]
      exact .ok h
  | some p =>
      cases hp : p.msg.2.isPing with
      | true =>
          rw [place_of_ping hk hp]
          simp only [faultyStep, hk, Option.toList_some]
          have hcopy : routingPackets [p] = [] := routingPackets_of_pings (by simpa using hp)
          refine .ok (of_eqs h.links_eq h.node_eq ?_ h.no_pings)
          rw [routingPackets_append, hcopy, List.append_nil, h.inFlight_eq,
            routingPackets_of_no_pings h.no_pings]
      | false =>
          obtain ⟨j, q, hj, hq, hqp, -⟩ := h.take hk hp
          have hno := h.no_pings q (List.mem_of_getElem? hq)
          rw [hj]
          simp only [Option.map_some, follow, faultyStep, hk, hq, Option.toList_some]
          refine .ok (of_eqs h.links_eq h.node_eq ?_ fun p' hp' => ?_)
          · have hcopy : routingPackets [p] = [routingPacket p] :=
              routingPackets_of_no_pings (by simpa using hp)
            have hcopy' : routingPackets [q] = [routingPacket q] :=
              routingPackets_of_no_pings (by simpa using hno)
            rw [routingPackets_append, routingPackets_append, h.inFlight_eq,
              routingPackets_of_no_pings h.no_pings, hcopy, hcopy', hqp]
          · rcases List.mem_append.mp hp' with hp' | hp'
            · exact h.no_pings p' hp'
            · rw [List.mem_singleton.mp hp', hno]

theorem faultyStep (h : Apart c d) (e : FaultyEvent) :
    Alike (c.faultyStep e) (d.follow (c.routingEvent (.linked e))) := by
  cases e with
  | linked e =>
      cases e with
      | link u s b => exact .ok (h.link u s b)
      | router e =>
          cases e with
          | ndRequests u => exact h.ndRequests u
          | deliver k => exact h.deliver k
  | lose k => exact h.lose k
  | duplicate k => exact h.duplicate k

/-- What is done with pings leaves the network without them as it is. -/
theorem step {c : PingNet w} (h : Apart c.linked d) (timeout : ℕ) (e : LsPingEvent) :
    Alike ((c.step timeout e).map PingNet.linked) (d.follow (c.linked.routingEvent e)) := by
  cases e with
  | linked e =>
      have hstep : (c.step timeout (.linked e)).map PingNet.linked = c.linked.faultyStep e := by
        cases hlinked : c.linked.faultyStep e with
        | error fault =>
            simp only [PingNet.step, hlinked]
            rfl
        | ok linked =>
            simp only [PingNet.step, hlinked]
            rfl
      rw [hstep]
      exact h.faultyStep e
  | ping u nodeNumber pingMessage =>
      by_cases hdest : (c.node u).resolveNodeIpAddress nodeNumber = .getAny
      · rw [PingNet.step_ping_of_eq pingMessage hdest]
        exact .ok h
      · rw [PingNet.step_ping_of_ne pingMessage hdest]
        refine .ok (h.act_pings rfl ?_)
        rintro ⟨s, m⟩ hp
        rw [(LsNode.mem_broadcastPacket.mp hp).2]
        rfl
  | auditPings u => exact .ok (h.act_pings rfl (by simp))
  | wait time => exact .ok h

omit [CostQueue] in
/-- What may happen with pings may happen without them. -/
theorem allowed {c : PingNet w} (h : Apart c.linked d) {e : LsPingEvent} (he : c.Allowed e) :
    ∀ e' ∈ c.linked.routingEvent e, d.FaultyAllowed e' := by
  intro e' he'
  have hplace : ∀ {k : ℕ} {f : ℕ → FaultyEvent}, e' ∈ (c.linked.place k).map f →
      ∃ j < d.net.inFlight.length, e' = f j := by
    intro k f hmem
    cases hk : c.linked.net.inFlight[k]? with
    | none =>
        rw [place_of_none hk] at hmem
        cases hmem
    | some p =>
        cases hp : p.msg.2.isPing with
        | true =>
            rw [place_of_ping hk hp] at hmem
            cases hmem
        | false =>
            obtain ⟨j, q, hj, hq, -, -⟩ := h.take hk hp
            rw [hj, Option.map_some, Option.mem_some_iff] at hmem
            exact ⟨j, (List.getElem?_eq_some_iff.mp hq).1, hmem.symm⟩
  cases e with
  | linked e =>
      cases e with
      | linked e =>
          cases e with
          | link u s b =>
              obtain rfl := Option.mem_some_iff.mp he'
              trivial
          | router e =>
              cases e with
              | ndRequests u =>
                  obtain rfl := Option.mem_some_iff.mp he'
                  obtain ⟨hu, hlsp⟩ := he
                  have hsame := congrArg LsNode.lspSequenceNumber (h.node_eq u)
                  exact ⟨hu, hsame ▸ hlsp⟩
              | deliver k =>
                  obtain ⟨j, hj, rfl⟩ := hplace he'
                  exact hj
      | lose k =>
          obtain ⟨j, -, rfl⟩ := hplace he'
          trivial
      | duplicate k =>
          obtain ⟨j, -, rfl⟩ := hplace he'
          trivial
  | _ => cases he'

end Apart

theorem Apart.start (links : Links w) (maxTTL singleHop : UInt8)
    (sequenceNumber : UInt32 → UInt32) :
    Apart (start w links maxTTL singleHop sequenceNumber)
      (start w links maxTTL singleHop sequenceNumber) :=
  ⟨rfl, fun p hp => by cases hp⟩

end LinkedNet

def PingNet.Apart {w : Wiring} (c : PingNet w) (d : LinkedNet w) : Prop :=
  LinkedNet.Apart c.linked d

def FaultyEvent.routine : FaultyEvent → Option LinkedEvent
  | .linked (.link u s b) => some (.link u s b)
  | .linked (.router (.ndRequests u)) => some (.router (.ndRequests u))
  | .linked (.router (.deliver _)) | .lose _ | .duplicate _ => none

def LsPingEvent.routine : LsPingEvent → Option LinkedEvent
  | .linked e => e.routine
  | .ping _ _ _ | .auditPings _ | .wait _ => none

theorem LinkedNet.routine_routingEvent {w : Wiring} (c : LinkedNet w) (e : LsPingEvent) :
    (c.routingEvent e).toList.filterMap FaultyEvent.routine =
      [e].filterMap LsPingEvent.routine := by
  cases e with
  | linked e =>
      cases e with
      | linked e =>
          cases e with
          | link u s b => rfl
          | router e =>
              cases e with
              | ndRequests u => rfl
              | deliver k =>
                  simp only [routingEvent]
                  cases c.place k <;> rfl
      | lose k =>
          simp only [routingEvent]
          cases c.place k <;> rfl
      | duplicate k =>
          simp only [routingEvent]
          cases c.place k <;> rfl
  | _ => rfl

/-- A step with pings is one step without them, or none. -/
theorem PingNet.Apart.matched [CostQueue] {w : Wiring} {c c' : PingNet w} {d : LinkedNet w}
    {timeout : ℕ} {e : LsPingEvent} (h : c.Apart d) (he : c.Allowed e)
    (hstep : c.step timeout e = .ok c') :
    ∃ fs d', Run LinkedNet.faultyStep LinkedNet.FaultyAllowed d fs d' ∧
      fs.filterMap FaultyEvent.routine = [e].filterMap LsPingEvent.routine ∧
      c'.Apart d' := by
  have halike := LinkedNet.Apart.step h timeout e
  have hallowed := LinkedNet.Apart.allowed h he
  have hroutine := c.linked.routine_routingEvent e
  rw [hstep] at halike
  cases hevent : c.linked.routingEvent e with
  | none =>
      rw [hevent] at halike hroutine
      cases halike with
      | ok h' => exact ⟨[], d, .nil, hroutine, h'⟩
  | some f =>
      rw [hevent] at halike hroutine
      cases hfollow : d.faultyStep f with
      | error fault =>
          rw [LinkedNet.follow, hfollow] at halike
          cases halike
      | ok d' =>
          rw [LinkedNet.follow, hfollow] at halike
          cases halike with
          | ok h' => exact ⟨[f], d', Run.single (hallowed f hevent) hfollow, hroutine, h'⟩

/-- Pings do not disturb routing. Whatever is pinged, lost, duplicated and delivered, the
routing protocol has a run of its own, without any ping, with the same timers and link
changes. It ends with the same links, the same tables at every router and the same routing
messages in flight, but for the sequence numbers that pings share. Any further step faults,
or leads to two networks that are apart again, exactly as the step of the routing protocol
does; what is done with pings never faults. -/
theorem pings_apart [CostQueue] {w : Wiring} (links : Links w) (maxTTL singleHop : UInt8)
    (sequenceNumber : UInt32 → UInt32) (timeout : ℕ) {es : List LsPingEvent} {c : PingNet w}
    (run : Run (PingNet.step timeout) PingNet.Allowed
      (.start w links maxTTL singleHop sequenceNumber timeout) es c) :
    ∃ fs d, Run LinkedNet.faultyStep LinkedNet.FaultyAllowed
        (.start w links maxTTL singleHop sequenceNumber) fs d ∧
      fs.filterMap FaultyEvent.routine = es.filterMap LsPingEvent.routine ∧
      c.Apart d ∧
      ∀ e, LinkedNet.Alike ((c.step timeout e).map PingNet.linked)
        (d.follow (c.linked.routingEvent e)) := by
  have hsimulated : ∃ fs d, Run LinkedNet.faultyStep LinkedNet.FaultyAllowed
      (.start w links maxTTL singleHop sequenceNumber) fs d ∧
        fs.filterMap FaultyEvent.routine = es.filterMap LsPingEvent.routine ∧
        c.Apart d := by
    refine run.simulate ?_ fun t e t' d h he hstep => ?_
    · exact LinkedNet.Apart.start links maxTTL singleHop sequenceNumber
    · exact PingNet.Apart.matched h he hstep
  obtain ⟨fs, d, hrun, hroutine, h⟩ := hsimulated
  exact ⟨fs, d, hrun, hroutine, h, fun e => LinkedNet.Apart.step h timeout e⟩

end PennSearch

namespace PennSearch

open MessagePassing PingNet

attribute [local instance] CostQueue.ofList

/-- A ping is under way while the routers discover each other. -/
def sampleOverlap : List LsPingEvent :=
  [.linked (.linked (.link 0 0 true)), .ping 0 1 [104], .linked (.linked (.router (.ndRequests 0))),
    .linked (.linked (.router (.deliver 1))), .linked (.linked (.router (.deliver 0))),
    .linked (.linked (.router (.deliver 0)))]

theorem pings_apart_sample :
    ∃ c : PingNet line, Run (step 2000000000) Allowed
        (start line (lineLinks [] (by decide)) 16 1 (fun _ => 7) 2000000000) sampleOverlap c ∧
      ∃ fs d, Run LinkedNet.faultyStep LinkedNet.FaultyAllowed
          (LinkedNet.start line (lineLinks [] (by decide)) 16 1 fun _ => 7) fs d ∧
        fs.filterMap FaultyEvent.routine = sampleOverlap.filterMap LsPingEvent.routine ∧
        c.Apart d := by
  have hexec : (execute (step 2000000000) Allowed
      (start line (lineLinks [] (by decide)) 16 1 (fun _ => 7) 2000000000)
        sampleOverlap).isSome := by decide +kernel
  obtain ⟨c, hc⟩ := Option.isSome_iff_exists.mp hexec
  have run := Run.of_execute hc
  obtain ⟨fs, d, hrun, hroutine, h, -⟩ := pings_apart _ 16 1 (fun _ => 7) _ run
  exact ⟨c, run, fs, d, hrun, hroutine, h⟩

end PennSearch
