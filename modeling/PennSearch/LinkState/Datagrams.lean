import PennSearch.LinkState.Forwarding
import PennSearch.LinkState.Steady

/-!
# Datagrams over the routes

What `Ipv4L3Protocol` does with a unicast datagram between two routers: it goes out
on the interface that `RouteOutput` or `RouteInput` names, if its link is up, and at
the other end it is delivered, or handed to `RouteInput` with a smaller time to live.
Over converged routers every hop is one hop nearer to the destination, so no
datagram is lost but by its time to live.
-/

namespace PennSearch

open MessagePassing

namespace Ipv4Address

/-- `IsMulticast`: 224.0.0.0 to 239.255.255.255. -/
def isMulticast (a : Ipv4Address) : Bool := 0xe0000000 ≤ a.address && a.address ≤ 0xefffffff

def isBroadcast (a : Ipv4Address) : Bool := a.address = 0xffffffff

def loopback : Ipv4Address := ⟨0x7f000001⟩

/-- `GetBroadcast` of an interface with this address and the mask 255.255.255.0. -/
def directedBroadcast (a : Ipv4Address) : Ipv4Address := ⟨a.address ||| 0xff⟩

/-- An address that only its own interface answers to. -/
structure IsHost (a : Ipv4Address) : Prop where
  multicast : a.isMulticast = false
  broadcast : a.isBroadcast = false
  loopback : a ≠ .loopback
  directed : a.directedBroadcast ≠ a

theorem directedBroadcast_idem (a : Ipv4Address) :
    a.directedBroadcast.directedBroadcast = a.directedBroadcast := by
  simp [directedBroadcast, UInt32.or_assoc]

theorem IsHost.ne_directedBroadcast {a : Ipv4Address} (h : a.IsHost) (b : Ipv4Address) :
    a ≠ b.directedBroadcast := by
  rintro rfl
  exact h.directed (directedBroadcast_idem b)

end Ipv4Address

/-! ## One router -/

namespace LsNode

def interfaceForAddress (n : LsNode) (a : Ipv4Address) : Option LsSocket :=
  (n.socketAddresses.toList.find? fun interface => interface.2 = a).map Prod.fst

/-- `Ipv4L3Protocol::IsDestinationAddress`, which accepts the addresses of all
interfaces. -/
def isDestinationAddress (n : LsNode) (address : Ipv4Address) (iif : LsSocket) : Bool :=
  (n.socketAddresses[iif]?).any (fun localAddress => address = localAddress.directedBroadcast) ||
    address.isMulticast || address.isBroadcast || address = .loopback || n.isOwnAddress address

variable {n : LsNode} {a : Ipv4Address} {s : LsSocket}

theorem isOwnAddress_iff : n.isOwnAddress a = true ↔ ∃ s : LsSocket,
    n.socketAddresses[s]? = some a := by
  rw [isOwnAddress, List.any_eq_true]
  constructor
  · rintro ⟨⟨s, b⟩, hmem, hb⟩
    exact ⟨s, of_decide_eq_true hb ▸ Std.ExtTreeMap.mem_toList_iff_getElem?_eq_some.mp hmem⟩
  · rintro ⟨s, hs⟩
    exact ⟨(s, a), Std.ExtTreeMap.mem_toList_iff_getElem?_eq_some.mpr hs, by simp⟩

theorem interfaceForAddress_eq (hs : n.socketAddresses[s]? = some a)
    (hinj : ∀ s' : LsSocket, n.socketAddresses[s']? = some a → s' = s) :
    n.interfaceForAddress a = some s := by
  have hmem : (s, a) ∈ n.socketAddresses.toList :=
    Std.ExtTreeMap.mem_toList_iff_getElem?_eq_some.mpr hs
  cases hfind : n.socketAddresses.toList.find? fun interface => interface.2 = a with
  | none =>
      have hnot := List.find?_eq_none.mp hfind (s, a) hmem
      simp at hnot
  | some found =>
      obtain ⟨s', b⟩ := found
      have hb : b = a := by simpa using List.find?_some hfind
      have hs' :=
        Std.ExtTreeMap.mem_toList_iff_getElem?_eq_some.mp (List.mem_of_find?_eq_some hfind)
      rw [interfaceForAddress, hfind, Option.map_some, hinj s' (hb ▸ hs')]

/-- A host address is a destination exactly at the router that has it. -/
theorem isDestinationAddress_iff (h : a.IsHost) :
    n.isDestinationAddress a s = true ↔ n.isOwnAddress a = true := by
  have hdirected : (n.socketAddresses[s]?).any
      (fun localAddress => a = localAddress.directedBroadcast) = false := by
    cases n.socketAddresses[s]? with
    | none => rfl
    | some b => simp [h.ne_directedBroadcast b]
  simp [isDestinationAddress, hdirected, h.multicast, h.broadcast, h.loopback]

end LsNode

/-! ## The datagrams in flight -/

/-- A datagram, and the interface where it arrives next. `hops` counts the links that it
has gone over. -/
structure Datagram where
  node : UInt32
  iif : LsSocket
  source : Ipv4Address
  destination : Ipv4Address
  ttl : UInt8
  hops : ℕ
deriving DecidableEq

def Datagram.flow (d : Datagram) : Ipv4Address × Ipv4Address := (d.source, d.destination)

inductive DatagramFate
  | delivered
  | timeExceeded
  | own
  | undeliverable
  | static
  | noInterface
  | interfaceDown
  | fault (f : LsFault)
deriving DecidableEq

namespace LinkedNet

variable {w : Wiring}

/-- `Ipv4L3Protocol::SendRealOut`, and the link behind the interface. -/
def sendRealOut (c : LinkedNet w) (d : Datagram) (route : LsRoute) :
    Except DatagramFate Datagram :=
  match (c.net.node d.node).interfaceForAddress route.interfaceAddr with
  | none => .error .noInterface
  | some s =>
      match c.links.ears d.node s with
      | [] => .error .interfaceDown
      | (v, t) :: _ => .ok { d with node := v, iif := t, hops := d.hops + 1 }

def ipForward (c : LinkedNet w) (d : Datagram) (route : LsRoute) : Except DatagramFate Datagram :=
  if d.ttl - 1 = 0 then .error .timeExceeded
  else c.sendRealOut { d with ttl := d.ttl - 1 } route

/-- `Ipv4L3Protocol::Receive` and `Ipv4ListRouting::RouteInput`. -/
def receive (c : LinkedNet w) (d : Datagram) : Except DatagramFate Datagram :=
  let n := c.net.node d.node
  let isDestination := n.isDestinationAddress d.destination d.iif
  if isDestination then .error .delivered
  else
    match n.routeInput d.source d.destination isDestination true with
    | .error f => .error (.fault f)
    | .ok .own => .error .own
    | .ok .localDeliver => .error .delivered
    | .ok .undeliverable => .error .undeliverable
    | .ok (.unicastForward route) => c.ipForward d route
    | .ok .static => .error .static

/-- A datagram before it is sent, with the default time to live. -/
def outgoing (c : LinkedNet w) (u : UInt32) (destination : Ipv4Address) : Datagram :=
  ⟨u, 0, (c.net.node u).mainAddress, destination, 64, 0⟩

/-- `UdpSocketImpl::DoSendTo` and `Ipv4L3Protocol::Send`, for a unicast destination. -/
def sendDatagram (c : LinkedNet w) (u : UInt32) (destination : Ipv4Address) :
    Except DatagramFate Datagram :=
  match (c.net.node u).routeOutput destination with
  | .error f => .error (.fault f)
  | .ok none => .error .static
  | .ok (some route) =>
      c.sendRealOut { c.outgoing u destination with source := route.source } route

end LinkedNet

/-- The routers, the datagrams on the links, and what has become of the others. -/
structure DataNet (w : Wiring) where
  routers : LinkedNet w
  datagrams : List Datagram
  outcomes : List (Datagram × DatagramFate)

inductive DataEvent
  | routing (e : LinkedEvent)
  | send (node : UInt32) (destination : Ipv4Address)
  | arrive (k : ℕ)
deriving DecidableEq

namespace DataNet

variable {w : Wiring}

def settle (t : DataNet w) (d : Datagram) : Except DatagramFate Datagram → DataNet w
  | .ok d' => { t with datagrams := t.datagrams ++ [d'] }
  | .error fate => { t with outcomes := t.outcomes ++ [(d, fate)] }

def step [CostQueue] (t : DataNet w) : DataEvent → Except LsFault (DataNet w)
  | .routing e => do
      let routers ← t.routers.step e
      return { t with routers := routers }
  | .send u destination =>
      .ok (t.settle (t.routers.outgoing u destination) (t.routers.sendDatagram u destination))
  | .arrive k =>
      match t.datagrams[k]? with
      | none => .ok t
      | some d =>
          .ok ({ t with datagrams := t.datagrams.eraseIdx k }.settle d (t.routers.receive d))

end DataNet

/-! ## One hop -/

/-- The addresses of the routers: each belongs to one interface, and the maps have all
of them. -/
structure Wiring.Addressed (w : Wiring) : Prop where
  numbered : ∀ u ∈ w.members, ∀ (s : LsSocket) (a : Ipv4Address),
    (w.socketAddresses u)[s]? = some a → w.maps.addressNodeMap[a]? = some u
  owned : ∀ (a : Ipv4Address) (u : UInt32), w.maps.addressNodeMap[a]? = some u →
    u ∈ w.members ∧ a.IsHost ∧ ∃ s : LsSocket, (w.socketAddresses u)[s]? = some a
  inj : ∀ u ∈ w.members, ∀ (s s' : LsSocket) (a : Ipv4Address),
    (w.socketAddresses u)[s]? = some a → (w.socketAddresses u)[s']? = some a → s' = s

namespace LinkedNet

variable {w : Wiring} {c : LinkedNet w} {u v x : UInt32} {a : Ipv4Address} {d d' : Datagram}

structure Endpoints (w : Wiring) (d : Datagram) (u v : UInt32) : Prop where
  sender : u ∈ w.members
  source : d.source = w.mainAddress u
  destination : w.maps.addressNodeMap[d.destination]? = some v

theorem Endpoints.unique {u' v' : UInt32} (h : Endpoints w d u v) (h' : Endpoints w d u' v') :
    u = u' ∧ v = v' :=
  ⟨w.main_inj h.sender h'.sender (h.source.symm.trans h'.source),
    Option.some.inj (h.destination.symm.trans h'.destination)⟩

theorem Discovering.isOwnAddress_iff (h : c.Discovering) (hw : w.Addressed) (hx : x ∈ w.members) :
    (c.net.node x).isOwnAddress a = true ↔ w.maps.addressNodeMap[a]? = some x := by
  rw [LsNode.isOwnAddress_iff, (h.site x).2.2]
  constructor
  · rintro ⟨s, hs⟩
    exact hw.numbered x hx s a hs
  · intro ha
    exact (hw.owned a x ha).2.2

theorem Discovering.sendRealOut_eq (h : c.Discovering) (hw : w.Addressed) {route : LsRoute}
    (hleads : Leads c.links d.node v route.interfaceAddr) :
    ∃ t, c.sendRealOut d route = .ok { d with node := v, iif := t, hops := d.hops + 1 } := by
  obtain ⟨s, t, hpeer, hup, hs⟩ := hleads
  have hinterface : (c.net.node d.node).interfaceForAddress route.interfaceAddr = some s := by
    refine LsNode.interfaceForAddress_eq ?_ fun s' hs' => ?_
    · rw [(h.site d.node).2.2]
      exact hs
    · rw [(h.site d.node).2.2] at hs'
      exact hw.inj d.node (w.peer_mem hpeer).1 s s' _ hs hs'
  have hears : c.links.ears d.node s = [(v, t)] := by
    simp only [Links.ears, hpeer, hup, if_true]
  exact ⟨t, by rw [sendRealOut, hinterface]; simp only [hears]⟩

/-- The route of a converged router to an address of `v` leads to a neighbour that is one
hop nearer to `v`. -/
theorem Converged.route (h : c.Converged) (hx : x ∈ w.members) (hne : v ≠ x)
    (hreach : c.links.graph.Reachable x v) :
    ∃ entry neighbor, (c.net.node x).routeTable[v]? = some entry ∧
      (c.net.node x).neighborTable[entry.nextHopNumber]? = some neighbor ∧
      Leads c.links x entry.nextHopNumber neighbor.interfaceAddr ∧
      c.links.graph.Adj x entry.nextHopNumber ∧
      c.links.graph.dist entry.nextHopNumber v + 1 = c.links.graph.dist x v := by
  have hsettled := h.settled x hx
  obtain ⟨entry, hentry, hadj, hdist⟩ := hsettled.routes v hne hreach
  obtain ⟨neighbor, hneighbor⟩ :=
    mem_iff_exists_getElem?.mp ((hsettled.knows entry.nextHopNumber).mpr hadj)
  exact ⟨entry, neighbor, hentry, hneighbor, hsettled.attached _ _ hneighbor, hadj, hdist⟩

/-- A datagram that a converged router sends to another one that it reaches is on a link,
and one hop nearer. -/
theorem Converged.sendDatagram_eq (h : c.Converged) (hw : w.Addressed) (hu : u ∈ w.members)
    (ha : w.maps.addressNodeMap[a]? = some v) (hne : v ≠ u)
    (hreach : c.links.graph.Reachable u v) :
    ∃ y t, c.sendDatagram u a = .ok ⟨y, t, w.mainAddress u, a, 64, 1⟩ ∧
      c.links.graph.Adj u y ∧ c.links.graph.dist y v + 1 = c.links.graph.dist u v := by
  obtain ⟨hmaps, hmain, -⟩ := h.discovering.site u
  obtain ⟨entry, neighbor, hentry, hneighbor, hleads, hadj, hdist⟩ := h.route hu hne hreach
  have hnumber : (c.net.node u).maps.addressNodeMap[a]? = some v := by rw [hmaps, ha]
  have hroute : (c.net.node u).routeOutput a = .ok (some
      ⟨a, w.mainAddress u, entry.nextHopAddr, neighbor.interfaceAddr⟩) := by
    have hfind : findIn .neighborTable (c.net.node u).neighborTable entry.nextHopNumber =
        .ok neighbor := findIn_eq_ok.mpr hneighbor
    rw [LsNode.routeOutput_of_mem hnumber, LsNode.entryOf_eq hnumber, hentry, LsNode.outputBy,
      hfind, hmain]
    rfl
  obtain ⟨t, hout⟩ : ∃ t, c.sendRealOut { c.outgoing u a with source := w.mainAddress u }
      ⟨a, w.mainAddress u, entry.nextHopAddr, neighbor.interfaceAddr⟩ =
        .ok ⟨entry.nextHopNumber, t, w.mainAddress u, a, 64, 1⟩ :=
    h.discovering.sendRealOut_eq hw hleads
  refine ⟨entry.nextHopNumber, t, ?_, hadj, hdist⟩
  rw [sendDatagram, hroute]
  exact hout

theorem toNat_pos {ttl : UInt8} (h : ttl ≠ 0) : 0 < ttl.toNat := by
  rw [Nat.pos_iff_ne_zero, Ne, ← UInt8.toNat_zero, UInt8.toNat_inj]
  exact h

theorem toNat_sub_one {ttl : UInt8} (h : ttl ≠ 0) : (ttl - 1).toNat = ttl.toNat - 1 :=
  UInt8.toNat_sub_of_le ttl 1 (UInt8.le_iff_toNat_le.mpr (toNat_pos h))

structure Underway (c : LinkedNet w) (d : Datagram) (u v : UInt32) : Prop where
  between : Endpoints w d u v
  reachable : c.links.graph.Reachable d.node v
  distance : d.hops + c.links.graph.dist d.node v = c.links.graph.dist u v
  ttl : d.ttl.toNat + d.hops = 65
  alive : d.ttl ≠ 0
  moved : 0 < d.hops

theorem Underway.hops_le (h : c.Underway d u v) : d.hops ≤ 64 := by
  have hpos := toNat_pos h.alive
  have httl := h.ttl
  omega

/-- Where a datagram on its way arrives, it is delivered, out of time, or goes on. -/
theorem Converged.receive_cases (h : c.Converged) (hw : w.Addressed) (hd : c.Underway d u v) :
    (d.node = v ∧ c.receive d = .error .delivered) ∨
      (d.node ≠ v ∧ d.hops = 64 ∧ c.receive d = .error .timeExceeded) ∨
      ∃ d', c.receive d = .ok d' ∧ d'.flow = d.flow ∧ d'.hops = d.hops + 1 ∧
        c.Underway d' u v := by
  obtain ⟨hsender, hsource, hdest⟩ := hd.between
  obtain ⟨hv, hhost, -⟩ := hw.owned d.destination v hdest
  have hx : d.node ∈ w.members := by
    obtain ⟨p⟩ := hd.reachable.symm
    exact Links.mem_of_mem_support p hv d.node p.end_mem_support
  have hlocal : (c.net.node d.node).isDestinationAddress d.destination d.iif = true ↔
      d.node = v := by
    rw [LsNode.isDestinationAddress_iff hhost, h.discovering.isOwnAddress_iff hw hx, hdest,
      Option.some.injEq, eq_comm]
  by_cases hnode : d.node = v
  · refine Or.inl ⟨hnode, ?_⟩
    simp only [receive, hlocal.mpr hnode, if_true]
  · refine Or.inr ?_
    have hfar : (c.net.node d.node).isDestinationAddress d.destination d.iif = false := by
      rw [← Bool.not_eq_true, hlocal]
      exact hnode
    -- the sender is farther away
    have hown : (c.net.node d.node).isOwnAddress d.source = false := by
      rw [← Bool.not_eq_true, h.discovering.isOwnAddress_iff hw hx, hsource, w.number u hsender,
        Option.some.injEq]
      rintro rfl
      have hmoved := hd.moved
      have hdistance := hd.distance
      omega
    obtain ⟨hmaps, hmain, -⟩ := h.discovering.site d.node
    obtain ⟨entry, neighbor, hentry, hneighbor, hleads, hadj, hdist⟩ :=
      h.route hx (Ne.symm hnode) hd.reachable
    have hroute : (c.net.node d.node).routeInput d.source d.destination false true =
        .ok (.unicastForward
          ⟨d.destination, w.mainAddress d.node, entry.nextHopAddr, neighbor.interfaceAddr⟩) := by
      have hnumber : (c.net.node d.node).maps.numberOf d.destination = .ok v :=
        findIn_eq_ok.mpr (by rw [hmaps, hdest])
      rw [LsNode.routeInput_of_routed hown, hnumber]
      simp only [bind, Except.bind, pure, Except.pure, hentry, LsNode.forwardBy, hneighbor, hmain]
    have hforward : c.receive d = c.ipForward d
        ⟨d.destination, w.mainAddress d.node, entry.nextHopAddr, neighbor.interfaceAddr⟩ := by
      simp only [receive, hfar, hroute, Bool.false_eq_true, if_false]
    rw [hforward, ipForward]
    have httl := hd.ttl
    by_cases hone : d.ttl - 1 = 0
    · refine Or.inl ⟨hnode, ?_, if_pos hone⟩
      have hval := toNat_sub_one hd.alive
      rw [hone] at hval
      have hpos := toNat_pos hd.alive
      change 0 = _ at hval
      omega
    · refine Or.inr ?_
      rw [if_neg hone]
      obtain ⟨t, hout⟩ : ∃ t, c.sendRealOut { d with ttl := d.ttl - 1 }
          ⟨d.destination, w.mainAddress d.node, entry.nextHopAddr, neighbor.interfaceAddr⟩ =
            .ok { d with
              node := entry.nextHopNumber, iif := t, ttl := d.ttl - 1, hops := d.hops + 1 } :=
        h.discovering.sendRealOut_eq hw hleads
      refine ⟨_, hout, rfl, rfl, ⟨hsender, hsource, hdest⟩, ?_, ?_, ?_, hone, Nat.succ_pos _⟩
      · exact hadj.reachable.symm.trans hd.reachable
      · have hdistance := hd.distance
        change d.hops + 1 + c.links.graph.dist entry.nextHopNumber v = _
        omega
      · have hpos := toNat_pos hd.alive
        change (d.ttl - 1).toNat + (d.hops + 1) = 65
        rw [toNat_sub_one hd.alive]
        omega

theorem Converged.sendDatagram_underway (h : c.Converged) (hw : w.Addressed) (hu : u ∈ w.members)
    (ha : w.maps.addressNodeMap[a]? = some v) (hne : v ≠ u)
    (hreach : c.links.graph.Reachable u v) :
    ∃ d, c.sendDatagram u a = .ok d ∧ d.flow = (w.mainAddress u, a) ∧ c.Underway d u v := by
  obtain ⟨y, t, hsend, hadj, hdist⟩ := h.sendDatagram_eq hw hu ha hne hreach
  refine ⟨_, hsend, rfl, ⟨hu, rfl, ha⟩, hadj.reachable.symm.trans hreach, ?_, rfl, ?_, Nat.one_pos⟩
  · change 1 + c.links.graph.dist y v = _
    omega
  · exact (by decide : (64 : UInt8) ≠ 0)

end LinkedNet

/-! ## Runs -/

namespace DataNet

variable [CostQueue] {w : Wiring} {t t' : DataNet w} {e : DataEvent} {es : List DataEvent}

/-- Routers send to others that they reach; rounds of discovery go on, and no link changes. -/
def Serves (t : DataNet w) : DataEvent → Prop
  | .routing e => t.routers.Allowed e ∧ t.routers.Paced e
  | .send u a => u ∈ w.members ∧ ∃ v, w.maps.addressNodeMap[a]? = some v ∧ v ≠ u ∧
      t.routers.links.graph.Reachable u v
  | .arrive _ => True

def Arrives (t : DataNet w) (e : DataEvent) : Prop := ∃ k < t.datagrams.length, e = .arrive k

def sentFlows (w : Wiring) : List DataEvent → Multiset (Ipv4Address × Ipv4Address)
  | [] => 0
  | .send u a :: es => (w.mainAddress u, a) ::ₘ sentFlows w es
  | _ :: es => sentFlows w es

def flows (t : DataNet w) : Multiset (Ipv4Address × Ipv4Address) :=
  (t.datagrams : Multiset Datagram).map Datagram.flow +
    (t.outcomes : Multiset (Datagram × DatagramFate)).map fun o => o.1.flow

omit [CostQueue] in
theorem sentFlows_append (es es' : List DataEvent) :
    sentFlows w (es ++ es') = sentFlows w es + sentFlows w es' := by
  induction es with
  | nil => simp [sentFlows]
  | cons e es ih => cases e <;> simp [sentFlows, ih]

/-- How a datagram ends: by a shortest path at its destination, or after 64 hops if that
is farther away. -/
def EndsWell (links : Links w) (o : Datagram × DatagramFate) : Prop :=
  ∃ u v, LinkedNet.Endpoints w o.1 u v ∧
    ((links.graph.dist u v ≤ 64 ∧ o.2 = .delivered ∧ o.1.node = v ∧
        o.1.hops = links.graph.dist u v) ∨
      (64 < links.graph.dist u v ∧ o.2 = .timeExceeded ∧ o.1.hops = 64))

/-- The routers are converged, and what has been sent is on its way or has ended well. -/
structure Carrying (t : DataNet w) (links : Links w)
    (sent : Multiset (Ipv4Address × Ipv4Address)) : Prop where
  links_eq : t.routers.links = links
  converged : t.routers.Converged
  underway : ∀ d ∈ t.datagrams, ∃ u v, t.routers.Underway d u v
  ended : ∀ o ∈ t.outcomes, EndsWell links o
  flows_eq : t.flows = sent

variable {links : Links w} {sent : Multiset (Ipv4Address × Ipv4Address)} {d : Datagram}

omit [CostQueue] in
theorem Carrying.onward (h : t.Carrying links sent) {u v : UInt32}
    (hd : t.routers.Underway d u v) :
    ({ t with datagrams := t.datagrams ++ [d] } : DataNet w).Carrying links (d.flow ::ₘ sent) where
  links_eq := h.links_eq
  converged := h.converged
  underway d' hd' := by
    rcases List.mem_append.mp hd' with hd' | hd'
    · exact h.underway d' hd'
    · rw [List.mem_singleton.mp hd']
      exact ⟨u, v, hd⟩
  ended := h.ended
  flows_eq := by
    rw [← h.flows_eq, flows, flows, coe_concat, Multiset.map_cons, Multiset.cons_add]

omit [CostQueue] in
theorem Carrying.ends (h : t.Carrying links sent) {fate : DatagramFate}
    (hd : EndsWell links (d, fate)) :
    ({ t with outcomes := t.outcomes ++ [(d, fate)] } : DataNet w).Carrying links
      (d.flow ::ₘ sent) where
  links_eq := h.links_eq
  converged := h.converged
  underway := h.underway
  ended o ho := by
    rcases List.mem_append.mp ho with ho | ho
    · exact h.ended o ho
    · rw [List.mem_singleton.mp ho]
      exact hd
  flows_eq := by
    rw [← h.flows_eq, flows, flows, coe_concat, Multiset.map_cons, Multiset.add_cons]

omit [CostQueue] in
theorem Carrying.erase (h : t.Carrying links sent) {k : ℕ} (hk : t.datagrams[k]? = some d) :
    ∃ rest, sent = d.flow ::ₘ rest ∧
      ({ t with datagrams := t.datagrams.eraseIdx k } : DataNet w).Carrying links rest := by
  refine ⟨({ t with datagrams := t.datagrams.eraseIdx k } : DataNet w).flows, ?_,
    h.links_eq, h.converged, fun d' hd' => h.underway d' (List.mem_of_mem_eraseIdx hd'), h.ended,
    rfl⟩
  rw [← h.flows_eq, flows, flows, coe_eq_cons_eraseIdx hk, Multiset.map_cons, Multiset.cons_add]

omit [CostQueue] in
/-- An arrival ends a datagram or takes it one hop on. -/
theorem Carrying.arrive (h : t.Carrying links sent) (hw : w.Addressed) {k : ℕ}
    (hk : t.datagrams[k]? = some d) :
    ({ t with datagrams := t.datagrams.eraseIdx k }.settle d (t.routers.receive d) :
        DataNet w).Carrying links sent ∧
      ∀ d', t.routers.receive d = .ok d' → d'.hops = d.hops + 1 ∧ d.hops < 64 := by
  obtain ⟨rest, rfl, herase⟩ := h.erase hk
  obtain ⟨u, v, hd⟩ := h.underway d (List.mem_of_getElem? hk)
  have hdistance := h.links_eq ▸ hd.distance
  rcases h.converged.receive_cases hw hd with ⟨hnode, hrecv⟩ | ⟨hnode, hhops, hrecv⟩ |
    ⟨d', hrecv, hflow, hhops, hd'⟩
  · have hle := hd.hops_le
    rw [hnode, SimpleGraph.dist_self, add_zero] at hdistance
    rw [hrecv]
    refine ⟨herase.ends ⟨u, v, hd.between, Or.inl ⟨?_, rfl, hnode, hdistance⟩⟩, fun d' hd' => ?_⟩
    · omega
    · cases hd'
  · have hpos : 0 < links.graph.dist d.node v :=
      (h.links_eq ▸ hd.reachable).pos_dist_of_ne hnode
    rw [hrecv]
    refine ⟨herase.ends ⟨u, v, hd.between, Or.inr ⟨?_, rfl, hhops⟩⟩, fun d' hd' => ?_⟩
    · omega
    · cases hd'
  · rw [hrecv]
    refine ⟨hflow ▸ herase.onward hd', fun d'' hd'' => ?_⟩
    obtain rfl := Except.ok.inj hd''
    have hle := hd'.hops_le
    exact ⟨hhops, by omega⟩

theorem Carrying.step (h : t.Carrying links sent) (hw : w.Addressed) (hok : t.Serves e)
    (hstep : t.step e = .ok t') : t'.Carrying links (sent + sentFlows w [e]) := by
  cases e with
  | routing e =>
      obtain ⟨c, hc, ht⟩ := bind_eq_ok.mp hstep
      obtain rfl := Except.ok.inj ht
      obtain ⟨hconverged, hlinks⟩ := h.converged.step hok.1 hok.2 hc
      have hflows : sentFlows w [DataEvent.routing e] = 0 := rfl
      rw [hflows, add_zero]
      refine ⟨hlinks.trans h.links_eq, hconverged, fun d hd => ?_, h.ended, h.flows_eq⟩
      obtain ⟨u, v, hu⟩ := h.underway d hd
      refine ⟨u, v, hu.between, ?_, ?_, hu.ttl, hu.alive, hu.moved⟩
      · change c.links.graph.Reachable d.node v
        exact hlinks ▸ hu.reachable
      · change d.hops + c.links.graph.dist d.node v = c.links.graph.dist u v
        exact hlinks ▸ hu.distance
  | send u a =>
      obtain ⟨hu, v, ha, hne, hreach⟩ := hok
      obtain ⟨d, hsend, hflow, hd⟩ := h.converged.sendDatagram_underway hw hu ha hne hreach
      obtain rfl := Except.ok.inj hstep
      have hflows : sent + sentFlows w [DataEvent.send u a] = d.flow ::ₘ sent := by
        rw [hflow, add_comm]
        simp [sentFlows]
      rw [hflows, hsend]
      exact h.onward hd
  | arrive k =>
      have hflows : sentFlows w [DataEvent.arrive k] = 0 := rfl
      rw [hflows, add_zero]
      cases hk : t.datagrams[k]? with
      | none =>
          simp only [DataNet.step, hk] at hstep
          exact Except.ok.inj hstep ▸ h
      | some d =>
          simp only [DataNet.step, hk] at hstep
          exact Except.ok.inj hstep ▸ (h.arrive hw hk).1

theorem Carrying.run (h : t.Carrying links sent) (hw : w.Addressed)
    (hrun : Run DataNet.step Serves t es t') : t'.Carrying links (sent + sentFlows w es) := by
  induction hrun with
  | nil => simpa [sentFlows] using h
  | snoc run allowed eq ih =>
      rw [sentFlows_append, ← add_assoc]
      exact ih.step hw allowed eq

def hopsLeft (t : DataNet w) : ℕ := (t.datagrams.map fun d => 65 - d.hops).sum

/-- Whichever datagrams arrive first, all of them come to their end. -/
theorem Carrying.reaches (h : t.Carrying links sent) (hw : w.Addressed) :
    Reaches DataNet.step Arrives (fun _ => True) (fun t => t.datagrams = []) t := by
  refine reaches_of_decreasing (J := fun t => t.Carrying links sent) hopsLeft (fun _ _ => trivial)
    (fun t ht => ?_) ?_ h
  · by_cases hempty : t.datagrams = []
    · exact Or.inl hempty
    · exact Or.inr ⟨.arrive 0, 0, List.length_pos_iff.mpr hempty, rfl⟩
  · rintro t _ ht ⟨k, hk, rfl⟩
    obtain ⟨d, hd⟩ : ∃ d, t.datagrams[k]? = some d := ⟨_, List.getElem?_eq_getElem hk⟩
    obtain ⟨hcarrying, hhops⟩ := ht.arrive hw hd
    refine ⟨_, by simp only [DataNet.step, hd], hcarrying, ?_⟩
    obtain ⟨u, v, hu⟩ := ht.underway d (List.mem_of_getElem? hd)
    have hle := hu.hops_le
    have hsplit : t.hopsLeft = (65 - d.hops) +
        ((t.datagrams.eraseIdx k).map fun d => 65 - d.hops).sum := by
      obtain ⟨pre, post, hlist, -, herase⟩ := exists_split hd
      rw [hopsLeft, herase, hlist]
      simp only [List.map_append, List.map_cons, List.sum_append, List.sum_cons]
      omega
    rw [hsplit]
    cases hrecv : t.routers.receive d with
    | ok d' =>
        obtain ⟨hone, hlt⟩ := hhops d' hrecv
        simp only [settle, hopsLeft, List.map_append, List.map_singleton, List.sum_append,
          List.sum_singleton]
        omega
    | error fate =>
        simp only [settle, hopsLeft]
        omega

/-- From converged routers on, any of them send to addresses of others that they reach,
while rounds of discovery go on. In every run, each datagram that has been sent is on one
link or has come to one end, and none is there that has not been sent. Those on the links
have gone over the first links of a shortest path. Those that have ended were delivered
after as many hops as the distance, or after 64 hops were out of time if it is larger.
However the datagrams arrive from here, all of them come to their end. -/
theorem datagrams_delivered (hw : w.Addressed) {c : LinkedNet w} (hconverged : c.Converged)
    {ds : List DataEvent} {t : DataNet w} (data : Run DataNet.step Serves ⟨c, [], []⟩ ds t) :
    t.flows = sentFlows w ds ∧
      (∀ d ∈ t.datagrams, ∃ u v, LinkedNet.Endpoints w d u v ∧ 0 < d.hops ∧ d.hops ≤ 64 ∧
        d.hops + c.links.graph.dist d.node v = c.links.graph.dist u v) ∧
      (∀ o ∈ t.outcomes, EndsWell c.links o) ∧
      Reaches DataNet.step Arrives (fun _ => True) (fun t => t.datagrams = []) t := by
  have hempty : ({ routers := c, datagrams := [], outcomes := [] } : DataNet w).Carrying
      c.links 0 :=
    ⟨rfl, hconverged, fun d hd => (by cases hd), fun o ho => (by cases ho), rfl⟩
  have h := hempty.run hw data
  rw [zero_add] at h
  refine ⟨h.flows_eq, fun d hd => ?_, h.ended, h.reaches hw⟩
  obtain ⟨u, v, hu⟩ := h.underway d hd
  exact ⟨u, v, hu.between, hu.moved, hu.hops_le, h.links_eq ▸ hu.distance⟩

end DataNet

end PennSearch

namespace PennSearch

open MessagePassing LinkedNet

attribute [local instance] CostQueue.ofList

theorem line_addressed : line.Addressed where
  numbered := by
    have hall : ∀ u ∈ line.members, ∀ p ∈ (lineSockets u).toList,
        lineAddresses[p.2]? = some u :=
      forall_lineNodes (by decide +kernel) (by decide +kernel) (by decide +kernel)
    intro u hu s a h
    exact hall u hu (s, a) (Std.ExtTreeMap.mem_toList_iff_getElem?_eq_some.mpr h)
  owned := by
    have hall : ∀ p ∈ lineAddresses.toList, p.2 ∈ ({0, 1, 2} : Finset UInt32) ∧
        (p.1.isMulticast = false ∧ p.1.isBroadcast = false ∧ p.1 ≠ .loopback ∧
          p.1.directedBroadcast ≠ p.1) ∧
        ∃ s ∈ [0, 1], (lineSockets p.2)[s]? = some p.1 := by decide +kernel
    intro a u h
    obtain ⟨hmem, ⟨h1, h2, h3, h4⟩, s, -, hs⟩ :=
      hall (a, u) (Std.ExtTreeMap.mem_toList_iff_getElem?_eq_some.mpr h)
    exact ⟨hmem, ⟨h1, h2, h3, h4⟩, s, hs⟩
  inj := by
    have hall : ∀ u ∈ line.members, ∀ p ∈ (lineSockets u).toList, ∀ q ∈ (lineSockets u).toList,
        p.2 = q.2 → q.1 = p.1 :=
      forall_lineNodes (by decide +kernel) (by decide +kernel) (by decide +kernel)
    intro u hu s s' a h h'
    exact hall u hu (s, a) (Std.ExtTreeMap.mem_toList_iff_getElem?_eq_some.mpr h) (s', a)
      (Std.ExtTreeMap.mem_toList_iff_getElem?_eq_some.mpr h') rfl

theorem datagrams_delivered_sample :
    ∃ (c : LinkedNet line) (t : DataNet line),
      Run DataNet.step DataNet.Serves ⟨c, [], []⟩ [.send 2 ⟨1⟩, .arrive 0] t ∧
      t.flows = DataNet.sentFlows line [.send 2 ⟨1⟩, .arrive 0] ∧
      (∀ d ∈ t.datagrams, ∃ u v, Endpoints line d u v ∧ 0 < d.hops ∧ d.hops ≤ 64 ∧
        d.hops + c.links.graph.dist d.node v = c.links.graph.dist u v) ∧
      (∀ o ∈ t.outcomes, DataNet.EndsWell c.links o) ∧
      Reaches DataNet.step DataNet.Arrives (fun _ => True) (fun t => t.datagrams = []) t := by
  obtain ⟨c, hc, c', hc', hquiet, hup, hsince⟩ := lineDown_runs
  have last : Run step (fun c e => c.Allowed e ∧ c.Paced e) c (lineRound 2 4 2 ++ lineRound 4 6 4)
      c' := (Run.of_execute hc').mono fun _ _ h => ⟨h.1, paced_of_calm h.2⟩
  have rounds : ∀ u ∈ line.members, 2 ≤ (lineRound 2 4 2 ++ lineRound 4 6 4).count
      (.router (.ndRequests u)) := forall_lineNodes (by decide) (by decide) (by decide)
  have hserves : DataNet.Serves ⟨c', [], []⟩ (.send 2 ⟨1⟩) :=
    ⟨by decide, 0, by decide +kernel, by decide, line_reachable hup⟩
  obtain ⟨t, ht⟩ : ∃ t,
      Run DataNet.step DataNet.Serves ⟨c', [], []⟩ [.send 2 ⟨1⟩, .arrive 0] t := by
    let sent : DataNet line := DataNet.settle ⟨c', [], []⟩ (c'.outgoing 2 ⟨1⟩)
      (c'.sendDatagram 2 ⟨1⟩)
    have hsend : Run DataNet.step DataNet.Serves ⟨c', [], []⟩ [.send 2 ⟨1⟩] sent :=
      Run.single hserves rfl
    obtain ⟨t, ht⟩ : ∃ t, sent.step (.arrive 0) = .ok t := by
      simp only [DataNet.step]
      cases sent.datagrams[0]? <;> exact ⟨_, rfl⟩
    exact ⟨t, hsend.trans (Run.single trivial ht)⟩
  have hconverged : c'.Converged :=
    converged_of_run (lineLinks [] (by decide)) 16 1 (fun _ => 7) (.of_execute hc) last rounds
      hquiet (line_heard hup hsince)
  exact ⟨c', t, ht, DataNet.datagrams_delivered line_addressed hconverged ht⟩

end PennSearch
