import PennSearch.LinkState.Knowledge

/-!
# Routes to oneself

`ProcessLsp` does not ask who originated the LSP, so a router that gets its own
LSP back, over a cycle or a parallel link, enters itself in its route map, and
`DijkstraAlgo` then finds a way out and back. Besides the links that go up and
down, packets may get lost and be duplicated here. As long as no LSP comes back
to its originator, no routing table has an entry for the router itself.
-/

namespace PennSearch

open MessagePassing HopCount

variable [CostQueue]

theorem notMem_dijkstraTable {maps : AddressMaps} {neighborTable : NeighborTable}
    {routeMap : RouteMap} {table : RouteTable} {u : UInt32}
    (h : dijkstraTable maps neighborTable routeMap = .ok table) (hneighbor : u ∉ neighborTable)
    (hmap : u ∉ routeMap) : u ∉ table := by
  intro hu
  obtain ⟨e, he⟩ := mem_iff_exists_getElem?.mp hu
  obtain ⟨hpath, -⟩ := (dijkstraTable_shortest h u).1 e he
  generalize e.cost.toNat = length at hpath
  cases hpath with
  | source hS => exact hneighbor hS
  | step path edge =>
      obtain ⟨-, details, -, hdetails, -⟩ := edge
      exact hmap (mem_iff_exists_getElem?.mpr ⟨details, hdetails⟩)

structure LsNode.Without (u : UInt32) (n : LsNode) : Prop where
  neighborTable : u ∉ n.neighborTable
  currentneighborTable : u ∉ n.currentneighborTable
  routeMap : u ∉ n.routeMap
  routeTable : u ∉ n.routeTable

namespace LsNode.Without

variable {n n' : LsNode} {u k : UInt32} {sent : List (LsSocket × LSMessage)}

omit [CostQueue] in
theorem start (u : UInt32) (maps : AddressMaps) (mainAddress : Ipv4Address)
    (socketAddresses : Std.ExtTreeMap LsSocket Ipv4Address) (maxTTL singleHop : UInt8)
    (sequenceNumber : UInt32) :
    Without u (.start maps mainAddress socketAddresses maxTTL singleHop sequenceNumber) := by
  constructor <;> simp [LsNode.start]

theorem ndRequests (h : n.Without u) (hturn : n.ndRequests = .ok (n', sent)) : n'.Without u := by
  cases hflag : floodingFlag n.neighborTable n.currentneighborTable with
  | false =>
      rw [ndRequests_of_not_flag hflag] at hturn
      cases hturn
      exact ⟨h.currentneighborTable, by simp [nextSequenceNumber], h.routeMap,
        h.routeTable⟩
  | true =>
      obtain ⟨table, htable, rfl, -⟩ := (ndRequests_of_flag hflag).mp hturn
      exact ⟨h.currentneighborTable, by simp, h.routeMap,
        notMem_dijkstraTable htable h.currentneighborTable h.routeMap⟩

omit [CostQueue] in
theorem addNeighbor (h : n.Without u) (hk : k ≠ u) (entry : NeighborTableEntry) :
    Without u { n with currentneighborTable := n.currentneighborTable.insert k entry } :=
  ⟨h.neighborTable, by simp [Std.ExtTreeMap.mem_insert, h.currentneighborTable, hk], h.routeMap,
    h.routeTable⟩

theorem recv_lsp {socket : LsSocket} {m : LSMessage} {r : LspRecord} (h : n.Without u)
    (hm : m.lspRecord = some r) (hk : n.maps.addressNodeMap[r.originatorAddress]? = some k)
    (hother : k ≠ u ∨ n.knowsLsp r.originatorAddress r.sequenceNumber = true)
    (hturn : n.recvLSMessage socket m = .ok (n', sent)) : n'.Without u := by
  cases hknows : n.knowsLsp r.originatorAddress r.sequenceNumber with
  | true =>
      rw [recv_lsp_of_knows hm hknows] at hturn
      cases hturn
      exact h
  | false =>
      rw [hknows, or_iff_left Bool.false_ne_true] at hother
      obtain ⟨k', details, table, hk', -, htable, rfl, -⟩ :=
        (recv_lsp_of_not_knows hm hknows).mp hturn
      obtain rfl := Option.some.inj (hk.symm.trans hk')
      have hmap : u ∉ n.routeMap.insert k details := by
        simp [Std.ExtTreeMap.mem_insert, h.routeMap, hother]
      exact ⟨h.neighborTable, h.currentneighborTable, hmap,
        notMem_dijkstraTable htable h.neighborTable hmap⟩

end LsNode.Without

/-! ## Runs with faults -/

/-- A step of the network, or a fault: a packet in flight is lost, or duplicated. -/
inductive FaultyEvent
  | linked (e : LinkedEvent)
  | lose (position : ℕ)
  | duplicate (position : ℕ)
deriving DecidableEq

namespace LinkedNet

variable {w : Wiring} {c c' : LinkedNet w} {e : FaultyEvent} {u : UInt32} {n : LsNode}
  {sent : List (LsSocket × LSMessage)}

def faultyStep (c : LinkedNet w) : FaultyEvent → Except LsFault (LinkedNet w)
  | .linked e => c.step e
  | .lose k => .ok { c with net := c.net.take k }
  | .duplicate k =>
      .ok { c with net := { c.net with inFlight := c.net.inFlight ++ c.net.inFlight[k]?.toList } }

def OwnLspReturns (c : LinkedNet w) : FaultyEvent → Prop
  | .linked (.router (.deliver k)) => ∃ p ∈ c.net.inFlight[k]?, ∃ r ∈ p.msg.2.lspRecord,
      r.originatorAddress = (c.net.node p.dst).mainAddress ∧
        (c.net.node p.dst).knowsLsp r.originatorAddress r.sequenceNumber = false
  | _ => False

instance (c : LinkedNet w) (e : FaultyEvent) : Decidable (c.OwnLspReturns e) :=
  match e with
  | .linked (.router (.deliver k)) =>
      inferInstanceAs (Decidable (∃ p ∈ c.net.inFlight[k]?, ∃ r ∈ p.msg.2.lspRecord,
        r.originatorAddress = (c.net.node p.dst).mainAddress ∧
          (c.net.node p.dst).knowsLsp r.originatorAddress r.sequenceNumber = false))
  | .linked (.router (.ndRequests _)) => .isFalse id
  | .linked (.link _ _ _) => .isFalse id
  | .lose _ => .isFalse id
  | .duplicate _ => .isFalse id

omit [CostQueue] in
/-- Whose LSPs are in flight, and that no router has itself in a table. -/
structure Outward (c : LinkedNet w) : Prop where
  discovering : c.Discovering
  originator : ∀ p ∈ c.net.inFlight, ∀ r, p.msg.2.lspRecord = some r →
    ∃ v ∈ w.members, r.originatorAddress = w.mainAddress v
  tables : ∀ u, (c.net.node u).Without u

omit [CostQueue] in
theorem outward_start (links : Links w) (maxTTL singleHop : UInt8)
    (sequenceNumber : UInt32 → UInt32) :
    (start w links maxTTL singleHop sequenceNumber).Outward where
  discovering := discovering_start links maxTTL singleHop sequenceNumber
  originator p hp := by cases hp
  tables _ := .start _ _ _ _ _ _ _

omit [CostQueue] in
/-- The tables after one router has acted. -/
theorem Outward.tables_act (h : c.Outward) (net : LsNet UInt32) (hnode : net.node = c.net.node)
    (hn : n.Without u) (sentPackets : List (LsPacket UInt32)) (v : UInt32) :
    ((net.act u n sentPackets).node v).Without v := by
  rw [Net.act_node, hnode]
  split
  · rename_i hv
    exact hv ▸ hn
  · exact h.tables v

omit [CostQueue] in
theorem Outward.originator_append (h : c.Outward) {flight : List (LsPacket UInt32)}
    (hflight : ∀ p ∈ flight, p ∈ c.net.inFlight)
    (hsent : ∀ p ∈ transmit c.links.ears u sent, ∀ r, p.msg.2.lspRecord = some r →
      ∃ v ∈ w.members, r.originatorAddress = w.mainAddress v) :
    ∀ p ∈ flight ++ transmit c.links.ears u sent, ∀ r, p.msg.2.lspRecord = some r →
      ∃ v ∈ w.members, r.originatorAddress = w.mainAddress v := by
  intro p hp
  rcases List.mem_append.mp hp with hp | hp
  · exact h.originator p (hflight p hp)
  · exact hsent p hp

theorem Outward.originator_ndRequests (h : c.Outward)
    (hturn : (c.net.node u).ndRequests = .ok (n, sent)) :
    ∀ p ∈ transmit c.links.ears u sent, ∀ r, p.msg.2.lspRecord = some r →
      ∃ v ∈ w.members, r.originatorAddress = w.mainAddress v := by
  intro p hp r hr
  obtain ⟨-, s, hpeer, -, hp⟩ := mem_transmit_ears.mp hp
  refine ⟨u, (w.peer_mem hpeer).1, ?_⟩
  obtain ⟨-, -, -, -, -, request, hreq, -, hsent⟩ := LsNode.ndRequests_spec hturn
  have hnot : p.msg.2 ≠ request := by
    rintro hmsg
    rw [hmsg, LSMessage.lspRecord_of_isNdReq hreq] at hr
    cases hr
  rcases hsent with ⟨-, -, rfl⟩ | ⟨-, -, flood, hflood, rfl⟩
  · exact absurd (LsNode.mem_broadcastPacket.mp hp).2 hnot
  · rcases List.mem_append.mp hp with hp | hp
    · rw [(LsNode.mem_broadcastPacket.mp hp).2, hflood] at hr
      obtain rfl := Option.some.inj hr
      exact (h.discovering.site u).2.1
    · exact absurd (LsNode.mem_broadcastPacket.mp hp).2 hnot

theorem Outward.deliver (h : c.Outward) {k : ℕ} {p : LsPacket UInt32}
    (hp : c.net.inFlight[k]? = some p)
    (hreturns : ¬ c.OwnLspReturns (.linked (.router (.deliver k))))
    (hrecv : (c.net.node p.dst).recvLSMessage p.msg.1 p.msg.2 = .ok (n, sent)) :
    n.Without p.dst ∧ ∀ q ∈ transmit c.links.ears p.dst sent, ∀ r, q.msg.2.lspRecord = some r →
      ∃ v ∈ w.members, r.originatorAddress = w.mainAddress v := by
  have hmem := List.mem_of_getElem? hp
  obtain ⟨t, hpeer⟩ := h.discovering.wired p hmem
  obtain ⟨hmaps, hmain, -⟩ := h.discovering.site p.dst
  rcases h.discovering.recv hmem hrecv with ⟨-, rfl, answer, hanswer, -, rfl⟩ |
    ⟨-, rfl, interfaceAddr, rfl⟩ | ⟨r, hr, -, -, -, -, hsent⟩
  · refine ⟨h.tables p.dst, fun q hq r hr => ?_⟩
    obtain ⟨-, s, -, -, hq⟩ := mem_transmit_ears.mp hq
    obtain ⟨-, hmsg⟩ := Prod.mk.inj (List.mem_singleton.mp hq)
    rw [hmsg, LSMessage.lspRecord_of_isNdRspFor hanswer] at hr
    cases hr
  · exact ⟨(h.tables p.dst).addNeighbor (w.peer_mem hpeer).2.2 _, fun q hq => by cases hq⟩
  · obtain ⟨v, hv, horig⟩ := h.originator p hmem r hr
    constructor
    · refine (h.tables p.dst).recv_lsp hr (k := v) (by rw [hmaps, horig, w.number v hv]) ?_ hrecv
      by_contra hnot
      rw [not_or, not_not, Bool.not_eq_true] at hnot
      refine hreturns ⟨p, hp, r, hr, ?_, hnot.2⟩
      rw [horig, hmain, hnot.1]
    · intro q hq r' hr'
      obtain ⟨-, s, -, -, hq⟩ := mem_transmit_ears.mp hq
      rw [hsent (s, q.msg.2) hq] at hr'
      obtain rfl := Option.some.inj hr'
      exact ⟨v, hv, horig⟩

/-- A step or a fault at which no LSP comes back to its originator. -/
theorem Outward.step (h : c.Outward) (hreturns : ¬ c.OwnLspReturns e)
    (hstep : c.faultyStep e = .ok c') : c'.Outward := by
  cases e with
  | linked e =>
      have hdiscovering := h.discovering.step_of_ok hstep
      rcases step_ok_cases hstep with ⟨u, s, b, rfl, rfl⟩ | ⟨u, n, sent, rfl, hturn, rfl⟩ |
        ⟨k, p, n, sent, rfl, hp, hrecv, rfl⟩ | ⟨k, -, -, rfl⟩
      · exact ⟨hdiscovering, h.originator, h.tables⟩
      · exact ⟨hdiscovering,
          h.originator_append (fun _ => id) (h.originator_ndRequests hturn),
          h.tables_act c.net rfl ((h.tables u).ndRequests hturn) _⟩
      · obtain ⟨hn, hsent⟩ := h.deliver hp hreturns hrecv
        exact ⟨hdiscovering,
          h.originator_append (fun q hq => List.mem_of_mem_eraseIdx hq) hsent,
          h.tables_act (c.net.take k) rfl hn _⟩
      · exact h
  | lose k =>
      cases hstep
      have hsub : ∀ p ∈ c.net.inFlight.eraseIdx k, p ∈ c.net.inFlight :=
        fun p hp => List.mem_of_mem_eraseIdx hp
      exact ⟨⟨h.discovering.site, fun p hp => h.discovering.wired p (hsub p hp),
        fun p hp => h.discovering.kind p (hsub p hp)⟩,
        fun p hp => h.originator p (hsub p hp), h.tables⟩
  | duplicate k =>
      cases hstep
      have hsub : ∀ p ∈ c.net.inFlight ++ c.net.inFlight[k]?.toList, p ∈ c.net.inFlight := by
        intro p hp
        rcases List.mem_append.mp hp with hp | hp
        · exact hp
        · exact List.mem_of_getElem? (Option.mem_toList.mp hp)
      exact ⟨⟨h.discovering.site, fun p hp => h.discovering.wired p (hsub p hp),
        fun p hp => h.discovering.kind p (hsub p hp)⟩,
        fun p hp => h.originator p (hsub p hp), h.tables⟩

/-- However messages are delivered, lost and duplicated, no router has a route to
itself as long as no router processes an LSP of its own. -/
theorem no_route_to_self (links : Links w) (maxTTL singleHop : UInt8)
    (sequenceNumber : UInt32 → UInt32) {es : List FaultyEvent}
    (run : Run faultyStep (fun c e => ¬ c.OwnLspReturns e)
      (start w links maxTTL singleHop sequenceNumber) es c) (u : UInt32) :
    u ∉ (c.net.node u).routeTable :=
  ((run.invariant (outward_start links maxTTL singleHop sequenceNumber)
    fun _ _ _ h => h.step).tables u).routeTable

end LinkedNet

end PennSearch

namespace PennSearch

open MessagePassing LinkedNet

attribute [local instance] CostQueue.ofList

def parallelCables : List ((UInt32 × LsSocket) × (UInt32 × LsSocket)) :=
  [((0, 0), (1, 0)), ((1, 0), (0, 0)), ((0, 1), (1, 1)), ((1, 1), (0, 1))]

def parallelMain (u : UInt32) : Ipv4Address := if u = 0 then .mk 1 else .mk 11

def parallelSockets (u : UInt32) : Std.ExtTreeMap LsSocket Ipv4Address :=
  if u = 0 then .ofList [((0 : ℕ), Ipv4Address.mk 1), (1, .mk 2)]
  else .ofList [((0 : ℕ), Ipv4Address.mk 11), (1, .mk 12)]

theorem mem_parallelCables {u : UInt32} {s : LsSocket} {q : UInt32 × LsSocket}
    (h : parallelCables.lookup (u, s) = some q) : ((u, s), q) ∈ parallelCables := by
  obtain ⟨l₁, l₂, hl, -⟩ := List.lookup_eq_some_iff.mp h
  rw [hl]
  simp

theorem forall_parallelNodes {P : UInt32 → Prop} (h0 : P 0) (h1 : P 1) :
    ∀ u ∈ ({0, 1} : Finset UInt32), P u := by
  intro u hu
  simp only [Finset.mem_insert, Finset.mem_singleton] at hu
  rcases hu with rfl | rfl
  · exact h0
  · exact h1

def parallel : Wiring where
  members := {0, 1}
  maps := sampleMaps
  mainAddress := parallelMain
  socketAddresses := parallelSockets
  peer u s := parallelCables.lookup (u, s)
  number := forall_parallelNodes (by decide +kernel) (by decide +kernel)
  main_mem := forall_parallelNodes ⟨0, by decide +kernel⟩ ⟨0, by decide +kernel⟩
  main_ne := forall_parallelNodes (by decide) (by decide)
  peer_symm h := by
    have hall : ∀ p ∈ parallelCables, parallelCables.lookup p.2 = some p.1 := by decide +kernel
    exact hall _ (mem_parallelCables h)
  peer_mem h := by
    have hall : ∀ p ∈ parallelCables, p.1.1 ∈ ({0, 1} : Finset UInt32) ∧
        p.1.2 ∈ parallelSockets p.1.1 ∧ p.2.1 ≠ p.1.1 := by decide +kernel
    exact hall _ (mem_parallelCables h)

def parallelStart : LinkedNet parallel :=
  .start parallel ⟨fun _ _ => true, fun _ => rfl⟩ 16 1 fun _ => 7

/-- Both nodes find each other on the first link, flood, and hear the LSP of the
other on it. -/
def parallelFlood : List FaultyEvent :=
  [.linked (.router (.ndRequests 0)), .linked (.router (.deliver 0)),
    .linked (.router (.deliver 1)), .linked (.router (.ndRequests 1)),
    .linked (.router (.deliver 1)), .linked (.router (.deliver 2)),
    .linked (.router (.ndRequests 0)), .linked (.router (.ndRequests 1)),
    .linked (.router (.deliver 6)), .linked (.router (.deliver 2))]

theorem parallelFlood_runs :
    ∃ c, execute faultyStep (fun c e => ¬ c.OwnLspReturns e) parallelStart parallelFlood = some c ∧
      ∃ c', execute faultyStep (fun _ _ => True) c [.linked (.router (.deliver 9))] = some c' ∧
        (0 : UInt32) ∈ (c'.net.node 0).routeTable := by
  decide +kernel

theorem no_route_to_self_parallel :
    ∃ c, Run faultyStep (fun c e => ¬ c.OwnLspReturns e) parallelStart parallelFlood c ∧
      (0 : UInt32) ∉ (c.net.node 0).routeTable := by
  obtain ⟨c, hc, -⟩ := parallelFlood_runs
  exact ⟨c, .of_execute hc, no_route_to_self _ 16 1 (fun _ => 7) (.of_execute hc) 0⟩

/-- Node 1 forwards the LSP of node 0 on the second link, and node 0 takes it: it
now has a route to itself. -/
theorem own_lsp_makes_own_route :
    ∃ c, Run faultyStep (fun _ _ => True) parallelStart
        (parallelFlood ++ [.linked (.router (.deliver 9))]) c ∧
      (0 : UInt32) ∈ (c.net.node 0).routeTable := by
  obtain ⟨c, hc, c', hc', hown⟩ := parallelFlood_runs
  have run : Run faultyStep (fun _ _ => True) parallelStart parallelFlood c :=
    (Run.of_execute hc).mono fun _ _ _ => trivial
  exact ⟨c', run.trans (.of_execute hc'), hown⟩

end PennSearch
