import PennSearch.Library.Flood
import PennSearch.LinkState.Lsps

/-!
# A network of link-state routers

The state is `MessagePassing.Net` over the routers; a packet carries the socket on
which it arrives. `Ears` says who hears what is sent on a socket, so that any
topology is covered, with parallel links and shared ones. A router learns each
pair of originator and sequence number once, and forwards it then, so every
flood ends (`flood_ends`).
-/

namespace PennSearch

open MessagePassing

abbrev LsNet (ι : Type) := Net ι LsNode (LsSocket × LSMessage)

abbrev LsPacket (ι : Type) := Packet ι (LsSocket × LSMessage)

/-- Who hears what a router sends on one of its sockets. -/
abbrev Ears (ι : Type) := ι → LsSocket → List (ι × LsSocket)

def transmit {ι : Type} (ears : Ears ι) (src : ι) (sent : List (LsSocket × LSMessage)) :
    List (LsPacket ι) :=
  sent.flatMap fun p => (ears src p.1).map fun q => ⟨src, q.1, (q.2, p.2)⟩

theorem mem_transmit {ι : Type} {ears : Ears ι} {src : ι} {sent : List (LsSocket × LSMessage)}
    {p : LsPacket ι} :
    p ∈ transmit ears src sent ↔
      p.src = src ∧ ∃ socket, (p.dst, p.msg.1) ∈ ears src socket ∧ (socket, p.msg.2) ∈ sent := by
  obtain ⟨psrc, pdst, psocket, pmsg⟩ := p
  simp only [transmit, List.mem_flatMap, List.mem_map, Packet.mk.injEq, Prod.mk.injEq]
  constructor
  · rintro ⟨⟨socket, m⟩, hm, ⟨dst, socket'⟩, hq, rfl, rfl, rfl, rfl⟩
    exact ⟨rfl, socket, hq, hm⟩
  · rintro ⟨rfl, socket, hq, hm⟩
    exact ⟨(socket, pmsg), hm, (pdst, psocket), hq, rfl, rfl, rfl, rfl⟩

inductive LsNetEvent (ι : Type)
  | ndRequests (node : ι)
  | deliver (position : ℕ)
deriving DecidableEq

variable [CostQueue] {ι : Type} [DecidableEq ι]

namespace LsNet

def step (ears : Ears ι) (c : LsNet ι) : LsNetEvent ι → Except LsFault (LsNet ι)
  | .ndRequests u => do
      let r ← (c.node u).ndRequests
      return c.act u r.1 (transmit ears u r.2)
  | .deliver k =>
      match c.inFlight[k]? with
      | none => .ok c
      | some p => do
          let r ← (c.node p.dst).recvLSMessage p.msg.1 p.msg.2
          return (c.take k).act p.dst r.1 (transmit ears p.dst r.2)

def Delivers (c : LsNet ι) (e : LsNetEvent ι) : Prop := ∃ k < c.inFlight.length, e = .deliver k

omit [CostQueue] [DecidableEq ι] in
theorem length_transmit_forwardPacket_le (ears : Ears ι) (u : ι) (n : LsNode) (m : LSMessage)
    (socket : LsSocket) :
    (transmit ears u (n.forwardPacket m socket)).length ≤
      (n.socketAddresses.keys.map fun socket => (ears u socket).length).sum := by
  have hmap : (transmit ears u (n.forwardPacket m socket)).length =
      ((n.socketAddresses.keys.filter (· ≠ socket)).map fun socket =>
        (ears u socket).length).sum := by
    simp [transmit, LsNode.forwardPacket, List.length_flatMap, Function.comp_def]
  rw [hmap]
  exact (List.filter_sublist.map _).sum_le_sum (by simp)

omit [CostQueue] [DecidableEq ι] in
theorem knowsLsp_insert {n : LsNode} {a b : Ipv4Address} {s t : UInt64} {routeMap : RouteMap}
    {routeTable : RouteTable} (hnew : n.knowsLsp a s = false) :
    ({ n with
        lspSequenceNumberTable := n.lspSequenceNumberTable.insert a s
        routeMap := routeMap
        routeTable := routeTable }).knowsLsp b t = true ↔
      (a = b ∧ t ≤ s) ∨ n.knowsLsp b t = true := by
  unfold LsNode.knowsLsp at hnew ⊢
  simp only [getElem?_insert_eq]
  by_cases hab : a = b
  · subst hab
    simp only [if_pos, decide_eq_true_iff, true_and]
    refine (or_iff_left_of_imp fun hknown => ?_).symm
    split at hknown
    · cases hknown
    · rename_i known hk
      rw [hk] at hnew
      have hlt := UInt64.not_le.mp (of_decide_eq_false hnew)
      exact UInt64.le_trans (of_decide_eq_true hknown) (UInt64.le_of_lt hlt)
  · simp [hab]

/-- From any state whose packets are LSPs, only so many deliveries can follow. -/
theorem flood_ends [Fintype ι] (ears : Ears ι) (c : LsNet ι)
    (hlsp : ∀ p ∈ c.inFlight, p.msg.2.lspRecord ≠ none) :
    ∃ bound, ∀ es c', Run (step ears) Delivers c es c' → es.length ≤ bound := by
  let pairs : Finset (Ipv4Address × UInt64) :=
    ((c.inFlight.filterMap fun p => p.msg.2.lspRecord).map fun r =>
      (r.originatorAddress, r.sequenceNumber)).toFinset
  let width := ∑ u, ((c.node u).socketAddresses.keys.map fun socket => (ears u socket).length).sum
  let knows := fun (n : LsNode) (x : Ipv4Address × UInt64) => n.knowsLsp x.1 x.2
  let J := fun c' : LsNet ι => (∀ u, (c'.node u).socketAddresses = (c.node u).socketAddresses) ∧
    ∀ p ∈ c'.inFlight, ∃ r, p.msg.2.lspRecord = some r ∧
      (r.originatorAddress, r.sequenceNumber) ∈ pairs
  have hinit : J c := by
    refine ⟨fun _ => rfl, fun p hp => ?_⟩
    obtain ⟨r, hr⟩ := Option.ne_none_iff_exists'.mp (hlsp p hp)
    refine ⟨r, hr, ?_⟩
    simp only [pairs, List.mem_toFinset, List.mem_map, List.mem_filterMap]
    exact ⟨r, ⟨p, hp, hr⟩, rfl⟩
  refine ⟨potential knows pairs width c, fun es c' run => ?_⟩
  refine (Nat.le_add_right _ _).trans
    (run.length_le (J := J) (potential knows pairs width) hinit ?_)
  rintro t e u ⟨hsockets, hflight⟩ ⟨k, hk, rfl⟩ hstep
  have hp : t.inFlight[k]? = some t.inFlight[k] := List.getElem?_eq_getElem hk
  obtain ⟨r, hr, hpair⟩ := hflight _ (List.mem_of_getElem? hp)
  generalize t.inFlight[k] = p at hp hr
  simp only [step, hp, bind_eq_ok] at hstep
  obtain ⟨⟨n', sent⟩, hrecv, hstep⟩ := hstep
  obtain rfl := Except.ok.inj hstep
  have hrest : ∀ q ∈ t.inFlight.eraseIdx k, ∃ r, q.msg.2.lspRecord = some r ∧
      (r.originatorAddress, r.sequenceNumber) ∈ pairs :=
    fun q hq => hflight q (List.mem_of_mem_eraseIdx hq)
  cases hknows : (t.node p.dst).knowsLsp r.originatorAddress r.sequenceNumber with
  | true =>
      rw [LsNode.recv_lsp_of_knows hr hknows] at hrecv
      cases hrecv
      have hsame : (t.take k).act p.dst (t.node p.dst) (transmit ears p.dst []) = t.take k :=
        Net.act_self (t.take k) p.dst
      rw [hsame]
      exact ⟨⟨hsockets, hrest⟩, potential_take_lt hk⟩
  | false =>
      obtain ⟨sourceNode, details, table, -, -, -, rfl, rfl⟩ :=
        (LsNode.recv_lsp_of_not_knows hr hknows).mp hrecv
      refine ⟨⟨fun u => ?_, fun q hq => ?_⟩, potential_act_lt hk hpair hknows ?_ ?_ ?_⟩
      · rw [Net.act_node]
        split
        · rename_i hu
          rw [hu]
          exact hsockets p.dst
        · exact hsockets u
      · rcases List.mem_append.mp hq with hq | hq
        · exact hrest q hq
        · obtain ⟨-, socket, -, hsent⟩ := mem_transmit.mp hq
          obtain ⟨socket', -, heq⟩ := List.mem_map.mp hsent
          have hmsg : q.msg.2 = p.msg.2.forwarded := (congrArg Prod.snd heq).symm
          exact ⟨r, by rw [hmsg, LSMessage.lspRecord_forwarded, hr], hpair⟩
      · exact (knowsLsp_insert hknows).mpr (Or.inl ⟨rfl, UInt64.le_refl _⟩)
      · exact fun y hy => (knowsLsp_insert hknows).mpr (Or.inr hy)
      · refine (length_transmit_forwardPacket_le ears p.dst _ _ _).trans ?_
        change ((t.node p.dst).socketAddresses.keys.map _).sum ≤ width
        rw [hsockets p.dst]
        exact Finset.single_le_sum (f := fun u =>
          ((c.node u).socketAddresses.keys.map fun socket => (ears u socket).length).sum)
          (fun _ _ => Nat.zero_le _) (Finset.mem_univ p.dst)

end LsNet

/-! ## Order independence -/

/-- The tables of a router after any messages and timers depend only on the set of
LSPs among them: they hold, for each originator, the record with the highest
sequence number. No pair is forwarded twice, no entry gives way to an older one,
no LSP of the set makes the router fail, and a flood of LSPs through any finite
network of routers comes to an end. -/
theorem lsp_order_independent (maps : AddressMaps) (mainAddress : Ipv4Address)
    (socketAddresses : Std.ExtTreeMap LsSocket Ipv4Address) (maxTTL singleHop : UInt8)
    (sequenceNumber : UInt32) {M : Finset LspRecord} (hM : LspsKnown maps M) :
    (∀ es n, Run LsNode.step (ReceivesFrom M)
        (.start maps mainAddress socketAddresses maxTTL singleHop sequenceNumber) es n →
      (received es = M →
        (∀ (a : Ipv4Address) (s : UInt64), n.lspSequenceNumberTable[a]? = some s ↔
          ∃ r, NewestLsp M r ∧ r.originatorAddress = a ∧ r.sequenceNumber = s) ∧
        ∀ (k : UInt32) (details : RouteMapDetails), n.routeMap[k]? = some details ↔
          ∃ r, NewestLsp M r ∧ maps.addressNodeMap[r.originatorAddress]? = some k ∧
            maps.routeMapDetails r.originatorAddress r.neighborAddrlist = .ok details) ∧
      (∀ es' n', Run LsNode.step (ReceivesFrom M)
          (.start maps mainAddress socketAddresses maxTTL singleHop sequenceNumber) es' n' →
        received es' = received es →
          n'.lspSequenceNumberTable = n.lspSequenceNumberTable ∧ n'.routeMap = n.routeMap) ∧
      (forwarded (.start maps mainAddress socketAddresses maxTTL singleHop sequenceNumber)
        es).Nodup ∧
      (∀ e n', ReceivesFrom M n e → n.step e = .ok n' →
        (∀ (a : Ipv4Address) (s : UInt64), n.lspSequenceNumberTable[a]? = some s →
          ∃ s', n'.lspSequenceNumberTable[a]? = some s' ∧ s ≤ s') ∧
        ∀ k : UInt32, n'.routeMap[k]? = n.routeMap[k]? ∨ ∃ r, e.lspRecord = some r ∧
          maps.addressNodeMap[r.originatorAddress]? = some k ∧
          ∀ s, n.lspSequenceNumberTable[r.originatorAddress]? = some s → s < r.sequenceNumber) ∧
      ∀ socket m r, m.lspRecord = some r → r ∈ M → ∃ n', n.step (.recv socket m) = .ok n') ∧
    ∀ (ι : Type) [Fintype ι] [DecidableEq ι] (ears : Ears ι) (c : LsNet ι),
      (∀ p ∈ c.inFlight, p.msg.2.lspRecord ≠ none) →
        ∃ bound, ∀ es c', Run (LsNet.step ears) LsNet.Delivers c es c' → es.length ≤ bound := by
  refine ⟨fun es n run => ?_, fun ι _ _ ears c hlsp => LsNet.flood_ends ears c hlsp⟩
  have hstart := learned_start maps mainAddress socketAddresses maxTTL singleHop sequenceNumber
  obtain ⟨hsub, hlearned, hnodup, -⟩ := learned_of_run hstart hM run
  refine ⟨fun hall => ?_, fun es' n' run' hsame => ?_, hnodup, fun e n' he hstep => ?_,
    fun socket m r hm hr => ?_⟩
  · rw [hall] at hlearned
    exact ⟨hlearned.seq, hlearned.map⟩
  · obtain ⟨-, hlearned', -, -⟩ := learned_of_run hstart hM run'
    rw [hsame] at hlearned'
    exact hlearned'.tables_eq hlearned
  · exact hlearned.step_monotone hM hsub he hstep
  · obtain ⟨n', sent, hok, -⟩ := hlearned.recv_lsp hM hsub hr hm socket
    exact ⟨n', LsNode.step_eq_ok.mpr ⟨sent, hok⟩⟩

end PennSearch

namespace PennSearch

open MessagePassing

attribute [local instance] CostQueue.ofList

def sampleLsps : Finset LspRecord := {⟨⟨11⟩, 0, []⟩, ⟨⟨11⟩, 1, [⟨1⟩]⟩}

/-- The newer one arrives first, and again after the older one. -/
def sampleDelivery : List LsEvent :=
  [.recv 0 ⟨9, 16, ⟨11⟩, .lsp ⟨1, [⟨1⟩], .unset, lspText⟩⟩,
    .recv 0 ⟨8, 16, ⟨11⟩, .lsp ⟨0, [], .unset, lspText⟩⟩,
    .recv 1 ⟨9, 16, ⟨11⟩, .lsp ⟨1, [⟨1⟩], .unset, lspText⟩⟩]

theorem sampleLsps_known : LspsKnown sampleMaps sampleLsps where
  originator r hr := by
    have hall : ∀ r ∈ sampleLsps, r.originatorAddress ∈ sampleMaps.addressNodeMap := by
      decide +kernel
    exact hall r hr
  neighbors r hr := by
    have hall : ∀ r ∈ sampleLsps, ∀ a ∈ r.neighborAddrlist, a ∈ sampleMaps.addressNodeMap := by
      decide +kernel
    exact hall r hr
  number_inj r hr r' hr' _ := by
    have hall : ∀ r ∈ sampleLsps, ∀ r' ∈ sampleLsps,
        r.originatorAddress = r'.originatorAddress := by decide
    exact hall r hr r' hr'
  list_eq r hr r' hr' := by
    have hall : ∀ r ∈ sampleLsps, ∀ r' ∈ sampleLsps, r.originatorAddress = r'.originatorAddress →
        r.sequenceNumber = r'.sequenceNumber → r.neighborAddrlist = r'.neighborAddrlist := by decide
    exact hall r hr r' hr'

theorem lsp_order_independent_sample :
    ∃ n, Run LsNode.step (ReceivesFrom sampleLsps) sampleRouter sampleDelivery n ∧
      (forwarded sampleRouter sampleDelivery).Nodup := by
  have hrun : ∃ n, execute LsNode.step (fun _ e => ∀ r ∈ e.lspRecord, r ∈ sampleLsps)
      sampleRouter sampleDelivery = some n := by
    refine Option.isSome_iff_exists.mp ?_
    decide +kernel
  obtain ⟨n, hn⟩ := hrun
  have run : Run LsNode.step (ReceivesFrom sampleLsps) sampleRouter sampleDelivery n :=
    (Run.of_execute hn).mono fun _ _ h => h
  exact ⟨n, run, ((lsp_order_independent sampleMaps _ _ _ _ _ sampleLsps_known).1 _ _ run).2.2.1⟩

end PennSearch
