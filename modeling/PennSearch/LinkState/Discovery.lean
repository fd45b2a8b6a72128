import PennSearch.LinkState.Links

/-!
# Neighbour discovery over links

After the links have stopped changing, a router whose ND_REQs and the answers to
them are no longer in flight when its timer expires has found exactly its
neighbours in the link graph (`probing_of_run`): every neighbour has answered, is
about to answer, or has not received the request yet (`Probing`).
-/

namespace PennSearch

open MessagePassing

def LSMessage.IsNdReq (m : LSMessage) : Prop := ∃ ping, m.payload = .ndReq ping

def LSMessage.IsNdRspFor (m : LSMessage) (a : Ipv4Address) : Prop :=
  ∃ ping, m.payload = .ndRsp ping ∧ ping.destinationAddress = a

theorem LSMessage.lspRecord_of_isNdReq {m : LSMessage} (h : m.IsNdReq) : m.lspRecord = none := by
  obtain ⟨ping, h⟩ := h
  rw [lspRecord, h]

theorem LSMessage.lspRecord_of_isNdRspFor {m : LSMessage} {a : Ipv4Address} (h : m.IsNdRspFor a) :
    m.lspRecord = none := by
  obtain ⟨ping, h, -⟩ := h
  rw [lspRecord, h]

namespace LsNode

variable {n n' : LsNode} {m : LSMessage} {s : LsSocket} {sent : List (LsSocket × LSMessage)}
  {r : LspRecord}

theorem mem_broadcastPacket {message : LSMessage} :
    (s, m) ∈ n.broadcastPacket message ↔ s ∈ n.socketAddresses ∧ m = message := by
  simp only [broadcastPacket, List.mem_map, Std.ExtTreeMap.mem_keys, Prod.mk.injEq]
  constructor
  · rintro ⟨s', hs, rfl, rfl⟩
    exact ⟨hs, rfl⟩
  · rintro ⟨hs, rfl⟩
    exact ⟨s, hs, rfl, rfl⟩

theorem mem_forwardPacket {message : LSMessage} {socket : LsSocket} :
    (s, m) ∈ n.forwardPacket message socket ↔
      s ∈ n.socketAddresses ∧ s ≠ socket ∧ m = message := by
  simp only [forwardPacket, List.mem_map, List.mem_filter, Std.ExtTreeMap.mem_keys,
    decide_eq_true_iff, Prod.mk.injEq]
  constructor
  · rintro ⟨s', ⟨hs, hne⟩, rfl, rfl⟩
    exact ⟨hs, hne, rfl⟩
  · rintro ⟨hs, hne, rfl⟩
    exact ⟨s, ⟨hs, hne⟩, rfl, rfl⟩

/-- What a router has from its configuration. -/
structure SameSite (n n' : LsNode) : Prop where
  maps : n'.maps = n.maps
  mainAddress : n'.mainAddress = n.mainAddress
  socketAddresses : n'.socketAddresses = n.socketAddresses

theorem SameSite.refl (n : LsNode) : SameSite n n := ⟨rfl, rfl, rfl⟩

/-- The record that `Flooding` sends after the neighbours found have replaced the old ones. -/
def floodRecord (n : LsNode) : LspRecord :=
  ⟨n.mainAddress, n.lspSequenceNumber,
    n.currentneighborTable.toList.map fun entry => entry.2.neighborAddr⟩

/-- `NdRequests`: the neighbours found replace the old ones, an LSP is sent if they
differ, and an ND_REQ in any case. -/
theorem ndRequests_spec [CostQueue] (h : n.ndRequests = .ok (n', sent)) :
    n.SameSite n' ∧ n'.neighborTable = n.currentneighborTable ∧ n'.currentneighborTable = ∅ ∧
      n'.lspSequenceNumberTable = n.lspSequenceNumberTable ∧ n'.routeMap = n.routeMap ∧
      ∃ request, request.IsNdReq ∧ request.originatorAddress = n.mainAddress ∧
        ((floodingFlag n.neighborTable n.currentneighborTable = false ∧
            n'.lspSequenceNumber = n.lspSequenceNumber ∧ sent = n.broadcastPacket request) ∨
          (floodingFlag n.neighborTable n.currentneighborTable = true ∧
            n'.lspSequenceNumber = n.lspSequenceNumber + 1 ∧
            ∃ flood : LSMessage, flood.lspRecord = some n.floodRecord ∧
              sent = n.broadcastPacket flood ++ n.broadcastPacket request)) := by
  cases hflag : floodingFlag n.neighborTable n.currentneighborTable with
  | false =>
      rw [ndRequests_of_not_flag hflag] at h
      cases h
      exact ⟨⟨rfl, rfl, rfl⟩, rfl, rfl, rfl, rfl, _, ⟨_, rfl⟩, rfl, Or.inl ⟨rfl, rfl, rfl⟩⟩
  | true =>
      obtain ⟨table, -, rfl, rfl⟩ := (ndRequests_of_flag hflag).mp h
      exact ⟨⟨rfl, rfl, rfl⟩, rfl, rfl, rfl, rfl, _, ⟨_, rfl⟩, rfl, Or.inr ⟨rfl, rfl, _, rfl, rfl⟩⟩

theorem recv_ndReq [CostQueue] (hm : m.IsNdReq) (h : n.recvLSMessage s m = .ok (n', sent)) :
    n' = n ∧ ∃ answer, answer.IsNdRspFor m.originatorAddress ∧
      answer.originatorAddress = n.mainAddress ∧ sent = [(s, answer)] := by
  obtain ⟨ping, hping⟩ := hm
  rw [recvLSMessage, hping] at h
  obtain ⟨a, -, h⟩ := bind_eq_ok.mp h
  cases h
  exact ⟨rfl, _, ⟨_, rfl, rfl⟩, rfl, rfl⟩

theorem recv_ndRsp [CostQueue] {a : Ipv4Address} {k : UInt32} (hm : m.IsNdRspFor a)
    (hown : n.isOwnAddress a = true) (hk : n.maps.addressNodeMap[m.originatorAddress]? = some k)
    (h : n.recvLSMessage s m = .ok (n', sent)) :
    sent = [] ∧ ∃ interfaceAddr, n' = { n with
      currentneighborTable :=
        n.currentneighborTable.insert k ⟨m.originatorAddress, interfaceAddr⟩ } := by
  obtain ⟨ping, hping, rfl⟩ := hm
  rw [recvLSMessage, hping] at h
  change n.processNdRsp m ping s = _ at h
  rw [processNdRsp, if_pos hown] at h
  obtain ⟨interfaceAddr, -, h⟩ := bind_eq_ok.mp h
  obtain ⟨k', hk', h⟩ := bind_eq_ok.mp h
  obtain rfl := Option.some.inj (hk.symm.trans (findIn_eq_ok.mp hk'))
  cases h
  exact ⟨rfl, interfaceAddr, rfl⟩

theorem recv_lsp [CostQueue] (hm : m.lspRecord = some r)
    (h : n.recvLSMessage s m = .ok (n', sent)) :
    n.SameSite n' ∧ n'.neighborTable = n.neighborTable ∧
      n'.currentneighborTable = n.currentneighborTable ∧
      n'.lspSequenceNumber = n.lspSequenceNumber ∧
      ∀ p ∈ sent, p.2.lspRecord = some r := by
  cases hknows : n.knowsLsp r.originatorAddress r.sequenceNumber with
  | true =>
      rw [recv_lsp_of_knows hm hknows] at h
      cases h
      exact ⟨.refl n, rfl, rfl, rfl, by simp⟩
  | false =>
      obtain ⟨k, details, table, -, -, -, rfl, rfl⟩ := (recv_lsp_of_not_knows hm hknows).mp h
      refine ⟨⟨rfl, rfl, rfl⟩, rfl, rfl, rfl, ?_⟩
      rintro ⟨s', m'⟩ hp
      obtain ⟨-, -, rfl⟩ := mem_forwardPacket.mp hp
      rw [LSMessage.lspRecord_forwarded, hm]

theorem isOwnAddress_of_mem {a : Ipv4Address} (h : n.socketAddresses[s]? = some a) :
    n.isOwnAddress a = true := by
  rw [isOwnAddress, List.any_eq_true]
  exact ⟨(s, a), Std.ExtTreeMap.mem_toList_iff_getElem?_eq_some.mpr h, by simp⟩

end LsNode

/-! ## What is in flight -/

namespace LinkedNet

variable {w : Wiring} {c c' : LinkedNet w} {e : LinkedEvent} {u v : UInt32} {n : LsNode}
  {sent : List (LsSocket × LSMessage)} {p : LsPacket UInt32}

theorem mem_transmit_ears :
    p ∈ transmit c.links.ears u sent ↔ p.src = u ∧ ∃ s, w.peer u s = some (p.dst, p.msg.1) ∧
      c.links.up u s = true ∧ (s, p.msg.2) ∈ sent := by
  simp only [mem_transmit, Links.mem_ears, and_assoc]

/-- A packet is an LSP, a request of its sender, or an answer of its sender to its
receiver. -/
def HasKind (w : Wiring) (p : LsPacket UInt32) : Prop :=
  (p.msg.2.IsNdReq ∧ p.msg.2.originatorAddress = w.mainAddress p.src) ∨
    (p.msg.2.IsNdRspFor (w.mainAddress p.dst) ∧
      p.msg.2.originatorAddress = w.mainAddress p.src) ∨
    ∃ r, p.msg.2.lspRecord = some r

/-- Every router has its configuration, and every packet a kind and a link on which
it was sent. -/
structure Discovering (c : LinkedNet w) : Prop where
  site : ∀ u, (c.net.node u).maps = w.maps ∧ (c.net.node u).mainAddress = w.mainAddress u ∧
    (c.net.node u).socketAddresses = w.socketAddresses u
  wired : ∀ p ∈ c.net.inFlight, ∃ t, w.peer p.dst p.msg.1 = some (p.src, t)
  kind : ∀ p ∈ c.net.inFlight, HasKind w p

theorem discovering_start (links : Links w) (maxTTL singleHop : UInt8)
    (sequenceNumber : UInt32 → UInt32) :
    (start w links maxTTL singleHop sequenceNumber).Discovering where
  site _ := ⟨rfl, rfl, rfl⟩
  wired p hp := by cases hp
  kind p hp := by cases hp

/-- A router that keeps its configuration acts, and sends packets that have a kind. -/
theorem Discovering.act (h : c.Discovering) (net : LsNet UInt32)
    (hsite : (c.net.node u).SameSite n) (hnode : net.node = c.net.node)
    (hflight : ∀ p ∈ net.inFlight, p ∈ c.net.inFlight)
    (hkind : ∀ p ∈ transmit c.links.ears u sent, HasKind w p) :
    ({ c with net := net.act u n (transmit c.links.ears u sent) } : LinkedNet w).Discovering where
  site v := by
    change ((net.act u n _).node v).maps = _ ∧ ((net.act u n _).node v).mainAddress = _ ∧
      ((net.act u n _).node v).socketAddresses = _
    rw [Net.act_node, hnode]
    split
    · rename_i hv
      obtain ⟨hmaps, hmain, hsockets⟩ := h.site u
      exact hv ▸ ⟨hsite.maps.trans hmaps, hsite.mainAddress.trans hmain,
        hsite.socketAddresses.trans hsockets⟩
    · exact h.site v
  wired p hp := by
    rcases List.mem_append.mp hp with hp | hp
    · exact h.wired p (hflight p hp)
    · obtain ⟨rfl, s, hpeer, -⟩ := mem_transmit_ears.mp hp
      exact ⟨s, w.peer_symm hpeer⟩
  kind p hp := by
    rcases List.mem_append.mp hp with hp | hp
    · exact h.kind p (hflight p hp)
    · exact hkind p hp

variable [CostQueue]

theorem Discovering.recv (h : c.Discovering) (hp : p ∈ c.net.inFlight)
    (hrecv : (c.net.node p.dst).recvLSMessage p.msg.1 p.msg.2 = .ok (n, sent)) :
    (p.msg.2.IsNdReq ∧ n = c.net.node p.dst ∧
        ∃ answer, answer.IsNdRspFor (w.mainAddress p.src) ∧
          answer.originatorAddress = w.mainAddress p.dst ∧ sent = [(p.msg.1, answer)]) ∨
      (p.msg.2.IsNdRspFor (w.mainAddress p.dst) ∧ sent = [] ∧ ∃ interfaceAddr,
        n = { c.net.node p.dst with
          currentneighborTable := (c.net.node p.dst).currentneighborTable.insert p.src
            ⟨w.mainAddress p.src, interfaceAddr⟩ }) ∨
      ∃ r, p.msg.2.lspRecord = some r ∧ (c.net.node p.dst).SameSite n ∧
        n.neighborTable = (c.net.node p.dst).neighborTable ∧
        n.currentneighborTable = (c.net.node p.dst).currentneighborTable ∧
        n.lspSequenceNumber = (c.net.node p.dst).lspSequenceNumber ∧
        ∀ q ∈ sent, q.2.lspRecord = some r := by
  obtain ⟨t, hpeer⟩ := h.wired p hp
  obtain ⟨hmaps, hmain, hsockets⟩ := h.site p.dst
  rcases h.kind p hp with ⟨hreq, horig⟩ | ⟨hrsp, horig⟩ | ⟨r, hr⟩
  · obtain ⟨rfl, answer, hanswer, hsender, rfl⟩ := LsNode.recv_ndReq hreq hrecv
    exact Or.inl ⟨hreq, rfl, answer, horig ▸ hanswer, hsender.trans hmain, rfl⟩
  · refine Or.inr (Or.inl ⟨hrsp, ?_⟩)
    have hsrc := (w.peer_mem_right hpeer).1
    obtain ⟨s, hs⟩ := w.main_mem p.dst (w.peer_mem hpeer).1
    have hown := LsNode.isOwnAddress_of_mem (hsockets ▸ hs)
    have hnumber : (c.net.node p.dst).maps.addressNodeMap[p.msg.2.originatorAddress]? =
        some p.src := by rw [hmaps, horig, w.number p.src hsrc]
    obtain ⟨rfl, interfaceAddr, hn⟩ := LsNode.recv_ndRsp hrsp hown hnumber hrecv
    exact ⟨rfl, interfaceAddr, horig ▸ hn⟩
  · exact Or.inr (Or.inr ⟨r, hr, LsNode.recv_lsp hr hrecv⟩)

/-- Every step keeps what is known of the packets, whether timers are bounded or not. -/
theorem Discovering.step_of_ok (h : c.Discovering) (hstep : c.step e = .ok c') :
    c'.Discovering := by
  rcases step_ok_cases hstep with ⟨u, s, b, rfl, rfl⟩ | ⟨u, n, sent, rfl, hturn, rfl⟩ |
    ⟨k, p, n, sent, rfl, hp, hrecv, rfl⟩ | ⟨k, -, -, rfl⟩
  · exact ⟨h.site, h.wired, h.kind⟩
  · obtain ⟨hsite, -, -, -, -, request, hreq, horig, hsent⟩ := LsNode.ndRequests_spec hturn
    refine h.act c.net hsite rfl (fun _ => id) fun p hp => ?_
    obtain ⟨rfl, s, -, -, hp⟩ := mem_transmit_ears.mp hp
    have hrequest : p.msg.2 = request → HasKind w p := by
      intro heq
      exact Or.inl (heq ▸ ⟨hreq, horig.trans (h.site p.src).2.1⟩)
    rcases hsent with ⟨-, -, rfl⟩ | ⟨-, -, flood, hflood, rfl⟩
    · exact hrequest (LsNode.mem_broadcastPacket.mp hp).2
    · rcases List.mem_append.mp hp with hp | hp
      · exact Or.inr (Or.inr ⟨_, (LsNode.mem_broadcastPacket.mp hp).2 ▸ hflood⟩)
      · exact hrequest (LsNode.mem_broadcastPacket.mp hp).2
  · have hmem := List.mem_of_getElem? hp
    have hflight : ∀ q ∈ (c.net.take k).inFlight, q ∈ c.net.inFlight :=
      fun q hq => List.mem_of_mem_eraseIdx hq
    obtain ⟨t, hpeer⟩ := h.wired p hmem
    rcases h.recv hmem hrecv with ⟨-, rfl, answer, hanswer, hsender, rfl⟩ |
      ⟨-, rfl, interfaceAddr, rfl⟩ | ⟨r, -, hsite, -, -, -, hsent⟩
    · refine h.act (c.net.take k) (.refl _) rfl hflight fun q hq => ?_
      obtain ⟨hsrc, s, hs, -, hq⟩ := mem_transmit_ears.mp hq
      obtain ⟨rfl, hmsg⟩ := Prod.mk.inj (List.mem_singleton.mp hq)
      obtain ⟨hdst, -⟩ := Prod.mk.inj (Option.some.inj (hpeer.symm.trans hs))
      exact Or.inr (Or.inl (hmsg ▸ hsrc ▸ hdst ▸ ⟨hanswer, hsender⟩))
    · exact h.act (c.net.take k) ⟨rfl, rfl, rfl⟩ rfl hflight fun q hq => by cases hq
    · refine h.act (c.net.take k) hsite rfl hflight fun q hq => ?_
      obtain ⟨-, s, -, -, hq⟩ := mem_transmit_ears.mp hq
      exact Or.inr (Or.inr ⟨r, hsent (s, q.msg.2) hq⟩)
  · exact h

theorem Discovering.step (h : c.Discovering) (_ : c.Allowed e) (hstep : c.step e = .ok c') :
    c'.Discovering :=
  h.step_of_ok hstep

theorem Discovering.neighborTable_recv (h : c.Discovering) {k : ℕ}
    (hp : c.net.inFlight[k]? = some p)
    (hrecv : (c.net.node p.dst).recvLSMessage p.msg.1 p.msg.2 = .ok (n, sent)) (u : UInt32) :
    (((c.net.take k).act p.dst n (transmit c.links.ears p.dst sent)).node u).neighborTable =
      (c.net.node u).neighborTable := by
  have hsame : n.neighborTable = (c.net.node p.dst).neighborTable := by
    rcases h.recv (List.mem_of_getElem? hp) hrecv with ⟨-, rfl, -⟩ | ⟨-, -, -, rfl⟩ |
      ⟨r, -, -, hnt, -⟩
    · rfl
    · rfl
    · exact hnt
  exact Net.act_node_congr (c := c.net.take k) (f := LsNode.neighborTable) hsame _ u

/-! ## A round of discovery -/

def Exchanges (u : UInt32) (p : LsPacket UInt32) : Prop :=
  (p.src = u ∧ p.msg.2.IsNdReq) ∨ (p.dst = u ∧ ∃ a, p.msg.2.IsNdRspFor a)

def ExchangeDone (c : LinkedNet w) (u : UInt32) : Prop :=
  ∀ p ∈ c.net.inFlight, ¬ Exchanges u p

/-- Every neighbour of `u` in the link graph has answered, or a request to it or its
answer is on the way; nothing else is. -/
structure Probing (c : LinkedNet w) (u : UInt32) : Prop where
  current : ∀ v ∈ (c.net.node u).currentneighborTable, c.links.graph.Adj u v
  up : ∀ p ∈ c.net.inFlight, Exchanges u p → c.links.up p.dst p.msg.1 = true
  answered : ∀ v, c.links.graph.Adj u v → v ∈ (c.net.node u).currentneighborTable ∨
    ∃ p ∈ c.net.inFlight, (p.src = u ∧ p.dst = v ∧ p.msg.2.IsNdReq) ∨
      (p.src = v ∧ p.dst = u ∧ p.msg.2.IsNdRspFor (w.mainAddress u))

omit [CostQueue] in
theorem not_exchanges_of_lsp {r : LspRecord} (hr : p.msg.2.lspRecord = some r) :
    ¬ Exchanges u p := by
  rintro (⟨-, hreq⟩ | ⟨-, a, hrsp⟩)
  · rw [LSMessage.lspRecord_of_isNdReq hreq] at hr
    cases hr
  · rw [LSMessage.lspRecord_of_isNdRspFor hrsp] at hr
    cases hr

omit [CostQueue] in
theorem not_isNdRspFor_of_isNdReq {m : LSMessage} {a : Ipv4Address} (h : m.IsNdReq) :
    ¬ m.IsNdRspFor a := by
  rintro ⟨ping', h', -⟩
  obtain ⟨ping, h⟩ := h
  rw [h] at h'
  cases h'

omit [CostQueue] in
/-- When all answers are in, the neighbours found are those of the link graph. -/
theorem Probing.mem_iff (h : c.Probing u) (hdone : c.ExchangeDone u) (v : UInt32) :
    v ∈ (c.net.node u).currentneighborTable ↔ c.links.graph.Adj u v := by
  refine ⟨h.current v, fun hv => ?_⟩
  rcases h.answered v hv with hmem | ⟨p, hp, ⟨hsrc, -, hreq⟩ | ⟨-, hdst, hrsp⟩⟩
  · exact hmem
  · exact absurd (Or.inl ⟨hsrc, hreq⟩) (hdone p hp)
  · exact absurd (Or.inr ⟨hdst, _, hrsp⟩) (hdone p hp)

omit [CostQueue] in
theorem Discovering.adj (h : c.Discovering) (hp : p ∈ c.net.inFlight)
    (hup : c.links.up p.dst p.msg.1 = true) : c.links.graph.Adj p.dst p.src := by
  obtain ⟨t, hpeer⟩ := h.wired p hp
  exact ⟨p.msg.1, t, hpeer, hup⟩

theorem Discovering.probing (h : c.Discovering) (hdone : c.ExchangeDone u)
    (hturn : (c.net.node u).ndRequests = .ok (n, sent)) :
    ({ c with net := c.net.act u n (transmit c.links.ears u sent) } : LinkedNet w).Probing u := by
  obtain ⟨-, -, hcurrent, -, -, request, hreq, -, hsent⟩ := LsNode.ndRequests_spec hturn
  have hmem : ∀ s ∈ (c.net.node u).socketAddresses, (s, request) ∈ sent := by
    intro s hs
    rcases hsent with ⟨-, -, rfl⟩ | ⟨-, -, flood, -, rfl⟩
    · exact LsNode.mem_broadcastPacket.mpr ⟨hs, rfl⟩
    · exact List.mem_append_right _ (LsNode.mem_broadcastPacket.mpr ⟨hs, rfl⟩)
  have hnode : ((c.net.act u n (transmit c.links.ears u sent)).node u).currentneighborTable =
      ∅ := by
    rw [Net.act_node_self, hcurrent]
  refine ⟨fun v hv => ?_, fun p hp hex => ?_, fun v hv => Or.inr ?_⟩
  · rw [hnode] at hv
    exact absurd hv Std.ExtTreeMap.not_mem_empty
  · rcases List.mem_append.mp hp with hp | hp
    · exact absurd hex (hdone p hp)
    · obtain ⟨-, s, hpeer, hup, -⟩ := mem_transmit_ears.mp hp
      exact c.links.symm hpeer ▸ hup
  · obtain ⟨s, t, hpeer, hup⟩ := hv
    have hs : s ∈ (c.net.node u).socketAddresses := by
      rw [(h.site u).2.2]
      exact (w.peer_mem hpeer).2.1
    refine ⟨⟨u, v, (t, request)⟩, List.mem_append_right _ ?_, Or.inl ⟨rfl, rfl, hreq⟩⟩
    exact mem_transmit_ears.mpr ⟨rfl, s, hpeer, hup, hmem s hs⟩

theorem Probing.ndRequests (h : c.Probing u) (hne : v ≠ u)
    (hturn : (c.net.node v).ndRequests = .ok (n, sent)) :
    ({ c with net := c.net.act v n (transmit c.links.ears v sent) } : LinkedNet w).Probing u := by
  obtain ⟨-, -, -, -, -, request, hreq, -, hsent⟩ := LsNode.ndRequests_spec hturn
  have hnode : (c.net.act v n (transmit c.links.ears v sent)).node u = c.net.node u :=
    Net.act_node_of_ne _ _ _ hne.symm
  have hother : ∀ p ∈ transmit c.links.ears v sent, ¬ Exchanges u p := by
    intro p hp
    obtain ⟨hsrc, s, -, -, hp⟩ := mem_transmit_ears.mp hp
    have hrequest : p.msg.2 = request → ¬ Exchanges u p := by
      rintro heq (⟨hu, -⟩ | ⟨-, a, hrsp⟩)
      · exact hne (hsrc.symm.trans hu)
      · exact not_isNdRspFor_of_isNdReq hreq (heq ▸ hrsp)
    rcases hsent with ⟨-, -, rfl⟩ | ⟨-, -, flood, hflood, rfl⟩
    · exact hrequest (LsNode.mem_broadcastPacket.mp hp).2
    · rcases List.mem_append.mp hp with hp | hp
      · exact not_exchanges_of_lsp ((LsNode.mem_broadcastPacket.mp hp).2 ▸ hflood)
      · exact hrequest (LsNode.mem_broadcastPacket.mp hp).2
  refine ⟨fun x hx => h.current x (hnode ▸ hx), fun p hp hex => ?_, fun x hx => ?_⟩
  · rcases List.mem_append.mp hp with hp | hp
    · exact h.up p hp hex
    · exact absurd hex (hother p hp)
  · rcases h.answered x hx with hmem | ⟨p, hp, hkind⟩
    · refine Or.inl ?_
      change x ∈ ((c.net.act v n _).node u).currentneighborTable
      rw [hnode]
      exact hmem
    · exact Or.inr ⟨p, List.mem_append_left _ hp, hkind⟩

/-- A delivery moves the round on. -/
theorem Probing.deliver (h : c.Probing u) (hd : c.Discovering) {k : ℕ}
    (hp : c.net.inFlight[k]? = some p)
    (hrecv : (c.net.node p.dst).recvLSMessage p.msg.1 p.msg.2 = .ok (n, sent)) :
    ({ c with net := (c.net.take k).act p.dst n (transmit c.links.ears p.dst sent) } :
      LinkedNet w).Probing u := by
  have hmem := List.mem_of_getElem? hp
  obtain ⟨t, hpeer⟩ := hd.wired p hmem
  have hrest : ∀ q ∈ c.net.inFlight, q ≠ p →
      q ∈ c.net.inFlight.eraseIdx k ++ transmit c.links.ears p.dst sent := fun q hq hne =>
    List.mem_append_left _ (mem_eraseIdx_of_ne hp hq hne)
  rcases hd.recv hmem hrecv with ⟨hreq, rfl, answer, hanswer, -, rfl⟩ |
    ⟨hrsp, rfl, interfaceAddr, rfl⟩ | ⟨r, hr, -, -, hcur, -, hsent⟩
  · have hsame : ∀ x, ((c.net.take k).act p.dst (c.net.node p.dst)
        (transmit c.links.ears p.dst [(p.msg.1, answer)])).node x = c.net.node x :=
      Net.act_node_congr (c := c.net.take k) (f := id) rfl _
    refine ⟨fun x hx => h.current x (hsame u ▸ hx), fun q hq hex => ?_, fun x hx => ?_⟩
    · rcases List.mem_append.mp hq with hq | hq
      · exact h.up q (List.mem_of_mem_eraseIdx hq) hex
      · obtain ⟨-, s, hs, hup, -⟩ := mem_transmit_ears.mp hq
        exact c.links.symm hs ▸ hup
    · rcases h.answered x hx with hcur | ⟨q, hq, hkind⟩
      · refine Or.inl ?_
        change x ∈ (((c.net.take k).act p.dst _ _).node u).currentneighborTable
        rw [hsame]
        exact hcur
      · refine Or.inr ?_
        by_cases hqp : q = p
        · subst hqp
          rcases hkind with ⟨hsrc, hdst, -⟩ | ⟨-, -, hrsp⟩
          · -- the request of `u` is answered
            have hup := h.up q hmem (Or.inl ⟨hsrc, hreq⟩)
            refine ⟨⟨q.dst, q.src, (t, answer)⟩, List.mem_append_right _ ?_,
              Or.inr ⟨hdst, hsrc, hsrc ▸ hanswer⟩⟩
            exact mem_transmit_ears.mpr ⟨rfl, q.msg.1, hpeer, hup, List.mem_singleton.mpr rfl⟩
          · exact absurd hrsp (not_isNdRspFor_of_isNdReq hreq)
        · exact ⟨q, hrest q hq hqp, hkind⟩
  · have hcurrent : ∀ x, x ∈ (((c.net.take k).act p.dst { c.net.node p.dst with
          currentneighborTable := (c.net.node p.dst).currentneighborTable.insert p.src
            ⟨w.mainAddress p.src, interfaceAddr⟩ }
          (transmit c.links.ears p.dst [])).node u).currentneighborTable ↔
        (p.dst = u ∧ x = p.src) ∨ x ∈ (c.net.node u).currentneighborTable := by
      intro x
      rw [Net.act_node]
      split
      · rename_i hu
        rw [hu, Std.ExtTreeMap.mem_insert, Std.compare_eq_iff_eq]
        simp [eq_comm]
      · rename_i hu
        simp [Ne.symm hu]
    refine ⟨fun x hx => ?_, fun q hq hex => ?_, fun x hx => ?_⟩
    · rcases (hcurrent x).mp hx with ⟨rfl, rfl⟩ | hx
      · exact hd.adj hmem (h.up p hmem (Or.inr ⟨rfl, _, hrsp⟩))
      · exact h.current x hx
    · rcases List.mem_append.mp hq with hq | hq
      · exact h.up q (List.mem_of_mem_eraseIdx hq) hex
      · cases hq
    · rcases h.answered x hx with hx | ⟨q, hq, hkind⟩
      · exact Or.inl ((hcurrent x).mpr (Or.inr hx))
      · by_cases hqp : q = p
        · subst hqp
          rcases hkind with ⟨-, -, hreq⟩ | ⟨hsrc, hdst, -⟩
          · exact absurd hrsp (not_isNdRspFor_of_isNdReq hreq)
          · exact Or.inl ((hcurrent x).mpr (Or.inl ⟨hdst, hsrc.symm⟩))
        · exact Or.inr ⟨q, hrest q hq hqp, hkind⟩
  · have hcurrent : (((c.net.take k).act p.dst n
        (transmit c.links.ears p.dst sent)).node u).currentneighborTable =
          (c.net.node u).currentneighborTable :=
      Net.act_node_congr (c := c.net.take k) (f := LsNode.currentneighborTable) hcur _ u
    refine ⟨fun x hx => h.current x (hcurrent ▸ hx), fun q hq hex => ?_, fun x hx => ?_⟩
    · rcases List.mem_append.mp hq with hq | hq
      · exact h.up q (List.mem_of_mem_eraseIdx hq) hex
      · obtain ⟨-, s, -, -, hq⟩ := mem_transmit_ears.mp hq
        exact absurd hex (not_exchanges_of_lsp (hsent (s, q.msg.2) hq))
    · rcases h.answered x hx with hx | ⟨q, hq, hkind⟩
      · exact Or.inl (hcurrent ▸ hx)
      · refine Or.inr ⟨q, hrest q hq ?_, hkind⟩
        rintro rfl
        refine not_exchanges_of_lsp hr (u := u) ?_
        rcases hkind with ⟨hsrc, -, hreq⟩ | ⟨-, hdst, hrsp⟩
        · exact Or.inl ⟨hsrc, hreq⟩
        · exact Or.inr ⟨hdst, _, hrsp⟩

/-! ## The last rounds -/

/-- No link changes any more, and a timer runs only when the answers to its router
have been received. -/
def Paced (c : LinkedNet w) : LinkedEvent → Prop
  | .link _ _ _ => False
  | .router (.ndRequests u) => c.ExchangeDone u
  | .router (.deliver _) => True

def KnowsNeighbors (c : LinkedNet w) (u : UInt32) : Prop :=
  ∀ v, v ∈ (c.net.node u).neighborTable ↔ c.links.graph.Adj u v

/-- After its first timer a router probes its links, and after the second one it knows
its neighbours. -/
theorem probing_of_run {es : List LinkedEvent} (h : c.Discovering)
    (run : Run step (fun c e => c.Allowed e ∧ c.Paced e) c es c') :
    c'.Discovering ∧ c'.links = c.links ∧ ∀ u,
      (1 ≤ es.count (.router (.ndRequests u)) → c'.Probing u) ∧
      (2 ≤ es.count (.router (.ndRequests u)) → c'.KnowsNeighbors u) := by
  induction run with
  | nil => exact ⟨h, rfl, fun u => ⟨fun hc => by simp at hc, fun hc => by simp at hc⟩⟩
  | @snoc es t c' e run allowed eq ih =>
      obtain ⟨hd, hlinks, hrounds⟩ := ih
      refine ⟨hd.step allowed.1 eq, ?_⟩
      rcases step_cases allowed.1 eq with ⟨v, s, b, rfl, rfl⟩ |
        ⟨v, n, sent, rfl, hv, -, hturn, rfl⟩ | ⟨k, p, n, sent, rfl, hp, hrecv, rfl⟩
      · exact absurd allowed.2 not_false
      · refine ⟨hlinks, fun u => ?_⟩
        obtain ⟨hone, htwo⟩ := hrounds u
        by_cases hvu : v = u
        · subst hvu
          have hcount : (es ++ [LinkedEvent.router (.ndRequests v)]).count
              (.router (.ndRequests v)) = es.count (.router (.ndRequests v)) + 1 := by simp
          refine ⟨fun _ => hd.probing allowed.2 hturn, fun hc => ?_⟩
          obtain ⟨-, hnt, -⟩ := LsNode.ndRequests_spec hturn
          intro x
          change x ∈ ((t.net.act v n _).node v).neighborTable ↔ _
          rw [Net.act_node_self, hnt]
          exact (hone (by omega)).mem_iff allowed.2 x
        · have hcount : (es ++ [LinkedEvent.router (.ndRequests v)]).count
              (.router (.ndRequests u)) = es.count (.router (.ndRequests u)) := by
            simp [List.count_append, hvu]
          rw [hcount]
          refine ⟨fun hc => (hone hc).ndRequests hvu hturn, fun hc x => ?_⟩
          change x ∈ ((t.net.act v n _).node u).neighborTable ↔ _
          rw [Net.act_node_of_ne _ _ _ (Ne.symm hvu)]
          exact htwo hc x
      · refine ⟨hlinks, fun u => ?_⟩
        obtain ⟨hone, htwo⟩ := hrounds u
        have hcount : (es ++ [LinkedEvent.router (.deliver k)]).count
            (.router (.ndRequests u)) = es.count (.router (.ndRequests u)) := by
          simp [List.count_append]
        rw [hcount]
        refine ⟨fun hc => (hone hc).deliver hd hp hrecv, fun hc x => ?_⟩
        rw [← htwo hc x]
        exact Iff.of_eq (congrArg (x ∈ ·) (hd.neighborTable_recv hp hrecv u))

end LinkedNet

end PennSearch
