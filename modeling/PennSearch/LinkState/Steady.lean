import PennSearch.LinkState.Convergence

/-!
# Routers that have converged

Once the routes are those of the link graph, they stay so while no link changes: the
rounds of discovery go on, but find what is known, and nothing is flooded. Every
neighbour is entered with an interface whose link leads to it (`Attached`), and the
next hop of every route is one hop nearer to its node (`RoutesTo`).
-/

namespace PennSearch

open MessagePassing HopCount

namespace LinkedNet

variable {w : Wiring} {c c' : LinkedNet w} {e : LinkedEvent} {u v : UInt32} {n : LsNode}
  {sent : List (LsSocket × LSMessage)} {p : LsPacket UInt32}

/-! ## The interfaces of the neighbours -/

/-- The address is that of an interface of `u` whose link is up and leads to `v`. -/
def Leads (l : Links w) (u v : UInt32) (interfaceAddr : Ipv4Address) : Prop :=
  ∃ s t, w.peer u s = some (v, t) ∧ l.up u s = true ∧
    (w.socketAddresses u)[s]? = some interfaceAddr

def Attached (l : Links w) (u : UInt32) (table : NeighborTable) : Prop :=
  ∀ (v : UInt32) (entry : NeighborTableEntry), table[v]? = some entry →
    Leads l u v entry.interfaceAddr

theorem attached_empty (l : Links w) (u : UInt32) : Attached l u ∅ := by
  intro v entry hentry
  simp at hentry

variable [CostQueue]

/-- What a delivery finds, besides what was found before: the sender of an answer, with
the interface on which it came. -/
theorem Discovering.recv_current (h : c.Discovering) (hp : p ∈ c.net.inFlight)
    (hrecv : (c.net.node p.dst).recvLSMessage p.msg.1 p.msg.2 = .ok (n, sent))
    {entry : NeighborTableEntry} (he : n.currentneighborTable[v]? = some entry) :
    (c.net.node p.dst).currentneighborTable[v]? = some entry ∨
      v = p.src ∧ p.msg.2.IsNdRspFor (w.mainAddress p.dst) ∧
        (w.socketAddresses p.dst)[p.msg.1]? = some entry.interfaceAddr := by
  obtain ⟨t, hpeer⟩ := h.wired p hp
  obtain ⟨hmaps, -, hsockets⟩ := h.site p.dst
  rcases h.kind p hp with ⟨hreq, -⟩ | ⟨hrsp, horig⟩ | ⟨r, hr⟩
  · obtain ⟨rfl, -⟩ := LsNode.recv_ndReq hreq hrecv
    exact Or.inl he
  · have hrsp' := hrsp
    obtain ⟨ping, hping, -⟩ := hrsp
    rw [LsNode.recvLSMessage, hping] at hrecv
    obtain ⟨-, rfl | ⟨k, interfaceAddr, -, hinterface, hk, rfl⟩⟩ :=
      LsNode.processNdRsp_eq_ok hrecv
    · exact Or.inl he
    · have hnumber := findIn_eq_ok.mp hk
      rw [hmaps, horig, w.number p.src (w.peer_mem_right hpeer).1] at hnumber
      obtain rfl := Option.some.inj hnumber
      rw [getElem?_insert_eq] at he
      split at he
      · rename_i hv
        obtain rfl := Option.some.inj he
        exact Or.inr ⟨hv.symm, hrsp', hsockets ▸ hinterface⟩
      · exact Or.inl he
  · obtain ⟨-, -, hcurrent, -⟩ := LsNode.recv_lsp hr hrecv
    exact Or.inl (hcurrent ▸ he)

/-- A delivery keeps the neighbours found attached. -/
theorem Attached.deliver (h : Attached c.links u (c.net.node u).currentneighborTable)
    (hd : c.Discovering) (hprobing : c.Probing u) {k : ℕ} (hp : c.net.inFlight[k]? = some p)
    (hrecv : (c.net.node p.dst).recvLSMessage p.msg.1 p.msg.2 = .ok (n, sent)) :
    Attached c.links u (((c.net.take k).act p.dst n
      (transmit c.links.ears p.dst sent)).node u).currentneighborTable := by
  have hmem := List.mem_of_getElem? hp
  intro v entry hentry
  rw [Net.act_node] at hentry
  split at hentry
  · rename_i hu
    subst hu
    rcases hd.recv_current hmem hrecv hentry with hold | ⟨rfl, hrsp, hinterface⟩
    · exact h v entry hold
    · obtain ⟨t, hpeer⟩ := hd.wired p hmem
      exact ⟨p.msg.1, t, hpeer, hprobing.up p hmem (Or.inr ⟨rfl, _, hrsp⟩), hinterface⟩
  · exact h v entry hentry

/-- After its first timer a router finds neighbours that are attached, and after the
second one so are its neighbours. -/
theorem attached_of_run {es : List LinkedEvent} (h : c.Discovering)
    (run : Run step (fun c e => c.Allowed e ∧ c.Paced e) c es c') (u : UInt32) :
    (1 ≤ es.count (.router (.ndRequests u)) →
        Attached c'.links u (c'.net.node u).currentneighborTable) ∧
      (2 ≤ es.count (.router (.ndRequests u)) →
        Attached c'.links u (c'.net.node u).neighborTable) := by
  induction run with
  | nil => exact ⟨fun hc => by simp at hc, fun hc => by simp at hc⟩
  | @snoc es t c' e run allowed eq ih =>
      obtain ⟨hd, -, hrounds⟩ := probing_of_run h run
      obtain ⟨hone, htwo⟩ := ih
      rcases step_cases allowed.1 eq with ⟨v, s, b, rfl, rfl⟩ |
        ⟨v, n, sent, rfl, hv, -, hturn, rfl⟩ | ⟨k, p, n, sent, rfl, hp, hrecv, rfl⟩
      · exact absurd allowed.2 not_false
      · by_cases hvu : v = u
        · subst hvu
          obtain ⟨-, hnt, hcurrent, -⟩ := LsNode.ndRequests_spec hturn
          have hcount : (es ++ [LinkedEvent.router (.ndRequests v)]).count
              (.router (.ndRequests v)) = es.count (.router (.ndRequests v)) + 1 := by simp
          constructor
          · intro _
            change Attached t.links v ((t.net.act v n _).node v).currentneighborTable
            rw [Net.act_node_self, hcurrent]
            exact attached_empty _ _
          · intro hc
            change Attached t.links v ((t.net.act v n _).node v).neighborTable
            rw [Net.act_node_self, hnt]
            exact hone (by omega)
        · have hcount : (es ++ [LinkedEvent.router (.ndRequests v)]).count
              (.router (.ndRequests u)) = es.count (.router (.ndRequests u)) := by
            simp [List.count_append, hvu]
          rw [hcount]
          change (_ → Attached t.links u ((t.net.act v n _).node u).currentneighborTable) ∧
            (_ → Attached t.links u ((t.net.act v n _).node u).neighborTable)
          rw [Net.act_node_of_ne _ _ _ (Ne.symm hvu)]
          exact ⟨hone, htwo⟩
      · have hcount : (es ++ [LinkedEvent.router (.deliver k)]).count
            (.router (.ndRequests u)) = es.count (.router (.ndRequests u)) := by
          simp [List.count_append]
        rw [hcount]
        refine ⟨fun hc => (hone hc).deliver hd ((hrounds u).1 hc) hp hrecv, fun hc => ?_⟩
        change Attached t.links u (((t.net.take k).act p.dst n _).node u).neighborTable
        rw [hd.neighborTable_recv hp hrecv u]
        exact htwo hc

/-! ## Routes and next hops -/

/-- The route to `v` leads to a neighbour that is one hop nearer to `v`. -/
def RoutesTo (c : LinkedNet w) (u v : UInt32) : Prop :=
  ∃ entry, (c.net.node u).routeTable[v]? = some entry ∧
    c.links.graph.Adj u entry.nextHopNumber ∧
    c.links.graph.dist entry.nextHopNumber v + 1 = c.links.graph.dist u v

variable {M : Set LspRecord} {R : UInt32 → Set LspRecord}

theorem Informed.hop_path (h : c.Informed M R) (hknow : c.KnowsNeighbors u)
    {entry : RouteTableDetails} (he : (c.net.node u).routeTable[v]? = some entry) :
    Path (c.links.graph.Adj u) (Confirmed (c.net.node u).routeMap) entry.cost.toNat
      entry.nextHopNumber v := by
  obtain ⟨t, haddr, htable⟩ := (h.tracks u).routed
  have hsource : (· ∈ t) = c.links.graph.Adj u := by
    funext k
    refine propext ?_
    rw [LsNode.mem_iff_mem_addresses, haddr, ← LsNode.mem_iff_mem_addresses]
    exact hknow k
  exact hsource ▸ ((dijkstraTable_shortest htable v).1 entry he).1

theorem Informed.routesTo (h : c.Informed M R) (hu : u ∈ w.members) (hknow : c.KnowsNeighbors u)
    (hdetails : ∀ x, c.links.graph.Reachable u x → x ≠ u → ∃ details,
      (c.net.node u).routeMap[x]? = some details ∧
        ∀ k, k ∈ details.neighborList ↔ c.links.graph.Adj x k) (hne : v ≠ u)
    (hv : c.links.graph.Reachable u v) : c.RoutesTo u v := by
  obtain ⟨entry, he, hcost⟩ := (h.converged hu hknow hdetails hne).1 hv
  have hpath := h.hop_path hknow he
  have hadj : c.links.graph.Adj u entry.nextHopNumber := hpath.isSource
  refine ⟨entry, he, hadj, le_antisymm ?_ ?_⟩
  · rw [← hcost]
    refine hpath.dist_source_lt ?_ hv
    rintro x y hy hyu ⟨d, d', -, hd', -, hx⟩
    obtain ⟨d'', hd'', hlist⟩ := hdetails y hy hyu
    obtain rfl := Option.some.inj (hd'.symm.trans hd'')
    exact ((hlist x).mp hx).symm
  · have hone : c.links.graph.dist u entry.nextHopNumber = 1 :=
      SimpleGraph.dist_eq_one_iff_adj.mpr hadj
    have hle := hadj.reachable.dist_triangle_left (w := v)
    omega

/-! ## Converged routers -/

/-- The router `u` knows its neighbours, finds them again, and has a route to every
router that it reaches. -/
structure Settled (c : LinkedNet w) (u : UInt32) : Prop where
  listed : ListsMembers w (c.net.node u).neighborTable
  current : ListsMembers w (c.net.node u).currentneighborTable
  probing : c.Probing u
  attached : Attached c.links u (c.net.node u).neighborTable
  found : Attached c.links u (c.net.node u).currentneighborTable
  knows : c.KnowsNeighbors u
  routes : ∀ v, v ≠ u → c.links.graph.Reachable u v → c.RoutesTo u v

structure Converged (c : LinkedNet w) : Prop where
  discovering : c.Discovering
  quiet : c.Quiet
  settled : ∀ u ∈ w.members, c.Settled u

/-- After a run, two rounds of discovery without link events and with no LSP in flight, all
is converged if every router has heard of those that it reaches. -/
theorem converged_of_run (links : Links w) (maxTTL singleHop : UInt8)
    (sequenceNumber : UInt32 → UInt32) {es es' : List LinkedEvent}
    (run : Run step Allowed (start w links maxTTL singleHop sequenceNumber) es c)
    (last : Run step (fun c e => c.Allowed e ∧ c.Paced e) c es' c')
    (rounds : ∀ u ∈ w.members, 2 ≤ es'.count (.router (.ndRequests u))) (hquiet : c'.Quiet)
    (hheard : ∀ u ∈ w.members, c'.Heard (history step cameUp
      (start w links maxTTL singleHop sequenceNumber) (fun _ _ _ => false) (es ++ es')) u) :
    c'.Converged := by
  obtain ⟨M, R, hi, hc⟩ := covered_of_run (run.trans (last.mono fun _ _ h => h.1))
  obtain ⟨M₀, R₀, hi₀, -⟩ := covered_of_run run
  obtain ⟨-, -, hrounds⟩ := probing_of_run hi₀.discovering last
  have hknow : ∀ y ∈ w.members, c'.KnowsNeighbors y := fun y hy => (hrounds y).2 (rounds y hy)
  refine ⟨hi.discovering, hquiet, fun u hu => ?_⟩
  have htwo := rounds u hu
  obtain ⟨hfound, hattached⟩ := attached_of_run hi₀.discovering last u
  exact
    { listed := (hi.tracks u).neighbors
      current := (hi.tracks u).current
      probing := (hrounds u).1 (by omega)
      attached := hattached htwo
      found := hfound (by omega)
      knows := hknow u hu
      routes := fun v hne hv => hi.routesTo hu (hknow u hu)
        (fun x hx hxu => hi.heard_details hc hquiet hknow hu (hheard u hu) hx hxu) hne hv }

/-! ## Nothing changes any more -/

omit [CostQueue] in
theorem Settled.not_flooding (h : c.Settled u) (hdone : c.ExchangeDone u) :
    LsNode.floodingFlag (c.net.node u).neighborTable (c.net.node u).currentneighborTable =
      false := by
  rw [LsNode.floodingFlag_eq_false_iff]
  refine Std.ExtTreeMap.ext_getElem? fun k => ?_
  rw [NeighborTable.getElem?_addresses, NeighborTable.getElem?_addresses]
  have hmem : k ∈ (c.net.node u).neighborTable ↔ k ∈ (c.net.node u).currentneighborTable :=
    (h.knows k).trans (h.probing.mem_iff hdone k).symm
  cases hold : (c.net.node u).neighborTable[k]? with
  | none =>
      cases hnew : (c.net.node u).currentneighborTable[k]? with
      | none => rfl
      | some entry =>
          obtain ⟨entry', hentry'⟩ := mem_iff_exists_getElem?.mp
            (hmem.mpr (mem_iff_exists_getElem?.mpr ⟨entry, hnew⟩))
          rw [hold] at hentry'
          cases hentry'
  | some entry =>
      obtain ⟨entry', hnew⟩ := mem_iff_exists_getElem?.mp
        (hmem.mp (mem_iff_exists_getElem?.mpr ⟨entry, hold⟩))
      rw [hnew, Option.map_some, Option.map_some, (h.listed k entry hold).2,
        (h.current k entry' hnew).2]

omit [CostQueue] in
/-- A router stays settled while its routes and the members of its table stay. -/
theorem Settled.keep (h : c.Settled u) (net : LsNet UInt32)
    (hroutes : (net.node u).routeTable = (c.net.node u).routeTable)
    (hknows : ∀ v, v ∈ (net.node u).neighborTable ↔ v ∈ (c.net.node u).neighborTable)
    (hlisted : ListsMembers w (net.node u).neighborTable)
    (hcurrent : ListsMembers w (net.node u).currentneighborTable)
    (hattached : Attached c.links u (net.node u).neighborTable)
    (hfound : Attached c.links u (net.node u).currentneighborTable)
    (hprobing : ({ c with net := net } : LinkedNet w).Probing u) :
    ({ c with net := net } : LinkedNet w).Settled u where
  listed := hlisted
  current := hcurrent
  probing := hprobing
  attached := hattached
  found := hfound
  knows v := (hknows v).trans (h.knows v)
  routes v hne hv := by
    obtain ⟨entry, he, hadj, hdist⟩ := h.routes v hne hv
    exact ⟨entry, hroutes ▸ he, hadj, hdist⟩

/-- The timer of `u` starts a round that floods nothing. -/
theorem Converged.ndRequests (h : c.Converged) (hu : u ∈ w.members) (hdone : c.ExchangeDone u)
    (hok : c.Allowed (.router (.ndRequests u)))
    (hturn : (c.net.node u).ndRequests = .ok (n, sent)) :
    ({ c with net := c.net.act u n (transmit c.links.ears u sent) } : LinkedNet w).Converged := by
  have hself := h.settled u hu
  have hstep : c.step (.router (.ndRequests u)) =
      .ok { c with net := c.net.act u n (transmit c.links.ears u sent) } := by
    simp [step, LsNet.step, hturn, bind, Except.bind, pure, Except.pure]
  refine ⟨h.discovering.step hok hstep, fun p hp => ?_, fun v hv => ?_⟩
  · rcases List.mem_append.mp hp with hp | hp
    · exact h.quiet p hp
    · obtain ⟨-, -, -, -, -, request, hreq, -, ⟨-, -, rfl⟩ | ⟨hflag, -⟩⟩ :=
        LsNode.ndRequests_spec hturn
      · obtain ⟨-, s, -, -, hmsg⟩ := mem_transmit_ears.mp hp
        rw [(LsNode.mem_broadcastPacket.mp hmsg).2]
        exact LSMessage.lspRecord_of_isNdReq hreq
      · rw [hself.not_flooding hdone] at hflag
        cases hflag
  · by_cases hvu : v = u
    · subst hvu
      have hnode : (c.net.act v n (transmit c.links.ears v sent)).node v = n :=
        Net.act_node_self _ _ _ _
      obtain ⟨-, hnt, hcurrent, -⟩ := LsNode.ndRequests_spec hturn
      have hroutes : n.routeTable = (c.net.node v).routeTable := by
        rw [LsNode.ndRequests_of_not_flag (hself.not_flooding hdone)] at hturn
        obtain ⟨rfl, -⟩ := Prod.mk.inj (Except.ok.inj hturn)
        rfl
      refine hself.keep _ ?_ (fun x => ?_) ?_ ?_ ?_ ?_ (h.discovering.probing hdone hturn)
      · rw [hnode, hroutes]
      · rw [hnode, hnt]
        exact (hself.probing.mem_iff hdone x).trans (hself.knows x).symm
      · rw [hnode, hnt]
        exact hself.current
      · rw [hnode, hcurrent]
        exact .empty
      · rw [hnode, hnt]
        exact hself.found
      · rw [hnode, hcurrent]
        exact attached_empty _ _
    · have hnode : (c.net.act u n (transmit c.links.ears u sent)).node v = c.net.node v :=
        Net.act_node_of_ne _ _ _ hvu
      have hother := h.settled v hv
      refine hother.keep _ ?_ (fun x => ?_) ?_ ?_ ?_ ?_
        (hother.probing.ndRequests (Ne.symm hvu) hturn)
      · rw [hnode]
      · rw [hnode]
      · rw [hnode]
        exact hother.listed
      · rw [hnode]
        exact hother.current
      · rw [hnode]
        exact hother.attached
      · rw [hnode]
        exact hother.found

/-- A delivery changes at most the neighbours found. -/
theorem Converged.deliver (h : c.Converged) {k : ℕ} (hok : c.Allowed (.router (.deliver k)))
    (hp : c.net.inFlight[k]? = some p)
    (hrecv : (c.net.node p.dst).recvLSMessage p.msg.1 p.msg.2 = .ok (n, sent)) :
    ({ c with net := (c.net.take k).act p.dst n (transmit c.links.ears p.dst sent) } :
      LinkedNet w).Converged := by
  have hmem := List.mem_of_getElem? hp
  have hstep : c.step (.router (.deliver k)) =
      .ok { c with net := (c.net.take k).act p.dst n (transmit c.links.ears p.dst sent) } := by
    simp [step, LsNet.step, hp, hrecv, bind, Except.bind, pure, Except.pure]
  -- no LSP is in flight, so the routes stay, and only an answer to a request is sent
  obtain ⟨hroutes, hsent, hlisted⟩ : n.routeTable = (c.net.node p.dst).routeTable ∧
      (∀ q ∈ sent, q.2.lspRecord = none) ∧
        (ListsMembers w (c.net.node p.dst).currentneighborTable →
          ListsMembers w n.currentneighborTable) := by
    rcases h.discovering.recv hmem hrecv with ⟨-, rfl, answer, hanswer, -, rfl⟩ |
      ⟨-, rfl, interfaceAddr, rfl⟩ | ⟨r, hr, -⟩
    · refine ⟨rfl, fun q hq => ?_, id⟩
      rw [List.mem_singleton.mp hq]
      exact LSMessage.lspRecord_of_isNdRspFor hanswer
    · refine ⟨rfl, fun q hq => (by cases hq), fun hlisted v entry hentry => ?_⟩
      obtain ⟨t, hpeer⟩ := h.discovering.wired p hmem
      rw [getElem?_insert_eq] at hentry
      split at hentry
      · rename_i hv
        rw [← Option.some.inj hentry, ← hv]
        exact ⟨(w.peer_mem_right hpeer).1, rfl⟩
      · exact hlisted v entry hentry
    · rw [h.quiet p hmem] at hr
      cases hr
  refine ⟨h.discovering.step hok hstep, fun q hq => ?_, fun u hu => ?_⟩
  · rcases List.mem_append.mp hq with hq | hq
    · exact h.quiet q (List.mem_of_mem_eraseIdx hq)
    · obtain ⟨-, s, -, -, hmsg⟩ := mem_transmit_ears.mp hq
      exact hsent (s, q.msg.2) hmsg
  · have hself := h.settled u hu
    have htable := h.discovering.neighborTable_recv hp hrecv u
    have hcurrent : ListsMembers w (((c.net.take k).act p.dst n
        (transmit c.links.ears p.dst sent)).node u).currentneighborTable := by
      rw [Net.act_node]
      split
      · rename_i hu
        exact hlisted (hu ▸ hself.current)
      · exact hself.current
    refine hself.keep _ ?_ (fun x => ?_) ?_ hcurrent ?_
      (hself.found.deliver h.discovering hself.probing hp hrecv)
      (hself.probing.deliver h.discovering hp hrecv)
    · exact Net.act_node_congr (c := c.net.take k) (f := LsNode.routeTable) hroutes _ u
    · rw [htable]
    · rw [htable]
      exact hself.listed
    · rw [htable]
      exact hself.attached

/-- While no link changes, converged routers stay converged. -/
theorem Converged.step (h : c.Converged) (hok : c.Allowed e) (hpaced : c.Paced e)
    (hstep : c.step e = .ok c') : c'.Converged ∧ c'.links = c.links := by
  rcases step_cases hok hstep with ⟨u, s, b, rfl, rfl⟩ | ⟨u, n, sent, rfl, hu, -, hturn, rfl⟩ |
    ⟨k, p, n, sent, rfl, hp, hrecv, rfl⟩
  · exact absurd hpaced not_false
  · exact ⟨h.ndRequests hu hpaced hok hturn, rfl⟩
  · exact ⟨h.deliver hok hp hrecv, rfl⟩

end LinkedNet

end PennSearch
