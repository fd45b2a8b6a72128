import PennSearch.LinkState.Coverage

/-!
# Link-state convergence

When the links have stopped changing, every router has gone through two rounds of
discovery and no LSP is in flight, a router knows the neighbours of those that it has
heard of since they last flooded (`Heard`): an LSP is never sent again to a neighbour
that was not there when it was flooded. Its routes are then those of the link graph,
with the hop distance as cost (`link_state_convergence`). A partition that heals leaves
routers without routes to those that were on the other side and whose neighbours have
not changed (`healed_partition_stays_split`).
-/

namespace PennSearch

open MessagePassing HopCount

namespace Links

variable {w : Wiring} {l : Links w} {u v : UInt32}

theorem mem_of_mem_support (p : l.graph.Walk u v) (hu : u ∈ w.members) :
    ∀ x ∈ p.support, x ∈ w.members := by
  induction p with
  | nil =>
      intro x hx
      exact List.mem_singleton.mp hx ▸ hu
  | cons hadj p ih =>
      intro x hx
      rw [SimpleGraph.Walk.support_cons, List.mem_cons] at hx
      rcases hx with rfl | hx
      · exact hu
      · exact ih (mem_of_adj hadj.symm) x hx

/-- There are fewer routers than addresses, since 0.0.0.0 is not one of them. -/
theorem card_members_le (w : Wiring) : w.members.card ≤ uint32Max.toNat := by
  have hmaps : Set.MapsTo (fun u => (w.mainAddress u).address.toNat) w.members
      (Finset.Icc 1 uint32Max.toNat) := by
    intro u hu
    have hne : (w.mainAddress u).address ≠ 0 := by
      intro h0
      exact w.main_ne u hu (congrArg Ipv4Address.mk h0)
    have hpos : (w.mainAddress u).address.toNat ≠ 0 := fun h0 => hne (UInt32.toNat_inj.mp h0)
    have hlt := (w.mainAddress u).address.toNat_lt
    have hmax : uint32Max.toNat = 2 ^ 32 - 1 := rfl
    simp only [Finset.coe_Icc, Set.mem_Icc]
    omega
  have hinj : Set.InjOn (fun u => (w.mainAddress u).address.toNat) w.members := by
    intro u hu v hv h
    exact w.main_inj hu hv (congrArg Ipv4Address.mk (UInt32.toNat_inj.mp h))
  simpa using Finset.card_le_card_of_injOn _ hmaps hinj

theorem dist_lt (hu : u ∈ w.members) (h : l.graph.Reachable u v) :
    l.graph.dist u v < uint32Max.toNat := by
  obtain ⟨p, hpath, hlen⟩ := h.exists_path_of_dist
  have hle : p.support.length ≤ w.members.card := by
    rw [← List.toFinset_card_of_nodup hpath.support_nodup]
    refine Finset.card_le_card fun x hx => ?_
    exact mem_of_mem_support p hu x (List.mem_toFinset.mp hx)
  rw [SimpleGraph.Walk.length_support, hlen] at hle
  exact Nat.lt_of_succ_le (hle.trans (card_members_le w))

end Links

namespace LinkedNet

variable [CostQueue] {w : Wiring} {c c' : LinkedNet w} {u v x : UInt32}
  {since : UInt32 → UInt32 → LsSocket → Bool} {M : Set LspRecord} {R : UInt32 → Set LspRecord}
  {r : LspRecord}

def Quiet (c : LinkedNet w) : Prop := ∀ p ∈ c.net.inFlight, p.msg.2.lspRecord = none

/-- A link from `x` to `y` is up, and has not come up since the last LSP of `v`. -/
def Kept (c : LinkedNet w) (since : UInt32 → UInt32 → LsSocket → Bool) (v x y : UInt32) : Prop :=
  ∃ s t, w.peer x s = some (y, t) ∧ c.links.up x s = true ∧ since v x s = false

/-- For every router `v` that `u` reaches, some router with the latest LSP of `v`, such as
`v` itself, leads to `u` over links that have not come up since. -/
def Heard (c : LinkedNet w) (since : UInt32 → UInt32 → LsSocket → Bool) (u : UInt32) : Prop :=
  ∀ v, c.links.graph.Reachable u v →
    ∃ x, c.Has v x ∧ Relation.ReflTransGen (c.Kept since v) x u

omit [CostQueue] in
/-- When no LSP is in flight, the latest one of `v` has gone over all links that have not
come up since. -/
theorem Covered.has_of_kept (h : c.Covered since) (hquiet : c.Quiet) (hv : v ∈ w.members)
    (hne : (c.net.node v).lspSequenceNumber ≠ 0) (hx : c.Has v x)
    (hkept : Relation.ReflTransGen (c.Kept since v) x u) : c.Has v u := by
  induction hkept with
  | refl => exact hx
  | @tail y z _ hyz ih =>
      obtain ⟨s, t, hpeer, hup, hsince⟩ := hyz
      refine (h v hv hne y s z t hpeer hup hsince ih).resolve_right ?_
      rintro ⟨p, hp, -, -, r, hr, -⟩
      rw [hquiet p hp] at hr
      cases hr

theorem Informed.exists_details (h : c.Informed M R) (hv : v ∈ w.members)
    (hne : (c.net.node v).lspSequenceNumber ≠ 0)
    (hknows : (c.net.node x).knowsLsp (w.mainAddress v) (c.net.node v).lastSeq = true) :
    ∃ details, (c.net.node x).routeMap[v]? = some details ∧
      ∀ k, k ∈ details.neighborList ↔ k ∈ (c.net.node v).neighborTable := by
  have ht := h.tracks x
  obtain ⟨r, hr, hkey, hle⟩ := (ht.learned.knowsLsp_iff (h.known.subset ht.sub) _ _).mp hknows
  have hlt := h.knows_lt (x := x) hv (s := r.sequenceNumber)
    ((ht.learned.knowsLsp_iff (h.known.subset ht.sub) _ _).mpr ⟨r, hr, hkey, UInt64.le_refl _⟩)
  have hlatest := (h.tracks v).latest hne
  have hrecord : r = (c.net.node v).tableRecord := by
    refine h.known.eq_of_stamp (ht.sub hr.1) hlatest (hkey.trans (h.mainAddress_eq v).symm) ?_
    have hlast := LsNode.toNat_lastSeq hne
    have hle' := UInt64.le_iff_toNat_le.mp hle
    change _ = (c.net.node v).lastSeq.toNat
    omega
  obtain ⟨details, hdetails⟩ := w.maps.routeMapDetails_isOk (a := r.originatorAddress)
    (h.known.neighbors r (ht.sub hr.1))
  refine ⟨details, (ht.learned.map v details).mpr ⟨r, hr, hkey ▸ w.number v hv, hdetails⟩, ?_⟩
  intro k
  rw [AddressMaps.mem_neighborList hdetails, mem_iff_exists_getElem?, hrecord]
  constructor
  · rintro ⟨b, hb, hk⟩
    obtain ⟨⟨k', entry⟩, hentry, rfl⟩ := List.mem_map.mp hb
    have hentry' := Std.ExtTreeMap.mem_toList_iff_getElem?_eq_some.mp hentry
    obtain ⟨hk', haddr⟩ := (h.tracks v).neighbors k' entry hentry'
    rw [haddr, w.number k' hk'] at hk
    exact ⟨entry, Option.some.inj hk ▸ hentry'⟩
  · rintro ⟨entry, hentry⟩
    obtain ⟨hk, haddr⟩ := (h.tracks v).neighbors k entry hentry
    refine ⟨entry.neighborAddr, List.mem_map.mpr ⟨(k, entry), ?_, rfl⟩, haddr ▸ w.number k hk⟩
    exact Std.ExtTreeMap.mem_toList_iff_getElem?_eq_some.mpr hentry

theorem Informed.flooded_of_reachable (h : c.Informed M R) (hknow : c.KnowsNeighbors v)
    (hreach : c.links.graph.Reachable v u) (hne : v ≠ u) :
    (c.net.node v).lspSequenceNumber ≠ 0 := by
  intro h0
  obtain ⟨p⟩ := hreach
  cases p with
  | nil => exact hne rfl
  | @cons _ x _ hadj _ =>
      have hx := (hknow x).mpr hadj
      rw [(h.tracks v).silent h0] at hx
      exact Std.ExtTreeMap.not_mem_empty hx

theorem Informed.routes (h : c.Informed M R) (hknow : c.KnowsNeighbors u) (v : UInt32) :
    (∀ entry, (c.net.node u).routeTable[v]? = some entry → ∃ hop,
      Path (c.links.graph.Adj u) (Confirmed (c.net.node u).routeMap) entry.cost.toNat hop v ∧
        ∀ n hop, Path (c.links.graph.Adj u) (Confirmed (c.net.node u).routeMap) n hop v →
          entry.cost.toNat ≤ n) ∧
      ∀ n hop, Path (c.links.graph.Adj u) (Confirmed (c.net.node u).routeMap) n hop v →
        n < uint32Max.toNat → ∃ entry, (c.net.node u).routeTable[v]? = some entry := by
  obtain ⟨t, haddr, htable⟩ := (h.tracks u).routed
  have hsource : (· ∈ t) = c.links.graph.Adj u := by
    funext k
    refine propext ?_
    rw [LsNode.mem_iff_mem_addresses, haddr, ← LsNode.mem_iff_mem_addresses]
    exact hknow k
  obtain ⟨hentry, hexists⟩ := dijkstraTable_shortest htable v
  simp only [hsource] at hentry hexists
  exact ⟨fun entry he => ⟨_, hentry entry he⟩, hexists⟩

theorem Informed.own_details (h : c.Informed M R) (hu : u ∈ w.members) (hknow : c.KnowsNeighbors u)
    (hown : ∀ s, (c.net.node u).lspSequenceNumberTable[w.mainAddress u]? = some s →
      s = (c.net.node u).lastSeq) {details : RouteMapDetails}
    (hmap : (c.net.node u).routeMap[u]? = some details) (k : UInt32) :
    k ∈ details.neighborList ↔ c.links.graph.Adj u k := by
  have ht := h.tracks u
  obtain ⟨r, hr, hnumber, -⟩ := (ht.learned.map u details).mp hmap
  obtain ⟨u', hu', hkey, hlt⟩ := h.originated r (ht.sub hr.1)
  obtain rfl : u' = u := by
    rw [hkey, w.number u' hu'] at hnumber
    exact Option.some.inj hnumber
  have hseq := hown _ ((ht.learned.seq _ _).mpr ⟨r, hr, hkey, rfl⟩)
  have hne : (c.net.node u').lspSequenceNumber ≠ 0 := by
    intro h0
    rw [h0] at hlt
    exact Nat.not_lt_zero _ hlt
  obtain ⟨details', hmap', hlist⟩ := h.exists_details hu' hne
    ((ht.learned.knowsLsp_iff (h.known.subset ht.sub) _ _).mpr
      ⟨r, hr, hkey, hseq ▸ UInt64.le_refl _⟩)
  obtain rfl := Option.some.inj (hmap.symm.trans hmap')
  exact (hlist k).trans (hknow k)

theorem Informed.heard_details (h : c.Informed M R) (hcovered : c.Covered since)
    (hquiet : c.Quiet) (hknow : ∀ x ∈ w.members, c.KnowsNeighbors x) (hu : u ∈ w.members)
    (hheard : c.Heard since u) (hreach : c.links.graph.Reachable u x) (hne : x ≠ u) :
    ∃ details, (c.net.node u).routeMap[x]? = some details ∧
      ∀ k, k ∈ details.neighborList ↔ c.links.graph.Adj x k := by
  have hx : x ∈ w.members := by
    obtain ⟨p⟩ := hreach
    exact Links.mem_of_mem_support p hu x p.end_mem_support
  have hnum := h.flooded_of_reachable (hknow x hx) hreach.symm hne
  obtain ⟨y, hy, hkept⟩ := hheard x hreach
  have hhas := hcovered.has_of_kept hquiet hx hnum hy hkept
  obtain ⟨details, hdetails, hlist⟩ := h.exists_details hx hnum (hhas.resolve_left hne.symm)
  exact ⟨details, hdetails, fun k => (hlist k).trans (hknow x hx k)⟩

/-- What the routers of a component know makes the routes those of the graph. -/
theorem Informed.converged (h : c.Informed M R) (hu : u ∈ w.members)
    (hknow : c.KnowsNeighbors u)
    (hdetails : ∀ x, c.links.graph.Reachable u x → x ≠ u → ∃ details,
      (c.net.node u).routeMap[x]? = some details ∧
        ∀ k, k ∈ details.neighborList ↔ c.links.graph.Adj x k) (hne : v ≠ u) :
    (c.links.graph.Reachable u v → ∃ entry, (c.net.node u).routeTable[v]? = some entry ∧
        entry.cost.toNat = c.links.graph.dist u v) ∧
      ((∀ details, (c.net.node u).routeMap[u]? = some details →
          ∀ k, k ∈ details.neighborList ↔ c.links.graph.Adj u k) →
        ¬ c.links.graph.Reachable u v → (c.net.node u).routeTable[v]? = none) := by
  obtain ⟨hentry, hexists⟩ := h.routes hknow v
  constructor
  · intro hv
    obtain ⟨hop, hpath⟩ := exists_path_of_reachable
      (E := Confirmed (c.net.node u).routeMap) (by
        intro x y hx hxu hyu hadj
        obtain ⟨d, hd, hlist⟩ := hdetails x hx hxu
        obtain ⟨d', hd', hlist'⟩ := hdetails y (hx.trans hadj.reachable) hyu
        exact ⟨d, d', hd, hd', (hlist y).mpr hadj, (hlist' x).mpr hadj.symm⟩) hv hne
    obtain ⟨entry, he⟩ := hexists _ _ hpath (Links.dist_lt hu hv)
    obtain ⟨hop', hpath', hshortest⟩ := hentry entry he
    refine ⟨entry, he, le_antisymm (hshortest _ _ hpath) (hpath'.dist_le ?_ hv)⟩
    rintro x y hy hyu ⟨d, d', -, hd', -, hx⟩
    obtain ⟨d'', hd'', hlist⟩ := hdetails y hy hyu
    obtain rfl := Option.some.inj (hd'.symm.trans hd'')
    exact ((hlist x).mp hx).symm
  · intro hown hunreach
    refine Option.eq_none_iff_forall_ne_some.mpr fun entry he => hunreach ?_
    obtain ⟨hop, hpath, -⟩ := hentry entry he
    refine hpath.reachable ?_
    rintro x y hx ⟨d, d', hd, -, hy, -⟩
    by_cases hxu : x = u
    · subst hxu
      exact (hown d hd y).mp hy
    · obtain ⟨d'', hd'', hlist⟩ := hdetails x hx hxu
      obtain rfl := Option.some.inj (hd.symm.trans hd'')
      exact (hlist y).mp hy

theorem covered_of_run {links : Links w} {maxTTL singleHop : UInt8}
    {sequenceNumber : UInt32 → UInt32} {es : List LinkedEvent}
    (run : Run step Allowed (start w links maxTTL singleHop sequenceNumber) es c) :
    ∃ M R, c.Informed M R ∧ c.Covered (history step cameUp
      (start w links maxTTL singleHop sequenceNumber) (fun _ _ _ => false) es) := by
  refine run.history_invariant (I := fun c since => ∃ M R, c.Informed M R ∧ c.Covered since)
    ⟨_, _, informed_start _ _ _ _, covered_start _ _ _ _⟩ ?_
  rintro t since e t' ⟨M, R, hi, hc⟩ hok hstep
  obtain ⟨M', R', hi'⟩ := hi.step hok hstep
  exact ⟨M', R', hi', hc.step hi hok hstep⟩

theorem exists_step {links : Links w} {maxTTL singleHop : UInt8}
    {sequenceNumber : UInt32 → UInt32} {es : List LinkedEvent} {e : LinkedEvent}
    (run : Run step Allowed (start w links maxTTL singleHop sequenceNumber) es c)
    (hok : c.Allowed e) : ∃ c', c.step e = .ok c' := by
  obtain ⟨M, R, hi, -⟩ := covered_of_run run
  exact hi.isOk hok

/-- After any run, two or more rounds of discovery without link events, and with no LSP
in flight, the routes of a router that has heard of all that it reaches are those of the
link graph: there is a route to each router that it reaches, whose cost is the hop
distance, and if an LSP of its own that came back is its latest one, there are no others. -/
theorem link_state_convergence (links : Links w) (maxTTL singleHop : UInt8)
    (sequenceNumber : UInt32 → UInt32) {es es' : List LinkedEvent}
    (run : Run step Allowed (start w links maxTTL singleHop sequenceNumber) es c)
    (last : Run step (fun c e => c.Allowed e ∧ c.Paced e) c es' c')
    (rounds : ∀ u ∈ w.members, 2 ≤ es'.count (.router (.ndRequests u))) (hquiet : c'.Quiet)
    (hu : u ∈ w.members) (hne : v ≠ u)
    (hheard : c'.Heard (history step cameUp (start w links maxTTL singleHop sequenceNumber)
      (fun _ _ _ => false) (es ++ es')) u) :
    (c'.links.graph.Reachable u v → ∃ entry, (c'.net.node u).routeTable[v]? = some entry ∧
        entry.cost.toNat = c'.links.graph.dist u v) ∧
      ((∀ s, (c'.net.node u).lspSequenceNumberTable[w.mainAddress u]? = some s →
          s = (c'.net.node u).lastSeq) →
        ¬ c'.links.graph.Reachable u v → (c'.net.node u).routeTable[v]? = none) := by
  obtain ⟨M, R, hi, hc⟩ := covered_of_run (run.trans (last.mono fun _ _ h => h.1))
  obtain ⟨M₀, R₀, hi₀, -⟩ := covered_of_run run
  obtain ⟨-, -, hrounds⟩ := probing_of_run hi₀.discovering last
  have hknow : ∀ y ∈ w.members, c'.KnowsNeighbors y := fun y hy => (hrounds y).2 (rounds y hy)
  obtain ⟨hreach, hnone⟩ := hi.converged hu (hknow u hu)
    (fun x hx hxu => hi.heard_details hc hquiet hknow hu hheard hx hxu) hne
  refine ⟨hreach, fun hown => hnone fun details hmap => ?_⟩
  exact hi.own_details hu (hknow u hu) hown hmap

end LinkedNet

end PennSearch

namespace PennSearch

open MessagePassing LinkedNet

attribute [local instance] CostQueue.ofList

def lineNumbers : Std.ExtTreeMap UInt32 Ipv4Address :=
  .ofList [((0 : UInt32), Ipv4Address.mk 1), (1, .mk 11), (2, .mk 21)]

def lineAddresses : Std.ExtTreeMap Ipv4Address UInt32 :=
  .ofList [(Ipv4Address.mk 1, (0 : UInt32)), (.mk 11, 1), (.mk 12, 1), (.mk 21, 2)]

def lineMaps : AddressMaps where
  nodeAddressMap := lineNumbers
  addressNodeMap := lineAddresses
  resolves {a k} h := by
    have hall : ∀ p ∈ lineAddresses.toList, p.2 ∈ lineNumbers := by decide +kernel
    exact hall (a, k) (Std.ExtTreeMap.mem_toList_iff_getElem?_eq_some.mpr h)

def lineCables : List ((UInt32 × LsSocket) × (UInt32 × LsSocket)) :=
  [((0, 0), (1, 0)), ((1, 0), (0, 0)), ((1, 1), (2, 0)), ((2, 0), (1, 1))]

def lineMain (u : UInt32) : Ipv4Address :=
  if u = 0 then .mk 1 else if u = 1 then .mk 11 else .mk 21

def lineSockets (u : UInt32) : Std.ExtTreeMap LsSocket Ipv4Address :=
  if u = 1 then .ofList [((0 : ℕ), Ipv4Address.mk 11), (1, .mk 12)]
  else .ofList [((0 : ℕ), lineMain u)]

theorem mem_lineCables {u : UInt32} {s : LsSocket} {q : UInt32 × LsSocket}
    (h : lineCables.lookup (u, s) = some q) : ((u, s), q) ∈ lineCables := by
  obtain ⟨l₁, l₂, hl, -⟩ := List.lookup_eq_some_iff.mp h
  rw [hl]
  simp

theorem forall_lineNodes {P : UInt32 → Prop} (h0 : P 0) (h1 : P 1) (h2 : P 2) :
    ∀ u ∈ ({0, 1, 2} : Finset UInt32), P u := by
  intro u hu
  simp only [Finset.mem_insert, Finset.mem_singleton] at hu
  rcases hu with rfl | rfl | rfl
  · exact h0
  · exact h1
  · exact h2

def line : Wiring where
  members := {0, 1, 2}
  maps := lineMaps
  mainAddress := lineMain
  socketAddresses := lineSockets
  peer u s := lineCables.lookup (u, s)
  number := forall_lineNodes (by decide +kernel) (by decide +kernel) (by decide +kernel)
  main_mem := forall_lineNodes ⟨0, by decide +kernel⟩ ⟨0, by decide +kernel⟩ ⟨0, by decide +kernel⟩
  main_ne := forall_lineNodes (by decide) (by decide) (by decide)
  peer_symm h := by
    have hall : ∀ p ∈ lineCables, lineCables.lookup p.2 = some p.1 := by decide +kernel
    exact hall _ (mem_lineCables h)
  peer_mem h := by
    have hall : ∀ p ∈ lineCables, p.1.1 ∈ ({0, 1, 2} : Finset UInt32) ∧
        p.1.2 ∈ lineSockets p.1.1 ∧ p.2.1 ≠ p.1.1 := by decide +kernel
    exact hall _ (mem_lineCables h)

/-- The links between the interfaces `ends` are up. -/
def lineLinks (ends : List (UInt32 × LsSocket))
    (h : ∀ p ∈ lineCables, (p.1 ∈ ends ↔ p.2 ∈ ends)) : Links line where
  up u s := decide ((u, s) ∈ ends)
  symm h' := decide_eq_decide.mpr (h _ (mem_lineCables h'))

/-- A round of timers, with a number of deliveries after each. -/
def lineRound (a b d : ℕ) : List LinkedEvent :=
  .router (.ndRequests 0) :: List.replicate a (.router (.deliver 0)) ++
    .router (.ndRequests 1) :: List.replicate b (.router (.deliver 0)) ++
    .router (.ndRequests 2) :: List.replicate d (.router (.deliver 0))

/-- A timer runs when nothing is in flight. -/
def calm (c : LinkedNet line) : LinkedEvent → Bool
  | .link _ _ _ => false
  | .router (.ndRequests _) => c.net.inFlight.isEmpty
  | .router (.deliver _) => true

theorem paced_of_calm {c : LinkedNet line} {e : LinkedEvent} (h : calm c e = true) : c.Paced e := by
  match e with
  | .link _ _ _ => cases h
  | .router (.ndRequests _) =>
      intro p hp
      rw [List.isEmpty_iff.mp h] at hp
      cases hp
  | .router (.deliver _) => trivial

def lineDown : LinkedNet line := .start line (lineLinks [] (by decide)) 16 1 fun _ => 7

def lineHalf : LinkedNet line :=
  .start line (lineLinks [(0, 0), (1, 0)] (by decide)) 16 1 fun _ => 7

theorem line_reachable {l : Links line} (hup : ∀ p ∈ lineCables, l.up p.1.1 p.1.2 = true) :
    l.graph.Reachable 2 0 := by
  have h21 : l.graph.Adj 2 1 := ⟨0, 1, rfl, hup ((2, 0), (1, 1)) (by decide)⟩
  have h10 : l.graph.Adj 1 0 := ⟨0, 0, rfl, hup ((1, 0), (0, 0)) (by decide)⟩
  exact h21.reachable.trans h10.reachable

def lineUp : List LinkedEvent := [.link 0 0 true, .link 1 1 true]

theorem lineDown_runs :
    ∃ c, execute step Allowed lineDown lineUp = some c ∧
      ∃ c', execute step (fun c e => c.Allowed e ∧ calm c e = true) c
          (lineRound 2 4 2 ++ lineRound 4 6 4) = some c' ∧
        (∀ p ∈ c'.net.inFlight, p.msg.2.lspRecord = none) ∧
        (∀ p ∈ lineCables, c'.links.up p.1.1 p.1.2 = true) ∧
        ∀ p ∈ lineCables, ([0, 1, 2] : List UInt32).any (fun y =>
          history step cameUp lineDown (fun _ _ _ => false)
            (lineUp ++ (lineRound 2 4 2 ++ lineRound 4 6 4)) y p.1.1 p.1.2) = false := by
  decide +kernel

/-- When no link has come up since the last floods, router 2 has heard of all. -/
theorem line_heard {c : LinkedNet line} {since : UInt32 → UInt32 → LsSocket → Bool}
    (hup : ∀ p ∈ lineCables, c.links.up p.1.1 p.1.2 = true)
    (hsince : ∀ p ∈ lineCables,
      ([0, 1, 2] : List UInt32).any (fun y => since y p.1.1 p.1.2) = false) :
    ∀ u ∈ line.members, c.Heard since u := by
  have hkept : ∀ v ∈ line.members, ∀ p ∈ lineCables, c.Kept since v p.1.1 p.2.1 := by
    intro v hv p hp
    have hpeer : lineCables.lookup p.1 = some p.2 := by
      have hall : ∀ p ∈ lineCables, lineCables.lookup p.1 = some p.2 := by decide
      exact hall p hp
    refine ⟨p.1.2, p.2.2, hpeer, hup p hp, ?_⟩
    have hnone := hsince p hp
    simp only [List.any_cons, List.any_nil, Bool.or_false, Bool.or_eq_false_iff] at hnone
    exact @forall_lineNodes (fun v => since v p.1.1 p.1.2 = false) hnone.1 hnone.2.1 hnone.2.2
      v hv
  intro u hu v ⟨walk⟩
  have hv := Links.mem_of_mem_support walk hu v walk.end_mem_support
  refine ⟨v, Or.inl rfl, ?_⟩
  have hlink : ∀ p ∈ lineCables, Relation.ReflTransGen (c.Kept since v) p.1.1 p.2.1 :=
    fun p hp => .single (hkept v hv p hp)
  have h01 := hlink ((0, 0), (1, 0)) (by decide)
  have h10 := hlink ((1, 0), (0, 0)) (by decide)
  have h12 := hlink ((1, 1), (2, 0)) (by decide)
  have h21 := hlink ((2, 0), (1, 1)) (by decide)
  refine @forall_lineNodes (fun v' => Relation.ReflTransGen (c.Kept since v) v' u) ?_ ?_ ?_ v hv
  · exact @forall_lineNodes (Relation.ReflTransGen (c.Kept since v) 0) .refl h01
      (h01.trans h12) u hu
  · exact @forall_lineNodes (Relation.ReflTransGen (c.Kept since v) 1) h10 .refl h12 u hu
  · exact @forall_lineNodes (Relation.ReflTransGen (c.Kept since v) 2) (h21.trans h10) h21
      .refl u hu

theorem link_state_convergence_sample :
    ∃ c c', Run step Allowed lineDown lineUp c ∧
      Run step (fun c e => c.Allowed e ∧ c.Paced e) c (lineRound 2 4 2 ++ lineRound 4 6 4) c' ∧
      ∃ entry, (c'.net.node 2).routeTable[(0 : UInt32)]? = some entry ∧
        entry.cost.toNat = c'.links.graph.dist 2 0 := by
  obtain ⟨c, hc, c', hc', hquiet, hup, hsince⟩ := lineDown_runs
  have last : Run step (fun c e => c.Allowed e ∧ c.Paced e) c (lineRound 2 4 2 ++ lineRound 4 6 4)
      c' := (Run.of_execute hc').mono fun _ _ h => ⟨h.1, paced_of_calm h.2⟩
  have hu : (2 : UInt32) ∈ line.members := by decide
  have rounds : ∀ u ∈ line.members, 2 ≤ (lineRound 2 4 2 ++ lineRound 4 6 4).count
      (.router (.ndRequests u)) := forall_lineNodes (by decide) (by decide) (by decide)
  refine ⟨c, c', .of_execute hc, last, ?_⟩
  exact (link_state_convergence (lineLinks [] (by decide)) 16 1 (fun _ => 7) (.of_execute hc) last
    rounds hquiet hu (by decide) (line_heard hup hsince 2 hu)).1 (line_reachable hup)

theorem lineHalf_runs :
    ∃ c, execute step Allowed lineHalf
        (lineRound 2 2 0 ++ lineRound 3 3 0 ++ [.link 1 1 true]) = some c ∧
      ∃ c', execute step (fun c e => c.Allowed e ∧ calm c e = true) c
          (lineRound 2 4 2 ++ lineRound 2 6 4) = some c' ∧
        (∀ p ∈ c'.net.inFlight, p.msg.2.lspRecord = none) ∧
        (∀ p ∈ lineCables, c'.links.up p.1.1 p.1.2 = true) ∧
        (c'.net.node 2).routeTable[(0 : UInt32)]? = none := by
  decide +kernel

/-- The link between 1 and 2 comes up after 0 and 1 have flooded, and 2 never hears of 0. -/
theorem healed_partition_stays_split :
    ∃ c c', Run step Allowed lineHalf
        (lineRound 2 2 0 ++ lineRound 3 3 0 ++ [.link 1 1 true]) c ∧
      Run step (fun c e => c.Allowed e ∧ c.Paced e) c (lineRound 2 4 2 ++ lineRound 2 6 4) c' ∧
      (∀ u ∈ line.members, 2 ≤ (lineRound 2 4 2 ++ lineRound 2 6 4).count
        (.router (.ndRequests u))) ∧
      c'.Quiet ∧ c'.links.graph.Reachable 2 0 ∧
      (c'.net.node 2).routeTable[(0 : UInt32)]? = none := by
  obtain ⟨c, hc, c', hc', hquiet, hup, hnone⟩ := lineHalf_runs
  exact ⟨c, c', .of_execute hc,
    (Run.of_execute hc').mono fun _ _ h => ⟨h.1, paced_of_calm h.2⟩,
    forall_lineNodes (by decide) (by decide) (by decide), hquiet, line_reachable hup, hnone⟩

end PennSearch
