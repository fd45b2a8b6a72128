import Mathlib.Data.List.Forall2
import PennSearch.LinkState.Convergence

/-!
# The TTL of LSPs

`ProcessLsp` forwards an LSP with its TTL less one, in 8 bits and without a test. A
`Trail` follows each copy in flight: the router that flooded its LSP, and the number
of links that it has been sent over. As long as no LSP with TTL 0 is forwarded, TTL
and links of a copy add up to one more than `m_maxTTL` of that router
(`Metered`), and so the TTL does what it is for in exactly those runs
(`lsps_respect_ttl_iff`). The links may change from event to event.
-/

namespace PennSearch

open MessagePassing

/-! ## One router -/

theorem LSMessage.ttl_forwarded {m : LSMessage} (h : m.lspRecord ≠ none) :
    m.forwarded.ttl = m.ttl - 1 := by
  obtain ⟨r, hr⟩ := Option.ne_none_iff_exists'.mp h
  obtain ⟨lsp, hp, -⟩ := LSMessage.lspRecord_eq_some.mp hr
  rw [LSMessage.forwarded, hp]

theorem LSMessage.toNat_ttl_forwarded {m : LSMessage} (h : m.lspRecord ≠ none)
    (hpos : m.ttl ≠ 0) : m.forwarded.ttl.toNat + 1 = m.ttl.toNat := by
  have hne : m.ttl.toNat ≠ 0 := fun h0 => hpos (UInt8.toNat_inj.mp h0)
  have hone : (1 : UInt8) ≤ m.ttl := by
    rw [UInt8.le_iff_toNat_le, UInt8.toNat_one]
    omega
  rw [LSMessage.ttl_forwarded h, UInt8.toNat_sub_of_le _ _ hone, UInt8.toNat_one]
  omega

variable [CostQueue]

namespace LsNode

variable {n n' : LsNode} {m : LSMessage} {s s' : LsSocket} {sent : List (LsSocket × LSMessage)}

theorem ndRequests_ttl (h : n.ndRequests = .ok (n', sent)) :
    n'.maxTTL = n.maxTTL ∧ ∀ p ∈ sent, p.2.lspRecord ≠ none → p.2.ttl = n.maxTTL := by
  have hdiscovery : ∀ (t : LsNode), ∀ p ∈ t.neighborDiscovery.2, p.2.lspRecord = none := by
    rintro t ⟨s, m⟩ hp
    obtain ⟨-, rfl⟩ := mem_broadcastPacket.mp hp
    rfl
  cases hflag : floodingFlag n.neighborTable n.currentneighborTable with
  | false =>
      rw [ndRequests_of_not_flag hflag] at h
      cases h
      exact ⟨rfl, fun p hp hlsp => absurd (hdiscovery _ p hp) hlsp⟩
  | true =>
      obtain ⟨table, -, rfl, rfl⟩ := (ndRequests_of_flag hflag).mp h
      refine ⟨rfl, ?_⟩
      rintro ⟨s, m⟩ hp hlsp
      rcases List.mem_append.mp hp with hp | hp
      · obtain ⟨-, rfl⟩ := mem_broadcastPacket.mp hp
        rfl
      · exact absurd (hdiscovery _ _ hp) hlsp

theorem recv_maxTTL (h : n.recvLSMessage s m = .ok (n', sent)) : n'.maxTTL = n.maxTTL := by
  rcases recvLSMessage_cases h with ⟨lsp, -, h⟩ | ⟨-, -, ⟨tracker, rfl⟩ | ⟨k, entry, -, rfl⟩⟩
  · cases hknows : n.knowsLsp m.originatorAddress lsp.sequenceNumber with
    | true =>
        rw [processLsp_of_knows hknows] at h
        cases h
        rfl
    | false =>
        obtain ⟨k, details, table, -, -, -, rfl, -⟩ := (processLsp_of_not_knows hknows).mp h
        rfl
  · rfl
  · rfl

/-- The LSPs that a router sends on a message are copies of the one that it received,
if that was new, and go out on its other sockets. -/
theorem forwarded_of_recv {q : LSMessage} (h : n.recvLSMessage s m = .ok (n', sent))
    (hq : (s', q) ∈ sent) (hlsp : q.lspRecord ≠ none) :
    ∃ r, m.lspRecord = some r ∧ n.knowsLsp r.originatorAddress r.sequenceNumber = false ∧
      s' ∈ n.socketAddresses ∧ s' ≠ s ∧ q = m.forwarded := by
  cases hm : m.lspRecord with
  | none => exact absurd (lspRecord_of_recv h hm _ hq) hlsp
  | some r =>
      refine ⟨r, rfl, ?_⟩
      cases hknows : n.knowsLsp r.originatorAddress r.sequenceNumber with
      | true =>
          rw [recv_lsp_of_knows hm hknows] at h
          cases h
          cases hq
      | false =>
          obtain ⟨k, details, table, -, -, -, -, rfl⟩ := (recv_lsp_of_not_knows hm hknows).mp h
          obtain ⟨hs, hne, rfl⟩ := mem_forwardPacket.mp hq
          exact ⟨rfl, hs, hne, rfl⟩

end LsNode

/-! ## Trails -/

/-- The router that flooded an LSP, and the links that a copy has been sent over. -/
structure Trail (ι : Type) where
  origin : ι
  links : ℕ
deriving DecidableEq

variable {ι : Type} [DecidableEq ι]

namespace LsNet

def stepOn (c : LsNet ι) (e : Ears ι × LsNetEvent ι) : Except LsFault (LsNet ι) := step e.1 c e.2

/-- The trails of the packets in flight after an event: a copy that is forwarded goes
on with the trail of the one received, and every other message starts a new one. -/
def follow (c : LsNet ι) (e : Ears ι × LsNetEvent ι) (trails : List (Trail ι)) :
    List (Trail ι) :=
  match e.2 with
  | .ndRequests u =>
      match (c.node u).ndRequests with
      | .error _ => trails
      | .ok r => trails ++ (transmit e.1 u r.2).map fun _ => ⟨u, 1⟩
  | .deliver k =>
      match c.inFlight[k]?, trails[k]? with
      | some p, some trail =>
          match (c.node p.dst).recvLSMessage p.msg.1 p.msg.2 with
          | .error _ => trails
          | .ok r => trails.eraseIdx k ++ (transmit e.1 p.dst r.2).map fun q =>
              if q.msg.2.lspRecord = none then ⟨p.dst, 1⟩ else ⟨trail.origin, trail.links + 1⟩
      | _, _ => trails

def trails (c : LsNet ι) (es : List (Ears ι × LsNetEvent ι)) : List (Trail ι) :=
  history stepOn follow c [] es

/-- What a router sends on an LSP has a smaller TTL, and an LSP with TTL 0 goes no further. -/
def ForwardsLess (c : LsNet ι) (e : Ears ι × LsNetEvent ι) : Prop :=
  ∀ k p n' sent, e.2 = .deliver k → c.inFlight[k]? = some p → p.msg.2.lspRecord ≠ none →
    (c.node p.dst).recvLSMessage p.msg.1 p.msg.2 = .ok (n', sent) →
    (∀ q ∈ sent, q.2.ttl < p.msg.2.ttl) ∧ (p.msg.2.ttl = 0 → sent = [])

/-- No copy of an LSP in flight goes over more links than the TTL allows. -/
def WithinTtl (c : LsNet ι) (trails : List (Trail ι)) : Prop :=
  List.Forall₂ (fun p trail => p.msg.2.lspRecord ≠ none →
    trail.links ≤ (c.node trail.origin).maxTTL.toNat + 1) c.inFlight trails

/-- An LSP with TTL 0 arrives that is new to the router, and the router has another
socket to forward it on. -/
def ForwardsExpired (c : LsNet ι) (e : Ears ι × LsNetEvent ι) : Prop :=
  ∃ k p r, e.2 = .deliver k ∧ c.inFlight[k]? = some p ∧ p.msg.2.lspRecord = some r ∧
    p.msg.2.ttl = 0 ∧
    (c.node p.dst).knowsLsp r.originatorAddress r.sequenceNumber = false ∧
    ∃ s ∈ (c.node p.dst).socketAddresses, s ≠ p.msg.1

/-- The TTL of a copy is what its links leave of `m_maxTTL` at its origin. -/
def Metered (c : LsNet ι) (trails : List (Trail ι)) : Prop :=
  List.Forall₂ (fun p trail => p.msg.2.lspRecord ≠ none →
    p.msg.2.ttl.toNat + trail.links = (c.node trail.origin).maxTTL.toNat + 1) c.inFlight trails

variable {c c' : LsNet ι} {e : Ears ι × LsNetEvent ι} {k : ℕ} {p : LsPacket ι} {n' : LsNode}
  {sent : List (LsSocket × LSMessage)} {trails : List (Trail ι)}

omit [CostQueue] [DecidableEq ι] in
theorem Metered.withinTtl (h : c.Metered trails) : c.WithinTtl trails := by
  refine List.Forall₂.imp (fun p trail hp hlsp => ?_) h
  have heq := hp hlsp
  omega

omit [DecidableEq ι] in
theorem ttl_pos_of_forwarded (hexp : ¬ c.ForwardsExpired e) (he : e.2 = .deliver k)
    (hp : c.inFlight[k]? = some p)
    (hrecv : (c.node p.dst).recvLSMessage p.msg.1 p.msg.2 = .ok (n', sent)) {s : LsSocket}
    {q : LSMessage} (hq : (s, q) ∈ sent) (hlsp : q.lspRecord ≠ none) :
    p.msg.2.lspRecord ≠ none ∧ q = p.msg.2.forwarded ∧ p.msg.2.ttl ≠ 0 := by
  obtain ⟨r, hr, hknows, hs, hne, rfl⟩ := LsNode.forwarded_of_recv hrecv hq hlsp
  refine ⟨by simp [hr], rfl, fun hzero => ?_⟩
  exact hexp ⟨k, p, r, he, hp, hr, hzero, hknows, s, hs, hne⟩

/-- The TTL goes down in a step exactly unless an expired LSP is forwarded. -/
theorem forwardsLess_iff (hstep : c.stepOn e = .ok c') :
    c.ForwardsLess e ↔ ¬ c.ForwardsExpired e := by
  constructor
  · rintro hless ⟨k, p, r, he, hp, hr, hzero, hknows, s, hs, hne⟩
    obtain ⟨ears, e⟩ := e
    obtain rfl : e = .deliver k := he
    simp only [stepOn, step, hp, bind_eq_ok] at hstep
    obtain ⟨⟨n', sent⟩, hrecv, -⟩ := hstep
    obtain ⟨hsmaller, -⟩ := hless k p n' sent rfl hp (by simp [hr]) hrecv
    obtain ⟨_, _, _, -, -, -, -, rfl⟩ := (LsNode.recv_lsp_of_not_knows hr hknows).mp hrecv
    have hlt := hsmaller (s, _) (LsNode.mem_forwardPacket.mpr ⟨hs, hne, rfl⟩)
    rw [hzero] at hlt
    exact UInt8.not_lt_zero hlt
  · intro hexp k p n' sent he hp hlsp hrecv
    obtain ⟨r, hr⟩ := Option.ne_none_iff_exists'.mp hlsp
    have hcopy : ∀ q ∈ sent, q.2 = p.msg.2.forwarded ∧ p.msg.2.ttl ≠ 0 := by
      rintro ⟨s, q⟩ hq
      have hrecord : q.lspRecord = some r := (LsNode.recv_lsp hr hrecv).2.2.2.2 _ hq
      exact (ttl_pos_of_forwarded hexp he hp hrecv hq (by simp [hrecord])).2
    constructor
    · intro q hq
      obtain ⟨heq, hpos⟩ := hcopy q hq
      have hnat := LSMessage.toNat_ttl_forwarded hlsp hpos
      rw [heq, UInt8.lt_iff_toNat_lt]
      omega
    · intro hzero
      refine List.eq_nil_iff_forall_not_mem.mpr fun q hq => ?_
      exact (hcopy q hq).2 hzero

omit [CostQueue] in
/-- What is sent in a step of a router whose `m_maxTTL` stays goes on behind what is
in flight. -/
theorem Metered.act {u : ι} {n' : LsNode} {sent : List (LsPacket ι)} {f : LsPacket ι → Trail ι}
    (h : c.Metered trails) (hmax : n'.maxTTL = (c.node u).maxTTL)
    (hsent : ∀ q ∈ sent, q.msg.2.lspRecord ≠ none →
      q.msg.2.ttl.toNat + (f q).links = (c.node (f q).origin).maxTTL.toNat + 1) :
    Metered (c.act u n' sent) (trails ++ sent.map f) := by
  have hall : ∀ v, ((c.act u n' sent).node v).maxTTL = (c.node v).maxTTL :=
    Net.act_node_congr (f := LsNode.maxTTL) hmax sent
  refine List.rel_append ?_ ?_
  · refine List.Forall₂.imp (fun p trail hp hlsp => ?_) h
    rw [hall]
    exact hp hlsp
  · rw [List.forall₂_map_right_iff, List.forall₂_same]
    intro q hq hlsp
    rw [hall]
    exact hsent q hq hlsp

omit [CostQueue] [DecidableEq ι] in
theorem Metered.take (h : c.Metered trails) (k : ℕ) :
    Metered (c.take k) (trails.eraseIdx k) := by
  rw [Metered, Net.take_inFlight, List.eraseIdx_eq_take_drop_succ,
    List.eraseIdx_eq_take_drop_succ]
  exact List.rel_append (List.forall₂_take k h) (List.forall₂_drop (k + 1) h)

omit [CostQueue] [DecidableEq ι] in
theorem Metered.exists_trail (h : c.Metered trails) (hp : c.inFlight[k]? = some p) :
    ∃ trail, trails[k]? = some trail ∧ (p.msg.2.lspRecord ≠ none →
      p.msg.2.ttl.toNat + trail.links = (c.node trail.origin).maxTTL.toNat + 1) := by
  obtain ⟨hlen, hall⟩ := List.forall₂_iff_zip.mp h
  have hk : k < trails.length := hlen ▸ (List.getElem?_eq_some_iff.mp hp).1
  have htrail : trails[k]? = some trails[k] := List.getElem?_eq_getElem hk
  refine ⟨trails[k], htrail, hall ?_⟩
  exact List.mem_of_getElem? (List.getElem?_zip_eq_some.mpr ⟨hp, htrail⟩)

/-- One event, unless it forwards an expired LSP. -/
theorem Metered.step (h : c.Metered trails) (hexp : ¬ c.ForwardsExpired e)
    (hstep : c.stepOn e = .ok c') : c'.Metered (c.follow e trails) := by
  obtain ⟨ears, e⟩ := e
  cases e with
  | ndRequests u =>
      simp only [stepOn, LsNet.step, bind_eq_ok] at hstep
      obtain ⟨⟨n', sent⟩, hturn, hc⟩ := hstep
      obtain rfl := Except.ok.inj hc
      obtain ⟨hmax, hfull⟩ := LsNode.ndRequests_ttl hturn
      simp only [follow, hturn]
      refine h.act hmax fun q hq hlsp => ?_
      obtain ⟨-, socket, -, hsent⟩ := mem_transmit.mp hq
      rw [hfull _ hsent hlsp]
  | deliver k =>
      cases hp : c.inFlight[k]? with
      | none =>
          simp only [stepOn, LsNet.step, hp] at hstep
          obtain rfl := Except.ok.inj hstep
          simpa only [follow, hp] using h
      | some p =>
          simp only [stepOn, LsNet.step, hp, bind_eq_ok] at hstep
          obtain ⟨⟨n', sent⟩, hrecv, hc⟩ := hstep
          obtain rfl := Except.ok.inj hc
          obtain ⟨trail, htrail, hmeter⟩ := h.exists_trail hp
          simp only [follow, hp, htrail, hrecv]
          refine (h.take k).act (LsNode.recv_maxTTL hrecv) fun q hq hlsp => ?_
          obtain ⟨-, socket, -, hsent⟩ := mem_transmit.mp hq
          obtain ⟨hlsp', heq, hpos⟩ := ttl_pos_of_forwarded hexp rfl hp hrecv hsent hlsp
          have hone := LSMessage.toNat_ttl_forwarded hlsp' hpos
          have hsum := hmeter hlsp'
          rw [if_neg hlsp, heq, Net.take_node]
          change p.msg.2.forwarded.ttl.toNat + (trail.links + 1) =
            (c.node trail.origin).maxTTL.toNat + 1
          omega

end LsNet

open LsNet

/-- From a start with nothing in flight, the TTL of forwarded copies goes down, an LSP
with TTL 0 is not forwarded, and no copy goes over more than `m_maxTTL` + 1 links,
throughout exactly in the runs that forward no LSP with TTL 0. -/
theorem lsps_respect_ttl_iff (node : ι → LsNode) {es : List (Ears ι × LsNetEvent ι)} {c : LsNet ι}
    (run : Run stepOn (fun _ _ => True) ⟨node, []⟩ es c) :
    ((∀ pre e t u, pre ++ [e] <+: es → Run stepOn (fun _ _ => True) ⟨node, []⟩ pre t →
        t.stepOn e = .ok u → t.ForwardsLess e) ∧
      ∀ pre t, pre <+: es → Run stepOn (fun _ _ => True) ⟨node, []⟩ pre t →
        t.WithinTtl (trails ⟨node, []⟩ pre)) ↔
    Run stepOn (fun t e => ¬ t.ForwardsExpired e) ⟨node, []⟩ es c := by
  constructor
  · rintro ⟨hless, -⟩
    refine (run.forall_steps_iff.mp fun pre e t u hpre ht hstep => ?_).mono fun _ _ hok => hok.2
    exact (forwardsLess_iff hstep).mp (hless pre e t u hpre ht hstep)
  · intro hrun
    have hgood := run.forall_steps_iff.mpr (hrun.mono fun _ _ hexp => ⟨trivial, hexp⟩)
    refine ⟨fun pre e t u hpre ht hstep => ?_, fun pre t hpre ht => ?_⟩
    · exact (forwardsLess_iff hstep).mpr (hgood pre e t u hpre ht hstep)
    · have hpre' := ht.forall_steps_iff.mp fun pre' e t u hpre' ht hstep =>
        hgood pre' e t u (hpre'.trans hpre) ht hstep
      refine Metered.withinTtl (hpre'.history_invariant (I := Metered) .nil ?_)
      exact fun t trails e u hmetered hok hstep => hmetered.step hok.2 hstep

end PennSearch

namespace PennSearch

open MessagePassing LsNet

attribute [local instance] CostQueue.ofList

/-- The routers of the line, with LSPs meant for their neighbours only. -/
def shortLine : LsNet UInt32 := ⟨fun u => .start lineMaps (lineMain u) (lineSockets u) 0 1 7, []⟩

def lineEars : Ears UInt32 :=
  (lineLinks [(0, 0), (1, 0), (1, 1), (2, 0)] (by decide)).ears

def shortFlood : List (Ears UInt32 × LsNetEvent UInt32) :=
  [(lineEars, .ndRequests 0), (lineEars, .deliver 0), (lineEars, .deliver 0),
    (lineEars, .ndRequests 0)]

def shortArrival : Ears UInt32 × LsNetEvent UInt32 := (lineEars, .deliver 0)

theorem shortFlood_runs :
    ∃ t, execute stepOn (fun _ _ => True) shortLine shortFlood = some t ∧
      (∃ p, t.inFlight[0]? = some p ∧ p.dst = 1 ∧ p.msg.1 = 0 ∧ p.msg.2.ttl = 0 ∧
        ∃ r, p.msg.2.lspRecord = some r ∧
          (t.node 1).knowsLsp r.originatorAddress r.sequenceNumber = false ∧
          1 ∈ (t.node 1).socketAddresses) ∧
      ∃ c, (t.stepOn shortArrival).toOption = some c ∧
        ∃ q, (c.inFlight.zip (trails shortLine (shortFlood ++ [shortArrival])))[1]? = some q ∧
          q.1.dst = 2 ∧ q.1.msg.2.ttl = 255 ∧ q.1.msg.2.lspRecord ≠ none ∧
          q.2 = ⟨0, 2⟩ ∧ (c.node 0).maxTTL = 0 := by
  decide +kernel

/-- With `m_maxTTL` 0, the neighbour sends the LSP on with TTL 255, over a second link. -/
theorem expired_lsp_is_forwarded :
    ∃ t c, Run stepOn (fun _ _ => True) shortLine shortFlood t ∧ t.stepOn shortArrival = .ok c ∧
      ¬ t.ForwardsLess shortArrival ∧
      ¬ c.WithinTtl (trails shortLine (shortFlood ++ [shortArrival])) := by
  obtain ⟨t, ht, ⟨p, hp, hdst, hsocket, hzero, r, hr, hknows, hother⟩, c, hc, q, hq, -, -, hlsp,
    htrail, hmax⟩ := shortFlood_runs
  have hstep : t.stepOn shortArrival = .ok c := eq_ok_of_toOption hc
  refine ⟨t, c, .of_execute ht, hstep, fun hless => ?_, fun hwithin => ?_⟩
  · refine (forwardsLess_iff hstep).mp hless ⟨0, p, r, rfl, hp, hr, hzero, ?_, 1, ?_, ?_⟩
    · rw [hdst]
      exact hknows
    · rw [hdst]
      exact hother
    · rw [hsocket]
      decide
  · obtain ⟨-, hall⟩ := List.forall₂_iff_zip.mp hwithin
    have hle := hall (List.mem_of_getElem? hq) hlsp
    rw [htrail, hmax] at hle
    exact absurd hle (by decide)

def longLine : LsNet UInt32 := ⟨fun u => .start lineMaps (lineMain u) (lineSockets u) 16 1 7, []⟩

/-- The neighbour sends the LSP on, with TTL 15. -/
theorem lsps_respect_ttl_iff_shortFlood :
    ∃ t, Run stepOn (fun _ _ => True) longLine (shortFlood ++ [shortArrival]) t ∧
      (∃ p ∈ t.inFlight, p.src = 1 ∧ p.dst = 2 ∧ p.msg.2.ttl = 15 ∧ p.msg.2.lspRecord ≠ none) ∧
      (((∀ pre e u v, pre ++ [e] <+: shortFlood ++ [shortArrival] →
          Run stepOn (fun _ _ => True) longLine pre u → u.stepOn e = .ok v → u.ForwardsLess e) ∧
        ∀ pre u, pre <+: shortFlood ++ [shortArrival] →
          Run stepOn (fun _ _ => True) longLine pre u → u.WithinTtl (trails longLine pre)) ↔
      Run stepOn (fun u e => ¬ u.ForwardsExpired e) longLine (shortFlood ++ [shortArrival]) t) := by
  have hrun : ∃ t, execute stepOn (fun _ _ => True) longLine (shortFlood ++ [shortArrival]) =
      some t ∧ ∃ p ∈ t.inFlight, p.src = 1 ∧ p.dst = 2 ∧ p.msg.2.ttl = 15 ∧
        p.msg.2.lspRecord ≠ none := by
    decide +kernel
  obtain ⟨t, ht, hforwarded⟩ := hrun
  exact ⟨t, .of_execute ht, hforwarded, lsps_respect_ttl_iff _ (.of_execute ht)⟩

end PennSearch
