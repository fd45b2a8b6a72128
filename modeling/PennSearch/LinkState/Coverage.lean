import PennSearch.LinkState.Knowledge

/-!
# Where the latest LSP of a router has got to

A router that has the latest LSP of `v` has passed it on over its links. So the other
end of a link that has not come up since `v` flooded (`cameUp`) has it too, or will
receive it (`Covered`).
-/

namespace PennSearch

open MessagePassing

theorem LsNode.knowsLsp_congr {n n' : LsNode}
    (h : n.lspSequenceNumberTable = n'.lspSequenceNumberTable) (a : Ipv4Address) (s : UInt64) :
    n.knowsLsp a s = n'.knowsLsp a s := by
  rw [knowsLsp, knowsLsp, h]

namespace LinkedNet

variable [CostQueue] {w : Wiring} {c c' : LinkedNet w} {e : LinkedEvent} {u v x y : UInt32}
  {s t : LsSocket} {n : LsNode} {sent : List (LsSocket × LSMessage)} {p : LsPacket UInt32}
  {M : Set LspRecord} {R : UInt32 → Set LspRecord}

/-- Whether the link at an interface has come up since the last LSP of a router. -/
def cameUp (c : LinkedNet w) (e : LinkedEvent) (since : UInt32 → UInt32 → LsSocket → Bool) :
    UInt32 → UInt32 → LsSocket → Bool :=
  match e with
  | .link u s b => fun v x a => since v x a || (!c.links.up x a && (c.links.set u s b).up x a)
  | .router (.ndRequests u) => fun v x a =>
      if v = u ∧ LsNode.floodingFlag (c.net.node u).neighborTable
        (c.net.node u).currentneighborTable = true then false
      else since v x a
  | .router (.deliver _) => since

/-- The node has the latest LSP of `v`, or is `v` itself. -/
def Has (c : LinkedNet w) (v x : UInt32) : Prop :=
  x = v ∨ (c.net.node x).knowsLsp (w.mainAddress v) (c.net.node v).lastSeq = true

def OnItsWay (c : LinkedNet w) (v x y : UInt32) : Prop :=
  ∃ p ∈ c.net.inFlight, p.src = x ∧ p.dst = y ∧ ∃ r, p.msg.2.lspRecord = some r ∧
    r.originatorAddress = w.mainAddress v ∧ r.sequenceNumber = (c.net.node v).lastSeq

/-- Over a link that has not come up since, the latest LSP of `v` has passed, or is on
its way. -/
def Covered (c : LinkedNet w) (since : UInt32 → UInt32 → LsSocket → Bool) : Prop :=
  ∀ v ∈ w.members, (c.net.node v).lspSequenceNumber ≠ 0 → ∀ x s y t, w.peer x s = some (y, t) →
    c.links.up x s = true → since v x s = false → c.Has v x → c.Has v y ∨ c.OnItsWay v x y

variable {since : UInt32 → UInt32 → LsSocket → Bool}

omit [CostQueue] in
theorem covered_start (links : Links w) (maxTTL singleHop : UInt8)
    (sequenceNumber : UInt32 → UInt32) :
    (start w links maxTTL singleHop sequenceNumber).Covered since := by
  intro v _ hne
  exact absurd rfl hne

omit [CostQueue] in
theorem Covered.link (h : c.Covered since) (u : UInt32) (s : LsSocket) (b : Bool) :
    ({ c with links := c.links.set u s b } : LinkedNet w).Covered
      (cameUp c (.link u s b) since) := by
  intro v hv hne x a y t hpeer hup hsince hx
  simp only [cameUp, Bool.or_eq_false_iff, Bool.and_eq_false_iff, Bool.not_eq_false'] at hsince
  obtain ⟨hsince, hold | hnew⟩ := hsince
  · exact h v hv hne x a y t hpeer hold hsince hx
  · rw [hup] at hnew
    cases hnew

omit [CostQueue] in
/-- Nothing is flooded or accepted: what was covered stays covered. -/
theorem Covered.keep (h : c.Covered since) (net : LsNet UInt32)
    (hseq : ∀ x, (net.node x).lspSequenceNumber = (c.net.node x).lspSequenceNumber)
    (htable : ∀ x, (net.node x).lspSequenceNumberTable = (c.net.node x).lspSequenceNumberTable)
    (hflight : ∀ p ∈ c.net.inFlight, p.msg.2.lspRecord ≠ none → p ∈ net.inFlight) :
    ({ c with net := net } : LinkedNet w).Covered since := by
  have hhas : ∀ v x, ({ c with net := net } : LinkedNet w).Has v x ↔ c.Has v x := by
    intro v x
    simp only [Has, LsNode.lastSeq, hseq, LsNode.knowsLsp_congr (htable x)]
  intro v hv hne x s y t hpeer hup hsince hx
  rcases h v hv (hseq v ▸ hne) x s y t hpeer hup hsince ((hhas v x).mp hx) with
    hy | ⟨p, hp, hsrc, hdst, r, hr, hkey, hlast⟩
  · exact Or.inl ((hhas v y).mpr hy)
  · refine Or.inr ⟨p, hflight p hp (by simp [hr]), hsrc, hdst, r, hr, hkey, ?_⟩
    simpa only [LsNode.lastSeq, hseq] using hlast

/-- `u` floods: only `u` has the new LSP, and it is on its way over all links of `u` that
are up. -/
theorem Covered.flood (h : c.Covered since) (hi : c.Informed M R) (hu : u ∈ w.members)
    (hturn : (c.net.node u).ndRequests = .ok (n, sent))
    (hflag : LsNode.floodingFlag (c.net.node u).neighborTable
      (c.net.node u).currentneighborTable = true) :
    ({ c with net := c.net.act u n (transmit c.links.ears u sent) } : LinkedNet w).Covered
      (cameUp c (.router (.ndRequests u)) since) := by
  obtain ⟨-, -, -, htable, -, request, -, -, hsent⟩ := LsNode.ndRequests_spec hturn
  obtain ⟨hflag', -⟩ | ⟨-, hseq, flood, hflood, hsent⟩ := hsent
  · rw [hflag] at hflag'
    cases hflag'
  have hknows : ∀ x a t, ((c.net.act u n (transmit c.links.ears u sent)).node x).knowsLsp a t =
      (c.net.node x).knowsLsp a t := fun x a t =>
    Net.act_node_congr (f := fun node : LsNode => node.knowsLsp a t)
      (LsNode.knowsLsp_congr htable a t) _ x
  intro v hv hne x s y t hpeer hup hsince hx
  by_cases hvu : v = u
  · subst hvu
    have hlast : n.lastSeq = (c.net.node v).lspSequenceNumber := by
      rw [LsNode.lastSeq, hseq]
      grind
    have hxv : x = v := by
      refine hx.resolve_right fun hx => ?_
      change ((c.net.act v n _).node x).knowsLsp _ ((c.net.act v n _).node v).lastSeq = true at hx
      rw [hknows, Net.act_node_self, hlast] at hx
      exact lt_irrefl _ (hi.knows_lt hv hx)
    subst hxv
    refine Or.inr ⟨⟨x, y, (t, flood)⟩, List.mem_append_right _ (mem_transmit_ears.mpr
      ⟨rfl, s, hpeer, hup,
        hsent ▸ List.mem_append_left _ (LsNode.mem_broadcastPacket.mpr ⟨?_, rfl⟩)⟩),
      rfl, rfl, _, hflood, hi.mainAddress_eq x, ?_⟩
    · rw [(hi.discovering.site x).2.2]
      exact (w.peer_mem hpeer).2.1
    · change _ = ((c.net.act x n _).node x).lastSeq
      rw [Net.act_node_self, hlast]
      rfl
  · have hnode : (c.net.act u n (transmit c.links.ears u sent)).node v = c.net.node v :=
      Net.act_node_of_ne _ _ _ hvu
    have hhas : ∀ x, ({ c with net := c.net.act u n (transmit c.links.ears u sent) } :
        LinkedNet w).Has v x ↔ c.Has v x := by
      intro x
      simp only [Has, hknows, hnode]
    simp only [cameUp, hvu, false_and, if_false] at hsince
    simp only [hnode] at hne
    rcases h v hv hne x s y t hpeer hup hsince ((hhas x).mp hx) with
      hy | ⟨p, hp, hsrc, hdst, r, hr, hkey, hlast⟩
    · exact Or.inl ((hhas y).mpr hy)
    · exact Or.inr ⟨p, List.mem_append_left _ hp, hsrc, hdst, r, hr, hkey, by simpa only [hnode]⟩

/-- A router accepts an LSP, and passes it on over all links but the one where it came. -/
theorem Covered.deliver (h : c.Covered since) (hi : c.Informed M R) {k : ℕ}
    (hp : c.net.inFlight[k]? = some p)
    (hrecv : (c.net.node p.dst).recvLSMessage p.msg.1 p.msg.2 = .ok (n, sent)) :
    ({ c with net := (c.net.take k).act p.dst n (transmit c.links.ears p.dst sent) } :
      LinkedNet w).Covered since := by
  have hmem := List.mem_of_getElem? hp
  obtain ⟨hseq, -, -, -, hcase⟩ := hi.recv hmem hrecv
  have hseq' : ∀ x, (((c.net.take k).act p.dst n
      (transmit c.links.ears p.dst sent)).node x).lspSequenceNumber =
        (c.net.node x).lspSequenceNumber :=
    Net.act_node_congr (c := c.net.take k) (f := LsNode.lspSequenceNumber) hseq _
  obtain ⟨hnone, -, htable⟩ | ⟨r, hr, hknows, hsent⟩ := hcase
  · refine h.keep _ hseq' (fun x => ?_) fun q hq hlsp =>
      List.mem_append_left _ (mem_eraseIdx_of_ne hp hq fun heq => hlsp (heq ▸ hnone))
    exact Net.act_node_congr (c := c.net.take k) (f := LsNode.lspSequenceNumberTable) htable _ x
  obtain ⟨hrM, hsource⟩ := hi.flight p hmem r hr
  have hhas : ∀ v x, LinkedNet.Has
      ⟨(c.net.take k).act p.dst n (transmit c.links.ears p.dst sent), c.links⟩ v x ↔
        c.Has v x ∨ (x = p.dst ∧ r.originatorAddress = w.mainAddress v ∧
          (c.net.node v).lastSeq ≤ r.sequenceNumber) := by
    intro v x
    simp only [Has, LsNode.lastSeq, hseq']
    rw [Net.act_node]
    split
    · rename_i hx
      rw [hknows, hx]
      tauto
    · rename_i hx
      simp only [hx, false_and, or_false]
      rfl
  intro v hv hne x s y t hpeer hup hsince hx
  simp only [hseq'] at hne
  have hlast : ∀ r', r' ∈ M → r'.originatorAddress = w.mainAddress v →
      (c.net.node v).lastSeq ≤ r'.sequenceNumber → r'.sequenceNumber = (c.net.node v).lastSeq := by
    intro r' hr' hkey hle
    obtain ⟨v', hv', hkey', hlt⟩ := hi.originated r' hr'
    obtain rfl := w.main_inj hv hv' (hkey.symm.trans hkey')
    have hpred := LsNode.toNat_lastSeq hne
    have hle' := UInt64.le_iff_toNat_le.mp hle
    exact UInt64.toNat_inj.mp (by omega)
  by_cases hold : c.Has v x
  · rcases h v hv hne x s y t hpeer hup hsince hold with
      hy | ⟨q, hq, hsrc, hdst, r', hr', hkey, hseq₁⟩
    · exact Or.inl ((hhas v y).mpr (Or.inl hy))
    · by_cases hqp : q = p
      · -- the packet that was on its way has arrived
        subst hqp
        obtain rfl := Option.some.inj (hr.symm.trans hr')
        exact Or.inl ((hhas v y).mpr (Or.inr ⟨hdst.symm, hkey, hseq₁ ▸ UInt64.le_refl _⟩))
      · refine Or.inr ⟨q, List.mem_append_left _ (mem_eraseIdx_of_ne hp hq hqp), hsrc, hdst,
            r', hr',
          hkey, ?_⟩
        simp only [LsNode.lastSeq, hseq']
        exact hseq₁
  · obtain ⟨rfl, hkey, hle⟩ := ((hhas v x).mp hx).resolve_left hold
    have hr_last := hlast r hrM hkey hle
    have hnot : (c.net.node p.dst).knowsLsp r.originatorAddress r.sequenceNumber ≠ true := by
      intro hknown
      exact hold (Or.inr (hkey ▸ hr_last ▸ hknown))
    have hforward := hsent.resolve_left fun hsent => hnot hsent.1
    by_cases hsocket : s = p.msg.1
    · -- the link on which it came
      obtain ⟨t', hback⟩ := hi.discovering.wired p hmem
      rw [← hsocket, hpeer] at hback
      obtain ⟨rfl, -⟩ := Prod.mk.inj (Option.some.inj hback)
      refine Or.inl ((hhas v _).mpr (Or.inl ?_))
      rcases hsource with hmain | hknown
      · exact Or.inl (w.main_inj (w.peer_mem_right hpeer).1 hv (hmain.symm.trans hkey))
      · exact Or.inr (hkey ▸ hr_last ▸ hknown)
    · refine Or.inr ⟨⟨p.dst, y, (t, p.msg.2.forwarded)⟩, List.mem_append_right _
        (mem_transmit_ears.mpr ⟨rfl, s, hpeer, hup, hforward ▸
          LsNode.mem_forwardPacket.mpr ⟨?_, hsocket, rfl⟩⟩), rfl, rfl, r,
          (LSMessage.lspRecord_forwarded _).trans hr, hkey, ?_⟩
      · rw [(hi.discovering.site p.dst).2.2]
        exact (w.peer_mem hpeer).2.1
      · simp only [LsNode.lastSeq, hseq']
        exact hr_last

theorem Covered.step (h : c.Covered since) (hi : c.Informed M R) (hok : c.Allowed e)
    (hstep : c.step e = .ok c') : c'.Covered (cameUp c e since) := by
  rcases step_cases hok hstep with ⟨u, s, b, rfl, rfl⟩ |
    ⟨u, n, sent, rfl, hu, -, hturn, rfl⟩ | ⟨k, p, n, sent, rfl, hp, hrecv, rfl⟩
  · exact h.link u s b
  · cases hflag : LsNode.floodingFlag (c.net.node u).neighborTable
        (c.net.node u).currentneighborTable with
    | true => exact h.flood hi hu hturn hflag
    | false =>
        have hsince : cameUp c (.router (.ndRequests u)) since = since := by
          funext v x a
          simp [cameUp, hflag]
        obtain ⟨-, -, -, htable, -, request, -, -, hsent⟩ := LsNode.ndRequests_spec hturn
        have hseq : n.lspSequenceNumber = (c.net.node u).lspSequenceNumber := by
          rcases hsent with ⟨-, hseq, -⟩ | ⟨hflag', -⟩
          · exact hseq
          · rw [hflag] at hflag'
            cases hflag'
        rw [hsince]
        refine h.keep _ (fun x => ?_) (fun x => ?_) fun q hq _ => List.mem_append_left _ hq
        · exact Net.act_node_congr (f := LsNode.lspSequenceNumber) hseq _ x
        · exact Net.act_node_congr (f := LsNode.lspSequenceNumberTable) htable _ x
  · exact h.deliver hi hp hrecv

end LinkedNet

end PennSearch
