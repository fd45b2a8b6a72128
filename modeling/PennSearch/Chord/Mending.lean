import PennSearch.Chord.Leave

/-!
# Stabilization during a leave

While the messages of a leave are on their way, members may stabilize. A pointer
that is not right yet names the node that has left, and so does an answer that is
not about its receiver. As long as no member takes the node named by such an answer as
its successor again, `Mending` holds until the ring without the node is stable.
-/

namespace PennSearch

open Clockwise MessagePassing

theorem Repaired.of_right {right : Ipv4Address → Prop} {pointer : Ipv4Address}
    (h : right pointer) : Repaired right [] pointer := Or.inl ⟨rfl, h⟩

theorem Repaired.of_pending_nil {right : Ipv4Address → Prop} {pointer : Ipv4Address}
    (h : Repaired right [] pointer) : right pointer := by
  rcases h with ⟨-, hright⟩ | ⟨v, hv, -⟩
  · exact hright
  · cases hv

theorem Repaired.take_or {f : RingMessage → Option Ipv4Address} {right : Ipv4Address → Prop}
    {R : Finset Ipv4Address} {l : List RingPacket} {k : ℕ} {p : RingPacket}
    {a pointer : Ipv4Address}
    (h : Repaired right (pending f l a) pointer) (hp : l[k]? = some p)
    (hor : right pointer ∨ pointer ∉ R) :
    right (if p.dst = a then (f p.msg).getD pointer else pointer) ∨
      (if p.dst = a then (f p.msg).getD pointer else pointer) ∉ R := by
  split
  · rename_i hdst
    cases hf : f p.msg with
    | none => exact hor
    | some v =>
        have hmem : v ∈ pending f l a := mem_pending.mpr ⟨p, mem_of_getElem? hp, hdst, hf⟩
        rcases h with ⟨hnil, -⟩ | ⟨w, hw, hright⟩
        · rw [hnil] at hmem
          cases hmem
        · rw [hw, List.mem_singleton] at hmem
          exact Or.inl (hmem ▸ hright)
  · exact hor

variable [Sha1] {R : Finset Ipv4Address} {s s' : RingNet} {e : RingEvent}
  {F : Ipv4Address → Ipv4Address → Prop}

inductive MendingPacket (R : Finset Ipv4Address) : RingPacket → Prop
  | leave {src dst v : Ipv4Address} {msg : RingMessage} (dst_mem : dst ∈ R)
      (leaves : msg = .leaveSuccessor v ∨ msg = .leavePredecessor v) :
      MendingPacket R ⟨src, dst, msg⟩
  | stabilizeReq {src dst : Ipv4Address} (src_mem : src ∈ R) (ne : dst ≠ src)
      (next : IsNext nodePos R src dst ∨ dst ∉ R) : MendingPacket R ⟨src, dst, .stabilizeReq⟩
  | stabilizeResp {src dst v : Ipv4Address} (dst_mem : dst ∈ R) (names : v = dst ∨ v ∉ R) :
      MendingPacket R ⟨src, dst, .stabilizeResp v⟩

/-- The ring `R` is being repaired after a leave. A pointer is right, or one
message in flight will set it right and until then it names nobody in `R`. -/
structure Mending (R : Finset Ipv4Address) (s : RingNet) : Prop where
  getAny_notMem : .getAny ∉ R
  member : ∀ a ∈ R, (s.node a).member = true
  outside : ∀ a ∉ R, s.node a = .outside
  traffic : ∀ p ∈ s.inFlight, MendingPacket R p
  successor : ∀ a ∈ R, Repaired (IsNext nodePos R a)
    (pending RingMessage.newSuccessor s.inFlight a) (s.node a).successor
  predecessor : ∀ a ∈ R, Repaired (fun v => IsPredecessor R v a)
    (pending RingMessage.newPredecessor s.inFlight a) (s.node a).predecessor
  successor_or : ∀ a ∈ R, IsNext nodePos R a (s.node a).successor ∨ (s.node a).successor ∉ R
  predecessor_or : ∀ a ∈ R,
    IsPredecessor R (s.node a).predecessor a ∨ (s.node a).predecessor ∉ R

namespace Mending

theorem mem_iff (h : Mending R s) (a : Ipv4Address) : (s.node a).member = true ↔ a ∈ R := by
  by_cases ha : a ∈ R
  · simp [h.member a ha, ha]
  · simp [h.outside a ha, ha, Pointers.outside]

theorem stableAt (h : Mending R s) (hquiet : s.inFlight = []) : s.StableAt R where
  getAny_notMem := h.getAny_notMem
  member := h.mem_iff
  successor a ha := by
    have hrepaired := h.successor a ha
    rw [hquiet] at hrepaired
    exact hrepaired.of_pending_nil
  predecessor a ha := by
    have hrepaired := h.predecessor a ha
    rw [hquiet] at hrepaired
    exact hrepaired.of_pending_nil

end Mending

theorem RingNet.StableAt.mending (h : s.StableAt R) (hquiet : s.inFlight = [])
    (houtside : ∀ a ∉ R, s.node a = .outside) : Mending R s where
  getAny_notMem := h.getAny_notMem
  member a ha := (h.member a).mpr ha
  outside := houtside
  traffic p hp := by simp [hquiet] at hp
  successor a ha := by
    rw [hquiet]
    exact .of_right (h.successor a ha)
  predecessor a ha := by
    rw [hquiet]
    exact .of_right (h.predecessor a ha)
  successor_or a ha := Or.inl (h.successor a ha)
  predecessor_or a ha := Or.inl (h.predecessor a ha)

theorem RingNet.StableAt.mending_leave (hinj : Set.InjOn nodePos (R : Set Ipv4Address))
    (h : s.StableAt R) (hquiet : s.inFlight = []) (houtside : ∀ a ∉ R, s.node a = .outside)
    {x : Ipv4Address} (hx : x ∈ R) (hne : (s.node x).successor ≠ x)
    (hstep : RingStep F s (.leave x) s') : Mending (R.erase x) s' := by
  have hallowed : s.LeaveAllowed (.leave x) := by
    intro _ p hp
    rw [hquiet] at hp
    cases hp
  have hleaving : Leaving (R.erase x) s' := (h.leaving hquiet).step hinj hallowed hstep
  have hnode : ∀ a, s'.node a = if a = x then .outside else s.node a := by
    intro a
    obtain ⟨b, q, out, hturn, rfl⟩ := hstep
    cases hturn with
    | leaveIgnored outside => simp [(h.member x).mpr hx] at outside
    | leaveAlone member alone => exact absurd alone hne
    | leave member several => exact Net.act_node ..
  have hother : ∀ {a}, a ∈ R.erase x → a ∈ R ∧ a ≠ x ∧ s'.node a = s.node a := by
    intro a ha
    obtain ⟨hax, haR⟩ := Finset.mem_erase.mp ha
    exact ⟨haR, hax, by rw [hnode, if_neg hax]⟩
  refine ⟨hleaving.getAny_notMem, fun a ha => (hleaving.member a).mpr ha, fun a ha => ?_,
    fun p hp => ?_, hleaving.successor, hleaving.predecessor, fun a ha => ?_, fun a ha => ?_⟩
  · rw [hnode]
    split
    · rfl
    · rename_i hax
      exact houtside a fun haR => ha (Finset.mem_erase.mpr ⟨hax, haR⟩)
  · obtain ⟨src, dst, msg⟩ := p
    obtain ⟨hdst, v, hmsg⟩ := hleaving.traffic _ hp
    exact .leave hdst hmsg
  · obtain ⟨haR, -, hsame⟩ := hother ha
    rw [hsame]
    by_cases hax : (s.node a).successor = x
    · exact Or.inr (hax ▸ Finset.notMem_erase x R)
    · exact Or.inl ((h.successor a haR).erase_other hax)
  · obtain ⟨haR, hne', hsame⟩ := hother ha
    rw [hsame]
    by_cases hax : (s.node a).predecessor = x
    · exact Or.inr (hax ▸ Finset.notMem_erase x R)
    · exact Or.inl ((h.predecessor a haR).erase_other hinj haR hne' hax)

namespace Mending

theorem act_chatter (h : Mending R s) {a : Ipv4Address} {sent : List RingPacket}
    (hsent : ∀ p ∈ sent, MendingPacket R p ∧ p.msg.newSuccessor = none ∧
      p.msg.newPredecessor = none) : Mending R (s.act a (s.node a) sent) := by
  have hnode : (s.act a (s.node a) sent).node = s.node := by simp [Net.act]
  have hnone : ∀ {f : RingMessage → Option Ipv4Address} (b : Ipv4Address),
      (∀ p ∈ sent, f p.msg = none) → pending f (s.inFlight ++ sent) b = pending f s.inFlight b := by
    intro f b hf
    have hempty : pending f sent b = [] := by
      refine List.eq_nil_iff_forall_not_mem.mpr fun v hv => ?_
      obtain ⟨p, hp, -, hpv⟩ := mem_pending.mp hv
      rw [hf p hp] at hpv
      cases hpv
    rw [pending_append, hempty, List.append_nil]
  refine ⟨h.getAny_notMem, ?_, ?_, fun p hp => ?_, fun b hb => ?_, fun b hb => ?_, ?_, ?_⟩
  · simpa only [hnode] using h.member
  · simpa only [hnode] using h.outside
  · rcases List.mem_append.mp hp with hp | hp
    · exact h.traffic p hp
    · exact (hsent p hp).1
  · rw [hnode, Net.act_inFlight, hnone b fun p hp => (hsent p hp).2.1]
    exact h.successor b hb
  · rw [hnode, Net.act_inFlight, hnone b fun p hp => (hsent p hp).2.2]
    exact h.predecessor b hb
  · simpa only [hnode] using h.successor_or
  · simpa only [hnode] using h.predecessor_or

theorem take_chatter (h : Mending R s) {k : ℕ} {p : RingPacket} (packet : s.inFlight[k]? = some p)
    (hp : p.msg.newSuccessor = none ∧ p.msg.newPredecessor = none) : Mending R (s.take k) := by
  refine ⟨h.getAny_notMem, h.member, h.outside,
    fun p' hp' => h.traffic p' (List.mem_of_mem_eraseIdx hp'), fun b hb => ?_, fun b hb => ?_,
    h.successor_or, h.predecessor_or⟩
  · rw [Net.take_inFlight, pending_eraseIdx_of_none packet fun _ => hp.1]
    exact h.successor b hb
  · rw [Net.take_inFlight, pending_eraseIdx_of_none packet fun _ => hp.2]
    exact h.predecessor b hb

theorem deliver_leave (h : Mending R s) {k : ℕ} {p : RingPacket} {v : Ipv4Address}
    {q : Pointers} {out : List RingAction} (packet : s.inFlight[k]? = some p) (hdst : p.dst ∈ R)
    (hmsg : p.msg = .leaveSuccessor v ∨ p.msg = .leavePredecessor v)
    (reacts : Reacts (F p.dst) p.dst (s.node p.dst) p.src p.msg q out) :
    out = [] ∧ Mending R ((s.take k).act p.dst q []) := by
  obtain ⟨rfl, rfl⟩ := reacts.leave_eq hmsg
  refine ⟨rfl, h.getAny_notMem, fun a ha => ?_, fun a ha => ?_, fun p' hp' => ?_, fun a ha => ?_,
    fun a ha => ?_, fun a ha => ?_, fun a ha => ?_⟩
  · rw [node_of_leave]
    exact h.member a ha
  · rw [Net.act_node_of_ne _ _ _ fun hap : a = p.dst => ha (hap ▸ hdst)]
    exact h.outside a ha
  · exact h.traffic p' (List.mem_of_mem_eraseIdx (by simpa using hp'))
  · rw [node_of_leave, Net.act_inFlight, List.append_nil, Net.take_inFlight]
    exact (h.successor a ha).take packet
  · rw [node_of_leave, Net.act_inFlight, List.append_nil, Net.take_inFlight]
    exact (h.predecessor a ha).take packet
  · rw [node_of_leave]
    exact (h.successor a ha).take_or packet (h.successor_or a ha)
  · rw [node_of_leave]
    exact (h.predecessor a ha).take_or packet (h.predecessor_or a ha)

/-- The answer to a request names the node that asked, or nobody in the ring. -/
theorem answer (h : Mending R s) (hinj : Set.InjOn nodePos (R : Set Ipv4Address))
    {src dst : Ipv4Address} (hsrc : src ∈ R) (hne : dst ≠ src)
    (hnext : IsNext nodePos R src dst ∨ dst ∉ R)
    (hsome : (s.node dst).predecessor ≠ .getAny) :
    MendingPacket R ⟨dst, src, .stabilizeResp (s.node dst).predecessor⟩ := by
  refine .stabilizeResp hsrc ?_
  rcases hnext with hnext | hdst
  · exact (h.predecessor_or dst hnext.1).imp_left fun hpred =>
      hpred.eq_of_isNext hinj hsrc hne hnext
  · rw [h.outside dst hdst] at hsome
    exact absurd rfl hsome

/-- A turn of stabilization keeps the repair going, and hands nothing over. A node
that an answer makes the successor of a member is a member. -/
theorem turn (hinj : Set.InjOn nodePos (R : Set Ipv4Address)) (h : Mending R s)
    (he : e.Stabilizes) (hadopts : ∀ k p v, e = .deliver k → s.inFlight[k]? = some p →
      p.msg = .stabilizeResp v → v ≠ .getAny → nodePos v ≠ nodePos p.dst →
        (s.node p.dst).owns p.dst (nodePos v) → v ∈ R)
    {a : Ipv4Address} {q : Pointers} {out : List RingAction} (hturn : RingTurn F s e a q out) :
    Mending R ((s.before e).act a q (ringSends a out)) ∧
      ∀ act ∈ out, ∃ dst msg, act = .send dst msg := by
  cases hturn with
  | quiet a => exact ⟨by simpa [RingNet.before] using h, by simp⟩
  | stabilizeSkip skip => exact ⟨by simpa [RingNet.before] using h, by simp⟩
  | stabilize member several =>
      have ha := (h.mem_iff a).mp member
      refine ⟨h.act_chatter fun p hp => ?_, by simp⟩
      obtain rfl := eq_of_mem_ringSends hp
      exact ⟨.stabilizeReq ha several (h.successor_or a ha), rfl, rfl⟩
  | deliver packet reacts =>
      rename_i k p
      obtain ⟨src, dst, msg⟩ := p
      cases h.traffic _ (mem_of_getElem? packet) with
      | leave dst_mem leaves =>
          obtain ⟨rfl, hmending⟩ := h.deliver_leave packet dst_mem leaves reacts
          exact ⟨hmending, by simp⟩
      | stabilizeReq src_mem ne next =>
          have htake := h.take_chatter packet ⟨rfl, rfl⟩
          cases reacts with
          | reqIgnore none => exact ⟨htake.act_chatter (by simp), by simp⟩
          | reqAnswer some =>
              refine ⟨htake.act_chatter fun p hp => ?_, by simp⟩
              obtain rfl := eq_of_mem_ringSends hp
              exact ⟨h.answer hinj src_mem ne next some, rfl, rfl⟩
      | stabilizeResp dst_mem names =>
          have htake := h.take_chatter packet ⟨rfl, rfl⟩
          cases reacts with
          | respKeep keep => exact ⟨htake.act_chatter (by simp), by simp⟩
          | respAdopt some ne owns =>
              -- a member that is named is the receiver itself
              have hmem := hadopts k _ _ rfl packet rfl some ne owns
              obtain rfl := names.resolve_right (not_not_intro hmem)
              exact absurd rfl ne
  | _ => exact he.elim

end Mending

end PennSearch
