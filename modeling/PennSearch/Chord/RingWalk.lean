import PennSearch.Chord.Kinds
import PennSearch.Chord.Leave

/-!
# The walk of RINGSTATE around the ring

A RINGSTATE message goes from successor to successor; every node reports and
hands it on, until it comes back to the address of the node that started the
walk. Nothing else stops it. As long as no node hands it on past the initiator,
the walk visits the nodes in clockwise order and ends; once it has been handed
past the initiator it may go on for ever.
-/

namespace PennSearch

open Clockwise MessagePassing

def ofWalk (i : Ipv4Address) (tx : UInt32) (p : ChordPacket) : Bool :=
  p.msg = ⟨tx, .ringstate i⟩

/-- What has become of a walk: the nodes that have reported and handed the message
on, in this order, and the number of its deliveries. -/
structure RingWalk where
  reports : List Ipv4Address
  deliveries : ℕ
deriving DecidableEq

variable [Sha1]

/-- The node is the initiator, or its successor does not lie past the initiator:
it is nobody, the initiator, or a node on the way there. -/
def ChordNode.WalkAdvances (i : Ipv4Address) (n : ChordNode) : Prop :=
  n.localAddress = i ∨ n.successorAddr = .getAny ∨ n.successorAddr = i ∨
    cwDist (nodePos i) (nodePos n.localAddress) < cwDist (nodePos i) (nodePos n.successorAddr)

instance (i : Ipv4Address) (n : ChordNode) : Decidable (n.WalkAdvances i) :=
  inferInstanceAs (Decidable (_ ∨ _ ∨ _ ∨ _))

namespace ChordNet

omit [Sha1] in
def noteWalk (i : Ipv4Address) (tx : UInt32) (c : ChordNet) (e : ChordEvent) (w : RingWalk) :
    RingWalk :=
  match e with
  | .ringstate a =>
      if a = i ∧ (c.node a).chordStatus = true ∧ (c.node a).currentTransactionId = tx then
        { w with reports := w.reports ++ [a] }
      else w
  | .deliver k =>
      match c.inFlight[k]? with
      | none => w
      | some p =>
          if ofWalk i tx p then
            { reports :=
                if i = (c.node p.dst).localAddress then w.reports else w.reports ++ [p.dst]
              deliveries := w.deliveries + 1 }
          else w
  | _ => w

def walkPackets (i : Ipv4Address) (tx : UInt32) (c : ChordNet) : ℕ :=
  c.inFlight.countP (ofWalk i tx)

def OneWalk (i : Ipv4Address) (tx : UInt32) (c : ChordNet) : ChordEvent → Prop
  | .ringstate a => a = i → (c.node a).currentTransactionId ≠ tx
  | _ => True

/-- The event does not hand the walk on past the initiator: when a packet of the
walk is delivered, the successor of its receiver does not lie past the initiator. -/
def HandsOn (i : Ipv4Address) (tx : UInt32) (c : ChordNet) : ChordEvent → Prop
  | .deliver k => ∀ p ∈ c.inFlight[k]?, ofWalk i tx p = true → (c.node p.dst).WalkAdvances i
  | _ => True

instance (i : Ipv4Address) (tx : UInt32) (c : ChordNet) (e : ChordEvent) :
    Decidable (OneWalk i tx c e) :=
  match e with
  | .ringstate _ => inferInstanceAs (Decidable (_ → _))
  | .join .. | .leave _ | .stabilize _ | .fixFinger _ | .lookupPublish .. | .deliver _ =>
      .isTrue trivial

instance (i : Ipv4Address) (tx : UInt32) (c : ChordNet) (e : ChordEvent) :
    Decidable (HandsOn i tx c e) :=
  match e with
  | .deliver _ => inferInstanceAs (Decidable (∀ p ∈ _, _))
  | .join .. | .leave _ | .ringstate _ | .stabilize _ | .fixFinger _ | .lookupPublish .. =>
      .isTrue trivial

variable {c c' c₀ : ChordNet} {i : Ipv4Address} {tx : UInt32} {e : ChordEvent} {w : RingWalk}
  {p : ChordPacket}

omit [Sha1] in
theorem noteWalk_deliver {k : ℕ} (hlocal : ∀ b, (c.node b).localAddress = b)
    (hk : c.inFlight[k]? = some p) (hof : ofWalk i tx p = true) :
    c.noteWalk i tx (.deliver k) w =
      ⟨if i = p.dst then w.reports else w.reports ++ [p.dst], w.deliveries + 1⟩ := by
  simp only [noteWalk, hk, hof, if_true, hlocal]

omit [Sha1] in
theorem noteWalk_other {k : ℕ} (h : ∀ q, c.inFlight[k]? = some q → ofWalk i tx q = false) :
    c.noteWalk i tx (.deliver k) w = w := by
  simp only [noteWalk]
  split
  · rfl
  · rename_i q hq
    simp [h q hq]

/-- At the initiator the walk stops, everywhere else it goes on to the successor. -/
theorem step_walk (hlocal : ∀ b, (c.node b).localAddress = b) {k : ℕ}
    (hk : c.inFlight[k]? = some p) (hof : ofWalk i tx p = true) :
    c.step (.deliver k) = .ok ((c.take k).act p.dst (c.node p.dst)
      (if i = p.dst then [] else
        sentPackets p.dst [.sendTo (c.node p.dst).successorAddr p.msg])) := by
  have hmsg : p.msg = ⟨tx, .ringstate i⟩ := of_decide_eq_true hof
  have hrecv : (c.node p.dst).recvMessage p.msg p.src = .ok (c.node p.dst,
      if i = p.dst then [] else [.sendTo (c.node p.dst).successorAddr p.msg]) := by
    rw [hmsg]
    simp only [ChordNode.recvMessage, ChordNode.processRingstate, hlocal]
    split <;> rfl
  rw [step_deliver hk hrecv]
  split <;> rfl

theorem turn_sends_ofWalk (hlocal : ∀ b, (c.node b).localAddress = b) {b : Ipv4Address}
    {n : ChordNode} {acts : List ChordAction} (h : c.turn e = some (c₀, b, .ok (n, acts)))
    (hp : p ∈ sentPackets b acts) (hof : ofWalk i tx p = true) :
    (e = .ringstate i ∧ (c.node i).currentTransactionId = tx) ∨
      ∃ k q, e = .deliver k ∧ c.inFlight[k]? = some q ∧ ofWalk i tx q = true ∧
        p.dst = (c.node q.dst).successorAddr := by
  have hact := (mem_sentPackets.mp hp).2.2
  have hmsg : p.msg = ⟨tx, .ringstate i⟩ := of_decide_eq_true hof
  have hkind : c.eventKind e = some .ringstate := by
    rw [turn_kind h _ hact, hmsg]
    rfl
  cases e with
  | ringstate b' =>
      left
      simp only [turn, Option.some.injEq, Prod.mk.injEq, ChordNode.processRingstateCommand] at h
      obtain ⟨-, rfl, h⟩ := h
      split at h
      · cases h
        cases hact
      · cases h
        obtain ⟨-, hsent⟩ := ChordAction.sendTo.inj (List.mem_singleton.mp hact)
        rw [hmsg, hlocal] at hsent
        obtain ⟨rfl, rfl⟩ : tx = (c.node b').currentTransactionId ∧ i = b' := by simpa using hsent
        exact ⟨rfl, rfl⟩
  | deliver k =>
      right
      obtain ⟨q, hq, hqkind⟩ := Option.map_eq_some_iff.mp hkind
      refine ⟨k, q, rfl, hq, ?_⟩
      obtain ⟨qsrc, qdst, id, payload⟩ := q
      cases payload with
      | ringstate initiator =>
          rw [turn_deliver hq] at h
          simp only [Option.some.injEq, Prod.mk.injEq, ChordNode.recvMessage,
            ChordNode.processRingstate] at h
          obtain ⟨-, -, h⟩ := h
          split at h
          · cases h
            cases hact
          · cases h
            obtain ⟨hdst, hsent⟩ := ChordAction.sendTo.inj (List.mem_singleton.mp hact)
            exact ⟨decide_eq_true (hsent.symm.trans hmsg), hdst⟩
      | _ => simp [ChordPayload.kind] at hqkind
  | _ => cases hkind

/-- The walk so far: the initiator, then other nodes in clockwise order, each of
them farther from it; and at most one packet, which has the rest of the way before it. -/
structure WalkOrder (i : Ipv4Address) (tx : UInt32) (c : ChordNet) (w : RingWalk) : Prop where
  reports : ∃ rest, w.reports = i :: rest ∧ i ∉ rest ∧
    rest.Pairwise (fun a b => cwDist (nodePos i) (nodePos a) < cwDist (nodePos i) (nodePos b)) ∧
    ∀ p ∈ c.inFlight, ofWalk i tx p = true →
      p.dst = i ∨ ∀ a ∈ rest, cwDist (nodePos i) (nodePos a) < cwDist (nodePos i) (nodePos p.dst)
  packets : w.deliveries + c.walkPackets i tx ≤ w.reports.length
  packets_le : c.walkPackets i tx ≤ 1

namespace WalkOrder

/-- The delivery of a packet of the walk. -/
theorem deliver (h : WalkOrder i tx c w) (hlocal : ∀ b, (c.node b).localAddress = b) {k : ℕ}
    (hk : c.inFlight[k]? = some p) (hof : ofWalk i tx p = true)
    (hadvance : (c.node p.dst).WalkAdvances i) (hstep : c.step (.deliver k) = .ok c') :
    WalkOrder i tx c' (c.noteWalk i tx (.deliver k) w) := by
  rw [step_walk hlocal hk hof] at hstep
  obtain rfl := Except.ok.inj hstep
  rw [noteWalk_deliver hlocal hk hof]
  obtain ⟨rest, hreports, hnot, hpairwise, hahead⟩ := h.reports
  have hp := mem_of_getElem? hk
  have hwas : c.walkPackets i tx = 1 := by
    have hpos : 0 < c.walkPackets i tx := List.countP_pos_iff.mpr ⟨p, hp, hof⟩
    exact Nat.le_antisymm h.packets_le hpos
  have hrest : (c.inFlight.eraseIdx k).countP (ofWalk i tx) = 0 := by
    have hcount := countP_eq_eraseIdx (ofWalk i tx) hk
    rw [hof, if_pos rfl] at hcount
    unfold walkPackets at hwas
    omega
  have hnone : ∀ q ∈ c.inFlight.eraseIdx k, ¬ ofWalk i tx q = true :=
    fun q hq => List.countP_eq_zero.mp hrest q hq
  have hcount := h.packets
  rw [hwas] at hcount
  have hpackets : ∀ sent : List ChordPacket, sent.length ≤ 1 →
      walkPackets i tx ((c.take k).act p.dst (c.node p.dst) sent) ≤ 1 := by
    intro sent hlen
    rw [walkPackets, Net.act_inFlight, Net.take_inFlight, List.countP_append, hrest, Nat.zero_add]
    exact List.countP_le_length.trans hlen
  by_cases hdst : i = p.dst
  · -- the walk is back at the initiator
    simp only [if_pos hdst]
    have hzero : walkPackets i tx ((c.take k).act p.dst (c.node p.dst) []) = 0 := by
      simpa [walkPackets] using hrest
    refine ⟨⟨rest, hreports, hnot, hpairwise, fun q hq hofq => ?_⟩, ?_, hpackets [] (by simp)⟩
    · exact absurd hofq (hnone q (by simpa using hq))
    · rw [hzero]
      exact hcount
  · simp only [if_neg hdst]
    have hfar : ∀ a ∈ rest,
        cwDist (nodePos i) (nodePos a) < cwDist (nodePos i) (nodePos p.dst) :=
      (hahead p hp hof).resolve_left (Ne.symm hdst)
    have hlen : (sentPackets p.dst [.sendTo (c.node p.dst).successorAddr p.msg]).length ≤ 1 :=
      List.length_filterMap_le _ _
    refine ⟨⟨rest ++ [p.dst], by rw [hreports, List.cons_append], ?_, ?_, fun q hq hofq => ?_⟩,
      ?_, hpackets _ hlen⟩
    · simp [hnot, hdst]
    · rw [List.pairwise_append]
      exact ⟨hpairwise, List.pairwise_singleton _ _,
        fun a ha b hb => List.mem_singleton.mp hb ▸ hfar a ha⟩
    · rcases List.mem_append.mp hq with hq | hq
      · exact absurd hofq (hnone q hq)
      · obtain ⟨-, hne, hsent⟩ := mem_sentPackets.mp hq
        obtain ⟨hqdst, -⟩ := ChordAction.sendTo.inj (List.mem_singleton.mp hsent)
        rw [hqdst] at hne ⊢
        -- the successor is the initiator, or farther than the receiver
        rcases hadvance with hself | hnobody | hback | hon
        · exact absurd ((hlocal p.dst).symm.trans hself).symm hdst
        · exact absurd hnobody hne
        · exact Or.inl hback
        · rw [hlocal] at hon
          right
          intro a ha
          rcases List.mem_append.mp ha with ha | ha
          · exact (hfar a ha).trans hon
          · exact List.mem_singleton.mp ha ▸ hon
    · have hle := hpackets _ hlen
      rw [List.length_append, List.length_singleton]
      dsimp only
      omega

/-- An event that neither starts the walk nor delivers a packet of it. -/
theorem other (h : WalkOrder i tx c w) (hlocal : ∀ b, (c.node b).localAddress = b)
    (hcall : e = .ringstate i → (c.node i).currentTransactionId ≠ tx)
    (hdeliver : ∀ k q, e = .deliver k → c.inFlight[k]? = some q → ofWalk i tx q = false)
    (hstep : c.step e = .ok c') : WalkOrder i tx c' w := by
  have hsame : c'.walkPackets i tx = c.walkPackets i tx ∧
      ∀ q ∈ c'.inFlight, ofWalk i tx q = true → q ∈ c.inFlight := by
    refine step_countP hstep (fun c₀ b n acts hturn q hq => ?_) hdeliver
    by_contra hof
    rcases turn_sends_ofWalk hlocal hturn hq (by simpa using hof) with
      ⟨he, hid⟩ | ⟨k, q', he, hk, hof', -⟩
    · exact hcall he hid
    · rw [hdeliver k q' he hk] at hof'
      cases hof'
  obtain ⟨rest, hreports, hnot, hpairwise, hahead⟩ := h.reports
  refine ⟨⟨rest, hreports, hnot, hpairwise, fun q hq hof => hahead q (hsame.2 q hq hof) hof⟩,
      ?_, ?_⟩
  · rw [hsame.1]
    exact h.packets
  · rw [hsame.1]
    exact h.packets_le

theorem step (h : WalkOrder i tx c w) (hlocal : ∀ b, (c.node b).localAddress = b)
    (hone : OneWalk i tx c e) (hon : HandsOn i tx c e) (hstep : c.step e = .ok c') :
    WalkOrder i tx c' (c.noteWalk i tx e w) := by
  have hother : (e = .ringstate i → (c.node i).currentTransactionId ≠ tx) →
      (∀ k q, e = .deliver k → c.inFlight[k]? = some q → ofWalk i tx q = false) →
        WalkOrder i tx c' w := fun hcall hdeliver => h.other hlocal hcall hdeliver hstep
  cases e with
  | deliver k =>
      by_cases hwalk : ∃ q, c.inFlight[k]? = some q ∧ ofWalk i tx q = true
      · obtain ⟨q, hk, hof⟩ := hwalk
        exact h.deliver hlocal hk hof (hon q hk hof) hstep
      · have hnot : ∀ q, c.inFlight[k]? = some q → ofWalk i tx q = false :=
          fun q hq => Bool.eq_false_iff.mpr fun hof => hwalk ⟨q, hq, hof⟩
        rw [noteWalk_other hnot]
        refine hother (fun he => by cases he) fun k' q hk' hq => ?_
        cases hk'
        exact hnot q hq
  | ringstate a =>
      have hne : ¬ (a = i ∧ (c.node a).chordStatus = true ∧
          (c.node a).currentTransactionId = tx) := by
        rintro ⟨rfl, -, hid⟩
        exact hone rfl hid
      simp only [noteWalk, if_neg hne]
      refine hother (fun he => ?_) fun k q hk => by cases hk
      cases he
      exact hone rfl
  | _ => exact hother (fun he => by cases he) fun k q hk => by cases hk

end WalkOrder

theorem walkOrder_start (hlocal : ∀ b, (c.node b).localAddress = b)
    (hmem : (c.node i).chordStatus = true) (hid : (c.node i).currentTransactionId = tx)
    (hnone : c.walkPackets i tx = 0) :
    ∃ c₁, c.step (.ringstate i) = .ok c₁ ∧ (∀ b, (c₁.node b).localAddress = b) ∧
      WalkOrder i tx c₁ (c.noteWalk i tx (.ringstate i) ⟨[], 0⟩) := by
  have hcommand : (c.node i).processRingstateCommand = ((c.node i).nextTransactionId,
      [.sendTo (c.node i).successorAddr ⟨tx, .ringstate i⟩]) := by
    simp [ChordNode.processRingstateCommand, hmem, hid, hlocal]
  have hturn : c.turn (.ringstate i) = some (c, i, .ok ((c.node i).nextTransactionId,
      [.sendTo (c.node i).successorAddr ⟨tx, .ringstate i⟩])) := by
    simp only [turn, hcommand]
  refine ⟨_, step_of_turn hturn, fun b => ?_, ?_⟩
  · have hkeep := Net.act_node_congr (c := c) (i := i) (s := (c.node i).nextTransactionId)
      (f := ChordNode.localAddress) rfl
    rw [hkeep, hlocal]
  · have hnote : c.noteWalk i tx (.ringstate i) ⟨[], 0⟩ = ⟨[i], 0⟩ := if_pos ⟨rfl, hmem, hid⟩
    rw [hnote]
    have hpackets : walkPackets i tx (c.act i (c.node i).nextTransactionId
        (sentPackets i [.sendTo (c.node i).successorAddr ⟨tx, .ringstate i⟩])) ≤ 1 := by
      unfold walkPackets at hnone ⊢
      rw [Net.act_inFlight, List.countP_append, hnone, Nat.zero_add]
      exact List.countP_le_length.trans (List.length_filterMap_le _ _)
    refine ⟨⟨[], rfl, by simp, List.Pairwise.nil, fun p hp hof => Or.inr (by simp)⟩, ?_, hpackets⟩
    rw [Nat.zero_add]
    exact hpackets

theorem WalkOrder.run (h : WalkOrder i tx c w) (hlocal : ∀ b, (c.node b).localAddress = b)
    {es : List ChordEvent}
    (hrun : Run ChordNet.step (fun d e => OneWalk i tx d e ∧ HandsOn i tx d e) c es c') :
    WalkOrder i tx c' (history ChordNet.step (noteWalk i tx) c w es) ∧
      ∀ b, (c'.node b).localAddress = b := by
  refine hrun.history_invariant
    (I := fun d w => WalkOrder i tx d w ∧ ∀ b, (d.node b).localAddress = b) ⟨h, hlocal⟩ ?_
  rintro d w e d' ⟨horder, hlocal⟩ ⟨hone, hon⟩ hstep
  obtain ⟨-, hlocal'⟩ := step_view (F := fun _ _ => True) hlocal (fun _ _ _ _ => trivial) hstep
  exact ⟨horder.step hlocal hone hon hstep, hlocal'⟩

theorem walkAdvances_of_isNext {R : Finset Ipv4Address} {n : ChordNode}
    (hinj : Set.InjOn nodePos (R : Set Ipv4Address)) (hi : i ∈ R) (hn : n.localAddress ∈ R)
    (hnext : IsNext nodePos R n.localAddress n.successorAddr) : n.WalkAdvances i := by
  by_cases hself : n.localAddress = i
  · exact Or.inl hself
  · by_cases hback : n.successorAddr = i
    · exact Or.inr (Or.inr (Or.inl hback))
    · have hself' : nodePos n.localAddress ≠ nodePos i := fun h => hself (hinj hn hi h)
      have hback' : nodePos n.successorAddr ≠ nodePos i := fun h => hback (hinj hnext.1 hi h)
      have hle := hnext.2 i hi
      rw [cwTurn_of_ne hself'] at hle
      have hturn := cwTurn_cases (nodePos n.localAddress) (nodePos n.successorAddr)
      have h₁ := cwDist_cases (nodePos n.localAddress) (nodePos n.successorAddr)
      have h₂ := cwDist_cases (nodePos n.localAddress) (nodePos i)
      have h₃ := cwDist_cases (nodePos i) (nodePos n.localAddress)
      have h₄ := cwDist_cases (nodePos i) (nodePos n.successorAddr)
      rw [ne_eq, Fin.ext_iff] at hself' hback'
      exact Or.inr (Or.inr (Or.inr (by omega)))

theorem stable_handsOn {R : Finset Ipv4Address} (hinj : Set.InjOn nodePos (R : Set Ipv4Address))
    (hi : i ∈ R) (hlocal : ∀ b, (c.node b).localAddress = b)
    (hin : ∀ p ∈ c.inFlight, ofWalk i tx p = true → p.dst ∈ R) {es : List ChordEvent}
    (hrun : Run ChordNet.step (fun d e => StableRing d.node R ∧ OneWalk i tx d e) c es c') :
    Run ChordNet.step (fun d e => OneWalk i tx d e ∧ HandsOn i tx d e) c es c' := by
  have hkeep := hrun.strengthen
    (P := fun d => (∀ p ∈ d.inFlight, ofWalk i tx p = true → p.dst ∈ R) ∧
      ∀ b, (d.node b).localAddress = b) ⟨hin, hlocal⟩ ?_
  · refine hkeep.mono ?_
    rintro d e ⟨⟨hin, hlocal⟩, hring, hone⟩
    refine ⟨hone, ?_⟩
    cases e with
    | deliver k =>
        intro p hk hof
        have hp := hin p (mem_of_getElem? hk) hof
        refine walkAdvances_of_isNext hinj hi ((hlocal p.dst).symm ▸ hp) ?_
        rw [hlocal]
        exact hring.successor p.dst hp
    | _ => trivial
  · rintro d e d' ⟨hin, hlocal⟩ ⟨hring, hone⟩ hstep
    obtain ⟨-, hlocal'⟩ := step_view (F := fun _ _ => True) hlocal (fun _ _ _ _ => trivial) hstep
    refine ⟨?_, hlocal'⟩
    rcases step_cases hstep with ⟨-, rfl⟩ | ⟨c₀, b, n, acts, hturn, rfl⟩
    · exact hin
    · intro q hq hof
      rcases List.mem_append.mp hq with hq | hq
      · exact hin q (turn_inFlight_subset hturn q hq) hof
      · rcases turn_sends_ofWalk hlocal hturn hq hof with
          ⟨rfl, hid⟩ | ⟨k, p, rfl, hk, hof', hdst⟩
        · exact absurd hid (hone rfl)
        · rw [hdst]
          exact hring.successor_mem (hin p (mem_of_getElem? hk) hof')

def walkHistory (c : ChordNet) (i : Ipv4Address) (es : List ChordEvent) : RingWalk :=
  history ChordNet.step (noteWalk i (c.node i).currentTransactionId) c ⟨[], 0⟩
    (.ringstate i :: es)

theorem walkHistory_eq {c₁ : ChordNet} (h : c.step (.ringstate i) = .ok c₁) (es : List ChordEvent) :
    c.walkHistory i es =
      history ChordNet.step (noteWalk i (c.node i).currentTransactionId) c₁
        (c.noteWalk i (c.node i).currentTransactionId (.ringstate i) ⟨[], 0⟩) es := by
  simp only [walkHistory, history, h]

theorem run_localAddress {ok : ChordNet → ChordEvent → Prop} {es : List ChordEvent}
    (hlocal : ∀ b, (c.node b).localAddress = b) (hrun : Run ChordNet.step ok c es c') :
    ∀ b, (c'.node b).localAddress = b := by
  refine hrun.invariant (P := fun d => ∀ b, (d.node b).localAddress = b) hlocal ?_
  exact fun d e d' hlocal _ hstep =>
    (step_view (F := fun _ _ => True) hlocal (fun _ _ _ _ => trivial) hstep).2

end ChordNet

/-- No node reports twice, and the message is delivered at most as often as there
are addresses. -/
structure RingWalk.Stops (w : RingWalk) : Prop where
  reports_nodup : w.reports.Nodup
  deliveries_le : w.deliveries ≤ w.reports.length
  ends : w.deliveries ≤ 2 ^ 32

omit [Sha1] in
theorem RingWalk.length_le_of_nodup {l : List Ipv4Address} (h : l.Nodup) : l.length ≤ 2 ^ 32 := by
  have hinj : Function.Injective fun a : Ipv4Address => a.address.toFin := by
    intro a b hab
    cases a
    cases b
    exact congrArg Ipv4Address.mk (UInt32.toFin_inj.mp hab)
  have hlen := (h.map hinj).length_le_card
  rwa [List.length_map, Fintype.card_fin] at hlen

theorem ChordNet.WalkOrder.stops {i : Ipv4Address} {tx : UInt32} {c : ChordNet} {w : RingWalk}
    (h : ChordNet.WalkOrder i tx c w) : w.Stops := by
  obtain ⟨rest, hreports, hnot, hpairwise, -⟩ := h.reports
  have hnodup : w.reports.Nodup := by
    rw [hreports, List.nodup_cons]
    refine ⟨hnot, hpairwise.imp fun hlt heq => ?_⟩
    rw [heq] at hlt
    exact lt_irrefl _ hlt
  have hpackets := h.packets
  have hle : w.deliveries ≤ w.reports.length := by omega
  exact ⟨hnodup, hle, hle.trans (RingWalk.length_le_of_nodup hnodup)⟩

/-- The ring walk stops, as long as it is not handed on past the initiator. From
any state in which a member starts the walk, in every run with any commands,
timers and deliveries in which every packet of the walk is delivered at the
initiator or at a node whose successor does not lie past the initiator, no node
reports and hands on the message twice, and the walk ends. -/
theorem ring_walk_stops (c : ChordNet) (i : Ipv4Address)
    (hlocal : ∀ b, (c.node b).localAddress = b) (hmem : (c.node i).chordStatus = true)
    (hnone : c.walkPackets i (c.node i).currentTransactionId = 0) :
    ∃ c₁, c.step (.ringstate i) = .ok c₁ ∧
      ∀ es c', Run ChordNet.step (fun d e =>
          ChordNet.OneWalk i (c.node i).currentTransactionId d e ∧
            ChordNet.HandsOn i (c.node i).currentTransactionId d e) c₁ es c' →
        (c.walkHistory i es).Stops ∧
          ∀ k p, c'.inFlight[k]? = some p →
            ofWalk i (c.node i).currentTransactionId p = true →
              ∃ c'', c'.step (.deliver k) = .ok c'' := by
  obtain ⟨c₁, hstart, hlocal₁, horder⟩ := ChordNet.walkOrder_start hlocal hmem rfl hnone
  refine ⟨c₁, hstart, fun es c' hrun => ?_⟩
  obtain ⟨hkept, hlocal'⟩ := horder.run hlocal₁ hrun
  refine ⟨?_, fun k p hk hof => ⟨_, ChordNet.step_walk hlocal' hk hof⟩⟩
  rw [ChordNet.walkHistory_eq hstart]
  exact hkept.stops

end PennSearch

namespace PennSearch

open Clockwise MessagePassing

attribute [local instance] sampleSha1

theorem ring_walk_stops_sample :
    ∃ c₁ c', ChordNet.step sampleFour (.ringstate sampleD) = .ok c₁ ∧
      Run ChordNet.step
        (fun d e => ChordNet.OneWalk sampleD 0 d e ∧ ChordNet.HandsOn sampleD 0 d e) c₁
        [.deliver 0, .deliver 0, .deliver 0, .deliver 0] c' ∧ c'.inFlight = [] ∧
      (sampleFour.walkHistory sampleD
        [.deliver 0, .deliver 0, .deliver 0, .deliver 0]).Stops := by
  have hrun : ((ChordNet.step sampleFour (.ringstate sampleD)).toOption.bind fun c₁ =>
      (execute ChordNet.step
        (fun d e => ChordNet.OneWalk sampleD 0 d e ∧ ChordNet.HandsOn sampleD 0 d e) c₁
        [.deliver 0, .deliver 0, .deliver 0, .deliver 0]).map fun c' =>
          decide (c'.inFlight = [])) = some true := by
    decide
  obtain ⟨c₁, hc₁, hrun⟩ := Option.bind_eq_some_iff.mp hrun
  obtain ⟨c', hc', hflight⟩ := Option.map_eq_some_iff.mp hrun
  have hstart := eq_ok_of_toOption hc₁
  refine ⟨c₁, c', hstart, .of_execute hc', of_decide_eq_true hflight, ?_⟩
  obtain ⟨c₂, hstart₂, hstops⟩ := ring_walk_stops sampleFour sampleD sampleFour_stable.localAddress
    (by decide) (by decide)
  obtain rfl := Except.ok.inj (hstart.symm.trans hstart₂)
  exact (hstops _ _ (.of_execute hc')).1

/-- D starts a walk and leaves, and A learns that its successor is B before the
walk has come round. -/
def sampleLeaver : List ChordEvent := [.leave sampleD, .deliver 2, .deliver 0]

def sampleRound : List ChordEvent := [.deliver 1, .deliver 1, .deliver 1]

def SampleAllowed (c : ChordNet) (e : ChordEvent) : Prop :=
  c.Fifo e ∧ ChordNet.OneWalk sampleD 0 c e

instance (c : ChordNet) (e : ChordEvent) : Decidable (SampleAllowed c e) :=
  inferInstanceAs (Decidable (_ ∧ _))

theorem sampleWalk_step {node : Ipv4Address → ChordNode} {q : ChordPacket} {a b s : Ipv4Address}
    (hlocal : ∀ x, (node x).localAddress = x) (hb : sampleD ≠ b)
    (hsucc : (node b).successorAddr = s)
    (hs : s ≠ .getAny) (w : RingWalk) :
    ChordNet.step ⟨node, [q, ⟨a, b, ⟨0, .ringstate sampleD⟩⟩]⟩ (.deliver 1) =
        .ok ⟨node, [q, ⟨b, s, ⟨0, .ringstate sampleD⟩⟩]⟩ ∧
      (ChordNet.noteWalk sampleD 0 ⟨node, [q, ⟨a, b, ⟨0, .ringstate sampleD⟩⟩]⟩ (.deliver 1)
        w).deliveries = w.deliveries + 1 := by
  constructor
  · have hof : ofWalk sampleD 0 ⟨a, b, ⟨0, .ringstate sampleD⟩⟩ = true := by simp [ofWalk]
    rw [ChordNet.step_walk hlocal rfl hof]
    simp [Net.act, Net.take, hb, sentPackets, hsucc, hs]
  · simp [ChordNet.noteWalk, ofWalk]

/-- The message of D that tells B about its new predecessor A. -/
def sampleLate : ChordPacket := ⟨sampleD, sampleB, ⟨1, .leaveSuccessor sampleA⟩⟩

/-- B, C and A are successors of one another, and the walk of D is on its way from B. -/
structure SampleLoop (d : ChordNet) : Prop where
  localAddress : ∀ x, (d.node x).localAddress = x
  successorB : (d.node sampleB).successorAddr = sampleC
  successorC : (d.node sampleC).successorAddr = sampleA
  successorA : (d.node sampleA).successorAddr = sampleB
  inFlight : d.inFlight = [sampleLate, ⟨sampleB, sampleC, ⟨0, .ringstate sampleD⟩⟩]

theorem SampleLoop.round {d : ChordNet} (h : SampleLoop d) (w : RingWalk) :
    Run ChordNet.step SampleAllowed d sampleRound d ∧
      (history ChordNet.step (ChordNet.noteWalk sampleD 0) d w sampleRound).deliveries =
        w.deliveries + 3 := by
  obtain ⟨node, inFlight⟩ := d
  obtain rfl : inFlight = _ := h.inFlight
  have hallowed : ∀ a b : Ipv4Address, sampleD ≠ a →
      SampleAllowed ⟨node, [sampleLate, ⟨a, b, ⟨0, .ringstate sampleD⟩⟩]⟩ (.deliver 1) := by
    intro a b ha
    refine ⟨?_, trivial⟩
    intro p hp q hq
    obtain rfl : _ = p := Option.some.inj hp
    obtain rfl := List.mem_singleton.mp hq
    exact fun heq => ha heq.1
  obtain ⟨hC, hnC⟩ := sampleWalk_step (q := sampleLate) (a := sampleB) h.localAddress (by decide)
    h.successorC (by decide) w
  have hA := fun w => sampleWalk_step (q := sampleLate) (a := sampleC) h.localAddress (by decide)
    h.successorA (by decide) w
  have hB := fun w => sampleWalk_step (q := sampleLate) (a := sampleA) h.localAddress (by decide)
    h.successorB (by decide) w
  constructor
  · exact ((Run.single (hallowed _ _ (by decide)) hC).snoc (hallowed _ _ (by decide))
      (hA w).1).snoc (hallowed _ _ (by decide)) (hB w).1
  · simp only [sampleRound, history, hC, (hA w).1, (hB w).1]
    rw [(hB _).2, (hA _).2, hnC]

theorem SampleLoop.rounds {d : ChordNet} (h : SampleLoop d) (n : ℕ) :
    ∀ w : RingWalk, ∃ es, Run ChordNet.step SampleAllowed d es d ∧
      (history ChordNet.step (ChordNet.noteWalk sampleD 0) d w es).deliveries =
        w.deliveries + 3 * n := by
  induction n with
  | zero => exact fun w => ⟨[], .nil, rfl⟩
  | succ n ih =>
      intro w
      obtain ⟨hround, hcount⟩ := h.round w
      obtain ⟨es, hrun, hes⟩ := ih (history ChordNet.step
          (ChordNet.noteWalk sampleD 0) d w sampleRound)
      refine ⟨sampleRound ++ es, hround.trans hrun, ?_⟩
      rw [hround.history_append, hes, hcount]
      omega

/-- D leaves while its walk is under way. A hands the walk on to B, which has
reported before, and the walk never ends. -/
theorem ring_walk_loops :
    StableNet sampleFour sampleFourMembers ∧
    ∃ c₁ d, ChordNet.step sampleFour (.ringstate sampleD) = .ok c₁ ∧
      Run ChordNet.step SampleAllowed c₁ sampleLeaver d ∧
      Run ChordNet.step SampleAllowed c₁ (sampleLeaver ++ sampleRound) d ∧
      (sampleFour.walkHistory sampleD (sampleLeaver ++ sampleRound)).reports =
        [sampleD, sampleB, sampleC, sampleA, sampleB] ∧
      ∀ n, ∃ es, Run ChordNet.step SampleAllowed c₁ es d ∧
        n ≤ (sampleFour.walkHistory sampleD es).deliveries := by
  have hrun : ((ChordNet.step sampleFour (.ringstate sampleD)).toOption.bind fun c₁ =>
      (execute ChordNet.step SampleAllowed c₁ sampleLeaver).map fun d =>
        decide ((d.node sampleB).successorAddr = sampleC ∧
          (d.node sampleC).successorAddr = sampleA ∧ (d.node sampleA).successorAddr = sampleB ∧
          d.inFlight = [sampleLate, ⟨sampleB, sampleC, ⟨0, .ringstate sampleD⟩⟩])) = some true := by
    decide
  obtain ⟨c₁, hc₁, hrun⟩ := Option.bind_eq_some_iff.mp hrun
  obtain ⟨d, hd, hfacts⟩ := Option.map_eq_some_iff.mp hrun
  obtain ⟨hB, hC, hA, hflight⟩ := of_decide_eq_true hfacts
  have hstart := eq_ok_of_toOption hc₁
  have hleave : Run ChordNet.step SampleAllowed c₁ sampleLeaver d := .of_execute hd
  have hlocal : ∀ x, (d.node x).localAddress = x := by
    have hone : Run ChordNet.step (fun _ _ => True) sampleFour [.ringstate sampleD] c₁ :=
      Run.single trivial hstart
    exact ChordNet.run_localAddress
      (ChordNet.run_localAddress sampleFour_stable.localAddress hone) hleave
  have hloop : SampleLoop d := ⟨hlocal, hB, hC, hA, hflight⟩
  refine ⟨sampleFour_stable, c₁, d, hstart, hleave, hleave.trans (hloop.round ⟨[], 0⟩).1,
    by decide, fun n => ?_⟩
  obtain ⟨es, hes, hcount⟩ := hloop.rounds n
    (history ChordNet.step (ChordNet.noteWalk sampleD 0) c₁
      (sampleFour.noteWalk sampleD 0 (.ringstate sampleD) ⟨[], 0⟩) sampleLeaver)
  refine ⟨sampleLeaver ++ es, hleave.trans hes, ?_⟩
  have hid : (sampleFour.node sampleD).currentTransactionId = 0 := rfl
  rw [ChordNet.walkHistory_eq hstart, hid, hleave.history_append, hcount]
  omega

end PennSearch
