import PennSearch.Chord.RingWalk

/-!
# What RINGSTATE reports on a stable ring

While no node joins or leaves, the walk visits the members one after the other and
leaves none out: those that have reported are the members up to the last one, and
the one packet is for the next. So the walk is over exactly when it is back at the
node that started it, and by then every member has reported once.
-/

namespace PennSearch

open Clockwise MessagePassing

variable [Sha1] {R : Finset Ipv4Address} {c c' c₁ : ChordNet} {i : Ipv4Address} {tx : UInt32}
  {e : ChordEvent} {w : RingWalk} {p : ChordPacket} {es : List ChordEvent}

/-- Every member has reported once, in clockwise order from `i`, and the message has
gone once around the ring. -/
structure RingWalk.Census (R : Finset Ipv4Address) (i : Ipv4Address) (w : RingWalk) : Prop where
  mem_iff : ∀ a, a ∈ w.reports ↔ a ∈ R
  order : w.reports.Pairwise fun a b =>
    cwDist (nodePos i) (nodePos a) < cwDist (nodePos i) (nodePos b)
  deliveries : w.deliveries = R.card

namespace ChordNet

def Reported (R : Finset Ipv4Address) (i last : Ipv4Address) (w : RingWalk) : Prop :=
  last ∈ R ∧ ∀ a, a ∈ w.reports ↔
    a ∈ R ∧ cwDist (nodePos i) (nodePos a) ≤ cwDist (nodePos i) (nodePos last)

/-- The walk has reached `last`, and is on its way to the next member or over. -/
structure WalkCovers (R : Finset Ipv4Address) (i : Ipv4Address) (tx : UInt32) (c : ChordNet)
    (w : RingWalk) : Prop where
  order : WalkOrder i tx c w
  covers : ∃ last, Reported R i last w ∧
    ((c.walkPackets i tx = 1 ∧ w.deliveries + 1 = w.reports.length ∧
        ∀ p ∈ c.inFlight, ofWalk i tx p = true → IsNext nodePos R last p.dst) ∨
      (c.walkPackets i tx = 0 ∧ w.deliveries = w.reports.length ∧ IsNext nodePos R last i))

theorem Reported.next {last b : Ipv4Address} (hinj : Set.InjOn nodePos (R : Set Ipv4Address))
    (h : Reported R i last w) (hi : i ∈ R) (hnext : IsNext nodePos R last b) (hne : b ≠ i)
    (deliveries : ℕ) : Reported R i b ⟨w.reports ++ [b], deliveries⟩ := by
  refine ⟨hnext.1, fun a => ?_⟩
  have hpos : (nodePos b).val ≠ (nodePos i).val := fun hv => hne (hinj hnext.1 hi (Fin.ext hv))
  have hback := hnext.2 i hi
  have d₁ := cwDist_cases (nodePos i) (nodePos last)
  have d₂ := cwDist_cases (nodePos i) (nodePos b)
  have d₃ := cwDist_cases (nodePos last) (nodePos b)
  have d₄ := cwDist_cases (nodePos last) (nodePos i)
  have t₁ := cwTurn_cases (nodePos last) (nodePos b)
  have t₂ := cwTurn_cases (nodePos last) (nodePos i)
  rw [List.mem_append, List.mem_singleton, h.2]
  constructor
  · rintro (⟨ha, hle⟩ | rfl)
    · exact ⟨ha, by omega⟩
    · exact ⟨hnext.1, le_rfl⟩
  · rintro ⟨ha, hle⟩
    by_cases hab : a = b
    · exact Or.inr hab
    · have hab' : (nodePos a).val ≠ (nodePos b).val := fun hv => hab (hinj ha hnext.1 (Fin.ext hv))
      have hskip := hnext.2 a ha
      have d₅ := cwDist_cases (nodePos i) (nodePos a)
      have d₆ := cwDist_cases (nodePos last) (nodePos a)
      have t₃ := cwTurn_cases (nodePos last) (nodePos a)
      exact Or.inl ⟨ha, by omega⟩

theorem Reported.all {last : Ipv4Address} (h : Reported R i last w)
    (hnext : IsNext nodePos R last i) (a : Ipv4Address) : a ∈ w.reports ↔ a ∈ R := by
  rw [h.2, and_iff_left_iff_imp]
  intro ha
  have hskip := hnext.2 a ha
  have hlast := hnext.2 last h.1
  have d₁ := cwDist_cases (nodePos i) (nodePos last)
  have d₂ := cwDist_cases (nodePos i) (nodePos a)
  have d₃ := cwDist_cases (nodePos last) (nodePos i)
  have d₄ := cwDist_cases (nodePos last) (nodePos a)
  have t₁ := cwTurn_cases (nodePos last) (nodePos i)
  have t₂ := cwTurn_cases (nodePos last) (nodePos a)
  have t₃ := cwTurn_cases (nodePos last) (nodePos last)
  omega

theorem reported_start (hinj : Set.InjOn nodePos (R : Set Ipv4Address)) (hi : i ∈ R)
    (deliveries : ℕ) : Reported R i i ⟨[i], deliveries⟩ := by
  refine ⟨hi, fun a => ?_⟩
  rw [List.mem_singleton, cwDist_self, Nat.le_zero]
  constructor
  · rintro rfl
    exact ⟨hi, cwDist_self _⟩
  · rintro ⟨ha, hzero⟩
    exact hinj ha hi (cwDist_inj_right (hzero.trans (cwDist_self _).symm))

omit [Sha1] in
theorem walkPackets_deliver {k : ℕ} (hk : c.inFlight[k]? = some p) (hof : ofWalk i tx p = true)
    (hone : c.walkPackets i tx = 1) (n : ChordNode) (sent : List ChordPacket) :
    walkPackets i tx ((c.take k).act p.dst n sent) = sent.countP (ofWalk i tx) ∧
      ∀ q ∈ c.inFlight.eraseIdx k, ofWalk i tx q = false := by
  have hcount := countP_eq_eraseIdx (ofWalk i tx) hk
  rw [hof, if_pos rfl] at hcount
  rw [walkPackets] at hone
  have hrest : (c.inFlight.eraseIdx k).countP (ofWalk i tx) = 0 := by omega
  refine ⟨?_, fun q hq => by simpa using List.countP_eq_zero.mp hrest q hq⟩
  rw [walkPackets, Net.act_inFlight, Net.take_inFlight, List.countP_append, hrest, Nat.zero_add]

namespace WalkCovers

theorem deliver (h : WalkCovers R i tx c w) (hinj : Set.InjOn nodePos (R : Set Ipv4Address))
    (hi : i ∈ R) (hlocal : ∀ b, (c.node b).localAddress = b) (hring : StableRing c.node R) {k : ℕ}
    (hk : c.inFlight[k]? = some p) (hof : ofWalk i tx p = true)
    (hstep : c.step (.deliver k) = .ok c') :
    WalkCovers R i tx c' (c.noteWalk i tx (.deliver k) w) := by
  have hp := mem_of_getElem? hk
  obtain ⟨last, hreported, ⟨hone, hlength, hnext⟩ | ⟨hzero, -⟩⟩ := h.covers
  · have hpnext := hnext p hp hof
    have hadvance : (c.node p.dst).WalkAdvances i := by
      refine walkAdvances_of_isNext hinj hi ((hlocal p.dst).symm ▸ hpnext.1) ?_
      rw [hlocal]
      exact hring.successor p.dst hpnext.1
    refine ⟨h.order.deliver hlocal hk hof hadvance hstep, ?_⟩
    rw [step_walk hlocal hk hof] at hstep
    rw [noteWalk_deliver hlocal hk hof, ← Except.ok.inj hstep]
    by_cases hback : i = p.dst
    · -- the walk is back at the initiator
      rw [if_pos hback, if_pos hback]
      refine ⟨last, hreported, Or.inr ⟨?_, hlength, hback ▸ hpnext⟩⟩
      rw [(walkPackets_deliver hk hof hone _ _).1, List.countP_nil]
    · rw [if_neg hback, if_neg hback]
      have hsucc := hring.successor p.dst hpnext.1
      have hany : (c.node p.dst).successorAddr ≠ .getAny :=
        fun heq => hring.getAny_notMem (heq ▸ hsucc.1)
      have hsent : sentPackets p.dst [.sendTo (c.node p.dst).successorAddr p.msg] =
          [⟨p.dst, (c.node p.dst).successorAddr, p.msg⟩] := by simp [sentPackets, hany]
      obtain ⟨hpackets, hrest⟩ := walkPackets_deliver hk hof hone (c.node p.dst)
        (sentPackets p.dst [.sendTo (c.node p.dst).successorAddr p.msg])
      refine ⟨p.dst, hreported.next hinj hi hpnext (Ne.symm hback) _, Or.inl ⟨?_, ?_, ?_⟩⟩
      · rw [hpackets, hsent]
        exact List.countP_singleton.trans (if_pos hof)
      · rw [List.length_append, List.length_singleton, hlength]
      · intro q hq hofq
        rcases List.mem_append.mp hq with hq | hq
        · rw [hrest q hq] at hofq
          cases hofq
        · rw [hsent, List.mem_singleton] at hq
          rw [hq]
          exact hsucc
  · have hpos : 0 < c.walkPackets i tx := List.countP_pos_iff.mpr ⟨p, hp, hof⟩
    omega

/-- An event that neither starts the walk nor delivers a packet of it. -/
theorem other (h : WalkCovers R i tx c w) (hlocal : ∀ b, (c.node b).localAddress = b)
    (hcall : e = .ringstate i → (c.node i).currentTransactionId ≠ tx)
    (hdeliver : ∀ k q, e = .deliver k → c.inFlight[k]? = some q → ofWalk i tx q = false)
    (hstep : c.step e = .ok c') : WalkCovers R i tx c' w := by
  have hsame : c'.walkPackets i tx = c.walkPackets i tx ∧
      ∀ q ∈ c'.inFlight, ofWalk i tx q = true → q ∈ c.inFlight := by
    refine step_countP hstep (fun c₀ b n acts hturn q hq => ?_) hdeliver
    by_contra hof
    rcases turn_sends_ofWalk hlocal hturn hq (by simpa using hof) with
      ⟨he, hid⟩ | ⟨k, q', he, hk, hof', -⟩
    · exact hcall he hid
    · rw [hdeliver k q' he hk] at hof'
      cases hof'
  refine ⟨h.order.other hlocal hcall hdeliver hstep, ?_⟩
  obtain ⟨last, hreported, ⟨hone, hlength, hnext⟩ | hover⟩ := h.covers
  · exact ⟨last, hreported, Or.inl ⟨hsame.1.trans hone, hlength,
      fun q hq hof => hnext q (hsame.2 q hq hof) hof⟩⟩
  · exact ⟨last, hreported, Or.inr ⟨hsame.1.trans hover.1, hover.2⟩⟩

theorem step (h : WalkCovers R i tx c w) (hinj : Set.InjOn nodePos (R : Set Ipv4Address))
    (hi : i ∈ R) (hlocal : ∀ b, (c.node b).localAddress = b) (hring : StableRing c.node R)
    (hone : OneWalk i tx c e) (hstep : c.step e = .ok c') :
    WalkCovers R i tx c' (c.noteWalk i tx e w) := by
  have hother : (e = .ringstate i → (c.node i).currentTransactionId ≠ tx) →
      (∀ k q, e = .deliver k → c.inFlight[k]? = some q → ofWalk i tx q = false) →
        WalkCovers R i tx c' w := fun hcall hdeliver => h.other hlocal hcall hdeliver hstep
  cases e with
  | deliver k =>
      by_cases hwalk : ∃ q, c.inFlight[k]? = some q ∧ ofWalk i tx q = true
      · obtain ⟨q, hk, hof⟩ := hwalk
        exact h.deliver hinj hi hlocal hring hk hof hstep
      · have hnot : ∀ q, c.inFlight[k]? = some q → ofWalk i tx q = false :=
          fun q hq => Bool.eq_false_iff.mpr fun hof => hwalk ⟨q, hq, hof⟩
        rw [noteWalk_other hnot]
        refine hother (fun he => by cases he) fun k' q hk' hq => ?_
        cases hk'
        exact hnot q hq
  | ringstate a =>
      have hne : ¬ (a = i ∧ (c.node a).chordStatus = true ∧
          (c.node a).currentTransactionId = tx) := by
        rintro ⟨rfl, -, hid⟩
        exact hone rfl hid
      simp only [noteWalk, if_neg hne]
      refine hother (fun he => ?_) fun k q hk => by cases hk
      cases he
      exact hone rfl
  | _ => exact hother (fun he => by cases he) fun k q hk => by cases hk

theorem start (hinj : Set.InjOn nodePos (R : Set Ipv4Address)) (hi : i ∈ R)
    (hlocal : ∀ b, (c.node b).localAddress = b) (hring : StableRing c.node R)
    (hid : (c.node i).currentTransactionId = tx) (hnone : c.walkPackets i tx = 0)
    (hstep : c.step (.ringstate i) = .ok c₁) :
    WalkCovers R i tx c₁ (c.noteWalk i tx (.ringstate i) ⟨[], 0⟩) := by
  have hmem := hring.status i hi
  obtain ⟨c₂, hstep₂, -, horder⟩ := walkOrder_start hlocal hmem hid hnone
  obtain rfl := Except.ok.inj (hstep₂.symm.trans hstep)
  have hsucc := hring.successor i hi
  have hany : (c.node i).successorAddr ≠ .getAny :=
    fun heq => hring.getAny_notMem (heq ▸ hsucc.1)
  have hcommand : c.turn (.ringstate i) = some (c, i, .ok ((c.node i).nextTransactionId,
      [.sendTo (c.node i).successorAddr ⟨tx, .ringstate i⟩])) := by
    simp [turn, ChordNode.processRingstateCommand, hmem, hid, hlocal]
  have hsent : sentPackets i [.sendTo (c.node i).successorAddr ⟨tx, .ringstate i⟩] =
      [⟨i, (c.node i).successorAddr, ⟨tx, .ringstate i⟩⟩] := by simp [sentPackets, hany]
  have hnet := Except.ok.inj (hstep.symm.trans (step_of_turn hcommand))
  rw [hsent] at hnet
  have hnote : c.noteWalk i tx (.ringstate i) ⟨[], 0⟩ = ⟨[i], 0⟩ := if_pos ⟨rfl, hmem, hid⟩
  rw [hnote] at horder ⊢
  refine ⟨horder, i, reported_start hinj hi 0, Or.inl ⟨?_, rfl, fun q hq hof => ?_⟩⟩
  · rw [walkPackets] at hnone
    rw [hnet, walkPackets, Net.act_inFlight, List.countP_append, hnone, Nat.zero_add]
    exact List.countP_singleton.trans (if_pos (decide_eq_true rfl))
  · rw [hnet] at hq
    rcases List.mem_append.mp hq with hq | hq
    · exact absurd hof (by simpa using List.countP_eq_zero.mp hnone q hq)
    · rw [List.mem_singleton.mp hq]
      exact hsucc

theorem run (h : WalkCovers R i tx c w) (hinj : Set.InjOn nodePos (R : Set Ipv4Address))
    (hi : i ∈ R) (hlocal : ∀ b, (c.node b).localAddress = b) (hsettled : Settled R c.view)
    (hrun : Run ChordNet.step (fun d e => e.KeepsMembers ∧ OneWalk i tx d e) c es c') :
    WalkCovers R i tx c' (history ChordNet.step (noteWalk i tx) c w es) ∧
      ∀ b, (c'.node b).localAddress = b := by
  suffices hall : WalkCovers R i tx c' (history ChordNet.step (noteWalk i tx) c w es) ∧
      (∀ b, (c'.node b).localAddress = b) ∧ Settled R c'.view from ⟨hall.1, hall.2.1⟩
  refine hrun.history_invariant (I := fun d w => WalkCovers R i tx d w ∧
    (∀ b, (d.node b).localAddress = b) ∧ Settled R d.view) ⟨h, hlocal, hsettled⟩ ?_
  rintro d w e d' ⟨hcovers, hlocal, hsettled⟩ ⟨hkeeps, hone⟩ hstep
  obtain ⟨hview, hlocal'⟩ :=
    step_view (F := fun _ _ => True) hlocal (fun _ _ _ _ => trivial) hstep
  exact ⟨hcovers.step hinj hi hlocal (hsettled.stableRing hlocal) hone hstep, hlocal',
    (hsettled.step hinj (hkeeps.ringEvent d) hview).1⟩

theorem nodup (h : WalkCovers R i tx c w) : w.reports.Nodup := h.order.stops.reports_nodup

theorem length_le (h : WalkCovers R i tx c w) : w.reports.length ≤ R.card := by
  obtain ⟨last, hreported, -⟩ := h.covers
  rw [← List.toFinset_card_of_nodup h.nodup]
  refine Finset.card_le_card fun a ha => ?_
  exact ((hreported.2 a).mp (List.mem_toFinset.mp ha)).1

/-- A walk without a packet in flight is complete. -/
theorem census (h : WalkCovers R i tx c w) (hinj : Set.InjOn nodePos (R : Set Ipv4Address))
    (hi : i ∈ R) (hzero : c.walkPackets i tx = 0) : w.Census R i := by
  obtain ⟨last, hreported, ⟨hone, -⟩ | ⟨-, hlength, hnext⟩⟩ := h.covers
  · omega
  · have hall := hreported.all hnext
    obtain ⟨rest, hreports, hnot, hpairwise, -⟩ := h.order.reports
    refine ⟨hall, ?_, ?_⟩
    · rw [hreports, List.pairwise_cons]
      refine ⟨fun a ha => ?_, hpairwise⟩
      have haR := (hall a).mp (hreports ▸ List.mem_cons_of_mem i ha)
      have hne : (nodePos a).val ≠ (nodePos i).val :=
        fun hv => hnot (hinj haR hi (Fin.ext hv) ▸ ha)
      have d := cwDist_cases (nodePos i) (nodePos a)
      rw [cwDist_self]
      omega
    · rw [hlength, ← List.toFinset_card_of_nodup h.nodup]
      congr 1
      ext a
      rw [List.mem_toFinset, hall]

end WalkCovers

end ChordNet

/-- RINGSTATE reports the ring. On a stable ring, whatever else is in flight and
whatever happens but joins and leaves, the walk that a member starts is never lost: as
long as its message is in flight, its delivery takes it on, fewer times than there are
members; and once it is not, every member has reported exactly once, in clockwise order
from the initiator, after as many deliveries as there are members. -/
theorem ring_census {c : ChordNet} {R : Finset Ipv4Address} {i : Ipv4Address} {tx : UInt32}
    (hinj : Set.InjOn nodePos (R : Set Ipv4Address)) (hsettled : Settled R c.view)
    (hlocal : ∀ b, (c.node b).localAddress = b) (hi : i ∈ R)
    (hid : (c.node i).currentTransactionId = tx) (hnone : c.walkPackets i tx = 0) :
    ∃ c₁, c.step (.ringstate i) = .ok c₁ ∧
      ∀ es c', Run ChordNet.step (fun d e => e.KeepsMembers ∧ ChordNet.OneWalk i tx d e) c₁ es c' →
        (c'.walkPackets i tx = 0 → (c.walkHistory i es).Census R i) ∧
          (c'.walkPackets i tx ≠ 0 → (c.walkHistory i es).deliveries < R.card ∧
            ∃ k c'', c'.step (.deliver k) = .ok c'' ∧
              (c.walkHistory i (es ++ [.deliver k])).deliveries =
                (c.walkHistory i es).deliveries + 1) := by
  have hring := hsettled.stableRing hlocal
  obtain ⟨c₁, hstart, hlocal₁, -⟩ :=
    ChordNet.walkOrder_start hlocal (hring.status i hi) hid hnone
  refine ⟨c₁, hstart, fun es c' hrun => ?_⟩
  have hsettled₁ : Settled R c₁.view := by
    obtain ⟨hview, -⟩ := ChordNet.step_view (F := fun _ _ => True) hlocal
      (fun _ _ _ _ => trivial) hstart
    have hkeeps : (ChordEvent.ringstate i).KeepsMembers := trivial
    exact (hsettled.step hinj (hkeeps.ringEvent c) hview).1
  obtain ⟨hcovers, hlocal'⟩ := ChordNet.WalkCovers.run
    (.start hinj hi hlocal hring hid hnone hstart) hinj hi hlocal₁ hsettled₁ hrun
  have hhistory := ChordNet.walkHistory_eq hstart
  rw [hid] at hhistory
  refine ⟨fun hzero => ?_, fun hpacket => ⟨?_, ?_⟩⟩
  · rw [hhistory]
    exact hcovers.census hinj hi hzero
  · rw [hhistory]
    have hle := hcovers.length_le
    obtain ⟨last, -, ⟨-, hlength, -⟩ | ⟨hzero, -⟩⟩ := hcovers.covers
    · omega
    · exact absurd hzero hpacket
  · obtain ⟨p, hp, hof⟩ := List.countP_pos_iff.mp (Nat.pos_of_ne_zero hpacket)
    obtain ⟨k, hk⟩ := List.getElem?_of_mem hp
    refine ⟨k, _, ChordNet.step_walk hlocal' hk hof, ?_⟩
    rw [hhistory, hhistory, hrun.history_snoc (ChordNet.step_walk hlocal' hk hof),
      ChordNet.noteWalk_deliver hlocal' hk hof]

end PennSearch

namespace PennSearch

open Clockwise MessagePassing

attribute [local instance] sampleSha1

/-- D reports the ring of four, while A asks its successor for a predecessor. -/
theorem ring_census_sample :
    ∃ c₁ c', ChordNet.step sampleFour (.ringstate sampleD) = .ok c₁ ∧
      Run ChordNet.step (fun d e => e.KeepsMembers ∧ ChordNet.OneWalk sampleD 0 d e) c₁
        [.deliver 0, .stabilize sampleA, .deliver 0, .deliver 1, .deliver 1] c' ∧
      (sampleFour.walkHistory sampleD
        [.deliver 0, .stabilize sampleA, .deliver 0, .deliver 1, .deliver 1]).Census
          sampleFourMembers sampleD := by
  have hrun : ((ChordNet.step sampleFour (.ringstate sampleD)).toOption.bind fun c₁ =>
      (execute ChordNet.step (fun d e => e.KeepsMembers ∧ ChordNet.OneWalk sampleD 0 d e) c₁
        [.deliver 0, .stabilize sampleA, .deliver 0, .deliver 1, .deliver 1]).map fun c' =>
          decide (c'.walkPackets sampleD 0 = 0)) = some true := by
    decide
  obtain ⟨c₁, hc₁, hrun⟩ := Option.bind_eq_some_iff.mp hrun
  obtain ⟨c', hc', hover⟩ := Option.map_eq_some_iff.mp hrun
  have hstart := eq_ok_of_toOption hc₁
  have hsettled : Settled sampleFourMembers sampleFour.view :=
    ⟨sampleFour_stable.stableAt, by simp [ChordNet.view_inFlight_nil sampleFour_stable.inFlight]⟩
  obtain ⟨c₂, hstart₂, hcensus⟩ := ring_census sampleFour_injOn hsettled
    sampleFour_stable.localAddress (i := sampleD) (by decide) rfl (by decide)
  obtain rfl := Except.ok.inj (hstart.symm.trans hstart₂)
  exact ⟨c₁, c', hstart, .of_execute hc',
    (hcensus _ _ (.of_execute hc')).1 (of_decide_eq_true hover)⟩

end PennSearch
