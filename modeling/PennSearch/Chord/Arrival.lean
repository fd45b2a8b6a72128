import PennSearch.Chord.Fingers
import PennSearch.Chord.JoinConverges
import PennSearch.Chord.Kinds

/-!
# A join among other traffic

`Chord/JoinConverges.lean` follows a join as long as only pointer messages are in
flight. Here the members may repair their fingers and look keys up at the same
time. `JoinPhase` says how far the join is, and `present` which nodes are on the
ring by then: they never become fewer, and they know no others. `turn_cases` says
which turns make a node hand keys over.
-/

namespace PennSearch

open Clockwise MessagePassing

variable [Sha1] {R : Finset Ipv4Address} {X : Ipv4Address}

/-- A ring of several nodes, and a newcomer with a digest of its own. -/
structure JoinSite (R : Finset Ipv4Address) (X : Ipv4Address) : Prop where
  newcomer : X ∉ R
  injOn : Set.InjOn nodePos (insert X R : Finset Ipv4Address)
  several : 1 < R.card
  getAny_notMem : .getAny ∉ insert X R

theorem JoinSite.ne_singleton (hsite : JoinSite R X) (a : Ipv4Address) : R ≠ {a} := by
  intro hR
  have hseveral := hsite.several
  rw [hR, Finset.card_singleton] at hseveral
  exact lt_irrefl 1 hseveral

theorem JoinSite.ne_getAny (hsite : JoinSite R X) {a : Ipv4Address} (ha : a ∈ insert X R) :
    a ≠ .getAny := fun heq => hsite.getAny_notMem (heq ▸ ha)

theorem JoinSite.injOn_ring (hsite : JoinSite R X) : Set.InjOn nodePos (R : Set Ipv4Address) :=
  hsite.injOn.mono (Finset.coe_subset.mpr (Finset.subset_insert X R))

/-! ## How far the join is -/

/-- How far the join of `X` is; `issued` says whether `X` has issued its JOIN. -/
inductive JoinPhase (R : Finset Ipv4Address) (X : Ipv4Address) : (issued : Bool) → RingNet → Prop
  | before {v : RingNet} (settled : Settled R v) (newcomer : v.node X = .outside) :
      JoinPhase R X false v
  | joining {v : RingNet} (joining : Joining R X v) (old : ∀ a ∈ R, (v.node a).successor ≠ X) :
      JoinPhase R X true v
  | joined {v : RingNet} (joined : Joined R X v) : JoinPhase R X true v

omit [Sha1] in
def present (R : Finset Ipv4Address) (X : Ipv4Address) (v : RingNet) : Finset Ipv4Address :=
  if (v.node X).member then insert X R else R

omit [Sha1] in
theorem subset_present (v : RingNet) : R ⊆ present R X v := by
  unfold present
  split
  · exact Finset.subset_insert X R
  · exact subset_rfl

omit [Sha1] in
theorem present_subset (v : RingNet) : present R X v ⊆ insert X R := by
  unfold present
  split
  · exact subset_rfl
  · exact Finset.subset_insert X R

omit [Sha1] in
theorem present_of_outside {v : RingNet} (h : v.node X = .outside) : present R X v = R := by
  rw [present, h]
  rfl

theorem Joined.present_eq {v : RingNet} (h : Joined R X v) : present R X v = insert X R := by
  rw [present, (h.takesPart X (Finset.mem_insert_self X R)).member, if_pos rfl]

theorem TakesPart.predecessor_ne {A : Finset Ipv4Address} {a : Ipv4Address} {q : Pointers}
    (h : TakesPart R X A a q) (hsite : JoinSite R X) (ha : a ∈ R) :
    q.predecessor ≠ .getAny := by
  rcases h.predecessor with hpred | hpred | ⟨rfl, -⟩
  · unfold IsPredecessor at hpred
    rw [if_neg (hsite.ne_singleton a)] at hpred
    exact hsite.ne_getAny (Finset.mem_insert_of_mem hpred.1)
  · unfold IsPredecessor at hpred
    split at hpred
    · rename_i hR
      have hXa : X ∈ ({a} : Finset Ipv4Address) := hR ▸ Finset.mem_insert_self X R
      exact absurd (Finset.mem_singleton.mp hXa ▸ ha) hsite.newcomer
    · exact hsite.ne_getAny hpred.1
  · exact absurd ha hsite.newcomer

theorem TakesPart.next_of_predecessor {A : Finset Ipv4Address} {a : Ipv4Address} {q : Pointers}
    (h : TakesPart R X A a q) (hsite : JoinSite R X) (hpred : q.predecessor = X) :
    IsNext nodePos (insert X R) X a := by
  have hX : X ∈ insert X R := Finset.mem_insert_self X R
  have hany := hsite.ne_getAny hX
  rcases h.predecessor with hold | hnew | ⟨-, hnone⟩
  · unfold IsPredecessor at hold
    split at hold
    · exact absurd (hpred.symm.trans hold) hany
    · exact absurd (hpred ▸ hold.1) hsite.newcomer
  · unfold IsPredecessor at hnew
    split at hnew
    · exact absurd (hpred.symm.trans hnew) hany
    · exact hpred ▸ hnew.2
  · exact absurd (hpred.symm.trans hnone) hany

namespace JoinPhase

variable {issued : Bool} {v v' : RingNet} {F : Ipv4Address → Ipv4Address → Prop} {e : RingEvent}
  {a : Ipv4Address} {q : Pointers} {out : List RingAction}

theorem takesPart (h : JoinPhase R X issued v) (ha : a ∈ present R X v) :
    TakesPart R X (present R X v) a (v.node a) := by
  cases h with
  | before settled newcomer =>
      rw [present_of_outside newcomer] at ha ⊢
      exact settled.takesPart ha
  | joining joining old =>
      rw [present_of_outside joining.newcomer] at ha ⊢
      exact joining.takesPart a ha
  | joined joined =>
      rw [joined.present_eq] at ha ⊢
      exact joined.takesPart a ha

theorem outside (h : JoinPhase R X issued v) (ha : a ∉ present R X v) :
    (v.node a).member = false := by
  cases h with
  | before settled newcomer =>
      rw [present_of_outside newcomer] at ha
      rw [← Bool.not_eq_true]
      exact fun hmember => ha ((settled.member a).mp hmember)
  | joining joining old =>
      rw [present_of_outside joining.newcomer] at ha
      exact joining.outside a ha
  | joined joined =>
      rw [joined.present_eq] at ha
      exact joined.outside a ha

theorem traffic (h : JoinPhase R X issued v) {p : RingPacket} (hp : p ∈ v.inFlight) :
    JoinToken R X p ∨ Chatter R X (present R X v) p := by
  cases h with
  | before settled newcomer =>
      rw [present_of_outside newcomer]
      exact Or.inr (settled.chatter hp)
  | joining joining old =>
      rw [present_of_outside joining.newcomer]
      exact joining.traffic p hp
  | joined joined =>
      rw [joined.present_eq]
      exact Or.inr (joined.traffic p hp)

theorem successor_mem (h : JoinPhase R X issued v) (hsite : JoinSite R X) (ha : a ∈ present R X v) :
    (v.node a).successor ∈ present R X v := by
  cases h with
  | before settled newcomer =>
      rw [present_of_outside newcomer] at ha ⊢
      exact (settled.successor a ha).1
  | joining joining old =>
      rw [present_of_outside joining.newcomer] at ha ⊢
      exact ((joining.takesPart a ha).successor.isNext hsite.newcomer (old a ha)).1
  | joined joined =>
      rw [joined.present_eq] at ha ⊢
      exact (joined.takesPart a ha).successor.mem

/-- While the newcomer is outside no member of a ring of several takes it up. -/
theorem old_step (joining : Joining R X v) (old : ∀ a ∈ R, (v.node a).successor ≠ X)
    (hsite : JoinSite R X) (he : v.JoinTraffic e) (hstep : RingStep F v e v') :
    ∀ a ∈ R, (v'.node a).successor ≠ X := by
  obtain ⟨b, q, out, hturn, rfl⟩ := hstep
  intro a ha
  have hkeep : a = b → q.successor ≠ X := by
    rintro rfl
    cases hturn with
    | quiet a => exact old a ha
    | stabilizeSkip skip => exact old a ha
    | stabilize member several => exact old a ha
    | deliver packet reacts =>
        rename_i k p
        rcases joining.traffic p (mem_of_getElem? packet) with htoken | hchatter
        · cases htoken with
          | request dst_mem =>
              rename_i dst
              cases reacts with
              | joinSplit member alone =>
                  exact absurd alone (joining.successor_ne hsite.newcomer hsite.injOn ha
                    (hsite.ne_singleton dst) dst ha)
              | _ => exact old dst ha
          | relayed dst_mem several => cases reacts <;> exact old _ ha
          | answer next => exact absurd ha hsite.newcomer
        · obtain ⟨-, -, hnotify, hsucc | ⟨hout, -⟩⟩ := hchatter.reacts hsite.newcomer hsite.injOn
            (Finset.subset_insert X R) ha (joining.takesPart _ ha) reacts
          · exact hsucc ▸ old _ ha
          · intro heq
            exact hsite.newcomer (heq ▸ hnotify q.successor (hout ▸ List.mem_singleton_self _))
    | _ => exact he.elim
  rw [Net.act_node]
  split
  · rename_i hab
    exact hkeep hab
  · cases e <;> exact old a ha

/-- The events after the JOIN take the join further, and nobody leaves the ring. -/
theorem step (h : JoinPhase R X issued v) (hsite : JoinSite R X)
    (hF : ∀ a ∈ present R X v, ∀ hop, F a hop → hop ∈ present R X v) (he : v.JoinTraffic e)
    (hstep : RingStep F v e v') :
    JoinPhase R X issued v' ∧ present R X v ⊆ present R X v' := by
  cases h with
  | before settled newcomer =>
      obtain ⟨hsettled, hnode⟩ := settled.step hsite.injOn_ring (by cases e <;> trivial) hstep
      refine ⟨.before hsettled (hnode ▸ newcomer), ?_⟩
      rw [present_of_outside newcomer]
      exact subset_present v'
  | joining joining old =>
      have hR : R.Nonempty := Finset.card_pos.mp (Nat.zero_lt_of_lt hsite.several)
      rw [present_of_outside joining.newcomer] at hF ⊢
      refine ⟨?_, subset_present v'⟩
      rcases joining.step hsite.newcomer hsite.injOn hR hsite.getAny_notMem
        (fun a ha _ => hF a ha) he hstep with hphase | hphase
      · exact .joining hphase (old_step joining old hsite he hstep)
      · exact .joined hphase
  | joined joined =>
      have hphase := joined.step hsite.newcomer hsite.injOn hsite.getAny_notMem he hstep
      refine ⟨.joined hphase, ?_⟩
      rw [joined.present_eq, hphase.present_eq]

theorem join (h : JoinPhase R X false v) (hX : X ∉ R) {L : Ipv4Address} (hL : L ∈ R)
    (hstep : RingStep F v (.join X L) v') :
    JoinPhase R X true v' ∧ present R X v ⊆ present R X v' := by
  cases h with
  | before settled newcomer =>
      rw [present_of_outside newcomer]
      refine ⟨.joining (settled.join hX newcomer hL hstep) fun a ha => ?_, subset_present v'⟩
      have hnode : v'.node a = v.node a := by
        obtain ⟨b, q, out, hturn, rfl⟩ := hstep
        have hb : b = X := by cases hturn <;> rfl
        exact Net.act_node_of_ne _ _ _ fun hab => hX (hb ▸ hab ▸ ha)
      rw [hnode]
      exact fun heq => hX (heq ▸ (settled.successor a ha).1)

/-- Only a notification makes a node call its search layer; at the other turns no
old member takes `X` as its predecessor. -/
theorem turn_cases (h : JoinPhase R X issued v) (hsite : JoinSite R X) (he : v.JoinTraffic e)
    (hturn : RingTurn F v e a q out) :
    (∃ k src, e = .deliver k ∧ v.inFlight[k]? = some ⟨src, a, .notify⟩ ∧
        out = [.joinNotify src] ∧ q.predecessor = src ∧ NextOnce R X src a ∧
        src ∈ insert X R ∧ a ∈ insert X R ∧ (v.node a).predecessor ≠ .getAny ∧
        InArc (nodePos (v.node a).predecessor) (nodePos a) (nodePos src)) ∨
      ((∀ b, .joinNotify b ∉ out) ∧ (∀ b, .leaveNotify b ∉ out) ∧
        (a ∈ R → q.predecessor = X → (v.node a).predecessor = X)) := by
  cases hturn with
  | quiet a => exact Or.inr ⟨by simp, by simp, fun _ => id⟩
  | stabilizeSkip skip => exact Or.inr ⟨by simp, by simp, fun _ => id⟩
  | stabilize member several => exact Or.inr ⟨by simp, by simp, fun _ => id⟩
  | deliver packet reacts =>
      rename_i k p
      obtain ⟨src, dst, msg⟩ := p
      rcases h.traffic (mem_of_getElem? packet) with htoken | hchatter
      · right
        cases htoken with
        | request dst_mem => cases reacts <;> exact ⟨by simp, by simp, fun _ => id⟩
        | relayed dst_mem several => cases reacts <;> exact ⟨by simp, by simp, fun _ => id⟩
        | answer next =>
            cases reacts with
            | joined => exact ⟨by simp, by simp, fun ha => absurd ha hsite.newcomer⟩
      · cases hchatter with
        | notify src_mem dst_mem ne next =>
            cases reacts with
            | notifyFirst none =>
                refine Or.inr ⟨by simp, by simp, fun ha => absurd none ?_⟩
                exact (h.takesPart (subset_present v ha)).predecessor_ne hsite ha
            | notifyAdopt some arc =>
                exact Or.inl ⟨k, src, rfl, packet, rfl, rfl, next, present_subset v src_mem,
                  dst_mem, some, arc⟩
            | notifyIgnore some arc => exact Or.inr ⟨by simp, by simp, fun _ => id⟩
        | stabilizeReq src_mem dst_mem =>
            cases reacts <;> exact Or.inr ⟨by simp, by simp, fun _ => id⟩
        | stabilizeResp dst_mem mem =>
            cases reacts <;> exact Or.inr ⟨by simp, by simp, fun _ => id⟩
  | _ => exact he.elim

theorem predecessor_of_quiet (h : JoinPhase R X true v) (hquiet : v.inFlight = [])
    (ha : IsNext nodePos (insert X R) X a) : (v.node a).predecessor = X := by
  cases h with
  | joining joining old =>
      have hsingle := joining.single
      rw [hquiet] at hsingle
      cases hsingle
  | joined joined =>
      rcases joined.notified a ha with hmem | hpred
      · rw [hquiet] at hmem
        cases hmem
      · exact hpred

end JoinPhase

/-! ## The events besides the JOIN -/

namespace ChordNet

/-- Timers, lookups, and deliveries that keep the order between every two nodes. -/
def Ordinary (c : ChordNet) : ChordEvent → Prop
  | .stabilize _ => True
  | .fixFinger _ => True
  | .lookupPublish _ _ _ _ => True
  | .deliver k => IsOldest c.inFlight k
  | _ => False

omit [Sha1] in
theorem Ordinary.view {c : ChordNet} {e : ChordEvent} (h : c.Ordinary e) :
    c.view.JoinTraffic (c.ringEvent e) := by
  cases e with
  | deliver k => exact JoinTraffic.view (e := .deliver k) h
  | join a nodeAddr => exact h.elim
  | leave a => exact h.elim
  | ringstate a => exact h.elim
  | _ => trivial

omit [Sha1] in
theorem ringEvent_deliver {c : ChordNet} {e : ChordEvent} {k : ℕ} {q : RingPacket}
    (h : c.ringEvent e = .deliver k) (hq : c.view.inFlight[k]? = some q) :
    ∃ (j : ℕ) (p : ChordPacket), e = .deliver j ∧ c.inFlight[j]? = some p ∧
      ringPacket p = some q := by
  cases e with
  | deliver j =>
      rcases ringEvent_deliver_cases c j with hquiet | ⟨p, q', k', hp, hpq, hevent, hat⟩
      · rw [hquiet] at h
        cases h
      · obtain rfl := RingEvent.deliver.inj (hevent.symm.trans h)
        obtain rfl := Option.some.inj (hat.symm.trans hq)
        exact ⟨j, p, rfl, hp, hpq⟩
  | _ => cases h

end ChordNet

end PennSearch
