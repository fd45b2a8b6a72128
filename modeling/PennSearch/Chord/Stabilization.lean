import PennSearch.Chord.Ring
import PennSearch.Chord.Simulation

/-!
# Stabilization of a stable ring

`StableNet c R` is the state that commands start from: a stable ring `R`, nobody
else a member, nothing in flight. Stabilization changes nothing there: the only
messages it causes are requests from a member to its successor and answers that
name the member itself.
-/

namespace PennSearch

open Clockwise MessagePassing

def RingEvent.Stabilizes : RingEvent → Prop
  | .stabilize _ => True
  | .deliver _ => True
  | .quiet => True
  | _ => False

def ChordEvent.Stabilizes : ChordEvent → Prop
  | .stabilize _ => True
  | .deliver _ => True
  | _ => False

instance (e : ChordEvent) : Decidable e.Stabilizes :=
  match e with
  | .stabilize _ | .deliver _ => .isTrue trivial
  | .join .. | .leave _ | .ringstate _ | .fixFinger _ | .lookupPublish .. => .isFalse id

theorem ChordEvent.Stabilizes.ringEvent {e : ChordEvent} (h : e.Stabilizes) (c : ChordNet) :
    (c.ringEvent e).Stabilizes := by
  cases e with
  | stabilize a => trivial
  | deliver k =>
      simp only [ChordNet.ringEvent]
      split
      · trivial
      · split <;> trivial
  | _ => exact h.elim

def ChordEvent.KeepsMembers : ChordEvent → Prop
  | .join _ _ => False
  | .leave _ => False
  | _ => True

instance (e : ChordEvent) : Decidable e.KeepsMembers :=
  match e with
  | .join .. | .leave _ => .isFalse id
  | .ringstate _ | .stabilize _ | .fixFinger _ | .lookupPublish .. | .deliver _ => .isTrue trivial

theorem ChordEvent.KeepsMembers.ringEvent {e : ChordEvent} (h : e.KeepsMembers) (c : ChordNet) :
    (c.ringEvent e).Stabilizes := by
  cases e with
  | join a nodeAddr => exact h.elim
  | leave a => exact h.elim
  | deliver k => exact ChordEvent.Stabilizes.ringEvent (e := .deliver k) trivial c
  | _ => trivial

variable [Sha1]

/-- A stable ring with nothing in flight; `R` is the set of all members. -/
structure StableNet (c : ChordNet) (R : Finset Ipv4Address) : Prop where
  ring : StableRing c.node R
  localAddress : ∀ a, (c.node a).localAddress = a
  outside : ∀ a ∉ R, (c.node a).chordStatus = false
  inFlight : c.inFlight = []

structure RingNet.StableAt (s : RingNet) (R : Finset Ipv4Address) : Prop where
  getAny_notMem : .getAny ∉ R
  member : ∀ a, (s.node a).member = true ↔ a ∈ R
  successor : ∀ a ∈ R, IsNext nodePos R a (s.node a).successor
  predecessor : ∀ a ∈ R, IsPredecessor R (s.node a).predecessor a

theorem StableNet.stableAt {c : ChordNet} {R : Finset Ipv4Address} (h : StableNet c R) :
    c.view.StableAt R where
  getAny_notMem := h.ring.getAny_notMem
  member a := by
    by_cases ha : a ∈ R
    · simpa [ChordNet.view, ChordNode.pointers, ha] using h.ring.status a ha
    · simpa [ChordNet.view, ChordNode.pointers, ha] using h.outside a ha
  successor := h.ring.successor
  predecessor := h.ring.predecessor

theorem RingNet.StableAt.stableRing {c : ChordNet} {R : Finset Ipv4Address}
    (h : c.view.StableAt R) (hlocal : ∀ a, (c.node a).localAddress = a) :
    StableRing c.node R where
  localAddress a _ := hlocal a
  successor := h.successor
  getAny_notMem := h.getAny_notMem
  status a ha := (h.member a).mpr ha
  predecessor := h.predecessor

def Stabilizing (s : RingNet) (R : Finset Ipv4Address) (p : RingPacket) : Prop :=
  (p.msg = .stabilizeReq ∧ p.src ∈ R ∧ p.dst = (s.node p.src).successor ∧ p.dst ≠ p.src) ∨
    (p.msg = .stabilizeResp p.dst ∧ p.dst ∈ R)

structure Settled (R : Finset Ipv4Address) (s : RingNet) : Prop extends s.StableAt R where
  traffic : ∀ p ∈ s.inFlight, Stabilizing s R p

variable {R : Finset Ipv4Address} {s s' : RingNet} {e : RingEvent}
  {F : Ipv4Address → Ipv4Address → Prop}

/-- A turn of stabilization moves no pointer and sends only stabilization. -/
theorem Settled.turn (hinj : Set.InjOn nodePos (R : Set Ipv4Address)) (h : Settled R s)
    (he : e.Stabilizes) {a : Ipv4Address} {q : Pointers} {out : List RingAction}
    (hturn : RingTurn F s e a q out) :
    q = s.node a ∧ ∀ p ∈ ringSends a out, Stabilizing s R p := by
  cases hturn with
  | quiet a => simp
  | stabilizeSkip skip => simp
  | stabilize member several =>
      refine ⟨rfl, fun p hp => ?_⟩
      obtain rfl := eq_of_mem_ringSends hp
      exact Or.inl ⟨rfl, (h.member a).mp member, rfl, several⟩
  | deliver packet reacts =>
      rename_i k p
      have hp : p ∈ s.inFlight := mem_of_getElem? packet
      rcases h.traffic p hp with ⟨hmsg, hsrc, hdst, hne⟩ | ⟨hmsg, -⟩
      · -- a request reaches the successor, which names the member that asks
        have hnext := h.successor p.src hsrc
        rw [← hdst] at hnext
        have hpred : (s.node p.dst).predecessor = p.src :=
          (h.predecessor p.dst hnext.1).eq_of_isNext hinj hsrc hne hnext
        rw [hmsg] at reacts
        cases reacts with
        | reqIgnore none => simp
        | reqAnswer some =>
            refine ⟨rfl, fun p' hp' => ?_⟩
            obtain rfl := eq_of_mem_ringSends hp'
            exact Or.inr ⟨by rw [hpred], hsrc⟩
      · -- an answer names the member that receives it
        rw [hmsg] at reacts
        cases reacts with
        | respAdopt some ne owns => exact absurd rfl ne
        | respKeep keep => simp
  | _ => exact absurd he (by simp [RingEvent.Stabilizes])

theorem Settled.step (hinj : Set.InjOn nodePos (R : Set Ipv4Address)) (h : Settled R s)
    (he : e.Stabilizes) (hstep : RingStep F s e s') : Settled R s' ∧ s'.node = s.node := by
  obtain ⟨a, q, out, hturn, rfl⟩ := hstep
  obtain ⟨rfl, hsent⟩ := h.turn hinj he hturn
  have hnode : ((s.before e).act a (s.node a) (ringSends a out)).node = s.node := by
    simp [Net.act]
  refine ⟨⟨⟨h.getAny_notMem, ?_, ?_, ?_⟩, ?_⟩, hnode⟩
  · simpa only [hnode] using h.member
  · simpa only [hnode] using h.successor
  · simpa only [hnode] using h.predecessor
  · intro p hp
    simp only [Stabilizing, hnode]
    rcases List.mem_append.mp hp with hp | hp
    · exact h.traffic p (RingNet.mem_before hp)
    · exact hsent p hp

/-- A stable ring stays as it is under stabilization. -/
theorem Settled.run (hinj : Set.InjOn nodePos (R : Set Ipv4Address)) {c c' : ChordNet}
    {es : List ChordEvent} (h : Settled R c.view) (hlocal : ∀ a, (c.node a).localAddress = a)
    (hrun : Run ChordNet.step (fun _ e => e.Stabilizes) c es c') :
    Settled R c'.view ∧ c'.view.node = c.view.node ∧ ∀ a, (c'.node a).localAddress = a := by
  refine hrun.invariant
    (P := fun d => Settled R d.view ∧ d.view.node = c.view.node ∧ ∀ a, (d.node a).localAddress = a)
    ⟨h, rfl, hlocal⟩ ?_
  rintro c₁ e c₂ ⟨hsettled, hnode, hlocal⟩ he hstep
  obtain ⟨hring, hlocal'⟩ := ChordNet.step_view (F := fun _ _ => True) hlocal
    (fun _ _ _ _ => trivial) hstep
  obtain ⟨hsettled', hnode'⟩ := hsettled.step hinj (he.ringEvent c₁) hring
  exact ⟨hsettled', hnode'.trans hnode, hlocal'⟩

end PennSearch

namespace PennSearch

attribute [local instance] sampleSha1

theorem samplePair_stable : StableNet ⟨samplePair, []⟩ {sampleA, sampleB} where
  ring := samplePair_ring
  localAddress a := by
    simp only [samplePair]
    split_ifs with hA hB
    · exact hA.symm
    · exact hB.symm
    · rfl
  outside a ha := by
    simp only [Finset.mem_insert, Finset.mem_singleton, not_or] at ha
    simp [samplePair, ha, ChordNode.start]
  inFlight := rfl

/-- The stable ring D, B, C, A; every other node has started and is outside. -/
def sampleFour : ChordNet where
  node a :=
    if a = sampleD then sampleMember a sampleB sampleA [(1, sampleB)]
    else if a = sampleB then sampleMember a sampleC sampleD [(1, sampleC)]
    else if a = sampleC then sampleMember a sampleA sampleB [(1, sampleA)]
    else if a = sampleA then sampleMember a sampleD sampleC [(1, sampleD)]
    else ChordNode.start a 0
  inFlight := []

def sampleFourMembers : Finset Ipv4Address := {sampleD, sampleB, sampleC, sampleA}

theorem sampleFour_injOn : Set.InjOn nodePos (sampleFourMembers : Set Ipv4Address) := by
  have h : ∀ a ∈ sampleFourMembers, ∀ b ∈ sampleFourMembers, nodePos a = nodePos b → a = b := by
    decide
  exact fun a ha b hb => h a ha b hb

theorem sampleFour_stable : StableNet sampleFour sampleFourMembers where
  ring :=
    { localAddress := by decide
      successor := by decide
      getAny_notMem := by decide
      status := by decide
      predecessor := by decide }
  localAddress a := by
    simp only [sampleFour]
    split_ifs <;> rfl
  outside a ha := by
    simp only [sampleFourMembers, Finset.mem_insert, Finset.mem_singleton, not_or] at ha
    simp [sampleFour, ha, ChordNode.start]
  inFlight := rfl

end PennSearch
