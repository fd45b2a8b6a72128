import PennSearch.Chord.Ring
import PennSearch.Chord.Routing

/-!
# Lookups on a stable ring

`followRequest` hands a request from node to node until it is answered. On a
stable ring whose fingers are members every lookup ends, and the answer is the
first member at or after the target, whatever the fingers are and wherever the
lookup starts, as long as no member sits at the target itself. A member asked
about its own position answers with its successor, since the arc tests take
both end points in; so two members of a larger ring disagree there.
-/

namespace PennSearch

open Clockwise

variable [Sha1]

/-- The way of a request that arrives at node `a` from `source`: at every node
`RecvMessage` either hands the same request on, or sends the answer, which is
returned with its destination. -/
def followRequest (node : Ipv4Address → ChordNode) (message : PennChordMessage) :
    ℕ → Ipv4Address → Ipv4Address → Except Fault (Option (Ipv4Address × PennChordMessage))
  | 0, _, _ => .ok none
  | fuel + 1, source, a => do
      let (_, acts) ← (node a).recvMessage message source
      match acts with
      | [.sendTo b m] =>
          if m = message then followRequest node message fuel a b else .ok (some (b, m))
      | _ => .ok none

section Follow

variable {node : Ipv4Address → ChordNode} {R : Finset Ipv4Address}
  {message : PennChordMessage} {target : Digest}

theorem followRequest_answer (htarget : message.target = some target) {a : Ipv4Address}
    (hown : (node a).inOwnArc target.pos) (fuel : ℕ) (source : Ipv4Address) :
    followRequest node message (fuel + 1) source a =
      .ok (some (message.requester, message.answer (node a).successorAddr)) := by
  have hrecv := (node a).recvMessage_of_target htarget source
  rw [if_pos hown] at hrecv
  simp only [followRequest, hrecv]
  change (if message.answer (node a).successorAddr = message then _ else _) = _
  rw [if_neg (PennChordMessage.answer_ne htarget _)]

theorem followRequest_forward (htarget : message.target = some target) {a hop : Ipv4Address}
    (hown : ¬ (node a).inOwnArc target.pos) (hhop : (node a).findNextHop target = .ok hop)
    (fuel : ℕ) (source : Ipv4Address) :
    followRequest node message (fuel + 1) source a =
      followRequest node message fuel a hop := by
  have hrecv := (node a).recvMessage_of_target htarget source
  rw [if_neg hown, hhop] at hrecv
  simp only [followRequest, hrecv]
  change (if message = message then _ else _) = _
  rw [if_pos rfl]

/-- The members strictly closer to the target than `a`: how many hops are left. -/
def closerMembers (R : Finset Ipv4Address) (t : Fin (2 ^ 160)) (a : Ipv4Address) :
    Finset Ipv4Address :=
  R.filter fun c => cwDist (nodePos c) t < cwDist (nodePos a) t

theorem closerMembers_card_lt {t : Fin (2 ^ 160)} {a b : Ipv4Address} (hb : b ∈ R)
    (hlt : cwDist (nodePos b) t < cwDist (nodePos a) t) :
    (closerMembers R t b).card < (closerMembers R t a).card := by
  apply Finset.card_lt_card
  rw [Finset.ssubset_iff_of_subset]
  · exact ⟨b, Finset.mem_filter.mpr ⟨hb, hlt⟩, by simp [closerMembers]⟩
  · intro c hc
    obtain ⟨hcR, hclt⟩ := Finset.mem_filter.mp hc
    exact Finset.mem_filter.mpr ⟨hcR, hclt.trans hlt⟩

theorem closerMembers_card_lt_card {t : Fin (2 ^ 160)} {a : Ipv4Address} (ha : a ∈ R) :
    (closerMembers R t a).card < R.card := by
  apply Finset.card_lt_card
  rw [Finset.ssubset_iff_of_subset (show closerMembers R t a ⊆ R from Finset.filter_subset _ _)]
  exact ⟨a, ha, by simp [closerMembers]⟩

/-- A lookup ends with the owner when no member of a larger ring sits at the
target. The induction is on the hops left. -/
theorem followRequest_eq_owner (hinj : Set.InjOn nodePos (R : Set Ipv4Address))
    (hring : SuccessorRing node R) (hfingers : FingersWithin node R)
    (htarget : message.target = some target) {owner : Ipv4Address}
    (howner : IsOwner nodePos R target.pos owner)
    (hends : ∀ a ∈ R, nodePos a = target.pos → (node a).successorAddr = a) :
    ∀ (fuel : ℕ) (source : Ipv4Address) (a : Ipv4Address), a ∈ R →
      (closerMembers R target.pos a).card < fuel →
        followRequest node message fuel source a =
          .ok (some (message.requester, message.answer owner)) := by
  intro fuel
  induction fuel with
  | zero => intro source a _ hlt; exact absurd hlt (Nat.not_lt_zero _)
  | succ fuel ih =>
      intro source a ha hlt
      by_cases hown : (node a).inOwnArc target.pos
      · have hans := hring.owner_of_inOwnArc ha hown (hends a ha)
        rw [followRequest_answer htarget hown, hans.unique hinj howner]
      · obtain ⟨hop, hhop⟩ := ChordNode.findNextHop_isOk target (hfingers a ha).1
        have hknows : (node a).KnowsOnly R :=
          ⟨(hring.localAddress a ha).symm ▸ ha, (hfingers a ha).2⟩
        have hcloser := ChordNode.findNextHop_closer hinj hknows hown hhop
        rw [hring.localAddress a ha] at hcloser
        have hhopR : hop ∈ R := by
          rcases ChordNode.findNextHop_spec hhop with rfl | ⟨⟨i, hi⟩, _⟩
          · exact hring.successor_mem ha
          · exact (hfingers a ha).2 i hop hi
        rw [followRequest_forward htarget hown hhop]
        have hcard := closerMembers_card_lt hhopR hcloser
        exact ih a hop hhopR (by omega)

end Follow

/-- Lookup agreement, with its exact condition. A request for `target` that may
start at any member of a stable ring is always answered with the first member at
or after the target if and only if the ring has one member or no member sits at
the target. -/
theorem lookup_agreement_iff {node : Ipv4Address → ChordNode} {R : Finset Ipv4Address}
    (hinj : Set.InjOn nodePos (R : Set Ipv4Address)) (hring : SuccessorRing node R)
    (hfingers : FingersWithin node R) (message : PennChordMessage) {target : Digest}
    (htarget : message.target = some target) {owner : Ipv4Address}
    (howner : IsOwner nodePos R target.pos owner) :
    (∀ start ∈ R, ∀ (source : Ipv4Address) (fuel : ℕ), R.card ≤ fuel →
        followRequest node message fuel source start =
          .ok (some (message.requester, message.answer owner))) ↔
      R.card = 1 ∨ ∀ a ∈ R, nodePos a ≠ target.pos := by
  constructor
  · intro hall
    by_contra hcond
    obtain ⟨hcard, hat⟩ := not_or.mp hcond
    push Not at hat
    obtain ⟨a, ha, hpos⟩ := hat
    -- asked about its own position, `a` names its successor; the owner is `a`
    have hself : IsOwner nodePos R target.pos a := hpos ▸ isOwner_pos ha
    have hown : (node a).inOwnArc target.pos := by
      unfold ChordNode.inOwnArc
      rw [hring.localAddress a ha, ← hpos]
      exact inArc_left _ _
    have hans := hall a ha .getAny (R.card + 1) (Nat.le_succ _)
    rw [followRequest_answer htarget hown, howner.unique hinj hself] at hans
    injection hans with hans
    injection hans with hans
    have hsucc := PennChordMessage.answer_inj htarget (Prod.mk.inj hans).2
    exact hcard (by rw [hring.eq_singleton_of_self hinj ha hsucc, Finset.card_singleton])
  · intro hcond start hstart source fuel hfuel
    refine followRequest_eq_owner hinj hring hfingers htarget howner ?_ fuel source start hstart
      ((closerMembers_card_lt_card hstart).trans_le hfuel)
    intro a ha hpos
    rcases hcond with hcard | hnone
    · obtain ⟨b, rfl⟩ := Finset.card_eq_one.mp hcard
      rw [Finset.mem_singleton.mp ha]
      exact Finset.mem_singleton.mp (hring.successor_mem (Finset.mem_singleton_self b))
    · exact absurd hpos (hnone a ha)

end PennSearch

namespace PennSearch

open Clockwise

attribute [local instance] sampleSha1

theorem lookup_agreement_iff_sample :
    IsOwner nodePos {sampleA, sampleB} (sha1Key [84, 53]).pos sampleA ∧
    ∀ start ∈ ({sampleA, sampleB} : Finset Ipv4Address), ∀ (source : Ipv4Address) (fuel : ℕ),
      ({sampleA, sampleB} : Finset Ipv4Address).card ≤ fuel →
        followRequest samplePair ⟨7, .lookupPublish 0 sampleB (sha1Key [84, 53]) [84, 53]⟩
            fuel source start =
          .ok (some (sampleB, ⟨7, .lookupPublishSuccess 0 [84, 53] sampleA⟩)) := by
  have howner : IsOwner nodePos {sampleA, sampleB} (sha1Key [84, 53]).pos sampleA := by decide
  exact ⟨howner,
    (lookup_agreement_iff samplePair_injOn samplePair_ring.toSuccessorRing samplePair_fingers
      ⟨7, .lookupPublish 0 sampleB (sha1Key [84, 53]) [84, 53]⟩ rfl howner).mpr
      (Or.inr (by decide))⟩

/-- Asked for the owner of the position of A, the members of a stable pair
disagree: A names B, and B names A, which is the owner. -/
theorem lookup_disagreement :
    StableRing samplePair {sampleA, sampleB} ∧ FingersWithin samplePair {sampleA, sampleB} ∧
      IsOwner nodePos {sampleA, sampleB} (nodePos sampleA) sampleA ∧
      followRequest samplePair ⟨7, .findSuccessor sampleC (sha1 sampleA)⟩ 2 sampleC sampleA =
        .ok (some (sampleC, ⟨7, .joinChordSuccess sampleB⟩)) ∧
      followRequest samplePair ⟨7, .findSuccessor sampleC (sha1 sampleA)⟩ 2 sampleC sampleB =
        .ok (some (sampleC, ⟨7, .joinChordSuccess sampleA⟩)) :=
  ⟨samplePair_ring, samplePair_fingers, by decide, rfl, rfl⟩

end PennSearch
