import PennSearch.Library.Closest
import PennSearch.Chord.Spec

/-!
# What a run of pointer updates leaves

`ProcessStabilizeResp` moves the successor and `ProcessNotify` the predecessor.
Whatever their branches say for wrapped arcs, equal digests and an unknown
predecessor, each keeps the closer of two candidates (`Closest.keep`): the
successor by its distance ahead of the node, the predecessor by its distance
behind it. After any run of these messages each pointer is therefore the closest
candidate on its side, whichever order they came in.
-/

namespace PennSearch

open Clockwise Closest

/-- A message that moves a pointer, with what its handler reads. -/
inductive PointerUpdate
  | stabilizeResp (message : PennChordMessage) (predecessorAddress : Ipv4Address)
  | notify (message : PennChordMessage) (sourceAddress : Ipv4Address)
deriving DecidableEq

namespace PointerUpdate

def sender : PointerUpdate → Option Ipv4Address
  | stabilizeResp _ _ => none
  | notify _ sourceAddress => some sourceAddress

def carried : PointerUpdate → Option Ipv4Address
  | stabilizeResp _ predecessorAddress => some predecessorAddress
  | notify _ _ => none

end PointerUpdate

section Hash

variable [Sha1]

/-- How far ahead of a node its successor is; a full turn for its own position. -/
def aheadOf (localAddress a : Ipv4Address) : ℕ := cwTurn (nodePos localAddress) (nodePos a)

/-- How far behind a node its predecessor is; an unknown one is farther than all. -/
def behindOf (localAddress a : Ipv4Address) : ℕ :=
  if a = .getAny then 2 ^ 160 + 1 else cwTurn (nodePos a) (nodePos localAddress)

/-- `ProcessStabilizeResp` looks at the address at all. -/
def Offers (localAddress a : Ipv4Address) : Prop :=
  a ≠ .getAny ∧ nodePos a ≠ nodePos localAddress

instance (localAddress a : Ipv4Address) : Decidable (Offers localAddress a) :=
  inferInstanceAs (Decidable (_ ∧ _))

def successorsOffered (localAddress : Ipv4Address) (us : List PointerUpdate) : List Ipv4Address :=
  (us.filterMap PointerUpdate.carried).filter fun a => Offers localAddress a

def predecessorsOffered (us : List PointerUpdate) : List Ipv4Address :=
  us.filterMap PointerUpdate.sender

namespace ChordNode

def update (n : ChordNode) : PointerUpdate → ChordNode × List ChordAction
  | .stabilizeResp message predecessorAddress =>
      n.processStabilizeResp message predecessorAddress
  | .notify message sourceAddress => n.processNotify message sourceAddress

def updates (n : ChordNode) (us : List PointerUpdate) : ChordNode :=
  us.foldl (fun n u => (n.update u).1) n

variable {n : ChordNode} {us vs : List PointerUpdate} {u : PointerUpdate} {a : Ipv4Address}
  {message : PennChordMessage}

@[simp] theorem updates_nil (n : ChordNode) : n.updates [] = n := rfl

@[simp] theorem updates_cons (n : ChordNode) (u : PointerUpdate) (us : List PointerUpdate) :
    n.updates (u :: us) = (n.update u).1.updates us := rfl

/-! ## One message -/

theorem processStabilizeResp_successorAddr (n : ChordNode) (message : PennChordMessage)
    (a : Ipv4Address) :
    (n.processStabilizeResp message a).1.successorAddr =
      if Offers n.localAddress a then keep (aheadOf n.localAddress) n.successorAddr a
      else n.successorAddr := by
  rw [processStabilizeResp_eq]
  by_cases hoffer : Offers n.localAddress a
  · have hturn : n.inOwnArc (nodePos a) ↔
        aheadOf n.localAddress a ≤ aheadOf n.localAddress n.successorAddr := by
      rw [inOwnArc, inArc_iff_cwTurn, aheadOf, cwTurn_of_ne hoffer.2.symm, aheadOf]
    have hguard : (a ≠ .getAny ∧ nodePos a ≠ nodePos n.localAddress ∧ n.inOwnArc (nodePos a)) ↔
        aheadOf n.localAddress a ≤ aheadOf n.localAddress n.successorAddr :=
      ⟨fun h => hturn.mp h.2.2, fun h => ⟨hoffer.1, hoffer.2, hturn.mpr h⟩⟩
    rw [if_pos hoffer, keep]
    simp only [hguard]
    split <;> rfl
  · rw [if_neg fun h => hoffer ⟨h.1, h.2.1⟩, if_neg hoffer]

theorem processNotify_predecessorAddr (n : ChordNode) (message : PennChordMessage)
    (hany : a ≠ .getAny) (hne : nodePos a ≠ nodePos n.localAddress) :
    (n.processNotify message a).1.predecessorAddr =
      keep (behindOf n.localAddress) n.predecessorAddr a := by
  have hbehind : behindOf n.localAddress a = cwTurn (nodePos a) (nodePos n.localAddress) :=
    if_neg hany
  rw [processNotify_eq, keep, hbehind]
  by_cases hunknown : n.predecessorAddr = .getAny
  · have hle := cwTurn_le (nodePos a) (nodePos n.localAddress)
    rw [if_pos hunknown, behindOf, if_pos hunknown, if_pos (by omega)]
    rfl
  · have harc : InArc (nodePos n.predecessorAddr) (nodePos n.localAddress) (nodePos a) ↔
        cwTurn (nodePos a) (nodePos n.localAddress) ≤
          cwTurn (nodePos n.predecessorAddr) (nodePos n.localAddress) :=
      ⟨fun h => cwTurn_le_of_inArc_left h hne, fun h => inArc_of_cwTurn_le h hne⟩
    rw [if_neg hunknown, behindOf, if_neg hunknown]
    simp only [harc]
    split <;> rfl

@[simp] theorem update_localAddress (n : ChordNode) (u : PointerUpdate) :
    (n.update u).1.localAddress = n.localAddress := by
  cases u with
  | stabilizeResp message a =>
      rw [update, processStabilizeResp_eq]
      split <;> rfl
  | notify message a =>
      rw [update, processNotify_eq]
      split
      · rfl
      · split <;> rfl

theorem update_stabilizeResp_predecessorAddr (n : ChordNode) (message : PennChordMessage)
    (a : Ipv4Address) :
    (n.update (.stabilizeResp message a)).1.predecessorAddr = n.predecessorAddr := by
  rw [update, processStabilizeResp_eq]
  split <;> rfl

theorem update_notify_successorAddr (n : ChordNode) (message : PennChordMessage)
    (a : Ipv4Address) : (n.update (.notify message a)).1.successorAddr = n.successorAddr := by
  rw [update, processNotify_eq]
  split
  · rfl
  · split <;> rfl

/-! ## A run of messages -/

theorem updates_append (n : ChordNode) (us vs : List PointerUpdate) :
    n.updates (us ++ vs) = (n.updates us).updates vs :=
  List.foldl_append

@[simp] theorem updates_localAddress (n : ChordNode) (us : List PointerUpdate) :
    (n.updates us).localAddress = n.localAddress := by
  induction us generalizing n with
  | nil => rfl
  | cons u us ih => rw [updates_cons, ih, update_localAddress]

theorem updates_successorAddr (n : ChordNode) (us : List PointerUpdate) :
    (n.updates us).successorAddr =
      keepAll (aheadOf n.localAddress) n.successorAddr
        (successorsOffered n.localAddress us) := by
  induction us generalizing n with
  | nil => rfl
  | cons u us ih =>
      rw [updates_cons, ih, update_localAddress]
      cases u with
      | stabilizeResp message a =>
          rw [update, processStabilizeResp_successorAddr]
          by_cases hoffer : Offers n.localAddress a <;>
            simp [successorsOffered, PointerUpdate.carried, hoffer]
      | notify message a =>
          rw [update_notify_successorAddr]
          rfl

theorem updates_predecessorAddr
    (hsenders : ∀ a ∈ predecessorsOffered us, a ≠ .getAny ∧ nodePos a ≠ nodePos n.localAddress) :
    (n.updates us).predecessorAddr =
      keepAll (behindOf n.localAddress) n.predecessorAddr (predecessorsOffered us) := by
  induction us generalizing n with
  | nil => rfl
  | cons u us ih =>
      rw [updates_cons]
      cases u with
      | stabilizeResp message a =>
          have hsame : predecessorsOffered (.stabilizeResp message a :: us) =
              predecessorsOffered us := rfl
          rw [hsame] at hsenders ⊢
          rw [ih (by simpa using hsenders), update_localAddress,
            update_stabilizeResp_predecessorAddr]
      | notify message a =>
          have hcons : predecessorsOffered (.notify message a :: us) =
              a :: predecessorsOffered us := rfl
          rw [hcons] at hsenders ⊢
          obtain ⟨hany, hne⟩ := hsenders a List.mem_cons_self
          have hrest := fun b hb => hsenders b (List.mem_cons_of_mem a hb)
          rw [ih (by simpa using hrest), update_localAddress, keepAll_cons, update,
            processNotify_predecessorAddr n message hany hne]

/-- The `NOTIFY`s of some messages come from nodes other than this one, which their
digests tell apart. -/
structure NotifiedByNodes (n : ChordNode) (us : List PointerUpdate) : Prop where
  known : ∀ a ∈ predecessorsOffered us, a ≠ .getAny
  other : ∀ a ∈ predecessorsOffered us, nodePos a ≠ nodePos n.localAddress
  distinct : Set.InjOn nodePos {a | a ∈ predecessorsOffered us}

/-- From `n` to `n'` neither pointer moves away from the node, and none comes to be
the node itself. -/
structure MovesCloser (n n' : ChordNode) : Prop where
  ahead : aheadOf n.localAddress n'.successorAddr ≤ aheadOf n.localAddress n.successorAddr
  behind : behindOf n.localAddress n'.predecessorAddr ≤ behindOf n.localAddress n.predecessorAddr
  successor_ne : n.successorAddr ≠ n.localAddress → n'.successorAddr ≠ n.localAddress
  predecessor_ne : n.predecessorAddr ≠ n.localAddress → n'.predecessorAddr ≠ n.localAddress

/-- Both pointers of `n'` are the closest candidates that `n` has when the messages
come in. -/
structure HasClosest (n : ChordNode) (us : List PointerUpdate) (n' : ChordNode) : Prop where
  successor : IsClosest (aheadOf n.localAddress)
    (n.successorAddr :: successorsOffered n.localAddress us) n'.successorAddr
  predecessor : IsClosest (behindOf n.localAddress)
    (n.predecessorAddr :: predecessorsOffered us) n'.predecessorAddr

theorem keep_ne_local {rank : Ipv4Address → ℕ} {held c localAddress : Ipv4Address}
    (hc : nodePos c ≠ nodePos localAddress) (hheld : held ≠ localAddress) :
    keep rank held c ≠ localAddress := by
  rcases keep_eq_or rank held c with h | h
  · rw [h]
    exact fun heq => hc (congrArg nodePos heq)
  · rwa [h]

theorem movesCloser_update
    (hsender : ∀ a, u.sender = some a → a ≠ .getAny ∧ nodePos a ≠ nodePos n.localAddress) :
    n.MovesCloser (n.update u).1 := by
  cases u with
  | stabilizeResp message a =>
      have hsucc := processStabilizeResp_successorAddr n message a
      have hpred := update_stabilizeResp_predecessorAddr n message a
      refine ⟨?_, by rw [hpred], fun hne => ?_, fun hne => by rwa [hpred]⟩
      · rw [update, hsucc]
        split
        · exact rank_keep_le _ _
        · exact le_rfl
      · rw [update, hsucc]
        split
        · rename_i hoffer
          exact keep_ne_local hoffer.2 hne
        · exact hne
  | notify message a =>
      obtain ⟨hany, hother⟩ := hsender a rfl
      have hsucc := update_notify_successorAddr n message a
      have hpred := processNotify_predecessorAddr n message hany hother
      refine ⟨by rw [hsucc], ?_, fun hne => by rwa [hsucc], fun hne => ?_⟩
      · rw [update, hpred]
        exact rank_keep_le _ _
      · rw [update, hpred]
        exact keep_ne_local hother hne

theorem hasClosest_updates (h : n.NotifiedByNodes us) : n.HasClosest us (n.updates us) where
  successor := by
    rw [updates_successorAddr]
    exact isClosest_keepAll _ _ _
  predecessor := by
    rw [updates_predecessorAddr fun a ha => ⟨h.known a ha, h.other a ha⟩]
    exact isClosest_keepAll _ _ _

omit [Sha1] in
theorem mem_predecessorsOffered_iff (hsame : ∀ u, u ∈ us ↔ u ∈ vs) (a : Ipv4Address) :
    a ∈ predecessorsOffered us ↔ a ∈ predecessorsOffered vs := by
  simp only [predecessorsOffered, List.mem_filterMap, hsame]

theorem mem_successorsOffered_iff (hsame : ∀ u, u ∈ us ↔ u ∈ vs) (localAddress a : Ipv4Address) :
    a ∈ successorsOffered localAddress us ↔ a ∈ successorsOffered localAddress vs := by
  simp only [successorsOffered, List.mem_filter, List.mem_filterMap, hsame]

/-- In a run of the messages `us` every message moves the pointers closer, and at
its end they are the closest candidates. Any other run of the same messages, in
another order and with other repetitions, ends with the same predecessor and with
a successor of the same digest. -/
theorem pointer_updates_confluent (n : ChordNode) (us vs : List PointerUpdate)
    (hnodes : n.NotifiedByNodes us) (hsame : ∀ u, u ∈ us ↔ u ∈ vs) :
    (∀ before u after, us = before ++ u :: after →
        (n.updates before).MovesCloser (n.updates (before ++ [u]))) ∧
      n.HasClosest us (n.updates us) ∧
      (n.updates us).predecessorAddr = (n.updates vs).predecessorAddr ∧
      nodePos (n.updates us).successorAddr = nodePos (n.updates vs).successorAddr ∧
      (Set.InjOn nodePos {a | a ∈ successorsOffered n.localAddress us} →
        (n.updates us).successorAddr = (n.updates vs).successorAddr) := by
  have hsenders : ∀ a ∈ predecessorsOffered us,
      a ≠ .getAny ∧ nodePos a ≠ nodePos n.localAddress :=
    fun a ha => ⟨hnodes.known a ha, hnodes.other a ha⟩
  have hsenders' : ∀ a ∈ predecessorsOffered vs,
      a ≠ .getAny ∧ nodePos a ≠ nodePos n.localAddress :=
    fun a ha => hsenders a ((mem_predecessorsOffered_iff hsame a).mpr ha)
  have hahead : ∀ a b, aheadOf n.localAddress a = aheadOf n.localAddress b →
      nodePos a = nodePos b := fun a b h => cwTurn_inj_right h
  have hbehind : Set.InjOn (behindOf n.localAddress) {a | a ∈ predecessorsOffered us} := by
    intro a ha b hb heq
    rw [behindOf, behindOf, if_neg (hsenders a ha).1, if_neg (hsenders b hb).1] at heq
    exact hnodes.distinct ha hb (cwTurn_inj_left heq)
  refine ⟨?_, hasClosest_updates hnodes, ?_, ?_, fun hinj => ?_⟩
  · rintro before u after rfl
    rw [updates_append]
    refine movesCloser_update fun a ha => ?_
    have hmem : a ∈ predecessorsOffered (before ++ u :: after) :=
      List.mem_filterMap.mpr ⟨u, by simp, ha⟩
    simpa using hsenders a hmem
  · rw [updates_predecessorAddr hsenders, updates_predecessorAddr hsenders']
    exact keepAll_eq_of_mem_iff hbehind (mem_predecessorsOffered_iff hsame)
  · rw [updates_successorAddr, updates_successorAddr]
    exact hahead _ _ (rank_keepAll_eq_of_mem_iff _ _ (mem_successorsOffered_iff hsame _))
  · rw [updates_successorAddr, updates_successorAddr]
    exact keepAll_eq_of_mem_iff (fun a ha b hb heq => hinj ha hb (hahead a b heq))
      (mem_successorsOffered_iff hsame _)

end ChordNode

end Hash

section Samples

open ChordNode

attribute [local instance] sampleSha1

def sampleUpdates : List PointerUpdate :=
  [.stabilizeResp ⟨0, .notify⟩ sampleA, .notify ⟨0, .notify⟩ sampleB,
    .stabilizeResp ⟨1, .notify⟩ .getAny, .notify ⟨1, .notify⟩ sampleA]

theorem notifiedByNodes_sample :
    (sampleMember sampleC sampleC .getAny []).NotifiedByNodes sampleUpdates where
  known := by decide
  other := by decide
  distinct := by
    have hall : ∀ a ∈ predecessorsOffered sampleUpdates, ∀ b ∈ predecessorsOffered sampleUpdates,
        nodePos a = nodePos b → a = b := by decide
    exact fun a ha b hb => hall a ha b hb

theorem pointer_updates_confluent_sample :
    ((sampleMember sampleC sampleC .getAny []).updates sampleUpdates).predecessorAddr =
        ((sampleMember sampleC sampleC .getAny []).updates
          (sampleUpdates.reverse ++ sampleUpdates)).predecessorAddr ∧
      ((sampleMember sampleC sampleC .getAny []).updates sampleUpdates).predecessorAddr =
        sampleB := by
  have hconfluent := pointer_updates_confluent (sampleMember sampleC sampleC .getAny [])
    sampleUpdates (sampleUpdates.reverse ++ sampleUpdates) notifiedByNodes_sample
    fun u => by simp
  exact ⟨hconfluent.2.2.1, by decide⟩

end Samples

end PennSearch
