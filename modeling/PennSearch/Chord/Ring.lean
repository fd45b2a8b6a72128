import PennSearch.Chord.Spec

/-!
# Stable rings

A ring is a finite set of members on the circle of digests. `SuccessorRing` says
that the successor of every member is the next member clockwise, `StableRing`
adds the membership status and the predecessors; a member alone has no
predecessor (`0.0.0.0`). `FingersWithin` is what a route needs: fingers that
exist, and that are members.
-/

namespace PennSearch

open Clockwise

variable [Sha1]

/-- The successor of every member is the next member clockwise. -/
structure SuccessorRing (node : Ipv4Address → ChordNode) (R : Finset Ipv4Address) : Prop where
  localAddress : ∀ a ∈ R, (node a).localAddress = a
  successor : ∀ a ∈ R, IsNext nodePos R a (node a).successorAddr

/-- `p` is the predecessor of member `a`: the member that `a` is next to, and
`0.0.0.0` when `a` is alone. -/
def IsPredecessor (R : Finset Ipv4Address) (p a : Ipv4Address) : Prop :=
  if R = {a} then p = .getAny else p ∈ R ∧ IsNext nodePos R p a

instance (R : Finset Ipv4Address) (p a : Ipv4Address) : Decidable (IsPredecessor R p a) :=
  inferInstanceAs (Decidable (ite _ _ _))

/-- A ring of members whose successors and predecessors are their neighbours;
`0.0.0.0` is nobody's address. -/
structure StableRing (node : Ipv4Address → ChordNode) (R : Finset Ipv4Address) : Prop
    extends SuccessorRing node R where
  getAny_notMem : .getAny ∉ R
  status : ∀ a ∈ R, (node a).chordStatus = true
  predecessor : ∀ a ∈ R, IsPredecessor R (node a).predecessorAddr a

def FingersWithin (node : Ipv4Address → ChordNode) (R : Finset Ipv4Address) : Prop :=
  ∀ a ∈ R, ¬ (node a).fingerTable.isEmpty ∧
    ∀ (i : UInt16) (finger : Ipv4Address), (node a).fingerTable[i]? = some finger → finger ∈ R

/-! ## Neighbours -/

section Neighbours

variable {R : Finset Ipv4Address} {a b p x s : Ipv4Address}

theorem eq_singleton_of_isNext_self (hinj : Set.InjOn nodePos (R : Set Ipv4Address))
    (ha : a ∈ R) (h : IsNext nodePos R a a) : R = {a} := by
  ext c
  rw [Finset.mem_singleton]
  constructor
  · intro hc
    exact (hinj ha hc (h.pos_eq_of_self hc)).symm
  · rintro rfl
    exact ha

theorem isNext_self_singleton (a : Ipv4Address) : IsNext nodePos {a} a a :=
  ⟨Finset.mem_singleton_self a, fun c hc => by rw [Finset.mem_singleton.mp hc]⟩

@[simp] theorem isPredecessor_singleton {p a : Ipv4Address} :
    IsPredecessor {a} p a ↔ p = .getAny := by
  simp [IsPredecessor]

theorem IsPredecessor.of_ne (h : IsPredecessor R p a) (hb : b ∈ R) (hba : b ≠ a) :
    p ∈ R ∧ IsNext nodePos R p a := by
  unfold IsPredecessor at h
  rwa [if_neg] at h
  rintro rfl
  exact hba (Finset.mem_singleton.mp hb)

theorem isPredecessor_of_isNext (hp : p ∈ R) (hpa : p ≠ a)
    (h : IsNext nodePos R p a) : IsPredecessor R p a := by
  unfold IsPredecessor
  rw [if_neg]
  · exact ⟨hp, h⟩
  · rintro rfl
    exact hpa (Finset.mem_singleton.mp hp)

theorem IsPredecessor.eq_of_isNext (hinj : Set.InjOn nodePos (R : Set Ipv4Address))
    (h : IsPredecessor R p s) (ha : a ∈ R) (has : s ≠ a) (hnext : IsNext nodePos R a s) :
    p = a := by
  obtain ⟨hp, hps⟩ := h.of_ne ha has.symm
  exact hps.prev_unique hinj hp ha hnext

theorem IsPredecessor.erase_other (hinj : Set.InjOn nodePos (R : Set Ipv4Address))
    (h : IsPredecessor R p a) (ha : a ∈ R) (hax : a ≠ x) (hpx : p ≠ x) :
    IsPredecessor (R.erase x) p a := by
  unfold IsPredecessor at h
  split at h
  · rename_i halone
    subst halone
    have hx : x ∉ ({a} : Finset Ipv4Address) := fun hx => hax (Finset.mem_singleton.mp hx).symm
    rwa [Finset.erase_eq_of_notMem hx, isPredecessor_singleton]
  · rename_i hseveral
    refine isPredecessor_of_isNext (Finset.mem_erase.mpr ⟨hpx, h.1⟩) ?_ (h.2.erase_other hax)
    rintro rfl
    exact hseveral (eq_singleton_of_isNext_self hinj ha h.2)

/-- When `x` goes, its predecessor becomes the predecessor of the next member; a
single member that is left has none. -/
theorem IsPredecessor.erase_between (hinj : Set.InjOn nodePos (R : Set Ipv4Address))
    (h : IsPredecessor R p x) (hx : x ∈ R) (hs : IsNext nodePos R x s) (hsx : s ≠ x) :
    IsPredecessor (R.erase x) (if s = p then .getAny else p) s := by
  obtain ⟨hp, hpx⟩ := h.of_ne hs.1 hsx
  have hpne : p ≠ x := by
    rintro rfl
    exact hsx (hs.unique hinj hpx)
  have hnext := hpx.erase_between hinj hs hsx
  have hpR : p ∈ R.erase x := Finset.mem_erase.mpr ⟨hpne, hp⟩
  have hinj' : Set.InjOn nodePos (R.erase x : Set Ipv4Address) :=
    hinj.mono (Finset.coe_subset.mpr (Finset.erase_subset x R))
  by_cases hsp : s = p
  · subst hsp
    rw [if_pos rfl, eq_singleton_of_isNext_self hinj' hpR hnext, isPredecessor_singleton]
  · rw [if_neg hsp]
    exact isPredecessor_of_isNext hpR (Ne.symm hsp) hnext

end Neighbours

namespace SuccessorRing

variable {node : Ipv4Address → ChordNode} {R : Finset Ipv4Address}

theorem successor_mem (h : SuccessorRing node R) {a : Ipv4Address} (ha : a ∈ R) :
    (node a).successorAddr ∈ R :=
  (h.successor a ha).1

theorem eq_singleton_of_self (h : SuccessorRing node R)
    (hinj : Set.InjOn nodePos (R : Set Ipv4Address)) {a : Ipv4Address} (ha : a ∈ R)
    (hself : (node a).successorAddr = a) : R = {a} := by
  have hnext := h.successor a ha
  rw [hself] at hnext
  exact eq_singleton_of_isNext_self hinj ha hnext

/-- What a member answers about a position on its own arc is the owner, except
for its own position on a ring of several members. -/
theorem owner_of_inOwnArc (h : SuccessorRing node R) {a : Ipv4Address} (ha : a ∈ R)
    {t : Fin (2 ^ 160)} (ht : (node a).inOwnArc t)
    (hne : nodePos a = t → (node a).successorAddr = a) :
    IsOwner nodePos R t (node a).successorAddr := by
  unfold ChordNode.inOwnArc at ht
  rw [h.localAddress a ha] at ht
  exact (h.successor a ha).isOwner ht fun heq => by rw [hne heq]

end SuccessorRing

end PennSearch

namespace PennSearch

open Clockwise

attribute [local instance] sampleSha1

/-- The stable ring of the sample nodes A and B; every other node has started
and is outside. -/
def samplePair (a : Ipv4Address) : ChordNode :=
  if a = sampleA then sampleMember sampleA sampleB sampleB [(1, sampleB)]
  else if a = sampleB then sampleMember sampleB sampleA sampleA [(1, sampleA)]
  else ChordNode.start a 0

theorem samplePair_injOn :
    Set.InjOn nodePos (({sampleA, sampleB} : Finset Ipv4Address) : Set Ipv4Address) := by
  have h : ∀ a ∈ ({sampleA, sampleB} : Finset Ipv4Address),
      ∀ b ∈ ({sampleA, sampleB} : Finset Ipv4Address), nodePos a = nodePos b → a = b := by
    decide
  exact fun a ha b hb => h a ha b hb

theorem samplePair_ring : StableRing samplePair {sampleA, sampleB} where
  localAddress := by decide
  successor := by decide
  getAny_notMem := by decide
  status := by decide
  predecessor := by decide

theorem samplePair_fingers : FingersWithin samplePair {sampleA, sampleB} := by
  have hlist : ∀ a ∈ ({sampleA, sampleB} : Finset Ipv4Address),
      ¬ (samplePair a).fingerTable.isEmpty ∧
        ∀ e ∈ (samplePair a).fingerTable.toList,
          e.2 ∈ ({sampleA, sampleB} : Finset Ipv4Address) := by
    decide
  intro a ha
  exact ⟨(hlist a ha).1, fun i finger h =>
    (hlist a ha).2 (i, finger) (Std.TreeMap.mem_toList_iff_getElem?_eq_some.mpr h)⟩

end PennSearch
