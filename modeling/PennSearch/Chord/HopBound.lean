import Mathlib.Data.Nat.Log
import PennSearch.Chord.FingerRepair
import PennSearch.Chord.Lookup

/-!
# How many hops a lookup takes

With the finger of every start point in the table, a hop goes at least as far as
the largest power of two that fits in the way to the last member before the
target. So it leaves less than half of that way, and a lookup visits a number of
members that grows with the logarithm of the largest way in terms of the smallest.
-/

namespace PennSearch

open Clockwise MessagePassing

variable [Sha1]

section Positions

variable {R : Finset Ipv4Address} {a f p : Ipv4Address} {i : ℕ}

/-- Finger `i` of `a`, when it is another member, lies at least `2 ^ (i - 1)` after `a`. -/
theorem two_pow_le_cwDist (ha : a ∈ R) (h160 : i ≤ 160)
    (howner : IsOwner nodePos R (fingerStart (nodePos a) i) f) (hne : nodePos f ≠ nodePos a) :
    2 ^ (i - 1) ≤ cwDist (nodePos a) (nodePos f) := by
  have h₁ := howner.2 a ha
  have hne' : (nodePos f).val ≠ (nodePos a).val := fun hv => hne (Fin.ext hv)
  have d := cwDist_fingerStart (i := i) (nodePos a) h160
  have d₁ := cwDist_cases (nodePos a) (fingerStart (nodePos a) i)
  have d₂ := cwDist_cases (nodePos a) (nodePos f)
  have d₃ := cwDist_cases (fingerStart (nodePos a) i) (nodePos f)
  have d₄ := cwDist_cases (fingerStart (nodePos a) i) (nodePos a)
  generalize 2 ^ (i - 1) = s at *
  omega

theorem cwDist_finger_le (h160 : i ≤ 160)
    (howner : IsOwner nodePos R (fingerStart (nodePos a) i) f) (hp : p ∈ R)
    (hle : 2 ^ (i - 1) ≤ cwDist (nodePos a) (nodePos p)) :
    cwDist (nodePos a) (nodePos f) ≤ cwDist (nodePos a) (nodePos p) ∧
      nodePos f ≠ nodePos a := by
  have h₁ := howner.2 p hp
  have hpow : 0 < 2 ^ (i - 1) := by positivity
  have d := cwDist_fingerStart (i := i) (nodePos a) h160
  have d₁ := cwDist_cases (nodePos a) (fingerStart (nodePos a) i)
  have d₂ := cwDist_cases (nodePos a) (nodePos f)
  have d₃ := cwDist_cases (fingerStart (nodePos a) i) (nodePos f)
  have d₄ := cwDist_cases (nodePos a) (nodePos p)
  have d₅ := cwDist_cases (fingerStart (nodePos a) i) (nodePos p)
  rw [ne_eq, Fin.ext_iff]
  generalize 2 ^ (i - 1) = s at *
  omega
end Positions

namespace ChordNode

variable {n : ChordNode} {target : Digest} {R : Finset Ipv4Address} {a hop p : Ipv4Address}

theorem findNextHopLoop_index {fingers : List (UInt16 × Ipv4Address)}
    (hsorted : fingers.Pairwise fun e e' => e'.1.toNat < e.1.toNat) {i : UInt16} {f : Ipv4Address}
    (hmem : (i, f) ∈ fingers) (hf : f ≠ n.localAddress)
    (harc : InArc (nodePos n.localAddress) target.pos (nodePos f)) :
    ∃ j : UInt16, i.toNat ≤ j.toNat ∧ (j, n.findNextHopLoop target fingers) ∈ fingers ∧
      n.findNextHopLoop target fingers ≠ n.localAddress ∧
      InArc (nodePos n.localAddress) target.pos (nodePos (n.findNextHopLoop target fingers)) := by
  induction fingers with
  | nil => cases hmem
  | cons entry rest ih =>
      obtain ⟨j, finger⟩ := entry
      rw [List.pairwise_cons] at hsorted
      rw [findNextHopLoop_cons]
      split
      · rename_i hqual
        refine ⟨j, ?_, List.mem_cons_self, hqual⟩
        rcases List.mem_cons.mp hmem with heq | hrest
        · rw [(Prod.mk.inj heq).1]
        · exact (hsorted.1 _ hrest).le
      · rename_i hqual
        rcases List.mem_cons.mp hmem with heq | hrest
        · obtain ⟨rfl, rfl⟩ := Prod.mk.inj heq
          exact absurd ⟨hf, harc⟩ hqual
        · obtain ⟨j', hij, hin, hrest⟩ := ih hsorted.2 hrest
          exact ⟨j', hij, List.mem_cons_of_mem _ hin, hrest⟩

/-- `FindNextHop` never passes over a qualifying finger for one with a smaller index;
finger 1 is the only one that it does not look at. -/
theorem findNextHop_index (hhop : n.findNextHop target = .ok hop) {i j : UInt16}
    {f g : Ipv4Address} (hj : n.fingerTable[j]? = some g) (hji : j.toNat < i.toNat)
    (hi : n.fingerTable[i]? = some f) (hf : f ≠ n.localAddress)
    (harc : InArc (nodePos n.localAddress) target.pos (nodePos f)) :
    ∃ k : UInt16, i.toNat ≤ k.toNat ∧ n.fingerTable[k]? = some hop ∧ hop ≠ n.localAddress := by
  have hsorted := n.fingerTable.ordered_keys_toList
  have hmem : (i, f) ∈ n.fingerTable.toList := Std.TreeMap.mem_toList_iff_getElem?_eq_some.mpr hi
  have hmem' : (j, g) ∈ n.fingerTable.toList := Std.TreeMap.mem_toList_iff_getElem?_eq_some.mpr hj
  unfold findNextHop at hhop
  split at hhop
  · cases hhop
  · rename_i first rest hlist
    injection hhop with hhop
    rw [hlist] at hsorted hmem hmem'
    have hsorted' : (first :: rest).Pairwise fun e e' => e.1.toNat < e'.1.toNat :=
      hsorted.imp fun h => UInt16.lt_iff_toNat_lt.mp (Std.compare_eq_lt.mp h)
    rw [List.pairwise_cons] at hsorted'
    have hrest : (i, f) ∈ rest := by
      rcases List.mem_cons.mp hmem with heq | hrest
      · rcases List.mem_cons.mp hmem' with heq' | hrest'
        · rw [← heq] at heq'
          exact absurd (congrArg UInt16.toNat (Prod.mk.inj heq').1) hji.ne
        · have hlt := hsorted'.1 _ hrest'
          rw [← heq] at hlt
          exact absurd (hlt.trans hji) (lt_irrefl _)
      · exact hrest
    obtain ⟨k, hik, hin, hne, -⟩ := findNextHopLoop_index
      (List.pairwise_reverse.mpr hsorted'.2) (List.mem_reverse.mpr hrest) hf harc
    rw [hhop] at hin hne
    refine ⟨k, hik, Std.TreeMap.mem_toList_iff_getElem?_eq_some.mp ?_, hne⟩
    rw [hlist]
    exact List.mem_cons_of_mem _ (List.mem_reverse.mp hin)

end ChordNode

/-- Every finger of `a` is right, and there are no others. -/
structure FingersExact (R : Finset Ipv4Address) (a : Ipv4Address) (n : ChordNode) : Prop where
  right : FingersRight R a n 161
  bounded : ∀ i ∈ n.fingerTable, 1 ≤ i.toNat ∧ i.toNat ≤ 160

section Halving

variable {R : Finset Ipv4Address} {n : ChordNode} {a hop p : Ipv4Address} {target : Digest}

theorem FingersExact.isOwner (h : FingersExact R a n) {i : UInt16} {f : Ipv4Address}
    (hi : n.fingerTable[i]? = some f) :
    i.toNat ≤ 160 ∧ IsOwner nodePos R (fingerStart (nodePos a) i.toNat) f := by
  have hmem : i ∈ n.fingerTable := by
    rw [Std.TreeMap.mem_iff_isSome_getElem?, hi]
    rfl
  obtain ⟨hpos, h160⟩ := h.bounded i hmem
  obtain ⟨f', hf', howner⟩ := h.right i.toNat hpos (by omega)
  rw [UInt16.ofNat_toNat, hi] at hf'
  exact ⟨h160, Option.some.inj hf' ▸ howner⟩

theorem FingersExact.filled (h : FingersExact R a n) : ¬ n.fingerTable.isEmpty := by
  intro hempty
  obtain ⟨f, hf, -⟩ := h.right 1 le_rfl (by omega)
  have hnone := Std.TreeMap.isEmpty_iff_forall_not_mem.mp hempty (UInt16.ofNat 1)
  rw [Std.TreeMap.mem_iff_isSome_getElem?, hf] at hnone
  exact hnone rfl

/-- The next hop is another member, on the way to the target. -/
theorem FingersExact.hop_between (h : FingersExact R a n) (hlocal : n.localAddress = a)
    (hinj : Set.InjOn nodePos (R : Set Ipv4Address)) (ha : a ∈ R) (hsucc : n.successorAddr ∈ R)
    (hout : ¬ n.inOwnArc target.pos) (hhop : n.findNextHop target = .ok hop) :
    hop ∈ R ∧ nodePos hop ≠ nodePos a ∧
      cwDist (nodePos a) (nodePos hop) ≤ cwDist (nodePos a) target.pos := by
  subst hlocal
  obtain ⟨hne, hlt⟩ := not_or.mp hout
  rcases ChordNode.findNextHop_spec hhop with rfl | ⟨⟨i, hi⟩, hself, harc⟩
  · exact ⟨hsucc, Ne.symm hne, (not_le.mp hlt).le⟩
  · have hat : nodePos n.localAddress ≠ target.pos := fun heq => hout (heq ▸ inArc_left _ _)
    have hhopR := (h.isOwner hi).2.1
    exact ⟨hhopR, fun heq => hself (hinj hhopR ha heq), harc.resolve_left hat⟩

/-- A hop at least halves the distance to the last member before the target. With
`2 ^ k` the largest power of two in that distance, finger `k + 1` qualifies. -/
theorem FingersExact.hop_halves (h : FingersExact R a n) (hlocal : n.localAddress = a)
    (hinj : Set.InjOn nodePos (R : Set Ipv4Address)) (ha : a ∈ R) (hsucc : n.successorAddr ∈ R)
    (hout : ¬ n.inOwnArc target.pos) (hhop : n.findNextHop target = .ok hop)
    (hlast : IsLast nodePos R target.pos p) :
    hop ∈ R ∧ 2 * cwDist (nodePos hop) (nodePos p) < cwDist (nodePos a) (nodePos p) := by
  obtain ⟨hhopR, hne, hle⟩ := h.hop_between hlocal hinj ha hsucc hout hhop
  have hadd := hlast.cwDist_add ha hhopR hle
  refine ⟨hhopR, ?_⟩
  have hpos : 0 < cwDist (nodePos a) (nodePos hop) := by
    have hne' : (nodePos hop).val ≠ (nodePos a).val := fun hv => hne (Fin.ext hv)
    have d := cwDist_cases (nodePos a) (nodePos hop)
    omega
  set d := cwDist (nodePos a) (nodePos p) with hd
  have hdlt : d < 2 ^ 160 := cwDist_lt _ _
  have hd0 : d ≠ 0 := by omega
  obtain ⟨hlow, hhigh⟩ : 2 ^ Nat.log 2 d ≤ d ∧ d < 2 ^ (Nat.log 2 d + 1) :=
    ⟨Nat.pow_log_le_self 2 hd0, Nat.lt_pow_succ_log_self (by omega) d⟩
  generalize Nat.log 2 d = k at hlow hhigh
  have hk : k < 160 := (Nat.pow_lt_pow_iff_right (by omega)).mp (hlow.trans_lt hdlt)
  -- the hop is at least as far as the start point of finger `k + 1`
  suffices hfar : 2 ^ k ≤ cwDist (nodePos a) (nodePos hop) by
    rw [pow_succ] at hhigh
    omega
  cases k with
  | zero => exact hpos
  | succ k =>
      obtain ⟨f, hf, howner⟩ := h.right (k + 2) (by omega) (by omega)
      obtain ⟨g, hg, -⟩ := h.right 1 le_rfl (by omega)
      have htoNat : (UInt16.ofNat (k + 2)).toNat = k + 2 := by
        rw [UInt16.toNat_ofNat']
        omega
      obtain ⟨hfle, hfa⟩ := cwDist_finger_le (by omega) howner hlast.1 hlow
      have hfarc : cwDist (nodePos a) (nodePos f) ≤ cwDist (nodePos a) target.pos := by
        have h₁ := hlast.2 a ha
        have d₁ := cwDist_cases (nodePos a) (nodePos p)
        have d₂ := cwDist_cases (nodePos a) target.pos
        have d₃ := cwDist_cases (nodePos p) target.pos
        omega
      subst hlocal
      obtain ⟨j, hij, hj, hself⟩ := ChordNode.findNextHop_index hhop (i := UInt16.ofNat (k + 2))
        (j := UInt16.ofNat 1) hg (by rw [htoNat, UInt16.toNat_ofNat']; omega) hf
        (fun heq => hfa (heq ▸ rfl)) (Or.inr hfarc)
      obtain ⟨hj160, hjowner⟩ := h.isOwner hj
      calc 2 ^ (k + 1) ≤ 2 ^ (j.toNat - 1) := Nat.pow_le_pow_right (by omega) (by omega)
        _ ≤ cwDist (nodePos n.localAddress) (nodePos hop) :=
            two_pow_le_cwDist ha hj160 hjowner hne

end Halving

def ExactFingers (node : Ipv4Address → ChordNode) (R : Finset Ipv4Address) : Prop :=
  ∀ a ∈ R, FingersExact R a (node a)

theorem SuccessorRing.inOwnArc_of_isLast {node : Ipv4Address → ChordNode}
    {R : Finset Ipv4Address} (hring : SuccessorRing node R) {p : Ipv4Address} {t : Fin (2 ^ 160)}
    (h : IsLast nodePos R t p) : (node p).inOwnArc t := by
  by_contra hout
  unfold ChordNode.inOwnArc at hout
  rw [hring.localAddress p h.1] at hout
  exact absurd (h.2 _ (hring.successor_mem h.1)) (not_le.mpr (cwDist_lt_of_not_inArc hout))

section Lookups

variable {node : Ipv4Address → ChordNode} {R : Finset Ipv4Address} {message : PennChordMessage}
  {target : Digest} {g : ℕ}

/-- A lookup visits at most `k + 1` members when `2 ^ k` times the smallest distance
between two members is more than the way to the last member before the target. -/
theorem followRequest_halves (hinj : Set.InjOn nodePos (R : Set Ipv4Address))
    (hring : SuccessorRing node R) (hexact : ExactFingers node R)
    (hgap : ∀ b ∈ R, ∀ c ∈ R, b ≠ c → g ≤ cwDist (nodePos b) (nodePos c))
    (htarget : message.target = some target) {p : Ipv4Address}
    (hlast : IsLast nodePos R target.pos p) (k : ℕ) :
    ∀ (fuel : ℕ) (source a : Ipv4Address), k < fuel → a ∈ R →
      cwDist (nodePos a) (nodePos p) < g * 2 ^ k →
        ∃ b ∈ R, (node b).inOwnArc target.pos ∧ followRequest node message fuel source a =
          .ok (some (message.requester, message.answer (node b).successorAddr)) := by
  induction k with
  | zero =>
      intro fuel source a hfuel ha hlt
      obtain ⟨fuel, rfl⟩ := Nat.exists_eq_add_of_lt hfuel
      obtain rfl : a = p := by
        by_contra hne
        have hle := hgap a ha p hlast.1 hne
        omega
      exact ⟨a, ha, hring.inOwnArc_of_isLast hlast,
        followRequest_answer htarget (hring.inOwnArc_of_isLast hlast) _ _⟩
  | succ k ih =>
      intro fuel source a hfuel ha hlt
      obtain ⟨fuel, rfl⟩ : ∃ m, fuel = m + 1 := ⟨fuel - 1, by omega⟩
      by_cases hown : (node a).inOwnArc target.pos
      · exact ⟨a, ha, hown, followRequest_answer htarget hown _ _⟩
      · obtain ⟨hop, hhop⟩ := ChordNode.findNextHop_isOk target (hexact a ha).filled
        obtain ⟨hhopR, hhalf⟩ := (hexact a ha).hop_halves (hring.localAddress a ha) hinj ha
          (hring.successor_mem ha) hown hhop hlast
        rw [followRequest_forward htarget hown hhop]
        refine ih fuel a hop (by omega) hhopR ?_
        have hpow : g * 2 ^ (k + 1) = 2 * (g * 2 ^ k) := by ring
        omega

end Lookups

theorem Repairing.exactFingers {R : Finset Ipv4Address} {es : List ChordEvent} {c : ChordNet}
    (h : Repairing R es c) (hpasses : ∀ a ∈ R, 2 ≤ es.count (.fixFinger a)) :
    ExactFingers c.node R := by
  intro a ha
  refine ⟨h.repaired a ha (hpasses a ha), fun i hi => ?_⟩
  rw [Std.TreeMap.mem_iff_isSome_getElem?] at hi
  obtain ⟨f, hf⟩ := Option.isSome_iff_exists.mp hi
  exact (h.valid a ha i f hf).2

/-- Lookups on a repaired ring. Start with a stable ring of at least two members whose
timers run, whose fingers are members, and none of which sits at a start point; let
anything happen but joins and leaves, with passes of several members under way at once,
until the timer of each has expired twice. From then on a request of any kind for a
target where no member sits is answered with the owner, wherever it starts, and it
visits at most `k + 1` members when `2 ^ k` times the smallest distance between two of
them is a full turn. -/
theorem lookups_halve {c c' : ChordNet} {R : Finset Ipv4Address} {es : List ChordEvent}
    (hinj : Set.InjOn nodePos (R : Set Ipv4Address)) (hstable : StableNet c R)
    (hcard : 2 ≤ R.card) (hfingers : FingersWithin c.node R) (hindices : c.IndicesValid)
    (htimer : ∀ a ∈ R, (c.node a).fixFingerTimer = true)
    (hgeneral : ∀ a ∈ R, ∀ b ∈ R, ∀ m, 1 ≤ m → m ≤ 160 → nodePos b ≠ fingerStart (nodePos a) m)
    (hrun : Run ChordNet.step ChordNet.Undisturbed c es c')
    (hpasses : ∀ a ∈ R, 2 ≤ es.count (.fixFinger a)) {g k : ℕ}
    (hgap : ∀ a ∈ R, ∀ b ∈ R, a ≠ b → g ≤ cwDist (nodePos a) (nodePos b))
    (hturn : 2 ^ 160 ≤ g * 2 ^ k) (message : PennChordMessage) {target : Digest}
    (htarget : message.target = some target) (hnone : ∀ a ∈ R, nodePos a ≠ target.pos)
    {owner : Ipv4Address} (howner : IsOwner nodePos R target.pos owner) :
    ∀ start ∈ R, ∀ (source : Ipv4Address) (fuel : ℕ), k < fuel →
      followRequest c'.node message fuel source start =
        .ok (some (message.requester, message.answer owner)) := by
  intro start hstart source fuel hfuel
  have hrepair : Repairing R es c' :=
    (Repairing.start hstable hfingers hindices htimer).run hinj hcard hgeneral hrun
  have hring := hrepair.settled.stableRing hrepair.localAddress
  obtain ⟨p, hlast⟩ : ∃ p, IsLast nodePos R target.pos p := exists_isLast ⟨start, hstart⟩ _
  obtain ⟨b, hb, hown, hans⟩ := followRequest_halves hinj hring.toSuccessorRing
    (hrepair.exactFingers hpasses) hgap htarget hlast k fuel source start hfuel hstart
    ((cwDist_lt _ _).trans_le hturn)
  have howner' := hring.owner_of_inOwnArc hb hown fun heq => absurd heq (hnone b hb)
  rw [hans, howner'.unique hinj howner]

end PennSearch

namespace PennSearch

open Clockwise MessagePassing

attribute [local instance] sampleSha1

theorem samplePair_startPoints : ∀ a ∈ ({sampleA, sampleB} : Finset Ipv4Address),
    ∀ b ∈ ({sampleA, sampleB} : Finset Ipv4Address), ∀ m, 1 ≤ m → m ≤ 160 →
      nodePos b ≠ fingerStart (nodePos a) m := by
  have hall : ∀ m < 161, 1 ≤ m → ∀ a ∈ ({sampleA, sampleB} : Finset Ipv4Address),
      ∀ b ∈ ({sampleA, sampleB} : Finset Ipv4Address), nodePos b ≠ fingerStart (nodePos a) m := by
    decide +kernel
  exact fun a ha b hb m hm h160 => hall m (by omega) hm a ha b hb

theorem samplePair_indices : ChordNet.IndicesValid ⟨samplePair, []⟩ where
  table a i hi := by
    by_cases ha : a ∈ ({sampleA, sampleB} : Finset Ipv4Address)
    · have hlist : ∀ a ∈ ({sampleA, sampleB} : Finset Ipv4Address),
          ∀ e ∈ (samplePair a).fingerTable.toList, 1 ≤ e.1.toNat ∧ e.1.toNat ≤ 160 := by decide
      rw [Std.TreeMap.mem_iff_isSome_getElem?] at hi
      obtain ⟨f, hf⟩ := Option.isSome_iff_exists.mp hi
      exact hlist a ha (i, f) (Std.TreeMap.mem_toList_iff_getElem?_eq_some.mpr hf)
    · simp only [Finset.mem_insert, Finset.mem_singleton, not_or] at ha
      simp [samplePair, ha, ChordNode.start] at hi
  packets p hp := by cases hp

theorem lookups_halve_sample :
    ∃ c', Run ChordNet.step ChordNet.Undisturbed ⟨samplePair, []⟩
        [.fixFinger sampleA, .deliver 0, .deliver 0, .fixFinger sampleB, .fixFinger sampleA,
          .deliver 0, .fixFinger sampleB, .deliver 0] c' ∧
      ∀ start ∈ ({sampleA, sampleB} : Finset Ipv4Address), ∀ (source : Ipv4Address) (fuel : ℕ),
        2 < fuel →
          followRequest c'.node ⟨7, .lookupPublish 0 sampleB (sha1Key [84, 53]) [84, 53]⟩
              fuel source start =
            .ok (some (sampleB, ⟨7, .lookupPublishSuccess 0 [84, 53] sampleA⟩)) := by
  have hexec : (execute ChordNet.step ChordNet.Undisturbed ⟨samplePair, []⟩
      [.fixFinger sampleA, .deliver 0, .deliver 0, .fixFinger sampleB, .fixFinger sampleA,
        .deliver 0, .fixFinger sampleB, .deliver 0]).isSome := by decide +kernel
  obtain ⟨c', hc⟩ := Option.isSome_iff_exists.mp hexec
  have hgap : ∀ a ∈ ({sampleA, sampleB} : Finset Ipv4Address),
      ∀ b ∈ ({sampleA, sampleB} : Finset Ipv4Address), a ≠ b →
        2 ^ 158 ≤ cwDist (nodePos a) (nodePos b) := by decide
  have howner : IsOwner nodePos {sampleA, sampleB} (sha1Key [84, 53]).pos sampleA := by decide
  exact ⟨c', .of_execute hc, lookups_halve samplePair_injOn samplePair_stable (by decide)
    samplePair_fingers samplePair_indices (by decide) samplePair_startPoints (.of_execute hc)
    (by decide) hgap (by norm_num) ⟨7, .lookupPublish 0 sampleB (sha1Key [84, 53]) [84, 53]⟩ rfl
    (by decide) howner⟩

end PennSearch
