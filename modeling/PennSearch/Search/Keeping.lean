import PennSearch.Chord.JoinSettles
import PennSearch.Search.JoinPublish

/-!
# Where the keys are, from command to command

A ring starts with one member, and grows and shrinks by one node at a time. In
between, keys are published. `Keeping` is the invariant of both layers over such a
run: every key is held by its owner, or is on the way to it, and all that has been
published is held, in flight, or waits for the answer to a lookup.
-/

namespace PennSearch

open Clockwise MessagePassing

variable [Sha1] {V R : Finset Ipv4Address} {X : Ipv4Address}

/-- Nodes with different digests; `0.0.0.0` is none of them. -/
structure Hosts (V : Finset Ipv4Address) : Prop where
  injOn : Set.InjOn nodePos (V : Set Ipv4Address)
  getAny_notMem : .getAny ∉ V

def KeyApart (V : Finset Ipv4Address) (key : CxxString) : Prop := ∀ a ∈ V, nodePos a ≠ keyPos key

instance (V : Finset Ipv4Address) (key : CxxString) : Decidable (KeyApart V key) :=
  inferInstanceAs (Decidable (∀ a ∈ V, _))

def OwnsApart (V R : Finset Ipv4Address) (a : Ipv4Address) (key : CxxString) : Prop :=
  Owns R a key ∧ KeyApart V key

/-- While `X` joins `R`, node `a` may keep `key`: as its owner with `X` in the ring,
or as its owner before, as long as it knows a predecessor that is not `X`. -/
def MayKeep (V R : Finset Ipv4Address) (X : Ipv4Address) (c : ChordNet) (a : Ipv4Address)
    (key : CxxString) : Prop :=
  KeyApart V key ∧ (Owns (insert X R) a key ∨
    (Owns R a key ∧ (c.node a).predecessorAddr ≠ X ∧ (c.node a).predecessorAddr ≠ .getAny))

theorem Hosts.ne_getAny (hV : Hosts V) (hR : R ⊆ V) {a : Ipv4Address} (ha : a ∈ R) :
    a ≠ .getAny := fun heq => hV.getAny_notMem (heq ▸ hR ha)

theorem Hosts.injOn_of_subset (hV : Hosts V) (hR : R ⊆ V) :
    Set.InjOn nodePos (R : Set Ipv4Address) := hV.injOn.mono (Finset.coe_subset.mpr hR)

section MayKeep

variable {c c' : ChordNet} {a src : Ipv4Address} {key : CxxString}

theorem MayKeep.owns (h : MayKeep V R X c a key) (hV : insert X R ⊆ V)
    (hstable : c.view.StableAt (insert X R)) : OwnsApart V (insert X R) a key := by
  obtain ⟨hapart, howns | ⟨howns, hpredX, hpred⟩⟩ := h
  · exact ⟨howns, hapart⟩
  · refine ⟨?_, hapart⟩
    have hprev := hstable.predecessor a (Finset.mem_insert_of_mem howns.1)
    unfold IsPredecessor at hprev
    split at hprev
    · exact absurd hprev hpred
    · have hmem := Finset.mem_of_mem_insert_of_ne hprev.1 hpredX
      exact hprev.2.isOwner (howns.inArc hmem) fun heq => absurd heq (hapart _ (hV hprev.1))

theorem MayKeep.of_inArc (h : MayKeep V R X c a key) (hV : insert X R ⊆ V)
    (hany : src ≠ .getAny) (hsrc : src ∈ insert X R) (hnext : NextOnce R X src a)
    (hpred : (c'.node a).predecessorAddr = src)
    (harc : InArc (nodePos src) (nodePos a) (keyPos key)) : MayKeep V R X c' a key := by
  obtain ⟨hapart, howns | ⟨howns, -⟩⟩ := h
  · exact ⟨hapart, Or.inl howns⟩
  · by_cases hsrcX : src = X
    · subst hsrcX
      exact ⟨hapart, Or.inl (hnext.of_newcomer.isOwner harc
        fun heq => absurd heq (hapart _ (hV hsrc)))⟩
    · exact ⟨hapart, Or.inr ⟨howns, hpred ▸ hsrcX, hpred ▸ hany⟩⟩

theorem MayKeep.of_predecessor (h : MayKeep V R X c a key)
    (hpred : (c'.node a).predecessorAddr = (c.node a).predecessorAddr ∨
      (c.node a).predecessorAddr = .getAny) : MayKeep V R X c' a key := by
  obtain ⟨hapart, howns | ⟨howns, hX, hany⟩⟩ := h
  · exact ⟨hapart, Or.inl howns⟩
  · rw [← hpred.resolve_right hany] at hX hany
    exact ⟨hapart, Or.inr ⟨howns, hX, hany⟩⟩

end MayKeep

namespace PennNet

variable {s s' : PennNet} {docs : CxxString → Multiset CxxString} {w : Ipv4Address}

def Shippable (V : Finset Ipv4Address) (w : Ipv4Address) (s : PennNet) : Prop :=
  ∀ l ∈ s.lookups, ∀ docVector, (s.search.node w).invertListMap[l.lookupKey]? = some docVector →
    KeyApart V l.lookupKey ∧
      ∀ tx, PennSearchMessage.fits ⟨tx, .storeList l.lookupKey docVector⟩ = true

/-- What has been published of a key, `docs`, is held, in flight, or will be shipped
when a lookup of `w` is answered. -/
structure Balanced (V : Finset Ipv4Address) (docs : CxxString → Multiset CxxString)
    (w : Ipv4Address) (s : PennNet) : Prop where
  publishing : s.Publishing w
  shippable : s.Shippable V w
  total : ∀ key, (s.search.total V key).documents +
    s.waiting key • (s.search.node w).invertListMap.documents key = docs key

inductive RingPhase (V R : Finset Ipv4Address) (s : PennNet) : Prop
  | mending (ring : Mending R s.chord.view)
      (placed : s.search.Placed (OwnsApart V R) (OwnsApart V R))
  | admitting {R₀ : Finset Ipv4Address} {X : Ipv4Address} (eq : R = insert X R₀)
      (newcomer : X ∉ R₀) (nonempty : R₀.Nonempty) (ring : Admitting R₀ X s.chord.view)
      (placed : s.search.Placed (OwnsApart V R) (MayKeep V R₀ X s.chord))
      (lookups : s.lookups = [])

/-- Both layers of a run with the members `R` after the last command, in which
`docs` has been published. -/
structure Keeping (V R : Finset Ipv4Address) (docs : CxxString → Multiset CxxString)
    (s : PennNet) : Prop where
  subset : R ⊆ V
  nonempty : R.Nonempty
  phase : s.RingPhase V R
  chordAddress : ∀ a, (s.chord.node a).localAddress = a
  searchAddress : ∀ a, (s.search.node a).localAddress = a
  lookupFree : s.chord.LookupFree
  balanced : ∃ w, s.Balanced V docs w

/-- All messages have been delivered, all lookups answered, and stabilization moves
no pointer. -/
def Quiet (V : Finset Ipv4Address) (s : PennNet) : Prop :=
  s.chord.inFlight = [] ∧ s.search.inFlight = [] ∧ s.lookups = [] ∧ s.chord.Calm V

instance (V : Finset Ipv4Address) (s : PennNet) : Decidable (s.Quiet V) :=
  inferInstanceAs (Decidable (_ ∧ _))

omit [Sha1] in
def members (V : Finset Ipv4Address) (s : PennNet) : Finset Ipv4Address :=
  V.filter fun a => (s.chord.node a).chordStatus = true

omit [Sha1] in
theorem members_eq (hR : R ⊆ V) (h : ∀ a, (s.chord.node a).chordStatus = true ↔ a ∈ R) :
    s.members V = R := by
  ext a
  rw [members, Finset.mem_filter, h a]
  exact ⟨And.right, fun ha => ⟨hR ha, ha⟩⟩

/-! ## The end of a command -/

/-- When everything is quiet the ring is stable, and every key is at its owner. -/
theorem Keeping.settled (h : Keeping V R docs s) (hV : Hosts V) (hquiet : s.Quiet V) :
    s.chord.view.StableAt R ∧ (∀ a ∉ R, s.chord.view.node a = .outside) ∧
      s.search.Placed (OwnsApart V R) (OwnsApart V R) := by
  obtain ⟨hchord, hsearch, -, hcalm⟩ := hquiet
  have hview : s.chord.view.inFlight = [] := ChordNet.view_inFlight_nil hchord
  have hinj := hV.injOn_of_subset h.subset
  cases h.phase with
  | mending ring placed => exact ⟨ring.stableAt hview, ring.outside, placed⟩
  | admitting eq newcomer nonempty ring placed lookups =>
      subst eq
      have hstable := ring.stableAt newcomer hinj nonempty
        (fun hmem => hV.getAny_notMem (h.subset hmem))
        ((Finset.subset_insert _ _).trans h.subset) h.chordAddress hchord hcalm
      refine ⟨hstable, ring.outside, fun a key hkey => ?_, fun p hp => by simp [hsearch] at hp⟩
      exact (placed.held a key hkey).owns h.subset hstable

/-- When everything is quiet, the owner of a key holds what has been published of
it, and nobody else holds the key. -/
theorem Keeping.documents_eq (h : Keeping V R docs s) (hV : Hosts V) (hquiet : s.Quiet V)
    {b : Ipv4Address} {key : CxxString} (hb : Owns R b key) :
    (s.search.node b).dataMap.documents key = docs key ∧
      ∀ a, a ≠ b → key ∉ (s.search.node a).dataMap := by
  obtain ⟨-, -, hplaced⟩ := h.settled hV hquiet
  have honly : ∀ a, OwnsApart V R a key → a = b := fun a ha =>
    ha.1.unique (hV.injOn_of_subset h.subset) hb
  obtain ⟨-, hsearch, hlookups, -⟩ := hquiet
  obtain ⟨w, hbalanced⟩ := h.balanced
  refine ⟨?_, fun a hab hkey => hab (honly a (hplaced.held a key hkey))⟩
  have htotal := hbalanced.total key
  rw [hplaced.total_eq_held hsearch (h.subset hb.1) honly, SearchNode.held,
    PostingMap.documents_posting, waiting, hlookups] at htotal
  simpa using htotal

/-! ## Timers and deliveries in the Chord layer -/

theorem Balanced.congr (h : s.Balanced V docs w) (hlookups : s'.lookups = s.lookups)
    (hmap : ∀ a, (s'.search.node a).invertListMap = (s.search.node a).invertListMap)
    (htotal : ∀ key, s'.search.total V key = s.search.total V key) : s'.Balanced V docs w := by
  refine ⟨fun l hl => h.publishing l (hlookups ▸ hl), fun l hl docVector hget => ?_, fun key => ?_⟩
  · rw [hmap] at hget
    exact h.shippable l (hlookups ▸ hl) docVector hget
  · rw [htotal, hmap, waiting, hlookups]
    exact h.total key

/-- Without a hand-over the search layer rests. -/
theorem foldlM_handOver_sends {a : Ipv4Address} {out : List RingAction}
    (h : ∀ act ∈ out, ∃ dst msg, act = .send dst msg) (c : SearchNet) :
    out.foldlM (SearchNet.handOver a) c = .ok c := by
  induction out with
  | nil => rfl
  | cons act out ih =>
      rw [List.forall_mem_cons] at h
      obtain ⟨⟨dst, msg, rfl⟩, hout⟩ := h
      rw [List.foldlM_cons]
      exact ih hout

/-- The hand-over at a node that takes `src` as its predecessor. -/
theorem placed_passKeysJoin {c : ChordNet} {a src : Ipv4Address} {n : SearchNode}
    {acts : List SearchAction}
    (h : s.search.Placed (OwnsApart V (insert X R)) (MayKeep V R X s.chord))
    (hlocal : (s.search.node a).localAddress = a) (hV : insert X R ⊆ V) (hany : src ≠ .getAny)
    (hsrc : src ∈ insert X R) (hnext : NextOnce R X src a)
    (hpred : (c.node a).predecessorAddr = src)
    (hother : ∀ b, b ≠ a → (c.node b).predecessorAddr = (s.chord.node b).predecessorAddr)
    (hresult : (s.search.node a).passKeysJoin src = .ok (n, acts)) :
    SearchNet.Placed (OwnsApart V (insert X R)) (MayKeep V R X c)
      (s.search.act a n (searchPackets a acts)) := by
  have hkeeps : ∀ key, (s.search.node a).keepsKey src key = true ↔
      InArc (nodePos src) (nodePos a) (keyPos key) := fun key => by
    rw [SearchNode.keepsKey_iff, hlocal]
  refine h.handsOver (SearchNode.passKeysJoin_handsOver hresult) (fun key hkey hgo => ?_)
    fun b key hold hstay => ?_
  · obtain ⟨hapart, hmay⟩ := h.held a key hkey
    refine ⟨owns_of_not_inArc hsrc (hmay.elim Or.inr fun hold => Or.inl hold.1) fun harc => ?_,
      hapart⟩
    rw [(hkeeps key).mpr harc] at hgo
    cases hgo
  · by_cases hb : b = a
    · subst hb
      exact MayKeep.of_inArc hold hV hany hsrc hnext hpred
        ((hkeeps key).mp (by simpa using hstay rfl))
    · rw [MayKeep, hother b hb]
      exact hold

/-- A hand-over of entries that fit changes nothing of what is published. -/
theorem Balanced.handsOver {pass : CxxString → Prop} [DecidablePred pass] {a dst : Ipv4Address}
    {n : SearchNode} {acts : List SearchAction} (h : s.Balanced V docs w)
    (ho : HandsOver pass dst (s.search.node a) n acts) (ha : a ∈ V) (hdst : dst ≠ .getAny)
    (hfits : ∀ tx key docVector, (s.search.node a).dataMap[key]? = some docVector → pass key →
      PennSearchMessage.fits ⟨tx, .passKeys key docVector⟩ = true)
    (hlookups : s'.lookups = s.lookups)
    (hsearch : s'.search = s.search.act a n (searchPackets a acts)) : s'.Balanced V docs w := by
  refine h.congr hlookups (fun b => ?_) fun key => ?_
  · rw [hsearch]
    exact Net.act_node_congr (f := SearchNode.invertListMap) (by rw [ho.same]) _ b
  · rw [hsearch]
    exact SearchNet.total_handsOver ho ha hdst hfits key

omit [Sha1] in
theorem searchAddress_handsOver {pass : CxxString → Prop} [DecidablePred pass] {a dst : Ipv4Address}
    {n : SearchNode} {acts : List SearchAction} (h : ∀ b, (s.search.node b).localAddress = b)
    (ho : HandsOver pass dst (s.search.node a) n acts) (sent : List SearchPacket)
    (b : Ipv4Address) :
    ((s.search.act a n sent).node b).localAddress = b :=
  (Net.act_node_congr (f := SearchNode.localAddress) (by rw [ho.same]) _ b).trans (h b)

section ChordTurn

variable {e : ChordEvent} {q : Pointers} {out : List RingAction}

theorem Keeping.mendingTurn (h : Keeping V R docs s) (hV : Hosts V)
    (ring : Mending R s.chord.view) (placed : s.search.Placed (OwnsApart V R) (OwnsApart V R))
    (he : s.chord.Ordinary e) (hadopts : s.chord.AdoptsMembers e)
    (hturn : RingTurn (s.chord.Hop e) s.chord.view (s.chord.ringEvent e) (s.chord.actor e) q out)
    (hview : s'.chord.view = (s.chord.view.before (s.chord.ringEvent e)).act (s.chord.actor e) q
      (ringSends (s.chord.actor e) out))
    (hfold : out.foldlM (SearchNet.handOver (s.chord.actor e)) s.search = .ok s'.search) :
    s'.search = s.search ∧ s'.RingPhase V R := by
  have hstabilizes : (s.chord.ringEvent e).Stabilizes := by
    have htraffic := he.view
    cases hevent : s.chord.ringEvent e <;> rw [hevent] at htraffic <;> trivial
  obtain ⟨hmending, hsends⟩ := ring.turn (hV.injOn_of_subset h.subset) hstabilizes
    (fun k p v hk hp hmsg hany hne howns => by
      obtain ⟨j, p', rfl, hp', hring⟩ := ChordNet.ringEvent_deliver hk hp
      obtain ⟨hpay, -, hdst⟩ := ringPacket_eq_some.mp hring
      have hnamed : v ∈ p'.msg.payload.namedPredecessor := by
        rw [hmsg] at hpay
        cases hpayload : p'.msg.payload <;> simp_all [ringMessage, ChordPayload.namedPredecessor]
      exact (ring.mem_iff v).mp (hadopts p' hp' v hnamed hany (hdst ▸ ⟨hne, howns⟩))) hturn
  rw [foldlM_handOver_sends hsends] at hfold
  have hsame := (Except.ok.inj hfold).symm
  exact ⟨hsame, .mending (hview ▸ hmending) (hsame ▸ placed)⟩

/-- Node `a` follows a notification of `src`, and what it passes fits. -/
def PassesTo (V : Finset Ipv4Address) (s : PennNet) (a src : Ipv4Address) (s' : PennNet) : Prop :=
  a ∈ V ∧ src ≠ .getAny ∧ (∀ tx key docVector, (s.search.node a).dataMap[key]? = some docVector →
    (s.search.node a).keepsKey src key = false →
      PennSearchMessage.fits ⟨tx, .passKeys key docVector⟩ = true) ∧
  s.search.handOver a (.joinNotify src) = .ok s'.search

/-- A turn while the newcomer is admitted: nothing happens in the search layer, or a
node hands keys over. -/
theorem Keeping.admittingTurn {R₀ : Finset Ipv4Address} (h : Keeping V (insert X R₀) docs s)
    (hV : Hosts V) (newcomer : X ∉ R₀) (nonempty : R₀.Nonempty)
    (ring : Admitting R₀ X s.chord.view)
    (placed : s.search.Placed (OwnsApart V (insert X R₀)) (MayKeep V R₀ X s.chord))
    (lookups : s'.lookups = []) (he : s.chord.Ordinary e) (hrelays : s.chord.RelaysToMembers e)
    (hfits : s.PassesFit e)
    (hturn : RingTurn (s.chord.Hop e) s.chord.view (s.chord.ringEvent e) (s.chord.actor e) q out)
    (hview : s'.chord.view = (s.chord.view.before (s.chord.ringEvent e)).act (s.chord.actor e) q
      (ringSends (s.chord.actor e) out))
    (hfold : out.foldlM (SearchNet.handOver (s.chord.actor e)) s.search = .ok s'.search) :
    (s'.search = s.search ∨ ∃ src, s.PassesTo V (s.chord.actor e) src s') ∧
      s'.RingPhase V (insert X R₀) := by
  have hadmitting := ring.turn newcomer (hV.injOn_of_subset h.subset) nonempty
    (fun hmem => hV.getAny_notMem (h.subset hmem)) he.view (hrelays.turn h.chordAddress hturn)
  have hpred := predecessorAddr_of_view hview
  rcases ring.turn_cases he.view hturn with
    ⟨k, src, hk, hp, rfl, hq, hnext, hsrc, ha, hsome, harc⟩ | ⟨hsends, hq⟩
  · -- a notification that is followed
    have hhandOver : s.search.handOver (s.chord.actor e) (.joinNotify src) = .ok s'.search := by
      rw [← hfold]
      exact (bind_pure _).symm
    have hany := hV.ne_getAny h.subset hsrc
    refine ⟨Or.inr ⟨src, h.subset ha, hany, fun tx key docVector hget hgo => ?_, hhandOver⟩,
      .admitting rfl newcomer nonempty (hview ▸ hadmitting) ?_ lookups⟩
    · obtain ⟨j, p, rfl, hp', hring⟩ := ChordNet.ringEvent_deliver hk hp
      obtain ⟨hpay, hpsrc, hpdst⟩ := ringPacket_eq_some.mp hring
      have hnotify : p.msg.payload = .notify := by
        cases hpayload : p.msg.payload <;> simp_all [ringMessage]
      refine hfits p hp' hnotify (hpdst ▸ hsome) (hpdst ▸ hpsrc ▸ harc) (key, docVector)
        (Std.TreeMap.mem_toList_iff_getElem?_eq_some.mpr (hpdst ▸ hget)) ?_
      rw [hpsrc, hpdst]
      exact hgo
    · obtain ⟨⟨n, acts⟩, hresult, hsearch⟩ := bind_eq_ok.mp hhandOver
      rw [← Except.ok.inj hsearch]
      refine placed_passKeysJoin placed (h.searchAddress _) h.subset hany hsrc hnext ?_
        (fun b hb => ?_) hresult
      · rw [hpred, if_pos rfl, hq]
      · rw [hpred, if_neg hb]
  · rw [foldlM_handOver_sends hsends] at hfold
    have hsame := (Except.ok.inj hfold).symm
    refine ⟨Or.inl hsame, .admitting rfl newcomer nonempty (hview ▸ hadmitting) ?_ lookups⟩
    rw [hsame]
    refine ⟨fun b key hkey => (placed.held b key hkey).of_predecessor ?_, placed.addressed⟩
    rw [hpred]
    split
    · rename_i hb
      subst hb
      exact hq
    · exact Or.inl rfl

/-- A timer or a delivery in the Chord layer. -/
theorem Keeping.chordStep (h : Keeping V R docs s) (hV : Hosts V) (he : s.chord.Ordinary e)
    (hlookup : e.isLookup = false) (hrelays : s.chord.RelaysToMembers e)
    (hadopts : s.chord.AdoptsMembers e) (hfits : s.PassesFit e) (hstep : s.chordStep e = .ok s') :
    Keeping V R docs s' := by
  obtain ⟨⟨q, out, hturn, hview, hfold⟩, -, hlookups, hfree, hlocal⟩ :=
    chordStep_view h.chordAddress (s.chord.hopsIn_hop e) h.lookupFree hlookup hstep
  obtain ⟨w, hbalanced⟩ := h.balanced
  have hrest : s'.search = s.search → s'.RingPhase V R → Keeping V R docs s' := by
    intro hsame hphase
    exact ⟨h.subset, h.nonempty, hphase, hlocal, hsame ▸ h.searchAddress, hfree, w,
      hbalanced.congr hlookups (fun _ => by rw [hsame]) fun _ => by rw [hsame]⟩
  cases h.phase with
  | mending ring placed =>
      obtain ⟨hsame, hphase⟩ := h.mendingTurn hV ring placed he hadopts hturn hview hfold
      exact hrest hsame hphase
  | admitting eq newcomer nonempty ring placed lookups =>
      subst eq
      obtain ⟨hsearch, hphase⟩ := h.admittingTurn hV newcomer nonempty ring placed
        (hlookups.trans lookups) he hrelays hfits hturn hview hfold
      rcases hsearch with hsame | ⟨src, ha, hany, hpass, hhandOver⟩
      · exact hrest hsame hphase
      · obtain ⟨⟨n, acts⟩, hresult, hsearch⟩ := bind_eq_ok.mp hhandOver
        have hsearch := (Except.ok.inj hsearch).symm
        have ho := SearchNode.passKeysJoin_handsOver hresult
        refine ⟨h.subset, h.nonempty, hphase, hlocal, ?_, hfree, w,
          hbalanced.handsOver ho ha hany hpass hlookups hsearch⟩
        rw [hsearch]
        exact searchAddress_handsOver h.searchAddress ho _

end ChordTurn

end PennNet

end PennSearch
