import PennSearch.Search.Keeping

/-!
# Key placement

A run starts from a ring of one node. PUBLISH, JOIN and LEAVE commands come one at
a time, each when everything is quiet. Every command keeps `Keeping`, if the step
is one that moves the keys (`MovesKeys`), and so each key is at its owner whenever
everything is quiet again.
-/

namespace PennSearch

open Clockwise MessagePassing

variable [Sha1] {V R : Finset Ipv4Address} {X L x w b : Ipv4Address}

namespace PennNet

variable {s s' : PennNet} {docs : CxxString → Multiset CxxString}

/-! ## JOIN and LEAVE -/

theorem owns_of_keepsKey {key : CxxString} (hlocal : (s.search.node L).localAddress = L)
    (hXL : nodePos X ≠ keyPos key) (h : (s.search.node L).keepsKey X key = true) :
    Owns (insert X {L}) L key := by
  have hnext : IsNext nodePos (insert X {L}) X L :=
    IsNext.insert_self ⟨Finset.mem_singleton_self L, fun c hc => by rw [Finset.mem_singleton.mp hc]⟩
  rw [SearchNode.keepsKey_iff, hlocal] at h
  exact hnext.isOwner h fun heq => absurd heq hXL

/-- A JOIN through another node moves no pointer, and the search layer rests. -/
theorem join_cases (hlocal : ∀ a, (s.chord.node a).localAddress = a) (hfree : s.chord.LookupFree)
    (hne : L ≠ X) (h : s.chordStep (.join X L) = .ok s') :
    RingStep (fun _ _ => True) s.chord.view (.join X L) s'.chord.view ∧
      (∀ a, s'.chord.view.node a = s.chord.view.node a) ∧ s'.search = s.search ∧
      s'.lookups = s.lookups ∧ s'.chord.LookupFree ∧ ∀ a, (s'.chord.node a).localAddress = a := by
  obtain ⟨⟨q, out, hturn, hview, hfold⟩, -, hlookups, hfree', hlocal'⟩ :=
    chordStep_view (F := fun _ _ => True) hlocal (e := .join X L) trivial hfree rfl h
  obtain ⟨hq, hsends⟩ : q = s.chord.view.node X ∧ ∀ act ∈ out, ∃ dst msg, act = .send dst msg := by
    simp only [ChordNet.ringEvent, ChordNet.actor] at hturn
    cases hturn with
    | joinIgnored ignored => exact ⟨rfl, by simp⟩
    | joinLandmark outside => exact absurd rfl hne
    | joinRequest outside ne some => exact ⟨rfl, by simp⟩
  refine ⟨⟨_, q, out, hturn, hview⟩, fun a => ?_, ?_, hlookups, hfree', hlocal'⟩
  · rw [hview, Net.act_node]
    split
    · rename_i ha
      rw [hq, ha]
      rfl
    · rw [RingNet.before_node]
  · rw [foldlM_handOver_sends hsends] at hfold
    exact (Except.ok.inj hfold).symm

theorem mayKeep_of_owns {c : ChordNet} {a : Ipv4Address} {key : CxxString} (hV : Hosts V)
    (hR : R ⊆ V) (hX : X ∉ R) (h : OwnsApart V R a key)
    (hpred : IsPredecessor R (c.node a).predecessorAddr a)
    (halone : R = {a} → Owns (insert X R) a key) : MayKeep V R X c a key := by
  refine ⟨h.2, ?_⟩
  unfold IsPredecessor at hpred
  split at hpred
  · rename_i hsingle
    exact Or.inl (halone hsingle)
  · exact Or.inr ⟨h.1, fun heq => hX (heq ▸ hpred.1), hV.ne_getAny hR hpred.1⟩

/-- The JOIN of a node outside the ring. The member of a ring of one has nothing
that the newcomer owns. -/
theorem Keeping.join (h : Keeping V R docs s) (hV : Hosts V) (hquiet : s.Quiet V) (hXV : X ∈ V)
    (hX : X ∉ R) (hL : L ∈ R) (halone : (s.chord.node L).successorAddr = L →
      ∀ e ∈ (s.search.node L).dataMap.toList, (s.search.node L).keepsKey X e.1 = true)
    (hstep : s.chordStep (.join X L) = .ok s') : Keeping V (insert X R) docs s' := by
  obtain ⟨hstable, houtside, hplaced⟩ := h.settled hV hquiet
  obtain ⟨hchord, hsearch, hlookups, -⟩ := hquiet
  have hview : s.chord.view.inFlight = [] := ChordNet.view_inFlight_nil hchord
  obtain ⟨hring, hnode, hsame, hlookups', hfree, hlocal⟩ :=
    join_cases h.chordAddress h.lookupFree (fun heq : L = X => hX (heq ▸ hL)) hstep
  have hjoining : Joining R X s'.chord.view :=
    Settled.join ⟨hstable, fun p hp => by simp [hview] at hp⟩ hX (houtside X hX) hL hring
  obtain ⟨w, hbalanced⟩ := h.balanced
  refine ⟨Finset.insert_subset hXV h.subset, Finset.insert_nonempty X R,
    .admitting rfl hX h.nonempty ⟨Or.inl hjoining, fun a ha => ?_⟩ ⟨fun a key hkey => ?_, ?_⟩
      (hlookups'.trans hlookups), hlocal, hsame ▸ h.searchAddress, hfree, w,
    hbalanced.congr hlookups' (fun _ => by rw [hsame]) fun _ => by rw [hsame]⟩
  · rw [hnode]
    exact houtside a fun haR => ha (Finset.mem_insert_of_mem haR)
  · rw [hsame] at hkey
    have howns := hplaced.held a key hkey
    have hpred : (s'.chord.node a).predecessorAddr = (s.chord.node a).predecessorAddr :=
      congrArg Pointers.predecessor (hnode a)
    refine mayKeep_of_owns hV h.subset hX howns (hpred ▸ hstable.predecessor a howns.1.1) ?_
    rintro rfl
    obtain rfl := Finset.mem_singleton.mp hL
    have hself : (s.chord.node L).successorAddr = L :=
      Finset.mem_singleton.mp (hstable.successor L hL).1
    obtain ⟨docVector, hget⟩ := Option.isSome_iff_exists.mp
      (Std.TreeMap.mem_iff_isSome_getElem?.mp hkey)
    exact owns_of_keepsKey (h.searchAddress L) (howns.2 X hXV) (halone hself (key, docVector)
      (Std.TreeMap.mem_toList_iff_getElem?_eq_some.mpr hget))
  · intro p hp
    rw [hsame, hsearch] at hp
    cases hp

/-- The LEAVE of a member among others. -/
theorem Keeping.leave (h : Keeping V R docs s) (hV : Hosts V) (hquiet : s.Quiet V) (hx : x ∈ R)
    (hothers : ∃ y ∈ R, y ≠ x) (hfits : s.PassesFit (.leave x))
    (hstep : s.chordStep (.leave x) = .ok s') : Keeping V (R.erase x) docs s' := by
  obtain ⟨hstable, houtside, hplaced⟩ := h.settled hV hquiet
  obtain ⟨hchord, hsearch, -, -⟩ := hquiet
  have hview : s.chord.view.inFlight = [] := ChordNet.view_inFlight_nil hchord
  have hinj := hV.injOn_of_subset h.subset
  have hnext := hstable.successor x hx
  have hne : (s.chord.node x).successorAddr ≠ x := by
    intro hself
    obtain ⟨y, hy, hyx⟩ := hothers
    have hnext' : IsNext nodePos R x x := (congrArg (IsNext nodePos R x) hself).mp hnext
    have hR := eq_singleton_of_isNext_self hinj hx hnext'
    rw [hR, Finset.mem_singleton] at hy
    exact hyx hy
  obtain ⟨hring, -, hlookups, ⟨n, acts, hpass, hsent⟩, hfree, hlocal⟩ := leave_cases
    (F := fun _ _ => True) h.chordAddress h.lookupFree ((hstable.member x).mpr hx) hne hstep
  have ho := SearchNode.passKeysLeave_handsOver hpass
  obtain ⟨w, hbalanced⟩ := h.balanced
  refine ⟨(Finset.erase_subset x R).trans h.subset, ?_,
    .mending (hstable.mending_leave hinj hview houtside hx hne hring) ?_, hlocal, ?_, hfree, w,
    hbalanced.handsOver ho (h.subset hx) (hV.ne_getAny h.subset hnext.1)
      (fun tx key docVector hget _ => hfits (key, docVector)
        (Std.TreeMap.mem_toList_iff_getElem?_eq_some.mpr hget)) hlookups hsent⟩
  · obtain ⟨y, hy, hyx⟩ := hothers
    exact ⟨y, Finset.mem_erase.mpr ⟨hyx, hy⟩⟩
  · rw [hsent]
    have hplaced' : s.search.Placed (OwnsApart V (R.erase x)) (OwnsApart V R) :=
      ⟨hplaced.held, fun p hp => by simp [hsearch] at hp⟩
    refine hplaced'.handsOver ho (fun key hkey _ => ?_) fun a key hold hax => ?_
    · obtain ⟨howns, hapart⟩ := hplaced.held x key hkey
      exact ⟨howns.erase_owner hinj hnext hne, hapart⟩
    · exact ⟨hold.1.erase_other fun heq => hax heq trivial, hold.2⟩
  · rw [hsent]
    exact searchAddress_handsOver h.searchAddress ho _

/-! ## PUBLISH -/

def FileApart (V : Finset Ipv4Address) (lines : Option (List CxxString)) : Prop :=
  ∀ m ∈ ((lines.getD []).foldlM PostingMap.invertLine ∅).toOption, ∀ key ∈ m.keys, KeyApart V key

instance (V : Finset Ipv4Address) (lines : Option (List CxxString)) :
    Decidable (FileApart V lines) :=
  inferInstanceAs (Decidable (∀ m ∈ Except.toOption _, ∀ key ∈ Std.TreeMap.keys m, _))

omit [Sha1] in
def FileFits (lines : Option (List CxxString)) : Prop :=
  ∀ m ∈ ((lines.getD []).foldlM PostingMap.invertLine ∅).toOption, ∀ e ∈ m.toList,
    PennSearchMessage.fits ⟨0, .storeList e.1 e.2⟩ = true

instance (lines : Option (List CxxString)) : Decidable (FileFits lines) :=
  inferInstanceAs (Decidable (∀ m ∈ Except.toOption _, ∀ e ∈ Std.TreeMap.toList m, _))

/-- A PUBLISH when no lookup waits owes what the file gives for every key. -/
theorem Balanced.publish {u : Ipv4Address} {m : PostingMap} {n : SearchNode}
    {calls : List LookupCall} {lines : List CxxString} (h : s.Balanced V docs u)
    (hlookups : s.lookups = []) (hfold : lines.foldlM PostingMap.invertLine ∅ = .ok m)
    (hmap : n.invertListMap = m) (hdata : n.dataMap = (s.search.node w).dataMap)
    (hkeys : calls.map LookupCall.lookupKey = m.keys)
    (hcalls : ∀ l ∈ calls, l.node = w ∧ l.flag = 0) (hapart : ∀ key ∈ m.keys, KeyApart V key)
    (hfits : ∀ e ∈ m.toList, PennSearchMessage.fits ⟨0, .storeList e.1 e.2⟩ = true) :
    Balanced V (fun key => docs key + occurrences lines key) w
      { s with search := s.search.act w n [], lookups := s.lookups ++ calls } := by
  obtain ⟨hdocs, -⟩ := PostingMap.foldlM_invertLine hfold
  have hinverted : ((s.search.act w n []).node w).invertListMap = m := by
    rw [Net.act_node_self, hmap]
  have hcalled : ∀ l ∈ s.lookups ++ calls, l ∈ calls := by simp [hlookups]
  refine ⟨fun l hl => hcalls l (hcalled l hl), fun l hl docVector hget => ?_, fun key => ?_⟩
  · dsimp only at hget
    rw [hinverted] at hget
    exact ⟨hapart _ (hkeys ▸ List.mem_map_of_mem (hcalled l hl)), fun tx =>
      hfits (l.lookupKey, docVector) (Std.TreeMap.mem_toList_iff_getElem?_eq_some.mpr hget)⟩
  · have htotal : SearchNet.total V key (s.search.act w n []) = s.search.total V key := by
      simp only [SearchNet.total, Net.total, Net.act_inFlight, List.append_nil, SearchNode.held,
        Net.act_node_congr (f := SearchNode.dataMap) hdata []]
    have hold := h.total key
    rw [waiting, hlookups, List.countP_nil, zero_nsmul, add_zero] at hold
    have hempty : (∅ : PostingMap).documents key = 0 := PostingMap.documents_of_none (by simp)
    have hm : m.documents key = occurrences lines key := by
      rw [hdocs, hempty, zero_add]
    dsimp only
    rw [htotal, hold, hinverted, waiting, hlookups, List.nil_append, countP_calls hkeys, hm]
    by_cases hkey : key ∈ m
    · rw [if_pos hkey, one_nsmul]
    · have hget : m[key]? = none := Std.TreeMap.getElem?_eq_none hkey
      rw [← hm, PostingMap.documents_of_none hget, nsmul_zero]

/-- A PUBLISH when everything is quiet. -/
theorem Keeping.publish {filename : CxxString} {lines : Option (List CxxString)}
    (h : Keeping V R docs s) (hV : Hosts V) (hquiet : s.Quiet V) (hapart : FileApart V lines)
    (hfits : FileFits lines) (hstep : s.step viaService (.publish w filename lines) = .ok s') :
    Keeping V R (fun key => docs key + occurrences (lines.getD []) key) s' := by
  obtain ⟨hstable, houtside, hplaced⟩ := h.settled hV hquiet
  obtain ⟨hchord, hsearch, hlookups, -⟩ := hquiet
  have hview : s.chord.view.inFlight = [] := ChordNet.view_inFlight_nil hchord
  obtain ⟨-, m, n, calls, hfold, hn, hkeys, hcalls, hrest⟩ := publish_cases hstep
  obtain rfl := Except.ok.inj ((foldlM_viaService _ _).symm.trans hrest)
  have hm : m ∈ ((lines.getD []).foldlM PostingMap.invertLine ∅).toOption := by
    rw [hfold]
    rfl
  have hsame : n.localAddress = (s.search.node w).localAddress ∧
      n.dataMap = (s.search.node w).dataMap := by
    rw [hn]
    exact ⟨rfl, rfl⟩
  have hdata : ∀ a, ((s.search.act w n []).node a).dataMap = (s.search.node a).dataMap :=
    Net.act_node_congr (f := SearchNode.dataMap) hsame.2 []
  obtain ⟨u, hbalanced⟩ := h.balanced
  exact ⟨h.subset, h.nonempty, .mending (hstable.mending hview houtside)
      ⟨fun a key hkey => hplaced.held a key (hdata a ▸ hkey), fun p hp => by simp [hsearch] at hp⟩,
    h.chordAddress, fun a => (Net.act_node_congr (f := SearchNode.localAddress) hsame.1 [] a).trans
      (h.searchAddress a), h.lookupFree, w,
    hbalanced.publish hlookups hfold (by rw [hn]) hsame.2 hkeys hcalls (hapart m hm) (hfits m hm)⟩

/-! ## Answers and deliveries -/

omit [Sha1] in
theorem documents_shipment {n : SearchNode} {a : Ipv4Address} {k : CxxString} {tx : UInt32}
    (hb : b ≠ .getAny) (hfits : ∀ docVector, n.invertListMap[k]? = some docVector →
      PennSearchMessage.fits ⟨tx, .storeList k docVector⟩ = true) (key : CxxString) :
    (inTransit (PennSearchMessage.carried key)
      (searchPackets a (n.shipment (.lookupPublishSuccess k b tx)))).documents =
        if k = key then n.invertListMap.documents key else 0 := by
  cases hget : n.invertListMap[k]? with
  | none =>
      have hzero : (if k = key then n.invertListMap.documents key else 0) = 0 := by
        split
        · rename_i hkey
          exact PostingMap.documents_of_none (hkey ▸ hget)
        · rfl
      rw [hzero]
      simp [SearchNode.shipment, hget, searchPackets]
  | some docVector =>
      have hsent : searchPackets a (n.shipment (.lookupPublishSuccess k b tx)) =
          [⟨a, b, ⟨tx, .storeList k docVector⟩⟩] := by
        simp [SearchNode.shipment, hget, searchPackets, hb, hfits docVector hget]
      rw [hsent, inTransit_cons, inTransit_nil, add_zero]
      by_cases hkey : k = key
      · subst hkey
        rw [if_pos rfl, ← PostingMap.documents_posting, PostingMap.posting_of_getElem? hget]
        exact congrArg Posting.documents (if_pos rfl)
      · rw [if_neg hkey]
        exact (congrArg Posting.documents (if_neg hkey)).trans (map_zero _)

theorem step_answer_sends {i : ℕ} {l : LookupCall} (hl : s.lookups[i]? = some l)
    (hflag : l.flag = 0) (h : s.step viaService (.answer i b) = .ok s') :
    s' = { s.sends l.node ((s.search.node l.node).shipment
      (.lookupPublishSuccess l.lookupKey b l.transactionId)) with
        lookups := s.lookups.eraseIdx i } := by
  rw [step_answer_eq hl hflag, SearchNode.sendInvertList] at h
  cases hget : (s.search.node l.node).invertListMap[l.lookupKey]? with
  | none =>
      simp only [hget, bind, Except.bind, pure, Except.pure, Except.ok.injEq] at h
      simpa [SearchNode.shipment, hget, Net.act, sends, searchPackets] using h.symm
  | some docVector =>
      simp only [hget, PennSearchMessage.sendTo] at h
      split at h
      · simp only [bind, Except.bind, pure, Except.pure, Except.ok.injEq] at h
        simpa [SearchNode.shipment, hget, Net.act, sends] using h.symm
      · cases h

/-- An answer ships as much as one lookup less is owed. -/
theorem Balanced.answer {i : ℕ} {l : LookupCall} (hl : s.lookups[i]? = some l)
    (h : s.Balanced V docs l.node) (hb : b ≠ .getAny) :
    Balanced V docs l.node { s.sends l.node ((s.search.node l.node).shipment
      (.lookupPublishSuccess l.lookupKey b l.transactionId)) with
        lookups := s.lookups.eraseIdx i } := by
  have hwaiting := waiting_eraseIdx hl (t := { s with lookups := s.lookups.eraseIdx i }) rfl
  refine ⟨h.publishing.eraseIdx (i := i) rfl,
    fun l' hl' => h.shippable l' (List.mem_of_mem_eraseIdx hl'), fun key => ?_⟩
  have htotal := total_sends s l.node ((s.search.node l.node).shipment
    (.lookupPublishSuccess l.lookupKey b l.transactionId)) V key
  have hshipped := documents_shipment (a := l.node) hb (fun docVector hget =>
    (h.shippable l (List.mem_of_getElem? hl) docVector hget).2 l.transactionId) key
  have hone : (if l.lookupKey = key then
      (s.search.node l.node).invertListMap.documents key else 0) =
        (if l.lookupKey = key then 1 else 0) •
          (s.search.node l.node).invertListMap.documents key := by
    split
    · rw [one_nsmul]
    · rw [zero_nsmul]
  rw [← h.total key, hwaiting key, add_nsmul, ← hone, ← hshipped, ← add_assoc, ← map_add, ← htotal]
  rfl

/-- The answer of a lookup, which names the owner of its key. -/
theorem Keeping.answer {i : ℕ} (h : Keeping V R docs s) (hV : Hosts V)
    (howner : ∀ l ∈ s.lookups[i]?, Owns (s.members V) b l.lookupKey)
    (hstep : s.step viaService (.answer i b) = .ok s') : Keeping V R docs s' := by
  cases hl : s.lookups[i]? with
  | none =>
      simp only [step, hl] at hstep
      obtain rfl := Except.ok.inj hstep
      exact h
  | some l =>
      have hmem : l ∈ s.lookups := List.mem_of_getElem? hl
      cases h.phase with
      | admitting eq newcomer nonempty ring placed lookups => simp [lookups] at hmem
      | mending ring placed =>
          have hb : Owns R b l.lookupKey := members_eq h.subset ring.mem_iff ▸ howner l hl
          obtain ⟨w, hbalanced⟩ := h.balanced
          obtain ⟨rfl, hflag⟩ := hbalanced.publishing l hmem
          obtain rfl := step_answer_sends hl hflag hstep
          refine ⟨h.subset, h.nonempty, .mending ring ⟨placed.held, fun p hp => ?_⟩,
            h.chordAddress, h.searchAddress, h.lookupFree, l.node,
            hbalanced.answer hl (hV.ne_getAny h.subset hb.1)⟩
          rcases List.mem_append.mp hp with hp | hp
          · exact placed.addressed p hp
          · obtain ⟨-, -, -, hact⟩ := mem_searchPackets.mp hp
            obtain ⟨key, tx, docVector, heq, hget, hmsg⟩ := SearchNode.mem_shipment hact
            obtain ⟨rfl, rfl, rfl⟩ := ChordAction.lookupPublishSuccess.inj heq
            exact ⟨(l.lookupKey, docVector), by rw [hmsg]; rfl, hb,
              (hbalanced.shippable l hmem docVector hget).1⟩

/-- A delivery in the search layer. -/
theorem Keeping.deliver {k : ℕ} (h : Keeping V R docs s)
    (hstep : s.step viaService (.deliver k) = .ok s') : Keeping V R docs s' := by
  simp only [step] at hstep
  cases hp : s.search.inFlight[k]? with
  | none =>
      rw [hp] at hstep
      obtain rfl := Except.ok.inj hstep
      exact h
  | some p =>
      rw [hp] at hstep
      obtain ⟨⟨n, acts⟩, hrecv, hstep⟩ := bind_eq_ok.mp hstep
      have haddressed : ∃ e, p.msg.payload.posted = some e ∧ OwnsApart V R p.dst e.1 := by
        cases h.phase with
        | mending ring placed => exact placed.addressed p (mem_of_getElem? hp)
        | admitting eq newcomer nonempty ring placed lookups =>
            exact placed.addressed p (mem_of_getElem? hp)
      obtain ⟨e, hposted, howns⟩ := haddressed
      obtain ⟨hn, rfl⟩ := SearchNode.recvMessage_posted hposted hrecv
      obtain rfl : { s with search := (s.search.take k).act p.dst n [] } = s' :=
        Except.ok.inj hstep
      have hphase : RingPhase V R { s with search := (s.search.take k).act p.dst n [] } ∧
          ∀ key, SearchNet.total V key ((s.search.take k).act p.dst n []) =
            s.search.total V key := by
        cases h.phase with
        | mending ring placed =>
            obtain ⟨hplaced, -, htotal⟩ := placed.deliver (N := V) (fun _ _ h => h) hp hrecv
            exact ⟨.mending ring hplaced, fun key => htotal key (h.subset howns.1.1)⟩
        | admitting eq newcomer nonempty ring placed lookups =>
            subst eq
            obtain ⟨hplaced, -, htotal⟩ := placed.deliver (N := V)
              (fun _ _ h => ⟨h.2, Or.inl h.1⟩) hp hrecv
            exact ⟨.admitting rfl newcomer nonempty ring hplaced lookups,
              fun key => htotal key (h.subset howns.1.1)⟩
      obtain ⟨w, hbalanced⟩ := h.balanced
      have hsame : n.localAddress = (s.search.node p.dst).localAddress ∧
          n.invertListMap = (s.search.node p.dst).invertListMap := by
        rw [hn]
        exact ⟨rfl, rfl⟩
      refine ⟨h.subset, h.nonempty, hphase.1, h.chordAddress, fun a => ?_, h.lookupFree, w,
        hbalanced.congr rfl (fun a => ?_) hphase.2⟩
      · exact (Net.act_node_congr (c := s.search.take k) (f := SearchNode.localAddress)
          hsame.1 [] a).trans (h.searchAddress a)
      · exact Net.act_node_congr (c := s.search.take k) (f := SearchNode.invertListMap) hsame.2 [] a

/-! ## Runs -/

/-- A ring of one member, with nothing stored and nothing in flight. -/
structure FirstMember (A : Ipv4Address) (s : PennNet) : Prop where
  member : (s.chord.node A).pointers = ⟨true, A, .getAny⟩
  outside : ∀ a, a ≠ A → (s.chord.node a).pointers = .outside
  chordAddress : ∀ a, (s.chord.node a).localAddress = a
  searchAddress : ∀ a, (s.search.node a).localAddress = a
  empty : ∀ a, (s.search.node a).dataMap.isEmpty = true
  inFlight : s.chord.inFlight = [] ∧ s.search.inFlight = [] ∧ s.lookups = []

/-- The commands come when everything is quiet: a JOIN of a node of `V` that is no
member through one that is, a LEAVE of a member among others, or a PUBLISH of keys
that are apart from the nodes. Timers run at any time, messages are delivered in
sending order between every two nodes, and a lookup is answered with the owner. -/
def Orderly (V : Finset Ipv4Address) (s : PennNet) : PennEvent → Prop
  | .chord (.join X L) => s.Quiet V ∧ X ∈ V ∧ X ∉ s.members V ∧ L ∈ s.members V
  | .chord (.leave x) => s.Quiet V ∧ x ∈ s.members V ∧ ∃ y ∈ s.members V, y ≠ x
  | .chord (.stabilize _) => True
  | .chord (.fixFinger _) => True
  | .chord (.deliver k) => IsOldest s.chord.inFlight k
  | .publish _ _ lines => s.Quiet V ∧ FileApart V lines
  | .deliver k => IsOldest s.search.inFlight k
  | .answer i b => ∀ l ∈ s.lookups[i]?, Owns (s.members V) b l.lookupKey
  | _ => False

/-- The step loses no key and no pointer: a member that is alone keeps what it has
when a node joins it, join requests go to members, nobody takes a node that has left
as its successor, and what is shipped or passed fits a datagram. -/
def MovesKeys (s : PennNet) : PennEvent → Prop
  | .chord (.join X L) => (s.chord.node L).successorAddr = L →
      ∀ e ∈ (s.search.node L).dataMap.toList, (s.search.node L).keepsKey X e.1 = true
  | .chord e => s.chord.RelaysToMembers e ∧ s.chord.AdoptsMembers e ∧ s.PassesFit e
  | .publish _ _ lines => FileFits lines
  | _ => True

instance (V : Finset Ipv4Address) (s : PennNet) (e : PennEvent) : Decidable (s.Orderly V e) :=
  match e with
  | .chord (.join ..) => inferInstanceAs (Decidable (_ ∧ _ ∧ _ ∧ _))
  | .chord (.leave _) => inferInstanceAs (Decidable (_ ∧ _ ∧ ∃ y ∈ _, _))
  | .chord (.stabilize _) | .chord (.fixFinger _) => .isTrue trivial
  | .chord (.deliver _) | .deliver _ => inferInstanceAs (Decidable (IsOldest _ _))
  | .publish .. => inferInstanceAs (Decidable (_ ∧ _))
  | .answer .. => inferInstanceAs (Decidable (∀ l ∈ _, _))
  | .chord (.ringstate _) | .chord (.lookupPublish ..) | .search .. => .isFalse id

instance (s : PennNet) (e : PennEvent) : Decidable (s.MovesKeys e) :=
  match e with
  | .chord (.join ..) => inferInstanceAs (Decidable (_ → ∀ e ∈ _, _))
  | .chord (.leave _) | .chord (.ringstate _) | .chord (.stabilize _) | .chord (.fixFinger _)
  | .chord (.lookupPublish ..) | .chord (.deliver _) => inferInstanceAs (Decidable (_ ∧ _ ∧ _))
  | .publish _ _ lines => inferInstanceAs (Decidable (FileFits lines))
  | .search .. | .deliver _ | .answer .. => .isTrue trivial

end PennNet

def PennEvent.ring (R : Finset Ipv4Address) : PennEvent → Finset Ipv4Address
  | .chord (.join X _) => insert X R
  | .chord (.leave x) => R.erase x
  | _ => R

/-- The members after the commands among some events, from the first member on. -/
def ringAfter (A : Ipv4Address) (es : List PennEvent) : Finset Ipv4Address :=
  es.foldl PennEvent.ring {A}

namespace PennNet

variable {s s' t : PennNet} {docs : CxxString → Multiset CxxString} {A : Ipv4Address}
  {es : List PennEvent} {e : PennEvent}

theorem FirstMember.keeping (h : s.FirstMember A) (hA : A ∈ V) (hV : Hosts V) :
    Keeping V {A} (published []) s := by
  obtain ⟨hchord, hsearch, hlookups⟩ := h.inFlight
  have hnone : ∀ a key, key ∉ (s.search.node a).dataMap := fun a =>
    Std.TreeMap.isEmpty_iff_forall_not_mem.mp (h.empty a)
  have hpointers : s.chord.view.node A = ⟨true, A, .getAny⟩ := h.member
  have hstable : s.chord.view.StableAt {A} := by
    refine ⟨fun hmem => ?_, fun a => ?_, fun a ha => ?_, fun a ha => ?_⟩
    · exact hV.getAny_notMem (Finset.mem_singleton.mp hmem ▸ hA)
    · by_cases ha : a = A
      · subst ha
        simp [hpointers]
      · have houtside : s.chord.view.node a = .outside := h.outside a ha
        simp [houtside, Pointers.outside, ha]
    · obtain rfl := Finset.mem_singleton.mp ha
      rw [hpointers]
      exact isNext_self_singleton a
    · obtain rfl := Finset.mem_singleton.mp ha
      rw [hpointers]
      exact isPredecessor_singleton.mpr rfl
  refine ⟨Finset.singleton_subset_iff.mpr hA, Finset.singleton_nonempty A,
    .mending (hstable.mending (ChordNet.view_inFlight_nil hchord)
      fun a ha => h.outside a fun heq => ha (Finset.mem_singleton.mpr heq))
      ⟨fun a key hkey => absurd hkey (hnone a key), fun p hp => by simp [hsearch] at hp⟩,
    h.chordAddress, h.searchAddress, fun p hp => by simp [hchord] at hp, A,
    fun l hl => by simp [hlookups] at hl, fun l hl => by simp [hlookups] at hl, fun key => ?_⟩
  have htotal : s.search.total V key = 0 := by
    rw [SearchNet.total, Net.total_of_inFlight_nil hsearch]
    exact Finset.sum_eq_zero fun a _ => PostingMap.posting_eq_zero.mpr (hnone a key)
  rw [htotal, waiting, hlookups, map_zero, List.countP_nil, zero_nsmul, add_zero]
  rfl

theorem Keeping.step (h : Keeping V R docs s) (hV : Hosts V) (horder : s.Orderly V e)
    (hmoves : s.MovesKeys e) (hstep : s.step viaService e = .ok s') :
    Keeping V (e.ring R) (fun key => docs key + published [e] key) s' := by
  have hmembers : s.Quiet V → s.members V = R := fun hquiet =>
    members_eq h.subset (h.settled hV hquiet).1.member
  have hnothing : (∀ key, published [e] key = 0) → Keeping V (e.ring R) docs s' →
      Keeping V (e.ring R) (fun key => docs key + published [e] key) s' := by
    intro hnone hkeeping
    simpa only [hnone, add_zero] using hkeeping
  cases e with
  | chord e =>
      refine hnothing (fun key => by simp [published]) ?_
      cases e with
      | join X L =>
          obtain ⟨hquiet, hXV, hX, hL⟩ := horder
          rw [hmembers hquiet] at hX hL
          exact h.join hV hquiet hXV hX hL hmoves hstep
      | leave x =>
          obtain ⟨hquiet, hx, hothers⟩ := horder
          rw [hmembers hquiet] at hx hothers
          exact h.leave hV hquiet hx hothers hmoves.2.2 hstep
      | stabilize a =>
          exact h.chordStep hV (e := .stabilize a) trivial rfl hmoves.1 hmoves.2.1 hmoves.2.2 hstep
      | fixFinger a =>
          exact h.chordStep hV (e := .fixFinger a) trivial rfl hmoves.1 hmoves.2.1 hmoves.2.2 hstep
      | deliver k =>
          exact h.chordStep hV (e := .deliver k) horder rfl hmoves.1 hmoves.2.1 hmoves.2.2 hstep
      | ringstate a => exact horder.elim
      | lookupPublish a key flag tx => exact horder.elim
  | publish w filename lines =>
      have hpublished : ∀ key, published [.publish w filename lines] key =
          occurrences (lines.getD []) key := fun key => by simp [published]
      simp only [hpublished]
      exact h.publish hV horder.1 horder.2 hmoves hstep
  | search a nodeAddr keyList => exact horder.elim
  | deliver k => exact hnothing (fun key => by simp [published]) (h.deliver hstep)
  | answer i b => exact hnothing (fun key => by simp [published]) (h.answer hV horder hstep)

theorem FirstMember.run (h : s.FirstMember A) (hA : A ∈ V) (hV : Hosts V)
    (hrun : Run (step viaService) (fun s e => s.Orderly V e ∧ s.MovesKeys e) s es t) :
    Keeping V (ringAfter A es) (published es) t := by
  induction hrun with
  | nil => exact h.keeping hA hV
  | snoc run allowed eq ih =>
      rename_i es t u e
      have hring : ringAfter A (es ++ [e]) = e.ring (ringAfter A es) := by
        simp [ringAfter]
      have hdocs : published (es ++ [e]) = fun key => published es key + published [e] key :=
        funext fun key => published_snoc es e key
      rw [hring, hdocs]
      exact ih.step hV allowed.1 allowed.2 eq

end PennNet

/-- Key placement. From a ring of one member, PUBLISH, JOIN and LEAVE commands come
one at a time, each when everything is quiet. In every run whose steps move the
keys, whenever everything is quiet again the members are those that have joined and
not left, the owner of a key holds the documents published for it, each as often as
it was published, and no other node holds the key. -/
theorem keys_placed {s t : PennNet} {A : Ipv4Address} {es : List PennEvent} (hV : Hosts V)
    (hA : A ∈ V) (hstart : s.FirstMember A)
    (hrun : Run (PennNet.step PennNet.viaService) (fun s e => s.Orderly V e ∧ s.MovesKeys e) s es t)
    (hquiet : t.Quiet V) :
    (∀ a, (t.chord.node a).chordStatus = true ↔ a ∈ ringAfter A es) ∧
      ∀ key b, Owns (ringAfter A es) b key →
        (t.search.node b).dataMap.documents key = published es key ∧
          ∀ a, a ≠ b → key ∉ (t.search.node a).dataMap := by
  have hkeeping := hstart.run hA hV hrun
  exact ⟨(hkeeping.settled hV hquiet).1.member, fun key b hb => hkeeping.documents_eq hV hquiet hb⟩

end PennSearch

namespace PennSearch

open Clockwise MessagePassing

attribute [local instance] sampleSha1

def sampleAlone : PennNet where
  chord :=
    ⟨fun a => if a = sampleA then sampleMember a a .getAny [] else .start a 0, []⟩
  search := ⟨fun a => .start a 0, []⟩
  lookups := []

theorem sampleAlone_firstMember : sampleAlone.FirstMember sampleA where
  member := rfl
  outside a ha := by simp [sampleAlone, ha, ChordNode.start, ChordNode.pointers, Pointers.outside]
  chordAddress a := by
    simp only [sampleAlone]
    split_ifs <;> rfl
  searchAddress _ := rfl
  empty _ := rfl
  inFlight := ⟨rfl, rfl, rfl⟩

def sampleHosts : Finset Ipv4Address := {sampleA, sampleB, sampleE}

theorem sampleHosts_hosts : Hosts sampleHosts where
  injOn := by
    have h : ∀ a ∈ sampleHosts, ∀ b ∈ sampleHosts, nodePos a = nodePos b → a = b := by decide
    exact fun a ha b hb => h a ha b hb
  getAny_notMem := by decide

/-- B joins A, A publishes `D1 T5`, E joins through B and gets `T5` from A, and B leaves. -/
def sampleCommands : List PennEvent :=
  [.chord (.join sampleB sampleA), .chord (.deliver 0), .chord (.deliver 0), .chord (.deliver 0),
    .chord (.deliver 0), .publish sampleA [102] (some [[68, 49, 32, 84, 53]]), .answer 0 sampleA,
    .deliver 0, .chord (.join sampleE sampleB), .chord (.deliver 0), .chord (.deliver 0),
    .chord (.deliver 0), .deliver 0, .chord (.stabilize sampleB), .chord (.deliver 0),
    .chord (.deliver 0), .chord (.deliver 0), .chord (.leave sampleB), .chord (.deliver 0),
    .chord (.deliver 0)]

theorem keys_placed_sample :
    ∃ t, Run (PennNet.step PennNet.viaService)
        (fun s e => s.Orderly sampleHosts e ∧ s.MovesKeys e) sampleAlone sampleCommands t ∧
      t.Quiet sampleHosts ∧
      (∀ a, (t.chord.node a).chordStatus = true ↔ a ∈ ringAfter sampleA sampleCommands) ∧
      ∀ key b, Owns (ringAfter sampleA sampleCommands) b key →
        (t.search.node b).dataMap.documents key = published sampleCommands key ∧
          ∀ a, a ≠ b → key ∉ (t.search.node a).dataMap := by
  have hrun : (execute (PennNet.step PennNet.viaService)
      (fun s e => s.Orderly sampleHosts e ∧ s.MovesKeys e) sampleAlone sampleCommands).map
        (fun t => decide (t.Quiet sampleHosts)) = some true := by decide +kernel
  obtain ⟨t, ht, hquiet⟩ := Option.map_eq_some_iff.mp hrun
  exact ⟨t, .of_execute ht, of_decide_eq_true hquiet, keys_placed sampleHosts_hosts (by decide)
    sampleAlone_firstMember (.of_execute ht) (of_decide_eq_true hquiet)⟩

/-- A publishes `D1 T2` while it is alone, and then B joins. -/
def sampleFirstJoin : List PennEvent :=
  [.publish sampleA [102] (some [[68, 49, 32, 84, 50]]), .answer 0 sampleA, .deliver 0,
    .chord (.join sampleB sampleA), .chord (.deliver 0), .chord (.deliver 0), .chord (.deliver 0),
    .chord (.deliver 0)]

/-- B owns `T2` on the ring of both, everything is quiet, and the posting is at A. -/
theorem first_join_misplaces :
    Hosts sampleHosts ∧ sampleAlone.FirstMember sampleA ∧
      KeyApart sampleHosts [84, 50] ∧ published sampleFirstJoin [84, 50] = {[68, 49]} ∧
      Owns (ringAfter sampleA sampleFirstJoin) sampleB [84, 50] ∧
      ∃ t, Run (PennNet.step PennNet.viaService) (fun s e => s.Orderly sampleHosts e)
          sampleAlone sampleFirstJoin t ∧
        t.Quiet sampleHosts ∧
        (t.search.node sampleB).dataMap[([84, 50] : CxxString)]? = none ∧
        (t.search.node sampleA).dataMap[([84, 50] : CxxString)]? = some [[68, 49]] := by
  have hrun : (execute (PennNet.step PennNet.viaService) (fun s e => s.Orderly sampleHosts e)
      sampleAlone sampleFirstJoin).map (fun t => decide (t.Quiet sampleHosts ∧
        (t.search.node sampleB).dataMap[([84, 50] : CxxString)]? = none ∧
        (t.search.node sampleA).dataMap[([84, 50] : CxxString)]? = some [[68, 49]])) =
      some true := by decide +kernel
  obtain ⟨t, ht, hend⟩ := Option.map_eq_some_iff.mp hrun
  exact ⟨sampleHosts_hosts, sampleAlone_firstMember, by decide, rfl, by decide, t, .of_execute ht,
    of_decide_eq_true hend⟩

end PennSearch
