import PennSearch.Search.JoinPublish

/-!
# The end of a join

A run in which one node joins a stable ring and one PUBLISH is issued, with all
messages interleaved. When every STORE_LIST is timely, `Accommodating` holds all
the time, and when nothing is in flight any more, the postings are where the new
ring wants them. A STORE_LIST that reaches the old owner after the hand-over is
stored there, and stays.
-/

namespace PennSearch

open Clockwise MessagePassing

def PennEvent.isJoin : PennEvent → Bool
  | .chord (.join _ _) => true
  | _ => false

def PennEvent.isPublish : PennEvent → Bool
  | .publish _ _ _ => true
  | _ => false

variable [Sha1] {R : Finset Ipv4Address} {X L w : Ipv4Address}

namespace PennNet

variable {s t : PennNet} {es : List PennEvent} {T : CxxString → Posting}

/-- `X` joins through `L`, the member `w` publishes, and the timers and the
deliveries go on, in sending order between every two nodes. -/
def JoinsAndPublishes (X L w : Ipv4Address) (s : PennNet) : PennEvent → Prop
  | .chord (.join a nodeAddr) => a = X ∧ nodeAddr = L
  | .chord (.stabilize _) => True
  | .chord (.fixFinger _) => True
  | .chord (.deliver k) => IsOldest s.chord.inFlight k
  | .publish a _ _ => a = w ∧ (s.chord.node w).chordStatus = true
  | .deliver k => IsOldest s.search.inFlight k
  | _ => False

/-- The posting lists fit, their keys are apart from the nodes, and a STORE_LIST
does not come too late. -/
def Undelayed (R : Finset Ipv4Address) (X : Ipv4Address) (s : PennNet) : PennEvent → Prop
  | .chord e => s.PassesFit e
  | .publish _ _ lines => PublishFits R X lines
  | .deliver k => s.Timely X k
  | _ => True

/-- A state before the join: the ring `R` is stable, `X` has not been on it, and
every key is at its owner. -/
structure AwaitsJoin (R : Finset Ipv4Address) (X : Ipv4Address) (s : PennNet) : Prop where
  ring : StableNet s.chord R
  fingers : FingersWithin s.chord.node R
  newcomer : s.chord.view.node X = .outside
  newcomerFingers : (s.chord.node X).fingerTable.isEmpty
  localAddress : ∀ a, (s.search.node a).localAddress = a
  inFlight : s.search.inFlight = []
  owned : ∀ a key, key ∈ (s.search.node a).dataMap → Owns R a key

theorem AwaitsJoin.accommodating (h : s.AwaitsJoin R X) (hsite : JoinSite R X) :
    Accommodating R X w (fun key => s.search.total (insert X R) key) ∅ false [] s := by
  have hquiet : s.chord.view.inFlight = [] := ChordNet.view_inFlight_nil h.ring.inFlight
  have hsettled : Settled R s.chord.view :=
    ⟨h.ring.stableAt, fun p hp => by simp [hquiet] at hp⟩
  have hpresent : present R X s.chord.view = R := present_of_outside h.newcomer
  refine ⟨⟨.before hsettled h.newcomer, h.ring.localAddress, fun a ha i finger hfinger => ?_,
    fun p hp => ?_⟩, h.localAddress, fun key hkey => absurd hkey Std.TreeMap.not_mem_emptyc,
    fun a key hkey _ => Or.inr ⟨h.owned a key hkey, fun heq => ?_⟩,
    fun p hp => ?_, fun p hp => ?_, fun key => .refl _,
    fun key hkey => absurd hkey Std.TreeMap.not_mem_emptyc⟩
  · rw [hpresent]
    rcases Finset.mem_insert.mp ha with rfl | haR
    · have hmem : i ∈ (s.chord.node a).fingerTable := by
        simp [Std.TreeMap.mem_iff_isSome_getElem?, hfinger]
      exact absurd hmem (Std.TreeMap.isEmpty_iff_forall_not_mem.mp h.newcomerFingers i)
    · exact (h.fingers a haR).2 i finger hfinger
  · simp [h.ring.inFlight] at hp
  · have hpred := h.ring.ring.predecessor a (h.owned a key hkey).1
    unfold IsPredecessor at hpred
    rw [if_neg (hsite.ne_singleton a)] at hpred
    exact hsite.newcomer (heq ▸ hpred.1)
  · simp [h.inFlight] at hp
  · simp [h.inFlight] at hp

/-- The state `t` after the events `es` from `s`; the postings `m` have been published. -/
structure Underway (R : Finset Ipv4Address) (X w : Ipv4Address) (s : PennNet)
    (es : List PennEvent) (m : PostingMap) (t : PennNet) : Prop where
  documents : ∀ key, m.documents key = published es key
  publishable : Publishable R X m
  unpublished : es.countP PennEvent.isPublish = 0 → m = ∅
  accommodating : Accommodating R X w (fun key => s.search.total (insert X R) key) m
    (decide (es.countP PennEvent.isJoin = 1)) [] t

namespace Underway

variable {u : PennNet} {m : PostingMap} {e : PennEvent}

theorem snoc (h : Underway R X w s es m t) (he : e.isPublish = false)
    (haccom : Accommodating R X w (fun key => s.search.total (insert X R) key) m
      (decide ((es ++ [e]).countP PennEvent.isJoin = 1)) [] u) :
    Underway R X w s (es ++ [e]) m u := by
  refine ⟨fun key => ?_, h.publishable, fun hzero => h.unpublished ?_, haccom⟩
  · have hnone : published [e] key = 0 := by
      cases e with
      | publish a filename lines => cases he
      | _ => rfl
    rw [published_snoc, hnone, add_zero, h.documents]
  · rw [List.countP_append] at hzero
    omega

theorem step (h : Underway R X w s es m t) (hsite : JoinSite R X) (hL : L ∈ R)
    (hw : w ∈ insert X R) (horder : t.JoinsAndPublishes X L w e) (hcare : t.Undelayed R X e)
    (hjoin : (es ++ [e]).countP PennEvent.isJoin ≤ 1)
    (hpublish : (es ++ [e]).countP PennEvent.isPublish ≤ 1) (hstep : t.step viaChord e = .ok u) :
    ∃ m, Underway R X w s (es ++ [e]) m u := by
  have haccom := h.accommodating
  rw [List.countP_append] at hjoin hpublish
  have hsame : e.isJoin = false → (es ++ [e]).countP PennEvent.isJoin =
      es.countP PennEvent.isJoin := by
    intro he
    simp [List.countP_append, he]
  cases e with
  | publish a filename lines =>
      obtain ⟨rfl, hstatus⟩ := horder
      have hnone : es.countP PennEvent.isPublish = 0 :=
        Nat.le_zero.mp (Nat.le_of_succ_le_succ hpublish)
      obtain rfl := h.unpublished hnone
      have ha : a ∈ present R X t.chord.view := by
        by_contra hout
        have hfalse : (t.chord.node a).chordStatus = false :=
          haccom.arriving.phase.outside hout
        rw [hstatus] at hfalse
        cases hfalse
      obtain ⟨m, hfold, hm, haccom'⟩ := haccom.publish hsite ha hcare hstep
      refine ⟨m, fun key => ?_, hm, fun hzero => ?_, hsame rfl ▸ haccom'⟩
      · rw [published_snoc, ← h.documents, (PostingMap.foldlM_invertLine hfold).1 key]
        exact congrArg _ (add_zero _).symm
      · simp [List.countP_append, PennEvent.isPublish] at hzero
  | deliver k =>
      obtain ⟨haccom', -⟩ := haccom.deliver hsite hcare hstep
      exact ⟨m, h.snoc rfl (hsame rfl ▸ haccom')⟩
  | search a nodeAddr keyList => exact horder.elim
  | answer i b => exact horder.elim
  | chord e =>
      cases e with
      | join a nodeAddr =>
          obtain ⟨rfl, rfl⟩ := horder
          have hnone : es.countP PennEvent.isJoin = 0 :=
            Nat.le_zero.mp (Nat.le_of_succ_le_succ hjoin)
          rw [hnone] at haccom
          obtain ⟨haccom', -⟩ := haccom.join hsite h.publishable hw hL hstep
          have hone : (es ++ [PennEvent.chord (.join a nodeAddr)]).countP PennEvent.isJoin = 1 := by
            rw [List.countP_append, hnone]
            rfl
          exact ⟨m, h.snoc rfl (by rw [hone]; exact haccom')⟩
      | stabilize a =>
          obtain ⟨haccom', -⟩ := haccom.chordStep hsite h.publishable hw (e := .stabilize a) trivial
            trivial trivial hstep
          exact ⟨m, h.snoc rfl (hsame rfl ▸ haccom')⟩
      | fixFinger a =>
          obtain ⟨haccom', -⟩ := haccom.chordStep hsite h.publishable hw (e := .fixFinger a) trivial
            trivial trivial hstep
          exact ⟨m, h.snoc rfl (hsame rfl ▸ haccom')⟩
      | deliver k =>
          obtain ⟨haccom', -⟩ := haccom.chordStep hsite h.publishable hw (e := .deliver k) horder
            trivial hcare hstep
          exact ⟨m, h.snoc rfl (hsame rfl ▸ haccom')⟩
      | leave a => exact horder.elim
      | ringstate a => exact horder.elim
      | lookupPublish a key flag tx => exact horder.elim

end Underway

/-- The invariant along a run with at most one JOIN and one PUBLISH. -/
theorem AwaitsJoin.run (h : s.AwaitsJoin R X) (hsite : JoinSite R X) (hL : L ∈ R)
    (hw : w ∈ insert X R)
    (hrun : Run (step viaChord) (fun s e => s.JoinsAndPublishes X L w e ∧ s.Undelayed R X e)
      s es t)
    (hjoin : es.countP PennEvent.isJoin ≤ 1) (hpublish : es.countP PennEvent.isPublish ≤ 1) :
    ∃ m, Underway R X w s es m t := by
  induction hrun with
  | nil =>
      refine ⟨∅, fun key => PostingMap.documents_of_none Std.TreeMap.getElem?_emptyc,
        fun key docVector hget => ?_, fun _ => rfl, h.accommodating hsite⟩
      rw [Std.TreeMap.getElem?_emptyc] at hget
      cases hget
  | @snoc es t u e hrun hallowed hstep ih =>
      have hcount := hjoin
      have hcount' := hpublish
      rw [List.countP_append] at hcount hcount'
      obtain ⟨m, hm⟩ := ih (by omega) (by omega)
      exact hm.step hsite hL hw hallowed.1 hallowed.2 hjoin hpublish hstep

/-! ## When everything is delivered -/

section Quiet

variable {m : PostingMap}

theorem Accommodating.owns (h : Accommodating R X w T m true [] t) (hsite : JoinSite R X)
    (hchord : t.chord.inFlight = []) {a : Ipv4Address} {key : CxxString}
    (hkey : key ∈ (t.search.node a).dataMap) (hapart : Apart R X key) :
    Owns (insert X R) a key := by
  rcases h.held a key hkey hapart with howns | ⟨howns, hpred⟩
  · exact howns
  · refine howns.insert_cases.resolve_right fun hX => hpred ?_
    -- otherwise `a` is the member after `X`, and knows it
    have hnext : ∃ b, IsNext nodePos R X b := exists_isNext ⟨a, howns.1⟩ X
    obtain ⟨b, hb⟩ := hnext
    have hbX : b ≠ X := fun heq => hsite.newcomer (heq ▸ hb.1)
    have hold := hX.erase_owner hsite.injOn hb.insert_self hbX
    rw [Finset.erase_insert hsite.newcomer] at hold
    obtain rfl : a = b := howns.unique hsite.injOn_ring hold
    exact h.arriving.phase.predecessor_of_quiet (ChordNet.view_inFlight_nil hchord) hb.insert_self

theorem Accommodating.includes (h : Accommodating R X w T m true [] t) (hsite : JoinSite R X)
    (hchord : t.chord.inFlight = []) (hsearch : t.search.inFlight = []) {b : Ipv4Address}
    {key : CxxString} (hb : Owns (insert X R) b key) (hapart : Apart R X key) :
    ((t.search.node b).held key).Includes (T key + m.posting key) := by
  have htotal : t.search.total (insert X R) key = (t.search.node b).held key := by
    refine Net.total_eq_held hsearch hb.1 fun a _ hab =>
      PostingMap.posting_eq_zero.mpr fun hkey => ?_
    exact hab ((h.owns hsite hchord hkey hapart).unique hsite.injOn hb)
  rw [← htotal]
  by_cases hkey : key ∈ m
  · rcases h.shipped key hkey with hshipped | htodo | ⟨p, hp, -⟩
    · exact hshipped
    · cases htodo
    · rw [hchord] at hp
      cases hp
  · rw [PostingMap.posting_eq_zero.mpr hkey, add_zero]
    exact h.kept key

end Quiet

/-- What `es` published is at the owner of its key in the ring with `X`; and a key
apart from the nodes is there with all that its old owner had, and nowhere else. -/
structure Accommodated (R : Finset Ipv4Address) (X : Ipv4Address) (s : PennNet)
    (es : List PennEvent) (t : PennNet) : Prop where
  published : ∀ key b, Owns (insert X R) b key →
    published es key ≤ (t.search.node b).dataMap.documents key
  kept : ∀ key a b, Apart R X key → Owns R a key → Owns (insert X R) b key →
    (s.search.node a).dataMap.documents key + PennSearch.published es key ≤
      (t.search.node b).dataMap.documents key
  owned : ∀ a key, key ∈ (t.search.node a).dataMap → Apart R X key → Owns (insert X R) a key

end PennNet

/-- A PUBLISH during a join. On a stable ring of several members with every key at
its owner, `X` joins, one PUBLISH is issued, and all messages are interleaved. If the
posting lists fit a datagram, the published keys are apart from the nodes, and no
STORE_LIST reaches the old owner of its key after that has taken `X` as its
predecessor, then once everything is delivered the postings are at their owners. -/
theorem publish_during_join {s t : PennNet} {es : List PennEvent} (hsite : JoinSite R X)
    (hstart : s.AwaitsJoin R X) (hL : L ∈ R) (hw : w ∈ insert X R)
    (hrun : Run (PennNet.step PennNet.viaChord)
      (fun s e => s.JoinsAndPublishes X L w e ∧ s.Undelayed R X e) s es t)
    (hjoin : es.countP PennEvent.isJoin = 1) (hpublish : es.countP PennEvent.isPublish ≤ 1)
    (hchord : t.chord.inFlight = []) (hsearch : t.search.inFlight = []) :
    PennNet.Accommodated R X s es t := by
  obtain ⟨m, h⟩ := hstart.run hsite hL hw hrun hjoin.le hpublish
  have haccom := h.accommodating
  rw [hjoin] at haccom
  have hkept : ∀ key a b, Apart R X key → Owns R a key → Owns (insert X R) b key →
      (s.search.node a).dataMap.documents key + published es key ≤
        (t.search.node b).dataMap.documents key := by
    intro key a b hapart ha hb
    have hbefore : s.search.total (insert X R) key = (s.search.node a).held key := by
      refine Net.total_eq_held hstart.inFlight (Finset.mem_insert_of_mem ha.1) fun c _ hca =>
        PostingMap.posting_eq_zero.mpr fun hkey => hca ?_
      exact (hstart.owned c key hkey).unique hsite.injOn_ring ha
    have hle := (haccom.includes hsite hchord hsearch hb hapart).documents_le
    rw [hbefore, map_add, SearchNode.held, SearchNode.held, PostingMap.documents_posting,
      PostingMap.documents_posting, PostingMap.documents_posting, h.documents] at hle
    exact hle
  refine ⟨fun key b hb => ?_, hkept, fun a key hkey hapart => haccom.owns hsite hchord hkey hapart⟩
  by_cases hkey : key ∈ m
  · have howner : ∃ a, Owns R a key := exists_isOwner ⟨L, hL⟩ (keyPos key)
    obtain ⟨a, ha⟩ := howner
    exact (Multiset.le_add_left _ _).trans (hkept key a b (h.publishable.apart key hkey) ha hb)
  · have hnone : m[key]? = none := Std.TreeMap.getElem?_eq_none hkey
    rw [← h.documents, PostingMap.documents_of_none hnone]
    exact Multiset.zero_le _

end PennSearch

namespace PennSearch

open Clockwise MessagePassing

section Decidability

variable [Sha1]

instance (X L w : Ipv4Address) (s : PennNet) (e : PennEvent) :
    Decidable (s.JoinsAndPublishes X L w e) :=
  match e with
  | .chord (.join ..) | .publish .. => inferInstanceAs (Decidable (_ ∧ _))
  | .chord (.stabilize _) | .chord (.fixFinger _) => .isTrue trivial
  | .chord (.deliver _) | .deliver _ => inferInstanceAs (Decidable (IsOldest _ _))
  | .chord (.leave _) | .chord (.ringstate _) | .chord (.lookupPublish ..) | .search ..
  | .answer .. => .isFalse id

instance (R : Finset Ipv4Address) (X : Ipv4Address) (key : CxxString) :
    Decidable (Apart R X key) :=
  inferInstanceAs (Decidable (∀ a ∈ insert X R, _))

instance (R : Finset Ipv4Address) (X : Ipv4Address) (lines : Option (List CxxString)) :
    Decidable (PennNet.PublishFits R X lines) :=
  inferInstanceAs (Decidable (∀ m ∈ Except.toOption _, ∀ e ∈ Std.TreeMap.toList m, _))

instance (X : Ipv4Address) (s : PennNet) (k : ℕ) : Decidable (s.Timely X k) :=
  inferInstanceAs (Decidable (∀ p ∈ s.search.inFlight[k]?, ∀ key ∈ p.msg.payload.storedKey, _))

instance (R : Finset Ipv4Address) (X : Ipv4Address) (s : PennNet) (e : PennEvent) :
    Decidable (s.Undelayed R X e) :=
  match e with
  | .chord e => inferInstanceAs (Decidable (s.PassesFit e))
  | .publish _ _ lines => inferInstanceAs (Decidable (PennNet.PublishFits R X lines))
  | .deliver k => inferInstanceAs (Decidable (s.Timely X k))
  | .search .. | .answer .. => .isTrue trivial

end Decidability

attribute [local instance] sampleSha1

theorem samplePostings_awaitsJoin : samplePostings.AwaitsJoin {sampleA, sampleB} sampleE where
  ring := samplePair_stable
  fingers := samplePair_fingers
  newcomer := rfl
  newcomerFingers := by decide
  localAddress a := rfl
  inFlight := rfl
  owned a key h := by
    rw [samplePostings_ready.placed a key h]
    exact sampleOwner_isOwner key

theorem sampleJoinSite : JoinSite {sampleA, sampleB} sampleE where
  newcomer := by decide
  injOn := by
    have h : ∀ a ∈ (insert sampleE {sampleA, sampleB} : Finset Ipv4Address),
        ∀ b ∈ (insert sampleE {sampleA, sampleB} : Finset Ipv4Address),
          nodePos a = nodePos b → a = b := by decide
    exact fun a ha b hb => h a ha b hb
  several := by decide
  getAny_notMem := by decide

/-- B publishes `F T5`, and E joins through A, until E notifies A. -/
def sampleArrival : List PennEvent :=
  [.publish sampleB [102] (some [[70, 32, 84, 53]]), .chord (.join sampleE sampleA),
    .chord (.deliver 1), .chord (.deliver 1), .chord (.deliver 1)]

/-- The STORE_LISTs reach A before the notification. -/
def sampleTimely : List PennEvent :=
  sampleArrival ++ [.deliver 0, .chord (.deliver 0), .chord (.deliver 1), .chord (.deliver 1),
    .deliver 0, .chord (.deliver 0), .deliver 0]

theorem publish_during_join_sample :
    ∃ t, Run (PennNet.step PennNet.viaChord)
        (fun s e => s.JoinsAndPublishes sampleE sampleA sampleB e ∧
          s.Undelayed {sampleA, sampleB} sampleE e) samplePostings sampleTimely t ∧
      PennNet.Accommodated {sampleA, sampleB} sampleE samplePostings sampleTimely t := by
  have hrun : (execute (PennNet.step PennNet.viaChord)
      (fun s e => s.JoinsAndPublishes sampleE sampleA sampleB e ∧
        s.Undelayed {sampleA, sampleB} sampleE e) samplePostings sampleTimely).map
        (fun t => decide (t.chord.inFlight = [] ∧ t.search.inFlight = [])) = some true := by
    decide
  obtain ⟨t, ht, hquiet⟩ := Option.map_eq_some_iff.mp hrun
  obtain ⟨hchord, hsearch⟩ := of_decide_eq_true hquiet
  exact ⟨t, .of_execute ht, publish_during_join sampleJoinSite samplePostings_awaitsJoin
    (by decide) (by decide) (.of_execute ht) rfl (by decide) hchord hsearch⟩

/-- The notification comes first: A hands over what it has of `T5`, and then stores
the new lists. At the end the new ring is stabilized. What B sends to A arrives in its
order, whichever layer it is of. -/
def sampleStale : List PennEvent :=
  sampleArrival ++ [.chord (.deliver 1), .deliver 0, .chord (.deliver 0), .chord (.deliver 0),
    .chord (.deliver 0), .deliver 0, .deliver 0, .chord (.stabilize sampleB), .chord (.deliver 0),
    .chord (.deliver 0), .chord (.deliver 0)]

/-- E owns `T5` on the stable ring of all three and nothing is in flight, but the
document `F` is at A. -/
theorem publish_during_join_misplaces :
    JoinSite {sampleA, sampleB} sampleE ∧ samplePostings.AwaitsJoin {sampleA, sampleB} sampleE ∧
      published sampleStale [84, 53] = {[70]} ∧
      Owns (insert sampleE {sampleA, sampleB}) sampleE [84, 53] ∧
      ∃ t, Run (PennNet.step PennNet.viaChord)
          (fun s e => s.JoinsAndPublishes sampleE sampleA sampleB e) samplePostings sampleStale t ∧
        t.chord.inFlight = [] ∧ t.search.inFlight = [] ∧
        StableRing t.chord.node (insert sampleE {sampleA, sampleB}) ∧
        (t.search.node sampleE).dataMap[([84, 53] : CxxString)]? = some [[68], [71]] ∧
        (t.search.node sampleA).dataMap[([84, 53] : CxxString)]? = some [[70], [70]] := by
  let N : Finset Ipv4Address := insert sampleE {sampleA, sampleB}
  have hrun : (execute (PennNet.step PennNet.viaChord)
      (fun s e => s.JoinsAndPublishes sampleE sampleA sampleB e) samplePostings sampleStale).map
        (fun t => decide (t.chord.inFlight = [] ∧ t.search.inFlight = [] ∧
          ((∀ a ∈ N, (t.chord.node a).localAddress = a) ∧
            (∀ a ∈ N, IsNext nodePos N a (t.chord.node a).successorAddr) ∧
            (∀ a ∈ N, (t.chord.node a).chordStatus = true) ∧
            ∀ a ∈ N, IsPredecessor N (t.chord.node a).predecessorAddr a) ∧
          (t.search.node sampleE).dataMap[([84, 53] : CxxString)]? = some [[68], [71]] ∧
          (t.search.node sampleA).dataMap[([84, 53] : CxxString)]? = some [[70], [70]])) =
      some true := by decide
  obtain ⟨t, ht, hend⟩ := Option.map_eq_some_iff.mp hrun
  obtain ⟨hchord, hsearch, ⟨hlocal, hsucc, hstatus, hpred⟩, hE, hA⟩ := of_decide_eq_true hend
  exact ⟨sampleJoinSite, samplePostings_awaitsJoin, rfl, by decide, t, .of_execute ht, hchord,
    hsearch, ⟨⟨hlocal, hsucc⟩, by decide, hstatus, hpred⟩, hE, hA⟩

end PennSearch
