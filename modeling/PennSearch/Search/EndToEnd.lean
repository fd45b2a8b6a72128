import PennSearch.Search.Interference
import PennSearch.Search.KeywordOrder
import PennSearch.Search.KeyPlacement

/-!
# From PUBLISH to the answer of a SEARCH

While PUBLISH, JOIN and LEAVE commands come one at a time, any nodes may search at
any time. A search moves no key: without the messages and the lookups of searches
(`withoutSearches`), a run is a run as before, in which steps of searches do
nothing. So a search that starts when everything is quiet finds what has been
published until then, however the ring has changed in between. Lookups are those of
the service (`viaService`): each is answered once, with the owner of its key at that
moment.
-/

namespace PennSearch

open Clockwise MessagePassing

/-! ## The documents that keywords have in common -/

section Common

variable {docs : CxxString → Multiset CxxString} {stored : CxxString → Option (List CxxString)}
  {w : Ipv4Address} {tx : UInt32} {keyList docList : List CxxString}

/-- The documents that all keywords have in common, as often as each of them has them. -/
def commonDocuments (docs : CxxString → Multiset CxxString) : List CxxString → Multiset CxxString
  | [] => 0
  | key :: rest => rest.foldl (fun m k => m ∩ docs k) (docs key)

def listed (stored : CxxString → Option (List CxxString)) (key : CxxString) : Multiset CxxString :=
  ((stored key).getD [] : List CxxString)

theorem mem_foldl_inter {d : CxxString} (m : Multiset CxxString) :
    d ∈ keyList.foldl (fun m k => m ∩ docs k) m ↔ d ∈ m ∧ ∀ k ∈ keyList, d ∈ docs k := by
  induction keyList generalizing m with
  | nil => simp
  | cons key rest ih =>
      rw [List.foldl_cons, ih, Multiset.mem_inter, List.forall_mem_cons, and_assoc]

theorem foldl_inter_zero : keyList.foldl (fun m k => m ∩ docs k) 0 = 0 := by
  induction keyList with
  | nil => rfl
  | cons key rest ih => rwa [List.foldl_cons, Multiset.zero_inter]

theorem mem_commonDocuments {d : CxxString} (h : keyList ≠ []) :
    d ∈ commonDocuments docs keyList ↔ ∀ key ∈ keyList, d ∈ docs key := by
  cases keyList with
  | nil => exact absurd rfl h
  | cons key rest => rw [commonDocuments, mem_foldl_inter, List.forall_mem_cons]

theorem mem_listed {key d : CxxString} : d ∈ listed stored key ↔ Lists stored key d := by
  unfold listed Lists
  cases stored key <;> simp

theorem coe_findIntersection (v1 v2 : List CxxString) :
    (findIntersection v1 v2 : Multiset CxxString) = (v2 : Multiset CxxString) ∩ v1 := by
  rw [findIntersection, Multiset.inter_comm]
  convert Intersection.coe_sortedIntersection v1 v2

theorem continueFate_documents {kl dl : List CxxString}
    (h : continueFate w tx stored keyList docList = .complete kl dl) :
    (dl : Multiset CxxString) = keyList.foldl (fun m k => m ∩ listed stored k) docList := by
  induction keyList generalizing docList with
  | nil =>
      obtain ⟨-, rfl⟩ := SearchFate.complete.inj (PennSearchMessage.sentThen_eq_complete h)
      rfl
  | cons key rest ih =>
      rw [continueFate] at h
      split at h
      · rename_i hdocs
        obtain ⟨-, rfl⟩ := SearchFate.complete.inj (PennSearchMessage.sentThen_eq_complete h)
        rw [hdocs]
        exact foldl_inter_zero.symm
      · replace h := PennSearchMessage.sentThen_eq_complete h
        cases hkey : stored key with
        | none =>
            rw [hkey] at h
            cases h
        | some current =>
            rw [hkey] at h
            have hlisted : listed stored key = current := by rw [listed, hkey, Option.getD_some]
            rw [ih h, List.foldl_cons, hlisted, coe_findIntersection]

/-- A search that ends well ends with the documents that its keywords have in common. -/
theorem searchFate_documents {kl dl : List CxxString}
    (h : searchFate w tx stored keyList = .complete kl dl) :
    (dl : Multiset CxxString) = commonDocuments (listed stored) keyList := by
  replace h := PennSearchMessage.sentThen_eq_complete h
  cases keyList with
  | nil => cases h
  | cons key rest =>
      replace h := PennSearchMessage.sentThen_eq_complete h
      rw [commonDocuments, listed]
      cases hkey : stored key with
      | none =>
          rw [hkey] at h
          obtain ⟨-, rfl⟩ := SearchFate.complete.inj (PennSearchMessage.sentThen_eq_complete h)
          exact foldl_inter_zero.symm
      | some current =>
          rw [hkey] at h
          exact continueFate_documents h

theorem searchFate_answers_common :
    (searchFate w tx stored keyList).Answers
        (fun dl => (dl : Multiset CxxString) = commonDocuments (listed stored) keyList) ↔
      Answerable stored keyList := by
  rw [← @searchFate_answers w tx stored keyList]
  cases hfate : searchFate w tx stored keyList with
  | complete kl dl =>
      have hdocs := searchFate_documents hfate
      refine iff_of_true hdocs fun d => ?_
      have hne : keyList ≠ [] := by
        rintro rfl
        cases PennSearchMessage.sentThen_eq_complete hfate
      rw [← Multiset.mem_coe, hdocs, mem_commonDocuments hne]
      simp only [mem_listed]
  | lost => rfl
  | fault f => rfl

end Common

/-! ## Without the searches -/

def SearchNet.postings (c : SearchNet) : SearchNet :=
  { c with inFlight := c.inFlight.filter fun p => p.msg.payload.posted.isSome }

def PennNet.withoutSearches (s : PennNet) : PennNet where
  chord := s.chord
  search := s.search.postings
  lookups := s.lookups.filter fun l => l.flag = 0

structure SearchNode.SameKeys (n n' : SearchNode) : Prop where
  localAddress : n'.localAddress = n.localAddress
  dataMap : n'.dataMap = n.dataMap
  invertListMap : n'.invertListMap = n.invertListMap

theorem PennSearchMessage.IsSearch.posted {m : PennSearchMessage} (h : m.IsSearch) :
    m.payload.posted = none := by
  obtain ⟨tx, payload⟩ := m
  cases payload <;> first | rfl | exact h.elim

variable [Sha1] {V R : Finset Ipv4Address} {docs : CxxString → Multiset CxxString}

/-! ## Hand-overs -/

namespace SearchNet

variable {c c' : SearchNet} {a : Ipv4Address}

omit [Sha1] in
theorem handsOver_postings {pass : CxxString → Prop} [DecidablePred pass] {dst : Ipv4Address}
    {n : SearchNode} {acts : List SearchAction} (ho : HandsOver pass dst (c.node a) n acts) :
    postings (c.act a n (searchPackets a acts)) = c.postings.act a n (searchPackets a acts) ∧
      (∀ b, ((c.act a n (searchPackets a acts)).node b).searchTracker =
        (c.node b).searchTracker) ∧
      ∀ p ∈ (c.act a n (searchPackets a acts)).inFlight,
        p ∈ c.inFlight ∨ p.msg.payload.posted.isSome = true := by
  have hposted : ∀ p ∈ searchPackets a acts, p.msg.payload.posted.isSome = true := by
    intro p hp
    obtain ⟨tx, key, docVector, hact, -⟩ := ho.sends _ (mem_searchPackets.mp hp).2.2.2
    rw [(SearchAction.sendTo.inj hact).2]
    rfl
  refine ⟨?_, fun b => ?_, fun p hp => ?_⟩
  · simp only [postings, Net.act, List.filter_append]
    rw [List.filter_eq_self.mpr hposted]
  · exact Net.act_node_congr (f := SearchNode.searchTracker) (by rw [ho.same]) _ b
  · exact (List.mem_append.mp hp).imp_right (hposted p)

theorem handOver_postings {act : RingAction} (h : c.handOver a act = .ok c') :
    c.postings.handOver a act = .ok c'.postings ∧
      (∀ b, (c'.node b).searchTracker = (c.node b).searchTracker) ∧
      ∀ p ∈ c'.inFlight, p ∈ c.inFlight ∨ p.msg.payload.posted.isSome = true := by
  cases act with
  | send dst msg =>
      obtain rfl := Except.ok.inj h
      exact ⟨rfl, fun _ => rfl, fun _ hp => Or.inl hp⟩
  | joinNotify predecessorAddress =>
      obtain ⟨⟨n, acts⟩, hresult, hc⟩ := bind_eq_ok.mp h
      obtain ⟨hpost, htracker, hflight⟩ :=
        handsOver_postings (SearchNode.passKeysJoin_handsOver hresult)
      rw [← Except.ok.inj hc]
      refine ⟨bind_eq_ok.mpr ⟨(n, acts), hresult, ?_⟩, htracker, hflight⟩
      exact congrArg Except.ok hpost.symm
  | leaveNotify successorAddress =>
      obtain ⟨⟨n, acts⟩, hresult, hc⟩ := bind_eq_ok.mp h
      obtain ⟨hpost, htracker, hflight⟩ :=
        handsOver_postings (SearchNode.passKeysLeave_handsOver hresult)
      rw [← Except.ok.inj hc]
      refine ⟨bind_eq_ok.mpr ⟨(n, acts), hresult, ?_⟩, htracker, hflight⟩
      exact congrArg Except.ok hpost.symm

theorem foldlM_handOver_postings {out : List RingAction} :
    ∀ {c : SearchNet}, out.foldlM (handOver a) c = .ok c' →
      out.foldlM (handOver a) c.postings = .ok c'.postings ∧
        (∀ b, (c'.node b).searchTracker = (c.node b).searchTracker) ∧
        ∀ p ∈ c'.inFlight, p ∈ c.inFlight ∨ p.msg.payload.posted.isSome = true := by
  induction out with
  | nil =>
      intro c h
      obtain rfl := Except.ok.inj h
      exact ⟨rfl, fun _ => rfl, fun _ hp => Or.inl hp⟩
  | cons act out ih =>
      intro c h
      rw [List.foldlM_cons] at h ⊢
      obtain ⟨c₁, hact, hrest⟩ := bind_eq_ok.mp h
      obtain ⟨hact', htracker, hflight⟩ := handOver_postings hact
      obtain ⟨hrest', htracker', hflight'⟩ := ih hrest
      refine ⟨bind_eq_ok.mpr ⟨_, hact', hrest'⟩, fun b => (htracker' b).trans (htracker b),
        fun p hp => ?_⟩
      rcases hflight' p hp with hp | hp
      · exact hflight p hp
      · exact Or.inr hp

end SearchNet

namespace PennNet

variable {s s' : PennNet} {e : PennEvent} {a : Ipv4Address}

/-! ## A search moves no key -/

theorem Keeping.congr (h : Keeping V R docs s) (hchord : s'.chord = s.chord)
    (hsame : ∀ a, (s.search.node a).SameKeys (s'.search.node a))
    (hflight : s'.search.inFlight = s.search.inFlight) (hlookups : s'.lookups = s.lookups) :
    Keeping V R docs s' := by
  have hplaced : ∀ {owns holds : Ipv4Address → CxxString → Prop}, s.search.Placed owns holds →
      s'.search.Placed owns holds := fun hp =>
    ⟨fun a key hkey => hp.held a key ((hsame a).dataMap ▸ hkey),
      fun p hflying => hp.addressed p (hflight ▸ hflying)⟩
  obtain ⟨w, hbalanced⟩ := h.balanced
  refine ⟨h.subset, h.nonempty, ?_, hchord ▸ h.chordAddress,
    fun a => (hsame a).localAddress.trans (h.searchAddress a), hchord ▸ h.lookupFree, w,
    hbalanced.congr hlookups (fun a => (hsame a).invertListMap) fun key => ?_⟩
  · cases h.phase with
    | mending ring placed => exact .mending (hchord ▸ ring) (hplaced placed)
    | admitting eq newcomer nonempty ring placed lookups =>
        exact .admitting eq newcomer nonempty (hchord ▸ ring)
          (by rw [hchord]; exact hplaced placed) (hlookups.trans lookups)
  · simp only [SearchNet.total, Net.total, hflight, SearchNode.held, (hsame _).dataMap]

/-- The keys are kept, whatever is in flight or waits for the sake of a search, and
an entry of a tracker belongs to a lookup that waits. -/
structure Consulted (V R : Finset Ipv4Address) (docs : CxxString → Multiset CxxString)
    (s : PennNet) : Prop where
  keeping : Keeping V R docs s.withoutSearches
  flight : ∀ p ∈ s.search.inFlight, p.msg.payload.posted.isSome = true ∨ p.msg.IsSearch
  flag : ∀ l ∈ s.lookups, l.flag = 0 ∨ l.flag = 1 ∨ l.flag = 2
  entry : ∀ a tx, tx ∈ (s.search.node a).searchTracker →
    ∃ l ∈ s.lookups, l.flag ≠ 0 ∧ l.node = a ∧ l.transactionId = tx

/-- The commands of `Orderly`, with nothing but searches under way; and SEARCH
commands, at any time. -/
def OrderlyWithSearches (V : Finset Ipv4Address) (s : PennNet) : PennEvent → Prop
  | .search _ _ _ => True
  | .deliver k => s.Orderly V (.deliver k)
  | .answer i b => s.Orderly V (.answer i b)
  | e => s.withoutSearches.Orderly V e

instance (V : Finset Ipv4Address) (s : PennNet) (e : PennEvent) :
    Decidable (s.OrderlyWithSearches V e) :=
  match e with
  | .search .. => .isTrue trivial
  | .deliver k => inferInstanceAs (Decidable (s.Orderly V (.deliver k)))
  | .answer i b => inferInstanceAs (Decidable (s.Orderly V (.answer i b)))
  | .publish w filename lines =>
      inferInstanceAs (Decidable (s.withoutSearches.Orderly V (.publish w filename lines)))
  | .chord e => inferInstanceAs (Decidable (s.withoutSearches.Orderly V (.chord e)))

/-- An event of the Chord layer does not depend on the searches under way. -/
theorem chordStep_withoutSearches {e : ChordEvent} (hfree : s.chord.LookupFree)
    (he : e.isLookup = false) (h : s.chordStep e = .ok s') :
    s.withoutSearches.chordStep e = .ok s'.withoutSearches ∧ s'.lookups = s.lookups ∧
      (∀ b, (s'.search.node b).searchTracker = (s.search.node b).searchTracker) ∧
      ∀ p ∈ s'.search.inFlight, p ∈ s.search.inFlight ∨ p.msg.payload.posted.isSome = true := by
  obtain ⟨⟨c, acts⟩, hstep, h⟩ := bind_eq_ok.mp h
  obtain ⟨-, hacts⟩ := ChordNet.stepActions_lookupFree hfree he hstep
  replace h := (callbacks_eq { s with chord := c } (s.chord.actor e) hacts).symm.trans h
  obtain ⟨net, hfold, hs⟩ : ∃ net, (acts.filterMap ringAction).foldlM
      (SearchNet.handOver (s.chord.actor e)) s.search = .ok net ∧
        ({ s with chord := c, search := net } : PennNet) = s' := by
    cases hfold : (acts.filterMap ringAction).foldlM (SearchNet.handOver (s.chord.actor e))
        s.search with
    | error f =>
        rw [hfold] at h
        cases h
    | ok net =>
        rw [hfold] at h
        exact ⟨net, rfl, Except.ok.inj h⟩
  obtain ⟨hfold', htracker, hflight⟩ := SearchNet.foldlM_handOver_postings hfold
  subst hs
  refine ⟨bind_eq_ok.mpr ⟨(c, acts), hstep, ?_⟩, rfl, htracker, hflight⟩
  have hback := callbacks_eq { s.withoutSearches with chord := c } (s.chord.actor e) hacts
  refine hback.trans ?_
  dsimp only [withoutSearches]
  rw [hfold']
  rfl

omit [Sha1] in
/-- A PUBLISH sends nothing, and its lookups have the flag 0. -/
theorem processPublishCommand_acts {n n' : SearchNode} {filename : CxxString}
    {lines : Option (List CxxString)} {acts : List SearchAction} (w : Ipv4Address)
    (h : n.processPublishCommand filename lines = .ok (n', acts)) :
    searchPackets w acts = [] ∧ (∀ l ∈ lookupCalls w acts, l.flag = 0) ∧
      n'.searchTracker = n.searchTracker := by
  by_cases hlength : filename.length < 50
  · rw [SearchNode.processPublishCommand_eq _ _ hlength] at h
    cases hm : (lines.getD []).foldlM PostingMap.invertLine ∅ with
    | error f =>
        rw [hm] at h
        cases h
    | ok m =>
        rw [hm] at h
        obtain ⟨rfl, rfl⟩ := Prod.mk.inj (Except.ok.inj h)
        let n₁ : SearchNode := { n with invertListMap := m }
        obtain ⟨-, hcalls, hpackets⟩ := n₁.publishLoop_acts w m.keys
        refine ⟨hpackets, fun l hl => (hcalls l hl).2, ?_⟩
        have hsame := congrArg SearchNode.searchTracker (n₁.publishLoop_same m.keys)
        exact hsame
  · rw [SearchNode.processPublishCommand, if_pos (by omega)] at h
    cases h

namespace Consulted

theorem chord {e : ChordEvent} {R' : Finset Ipv4Address} {docs' : CxxString → Multiset CxxString}
    (h : s.Consulted V R docs) (he : e.isLookup = false) (hstep : s.chordStep e = .ok s')
    (hkeeping : s.withoutSearches.chordStep e = .ok s'.withoutSearches →
      Keeping V R' docs' s'.withoutSearches) : s'.Consulted V R' docs' := by
  obtain ⟨hstep', hlookups, htracker, hflight⟩ :=
    chordStep_withoutSearches (s := s) h.keeping.lookupFree he hstep
  refine ⟨hkeeping hstep', fun p hp => ?_, fun l hl => h.flag l (hlookups ▸ hl),
    fun a tx htx => ?_⟩
  · rcases hflight p hp with hp | hp
    · exact h.flight p hp
    · exact Or.inl hp
  · rw [htracker] at htx
    rw [hlookups]
    exact h.entry a tx htx

theorem publish {w : Ipv4Address} {filename : CxxString} {lines : Option (List CxxString)}
    {docs' : CxxString → Multiset CxxString} (h : s.Consulted V R docs)
    (hstep : s.step viaService (.publish w filename lines) = .ok s')
    (hkeeping : s.withoutSearches.step viaService (.publish w filename lines) =
        .ok s'.withoutSearches → Keeping V R docs' s'.withoutSearches) :
    s'.Consulted V R docs' := by
  obtain ⟨⟨n, acts⟩, hresult, hturn⟩ := bind_eq_ok.mp hstep
  obtain ⟨hpackets, hcalls, htracker⟩ := processPublishCommand_acts w hresult
  obtain rfl := Except.ok.inj ((searchTurn_viaService s w n acts).symm.trans hturn)
  rw [hpackets] at hkeeping ⊢
  refine ⟨hkeeping ?_, fun p hp => ?_, fun l hl => ?_, fun a tx htx => ?_⟩
  · refine (congrArg (s.withoutSearches.searchTurn viaService w) hresult).trans ?_
    rw [searchTurn_viaService, hpackets]
    have hfilter : (lookupCalls w acts).filter (fun l => l.flag = 0) = lookupCalls w acts :=
      List.filter_eq_self.mpr fun l hl => by simpa using hcalls l hl
    simp only [withoutSearches, SearchNet.postings, Net.act, List.append_nil, List.filter_append,
      hfilter]
  · exact h.flight p (by simpa using hp)
  · rcases List.mem_append.mp hl with hl | hl
    · exact h.flag l hl
    · exact Or.inl (hcalls l hl)
  · rw [Net.act_node_congr (f := SearchNode.searchTracker) htracker] at htx
    obtain ⟨l, hl, hentry⟩ := h.entry a tx htx
    exact ⟨l, List.mem_append_left _ hl, hentry⟩

theorem deliver_posting {k : ℕ} {p : SearchPacket} (h : s.Consulted V R docs)
    (hp : s.search.inFlight[k]? = some p) (hposted : p.msg.payload.posted.isSome = true)
    (hstep : s.step viaService (.deliver k) = .ok s')
    (hkeeping : ∀ j, s.withoutSearches.step viaService (.deliver j) = .ok s'.withoutSearches →
      Keeping V R docs s'.withoutSearches) : s'.Consulted V R docs := by
  obtain ⟨e, he⟩ := Option.isSome_iff_exists.mp hposted
  obtain ⟨hp', herase⟩ :=
    filter_split (f := fun q : SearchPacket => q.msg.payload.posted.isSome) hp hposted
  rw [step_deliver_eq hp] at hstep
  obtain ⟨⟨n, acts⟩, hrecv, hs⟩ := bind_eq_ok.mp hstep
  obtain ⟨hn, rfl⟩ := SearchNode.recvMessage_posted he hrecv
  obtain rfl := Except.ok.inj hs
  have hkeep : ∀ a, (((s.search.take k).act p.dst n []).node a).searchTracker =
      (s.search.node a).searchTracker :=
    Net.act_node_congr (c := s.search.take k) (f := SearchNode.searchTracker) (by rw [hn]; rfl) []
  refine ⟨hkeeping ((s.search.inFlight.take k).filter fun q => q.msg.payload.posted.isSome).length
    ?_, fun q hq => ?_, fun l hl => ?_, fun a tx htx => ?_⟩
  · rw [step_deliver_eq (s := s.withoutSearches) hp']
    refine bind_eq_ok.mpr ⟨(n, []), hrecv, ?_⟩
    simp only [withoutSearches, SearchNet.postings, Net.act, Net.take, searchPackets, lookupCalls,
      List.filterMap_nil, List.append_nil, herase, pure, Except.pure]
  · exact h.flight q (List.mem_of_mem_eraseIdx (by simpa [searchPackets] using hq))
  · exact h.flag l (by simpa [lookupCalls] using hl)
  · rw [show searchPackets p.dst [] = [] from rfl, hkeep] at htx
    obtain ⟨l, hl, hentry⟩ := h.entry a tx htx
    exact ⟨l, List.mem_append_left _ hl, hentry⟩

theorem of_sameKeys (h : s.Consulted V R docs) (hchord : s'.chord = s.chord)
    (hsame : ∀ a, (s.search.node a).SameKeys (s'.search.node a))
    (hflight : s'.search.postings.inFlight = s.search.postings.inFlight)
    (hsearch : ∀ p ∈ s'.search.inFlight, p ∈ s.search.inFlight ∨ p.msg.IsSearch)
    (hlookups : s'.withoutSearches.lookups = s.withoutSearches.lookups)
    (hflag : ∀ l ∈ s'.lookups, l ∈ s.lookups ∨ l.flag = 1 ∨ l.flag = 2)
    (hentry : ∀ a tx, tx ∈ (s'.search.node a).searchTracker →
      ∃ l ∈ s'.lookups, l.flag ≠ 0 ∧ l.node = a ∧ l.transactionId = tx) :
    s'.Consulted V R docs := by
  refine ⟨h.keeping.congr hchord hsame hflight hlookups, fun p hp => ?_, fun l hl => ?_, hentry⟩
  · rcases hsearch p hp with hp | hp
    · exact h.flight p hp
    · exact Or.inr hp
  · rcases hflag l hl with hl | hl
    · exact h.flag l hl
    · exact Or.inr hl

omit [Sha1] in
theorem sameKeys_act {c : SearchNet} {n : SearchNode} (h : (c.node a).SameKeys n)
    (sent : List SearchPacket) (b : Ipv4Address) :
    (c.node b).SameKeys ((c.act a n sent).node b) := by
  rw [Net.act_node]
  split
  · rename_i hb
    rw [hb]
    exact h
  · exact ⟨rfl, rfl, rfl⟩

omit [Sha1] in
theorem postings_act {c : SearchNet} {n : SearchNode} {sent : List SearchPacket}
    (h : ∀ p ∈ sent, p.msg.IsSearch) :
    (SearchNet.postings (c.act a n sent)).inFlight = c.postings.inFlight := by
  have hnone : sent.filter (fun p => p.msg.payload.posted.isSome) = [] := by
    refine List.filter_eq_nil_iff.mpr fun p hp => ?_
    rw [(h p hp).posted]
    simp
  simp only [SearchNet.postings, Net.act, List.filter_append, hnone, List.append_nil]

theorem deliver_search {k : ℕ} {p : SearchPacket} (h : s.Consulted V R docs)
    (hp : s.search.inFlight[k]? = some p) (hsearch : p.msg.IsSearch)
    (hstep : s.step viaService (.deliver k) = .ok s') : s'.Consulted V R docs := by
  have htake : (SearchNet.postings (s.search.take k)).inFlight = s.search.postings.inFlight :=
    filter_eraseIdx_of_not hp (by rw [hsearch.posted]; rfl)
  have hsame : ∀ a, (s.search.node a).SameKeys (s.search.node a) := fun _ => ⟨rfl, rfl, rfl⟩
  rcases step_deliver_cases (fun key => (s.search.node p.dst).dataMap[key]?) hp hsearch
    (fun _ _ => rfl) hstep with ⟨keyList, docList, -, rfl⟩ | ⟨-, n, acts, hmove, rfl⟩
  · exact h.of_sameKeys rfl hsame htake (fun q hq => Or.inl (List.mem_of_mem_eraseIdx hq)) rfl
      (fun l hl => Or.inl hl) h.entry
  · generalize p.msg.fate (fun key => (s.search.node p.dst).dataMap[key]?) = fate at hmove
    generalize (s.search.node p.dst).tracks p.msg = tracked at hmove
    cases hmove with
    | complete keyList docList hops =>
        have hsent : ∀ q ∈ searchPackets p.dst [.sendTo (p.msg.searcher p.dst)
            ⟨p.msg.transactionId, .searchComplete keyList docList⟩], q.msg.IsSearch := by
          intro q hq
          have hact := (mem_searchPackets.mp hq).2.2.2
          rw [(SearchAction.sendTo.inj (List.mem_singleton.mp hact)).2]
          trivial
        refine h.of_sameKeys rfl (sameKeys_act (c := s.search.take k) (hsame _) _)
          ((postings_act hsent).trans htake) (fun q hq => ?_) ?_ (fun l hl => ?_)
          fun a tx htx => ?_
        · exact (List.mem_append.mp hq).imp List.mem_of_mem_eraseIdx (hsent q)
        · simp [withoutSearches, lookupCalls]
        · exact Or.inl (by simpa [lookupCalls] using hl)
        · have hkeep := Net.act_node_congr (c := s.search.take k) (i := p.dst)
            (f := SearchNode.searchTracker) rfl (searchPackets p.dst [.sendTo (p.msg.searcher p.dst)
              ⟨p.msg.transactionId, .searchComplete keyList docList⟩]) a
          obtain ⟨l, hl, hentry⟩ := h.entry a tx (hkeep ▸ htx)
          exact ⟨l, List.mem_append_left _ hl, hentry⟩
    | lookup l searchData node transactionId initiator waits hops =>
        have hcall :
            lookupCalls p.dst [.lookupPublish l.lookupKey l.flag l.transactionId] = [l] := by
          obtain ⟨node', lookupKey, flag, tx⟩ := l
          subst node
          rfl
        have hflag : l.flag ≠ 0 := by
          rcases waits.flag with hflag | hflag <;> rw [hflag] <;> decide
        have hkeys : (s.search.node p.dst).SameKeys
            ((s.search.node p.dst).track p.msg.transactionId searchData) := ⟨rfl, rfl, rfl⟩
        refine h.of_sameKeys rfl (sameKeys_act (c := s.search.take k) hkeys _)
          ((postings_act (by simp [searchPackets])).trans htake) (fun q hq => ?_) ?_
          (fun l' hl' => ?_) fun a tx htx => ?_
        · exact Or.inl (List.mem_of_mem_eraseIdx (by simpa [searchPackets] using hq))
        · simp [withoutSearches, hcall, hflag]
        · rw [hcall] at hl'
          rcases List.mem_append.mp hl' with hl' | hl'
          · exact Or.inl hl'
          · rw [List.mem_singleton.mp hl']
            exact Or.inr waits.flag
        · rw [hcall]
          dsimp only at htx
          rw [Net.act_node] at htx
          split at htx
          · rename_i ha
            rw [SearchNode.track, Std.TreeMap.mem_insertIfNew, Std.compare_eq_iff_eq] at htx
            rcases htx with rfl | htx
            · exact ⟨l, by simp, hflag, node.trans ha.symm, transactionId⟩
            · obtain ⟨l', hl', hentry⟩ := h.entry a tx (ha ▸ htx)
              exact ⟨l', List.mem_append_left _ hl', hentry⟩
          · obtain ⟨l', hl', hentry⟩ := h.entry a tx htx
            exact ⟨l', List.mem_append_left _ hl', hentry⟩

theorem answer_publish {i : ℕ} {l : LookupCall} {b : Ipv4Address} (h : s.Consulted V R docs)
    (hl : s.lookups[i]? = some l) (hflag : l.flag = 0)
    (hstep : s.step viaService (.answer i b) = .ok s')
    (hkeeping : ∀ j, s.withoutSearches.lookups[j]? = some l →
      s.withoutSearches.step viaService (.answer j b) = .ok s'.withoutSearches →
        Keeping V R docs s'.withoutSearches) : s'.Consulted V R docs := by
  obtain ⟨hl', herase⟩ :=
    filter_split (f := fun l : LookupCall => l.flag = 0) hl (by simpa using hflag)
  rw [step_answer_eq hl hflag] at hstep
  obtain ⟨⟨n, acts⟩, hresult, hs⟩ := bind_eq_ok.mp hstep
  obtain rfl := Except.ok.inj hs
  obtain ⟨hn, hposted⟩ : n = s.search.node l.node ∧
      ∀ q ∈ searchPackets l.node acts, q.msg.payload.posted.isSome = true := by
    rw [SearchNode.sendInvertList] at hresult
    cases hget : (s.search.node l.node).invertListMap[l.lookupKey]? with
    | none =>
        rw [hget] at hresult
        obtain ⟨rfl, rfl⟩ := Prod.mk.inj (Except.ok.inj hresult)
        exact ⟨rfl, by simp [searchPackets]⟩
    | some docVector =>
        rw [hget] at hresult
        obtain ⟨act, hact, hresult⟩ := bind_eq_ok.mp hresult
        obtain ⟨rfl, rfl⟩ := Prod.mk.inj (Except.ok.inj hresult)
        refine ⟨rfl, fun q hq => ?_⟩
        have hsent := (mem_searchPackets.mp hq).2.2.2
        rw [SearchNode.sendTo_eq_ok hact] at hsent
        rw [(SearchAction.sendTo.inj (List.mem_singleton.mp hsent)).2]
        rfl
  refine ⟨hkeeping _ hl' ?_, fun p hp => ?_, fun l' hl' => h.flag l' (List.mem_of_mem_eraseIdx hl'),
    fun a tx htx => ?_⟩
  · rw [step_answer_eq (s := s.withoutSearches) hl' hflag]
    refine bind_eq_ok.mpr ⟨(n, acts), hresult, ?_⟩
    have hfilter : (searchPackets l.node acts).filter (fun p => p.msg.payload.posted.isSome) =
        searchPackets l.node acts := List.filter_eq_self.mpr hposted
    simp only [withoutSearches, SearchNet.postings, Net.act, List.filter_append, hfilter, herase,
      pure, Except.pure]
  · rcases List.mem_append.mp hp with hp | hp
    · exact h.flight p hp
    · exact Or.inl (hposted p hp)
  · have hkeep := Net.act_node_congr (c := s.search) (i := l.node) (f := SearchNode.searchTracker)
      (congrArg SearchNode.searchTracker hn) (searchPackets l.node acts) a
    obtain ⟨l', hl', hne, hentry⟩ := h.entry a tx (hkeep ▸ htx)
    exact ⟨l', mem_eraseIdx_of_ne hl hl' fun heq => hne (heq ▸ hflag), hne, hentry⟩

theorem answer_search {i : ℕ} {l : LookupCall} {b : Ipv4Address} (h : s.Consulted V R docs)
    (hl : s.lookups[i]? = some l) (hflag : l.flag = 1 ∨ l.flag = 2)
    (hstep : s.step viaService (.answer i b) = .ok s') : s'.Consulted V R docs := by
  have hne : l.flag ≠ 0 := by
    rcases hflag with hflag | hflag <;> rw [hflag] <;> decide
  have hlookups : (s.lookups.eraseIdx i).filter (fun l => l.flag = 0) =
      s.lookups.filter fun l => l.flag = 0 := filter_eraseIdx_of_not hl (by simpa using hne)
  have hother : ∀ a tx, tx ∈ (s.search.node a).searchTracker →
      ¬ (a = l.node ∧ tx = l.transactionId) →
        ∃ l' ∈ s.lookups.eraseIdx i, l'.flag ≠ 0 ∧ l'.node = a ∧ l'.transactionId = tx := by
    intro a tx htx hnot
    obtain ⟨l', hl', hflag', hnode, htx'⟩ := h.entry a tx htx
    refine ⟨l', mem_eraseIdx_of_ne hl hl' ?_, hflag', hnode, htx'⟩
    rintro rfl
    exact hnot ⟨hnode.symm, htx'.symm⟩
  rcases step_answer_cases hl hflag hstep with ⟨hnone, rfl⟩ | ⟨searchData, -, rfl⟩
  · refine h.of_sameKeys rfl (fun _ => ⟨rfl, rfl, rfl⟩) rfl (fun _ hq => Or.inl hq) hlookups
      (fun l' hl' => Or.inl (List.mem_of_mem_eraseIdx hl')) fun a tx htx => hother a tx htx ?_
    rintro ⟨rfl, rfl⟩
    rw [Std.TreeMap.mem_iff_isSome_getElem?, hnone] at htx
    cases htx
  · have hsent : ∀ q ∈ searchPackets l.node [.sendTo b (l.message searchData)],
        q.msg.IsSearch := by
      intro q hq
      have hact := (mem_searchPackets.mp hq).2.2.2
      rw [(SearchAction.sendTo.inj (List.mem_singleton.mp hact)).2]
      exact l.message_isSearch searchData
    have hkeys : (s.search.node l.node).SameKeys { s.search.node l.node with
        searchTracker := (s.search.node l.node).searchTracker.erase l.transactionId } :=
      ⟨rfl, rfl, rfl⟩
    refine h.of_sameKeys rfl (sameKeys_act hkeys _) (postings_act hsent)
      (fun q hq => (List.mem_append.mp hq).imp_right (hsent q)) hlookups
      (fun l' hl' => Or.inl (List.mem_of_mem_eraseIdx hl')) fun a tx htx => ?_
    dsimp only at htx
    rw [Net.act_node] at htx
    split at htx
    · rename_i ha
      rw [Std.TreeMap.mem_erase] at htx
      refine hother a tx (ha ▸ htx.2) ?_
      rintro ⟨-, rfl⟩
      exact htx.1 Std.ReflCmp.compare_self
    · rename_i ha
      exact hother a tx htx fun hboth => ha hboth.1

theorem search {w v : Ipv4Address} {keyList : List CxxString} (h : s.Consulted V R docs)
    (hstep : s.step viaService (.search w v keyList) = .ok s') : s'.Consulted V R docs := by
  by_cases hv : v = .getAny
  · have hidle : s.step viaService (.search w v keyList) = .ok s := by
      simp only [step, SearchNode.processSearchCommand, if_pos hv]
      rw [searchTurn_viaService]
      simp [searchPackets, lookupCalls]
    rw [← Except.ok.inj (hidle.symm.trans hstep)]
    exact h
  · rw [step_search_eq_ok hv hstep]
    have hsent : ∀ q ∈ searchPackets w [.sendTo v ⟨(s.search.node w).currentTransactionId,
        .searchInitial (s.search.node w).localAddress keyList⟩], q.msg.IsSearch := by
      intro q hq
      have hact := (mem_searchPackets.mp hq).2.2.2
      rw [(SearchAction.sendTo.inj (List.mem_singleton.mp hact)).2]
      trivial
    have hkeys : (s.search.node w).SameKeys (s.search.node w).nextTransactionId := ⟨rfl, rfl, rfl⟩
    refine h.of_sameKeys rfl (sameKeys_act hkeys _) (postings_act hsent)
      (fun q hq => (List.mem_append.mp hq).imp_right (hsent q)) rfl (fun _ hl => Or.inl hl)
      fun a tx htx => ?_
    have hkeep := Net.act_node_congr (c := s.search) (i := w)
      (s := (s.search.node w).nextTransactionId) (f := SearchNode.searchTracker) rfl
      (searchPackets w [.sendTo v ⟨(s.search.node w).currentTransactionId,
        .searchInitial (s.search.node w).localAddress keyList⟩]) a
    exact h.entry a tx (hkeep ▸ htx)

/-- Every event keeps what the ring keeps, with searches at any time. -/
theorem step (h : s.Consulted V R docs) (hV : Hosts V) (horder : s.OrderlyWithSearches V e)
    (hmoves : s.MovesKeys e) (hstep : s.step viaService e = .ok s') :
    s'.Consulted V (e.ring R) fun key => docs key + published [e] key := by
  have hnothing : (∀ key, published [e] key = 0) → s'.Consulted V (e.ring R) docs →
      s'.Consulted V (e.ring R) fun key => docs key + published [e] key := by
    intro hnone hconsulted
    simpa only [hnone, add_zero] using hconsulted
  cases e with
  | chord e =>
      have hchord : e.isLookup = false → s.chordStep e = .ok s' →
          (s.withoutSearches.chordStep e = .ok s'.withoutSearches →
            s.withoutSearches.step viaService (.chord e) = .ok s'.withoutSearches) →
          s'.Consulted V (PennEvent.ring R (.chord e)) fun key =>
            docs key + published [.chord e] key :=
        fun he hs hs' => h.chord he hs fun hk => h.keeping.step hV horder hmoves (hs' hk)
      cases e with
      | lookupPublish a key flag tx => exact horder.elim
      | _ => exact hchord rfl hstep id
  | publish w filename lines =>
      exact h.publish hstep fun hk =>
        h.keeping.step hV (e := .publish w filename lines) horder hmoves hk
  | search w v keyList => exact hnothing (fun key => by simp [published]) (h.search hstep)
  | deliver k =>
      refine hnothing (fun key => by simp [published]) ?_
      cases hp : s.search.inFlight[k]? with
      | none =>
          simp only [PennNet.step, hp] at hstep
          rw [← Except.ok.inj hstep]
          exact h
      | some p =>
          rcases h.flight p (mem_of_getElem? hp) with hposted | hsearch
          · exact h.deliver_posting hp hposted hstep fun j hk => h.keeping.deliver hk
          · exact h.deliver_search hp hsearch hstep
  | answer i b =>
      refine hnothing (fun key => by simp [published]) ?_
      cases hl : s.lookups[i]? with
      | none =>
          simp only [PennNet.step, hl] at hstep
          rw [← Except.ok.inj hstep]
          exact h
      | some l =>
          rcases h.flag l (List.mem_of_getElem? hl) with hflag | hflag
          · refine h.answer_publish hl hflag hstep fun j hj hk => h.keeping.answer hV ?_ hk
            intro l' hl'
            rw [hj] at hl'
            rw [← Option.mem_some_iff.mp hl']
            exact horder l (by rw [hl]; rfl)
          · exact h.answer_search hl hflag hstep

theorem run {A : Ipv4Address} {es : List PennEvent} {t : PennNet} (hV : Hosts V) (hA : A ∈ V)
    (hstart : s.FirstMember A) (htracker : ∀ a, (s.search.node a).searchTracker.isEmpty = true)
    (hrun : Run (PennNet.step viaService) (fun s e => s.OrderlyWithSearches V e ∧ s.MovesKeys e)
      s es t) : t.Consulted V (ringAfter A es) (published es) := by
  induction hrun with
  | nil =>
      obtain ⟨hchord, hsearch, hlookups⟩ := hstart.inFlight
      refine ⟨(hstart.keeping hA hV).congr rfl (fun _ => ⟨rfl, rfl, rfl⟩) ?_ ?_, fun p hp => ?_,
        fun l hl => ?_, fun a tx htx => ?_⟩
      · simp [withoutSearches, SearchNet.postings, hsearch]
      · simp [withoutSearches, hlookups]
      · rw [hsearch] at hp
        cases hp
      · rw [hlookups] at hl
        cases hl
      · exact absurd htx (Std.TreeMap.isEmpty_iff_forall_not_mem.mp (htracker a) tx)
  | snoc run allowed eq ih =>
      rename_i es t u e
      have hring : ringAfter A (es ++ [e]) = e.ring (ringAfter A es) := by
        simp [ringAfter]
      have hdocs : published (es ++ [e]) = fun key => published es key + published [e] key :=
        funext fun key => published_snoc es e key
      rw [hring, hdocs]
      exact ih.step hV allowed.1 allowed.2 eq

end Consulted

theorem quiet_withoutSearches (h : s.Quiet V) : s.withoutSearches.Quiet V := by
  obtain ⟨hchord, hsearch, hlookups, hcalm⟩ := h
  refine ⟨hchord, ?_, ?_, hcalm⟩
  · simp [PennNet.withoutSearches, SearchNet.postings, hsearch]
  · simp [PennNet.withoutSearches, hlookups]

/-- When everything is quiet, a search can start. -/
theorem Consulted.ready {owner : CxxString → Ipv4Address} (h : s.Consulted V R docs) (hV : Hosts V)
    (hquiet : s.Quiet V) (howner : ∀ key, Owns R (owner key) key) (tx : UInt32) :
    s.Ready R owner tx := by
  obtain ⟨hstable, -, hplaced⟩ := h.keeping.settled hV (quiet_withoutSearches hquiet)
  refine ⟨⟨hquiet.2.1, hquiet.2.2.1⟩, hstable.stableRing h.keeping.chordAddress, howner,
    fun a key hkey => ?_, h.keeping.searchAddress, fun a => ?_⟩
  · exact (hplaced.held a key hkey).1.unique (hV.injOn_of_subset h.keeping.subset) (howner key)
  · rw [Std.TreeMap.getElem?_eq_none]
    intro htx
    obtain ⟨l, hl, -⟩ := h.entry a tx htx
    rw [hquiet.2.2.1] at hl
    cases hl

end PennNet

/-- What has been published is found, when each lookup is answered once and with the owner
at that moment. From a ring of one member, PUBLISH, JOIN and LEAVE commands come one at a
time, each when nothing but searches is under way, and any nodes search at any time. In
every run whose steps move the keys, a search for `keyList` that starts when everything is
quiet is answered with exactly the documents that have been published for all keywords,
each as often as for every one of them, if and only if the keywords are `Answerable`. -/
theorem published_found {s t : PennNet} {A : Ipv4Address} {es : List PennEvent}
    {owner : CxxString → Ipv4Address} (hV : Hosts V) (hA : A ∈ V) (hstart : s.FirstMember A)
    (htracker : ∀ a, (s.search.node a).searchTracker.isEmpty = true)
    (hrun : Run (PennNet.step PennNet.viaService)
      (fun s e => s.OrderlyWithSearches V e ∧ s.MovesKeys e) s es t)
    (hquiet : t.Quiet V) (howner : ∀ key, Owns (ringAfter A es) (owner key) key)
    {w v : Ipv4Address} (hw : w ≠ .getAny) (hv : v ≠ .getAny) (keyList : List CxxString) :
    (∃ u, t.step PennNet.viaService (.search w v keyList) = .ok u ∧
        u.AnswerReached owner w (t.search.node w).currentTransactionId fun docList =>
          (docList : Multiset CxxString) = commonDocuments (published es) keyList) ↔
      Answerable (t.postingList owner) keyList := by
  have h := PennNet.Consulted.run hV hA hstart htracker hrun
  have hready := h.ready hV hquiet howner (t.search.node w).currentTransactionId
  have hlisted : listed (t.postingList owner) = published es := by
    funext key
    exact (h.keeping.documents_eq hV (PennNet.quiet_withoutSearches hquiet) (howner key)).1
  have hdst : ∀ key, owner key ≠ .getAny :=
    fun key heq => hready.ring.getAny_notMem (heq ▸ (hready.isOwner key).1)
  rw [PennNet.exists_searchCommand_iff hdst hw hv hready.toIdle (hready.localAddress w)
    ⟨fun a => rfl, hready.untracked⟩ keyList, ← hlisted]
  exact searchFate_answers_common

end PennSearch

namespace PennSearch

open Clockwise MessagePassing

attribute [local instance] sampleSha1

/-- A file with the lines `D1 T5 T1` and `D2 T5`. -/
def sampleFile : Option (List CxxString) :=
  some [[68, 49, 32, 84, 53, 32, 84, 49], [68, 50, 32, 84, 53]]

/-- The commands of `sampleCommands` with `sampleFile`, and a search of B for `T5`: its owner
is looked up while A holds the key, and answered after E has joined and got it. -/
def sampleSearched : List PennEvent :=
  [.chord (.join sampleB sampleA), .chord (.deliver 0), .chord (.deliver 0), .chord (.deliver 0),
    .chord (.deliver 0), .publish sampleA [102] sampleFile, .answer 0 sampleA, .deliver 0,
    .search sampleB sampleA [[84, 53]], .answer 0 sampleA, .deliver 0, .deliver 0,
    .chord (.join sampleE sampleB), .chord (.deliver 0), .chord (.deliver 0), .chord (.deliver 0),
    .deliver 0, .answer 0 sampleE, .deliver 0, .deliver 0, .chord (.stabilize sampleB),
    .chord (.deliver 0), .chord (.deliver 0), .chord (.deliver 0), .chord (.leave sampleB),
    .chord (.deliver 0), .chord (.deliver 0)]

/-- A searches for `T5` and `T1`, which E and A hold. -/
theorem published_found_sample :
    ∃ (t : PennNet) (owner : CxxString → Ipv4Address),
      Run (PennNet.step PennNet.viaService)
          (fun s e => s.OrderlyWithSearches sampleHosts e ∧ s.MovesKeys e) sampleAlone
          sampleSearched t ∧
        t.Quiet sampleHosts ∧
        (∃ u, t.step PennNet.viaService (.search sampleA sampleA [[84, 53], [84, 49]]) = .ok u ∧
          u.AnswerReached owner sampleA (t.search.node sampleA).currentTransactionId fun docList =>
            (docList : Multiset CxxString) = commonDocuments (published sampleSearched)
              [[84, 53], [84, 49]]) := by
  have hrun : (execute (PennNet.step PennNet.viaService)
      (fun s e => s.OrderlyWithSearches sampleHosts e ∧ s.MovesKeys e) sampleAlone
        sampleSearched).map (fun t => decide (t.Quiet sampleHosts ∧
          (t.search.node sampleE).dataMap[([84, 53] : CxxString)]? = some [[68, 49], [68, 50]] ∧
          (t.search.node sampleA).dataMap[([84, 49] : CxxString)]? = some [[68, 49]])) =
      some true := by decide +kernel
  obtain ⟨t, ht, hend⟩ := Option.map_eq_some_iff.mp hrun
  obtain ⟨hquiet, hheldE, hheldA⟩ := of_decide_eq_true hend
  have hE : Owns (ringAfter sampleA sampleSearched) sampleE [84, 53] := by decide
  have hA : Owns (ringAfter sampleA sampleSearched) sampleA [84, 49] := by decide
  have hsome : ∀ key : CxxString, ∃ b, Owns (ringAfter sampleA sampleSearched) b key :=
    fun key => exists_isOwner ⟨sampleE, hE.1⟩ (keyPos key)
  choose owner howner using hsome
  have hinj : Set.InjOn nodePos (ringAfter sampleA sampleSearched) := by
    have h : ∀ a ∈ ringAfter sampleA sampleSearched, ∀ b ∈ ringAfter sampleA sampleSearched,
        nodePos a = nodePos b → a = b := by decide
    exact fun a ha b hb => h a ha b hb
  have hfirst : t.postingList owner [84, 53] = some [[68, 49], [68, 50]] := by
    rw [PennNet.postingList, (howner [84, 53]).unique hinj hE]
    exact hheldE
  have hsecond : t.postingList owner [84, 49] = some [[68, 49]] := by
    rw [PennNet.postingList, (howner [84, 49]).unique hinj hA]
    exact hheldA
  refine ⟨t, owner, .of_execute ht, hquiet, (published_found sampleHosts_hosts (by decide)
    sampleAlone_firstMember (fun _ => rfl) (.of_execute ht) hquiet howner (by decide) (by decide)
    [[84, 53], [84, 49]]).mpr (answerable_cons.mpr ⟨by decide, fun docList hdocs => ?_⟩)⟩
  rw [hfirst] at hdocs
  obtain rfl := Option.some.inj hdocs
  refine ⟨(supplied_cons (by decide)).mpr ⟨_, hsecond, supplied_nil _⟩, fun _ => ?_⟩
  decide

end PennSearch
