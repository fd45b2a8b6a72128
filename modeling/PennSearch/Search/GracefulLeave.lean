import PennSearch.Chord.Leave
import PennSearch.Search.Placement
import PennSearch.Search.Query

/-!
# A graceful leave

A member of a stable ring issues LEAVE: two messages repair the pointers of its
neighbours, and its postings go to its successor. `Departing` holds from there
on, whatever is delivered first; every delivery takes one message away, and when
nothing is left the ring without the member is stable and holds all postings.
-/

namespace PennSearch

open Clockwise MessagePassing

theorem SearchNode.passKeysLeaveLoop_isOk (successorAddress : Ipv4Address)
    {l : List (CxxString × List CxxString)}
    (hcount : ∀ tx, ∀ e ∈ l, PennSearchMessage.countable ⟨tx, .passKeys e.1 e.2⟩ = true) :
    ∀ n : SearchNode, ∃ r, n.passKeysLeaveLoop successorAddress l = .ok r := by
  induction l with
  | nil => exact fun n => ⟨_, rfl⟩
  | cons e l ih =>
      intro n
      obtain ⟨key, docVector⟩ := e
      have hhead := hcount n.currentTransactionId (key, docVector) List.mem_cons_self
      obtain ⟨r, hr⟩ := ih (fun tx e he => hcount tx e (List.mem_cons_of_mem _ he))
        n.nextTransactionId
      refine ⟨(r.1, .sendTo successorAddress
        ⟨n.currentTransactionId, .passKeys key docVector⟩ :: r.2), ?_⟩
      simp [passKeysLeaveLoop, PennSearchMessage.sendTo, hhead, hr, bind, Except.bind, pure,
        Except.pure]

def ChordNet.LeaveOnly (c : ChordNet) : Prop :=
  ∀ p ∈ c.inFlight, p.msg.payload.leaveValue.isSome = true

variable [Sha1]

theorem ChordNode.recvMessage_leave {message : PennChordMessage} (n : ChordNode)
    (src : Ipv4Address) (h : message.payload.leaveValue.isSome = true) :
    ∃ n', n.recvMessage message src = .ok (n', []) := by
  obtain ⟨tx, payload⟩ := message
  cases payload <;> first | exact ⟨_, rfl⟩ | cases h

/-- The keys that a member owns on the ring `R`. -/
abbrev Owns (R : Finset Ipv4Address) (a : Ipv4Address) (key : CxxString) : Prop :=
  IsOwner nodePos R (keyPos key) a

namespace PennNet

variable {s s' : PennNet} {R N : Finset Ipv4Address} {x : Ipv4Address}
  {lookup : PennNet → LookupCall → Except Fault PennNet}

theorem leave_cases {F : Ipv4Address → Ipv4Address → Prop}
    (hlocal : ∀ a, (s.chord.node a).localAddress = a) (hfree : s.chord.LookupFree)
    (hmember : (s.chord.node x).chordStatus = true)
    (hseveral : (s.chord.node x).successorAddr ≠ x) (h : s.chordStep (.leave x) = .ok s') :
    RingStep F s.chord.view (.leave x) s'.chord.view ∧ s.chord.step (.leave x) = .ok s'.chord ∧
      s'.lookups = s.lookups ∧
      (∃ n acts, (s.search.node x).passKeysLeave (s.chord.node x).successorAddr = .ok (n, acts) ∧
        s'.search = s.search.act x n (searchPackets x acts)) ∧
      s'.chord.LookupFree ∧ ∀ a, (s'.chord.node a).localAddress = a := by
  obtain ⟨⟨q, out, hturn, hview, hfold⟩, hstep, hlookups, hfree', hlocal'⟩ :=
    chordStep_view (F := F) hlocal (e := .leave x) trivial hfree rfl h
  refine ⟨⟨x, q, out, hturn, hview⟩, hstep, hlookups, ?_, hfree', hlocal'⟩
  simp only [ChordNet.ringEvent, ChordNet.actor] at hturn hfold
  cases hturn with
  | leaveIgnored outside =>
      exact absurd outside (by simp [ChordNet.view, ChordNode.pointers, hmember])
  | leaveAlone member alone => exact absurd alone hseveral
  | leave member several =>
      rw [SearchNet.foldlM_handOver_leave, SearchNet.handOver] at hfold
      obtain ⟨⟨n, acts⟩, hpass, hact⟩ := bind_eq_ok.mp hfold
      exact ⟨n, acts, hpass, (Except.ok.inj hact).symm⟩

theorem leave_isOk (hlocal : ∀ a, (s.chord.node a).localAddress = a)
    (hfree : s.chord.LookupFree)
    (hcount : ∀ tx key docVector, (s.search.node x).dataMap[key]? = some docVector →
      PennSearchMessage.countable ⟨tx, .passKeys key docVector⟩ = true) :
    ∃ s', s.chordStep (.leave x) = .ok s' := by
  let r := (s.chord.node x).processLeaveCommand
  have hstep : s.chord.stepActions (.leave x) =
      .ok (s.chord.act x r.1 (sentPackets x r.2), r.2) := rfl
  obtain ⟨-, hacts⟩ := ChordNet.stepActions_lookupFree hfree rfl hstep
  obtain ⟨⟨q, hturn, -⟩, -⟩ := ChordNet.stepActions_view (F := fun _ _ => True) hlocal
    (e := .leave x) trivial hstep
  simp only [ChordNet.ringEvent, ChordNet.actor] at hturn
  have hfold : ∃ c, (r.2.filterMap ringAction).foldlM (SearchNet.handOver x) s.search = .ok c := by
    generalize r.2.filterMap ringAction = out at hturn
    cases hturn with
    | leaveIgnored outside => exact ⟨_, rfl⟩
    | leaveAlone member alone => exact ⟨_, rfl⟩
    | leave member several =>
        obtain ⟨⟨n, acts⟩, hpass⟩ := SearchNode.passKeysLeaveLoop_isOk
          (s.chord.view.node x).successor
          (fun tx e he => hcount tx e.1 e.2 (Std.TreeMap.mem_toList_iff_getElem?_eq_some.mp he))
          (s.search.node x)
        refine ⟨s.search.act x n (searchPackets x acts), ?_⟩
        rw [SearchNet.foldlM_handOver_leave, SearchNet.handOver, SearchNode.passKeysLeave, hpass]
        rfl
  obtain ⟨c, hc⟩ := hfold
  refine ⟨{ s with chord := s.chord.act x r.1 (sentPackets x r.2), search := c }, ?_⟩
  rw [chordStep, hstep]
  change callbacks { s with chord := s.chord.act x r.1 (sentPackets x r.2) } x r.2 = _
  rw [callbacks_eq _ x hacts, hc]
  rfl

/-- A member has left the ring; the rest of it is `R`. What the nodes `N` hold and
what is in flight is `T`. -/
structure Departing (R N : Finset Ipv4Address) (T : CxxString → Posting) (s : PennNet) :
    Prop where
  leaving : Leaving R s.chord.view
  localAddress : ∀ a, (s.chord.node a).localAddress = a
  leaveOnly : s.chord.LeaveOnly
  placed : s.search.Placed (Owns R) (Owns R)
  passed : ∀ p ∈ s.search.inFlight, ∃ key docVector, p.msg.payload = .passKeys key docVector
  total : ∀ key, s.search.total N key = T key

theorem departing_of_leave (hinj : Set.InjOn nodePos (R : Set Ipv4Address))
    (hstart : StableNet s.chord R) (hx : x ∈ R) (hne : (s.chord.node x).successorAddr ≠ x)
    (hplaced : s.search.Placed (Owns R) (Owns R)) (hflight : s.search.inFlight = [])
    (hfits : ∀ tx key docVector, (s.search.node x).dataMap[key]? = some docVector →
      PennSearchMessage.fits ⟨tx, .passKeys key docVector⟩ = true)
    (h : s.chordStep (.leave x) = .ok s') :
    Departing (R.erase x) R (fun key => s.search.total R key) s' := by
  have hview : s.chord.view.inFlight = [] := ChordNet.view_inFlight_nil hstart.inFlight
  have hnext := hstart.ring.successor x hx
  have hdst : (s.chord.node x).successorAddr ≠ .getAny :=
    fun heq => hstart.ring.getAny_notMem (heq ▸ hnext.1)
  obtain ⟨hring, hstep, -, ⟨n, acts, hpass, hsearch⟩, -, hlocal⟩ := leave_cases
    (F := fun _ _ => True) hstart.localAddress (by simp [ChordNet.LookupFree, hstart.inFlight])
    (hstart.ring.status x hx) hne h
  have ho := SearchNode.passKeysLeave_handsOver hpass
  have hallowed : s.chord.view.LeaveAllowed (.leave x) := by
    intro _ p hp
    rw [hview] at hp
    cases hp
  have hchord : s'.chord = s.chord.act x (s.chord.node x).processLeaveCommand.1
      (sentPackets x (s.chord.node x).processLeaveCommand.2) :=
    Except.ok.inj (hstep.symm.trans rfl)
  refine ⟨?_, hlocal, fun p hp => ?_, ?_, fun p hp => ?_, fun key => ?_⟩
  · exact (hstart.stableAt.leaving hview).step hinj hallowed hring
  · rw [hchord, Net.act_inFlight, hstart.inFlight, List.nil_append] at hp
    obtain ⟨-, -, hact⟩ := mem_sentPackets.mp hp
    unfold ChordNode.processLeaveCommand at hact
    split_ifs at hact <;> simp at hact
    all_goals rcases hact with hact | hact <;> simp [hact.2, ChordPayload.leaveValue]
  · rw [hsearch]
    have hplaced' : s.search.Placed (Owns (R.erase x)) (Owns R) :=
      ⟨hplaced.held, fun p hp => by simp [hflight] at hp⟩
    refine hplaced'.handsOver ho (fun key hkey _ => ?_) fun b key hb hbx => ?_
    · exact (hplaced.held x key hkey).erase_owner hinj hnext hne
    · exact hb.erase_other fun heq => hbx heq trivial
  · rw [hsearch, Net.act_inFlight, hflight, List.nil_append] at hp
    obtain ⟨-, -, -, hact⟩ := mem_searchPackets.mp hp
    obtain ⟨tx, key, docVector, heq, -⟩ := ho.sends _ hact
    exact ⟨key, docVector, by rw [(SearchAction.sendTo.inj heq).2]⟩
  · rw [hsearch]
    exact SearchNet.total_handsOver ho hx hdst
      (fun tx key docVector hget _ => hfits tx key docVector hget) key

theorem Departing.deliver_chord {T : CxxString → Posting}
    (hinj : Set.InjOn nodePos (R : Set Ipv4Address)) (h : Departing R N T s) {k : ℕ}
    (hk : k < s.chord.inFlight.length) :
    ∃ s', s.chordStep (.deliver k) = .ok s' ∧ Departing R N T s' ∧
      s'.chord.inFlight.length < s.chord.inFlight.length ∧ s'.search = s.search := by
  have hp : s.chord.inFlight[k]? = some s.chord.inFlight[k] := List.getElem?_eq_getElem hk
  generalize s.chord.inFlight[k] = p at hp
  obtain ⟨n, hrecv⟩ := ChordNode.recvMessage_leave (s.chord.node p.dst) p.src
    (h.leaveOnly p (mem_of_getElem? hp))
  have hstep := ChordNet.step_deliver hp hrecv
  have hactions : s.chord.stepActions (.deliver k) =
      .ok ((s.chord.take k).act p.dst n (sentPackets p.dst []), []) := by
    simp [ChordNet.stepActions, ChordNet.turn_deliver hp, hrecv, bind, Except.bind, pure,
        Except.pure]
  obtain ⟨hring, hlocal⟩ := ChordNet.step_view (F := fun _ _ => True) h.localAddress
    (fun _ _ _ _ => trivial) hstep
  have hallowed : LeaveAllowed s.chord (.deliver k) := trivial
  have hleaving := h.leaving.step hinj hallowed.view hring
  rw [hallowed.remaining_ringEvent, Finset.filter_true_of_mem (by simp)] at hleaving
  refine ⟨{ s with chord := (s.chord.take k).act p.dst n [] }, ?_,
    ⟨hleaving, hlocal, fun p' hp' => ?_, h.placed, h.passed, h.total⟩, ?_, rfl⟩
  · rw [chordStep, hactions]
    rfl
  · exact h.leaveOnly p' (List.mem_of_mem_eraseIdx (by simpa using hp'))
  · simp [List.length_eraseIdx, hk]
    omega

variable (lookup) in
theorem Departing.deliver_search {T : CxxString → Posting} (h : Departing R N T s) (hR : R ⊆ N)
    {k : ℕ} (hk : k < s.search.inFlight.length) :
    ∃ s', s.step lookup (.deliver k) = .ok s' ∧ Departing R N T s' ∧
      s'.search.inFlight.length < s.search.inFlight.length ∧ s'.chord = s.chord := by
  have hp : s.search.inFlight[k]? = some s.search.inFlight[k] := List.getElem?_eq_getElem hk
  generalize s.search.inFlight[k] = p at hp
  obtain ⟨key, docVector, hpay⟩ := h.passed p (mem_of_getElem? hp)
  have hrecv : (s.search.node p.dst).recvMessage p.msg p.src =
      .ok ((s.search.node p.dst).processPassKeys key docVector) := by
    simp [SearchNode.recvMessage, hpay]
  obtain ⟨e, -, howns⟩ := h.placed.addressed p (mem_of_getElem? hp)
  obtain ⟨hplaced, hacts, htotal⟩ := h.placed.deliver (N := N) (fun _ _ h => h) hp hrecv
  let n := ((s.search.node p.dst).processPassKeys key docVector).1
  refine ⟨{ s with search := (s.search.take k).act p.dst n [] }, ?_,
    ⟨h.leaving, h.localAddress, h.leaveOnly, hplaced, fun p' hp' => ?_, fun key => ?_⟩, ?_, rfl⟩
  · simp only [step, hp, hrecv]
    rfl
  · exact h.passed p' (List.mem_of_mem_eraseIdx (by simpa using hp'))
  · exact (htotal key (hR howns.1)).trans (h.total key)
  · simp [List.length_eraseIdx, hk]
    omega

def Delivers (s : PennNet) : PennEvent → Prop
  | .chord (.deliver k) => k < s.chord.inFlight.length
  | .deliver k => k < s.search.inFlight.length
  | _ => False

/-- `t` is `s` without the member `x` of its ring `R`: the ring of the others is
stable, and what was stored in `s` is stored once, at its owner. -/
structure LeftBy (R : Finset Ipv4Address) (x : Ipv4Address) (s t : PennNet) : Prop where
  ring : StableNet t.chord (R.erase x)
  inFlight : t.search.inFlight = []
  empty : (t.search.node x).dataMap.isEmpty = true
  owned : ∀ a key, key ∈ (t.search.node a).dataMap → Owns (R.erase x) a key
  postings : ∀ key a b, Owns R a key → Owns (R.erase x) b key →
    (t.search.node b).held key = (s.search.node a).held key

theorem Departing.leftBy {t : PennNet} (hinj : Set.InjOn nodePos (R : Set Ipv4Address))
    (hplaced : s.search.Placed (Owns R) (Owns R)) (hflight : s.search.inFlight = [])
    (h : Departing (R.erase x) R (fun key => s.search.total R key) t)
    (hchord : t.chord.inFlight = []) (hsearch : t.search.inFlight = []) : LeftBy R x s t := by
  have hview : t.chord.view.inFlight = [] := ChordNet.view_inFlight_nil hchord
  have hstable := (h.leaving.settled hview).toStableAt
  refine ⟨⟨hstable.stableRing h.localAddress, h.localAddress, fun a ha => ?_, hchord⟩, hsearch, ?_,
    h.placed.held, fun key a b ha hb => ?_⟩
  · exact Bool.eq_false_iff.mpr fun hstatus => ha ((hstable.member a).mp hstatus)
  · refine Std.TreeMap.isEmpty_iff_forall_not_mem.mpr fun key hkey => ?_
    exact Finset.notMem_erase x R (h.placed.held x key hkey).1
  · have hinj' : Set.InjOn nodePos (R.erase x : Set Ipv4Address) :=
      hinj.mono (Finset.coe_subset.mpr (Finset.erase_subset x R))
    calc (t.search.node b).held key = t.search.total R key :=
          (h.placed.total_eq_held hsearch (Finset.mem_of_mem_erase hb.1)
            fun c hc => hc.unique hinj' hb).symm
      _ = s.search.total R key := h.total key
      _ = (s.search.node a).held key :=
          hplaced.total_eq_held hflight ha.1 fun c hc => hc.unique hinj ha

end PennNet

/-- A graceful leave. From a stable ring of at least two members where every key
is held by its owner alone, a member `x` issues LEAVE. Then, in whatever order
the messages are delivered, no step fails, and it ends with all of them delivered:
the others form a stable ring, `x` holds nothing, and every posting is stored
once, unchanged, at its owner. -/
theorem graceful_leave {s : PennNet} {R : Finset Ipv4Address} {x : Ipv4Address}
    (lookup : PennNet → LookupCall → Except Fault PennNet)
    (hinj : Set.InjOn nodePos (R : Set Ipv4Address)) (hstart : StableNet s.chord R)
    (hcard : 2 ≤ R.card) (hx : x ∈ R) (hflight : s.search.inFlight = [])
    (howned : ∀ a key, key ∈ (s.search.node a).dataMap → Owns R a key)
    (hfits : ∀ tx key docVector, (s.search.node x).dataMap[key]? = some docVector →
      PennSearchMessage.fits ⟨tx, .passKeys key docVector⟩ = true) :
    ∃ s', s.step lookup (.chord (.leave x)) = .ok s' ∧
      Reaches (PennNet.step lookup) PennNet.Delivers (fun _ => True) (PennNet.LeftBy R x s) s' := by
  have hplaced : s.search.Placed (Owns R) (Owns R) := ⟨howned, by simp [hflight]⟩
  have hne : (s.chord.node x).successorAddr ≠ x := by
    intro hself
    rw [hstart.ring.eq_singleton_of_self hinj hx hself, Finset.card_singleton] at hcard
    omega
  have hinj' : Set.InjOn nodePos (R.erase x : Set Ipv4Address) :=
    hinj.mono (Finset.coe_subset.mpr (Finset.erase_subset x R))
  obtain ⟨s', hs'⟩ := PennNet.leave_isOk (x := x) hstart.localAddress
    (by simp [ChordNet.LookupFree, hstart.inFlight])
    fun tx key docVector hget => PennSearchMessage.countable_of_fits (hfits tx key docVector hget)
  have hdeparting := PennNet.departing_of_leave hinj hstart hx hne hplaced hflight hfits hs'
  refine ⟨s', hs', reaches_of_decreasing
    (J := PennNet.Departing (R.erase x) R fun key => s.search.total R key)
    (fun t => t.chord.inFlight.length + t.search.inFlight.length) (fun _ _ => trivial)
    (fun t ht => ?_) (fun t e ht he => ?_) hdeparting⟩
  · by_cases hchord : t.chord.inFlight = []
    · by_cases hsearch : t.search.inFlight = []
      · exact .inl (ht.leftBy hinj hplaced hflight hchord hsearch)
      · exact .inr ⟨.deliver 0, List.length_pos_iff.mpr hsearch⟩
    · exact .inr ⟨.chord (.deliver 0), List.length_pos_iff.mpr hchord⟩
  · unfold PennNet.Delivers at he
    split at he
    · obtain ⟨u, hu, hdep, hlt, hsearch⟩ := ht.deliver_chord hinj' he
      exact ⟨u, hu, hdep, by rw [hsearch]; omega⟩
    · obtain ⟨u, hu, hdep, hlt, hchord⟩ :=
        ht.deliver_search lookup (Finset.erase_subset x R) he
      exact ⟨u, hu, hdep, by rw [hchord]; omega⟩
    · exact he.elim

end PennSearch

namespace PennSearch

open MessagePassing

attribute [local instance] sampleSha1

theorem graceful_leave_sample :
    ∃ s', samplePostings.step PennNet.viaService (.chord (.leave sampleA)) = .ok s' ∧
      Reaches (PennNet.step PennNet.viaService) PennNet.Delivers (fun _ => True)
        (PennNet.LeftBy {sampleA, sampleB} sampleA samplePostings) s' := by
  refine graceful_leave PennNet.viaService samplePair_injOn samplePair_stable (by decide)
    (by decide) rfl (fun a key hkey => ?_) fun tx key docVector hget => ?_
  · rw [samplePostings_ready.placed a key hkey]
    exact sampleOwner_isOwner key
  · rw [show (samplePostings.search.node sampleA).dataMap =
      (∅ : PostingMap).insert [84, 53] [[68], [71]] from rfl, Std.TreeMap.getElem?_insert] at hget
    split at hget
    · obtain rfl : [[68], [71]] = docVector := Option.some.inj hget
      rename_i heq
      obtain rfl : [84, 53] = key := by simpa using heq
      rfl
    · simp at hget

end PennSearch
