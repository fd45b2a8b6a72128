import PennSearch.Chord.NextHop
import PennSearch.Search.Net

/-!
# `FindNextHop` and the finger table

`FindNextHop` takes the last finger of a table that may be empty. Nothing keeps
this from happening: in every run, a step ends in that fault exactly when the node
that executes `FindNextHop` has not filled its table since it started or last
left.
-/

namespace PennSearch

open MessagePassing

def SearchResult.CallsLookup (r : SearchResult) : Prop :=
  ∃ n acts, r = .ok (n, acts) ∧ ∃ key flag tx, .lookupPublish key flag tx ∈ acts

theorem node_of_mem_lookupCalls {a : Ipv4Address} {acts : List SearchAction} {l : LookupCall}
    (h : l ∈ lookupCalls a acts) : l.node = a := by
  obtain ⟨act, -, hact⟩ := List.mem_filterMap.mp h
  cases act with
  | lookupPublish key flag tx =>
      cases hact
      rfl
  | _ => cases hact

theorem lookupCalls_ne_nil {a : Ipv4Address} {acts : List SearchAction} :
    lookupCalls a acts ≠ [] ↔ ∃ key flag tx, .lookupPublish key flag tx ∈ acts := by
  constructor
  · intro h
    obtain ⟨l, hl⟩ := List.exists_mem_of_ne_nil _ h
    obtain ⟨act, hmem, hact⟩ := List.mem_filterMap.mp hl
    cases act with
    | lookupPublish key flag tx => exact ⟨key, flag, tx, hmem⟩
    | _ => cases hact
  · rintro ⟨key, flag, tx, hmem⟩
    exact List.ne_nil_of_mem (List.mem_filterMap.mpr ⟨_, hmem, rfl⟩)

/-! ## The search layer itself routes nothing -/

theorem PennSearchMessage.sendTo_avoids (m : PennSearchMessage) (dst : Ipv4Address) :
    Avoids .fingerTableEmpty (m.sendTo dst) := by
  unfold sendTo
  split_ifs
  · exact avoids_ok _
  · exact fun h => by cases h

theorem PostingMap.invertLine_avoids (m : PostingMap) (line : CxxString) :
    Avoids .fingerTableEmpty (m.invertLine line) := by
  unfold invertLine
  split_ifs
  · exact avoids_ok _
  · split
    · exact fun h => by cases h
    · exact avoids_ok _

namespace SearchNode

theorem sendSearchComplete_avoids (n : SearchNode) (initiatorAddress : Ipv4Address)
    (keyList docList : List CxxString) (transactionId : UInt32) :
    Avoids .fingerTableEmpty
      (n.sendSearchComplete initiatorAddress keyList docList transactionId) :=
  (PennSearchMessage.sendTo_avoids _ _).bind fun _ => avoids_ok _

theorem continueSearch_avoids (n : SearchNode) (message : PennSearchMessage)
    (initiatorAddress : Ipv4Address) (keyList docList : List CxxString) :
    Avoids .fingerTableEmpty (n.continueSearch message initiatorAddress keyList docList) := by
  unfold continueSearch
  split
  · exact sendSearchComplete_avoids _ _ _ _ _
  · split_ifs
    · exact sendSearchComplete_avoids _ _ _ _ _
    · exact avoids_ok _

theorem recvMessage_avoids (n : SearchNode) (message : PennSearchMessage) (src : Ipv4Address) :
    Avoids .fingerTableEmpty (n.recvMessage message src) := by
  obtain ⟨tx, payload⟩ := message
  cases payload with
  | storeList key docVector =>
      simp only [recvMessage, processStoreList]
      split_ifs
      · exact fun h => by cases h
      · exact avoids_ok _
  | searchInitial initiatorAddress keyList =>
      cases keyList with
      | nil => exact fun h => by cases h
      | cons key rest => exact avoids_ok _
  | searchBegin initiatorAddress keyList docList =>
      simp only [recvMessage, processSearchBegin]
      split
      · exact fun h => by cases h
      · split
        · exact sendSearchComplete_avoids _ _ _ _ _
        · exact continueSearch_avoids _ _ _ _ _
  | search initiatorAddress keyList docList =>
      simp only [recvMessage, processSearch]
      split
      · exact fun h => by cases h
      · split
        · exact fun h => by cases h
        · exact continueSearch_avoids _ _ _ _ _
  | searchComplete keyList docList =>
      simp only [recvMessage, processSearchComplete]
      split_ifs
      · exact fun h => by cases h
      · exact avoids_ok _
  | _ => exact avoids_ok _

theorem processPublishCommand_avoids (n : SearchNode) (filename : CxxString)
    (lines : Option (List CxxString)) :
    Avoids .fingerTableEmpty (n.processPublishCommand filename lines) := by
  unfold processPublishCommand
  split_ifs
  · exact fun h => by cases h
  · cases lines with
    | none => exact avoids_ok _
    | some lines =>
        exact (Avoids.foldlM PostingMap.invertLine_avoids lines ∅).bind fun _ => avoids_ok _

theorem processSearchCommand_avoids (n : SearchNode) (nodeAddr : Ipv4Address)
    (keyList : List CxxString) :
    Avoids .fingerTableEmpty (n.processSearchCommand nodeAddr keyList) := by
  unfold processSearchCommand
  split_ifs
  · exact avoids_ok _
  · exact (PennSearchMessage.sendTo_avoids _ _).bind fun _ => avoids_ok _

theorem passKeysLeaveLoop_avoids (successorAddress : Ipv4Address)
    (l : List (CxxString × List CxxString)) (n : SearchNode) :
    Avoids .fingerTableEmpty (n.passKeysLeaveLoop successorAddress l) := by
  induction l generalizing n with
  | nil => exact avoids_ok _
  | cons e l ih =>
      exact (PennSearchMessage.sendTo_avoids _ _).bind fun _ =>
        (ih n.nextTransactionId).bind fun _ => avoids_ok _

variable [Sha1]

theorem passKeysJoinLoop_avoids (predecessorAddress : Ipv4Address)
    (l : List (CxxString × List CxxString)) (n : SearchNode) :
    Avoids .fingerTableEmpty (n.passKeysJoinLoop predecessorAddress l) := by
  induction l generalizing n with
  | nil => exact avoids_ok _
  | cons e l ih =>
      rw [passKeysJoinLoop]
      split_ifs
      · exact ih n
      · exact (PennSearchMessage.sendTo_avoids _ _).bind fun _ => (ih _).bind fun _ => avoids_ok _

theorem handleChord_avoids (n : SearchNode) (act : ChordAction) :
    Avoids .fingerTableEmpty (n.handleChord act) := by
  cases act with
  | chordJoinNotify predecessorAddress transactionId => exact passKeysJoinLoop_avoids _ _ n
  | chordLeaveNotify successorAddress transactionId => exact passKeysLeaveLoop_avoids _ _ n
  | lookupPublishSuccess key addressResponsible transactionId =>
      simp only [handleChord, sendInvertList]
      split
      · exact avoids_ok _
      · exact (PennSearchMessage.sendTo_avoids _ _).bind fun _ => avoids_ok _
  | searchInitialSuccess key addressResponsible transactionId =>
      simp only [handleChord, sendSearchBegin]
      split
      · exact avoids_ok _
      · exact (PennSearchMessage.sendTo_avoids _ _).bind fun _ => avoids_ok _
  | searchBeginSuccess key addressResponsible transactionId =>
      simp only [handleChord, sendSearch]
      split
      · exact avoids_ok _
      · exact (PennSearchMessage.sendTo_avoids _ _).bind fun _ => avoids_ok _
  | _ => exact avoids_ok _

end SearchNode

variable [Sha1]

namespace PennNet

variable {s s' : PennNet} {a : Ipv4Address} {filled : Ipv4Address → Bool}

/-- At this event, node `a` executes `FindNextHop`: as the Chord layer, or in a
call of `LookupPublish` by the search layer. -/
def Routes (s : PennNet) (a : Ipv4Address) : PennEvent → Prop
  | .chord (.lookupPublish _ _ _ _) => False
  | .chord e => s.chord.actor e = a ∧ s.chord.Routes e
  | .publish b filename lines =>
      b = a ∧ ((s.search.node b).processPublishCommand filename lines).CallsLookup
  | .search b nodeAddr keyList =>
      b = a ∧ ((s.search.node b).processSearchCommand nodeAddr keyList).CallsLookup
  | .deliver k => ∃ p ∈ s.search.inFlight[k]?,
      p.dst = a ∧ ((s.search.node p.dst).recvMessage p.msg p.src).CallsLookup
  | .answer _ _ => False

def noteFilled (s : PennNet) (e : PennEvent) (filled : Ipv4Address → Bool) : Ipv4Address → Bool :=
  match e with
  | .chord e => s.chord.noteFilled e filled
  | _ => filled

/-- The nodes that have put a finger into their table since they started or last
left, after the events `es`. -/
def filledAfter (s : PennNet) (es : List PennEvent) : Ipv4Address → Bool :=
  history (step viaChord) noteFilled s (fun _ => false) es

theorem callbacks_avoids (s : PennNet) (a : Ipv4Address) (acts : List ChordAction) :
    Avoids .fingerTableEmpty (s.callbacks a acts) :=
  Avoids.foldlM (fun _ act => (SearchNode.handleChord_avoids _ act).bind fun _ => avoids_ok _)
    acts s

theorem chordStep_error_iff (h : s.chord.Noted filled) (e : ChordEvent) :
    s.chordStep e = .error .fingerTableEmpty ↔
      s.chord.Routes e ∧ filled (s.chord.actor e) = false := by
  have hempty : (s.chord.node (s.chord.actor e)).fingerTable.isEmpty = true ↔
      filled (s.chord.actor e) = false := by
    simp [h (s.chord.actor e)]
  rw [← hempty, ← ChordNet.stepActions_error_iff]
  constructor
  · intro hstep
    rcases bind_eq_error.mp hstep with hstep | ⟨r, -, hback⟩
    · exact hstep
    · exact absurd hback (callbacks_avoids _ _ _)
  · exact fun hstep => bind_eq_error.mpr (Or.inl hstep)

theorem Noted.viaChord (h : s.chord.Noted filled) {l : LookupCall} (hl : s.viaChord l = .ok s') :
    s'.chord.Noted filled := by
  obtain ⟨acts, hstep⟩ := chordStep_chord hl
  exact h.stepActions hstep

theorem foldlM_viaChord (h : s.chord.Noted filled) {calls : List LookupCall}
    (hcalls : ∀ l ∈ calls, l.node = a) :
    (calls.foldlM PennNet.viaChord s = .error .fingerTableEmpty ↔
        calls ≠ [] ∧ filled a = false) ∧
      ∀ s', calls.foldlM PennNet.viaChord s = .ok s' → s'.chord.Noted filled := by
  induction calls generalizing s with
  | nil =>
      refine ⟨iff_of_false (fun h => by cases h) fun h => h.1 rfl, fun s' hs' => ?_⟩
      cases hs'
      exact h
  | cons l rest ih =>
      rw [List.forall_mem_cons] at hcalls
      have hl : s.viaChord l = .error .fingerTableEmpty ↔ filled a = false := by
        rw [PennNet.viaChord, chordStep_error_iff h, ChordNet.actor, hcalls.1]
        exact and_iff_right trivial
      rw [List.foldlM_cons]
      refine ⟨⟨fun hfold => ⟨by simp, ?_⟩, fun hfold => ?_⟩, fun s' hs' => ?_⟩
      · rcases bind_eq_error.mp hfold with hstep | ⟨s₁, hs₁, hrest⟩
        · exact hl.mp hstep
        · exact (((ih (Noted.viaChord h hs₁) hcalls.2).1).mp hrest).2
      · exact bind_eq_error.mpr (Or.inl (hl.mpr hfold.2))
      · obtain ⟨s₁, hs₁, hrest⟩ := bind_eq_ok.mp hs'
        exact (ih (Noted.viaChord h hs₁) hcalls.2).2 s' hrest

theorem searchTurn_viaChord (h : s.chord.Noted filled) {r : SearchResult}
    (hr : Avoids .fingerTableEmpty r) :
    (s.searchTurn PennNet.viaChord a r = .error .fingerTableEmpty ↔
        r.CallsLookup ∧ filled a = false) ∧
      ∀ s', s.searchTurn PennNet.viaChord a r = .ok s' → s'.chord.Noted filled := by
  cases r with
  | error f =>
      refine ⟨iff_of_false (fun hturn => hr ?_) fun hlookup => ?_, fun s' hs' => by cases hs'⟩
      · rw [Except.error.inj hturn]
      · obtain ⟨⟨n, acts, heq, -⟩, -⟩ := hlookup
        cases heq
  | ok r =>
      obtain ⟨n, acts⟩ := r
      obtain ⟨hiff, hnoted⟩ := foldlM_viaChord (a := a)
        (s := { s with search := s.search.act a n (searchPackets a acts) }) h
        (fun l hl => node_of_mem_lookupCalls hl)
      refine ⟨hiff.trans (and_congr_left fun _ => ?_), hnoted⟩
      rw [lookupCalls_ne_nil]
      constructor
      · exact fun hmem => ⟨n, acts, rfl, hmem⟩
      · rintro ⟨n', acts', heq, hmem⟩
        cases heq
        exact hmem

/-- One event: when it faults on an empty table, and that the record is kept. -/
theorem step_viaChord (h : s.chord.Noted filled) (e : PennEvent) :
    (s.step PennNet.viaChord e = .error .fingerTableEmpty ↔
        ∃ a, s.Routes a e ∧ filled a = false) ∧
      ∀ s', s.step PennNet.viaChord e = .ok s' → s'.chord.Noted (s.noteFilled e filled) := by
  cases e with
  | chord e =>
      cases e with
      | lookupPublish b key flag transactionId =>
          refine ⟨iff_of_false (fun hstep => by cases hstep) ?_, fun s' hs' => ?_⟩
          · rintro ⟨a, hroutes, -⟩
            exact hroutes
          · cases hs'
            exact h
      | _ =>
          refine ⟨(chordStep_error_iff h _).trans ?_, fun s' hs' => ?_⟩
          · constructor
            · exact fun hroutes => ⟨_, ⟨rfl, hroutes.1⟩, hroutes.2⟩
            · rintro ⟨a, ⟨rfl, hroutes⟩, hfilled⟩
              exact ⟨hroutes, hfilled⟩
          · obtain ⟨acts, hstep⟩ := chordStep_chord hs'
            exact h.stepActions hstep
  | publish b filename lines =>
      obtain ⟨hiff, hnoted⟩ := searchTurn_viaChord (a := b) h
        ((s.search.node b).processPublishCommand_avoids filename lines)
      refine ⟨hiff.trans ?_, hnoted⟩
      constructor
      · exact fun hcalls => ⟨b, ⟨rfl, hcalls.1⟩, hcalls.2⟩
      · rintro ⟨a, ⟨rfl, hcalls⟩, hfilled⟩
        exact ⟨hcalls, hfilled⟩
  | search b nodeAddr keyList =>
      obtain ⟨hiff, hnoted⟩ := searchTurn_viaChord (a := b) h
        ((s.search.node b).processSearchCommand_avoids nodeAddr keyList)
      refine ⟨hiff.trans ?_, hnoted⟩
      constructor
      · exact fun hcalls => ⟨b, ⟨rfl, hcalls.1⟩, hcalls.2⟩
      · rintro ⟨a, ⟨rfl, hcalls⟩, hfilled⟩
        exact ⟨hcalls, hfilled⟩
  | deliver k =>
      simp only [step, Routes]
      cases hp : s.search.inFlight[k]? with
      | none =>
          refine ⟨iff_of_false (fun hstep => by cases hstep) (by simp), fun s' hs' => ?_⟩
          cases hs'
          exact h
      | some p =>
          obtain ⟨hiff, hnoted⟩ := searchTurn_viaChord (s := { s with search := s.search.take k })
            (a := p.dst) h ((s.search.node p.dst).recvMessage_avoids p.msg p.src)
          refine ⟨hiff.trans ?_, hnoted⟩
          constructor
          · exact fun hcalls => ⟨p.dst, ⟨p, rfl, rfl, hcalls.1⟩, hcalls.2⟩
          · rintro ⟨a, ⟨p', hp', rfl, hcalls⟩, hfilled⟩
            obtain rfl : p = p' := Option.some.inj hp'
            exact ⟨hcalls, hfilled⟩
  | answer i addressResponsible =>
      simp only [step, Routes]
      cases s.lookups[i]? with
      | none =>
          refine ⟨iff_of_false (fun hstep => by cases hstep) (by simp), fun s' hs' => ?_⟩
          cases hs'
          exact h
      | some l =>
          refine ⟨iff_of_false (callbacks_avoids _ _ _) (by simp), fun s' hs' => ?_⟩
          rw [callbacks_chord hs']
          exact h

end PennNet

/-- In every run, whatever comes next, some node executes `FindNextHop` on an
empty finger table exactly when a node executes it that has not put a finger into
its table since it started or last left. -/
theorem findNextHop_fault_iff {chordId searchId : Ipv4Address → UInt32} {es : List PennEvent}
    {s : PennNet}
    (hrun : Run (PennNet.step PennNet.viaChord) (fun _ _ => True) (.start chordId searchId) es s)
    (e : PennEvent) :
    s.step PennNet.viaChord e = .error .fingerTableEmpty ↔
      ∃ a, s.Routes a e ∧ (PennNet.start chordId searchId).filledAfter es a = false := by
  have hnoted : s.chord.Noted ((PennNet.start chordId searchId).filledAfter es) := by
    have hstart : (PennNet.start chordId searchId).chord.Noted fun _ => false :=
      fun a => Std.TreeMap.isEmpty_emptyc
    refine hrun.history_invariant (I := fun s filled => s.chord.Noted filled) hstart ?_
    intro s filled e s' h _ hstep
    exact (PennNet.step_viaChord h e).2 s' hstep
  exact (PennNet.step_viaChord hnoted e).1

end PennSearch

namespace PennSearch

open MessagePassing

attribute [local instance] sampleSha1

theorem findNextHop_fault_iff_sample :
    ∃ s, Run (PennNet.step PennNet.viaChord) (fun _ _ => True) (.start (fun _ => 0) fun _ => 0)
        [.chord (.join sampleA sampleA), .chord (.join sampleB sampleA), .chord (.deliver 0),
          .chord (.deliver 0)] s ∧
      (s.step PennNet.viaChord (.publish sampleB [102] (some [[68, 32, 84, 53]])) =
          .error .fingerTableEmpty ↔
        ∃ a, s.Routes a (.publish sampleB [102] (some [[68, 32, 84, 53]])) ∧
          (PennNet.start (fun _ => 0) fun _ => 0).filledAfter
            [.chord (.join sampleA sampleA), .chord (.join sampleB sampleA), .chord (.deliver 0),
              .chord (.deliver 0)] a = false) := by
  have hrun : (execute (PennNet.step PennNet.viaChord) (fun _ _ => True)
      (.start (fun _ => 0) fun _ => 0)
      [.chord (.join sampleA sampleA), .chord (.join sampleB sampleA), .chord (.deliver 0),
        .chord (.deliver 0)]).isSome := by decide
  obtain ⟨s, hs⟩ := Option.isSome_iff_exists.mp hrun
  exact ⟨s, .of_execute hs, findNextHop_fault_iff (.of_execute hs) _⟩

/-- A is alone in its ring and publishes `T5`: `LookupPublish` answers itself, and
goes on to `FindNextHop` with an empty table. -/
theorem publish_alone_faults :
    ∃ s, Run (PennNet.step PennNet.viaChord) (fun _ _ => True) (.start (fun _ => 0) fun _ => 0)
        [.chord (.join sampleA sampleA)] s ∧
      s.step PennNet.viaChord (.publish sampleA [102] (some [[68, 32, 84, 53]])) =
        .error .fingerTableEmpty :=
  ⟨_, .single trivial rfl, rfl⟩

end PennSearch
