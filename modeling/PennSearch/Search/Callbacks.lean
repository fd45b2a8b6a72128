import PennSearch.Chord.Kinds
import PennSearch.Search.Postings

/-!
# The Chord layer seen from the search layer

As long as the Chord layer carries no lookup, the only callbacks of an event are
the hand-overs of a join and of a leave. `chordStep_view` says what an event of
the Chord layer then does to both layers at once: a turn of the pointer protocol,
and the hand-overs among its actions.
-/

namespace PennSearch

open MessagePassing

/-! ## Networks without lookups -/

def ChordPayload.isLookup : ChordPayload → Bool
  | .lookupPublish _ _ _ _ => true
  | .lookupPublishSuccess _ _ _ => true
  | _ => false

def ChordAction.isLookup : ChordAction → Bool
  | .sendTo _ message => message.payload.isLookup
  | .lookupPublishSuccess _ _ _ => true
  | .searchInitialSuccess _ _ _ => true
  | .searchBeginSuccess _ _ _ => true
  | _ => false

def ChordEvent.isLookup : ChordEvent → Bool
  | .lookupPublish _ _ _ _ => true
  | _ => false

def ChordNet.LookupFree (c : ChordNet) : Prop :=
  ∀ p ∈ c.inFlight, p.msg.payload.isLookup = false

theorem ChordAction.isLookup_eq_false_iff {act : ChordAction} :
    act.isLookup = false ↔ act.kind ≠ .lookups := by
  cases act with
  | sendTo dst message =>
      obtain ⟨tx, payload⟩ := message
      cases payload <;> simp [isLookup, ChordPayload.isLookup, kind, ChordPayload.kind]
  | _ => simp [isLookup, kind]

theorem ChordPayload.isLookup_eq_false_iff {payload : ChordPayload} :
    payload.isLookup = false ↔ payload.kind ≠ .lookups := by
  cases payload <;> simp [isLookup, kind]

variable [Sha1]

namespace ChordNet

variable {c c' c₀ : ChordNet} {e : ChordEvent} {acts : List ChordAction}

theorem turn_lookupFree (hfree : c.LookupFree) (he : e.isLookup = false) {a : Ipv4Address}
    {n : ChordNode} (h : c.turn e = some (c₀, a, .ok (n, acts))) :
    ∀ act ∈ acts, act.isLookup = false := by
  intro act hact
  have hkind := turn_kind h act hact
  rw [ChordAction.isLookup_eq_false_iff]
  intro hlookup
  rw [hlookup] at hkind
  cases e with
  | lookupPublish b key flag tx => cases he
  | deliver k =>
      obtain ⟨p, hp, hpkind⟩ := Option.map_eq_some_iff.mp hkind
      exact ChordPayload.isLookup_eq_false_iff.mp (hfree p (mem_of_getElem? hp)) hpkind
  | _ => cases hkind

theorem stepActions_lookupFree (hfree : c.LookupFree) (he : e.isLookup = false)
    (h : c.stepActions e = .ok (c', acts)) :
    c'.LookupFree ∧ ∀ act ∈ acts, act.isLookup = false := by
  rcases stepActions_cases h with ⟨-, rfl, rfl⟩ | ⟨c₀, a, n, hturn, rfl⟩
  · exact ⟨hfree, by simp⟩
  · have hacts := turn_lookupFree hfree he hturn
    refine ⟨fun p hp => ?_, hacts⟩
    rcases List.mem_append.mp hp with hp | hp
    · exact hfree p (turn_inFlight_subset hturn p hp)
    · exact hacts _ (mem_sentPackets.mp hp).2.2

end ChordNet

/-! ## Hand-overs -/

/-- What the search layer of node `a` does at an action of the pointer protocol. -/
def SearchNet.handOver (a : Ipv4Address) (c : SearchNet) : RingAction → Except Fault SearchNet
  | .joinNotify predecessorAddress => do
      let (n, acts) ← (c.node a).passKeysJoin predecessorAddress
      return c.act a n (searchPackets a acts)
  | .leaveNotify successorAddress => do
      let (n, acts) ← (c.node a).passKeysLeave successorAddress
      return c.act a n (searchPackets a acts)
  | .send _ _ => .ok c

theorem SearchNet.foldlM_handOver_leave (c : SearchNet) (a successorAddress dst dst' : Ipv4Address)
    (m m' : RingMessage) :
    [.send dst m, .leaveNotify successorAddress, .send dst' m'].foldlM (SearchNet.handOver a) c =
      c.handOver a (.leaveNotify successorAddress) := by
  change (c.handOver a (.leaveNotify successorAddress) >>= fun c => pure c) = _
  exact bind_pure _

namespace PennNet

variable {s s' : PennNet}

/-- An action that the pointer protocol does not have, and that belongs to no
lookup, leaves the search layer alone. -/
theorem callback_eq (s : PennNet) (a : Ipv4Address) {act : ChordAction}
    (hact : act.isLookup = false) :
    s.callback a act =
      match ringAction act with
      | none => .ok s
      | some out => (fun c => { s with search := c }) <$> s.search.handOver a out := by
  have hquiet : (s.search.node a).handleChord act = .ok (s.search.node a, []) →
      s.callback a act = .ok s := by
    intro h
    simp [callback, h, searchPackets, bind, Except.bind, pure, Except.pure]
  cases act with
  | sendTo dst message =>
      rw [hquiet rfl]
      simp only [ringAction]
      cases ringMessage message.payload with
      | none => rfl
      | some m => rfl
  | chordJoinNotify predecessorAddress transactionId =>
      simp only [callback, SearchNode.handleChord, ringAction, SearchNet.handOver]
      cases (s.search.node a).passKeysJoin predecessorAddress with
      | error f => rfl
      | ok r => rfl
  | chordLeaveNotify successorAddress transactionId =>
      simp only [callback, SearchNode.handleChord, ringAction, SearchNet.handOver]
      cases (s.search.node a).passKeysLeave successorAddress with
      | error f => rfl
      | ok r => rfl
  | pingSuccess address pingMessage => exact hquiet rfl
  | pingRecv address pingMessage => exact hquiet rfl
  | _ => cases hact

theorem callbacks_eq (s : PennNet) (a : Ipv4Address) {acts : List ChordAction}
    (hacts : ∀ act ∈ acts, act.isLookup = false) :
    s.callbacks a acts =
      (fun c => { s with search := c }) <$>
        (acts.filterMap ringAction).foldlM (SearchNet.handOver a) s.search := by
  induction acts generalizing s with
  | nil => rfl
  | cons act acts ih =>
      rw [List.forall_mem_cons] at hacts
      have hcons : s.callbacks a (act :: acts) = s.callback a act >>= fun s => s.callbacks a acts :=
        List.foldlM_cons
      rw [hcons, callback_eq s a hacts.1]
      cases hring : ringAction act with
      | none =>
          rw [List.filterMap_cons_none hring]
          exact ih s hacts.2
      | some out =>
          rw [List.filterMap_cons_some hring, List.foldlM_cons]
          dsimp only
          cases hstep : s.search.handOver a out with
          | error f => rfl
          | ok c => exact ih { s with search := c } hacts.2

/-- An event of the Chord layer is a turn of the pointer protocol, and the
search layer performs the hand-overs among the actions of the turn. -/
theorem chordStep_view {F : Ipv4Address → Ipv4Address → Prop} {e : ChordEvent}
    (hlocal : ∀ a, (s.chord.node a).localAddress = a) (hF : s.chord.HopsIn F e)
    (hfree : s.chord.LookupFree) (he : e.isLookup = false) (h : s.chordStep e = .ok s') :
    (∃ q out, RingTurn F s.chord.view (s.chord.ringEvent e) (s.chord.actor e) q out ∧
        s'.chord.view = (s.chord.view.before (s.chord.ringEvent e)).act (s.chord.actor e) q
          (ringSends (s.chord.actor e) out) ∧
        out.foldlM (SearchNet.handOver (s.chord.actor e)) s.search = .ok s'.search) ∧
      s.chord.step e = .ok s'.chord ∧ s'.lookups = s.lookups ∧ s'.chord.LookupFree ∧
        ∀ a, (s'.chord.node a).localAddress = a := by
  simp only [chordStep] at h
  cases hstep : s.chord.stepActions e with
  | error f => simp [hstep, bind, Except.bind] at h
  | ok r =>
      obtain ⟨c, acts⟩ := r
      obtain ⟨hfree', hacts⟩ := ChordNet.stepActions_lookupFree hfree he hstep
      obtain ⟨⟨q, hturn, hview⟩, hlocal'⟩ := ChordNet.stepActions_view hlocal hF hstep
      simp only [hstep, bind, Except.bind] at h
      rw [callbacks_eq _ _ hacts] at h
      cases hfold : (acts.filterMap ringAction).foldlM (SearchNet.handOver (s.chord.actor e))
          s.search with
      | error f =>
          rw [hfold] at h
          cases h
      | ok net =>
          rw [hfold] at h
          cases h
          exact ⟨⟨q, _, hturn, hview, hfold⟩, ChordNet.step_eq_ok.mpr ⟨acts, hstep⟩,
            rfl, hfree', hlocal'⟩

end PennNet

end PennSearch
