import PennSearch.Chord.Stabilization

/-!
# Concurrent leaves

A leaving node sends each neighbour one message that names its new neighbour.
While the leaves do not meet at a node, each pointer of a member is right, or a
single message in flight will set it right (`Leaving`); once the messages are
delivered the members that stayed form a stable ring. "Do not meet" is
`LeaveAllowed`: a node issues LEAVE only when no such message in flight is
addressed to it or names it. Nothing in the protocol enforces this, and without
it a ring of four is left with a successor that has gone.
-/

namespace PennSearch

open Clockwise MessagePassing

/-- The value that a `LEAVE_PREDECESSOR` writes to the successor. -/
def RingMessage.newSuccessor : RingMessage → Option Ipv4Address
  | .leavePredecessor v => some v
  | _ => none

/-- The value that a `LEAVE_SUCCESSOR` writes to the predecessor. -/
def RingMessage.newPredecessor : RingMessage → Option Ipv4Address
  | .leaveSuccessor v => some v
  | _ => none

theorem RingMessage.newSuccessor_eq_some {m : RingMessage} {v : Ipv4Address} :
    m.newSuccessor = some v ↔ m = .leavePredecessor v := by
  cases m <;> simp [RingMessage.newSuccessor]

theorem RingMessage.newPredecessor_eq_some {m : RingMessage} {v : Ipv4Address} :
    m.newPredecessor = some v ↔ m = .leaveSuccessor v := by
  cases m <;> simp [RingMessage.newPredecessor]

/-- The values of the packets to `a` that `f` reads, in sending order. -/
def pending (f : RingMessage → Option Ipv4Address) (l : List RingPacket) (a : Ipv4Address) :
    List Ipv4Address :=
  l.filterMap fun p => if p.dst = a then f p.msg else none

section Pending

variable {f : RingMessage → Option Ipv4Address} {l : List RingPacket} {a v : Ipv4Address}
  {p : RingPacket} {k : ℕ}

theorem pending_append (f : RingMessage → Option Ipv4Address) (l l' : List RingPacket)
    (a : Ipv4Address) : pending f (l ++ l') a = pending f l a ++ pending f l' a :=
  List.filterMap_append

theorem mem_pending : v ∈ pending f l a ↔ ∃ p ∈ l, p.dst = a ∧ f p.msg = some v := by
  simp [pending, List.mem_filterMap]

theorem pending_eraseIdx_of_none (hp : l[k]? = some p) (h : p.dst = a → f p.msg = none) :
    pending f (l.eraseIdx k) a = pending f l a := by
  obtain ⟨pre, post, hsplit, -, herase⟩ := exists_split hp
  have hnone : (if p.dst = a then f p.msg else none) = none := by
    simpa using h
  rw [herase, hsplit]
  simp [pending, hnone]

theorem pending_eraseIdx_of_some {w : Ipv4Address} (hp : l[k]? = some p) (hdst : p.dst = a)
    (hv : f p.msg = some v) (hl : pending f l a = [w]) :
    v = w ∧ pending f (l.eraseIdx k) a = [] := by
  obtain ⟨pre, post, hsplit, -, herase⟩ := exists_split hp
  rw [hsplit, pending_append] at hl
  have hcons : pending f (p :: post) a = v :: pending f post a := by
    simp [pending, hdst, hv]
  rw [hcons] at hl
  rw [herase, pending_append]
  cases hpre : pending f pre a with
  | nil =>
      rw [hpre, List.nil_append] at hl
      obtain ⟨rfl, hpost⟩ := List.cons.inj hl
      exact ⟨rfl, by rw [List.nil_append, hpost]⟩
  | cons w' rest =>
      rw [hpre, List.cons_append] at hl
      exact absurd (List.cons.inj hl).2 (by simp)

end Pending

/-- A pointer is right, or one message in flight will set it right. -/
def Repaired (right : Ipv4Address → Prop) (updates : List Ipv4Address) (pointer : Ipv4Address) :
    Prop :=
  (updates = [] ∧ right pointer) ∨ ∃ v, updates = [v] ∧ right v

theorem Repaired.mono {P Q : Ipv4Address → Prop} {updates : List Ipv4Address}
    {pointer : Ipv4Address} (h : Repaired P updates pointer)
    (hP : updates = [] → P pointer → Q pointer) (hQ : ∀ v ∈ updates, P v → Q v) :
    Repaired Q updates pointer := by
  rcases h with ⟨hnil, hp⟩ | ⟨v, hv, hp⟩
  · exact Or.inl ⟨hnil, hP hnil hp⟩
  · exact Or.inr ⟨v, hv, hQ v (by simp [hv]) hp⟩

/-- The message that `f` reads sets the pointer of its destination right, and is
no message for anybody else. -/
theorem Repaired.deliver {f : RingMessage → Option Ipv4Address} {right : Ipv4Address → Prop}
    {l : List RingPacket} {k : ℕ} {p : RingPacket} {a v pointer : Ipv4Address}
    (hp : l[k]? = some p) (hv : f p.msg = some v) (h : Repaired right (pending f l a) pointer) :
    Repaired right (pending f (l.eraseIdx k) a) (if p.dst = a then v else pointer) := by
  by_cases ha : p.dst = a
  · subst ha
    rw [if_pos rfl]
    rcases h with ⟨hnil, -⟩ | ⟨w, hw, hright⟩
    · have hmem : v ∈ pending f l p.dst :=
        mem_pending.mpr ⟨p, mem_of_getElem? hp, rfl, hv⟩
      simp [hnil] at hmem
    · obtain ⟨rfl, hrest⟩ := pending_eraseIdx_of_some hp rfl hv hw
      exact Or.inl ⟨hrest, hright⟩
  · rwa [if_neg ha, pending_eraseIdx_of_none hp fun hdst => absurd hdst ha]

/-- A delivery sets the pointer of its destination right, if it is read there. -/
theorem Repaired.take {f : RingMessage → Option Ipv4Address} {right : Ipv4Address → Prop}
    {l : List RingPacket} {k : ℕ} {p : RingPacket} {a pointer : Ipv4Address}
    (h : Repaired right (pending f l a) pointer) (hp : l[k]? = some p) :
    Repaired right (pending f (l.eraseIdx k) a)
      (if p.dst = a then (f p.msg).getD pointer else pointer) := by
  cases hf : f p.msg with
  | none =>
      rw [pending_eraseIdx_of_none hp fun _ => hf, Option.getD_none, ite_self]
      exact h
  | some v => exact Repaired.deliver hp hf h

def ChordPayload.leaveValue : ChordPayload → Option Ipv4Address
  | .leaveSuccessor v => some v
  | .leavePredecessor v => some v
  | _ => none

/-- No `LEAVE_SUCCESSOR` or `LEAVE_PREDECESSOR` in flight is addressed to `a` or
names it. -/
def ChordNet.Untouched (c : ChordNet) (a : Ipv4Address) : Prop :=
  ∀ p ∈ c.inFlight, ∀ v ∈ p.msg.payload.leaveValue, p.dst ≠ a ∧ v ≠ a

instance (c : ChordNet) (a : Ipv4Address) : Decidable (c.Untouched a) :=
  inferInstanceAs (Decidable (∀ p ∈ c.inFlight, ∀ v ∈ p.msg.payload.leaveValue, _))

/-- Leaves that do not meet: a member issues LEAVE only when no leave message in
flight is addressed to it or names it. Deliveries come in any order. -/
def LeaveAllowed (c : ChordNet) : ChordEvent → Prop
  | .leave a => (c.node a).chordStatus = true → c.Untouched a
  | .deliver _ => True
  | _ => False

instance (c : ChordNet) (e : ChordEvent) : Decidable (LeaveAllowed c e) :=
  match e with
  | .leave _ => inferInstanceAs (Decidable (_ → _))
  | .deliver _ => .isTrue trivial
  | .join .. | .ringstate _ | .stabilize _ | .fixFinger _ | .lookupPublish .. => .isFalse id

def ChordEvent.Leaves : ChordEvent → Prop
  | .leave _ => True
  | .deliver _ => True
  | _ => False

instance (e : ChordEvent) : Decidable e.Leaves :=
  match e with
  | .leave _ | .deliver _ => .isTrue trivial
  | .join .. | .ringstate _ | .stabilize _ | .fixFinger _ | .lookupPublish .. => .isFalse id

variable [Sha1]

structure Leaving (R : Finset Ipv4Address) (s : RingNet) : Prop where
  getAny_notMem : .getAny ∉ R
  member : ∀ a, (s.node a).member = true ↔ a ∈ R
  traffic : ∀ p ∈ s.inFlight, p.dst ∈ R ∧
    ∃ v, p.msg = .leaveSuccessor v ∨ p.msg = .leavePredecessor v
  successor : ∀ a ∈ R, Repaired (IsNext nodePos R a)
    (pending RingMessage.newSuccessor s.inFlight a) (s.node a).successor
  predecessor : ∀ a ∈ R, Repaired (fun v => IsPredecessor R v a)
    (pending RingMessage.newPredecessor s.inFlight a) (s.node a).predecessor

def RingNet.Untouched (s : RingNet) (a : Ipv4Address) : Prop :=
  ∀ p ∈ s.inFlight, ∀ v, p.msg = .leaveSuccessor v ∨ p.msg = .leavePredecessor v →
    p.dst ≠ a ∧ v ≠ a

variable {R : Finset Ipv4Address} {s s' : RingNet} {e : RingEvent}
  {F : Ipv4Address → Ipv4Address → Prop}

theorem RingNet.StableAt.leaving (h : s.StableAt R) (hs : s.inFlight = []) : Leaving R s where
  getAny_notMem := h.getAny_notMem
  member := h.member
  traffic p hp := by simp [hs] at hp
  successor a ha := Or.inl ⟨by simp [hs, pending], h.successor a ha⟩
  predecessor a ha := Or.inl ⟨by simp [hs, pending], h.predecessor a ha⟩

theorem Leaving.settled (h : Leaving R s) (hs : s.inFlight = []) : Settled R s where
  getAny_notMem := h.getAny_notMem
  member := h.member
  successor a ha := by
    rcases h.successor a ha with ⟨-, hnext⟩ | ⟨v, hv, -⟩
    · exact hnext
    · simp [hs, pending] at hv
  predecessor a ha := by
    rcases h.predecessor a ha with ⟨-, hpred⟩ | ⟨v, hv, -⟩
    · exact hpred
    · simp [hs, pending] at hv
  traffic p hp := by simp [hs] at hp

theorem Leaving.untouched (h : Leaving R s) {x : Ipv4Address} (hx : x ∈ R)
    (hun : s.Untouched x) :
    IsNext nodePos R x (s.node x).successor ∧ IsPredecessor R (s.node x).predecessor x := by
  constructor
  · rcases h.successor x hx with ⟨-, hnext⟩ | ⟨v, hv, -⟩
    · exact hnext
    · obtain ⟨p, hp, hdst, hmsg⟩ := mem_pending.mp (show v ∈ pending _ _ _ by rw [hv]; simp)
      exact absurd hdst (hun p hp v (Or.inr (RingMessage.newSuccessor_eq_some.mp hmsg))).1
  · rcases h.predecessor x hx with ⟨-, hpred⟩ | ⟨v, hv, -⟩
    · exact hpred
    · obtain ⟨p, hp, hdst, hmsg⟩ := mem_pending.mp (show v ∈ pending _ _ _ by rw [hv]; simp)
      exact absurd hdst (hun p hp v (Or.inl (RingMessage.newPredecessor_eq_some.mp hmsg))).1

theorem Reacts.leave_eq {F : Ipv4Address → Prop} {a src v : Ipv4Address} {p q : Pointers}
    {m : RingMessage} {out : List RingAction}
    (hmsg : m = .leaveSuccessor v ∨ m = .leavePredecessor v) (h : Reacts F a p src m q out) :
    q = ⟨p.member, m.newSuccessor.getD p.successor, m.newPredecessor.getD p.predecessor⟩ ∧
      out = [] := by
  rcases hmsg with rfl | rfl <;> cases h <;> exact ⟨rfl, rfl⟩

omit [Sha1] in
theorem node_of_leave (s : RingNet) (k : ℕ) (p : RingPacket) (a : Ipv4Address) :
    ((s.take k).act p.dst ⟨(s.node p.dst).member,
      p.msg.newSuccessor.getD (s.node p.dst).successor,
      p.msg.newPredecessor.getD (s.node p.dst).predecessor⟩ []).node a =
        ⟨(s.node a).member,
          if p.dst = a then p.msg.newSuccessor.getD (s.node a).successor
            else (s.node a).successor,
          if p.dst = a then p.msg.newPredecessor.getD (s.node a).predecessor
            else (s.node a).predecessor⟩ := by
  by_cases ha : p.dst = a
  · subst ha
    simp
  · simp [Net.act_node_of_ne _ _ _ (Ne.symm ha), ha]

/-- A delivery sets one pointer right. -/
theorem Leaving.deliver (h : Leaving R s) {k : ℕ} {p : RingPacket} {q : Pointers}
    {out : List RingAction} (packet : s.inFlight[k]? = some p)
    (reacts : Reacts (F p.dst) p.dst (s.node p.dst) p.src p.msg q out) :
    Leaving R ((s.take k).act p.dst q (ringSends p.dst out)) := by
  obtain ⟨-, v, hmsg⟩ := h.traffic p (mem_of_getElem? packet)
  obtain ⟨rfl, rfl⟩ := reacts.leave_eq hmsg
  rw [ringSends_nil]
  refine ⟨h.getAny_notMem, fun a => ?_, fun p' hp' => ?_, fun a ha => ?_, fun a ha => ?_⟩
  · rw [node_of_leave]
    exact h.member a
  · exact h.traffic p' (List.mem_of_mem_eraseIdx (by simpa using hp'))
  · rw [node_of_leave, Net.act_inFlight, List.append_nil, Net.take_inFlight]
    exact (h.successor a ha).take packet
  · rw [node_of_leave, Net.act_inFlight, List.append_nil, Net.take_inFlight]
    exact (h.predecessor a ha).take packet

/-- A leave hands both pointers over to the neighbours. -/
theorem Leaving.leave (hinj : Set.InjOn nodePos (R : Set Ipv4Address)) (h : Leaving R s)
    {x : Ipv4Address} (hx : x ∈ R) (hun : s.Untouched x) (hne : (s.node x).successor ≠ x) :
    Leaving (R.erase x) (s.act x .outside (ringSends x
        [.send (s.node x).successor (.leaveSuccessor
            (if (s.node x).successor = (s.node x).predecessor then .getAny
              else (s.node x).predecessor)),
          .leaveNotify (s.node x).successor,
          .send (s.node x).predecessor (.leavePredecessor (s.node x).successor)])) := by
  obtain ⟨hnext, hpred⟩ := h.untouched hx hun
  generalize hn : (s.node x).successor = n at *
  generalize hp : (s.node x).predecessor = p at *
  obtain ⟨hpR, hpx⟩ := hpred.of_ne hnext.1 hne
  have hpne : p ≠ x := by
    rintro rfl
    exact hne (hnext.unique hinj hpx)
  have hsome : ∀ {a}, a ∈ R → a ≠ .getAny := fun ha heq => h.getAny_notMem (heq ▸ ha)
  -- the two messages, and nothing else, are added to what is pending
  have hsends : ringSends x
      [.send n (.leaveSuccessor (if n = p then .getAny else p)), .leaveNotify n,
        .send p (.leavePredecessor n)] =
      [⟨x, n, .leaveSuccessor (if n = p then .getAny else p)⟩, ⟨x, p, .leavePredecessor n⟩] := by
    simp [ringSends, hsome hnext.1, hsome hpR]
  rw [hsends]
  have hsucc : ∀ a, pending RingMessage.newSuccessor
      [⟨x, n, .leaveSuccessor (if n = p then .getAny else p)⟩, ⟨x, p, .leavePredecessor n⟩] a =
        if p = a then [n] else [] := by
    intro a
    by_cases ha : p = a <;> simp [pending, RingMessage.newSuccessor, ha]
  have hpred' : ∀ a, pending RingMessage.newPredecessor
      [⟨x, n, .leaveSuccessor (if n = p then .getAny else p)⟩, ⟨x, p, .leavePredecessor n⟩] a =
        if n = a then [if n = p then .getAny else p] else [] := by
    intro a
    by_cases ha : n = a <;> simp [pending, RingMessage.newPredecessor, ha]
  -- no message in flight names the node that leaves
  have hnames : ∀ {a}, x ∉ pending RingMessage.newSuccessor s.inFlight a ∧
      x ∉ pending RingMessage.newPredecessor s.inFlight a := by
    intro a
    constructor
    · intro hmem
      obtain ⟨m, hm, -, hv⟩ := mem_pending.mp hmem
      exact (hun m hm x (Or.inr (RingMessage.newSuccessor_eq_some.mp hv))).2 rfl
    · intro hmem
      obtain ⟨m, hm, -, hv⟩ := mem_pending.mp hmem
      exact (hun m hm x (Or.inl (RingMessage.newPredecessor_eq_some.mp hv))).2 rfl
  refine ⟨fun hmem => h.getAny_notMem (Finset.mem_of_mem_erase hmem), fun a => ?_,
    fun m hm => ?_, fun a ha => ?_, fun a ha => ?_⟩
  · by_cases hax : a = x
    · subst hax
      simp [Pointers.outside]
    · rw [Net.act_node_of_ne _ _ _ hax, h.member a]
      simp [hax]
  · simp only [Net.act_inFlight, List.mem_append, List.mem_cons, List.not_mem_nil, or_false] at hm
    rcases hm with hm | rfl | rfl
    · obtain ⟨hdst, hmsg⟩ := h.traffic m hm
      obtain ⟨v, hv⟩ := hmsg
      exact ⟨Finset.mem_erase.mpr ⟨(hun m hm v hv).1, hdst⟩, v, hv⟩
    · exact ⟨Finset.mem_erase.mpr ⟨hne, hnext.1⟩, _, Or.inl rfl⟩
    · exact ⟨Finset.mem_erase.mpr ⟨hpne, hpR⟩, _, Or.inr rfl⟩
  · obtain ⟨hax, haR⟩ := Finset.mem_erase.mp ha
    rw [Net.act_node_of_ne _ _ _ hax, Net.act_inFlight, pending_append, hsucc]
    by_cases hpa : p = a
    · -- the member before `x`: nothing was pending for it
      subst hpa
      rcases h.successor p haR with ⟨hnil, -⟩ | ⟨v, hv, hright⟩
      · exact Or.inr ⟨n, by simp [hnil], hpx.erase_between hinj hnext hne⟩
      · rw [hright.unique hinj hpx] at hv
        exact absurd (hv ▸ List.mem_singleton_self x) hnames.1
    · rw [if_neg hpa, List.append_nil]
      refine (h.successor a haR).mono (fun _ hright => hright.erase_other ?_)
        fun v hv hright => hright.erase_other (fun hvx => hnames.1 (hvx ▸ hv))
      intro hcur
      rw [hcur] at hright
      exact hpa (hpx.prev_unique hinj hpR haR hright)
  · obtain ⟨hax, haR⟩ := Finset.mem_erase.mp ha
    rw [Net.act_node_of_ne _ _ _ hax, Net.act_inFlight, pending_append, hpred']
    by_cases hna : n = a
    · -- the member after `x`
      subst hna
      rcases h.predecessor n haR with ⟨hnil, -⟩ | ⟨v, hv, hright⟩
      · exact Or.inr ⟨_, by simp [hnil], hpred.erase_between hinj hx hnext hne⟩
      · rw [hright.eq_of_isNext hinj hx hne hnext] at hv
        exact absurd (hv ▸ List.mem_singleton_self x) hnames.2
    · rw [if_neg hna, List.append_nil]
      refine (h.predecessor a haR).mono
        (fun _ hright => hright.erase_other hinj haR hax ?_)
        fun v hv hright => hright.erase_other hinj haR hax (fun hvx => hnames.2 (hvx ▸ hv))
      intro hcur
      rw [hcur] at hright
      exact hna (hnext.unique hinj (hright.of_ne hx hax.symm).2)

theorem Leaving.leaveAlone (hinj : Set.InjOn nodePos (R : Set Ipv4Address)) (h : Leaving R s)
    {x : Ipv4Address} (hx : x ∈ R) (hun : s.Untouched x) (hself : (s.node x).successor = x) :
    Leaving (R.erase x) (s.act x .outside []) := by
  have hnext := (h.untouched hx hun).1
  rw [hself] at hnext
  have hR := eq_singleton_of_isNext_self hinj hx hnext
  have hempty : R.erase x = ∅ := by rw [hR, Finset.erase_singleton]
  rw [hempty]
  refine ⟨by simp, fun a => ?_, fun p hp => ?_, by simp, by simp⟩
  · by_cases hax : a = x
    · subst hax
      simp [Pointers.outside]
    · rw [Net.act_node_of_ne _ _ _ hax, h.member a]
      simp [hR, hax]
  · -- everything in flight would be addressed to `x`
    rw [Net.act_inFlight, List.append_nil] at hp
    obtain ⟨hdst, v, hv⟩ := h.traffic p hp
    rw [hR, Finset.mem_singleton] at hdst
    exact absurd hdst (hun p hp v hv).1

def RingEvent.remaining (R : Finset Ipv4Address) : RingEvent → Finset Ipv4Address
  | .leave a => R.erase a
  | _ => R

def RingNet.LeaveAllowed (s : RingNet) : RingEvent → Prop
  | .leave a => (s.node a).member = true → s.Untouched a
  | .deliver _ => True
  | .quiet => True
  | _ => False

theorem Leaving.step (hinj : Set.InjOn nodePos (R : Set Ipv4Address)) (h : Leaving R s)
    (allowed : s.LeaveAllowed e) (hstep : RingStep F s e s') : Leaving (e.remaining R) s' := by
  obtain ⟨a, q, out, hturn, rfl⟩ := hstep
  cases hturn with
  | quiet a => simpa [RingEvent.remaining, RingNet.before, Net.act] using h
  | leaveIgnored outside =>
      have ha : a ∉ R := fun ha => by simp [(h.member a).mpr ha] at outside
      have hR : RingEvent.remaining R (.leave a) = R := Finset.erase_eq_of_notMem ha
      rw [hR]
      simpa [RingNet.before, Net.act] using h
  | leaveAlone member alone =>
      exact h.leaveAlone hinj ((h.member a).mp member) (allowed member) alone
  | leave member several =>
      exact h.leave hinj ((h.member a).mp member) (allowed member) several
  | deliver packet reacts => exact h.deliver packet reacts
  | _ => exact allowed.elim

/-! ## Runs of the Chord network -/

omit [Sha1] in
theorem ChordNet.Untouched.view {c : ChordNet} {a : Ipv4Address} (h : c.Untouched a) :
    c.view.Untouched a := by
  intro q hq v hv
  obtain ⟨p, hp, hpq⟩ := List.mem_filterMap.mp hq
  obtain ⟨m, hm, rfl⟩ := Option.map_eq_some_iff.mp hpq
  have hvalue : p.msg.payload.leaveValue = some v := by
    rcases hv with rfl | rfl <;> cases hpayload : p.msg.payload <;>
      simp_all [ringMessage, ChordPayload.leaveValue]
  exact h p hp v (by simp [hvalue])

omit [Sha1] in
theorem LeaveAllowed.view {c : ChordNet} {e : ChordEvent} (h : LeaveAllowed c e) :
    c.view.LeaveAllowed (c.ringEvent e) := by
  cases e with
  | leave a => exact fun member => (h member).view
  | deliver k =>
      simp only [ChordNet.ringEvent]
      split
      · trivial
      · split <;> trivial
  | _ => exact h.elim

omit [Sha1] in
theorem LeaveAllowed.remaining_ringEvent {c : ChordNet} {e : ChordEvent} (h : LeaveAllowed c e)
    (R : Finset Ipv4Address) : (c.ringEvent e).remaining R = R.filter fun a => e ≠ .leave a := by
  cases e with
  | leave a =>
      ext b
      simp [ChordNet.ringEvent, RingEvent.remaining, and_comm, eq_comm]
  | deliver k =>
      simp only [ChordNet.ringEvent]
      split
      · simp [RingEvent.remaining]
      · split <;> simp [RingEvent.remaining]
  | _ => exact h.elim

/-- Along a run of leaves the members are those that have not issued LEAVE. -/
theorem Leaving.run {c c' : ChordNet} {es : List ChordEvent}
    (hinj : Set.InjOn nodePos (R : Set Ipv4Address)) (h : Leaving R c.view)
    (hlocal : ∀ a, (c.node a).localAddress = a)
    (hrun : Run ChordNet.step LeaveAllowed c es c') :
    Leaving (R.filter fun a => .leave a ∉ es) c'.view ∧ ∀ a, (c'.node a).localAddress = a := by
  induction hrun with
  | nil => simpa using ⟨h, hlocal⟩
  | snoc run allowed eq ih =>
      rename_i es c₁ c₂ e
      obtain ⟨hleaving, hlocal₁⟩ := ih
      obtain ⟨hring, hlocal₂⟩ := ChordNet.step_view (F := fun _ _ => True) hlocal₁
        (fun _ _ _ _ => trivial) eq
      have hinj₁ : Set.InjOn nodePos
          ((R.filter fun a => ChordEvent.leave a ∉ es : Finset _) : Set _) :=
        hinj.mono (Finset.coe_subset.mpr (Finset.filter_subset _ R))
      have hremaining : (R.filter fun a => ChordEvent.leave a ∉ es ++ [e]) =
          (c₁.ringEvent e).remaining (R.filter fun a => ChordEvent.leave a ∉ es) := by
        rw [allowed.remaining_ringEvent]
        ext b
        simp [and_assoc, @eq_comm _ e]
      rw [hremaining]
      exact ⟨hleaving.step hinj₁ allowed.view hring, hlocal₂⟩

/-- Concurrent leaves that do not meet. From a stable ring, any members issue
LEAVE, interleaved in any way with the deliveries of the leave messages, which
come in any order. Once all are delivered, and after any amount of
stabilization, the members that did not leave form a stable ring. -/
theorem concurrent_leaves {c₀ c₁ c₂ : ChordNet} {R : Finset Ipv4Address}
    (hinj : Set.InjOn nodePos (R : Set Ipv4Address)) (hstart : StableNet c₀ R)
    {leaves stabilization : List ChordEvent}
    (hleaves : Run ChordNet.step LeaveAllowed c₀ leaves c₁) (hdelivered : c₁.inFlight = [])
    (hstabilization : Run ChordNet.step (fun _ e => e.Stabilizes) c₁ stabilization c₂) :
    StableRing c₂.node (R.filter fun a => .leave a ∉ leaves) := by
  have hstart' : c₀.view.inFlight = [] := ChordNet.view_inFlight_nil hstart.inFlight
  have hdelivered' : c₁.view.inFlight = [] := ChordNet.view_inFlight_nil hdelivered
  obtain ⟨hleaving, hlocal⟩ :=
    (hstart.stableAt.leaving hstart').run hinj hstart.localAddress hleaves
  obtain ⟨hsettled, -, hlocal'⟩ := Settled.run
    (hinj.mono (Finset.coe_subset.mpr (Finset.filter_subset _ R)))
    (hleaving.settled hdelivered') hlocal hstabilization
  exact hsettled.toStableAt.stableRing hlocal'

end PennSearch

namespace PennSearch

open Clockwise MessagePassing

attribute [local instance] sampleSha1

/-- B leaves, its messages are delivered in the other order, and A stabilizes. -/
theorem concurrent_leaves_sample :
    ∃ c₁ c₂, Run ChordNet.step LeaveAllowed sampleFour
        [.leave sampleB, .deliver 1, .deliver 0] c₁ ∧ c₁.inFlight = [] ∧
      Run ChordNet.step (fun _ e => e.Stabilizes) c₁
        [.stabilize sampleA, .deliver 0, .deliver 0] c₂ ∧
      StableRing c₂.node (sampleFourMembers.filter fun a => ChordEvent.leave a ∉
        [ChordEvent.leave sampleB, .deliver 1, .deliver 0]) := by
  have hleaves : ((execute ChordNet.step LeaveAllowed sampleFour
      [.leave sampleB, .deliver 1, .deliver 0]).map fun c => c.inFlight) = some [] := by decide
  have hstab : ((execute ChordNet.step LeaveAllowed sampleFour
      [.leave sampleB, .deliver 1, .deliver 0]).bind fun c =>
        execute ChordNet.step (fun _ e => e.Stabilizes) c
          [.stabilize sampleA, .deliver 0, .deliver 0]).isSome := by decide
  obtain ⟨c₁, hc₁, hdelivered⟩ := Option.map_eq_some_iff.mp hleaves
  rw [hc₁] at hstab
  obtain ⟨c₂, hc₂⟩ := Option.isSome_iff_exists.mp hstab
  exact ⟨c₁, c₂, .of_execute hc₁, hdelivered, .of_execute hc₂,
    concurrent_leaves sampleFour_injOn sampleFour_stable (.of_execute hc₁) hdelivered
      (.of_execute hc₂)⟩

/-- Two neighbours leave at once. The message of B about C reaches D after C has
left, and the message of C reaches B instead. Everything is delivered, and no
stabilization of the survivors D and A moves a pointer any more, but the
successor of D has gone. -/
theorem adjacent_leaves_break :
    ∃ c₁ c₂, StableNet sampleFour sampleFourMembers ∧
      Run ChordNet.step (fun _ e => e.Leaves) sampleFour
        [.leave sampleB, .leave sampleC, .deliver 0, .deliver 0, .deliver 0, .deliver 0] c₁ ∧
      Run ChordNet.step (fun _ e => e.Stabilizes) c₁
        [.stabilize sampleD, .deliver 0, .deliver 0, .stabilize sampleA, .deliver 0, .deliver 0]
        c₂ ∧
      c₁.inFlight = [] ∧ c₂.inFlight = [] ∧
      (∀ a ∈ sampleFourMembers, (c₂.node a).pointers = (c₁.node a).pointers) ∧
      (c₂.node sampleD).chordStatus = true ∧ (c₂.node sampleA).chordStatus = true ∧
      (c₂.node sampleC).chordStatus = false ∧ (c₂.node sampleD).successorAddr = sampleC := by
  have hrun : ((execute ChordNet.step (fun _ e => e.Leaves) sampleFour
      [.leave sampleB, .leave sampleC, .deliver 0, .deliver 0, .deliver 0, .deliver 0]).bind
        fun c₁ => (execute ChordNet.step (fun _ e => e.Stabilizes) c₁
          [.stabilize sampleD, .deliver 0, .deliver 0, .stabilize sampleA, .deliver 0,
            .deliver 0]).map fun c₂ => decide (c₁.inFlight = [] ∧ c₂.inFlight = [] ∧
      (∀ a ∈ sampleFourMembers, (c₂.node a).pointers = (c₁.node a).pointers) ∧
      (c₂.node sampleD).chordStatus = true ∧ (c₂.node sampleA).chordStatus = true ∧
      (c₂.node sampleC).chordStatus = false ∧ (c₂.node sampleD).successorAddr = sampleC)) =
        some true := by decide
  obtain ⟨c₁, hc₁, hrun⟩ := Option.bind_eq_some_iff.mp hrun
  obtain ⟨c₂, hc₂, hfacts⟩ := Option.map_eq_some_iff.mp hrun
  exact ⟨c₁, c₂, sampleFour_stable, .of_execute hc₁, .of_execute hc₂, of_decide_eq_true hfacts⟩

end PennSearch
