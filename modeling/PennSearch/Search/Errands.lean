import PennSearch.Chord.Arrival
import PennSearch.Search.Resolution

/-!
# Fingers and lookups during a join

While `X` joins the ring, its members repair their fingers, and `w` looks up the
keys that it publishes. `Errand` says what a message of either sort may carry:
requests go to nodes that are on the ring, and an answer to a lookup names a node
that owns the key before or after the join. `Arriving` is the invariant of the
Chord layer, and `Reported` is what a node may tell its search layer.
-/

namespace PennSearch

open Clockwise MessagePassing

variable [Sha1] {R : Finset Ipv4Address} {X w : Ipv4Address} {K : CxxString → Prop}

def OwnsOnce (R : Finset Ipv4Address) (X a : Ipv4Address) (key : CxxString) : Prop :=
  IsOwner nodePos R (keyPos key) a ∨ IsOwner nodePos (insert X R) (keyPos key) a

def Apart (R : Finset Ipv4Address) (X : Ipv4Address) (key : CxxString) : Prop :=
  ∀ a ∈ insert X R, nodePos a ≠ keyPos key

/-- What a message for the fingers, or for a lookup of `w`, may carry when the
nodes `A` are on the ring. -/
def Errand (R : Finset Ipv4Address) (X w : Ipv4Address) (K : CxxString → Prop)
    (A : Finset Ipv4Address) (p : ChordPacket) : Prop :=
  match p.msg.payload with
  | .findFinger targetAddress _ _ => p.dst ∈ A ∧ targetAddress ∈ insert X R
  | .findFingerSuccess fingerAddress _ => p.dst ∈ insert X R ∧ fingerAddress ∈ A
  | .lookupPublish flag initiatorAddress lookupDigest lookupKey =>
      p.dst ∈ A ∧ flag = 0 ∧ initiatorAddress = w ∧ lookupDigest = sha1Key lookupKey ∧ K lookupKey
  | .lookupPublishSuccess flag lookupKey addressResponsible =>
      p.dst = w ∧ flag = 0 ∧ K lookupKey ∧ OwnsOnce R X addressResponsible lookupKey
  | _ => True

/-- What node `a` may tell its search layer of a lookup. -/
def Reported (R : Finset Ipv4Address) (X w : Ipv4Address) (K : CxxString → Prop)
    (a : Ipv4Address) : ChordAction → Prop
  | .lookupPublishSuccess key addressResponsible _ =>
      a = w ∧ K key ∧ OwnsOnce R X addressResponsible key
  | .searchInitialSuccess _ _ _ => False
  | .searchBeginSuccess _ _ _ => False
  | _ => True

/-- The Chord layer while `X` arrives and `w` looks up the keys in `K`. -/
structure Arriving (R : Finset Ipv4Address) (X w : Ipv4Address) (K : CxxString → Prop)
    (issued : Bool) (c : ChordNet) : Prop where
  phase : JoinPhase R X issued c.view
  localAddress : ∀ a, (c.node a).localAddress = a
  fingers : ∀ a ∈ insert X R, (c.node a).FingersIn (· ∈ present R X c.view)
  errands : ∀ p ∈ c.inFlight, Errand R X w K (present R X c.view) p

/-- A call of `LookupPublish` is made by `w`, which is on the ring, for a key that
it publishes. -/
def Calls (R : Finset Ipv4Address) (X w : Ipv4Address) (K : CxxString → Prop) (c : ChordNet) :
    ChordEvent → Prop
  | .lookupPublish b key flag _ => b = w ∧ flag = 0 ∧ K key ∧ b ∈ present R X c.view
  | _ => True

/-! ## Messages of the other protocols -/

theorem errand_of_kind {A : Finset Ipv4Address} {p : ChordPacket}
    (hfingers : p.msg.payload.kind ≠ .fingers) (hlookups : p.msg.payload.kind ≠ .lookups) :
    Errand R X w K A p := by
  obtain ⟨src, dst, tx, payload⟩ := p
  cases payload <;> trivial

theorem reported_of_kind {a : Ipv4Address} {act : ChordAction} (h : act.kind ≠ .lookups) :
    Reported R X w K a act := by
  cases act <;> trivial

theorem Errand.mono {K' : CxxString → Prop} {A A' : Finset Ipv4Address} {p : ChordPacket}
    (h : Errand R X w K A p) (hA : A ⊆ A') (hK : ∀ key, K key → K' key) :
    Errand R X w K' A' p := by
  obtain ⟨src, dst, tx, payload⟩ := p
  cases payload with
  | findFinger target digest i => exact ⟨hA h.1, h.2⟩
  | findFingerSuccess finger i => exact ⟨h.1, hA h.2⟩
  | lookupPublish flag initiator digest key =>
      exact ⟨hA h.1, h.2.1, h.2.2.1, h.2.2.2.1, hK _ h.2.2.2.2⟩
  | lookupPublishSuccess flag key responsible => exact ⟨h.1, h.2.1, hK _ h.2.2.1, h.2.2.2⟩
  | _ => trivial

theorem Arriving.mono {K' : CxxString → Prop} {issued : Bool} {c : ChordNet}
    (h : Arriving R X w K issued c) (hK : ∀ key, K key → K' key) : Arriving R X w K' issued c :=
  ⟨h.phase, h.localAddress, h.fingers, fun p hp => (h.errands p hp).mono subset_rfl hK⟩

/-! ## Fingers -/

namespace ChordNode

variable {n n' : ChordNode} {acts : List ChordAction} {F : Ipv4Address → Prop}

omit [Sha1] in
theorem FingersIn.insert (h : n.FingersIn F) (i : UInt16) {finger : Ipv4Address}
    (hfinger : F finger) :
    { n with fingerTable := n.fingerTable.insert i finger }.FingersIn F := by
  intro j b hb
  rw [Std.TreeMap.getElem?_insert] at hb
  split at hb
  · exact Option.some.inj hb ▸ hfinger
  · exact h j b hb

theorem sendFindFingerLoop_fingersIn (k : ℕ) :
    ∀ {n : ChordNode}, n.sendFindFingerLoop k = .ok (n', acts) → n.FingersIn F →
      n'.FingersIn F ∧ ∀ act ∈ acts, ∃ finger tx indexHash i, F finger ∧
        act = .sendTo finger ⟨tx, .findFinger n.localAddress indexHash i⟩ := by
  induction k with
  | zero =>
      intro n h hF
      obtain ⟨rfl, rfl⟩ := scheduleFixFinger_eq h
      exact ⟨hF, by simp⟩
  | succ k ih =>
      intro n h hF
      obtain ⟨i, finger, hfinger, hkeep | ⟨rfl, indexHash, rfl⟩⟩ := sendFindFingerLoop_cases h
      · have hround := ih hkeep (hF.insert i (hF _ _ hfinger))
        exact hround
      · refine ⟨hF, fun act hact => ?_⟩
        exact ⟨finger, _, indexHash, i, hF _ _ hfinger, List.mem_singleton.mp hact⟩

theorem fixFinger_fingersIn (h : n.fixFinger = .ok (n', acts)) (hF : n.FingersIn F)
    (hsucc : n.chordStatus = true → F n.successorAddr) :
    n'.FingersIn F ∧ ∀ act ∈ acts, ∃ finger tx indexHash i, F finger ∧
      act = .sendTo finger ⟨tx, .findFinger n.localAddress indexHash i⟩ := by
  rcases fixFinger_cases h with ⟨-, rfl, rfl⟩ | ⟨hstatus, -, h⟩
  · exact ⟨hF, by simp⟩
  · have hloop := sendFindFingerLoop_fingersIn _ h (hF.insert 1 (hsucc hstatus))
    exact hloop

theorem lookupPublish_cases {key : CxxString} {tx : UInt32}
    (h : n.lookupPublish key 0 tx = .ok (n', acts)) :
    n' = n ∧ ∀ act ∈ acts,
      (act = .lookupPublishSuccess key n.successorAddr tx ∧ n.inOwnArc (keyPos key)) ∨
        ∃ hop, n.findNextHop (sha1Key key) = .ok hop ∧
          act = .sendTo hop ⟨tx, .lookupPublish 0 n.localAddress (sha1Key key) key⟩ := by
  rw [lookupPublish_eq_steps] at h
  cases hsteps : n.lookupPublishSteps key 0 tx with
  | error f =>
      rw [hsteps] at h
      cases h
  | ok steps =>
      rw [hsteps] at h
      cases h
      obtain ⟨answers, hop, hhop, rfl, hall, harc⟩ := lookupPublishSteps_spec hsteps
      refine ⟨rfl, fun act hact => ?_⟩
      obtain ⟨s, hs, hact⟩ := List.mem_flatMap.mp hact
      rcases List.mem_append.mp hs with hs | hs
      · rw [hall s hs] at hact
        exact Or.inl ⟨List.mem_singleton.mp hact, harc.mp (List.ne_nil_of_mem hs)⟩
      · rw [List.mem_singleton.mp hs] at hact
        exact Or.inr ⟨hop, hhop, List.mem_singleton.mp hact⟩

end ChordNode

/-! ## One turn of the Chord layer -/

theorem NextOnce.ownsOnce {a b : Ipv4Address} {key : CxxString} (h : NextOnce R X a b)
    (harc : InArc (nodePos a) (nodePos b) (keyPos key)) (hne : nodePos a ≠ keyPos key) :
    OwnsOnce R X b key := by
  rcases h with h | h
  · exact Or.inl (h.isOwner harc fun heq => absurd heq hne)
  · exact Or.inr (h.isOwner harc fun heq => absurd heq hne)

namespace Arriving

variable {issued : Bool} {c c₀ c' : ChordNet} {e : ChordEvent} {a : Ipv4Address} {n : ChordNode}
  {acts : List ChordAction}

theorem hop_mem (h : Arriving R X w K issued c) (hsite : JoinSite R X)
    (ha : a ∈ present R X c.view) {target : Digest} {hop : Ipv4Address}
    (hhop : (c.node a).findNextHop target = .ok hop) : hop ∈ present R X c.view := by
  rcases ChordNode.findNextHop_spec hhop with rfl | ⟨⟨i, hi⟩, -⟩
  · exact h.phase.successor_mem hsite ha
  · exact h.fingers a (present_subset _ ha) i hop hi

theorem ownsOnce (h : Arriving R X w K issued c) (ha : a ∈ present R X c.view) {key : CxxString}
    (hkey : Apart R X key) (harc : (c.node a).inOwnArc (keyPos key)) :
    OwnsOnce R X (c.node a).successorAddr key := by
  have harc' : InArc (nodePos a) (nodePos (c.node a).successorAddr) (keyPos key) := by
    simpa only [ChordNode.inOwnArc, h.localAddress a] using harc
  exact (h.phase.takesPart ha).successor.ownsOnce harc' (hkey a (present_subset _ ha))

theorem recv_request (h : Arriving R X w K issued c) (hsite : JoinSite R X)
    (hK : ∀ key, K key → Apart R X key) {p : ChordPacket} {target : Digest}
    (hp : Errand R X w K (present R X c.view) p) (htarget : p.msg.target = some target)
    (hkind : p.msg.payload.kind ≠ .pointers)
    (hr : (c.node p.dst).recvMessage p.msg p.src = .ok (n, acts)) :
    n = c.node p.dst ∧ ∀ q ∈ sentPackets p.dst acts, Errand R X w K (present R X c.view) q := by
  obtain ⟨src, dst, tx, payload⟩ := p
  obtain ⟨rfl, ⟨harc, rfl⟩ | ⟨-, hop, hhop, rfl⟩⟩ :=
    ChordNode.recvMessage_target_cases _ _ htarget hr
  · refine ⟨rfl, fun q hq => ?_⟩
    obtain ⟨-, -, hact⟩ := mem_sentPackets.mp hq
    obtain ⟨hdst, hmsg⟩ := ChordAction.sendTo.inj (List.mem_singleton.mp hact)
    cases payload with
    | findFinger targetAddress digest i =>
        rw [Errand, hmsg]
        exact ⟨hdst ▸ hp.2, h.phase.successor_mem hsite hp.1⟩
    | lookupPublish flag initiator digest key =>
        obtain ⟨hmem, rfl, rfl, rfl, hkey⟩ := hp
        obtain rfl := Option.some.inj htarget
        rw [Errand, hmsg]
        exact ⟨hdst, rfl, hkey, h.ownsOnce hmem (hK key hkey) harc⟩
    | findSuccessor x t => exact absurd rfl hkind
    | _ => cases htarget
  · refine ⟨rfl, fun q hq => ?_⟩
    obtain ⟨-, -, hact⟩ := mem_sentPackets.mp hq
    obtain ⟨hdst, hmsg⟩ := ChordAction.sendTo.inj (List.mem_singleton.mp hact)
    cases payload with
    | findFinger targetAddress digest i =>
        rw [Errand, hmsg]
        exact ⟨hdst ▸ h.hop_mem hsite hp.1 hhop, hp.2⟩
    | lookupPublish flag initiator digest key =>
        rw [Errand, hmsg]
        exact ⟨hdst ▸ h.hop_mem hsite hp.1 hhop, hp.2⟩
    | findSuccessor x t => exact absurd rfl hkind
    | _ => cases htarget

theorem errands_findFinger {A : Finset Ipv4Address} {b : Ipv4Address} (ha : a ∈ insert X R)
    (hacts : ∀ act ∈ acts, ∃ finger tx indexHash i, finger ∈ A ∧
      act = .sendTo finger ⟨tx, .findFinger a indexHash i⟩) :
    (∀ p ∈ sentPackets b acts, Errand R X w K A p) ∧
      ∀ act ∈ acts, Reported R X w K b act := by
  constructor
  · intro p hp
    obtain ⟨-, -, hact⟩ := mem_sentPackets.mp hp
    obtain ⟨finger, tx, indexHash, i, hfinger, heq⟩ := hacts _ hact
    obtain ⟨hdst, hmsg⟩ := ChordAction.sendTo.inj heq
    rw [Errand, hmsg]
    exact ⟨hdst ▸ hfinger, ha⟩
  · intro act hact
    obtain ⟨finger, tx, indexHash, i, -, rfl⟩ := hacts act hact
    trivial

theorem errands_of_kind {A : Finset Ipv4Address}
    (hturn : c.turn e = some (c₀, a, .ok (n, acts)))
    (hkind : c.eventKind e ≠ some .fingers ∧ c.eventKind e ≠ some .lookups) :
    (∀ p ∈ sentPackets a acts, Errand R X w K A p) ∧
      ∀ act ∈ acts, Reported R X w K a act := by
  have hacts := ChordNet.turn_kind hturn
  constructor
  · intro p hp
    obtain ⟨-, -, hact⟩ := mem_sentPackets.mp hp
    have heq := hacts _ hact
    exact errand_of_kind (fun h => hkind.1 (heq.trans (congrArg some h)))
      fun h => hkind.2 (heq.trans (congrArg some h))
  · intro act hact
    exact reported_of_kind fun h => hkind.2 ((hacts act hact).trans (congrArg some h))

/-- A delivery keeps the fingers and the errands among the nodes that are on the ring. -/
theorem recv (h : Arriving R X w K issued c) (hsite : JoinSite R X)
    (hK : ∀ key, K key → Apart R X key) {p : ChordPacket} (hp : p ∈ c.inFlight)
    (hr : (c.node p.dst).recvMessage p.msg p.src = .ok (n, acts)) :
    (p.dst ∈ insert X R → n.FingersIn (· ∈ present R X c.view)) ∧
      (∀ q ∈ sentPackets p.dst acts, Errand R X w K (present R X c.view) q) ∧
        ∀ act ∈ acts, Reported R X w K p.dst act := by
  have herrand := h.errands p hp
  have hkind := ChordNode.recvMessage_kind hr
  obtain ⟨src, dst, tx, payload⟩ := p
  have hplain : payload.kind ≠ .fingers → payload.kind ≠ .lookups →
      (dst ∈ insert X R → n.FingersIn (· ∈ present R X c.view)) ∧
        (∀ q ∈ sentPackets dst acts, Errand R X w K (present R X c.view) q) ∧
          ∀ act ∈ acts, Reported R X w K dst act := by
    intro hfingers hlookups
    have htable := ChordNode.recvMessage_fingerTable
      (fun finger i heq => hfingers (congrArg ChordPayload.kind heq)) hr
    refine ⟨fun ha i finger hfinger => h.fingers dst ha i finger (htable ▸ hfinger),
      fun q hq => ?_, fun act hact => ?_⟩
    · obtain ⟨-, -, hact⟩ := mem_sentPackets.mp hq
      have heq := hkind _ hact
      exact errand_of_kind (fun h => hfingers (heq.symm.trans h))
        fun h => hlookups (heq.symm.trans h)
    · exact reported_of_kind fun h => hlookups ((hkind act hact).symm.trans h)
  have hrequest : ∀ {target}, (⟨tx, payload⟩ : PennChordMessage).target = some target →
      payload.kind ≠ .pointers →
      (dst ∈ insert X R → n.FingersIn (· ∈ present R X c.view)) ∧
        (∀ q ∈ sentPackets dst acts, Errand R X w K (present R X c.view) q) ∧
          ∀ act ∈ acts, Reported R X w K dst act := by
    intro target htarget hpointers
    obtain ⟨rfl, hsent⟩ := h.recv_request hsite hK herrand htarget hpointers hr
    refine ⟨fun ha => h.fingers dst ha, hsent, fun act hact => ?_⟩
    obtain ⟨-, ⟨-, rfl⟩ | ⟨-, hop, -, rfl⟩⟩ :=
      ChordNode.recvMessage_target_cases _ _ htarget hr
    · rw [List.mem_singleton.mp hact]
      trivial
    · rw [List.mem_singleton.mp hact]
      trivial
  cases payload with
  | findFinger target digest i => exact hrequest rfl (by simp [ChordPayload.kind])
  | lookupPublish flag initiator digest key => exact hrequest rfl (by simp [ChordPayload.kind])
  | findFingerSuccess finger i =>
      obtain ⟨hdst, hfinger⟩ := herrand
      have hloop : { c.node dst with
          fingerTable := (c.node dst).fingerTable.insert i finger }.sendFindFingerLoop _ =
            .ok (n, acts) := hr
      obtain ⟨hfingers, hacts⟩ := ChordNode.sendFindFingerLoop_fingersIn _ hloop
        ((h.fingers dst hdst).insert i hfinger)
      dsimp only at hacts
      rw [h.localAddress dst] at hacts
      exact ⟨fun _ => hfingers, errands_findFinger hdst hacts⟩
  | lookupPublishSuccess flag key responsible =>
      obtain ⟨hdst, rfl, hkey, howns⟩ := herrand
      cases hr
      refine ⟨fun ha => h.fingers dst ha, by simp [sentPackets, ChordNode.lookupCallback],
        fun act hact => ?_⟩
      rw [List.mem_singleton.mp hact]
      exact ⟨hdst, hkey, howns⟩
  | _ => exact hplain (by simp [ChordPayload.kind]) (by simp [ChordPayload.kind])

/-- A turn keeps the fingers and the errands among the nodes that are on the ring. -/
theorem turn (h : Arriving R X w K issued c) (hsite : JoinSite R X)
    (hK : ∀ key, K key → Apart R X key)
    (he : c.Ordinary e ∨ ∃ b nodeAddr, e = .join b nodeAddr)
    (hlookup : Calls R X w K c e)
    (hturn : c.turn e = some (c₀, a, .ok (n, acts))) :
    (a ∈ insert X R → n.FingersIn (· ∈ present R X c.view)) ∧
      (∀ p ∈ sentPackets a acts, Errand R X w K (present R X c.view) p) ∧
        ∀ act ∈ acts, Reported R X w K a act := by
  have hstays : n.fingerTable = (c.node a).fingerTable →
      a ∈ insert X R → n.FingersIn (· ∈ present R X c.view) := by
    intro htable ha i finger hfinger
    exact h.fingers a ha i finger (htable ▸ hfinger)
  have hpresent : (c.node a).chordStatus = true → a ∈ present R X c.view := by
    intro hstatus
    by_contra hnot
    have hout : (c.node a).chordStatus = false := h.phase.outside hnot
    rw [hstatus] at hout
    cases hout
  cases e with
  | join b nodeAddr =>
      obtain ⟨rfl, rfl, hr⟩ : _ = _ ∧ _ = _ ∧ _ = _ := by simpa [ChordNet.turn] using hturn
      refine ⟨hstays ?_, errands_of_kind hturn ⟨by simp [ChordNet.eventKind],
        by simp [ChordNet.eventKind]⟩⟩
      rw [← (c.node b).processJoinCommand_fingerTable nodeAddr, hr]
  | stabilize b =>
      obtain ⟨rfl, rfl, hr⟩ : _ = _ ∧ _ = _ ∧ _ = _ := by simpa [ChordNet.turn] using hturn
      refine ⟨hstays ?_, errands_of_kind hturn ⟨by simp [ChordNet.eventKind],
        by simp [ChordNet.eventKind]⟩⟩
      rw [← (c.node b).stabilize_fingerTable, hr]
  | fixFinger b =>
      simp only [ChordNet.turn] at hturn
      split at hturn
      · obtain ⟨rfl, rfl, hr⟩ : _ = _ ∧ _ = _ ∧ _ = _ := by simpa using hturn
        by_cases hb : b ∈ insert X R
        · obtain ⟨hfingers, hacts⟩ := ChordNode.fixFinger_fingersIn hr (h.fingers b hb)
            fun hstatus => h.phase.successor_mem hsite (hpresent hstatus)
          rw [h.localAddress b] at hacts
          exact ⟨fun _ => hfingers, errands_findFinger hb hacts⟩
        · rcases ChordNode.fixFinger_cases hr with ⟨-, -, rfl⟩ | ⟨hstatus, -, -⟩
          · exact ⟨fun ha => absurd ha hb, by simp [sentPackets], by simp⟩
          · exact absurd (present_subset _ (hpresent hstatus)) hb
      · cases hturn
  | lookupPublish b key flag tx =>
      obtain ⟨rfl, rfl, hr⟩ : _ = _ ∧ _ = _ ∧ _ = _ := by simpa [ChordNet.turn] using hturn
      obtain ⟨rfl, rfl, hkey, hb⟩ := hlookup
      obtain ⟨rfl, hacts⟩ := ChordNode.lookupPublish_cases hr
      refine ⟨hstays rfl, fun p hp => ?_, fun act hact => ?_⟩
      · obtain ⟨-, -, hact⟩ := mem_sentPackets.mp hp
        rcases hacts _ hact with ⟨heq, -⟩ | ⟨hop, hhop, heq⟩
        · cases heq
        · obtain ⟨hdst, hmsg⟩ := ChordAction.sendTo.inj heq
          rw [Errand, hmsg]
          exact ⟨hdst ▸ h.hop_mem hsite hb hhop, rfl, h.localAddress b, rfl, hkey⟩
      · rcases hacts act hact with ⟨rfl, harc⟩ | ⟨hop, -, rfl⟩
        · exact ⟨rfl, hkey, h.ownsOnce hb (hK key hkey) harc⟩
        · trivial
  | deliver k =>
      cases hp : c.inFlight[k]? with
      | none => simp [ChordNet.turn, hp] at hturn
      | some p =>
          rw [ChordNet.turn_deliver hp] at hturn
          obtain ⟨rfl, rfl, hr⟩ : _ = _ ∧ _ = _ ∧ _ = _ := by simpa using hturn
          exact h.recv hsite hK (mem_of_getElem? hp) hr
  | leave b => rcases he with he | ⟨b', nodeAddr, heq⟩ <;> first | exact he.elim | cases heq
  | ringstate b => rcases he with he | ⟨b', nodeAddr, heq⟩ <;> first | exact he.elim | cases heq

theorem hopsIn (h : Arriving R X w K issued c) (e : ChordEvent) :
    c.HopsIn (fun a b => a ∈ insert X R → b ∈ present R X c.view) e :=
  ChordNet.hopsIn_of_fingersIn (fun a i finger hfinger ha => h.fingers a ha i finger hfinger) e

/-- A step that takes the join to a later phase. -/
theorem carry {issued' : Bool} (h : Arriving R X w K issued c) (hsite : JoinSite R X)
    (hK : ∀ key, K key → Apart R X key)
    (he : c.Ordinary e ∨ ∃ b nodeAddr, e = .join b nodeAddr)
    (hlookup : Calls R X w K c e)
    (hstep : c.stepActions e = .ok (c', acts)) (hphase : JoinPhase R X issued' c'.view)
    (hpresent : present R X c.view ⊆ present R X c'.view) :
    Arriving R X w K issued' c' ∧ ∀ act ∈ acts, Reported R X w K (c.actor e) act := by
  obtain ⟨-, hlocal⟩ := ChordNet.stepActions_view h.localAddress (h.hopsIn e) hstep
  rcases ChordNet.stepActions_cases hstep with ⟨-, rfl, rfl⟩ | ⟨c₀, a, n, hturn, rfl⟩
  · exact ⟨⟨hphase, h.localAddress, h.fingers, h.errands⟩, by simp⟩
  · obtain ⟨hfingers, hsent, hreported⟩ := h.turn hsite hK he hlookup hturn
    refine ⟨⟨hphase, hlocal, fun b hb => ?_, fun p hp => ?_⟩, ?_⟩
    · intro i finger hfinger
      rw [Net.act_node] at hfinger
      split at hfinger
      · rename_i hba
        exact hpresent (hfingers (hba ▸ hb) i finger hfinger)
      · rw [ChordNet.turn_node hturn] at hfinger
        exact hpresent (h.fingers b hb i finger hfinger)
    · rcases List.mem_append.mp hp with hp | hp
      · exact (h.errands p (ChordNet.turn_inFlight_subset hturn p hp)).mono hpresent fun _ => id
      · exact (hsent p hp).mono hpresent fun _ => id
    · rw [ChordNet.turn_actor hturn]
      exact hreported

/-- The invariant along the ordinary events. -/
theorem step (h : Arriving R X w K issued c) (hsite : JoinSite R X)
    (hK : ∀ key, K key → Apart R X key) (he : c.Ordinary e)
    (hlookup : Calls R X w K c e)
    (hstep : c.stepActions e = .ok (c', acts)) :
    (Arriving R X w K issued c' ∧ ∀ act ∈ acts, Reported R X w K (c.actor e) act) ∧
      present R X c.view ⊆ present R X c'.view := by
  obtain ⟨⟨q, hturn, hview⟩, -⟩ := ChordNet.stepActions_view h.localAddress (h.hopsIn e) hstep
  obtain ⟨hphase, hpresent⟩ := h.phase.step hsite
    (fun a ha hop hhop => hhop (present_subset _ ha)) he.view ⟨_, q, _, hturn, hview⟩
  exact ⟨h.carry hsite hK (Or.inl he) hlookup hstep hphase hpresent, hpresent⟩

theorem join (h : Arriving R X w K false c) (hsite : JoinSite R X)
    (hK : ∀ key, K key → Apart R X key) {L : Ipv4Address} (hL : L ∈ R)
    (hstep : c.stepActions (.join X L) = .ok (c', acts)) :
    Arriving R X w K true c' ∧ ∀ act ∈ acts, Reported R X w K X act := by
  obtain ⟨⟨q, hturn, hview⟩, -⟩ :=
    ChordNet.stepActions_view h.localAddress (h.hopsIn (.join X L)) hstep
  obtain ⟨hphase, hpresent⟩ := h.phase.join hsite.newcomer hL ⟨_, q, _, hturn, hview⟩
  exact h.carry hsite hK (Or.inr ⟨X, L, rfl⟩) trivial hstep hphase hpresent

end Arriving

/-! ## Lookups under way -/

def ChordPayload.lookupKey : ChordPayload → Option CxxString
  | .lookupPublish _ _ _ key => some key
  | .lookupPublishSuccess _ key _ => some key
  | _ => none

def ChordNet.Looking (c : ChordNet) (key : CxxString) : Prop :=
  ∃ p ∈ c.inFlight, p.msg.payload.lookupKey = some key

namespace Arriving

variable {issued : Bool} {c c' : ChordNet} {e : ChordEvent} {acts : List ChordAction}
  {key : CxxString}

/-- A lookup goes on, until the search layer of its node is told. -/
theorem looking (h : Arriving R X w K issued c) (hsite : JoinSite R X) (hw : w ∈ insert X R)
    (hstep : c.stepActions e = .ok (c', acts)) (hlooking : c.Looking key) :
    c'.Looking key ∨ ∃ b tx, .lookupPublishSuccess key b tx ∈ acts := by
  obtain ⟨p, hp, hkey⟩ := hlooking
  rcases ChordNet.stepActions_cases hstep with ⟨-, rfl, -⟩ | ⟨c₀, a, n, hturn, rfl⟩
  · exact Or.inl ⟨p, hp, hkey⟩
  · rcases ChordNet.turn_inFlight hturn with hsame | ⟨k, q, rfl, hq, herase⟩
    · exact Or.inl ⟨p, List.mem_append_left _ (hsame ▸ hp), hkey⟩
    · by_cases hpq : p = q
      · subst hpq
        rw [ChordNet.turn_deliver hq] at hturn
        obtain ⟨rfl, rfl, hr⟩ : _ = _ ∧ _ = _ ∧ _ = _ := by simpa using hturn
        have herrand := h.errands p hp
        obtain ⟨src, dst, tx, payload⟩ := p
        cases payload with
        | lookupPublish flag initiator digest key' =>
            obtain ⟨hdst, rfl, rfl, rfl, -⟩ := herrand
            obtain rfl := Option.some.inj hkey
            left
            obtain ⟨-, ⟨-, rfl⟩ | ⟨-, hop, hhop, rfl⟩⟩ :=
              ChordNode.recvMessage_target_cases _ _ rfl hr
            · refine ⟨⟨dst, initiator, ⟨tx, .lookupPublishSuccess 0 key' _⟩⟩,
                List.mem_append_right _ (mem_sentPackets.mpr ⟨rfl, ?_, List.mem_singleton_self _⟩),
                rfl⟩
              exact hsite.ne_getAny hw
            · refine ⟨⟨dst, hop, ⟨tx, .lookupPublish 0 initiator (sha1Key key') key'⟩⟩,
                List.mem_append_right _ (mem_sentPackets.mpr ⟨rfl, ?_, List.mem_singleton_self _⟩),
                rfl⟩
              exact hsite.ne_getAny (present_subset _ (h.hop_mem hsite hdst hhop))
        | lookupPublishSuccess flag key' responsible =>
            obtain ⟨-, rfl, -, -⟩ := herrand
            obtain rfl := Option.some.inj hkey
            cases hr
            exact Or.inr ⟨responsible, tx, List.mem_singleton_self _⟩
        | _ => cases hkey
      · exact Or.inl ⟨p, List.mem_append_left _ (herase ▸ mem_eraseIdx_of_ne hq hp hpq), hkey⟩

theorem looking_of_call (h : Arriving R X w K issued c) (hsite : JoinSite R X)
    (hw : w ∈ present R X c.view) {tx : UInt32}
    (hstep : c.stepActions (.lookupPublish w key 0 tx) = .ok (c', acts)) :
    c'.Looking key := by
  rcases ChordNet.stepActions_cases hstep with ⟨hnone, -, -⟩ | ⟨c₀, a, n, hturn, rfl⟩
  · cases hnone
  · obtain ⟨rfl, rfl, hr⟩ : _ = _ ∧ _ = _ ∧ _ = _ := by simpa [ChordNet.turn] using hturn
    obtain ⟨-, hop, hhop, hsent⟩ := ChordNode.lookupPublish_sends hr w
    have hhop' := present_subset _ (h.hop_mem hsite hw hhop)
    refine ⟨⟨w, hop, ⟨tx, .lookupPublish 0 (c.node w).localAddress (sha1Key key) key⟩⟩, ?_, rfl⟩
    refine List.mem_append_right _ (hsent ▸ mem_sentPackets.mpr ⟨rfl, ?_, ?_⟩)
    · exact hsite.ne_getAny hhop'
    · exact List.mem_singleton_self _

end Arriving

end PennSearch
