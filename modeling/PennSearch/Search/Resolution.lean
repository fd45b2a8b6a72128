import PennSearch.Chord.Lookup
import PennSearch.Chord.Stabilization
import PennSearch.Chord.Kinds
import PennSearch.Search.Postings

/-!
# How often a lookup is answered

`LookupPublish` answers a lookup itself when the key lies on the arc from the
node to its successor, and goes on to send the lookup in every case. So a lookup
of a key on the caller's own arc is answered by the caller, and once more by the
node that the request reaches. Every other lookup is answered once: along a run
on a stable ring the answers and the packet in flight are balanced.
-/

namespace PennSearch

open Clockwise MessagePassing

/-- What `LookupPublish` calls, in order. -/
inductive LookupStep
  | lookupCallback (flag : UInt16) (key : CxxString) (addressResponsible : Ipv4Address)
      (transactionId : UInt32)
  | sendTo (destAddress : Ipv4Address) (message : PennChordMessage)
deriving DecidableEq

namespace LookupStep

def actions : LookupStep → List ChordAction
  | .lookupCallback flag key addressResponsible transactionId =>
      ChordNode.lookupCallback flag key addressResponsible transactionId
  | .sendTo destAddress message => [.sendTo destAddress message]

def answer : LookupStep → Option Ipv4Address
  | .lookupCallback _ _ addressResponsible _ => some addressResponsible
  | .sendTo _ _ => none

end LookupStep

variable [Sha1]

namespace ChordNode

/-- `LookupPublish` as the sequence of its calls. A flag above 2 makes
`LookupCallback` do nothing, which its actions do not show. -/
def lookupPublishSteps (n : ChordNode) (key : CxxString) (flag : UInt16)
    (transactionId : UInt32) : Except Fault (List LookupStep) := do
  let digestkey := sha1Key key
  let resolve := LookupStep.lookupCallback flag key n.successorAddr transactionId
  let first :=
    if compareSHA1 n.localDigest n.successorDigest ≠ 0 ∧
        (compareSHA1 digestkey n.localDigest ≠ 0 ∨ compareSHA1 n.successorDigest digestkey ≠ 0)
    then [resolve] else []
  let second :=
    if compareSHA1 n.successorDigest digestkey ≠ 0 ∧ compareSHA1 digestkey n.localDigest ≠ 0
    then [resolve] else []
  let nextHopAddr ← n.findNextHop digestkey
  return first ++ second ++
    [.sendTo nextHopAddr ⟨transactionId, .lookupPublish flag n.localAddress digestkey key⟩]

variable {n : ChordNode} {key : CxxString} {flag : UInt16} {tx : UInt32}

theorem lookupPublish_eq_steps (n : ChordNode) (key : CxxString) (flag : UInt16)
    (transactionId : UInt32) :
    n.lookupPublish key flag transactionId =
      (fun steps => (n, steps.flatMap LookupStep.actions)) <$>
        n.lookupPublishSteps key flag transactionId := by
  simp only [lookupPublish, lookupPublishSteps]
  cases n.findNextHop (sha1Key key) with
  | error f => rfl
  | ok hop =>
      have hite : ∀ (p : Prop) [Decidable p] (s : LookupStep),
          (if p then [s] else []).flatMap LookupStep.actions = if p then s.actions else [] := by
        intro p _ s
        split <;> simp
      change Except.ok _ = Except.ok _
      dsimp only
      rw [List.flatMap_append, List.flatMap_append, hite, hite]
      rfl

omit [Sha1] in
theorem lookupPublish_tests_iff (a b t : Fin (2 ^ 160)) :
    (b ≤ a ∧ (a ≤ t ∨ t ≤ b)) ∨ (t ≤ b ∧ a ≤ t) ↔ InArc a b t := by
  rw [← inArc_iff_branch]
  split
  · rename_i hba
    constructor
    · rintro (⟨-, h⟩ | ⟨-, h⟩)
      · exact h
      · exact Or.inl h
    · exact fun h => Or.inl ⟨hba, h⟩
  · rename_i hba
    constructor
    · rintro (⟨h, -⟩ | h)
      · exact absurd h hba
      · exact h
    · exact Or.inr

def localAnswers (n : ChordNode) (key : CxxString) (flag : UInt16) (transactionId : UInt32) :
    List Ipv4Address :=
  match n.lookupPublishSteps key flag transactionId with
  | .ok steps => steps.filterMap LookupStep.answer
  | .error _ => []

/-- What is called: the successor is the answer if the key lies on the own arc,
and the lookup is sent whether it does or not. -/
theorem lookupPublishSteps_spec {steps : List LookupStep}
    (h : n.lookupPublishSteps key flag tx = .ok steps) :
    ∃ (answers : List LookupStep) (hop : Ipv4Address), n.findNextHop (sha1Key key) = .ok hop ∧
      steps = answers ++ [.sendTo hop ⟨tx, .lookupPublish flag n.localAddress (sha1Key key) key⟩] ∧
      (∀ s ∈ answers, s = .lookupCallback flag key n.successorAddr tx) ∧
      (answers ≠ [] ↔ n.inOwnArc (sha1Key key).pos) := by
  simp only [lookupPublishSteps] at h
  cases hhop : n.findNextHop (sha1Key key) with
  | error f =>
      rw [hhop] at h
      cases h
  | ok hop =>
      rw [hhop] at h
      cases h
      refine ⟨_, hop, rfl, rfl, ?_, ?_⟩
      · intro s hs
        rcases List.mem_append.mp hs with hs | hs
        · split at hs
          · exact List.mem_singleton.mp hs
          · cases hs
        · split at hs
          · exact List.mem_singleton.mp hs
          · cases hs
      · unfold inOwnArc
        rw [← lookupPublish_tests_iff, ne_eq, List.append_eq_nil_iff, not_and_or]
        simp only [compareSHA1_ne_zero_iff]
        apply or_congr
        · split
          · rename_i htest
            exact iff_of_true (by simp) htest
          · rename_i htest
            exact iff_of_false (by simp) htest
        · split
          · rename_i htest
            exact iff_of_true (by simp) htest
          · rename_i htest
            exact iff_of_false (by simp) htest

theorem lookupPublishSteps_isOk (key : CxxString) (flag : UInt16) (tx : UInt32)
    (h : ¬ n.fingerTable.isEmpty) : ∃ steps, n.lookupPublishSteps key flag tx = .ok steps := by
  obtain ⟨hop, hhop⟩ := findNextHop_isOk (sha1Key key) h
  simp only [lookupPublishSteps, hhop]
  exact ⟨_, rfl⟩

theorem localAnswers_eq_nil_iff (flag : UInt16) (tx : UInt32) (h : ¬ n.fingerTable.isEmpty) :
    n.localAnswers key flag tx = [] ↔ ¬ n.inOwnArc (sha1Key key).pos := by
  obtain ⟨steps, hsteps⟩ := lookupPublishSteps_isOk key flag tx h
  obtain ⟨answers, hop, -, rfl, hall, hown⟩ := lookupPublishSteps_spec hsteps
  rw [localAnswers, hsteps, ← hown, not_not]
  dsimp only
  rw [List.filterMap_append, List.append_eq_nil_iff,
    and_iff_left (show [LookupStep.sendTo hop _].filterMap LookupStep.answer = [] from rfl),
    List.filterMap_eq_nil_iff]
  constructor
  · intro hnone
    rw [List.eq_nil_iff_forall_not_mem]
    intro s hs
    have hanswer := hnone s hs
    rw [hall s hs] at hanswer
    cases hanswer
  · rintro rfl s hs
    cases hs

omit [Sha1] in
theorem sentPackets_lookupCallback (src : Ipv4Address) (flag : UInt16) (key : CxxString)
    (b : Ipv4Address) (tx : UInt32) : sentPackets src (lookupCallback flag key b tx) = [] := by
  unfold lookupCallback
  split_ifs <;> rfl

theorem lookupPublish_sends {n' : ChordNode} {acts : List ChordAction}
    (h : n.lookupPublish key flag tx = .ok (n', acts)) (src : Ipv4Address) :
    n' = n ∧ ∃ hop, n.findNextHop (sha1Key key) = .ok hop ∧
      sentPackets src acts = sentPackets src
        [.sendTo hop ⟨tx, .lookupPublish flag n.localAddress (sha1Key key) key⟩] := by
  rw [lookupPublish_eq_steps] at h
  cases hsteps : n.lookupPublishSteps key flag tx with
  | error f =>
      rw [hsteps] at h
      cases h
  | ok steps =>
      rw [hsteps] at h
      cases h
      obtain ⟨answers, hop, hhop, rfl, hall, -⟩ := lookupPublishSteps_spec hsteps
      refine ⟨rfl, hop, hhop, ?_⟩
      have hnone : sentPackets src (answers.flatMap LookupStep.actions) = [] := by
        rw [sentPackets, List.filterMap_flatMap, List.flatMap_eq_nil_iff]
        intro s hs
        rw [hall s hs]
        exact sentPackets_lookupCallback src flag key _ tx
      have happend : ∀ l l', sentPackets src (l ++ l') = sentPackets src l ++ sentPackets src l' :=
        fun _ _ => List.filterMap_append
      rw [List.flatMap_append, happend, hnone]
      rfl

/-- `ProcessLookupPublish` answers, and does not hand the request on. -/
def Replies (n : ChordNode) (message : PennChordMessage) (flag : UInt16)
    (initiatorAddress : Ipv4Address) (keyDigest : Digest) (key : CxxString) : Prop :=
  n.processLookupPublish message flag initiatorAddress keyDigest key =
    .ok (n, [n.replyLookupPublishSuccess message flag initiatorAddress key])

theorem replies_iff {message : PennChordMessage} {initiatorAddress : Ipv4Address}
    {keyDigest : Digest} :
    n.Replies message flag initiatorAddress keyDigest key ↔ n.inOwnArc keyDigest.pos := by
  unfold Replies
  rw [processLookupPublish_eq]
  split
  · rename_i hown
    exact iff_of_true rfl hown
  · rename_i hout
    refine iff_of_false (fun h => ?_) hout
    unfold sendLookupPublish at h
    cases hhop : n.findNextHop keyDigest with
    | error f =>
        rw [hhop] at h
        cases h
    | ok hop =>
        rw [hhop] at h
        simp [replyLookupPublishSuccess, bind, Except.bind, pure, Except.pure] at h

/-- `LookupPublish` calls back once and sends nothing, or sends one request and
does not call back; and it calls back when `ProcessLookupPublish` would answer. -/
def OneResolution (n : ChordNode) (key : CxxString) (flag : UInt16)
    (transactionId : UInt32) : Prop :=
  ∃ steps, n.lookupPublishSteps key flag transactionId = .ok steps ∧
    ((∃ b, steps = [.lookupCallback flag key b transactionId]) ∨
      ∃ hop, steps =
        [.sendTo hop ⟨transactionId, .lookupPublish flag n.localAddress (sha1Key key) key⟩]) ∧
    ∀ message flag' initiatorAddress key',
      (∃ s ∈ steps, s.answer.isSome) ↔
        n.Replies message flag' initiatorAddress (sha1Key key) key'

theorem oneResolution_iff (h : ¬ n.fingerTable.isEmpty) :
    n.OneResolution key flag tx ↔ ¬ n.inOwnArc (sha1Key key).pos := by
  obtain ⟨steps, hsteps⟩ := lookupPublishSteps_isOk key flag tx h
  obtain ⟨answers, hop, -, rfl, hall, hown⟩ := lookupPublishSteps_spec hsteps
  constructor
  · rintro ⟨steps', hsteps', hone, -⟩ hin
    obtain rfl := Except.ok.inj (hsteps.symm.trans hsteps')
    -- a callback and a request are two calls
    have hlen : 2 ≤ (answers ++ [LookupStep.sendTo hop
        ⟨tx, .lookupPublish flag n.localAddress (sha1Key key) key⟩]).length := by
      have hpos := List.length_pos_iff.mpr (hown.mpr hin)
      rw [List.length_append, List.length_singleton]
      omega
    rcases hone with ⟨b, hb⟩ | ⟨hop', hhop'⟩
    · rw [hb] at hlen
      simp at hlen
    · rw [hhop'] at hlen
      simp at hlen
  · intro hout
    obtain rfl : answers = [] := not_not.mp (mt hown.mp hout)
    refine ⟨_, hsteps, Or.inr ⟨hop, rfl⟩, fun message flag' initiatorAddress key' => ?_⟩
    rw [replies_iff]
    refine iff_of_false ?_ hout
    simp [LookupStep.answer]

end ChordNode

/-! ## The packet of a lookup -/

/-- The packet belongs to the lookup that `a` started under `tx`: a request of
`a`, or an answer to `a`. -/
def ofLookup (a : Ipv4Address) (tx : UInt32) (p : ChordPacket) : Bool :=
  p.msg.transactionId = tx &&
    match p.msg.payload with
    | .lookupPublish _ initiatorAddress _ _ => initiatorAddress = a
    | .lookupPublishSuccess _ _ _ => p.dst = a
    | _ => false

def answered (p : ChordPacket) : List Ipv4Address :=
  match p.msg.payload with
  | .lookupPublishSuccess _ _ addressResponsible => [addressResponsible]
  | _ => []

/-- A bound on the deliveries that are left to the packet of a lookup. -/
def deliveriesLeft (R : Finset Ipv4Address) (p : ChordPacket) : ℕ :=
  match p.msg.payload with
  | .lookupPublish _ _ lookupDigest _ => (closerMembers R lookupDigest.pos p.dst).card + 2
  | _ => 1

/-- What has become of a lookup: the answers that the caller was called back
with, and the number of times that a packet of the lookup was delivered. -/
structure LookupTally where
  answers : List Ipv4Address
  deliveries : ℕ
deriving DecidableEq

namespace ChordNet

def noteLookup (a : Ipv4Address) (tx : UInt32) (c : ChordNet) (e : ChordEvent)
    (t : LookupTally) : LookupTally :=
  match e with
  | .lookupPublish b key flag transactionId =>
      if b = a ∧ transactionId = tx then
        { t with answers := t.answers ++ (c.node b).localAnswers key flag transactionId }
      else t
  | .deliver k =>
      match c.inFlight[k]? with
      | none => t
      | some p => if ofLookup a tx p then ⟨t.answers ++ answered p, t.deliveries + 1⟩ else t
  | _ => t

/-- A stable ring whose fingers are members. -/
structure OnStableRing (c : ChordNet) (R : Finset Ipv4Address) : Prop where
  ring : StableRing c.node R
  fingers : FingersWithin c.node R
  localAddress : ∀ a, (c.node a).localAddress = a

/-- The ring is stable when the event happens, and no lookup of `a` starts under
the transaction id `tx`. Everything else may happen. -/
def RingStays (R : Finset Ipv4Address) (a : Ipv4Address) (tx : UInt32) (c : ChordNet)
    (e : ChordEvent) : Prop :=
  c.OnStableRing R ∧ ∀ key flag, e ≠ .lookupPublish a key flag tx

def lookupPackets (a : Ipv4Address) (tx : UInt32) (c : ChordNet) : ℕ :=
  c.inFlight.countP (ofLookup a tx)

variable {c c' c₀ : ChordNet} {R : Finset Ipv4Address} {a : Ipv4Address} {tx : UInt32}
  {e : ChordEvent} {t : LookupTally} {p : ChordPacket}

theorem noteLookup_lookupPublish (c : ChordNet) (a : Ipv4Address) (tx : UInt32) (key : CxxString)
    (flag : UInt16) (t : LookupTally) :
    c.noteLookup a tx (.lookupPublish a key flag tx) t =
      ⟨t.answers ++ (c.node a).localAnswers key flag tx, t.deliveries⟩ :=
  if_pos ⟨rfl, rfl⟩

theorem noteLookup_deliver {k : ℕ} (h : c.inFlight[k]? = some p) :
    c.noteLookup a tx (.deliver k) t =
      if ofLookup a tx p then ⟨t.answers ++ answered p, t.deliveries + 1⟩ else t := by
  simp only [noteLookup, h]

theorem noteLookup_other {k : ℕ} (h : ∀ q, c.inFlight[k]? = some q → ofLookup a tx q = false) :
    c.noteLookup a tx (.deliver k) t = t := by
  simp only [noteLookup]
  split
  · rfl
  · rename_i q hq
    simp [h q hq]

omit [Sha1] in
theorem kind_of_ofLookup (h : ofLookup a tx p = true) : p.msg.payload.kind = .lookups := by
  obtain ⟨src, dst, id, payload⟩ := p
  cases payload with
  | lookupPublish flag initiatorAddress lookupDigest lookupKey => rfl
  | lookupPublishSuccess flag lookupKey owner => rfl
  | _ => simp [ofLookup] at h

/-- A packet of the lookup is sent when the lookup is called, or in reaction to a
packet of the lookup. -/
theorem turn_sends_ofLookup (hlocal : ∀ b, (c.node b).localAddress = b) {b : Ipv4Address}
    {n : ChordNode} {acts : List ChordAction} (h : c.turn e = some (c₀, b, .ok (n, acts)))
    (hp : p ∈ sentPackets b acts) (hof : ofLookup a tx p = true) :
    (∃ key flag, e = .lookupPublish a key flag tx) ∨
      ∃ k q, e = .deliver k ∧ c.inFlight[k]? = some q ∧ ofLookup a tx q = true := by
  have hact := (mem_sentPackets.mp hp).2.2
  have hkind : c.eventKind e = some .lookups := by
    rw [turn_kind h _ hact]
    exact congrArg some (kind_of_ofLookup hof)
  cases e with
  | lookupPublish b' key flag tx' =>
      left
      simp only [turn, Option.some.injEq, Prod.mk.injEq] at h
      obtain ⟨-, rfl, h⟩ := h
      obtain ⟨-, hop, -, hsends⟩ := ChordNode.lookupPublish_sends h b'
      rw [hsends] at hp
      obtain ⟨-, -, hmem⟩ := mem_sentPackets.mp hp
      obtain ⟨-, hmsg⟩ := ChordAction.sendTo.inj (List.mem_singleton.mp hmem)
      rw [ofLookup, hmsg, hlocal] at hof
      obtain ⟨rfl, rfl⟩ : tx' = tx ∧ b' = a := by simpa using hof
      exact ⟨key, flag, rfl⟩
  | deliver k =>
      right
      cases hq : c.inFlight[k]? with
      | none => simp [turn, hq] at h
      | some q =>
          refine ⟨k, q, rfl, hq, ?_⟩
          rw [turn_deliver hq] at h
          simp only [Option.some.injEq, Prod.mk.injEq] at h
          obtain ⟨-, rfl, h⟩ := h
          obtain ⟨qsrc, qdst, id, payload⟩ := q
          cases payload with
          | lookupPublish flag initiatorAddress lookupDigest lookupKey =>
              -- the answer goes to the initiator, and a relay is the same message
              obtain ⟨-, ⟨-, rfl⟩ | ⟨-, hop, -, rfl⟩⟩ := ChordNode.recvMessage_target_cases
                ⟨id, .lookupPublish flag initiatorAddress lookupDigest lookupKey⟩ qsrc rfl h
              · obtain ⟨hdst, hmsg⟩ := ChordAction.sendTo.inj (List.mem_singleton.mp hact)
                rw [ofLookup, hmsg, hdst] at hof
                exact hof
              · obtain ⟨-, hmsg⟩ := ChordAction.sendTo.inj (List.mem_singleton.mp hact)
                rw [ofLookup, hmsg] at hof
                exact hof
          | lookupPublishSuccess flag lookupKey owner =>
              cases h
              rw [ChordNode.sentPackets_lookupCallback] at hp
              cases hp
          | _ => simp [eventKind, hq, ChordPayload.kind] at hkind
  | _ => cases hkind

theorem OnStableRing.hop_mem (h : c.OnStableRing R) {b hop : Ipv4Address} {target : Digest}
    (hb : b ∈ R) (hhop : (c.node b).findNextHop target = .ok hop) : hop ∈ R := by
  rcases ChordNode.findNextHop_spec hhop with rfl | ⟨⟨i, hi⟩, _⟩
  · exact h.ring.successor_mem hb
  · exact (h.fingers b hb).2 i hop hi

/-- A packet of the lookup is answered or relayed: one call back or one packet
takes its place, and the packet is closer to its end. -/
theorem deliver_ofLookup (hinj : Set.InjOn nodePos (R : Set Ipv4Address)) (hon : c.OnStableRing R)
    (ha : a ∈ R) {k : ℕ} (hk : c.inFlight[k]? = some p) (hof : ofLookup a tx p = true)
    (hdst : p.dst ∈ R) :
    ∃ sent, c.step (.deliver k) = .ok ((c.take k).act p.dst (c.node p.dst) sent) ∧
      (answered p).length + sent.length = 1 ∧
      ∀ q ∈ sent, ofLookup a tx q = true ∧ q.dst ∈ R ∧ deliveriesLeft R q < deliveriesLeft R p := by
  obtain ⟨src, dst, id, payload⟩ := p
  cases payload with
  | lookupPublish flag initiatorAddress lookupDigest lookupKey =>
      obtain ⟨rfl, rfl⟩ : id = tx ∧ initiatorAddress = a := by simpa [ofLookup] using hof
      have htarget : PennChordMessage.target
          ⟨id, .lookupPublish flag initiatorAddress lookupDigest lookupKey⟩ =
            some lookupDigest := rfl
      have hrecv := (c.node dst).recvMessage_of_target htarget src
      by_cases hown : (c.node dst).inOwnArc lookupDigest.pos
      · rw [if_pos hown] at hrecv
        refine ⟨_, step_deliver hk hrecv, ?_⟩
        have hne : initiatorAddress ≠ .getAny := by
          rintro rfl
          exact hon.ring.getAny_notMem ha
        simp [sentPackets, PennChordMessage.requester, PennChordMessage.answer, hne, answered,
          ofLookup, ha, deliveriesLeft]
      · obtain ⟨hop, hhop⟩ := ChordNode.findNextHop_isOk lookupDigest (hon.fingers dst hdst).1
        rw [if_neg hown, hhop] at hrecv
        refine ⟨_, step_deliver hk hrecv, ?_⟩
        have hlocal := hon.localAddress dst
        have hknows : (c.node dst).KnowsOnly R := ⟨hlocal.symm ▸ hdst, (hon.fingers dst hdst).2⟩
        have hcloser := ChordNode.findNextHop_closer hinj hknows hown hhop
        rw [hlocal] at hcloser
        have hhopR := hon.hop_mem hdst hhop
        have hcard := closerMembers_card_lt hhopR hcloser
        have hne : hop ≠ .getAny := by
          rintro rfl
          exact hon.ring.getAny_notMem hhopR
        simp [sentPackets, hne, answered, ofLookup, hhopR, deliveriesLeft, hcard]
  | lookupPublishSuccess flag lookupKey owner =>
      have hrecv : (c.node dst).recvMessage ⟨id, .lookupPublishSuccess flag lookupKey owner⟩ src =
          .ok (c.node dst, ChordNode.lookupCallback flag lookupKey owner id) := rfl
      refine ⟨_, step_deliver hk hrecv, ?_⟩
      rw [ChordNode.sentPackets_lookupCallback]
      simp [answered]
  | _ => simp [ofLookup] at hof

/-- The answers and the packet in flight of a lookup that its caller answered
`own` times itself. -/
structure LookupBalance (R : Finset Ipv4Address) (a : Ipv4Address) (tx : UInt32) (own : ℕ)
    (c : ChordNet) (t : LookupTally) : Prop where
  balance : t.answers.length + c.lookupPackets a tx = own + 1
  packets_le : c.lookupPackets a tx ≤ 1
  deliveries_le : t.deliveries ≤ R.card + 1
  packet : ∀ p ∈ c.inFlight, ofLookup a tx p = true →
    p.dst ∈ R ∧ t.deliveries + deliveriesLeft R p ≤ R.card + 1

namespace LookupBalance

variable {own : ℕ}

/-- The delivery of the packet that is in flight. -/
theorem deliver (h : LookupBalance R a tx own c t) {k : ℕ} (hk : c.inFlight[k]? = some p)
    (hof : ofLookup a tx p = true) {sent : List ChordPacket}
    (hone : (answered p).length + sent.length = 1)
    (hsent : ∀ q ∈ sent, ofLookup a tx q = true ∧ q.dst ∈ R ∧
      deliveriesLeft R q < deliveriesLeft R p) :
    LookupBalance R a tx own ((c.take k).act p.dst (c.node p.dst) sent)
      ⟨t.answers ++ answered p, t.deliveries + 1⟩ := by
  have hp := mem_of_getElem? hk
  have hrest : (c.inFlight.eraseIdx k).countP (ofLookup a tx) = 0 := by
    have hcount := countP_eq_eraseIdx (ofLookup a tx) hk
    have hle := h.packets_le
    rw [hof, if_pos rfl] at hcount
    unfold lookupPackets at hle
    omega
  have hpackets : lookupPackets a tx ((c.take k).act p.dst (c.node p.dst) sent) = sent.length := by
    rw [lookupPackets, Net.act_inFlight, Net.take_inFlight, List.countP_append, hrest,
      List.countP_eq_length.mpr fun q hq => (hsent q hq).1, Nat.zero_add]
  have hbound := (h.packet p hp hof).2
  have hleft : 1 ≤ deliveriesLeft R p := by
    unfold deliveriesLeft
    split <;> omega
  have hwas : c.lookupPackets a tx = 1 := by
    have hpos : 0 < c.lookupPackets a tx := List.countP_pos_iff.mpr ⟨p, hp, hof⟩
    exact Nat.le_antisymm h.packets_le hpos
  constructor
  · have hbalance := h.balance
    rw [hwas] at hbalance
    rw [hpackets, List.length_append]
    omega
  · rw [hpackets]
    omega
  · change t.deliveries + 1 ≤ R.card + 1
    omega
  · intro q hq hofq
    rcases List.mem_append.mp hq with hq | hq
    · exact absurd hofq (by simpa using List.countP_eq_zero.mp hrest q hq)
    · obtain ⟨-, hdst, hlt⟩ := hsent q hq
      refine ⟨hdst, ?_⟩
      change t.deliveries + 1 + deliveriesLeft R q ≤ R.card + 1
      omega

/-- An event that neither starts the lookup nor delivers its packet. -/
theorem other (h : LookupBalance R a tx own c t) (hlocal : ∀ b, (c.node b).localAddress = b)
    (hcall : ∀ key flag, e ≠ .lookupPublish a key flag tx)
    (hdeliver : ∀ k q, e = .deliver k → c.inFlight[k]? = some q → ofLookup a tx q = false)
    (hstep : c.step e = .ok c') :
    LookupBalance R a tx own c' t := by
  have hsame : c'.lookupPackets a tx = c.lookupPackets a tx ∧
      ∀ q ∈ c'.inFlight, ofLookup a tx q = true → q ∈ c.inFlight := by
    refine step_countP hstep (fun c₀ b n acts hturn q hq => ?_) hdeliver
    by_contra hof
    rcases turn_sends_ofLookup hlocal hturn hq (by simpa using hof) with
      ⟨key, flag, he⟩ | ⟨k, q', he, hk, hof'⟩
    · exact hcall key flag he
    · rw [hdeliver k q' he hk] at hof'
      cases hof'
  refine ⟨?_, ?_, h.deliveries_le, fun q hq hof => h.packet q (hsame.2 q hq hof) hof⟩
  · rw [hsame.1]
    exact h.balance
  · rw [hsame.1]
    exact h.packets_le

/-- The balance is kept as long as the ring stays stable. -/
theorem step (hinj : Set.InjOn nodePos (R : Set Ipv4Address)) (ha : a ∈ R)
    (h : LookupBalance R a tx own c t) (he : RingStays R a tx c e) (hstep : c.step e = .ok c') :
    LookupBalance R a tx own c' (c.noteLookup a tx e t) := by
  obtain ⟨hon, hcall⟩ := he
  have hother : (∀ k q, e = .deliver k → c.inFlight[k]? = some q → ofLookup a tx q = false) →
      LookupBalance R a tx own c' t := fun hdeliver => h.other hon.localAddress hcall hdeliver hstep
  cases e with
  | deliver k =>
      by_cases hlookup : ∃ q, c.inFlight[k]? = some q ∧ ofLookup a tx q = true
      · obtain ⟨q, hk, hof⟩ := hlookup
        rw [noteLookup_deliver hk, if_pos hof]
        obtain ⟨hdst, -⟩ := h.packet q (mem_of_getElem? hk) hof
        obtain ⟨sent, hok, hone, hsent⟩ := deliver_ofLookup hinj hon ha hk hof hdst
        obtain rfl := Except.ok.inj (hok.symm.trans hstep)
        exact h.deliver hk hof hone hsent
      · have hnot : ∀ q, c.inFlight[k]? = some q → ofLookup a tx q = false :=
          fun q hq => Bool.eq_false_iff.mpr fun hof => hlookup ⟨q, hq, hof⟩
        rw [noteLookup_other hnot]
        refine hother fun k' q hk' hq => ?_
        cases hk'
        exact hnot q hq
  | lookupPublish b key flag tx' =>
      have hne : ¬ (b = a ∧ tx' = tx) := by
        rintro ⟨rfl, rfl⟩
        exact hcall key flag rfl
      simp only [noteLookup, if_neg hne]
      exact hother fun k q hk => by cases hk
  | _ => exact hother fun k q hk => by cases hk

end LookupBalance

theorem lookupPublish_balance (hon : c.OnStableRing R) (ha : a ∈ R)
    (hnone : c.lookupPackets a tx = 0) (key : CxxString) (flag : UInt16) :
    ∃ c₁, c.step (.lookupPublish a key flag tx) = .ok c₁ ∧ c₁.node = c.node ∧
      LookupBalance R a tx ((c.node a).localAnswers key flag tx).length c₁
        (c.noteLookup a tx (.lookupPublish a key flag tx) ⟨[], 0⟩) := by
  obtain ⟨hop, hhop⟩ := ChordNode.findNextHop_isOk (sha1Key key) (hon.fingers a ha).1
  have hok : ∃ n' acts, (c.node a).lookupPublish key flag tx = .ok (n', acts) := by
    simp only [ChordNode.lookupPublish, hhop]
    exact ⟨_, _, rfl⟩
  obtain ⟨n', acts, hcall⟩ := hok
  obtain ⟨rfl, hop', hhop', hsends⟩ := ChordNode.lookupPublish_sends hcall a
  obtain rfl := Except.ok.inj (hhop.symm.trans hhop')
  have hhopR := hon.hop_mem ha hhop
  have hne : hop ≠ .getAny := by
    rintro rfl
    exact hon.ring.getAny_notMem hhopR
  have hsent : sentPackets a acts =
      [⟨a, hop, ⟨tx, .lookupPublish flag a (sha1Key key) key⟩⟩] := by
    rw [hsends, hon.localAddress]
    simp [sentPackets, hne]
  have hturn : c.turn (.lookupPublish a key flag tx) = some (c, a, .ok (c.node a, acts)) :=
    congrArg (fun r => some (c, a, r)) hcall
  refine ⟨_, step_of_turn hturn, ?_, ?_⟩
  · simp [Net.act]
  · rw [hsent]
    have hcard := closerMembers_card_lt_card (t := (sha1Key key).pos) hhopR
    have hpackets : lookupPackets a tx (c.act a (c.node a)
        [⟨a, hop, ⟨tx, .lookupPublish flag a (sha1Key key) key⟩⟩]) = 1 := by
      unfold lookupPackets at hnone ⊢
      rw [Net.act_inFlight, List.countP_append, hnone]
      simp [ofLookup]
    rw [noteLookup_lookupPublish]
    constructor
    · rw [hpackets]
      rfl
    · exact hpackets.le
    · exact Nat.zero_le _
    · intro p hp hof
      rcases List.mem_append.mp hp with hp | hp
      · exact absurd hof (List.countP_eq_zero.mp hnone p hp)
      · rw [List.mem_singleton.mp hp]
        refine ⟨hhopR, ?_⟩
        simp only [deliveriesLeft]
        omega

theorem deliver_stays (hinj : Set.InjOn nodePos (R : Set Ipv4Address)) (hon : c.OnStableRing R)
    (ha : a ∈ R) {own : ℕ} (h : LookupBalance R a tx own c t) {k : ℕ}
    (hk : c.inFlight[k]? = some p) (hof : ofLookup a tx p = true) :
    ∃ c', c.step (.deliver k) = .ok c' ∧ c'.OnStableRing R := by
  obtain ⟨sent, hok, -⟩ := deliver_ofLookup hinj hon ha hk hof
    (h.packet p (mem_of_getElem? hk) hof).1
  refine ⟨_, hok, ?_⟩
  have hnode : ((c.take k).act p.dst (c.node p.dst) sent).node = c.node := by simp [Net.act]
  constructor
  · rw [hnode]
    exact hon.ring
  · rw [hnode]
    exact hon.fingers
  · rw [hnode]
    exact hon.localAddress

/-- Delivering the packet of the lookup, and nothing else, ends the lookup. -/
theorem exists_lookup_ends (hinj : Set.InjOn nodePos (R : Set Ipv4Address)) (ha : a ∈ R) {own : ℕ}
    (hon : c.OnStableRing R) (h : LookupBalance R a tx own c t) :
    ∃ es c', Run ChordNet.step (RingStays R a tx) c es c' ∧ c'.lookupPackets a tx = 0 := by
  induction hm : R.card + 1 - t.deliveries using Nat.strongRecOn generalizing c t with
  | _ m ih =>
      by_cases hzero : c.lookupPackets a tx = 0
      · exact ⟨[], c, .nil, hzero⟩
      · obtain ⟨p, hp, hof⟩ := List.countP_pos_iff.mp (Nat.pos_of_ne_zero hzero)
        obtain ⟨k, hk⟩ := List.mem_iff_getElem?.mp hp
        obtain ⟨c₁, hstep, hon₁⟩ := deliver_stays hinj hon ha h hk hof
        have hstays : RingStays R a tx c (.deliver k) := ⟨hon, fun _ _ he => by cases he⟩
        have hnext := h.step hinj ha hstays hstep
        rw [noteLookup_deliver hk, if_pos hof] at hnext
        have hle : t.deliveries + 1 ≤ R.card + 1 := hnext.deliveries_le
        obtain ⟨es, c', hrun, hend⟩ := ih (R.card + 1 - (t.deliveries + 1))
            (by omega) hon₁ hnext rfl
        exact ⟨[.deliver k] ++ es, c', (Run.single hstays hstep).trans hrun, hend⟩

def lookupHistory (c : ChordNet) (a : Ipv4Address) (key : CxxString) (flag : UInt16)
    (tx : UInt32) (es : List ChordEvent) : LookupTally :=
  history ChordNet.step (noteLookup a tx) c ⟨[], 0⟩ (.lookupPublish a key flag tx :: es)

/-- However the run goes on after the call, when no packet of the lookup is left
the caller has been called back once. -/
def ResolvedOnce (R : Finset Ipv4Address) (c : ChordNet) (a : Ipv4Address) (key : CxxString)
    (flag : UInt16) (tx : UInt32) : Prop :=
  ∀ c₁ es c', c.step (.lookupPublish a key flag tx) = .ok c₁ →
    Run ChordNet.step (RingStays R a tx) c₁ es c' → c'.lookupPackets a tx = 0 →
      ∃ b, (c.lookupHistory a key flag tx es).answers = [b]

/-- The lookup ends: its packets are delivered at most as often as the ring has
members, and once more, and each of their deliveries succeeds. -/
def LookupEnds (R : Finset Ipv4Address) (c : ChordNet) (a : Ipv4Address) (key : CxxString)
    (flag : UInt16) (tx : UInt32) : Prop :=
  ∃ c₁, c.step (.lookupPublish a key flag tx) = .ok c₁ ∧
    ∀ es c', Run ChordNet.step (RingStays R a tx) c₁ es c' →
      (c.lookupHistory a key flag tx es).deliveries ≤ R.card + 1 ∧
        (c'.OnStableRing R → ∀ k p, c'.inFlight[k]? = some p → ofLookup a tx p = true →
          ∃ c'', c'.step (.deliver k) = .ok c'')

section Run

variable {key : CxxString} {flag : UInt16} {c₁ : ChordNet} {es : List ChordEvent}

theorem lookupHistory_balance (hinj : Set.InjOn nodePos (R : Set Ipv4Address))
    (hon : c.OnStableRing R) (ha : a ∈ R) (hnone : c.lookupPackets a tx = 0)
    (hcall : c.step (.lookupPublish a key flag tx) = .ok c₁)
    (hrun : Run ChordNet.step (RingStays R a tx) c₁ es c') :
    LookupBalance R a tx ((c.node a).localAnswers key flag tx).length c'
      (c.lookupHistory a key flag tx es) := by
  obtain ⟨c₂, hcall₂, -, hopen⟩ := lookupPublish_balance hon ha hnone key flag
  obtain rfl := Except.ok.inj (hcall.symm.trans hcall₂)
  have hkeep := hrun.history_invariant hopen fun _ _ _ _ h he hstep => h.step hinj ha he hstep
  simp only [lookupHistory, history, hcall]
  exact hkeep

theorem lookupEnds (hinj : Set.InjOn nodePos (R : Set Ipv4Address)) (hon : c.OnStableRing R)
    (ha : a ∈ R) (hnone : c.lookupPackets a tx = 0) (key : CxxString) (flag : UInt16) :
    c.LookupEnds R a key flag tx := by
  obtain ⟨c₁, hcall, -⟩ := lookupPublish_balance hon ha hnone key flag
  refine ⟨c₁, hcall, fun es c' hrun => ?_⟩
  have hbal := lookupHistory_balance hinj hon ha hnone hcall hrun
  refine ⟨hbal.deliveries_le, fun hon' k p hk hof => ?_⟩
  obtain ⟨c'', hstep, -⟩ := deliver_stays hinj hon' ha hbal hk hof
  exact ⟨c'', hstep⟩

theorem resolvedOnce_iff (hinj : Set.InjOn nodePos (R : Set Ipv4Address))
    (hon : c.OnStableRing R) (ha : a ∈ R) (hnone : c.lookupPackets a tx = 0) :
    c.ResolvedOnce R a key flag tx ↔ ¬ (c.node a).inOwnArc (sha1Key key).pos := by
  rw [← ChordNode.localAnswers_eq_nil_iff flag tx (hon.fingers a ha).1]
  constructor
  · intro honce
    obtain ⟨c₁, hcall, hnode, hopen⟩ := lookupPublish_balance hon ha hnone key flag
    have hon₁ : c₁.OnStableRing R := by
      constructor
      · rw [hnode]
        exact hon.ring
      · rw [hnode]
        exact hon.fingers
      · rw [hnode]
        exact hon.localAddress
    obtain ⟨es, c', hrun, hend⟩ := exists_lookup_ends hinj ha hon₁ hopen
    obtain ⟨b, hb⟩ := honce c₁ es c' hcall hrun hend
    have hbal := (lookupHistory_balance hinj hon ha hnone hcall hrun).balance
    rw [hb, hend, List.length_singleton] at hbal
    exact List.length_eq_zero_iff.mp (by omega)
  · intro hown c₁ es c' hcall hrun hend
    have hbal := (lookupHistory_balance hinj hon ha hnone hcall hrun).balance
    rw [hown, hend, List.length_nil] at hbal
    exact List.length_eq_one_iff.mp (by omega)

end Run

end ChordNet

/-! ## What the answers ship -/

def PennNet.sends (s : PennNet) (a : Ipv4Address) (acts : List SearchAction) : PennNet :=
  { s with search.inFlight := s.search.inFlight ++ searchPackets a acts }

omit [Sha1] in
theorem PennNet.sends_append (s : PennNet) (a : Ipv4Address) (acts acts' : List SearchAction) :
    (s.sends a acts).sends a acts' = s.sends a (acts ++ acts') := by
  simp only [sends, searchPackets, List.filterMap_append, List.append_assoc]

omit [Sha1] in
@[simp] theorem PennNet.sends_nil (s : PennNet) (a : Ipv4Address) : s.sends a [] = s := by
  simp [sends, searchPackets]

/-- Every answer to the lookup of a published key ships the whole list. -/
theorem PennNet.callbacks_ship {a : Ipv4Address} {key : CxxString} {tx : UInt32}
    {docVector : List CxxString} (s : PennNet)
    (hlist : (s.search.node a).invertListMap[key]? = some docVector)
    (hcount : PennSearchMessage.countable ⟨tx, .storeList key docVector⟩ = true)
    (answers : List Ipv4Address) :
    s.callbacks a (answers.flatMap fun b => ChordNode.lookupCallback 0 key b tx) =
      .ok (s.sends a (answers.map fun b => .sendTo b ⟨tx, .storeList key docVector⟩)) := by
  induction answers generalizing s with
  | nil => exact congrArg Except.ok (s.sends_nil a).symm
  | cons b answers ih =>
      have hship : s.callback a (.lookupPublishSuccess key b tx) =
          .ok (s.sends a [.sendTo b ⟨tx, .storeList key docVector⟩]) := by
        simp only [callback, SearchNode.handleChord, SearchNode.sendInvertList, hlist,
          PennSearchMessage.sendTo, hcount]
        simp [bind, Except.bind, pure, Except.pure, Net.act, sends]
      have hrest := ih (s.sends a [.sendTo b ⟨tx, .storeList key docVector⟩]) hlist
      rw [sends_append] at hrest
      rw [List.flatMap_cons]
      change s.callback a (.lookupPublishSuccess key b tx) >>= (fun s => s.callbacks a _) = _
      rw [hship]
      exact hrest

omit [Sha1] in
theorem SearchNode.processStoreList_posting {n : SearchNode} {key : CxxString}
    {docVector : List CxxString} (h : docVector.length < 65536) :
    ∃ n', n.processStoreList key docVector = .ok (n', []) ∧
      ∀ k, n'.dataMap.posting k = n.dataMap.posting k + Posting.single k (key, docVector) := by
  refine ⟨{ n with dataMap := n.dataMap.store key docVector }, if_neg (by omega), fun k => ?_⟩
  exact PostingMap.posting_store n.dataMap key k docVector

/-- One resolution per lookup, with its exact condition: the digest of the key
does not lie on the arc from the caller to its successor. For every node with
fingers, `LookupPublish` calls back once or sends one request, as
`ProcessLookupPublish` would, under that condition and no other. On a stable ring
every lookup ends, and the caller is called back once under that condition and no
other; each answer ships the published list, and each list that arrives is stored
once. -/
theorem lookup_resolved_once_iff :
    (∀ (n : ChordNode) (key : CxxString) (flag : UInt16) (tx : UInt32),
        ¬ n.fingerTable.isEmpty →
          (n.OneResolution key flag tx ↔ ¬ n.inOwnArc (keyPos key))) ∧
      (∀ (R : Finset Ipv4Address) (c : ChordNet) (a : Ipv4Address) (key : CxxString)
          (flag : UInt16) (tx : UInt32),
        Set.InjOn nodePos (R : Set Ipv4Address) → c.OnStableRing R → a ∈ R →
          c.lookupPackets a tx = 0 →
            c.LookupEnds R a key flag tx ∧
              (c.ResolvedOnce R a key flag tx ↔ ¬ (c.node a).inOwnArc (keyPos key))) ∧
      (∀ (s : PennNet) (a : Ipv4Address) (key : CxxString) (tx : UInt32)
          (docVector : List CxxString),
        (s.search.node a).invertListMap[key]? = some docVector → docVector.length < 65536 →
          ∀ answers : List Ipv4Address,
            s.callbacks a (answers.flatMap fun b => ChordNode.lookupCallback 0 key b tx) =
              .ok (s.sends a
                (answers.map fun b => .sendTo b ⟨tx, .storeList key docVector⟩))) ∧
      ∀ (n : SearchNode) (key : CxxString) (docVector : List CxxString),
        docVector.length < 65536 →
          ∃ n', n.processStoreList key docVector = .ok (n', []) ∧
            ∀ k, n'.dataMap.posting k = n.dataMap.posting k +
              Posting.single k (key, docVector) := by
  refine ⟨?_, ?_, ?_, ?_⟩
  · intro n key flag tx hfingers
    exact ChordNode.oneResolution_iff hfingers
  · intro R c a key flag tx hinj hon ha hnone
    exact ⟨ChordNet.lookupEnds hinj hon ha hnone key flag,
      ChordNet.resolvedOnce_iff hinj hon ha hnone⟩
  · intro s a key tx docVector hlist hlen answers
    refine s.callbacks_ship hlist ?_ answers
    simpa [PennSearchMessage.countable, PennSearchMessage.lists] using hlen
  · intro n key docVector hlen
    exact SearchNode.processStoreList_posting hlen

end PennSearch

namespace PennSearch

attribute [local instance] sampleSha1

theorem samplePair_onStableRing :
    ChordNet.OnStableRing ⟨samplePair, []⟩ {sampleA, sampleB} where
  ring := samplePair_ring
  fingers := samplePair_fingers
  localAddress := samplePair_stable.localAddress

theorem lookup_resolved_once_iff_sample :
    (samplePair sampleA).OneResolution [84, 53] 0 7 ∧
      ChordNet.ResolvedOnce {sampleA, sampleB} ⟨samplePair, []⟩ sampleA [84, 53] 0 7 := by
  have hout : ¬ (samplePair sampleA).inOwnArc (keyPos [84, 53]) := by decide
  refine ⟨(lookup_resolved_once_iff.1 (samplePair sampleA) [84, 53] 0 7 (by decide)).mpr hout, ?_⟩
  exact (lookup_resolved_once_iff.2.1 {sampleA, sampleB} ⟨samplePair, []⟩ sampleA [84, 53] 0 7
    samplePair_injOn samplePair_onStableRing (by decide) rfl).2.mpr hout

/-- B starts a lookup of `T5`, which lies on its own arc: it calls back at once and
sends the lookup all the same, so that it is called back a second time. -/
theorem lookup_resolved_twice :
    (samplePair sampleB).lookupPublishSteps [84, 53] 0 7 =
        .ok [.lookupCallback 0 [84, 53] sampleA 7,
          .sendTo sampleA ⟨7, .lookupPublish 0 sampleB (sha1Key [84, 53]) [84, 53]⟩] ∧
      ¬ (samplePair sampleB).OneResolution [84, 53] 0 7 ∧
      ChordNet.OnStableRing ⟨samplePair, []⟩ {sampleA, sampleB} ∧
      ChordNet.lookupHistory ⟨samplePair, []⟩ sampleB [84, 53] 0 7
          [.deliver 0, .deliver 0, .deliver 0] = ⟨[sampleA, sampleA], 3⟩ ∧
      ¬ ChordNet.ResolvedOnce {sampleA, sampleB} ⟨samplePair, []⟩ sampleB [84, 53] 0 7 := by
  have hown : (samplePair sampleB).inOwnArc (sha1Key [84, 53]).pos := by decide
  refine ⟨by decide, fun h => ?_, samplePair_onStableRing, by decide, fun h => ?_⟩
  · exact (ChordNode.oneResolution_iff (by decide)).mp h hown
  · exact (ChordNet.resolvedOnce_iff samplePair_injOn samplePair_onStableRing (by decide) rfl).mp h
      hown

end PennSearch
