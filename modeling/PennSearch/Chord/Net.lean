import PennSearch.Chord.Spec
import PennSearch.Library.Network

/-!
# A network of Chord nodes

The state is `MessagePassing.Net` over the Chord nodes. Every address but
`0.0.0.0` is a started node; a system of fewer nodes is a run whose events name
only those. A packet to `0.0.0.0` vanishes, every other packet stays in flight
until it is delivered. An event is a command, a call of the search layer, a
timer that expires or a delivery; an event that is not enabled changes nothing.

The size limit of the socket, 65507 bytes, is left out: of the messages only a
lookup with a key of more than 65474 bytes reaches it. The search layer, whose
lists do, models it (`searchPackets`).
-/

namespace PennSearch

open MessagePassing

abbrev ChordNet := Net Ipv4Address ChordNode PennChordMessage

abbrev ChordPacket := Packet Ipv4Address PennChordMessage

/-- What can happen next. `lookupPublish` is a call of the search layer. -/
inductive ChordEvent
  | join (node nodeAddr : Ipv4Address)
  | leave (node : Ipv4Address)
  | ringstate (node : Ipv4Address)
  | stabilize (node : Ipv4Address)
  | fixFinger (node : Ipv4Address)
  | lookupPublish (node : Ipv4Address) (key : CxxString) (flag : UInt16)
      (transactionId : UInt32)
  | deliver (position : ℕ)
deriving DecidableEq

def sentPackets (src : Ipv4Address) (acts : List ChordAction) : List ChordPacket :=
  acts.filterMap fun
    | .sendTo dst message => if dst = .getAny then none else some ⟨src, dst, message⟩
    | _ => none

theorem mem_sentPackets {src : Ipv4Address} {acts : List ChordAction} {p : ChordPacket} :
    p ∈ sentPackets src acts ↔
      p.src = src ∧ p.dst ≠ .getAny ∧ .sendTo p.dst p.msg ∈ acts := by
  obtain ⟨psrc, pdst, pmsg⟩ := p
  simp only [sentPackets, List.mem_filterMap]
  constructor
  · rintro ⟨act, hact, h⟩
    cases act with
    | sendTo dst message =>
        by_cases hdst : dst = .getAny
        · simp [hdst] at h
        · obtain ⟨rfl, rfl, rfl⟩ : src = psrc ∧ dst = pdst ∧ message = pmsg := by
            simpa [hdst] using h
          exact ⟨rfl, hdst, hact⟩
    | _ => simp at h
  · rintro ⟨rfl, hdst, hact⟩
    exact ⟨_, hact, by simp [hdst]⟩

namespace ChordNet

/-- Each channel between two nodes is first in, first out. -/
def Fifo (c : ChordNet) : ChordEvent → Prop
  | .deliver k => IsOldest c.inFlight k
  | _ => True

instance (c : ChordNet) (e : ChordEvent) : Decidable (Fifo c e) :=
  match e with
  | .deliver _ => inferInstanceAs (Decidable (IsOldest _ _))
  | .join .. | .leave _ | .ringstate _ | .stabilize _ | .fixFinger _ | .lookupPublish .. =>
      .isTrue trivial

def actor (c : ChordNet) : ChordEvent → Ipv4Address
  | .join a _ => a
  | .leave a => a
  | .ringstate a => a
  | .stabilize a => a
  | .fixFinger a => a
  | .lookupPublish a _ _ _ => a
  | .deliver k => (c.inFlight[k]?.map fun p => p.dst).getD .getAny

variable [Sha1]

def start (transactionId : Ipv4Address → UInt32) : ChordNet where
  node a := .start a (transactionId a)
  inFlight := []

/-- The node that acts at an event, the network it finds, and what its handler
returns; `none` when the event is not enabled. -/
def turn (c : ChordNet) : ChordEvent → Option (ChordNet × Ipv4Address × ChordResult)
  | .join a nodeAddr => some (c, a, .ok ((c.node a).processJoinCommand nodeAddr))
  | .leave a => some (c, a, .ok (c.node a).processLeaveCommand)
  | .ringstate a => some (c, a, .ok (c.node a).processRingstateCommand)
  | .stabilize a => some (c, a, .ok (c.node a).stabilize)
  | .fixFinger a => if (c.node a).fixFingerTimer then some (c, a, (c.node a).fixFinger) else none
  | .lookupPublish a key flag transactionId =>
      some (c, a, (c.node a).lookupPublish key flag transactionId)
  | .deliver k =>
      match c.inFlight[k]? with
      | none => none
      | some p => some (c.take k, p.dst, (c.node p.dst).recvMessage p.msg p.src)

/-- One event, with the actions of the node that acts. -/
def stepActions (c : ChordNet) (e : ChordEvent) : Except Fault (ChordNet × List ChordAction) :=
  match c.turn e with
  | none => .ok (c, [])
  | some (c', a, result) => do
      let (n, acts) ← result
      return (c'.act a n (sentPackets a acts), acts)

def step (c : ChordNet) (e : ChordEvent) : Except Fault ChordNet := do
  let (c', _) ← c.stepActions e
  return c'

/-- What a step can do: nothing, or one turn of one node. -/
theorem stepActions_cases {c c' : ChordNet} {e : ChordEvent} {acts : List ChordAction}
    (h : c.stepActions e = .ok (c', acts)) :
    (c.turn e = none ∧ c' = c ∧ acts = []) ∨
      ∃ (c₀ : ChordNet) (a : Ipv4Address) (n : ChordNode),
        c.turn e = some (c₀, a, .ok (n, acts)) ∧ c' = c₀.act a n (sentPackets a acts) := by
  unfold stepActions at h
  cases hturn : c.turn e with
  | none =>
      rw [hturn] at h
      cases h
      exact Or.inl ⟨rfl, rfl, rfl⟩
  | some t =>
      obtain ⟨c₀, a, result⟩ := t
      rw [hturn] at h
      cases result with
      | error f => cases h
      | ok r =>
          obtain ⟨n, acts⟩ := r
          cases h
          exact Or.inr ⟨c₀, a, n, rfl, rfl⟩

theorem step_eq_ok {c c' : ChordNet} {e : ChordEvent} :
    c.step e = .ok c' ↔ ∃ acts, c.stepActions e = .ok (c', acts) := by
  unfold step
  cases c.stepActions e with
  | error f =>
      refine iff_of_false (fun h => by cases h) ?_
      rintro ⟨acts, h⟩
      cases h
  | ok r =>
      obtain ⟨c₁, acts⟩ := r
      constructor
      · intro h
        cases h
        exact ⟨acts, rfl⟩
      · rintro ⟨acts', h⟩
        cases h
        rfl

theorem step_cases {c c' : ChordNet} {e : ChordEvent} (h : c.step e = .ok c') :
    (c.turn e = none ∧ c' = c) ∨
      ∃ (c₀ : ChordNet) (a : Ipv4Address) (n : ChordNode) (acts : List ChordAction),
        c.turn e = some (c₀, a, .ok (n, acts)) ∧ c' = c₀.act a n (sentPackets a acts) := by
  obtain ⟨acts, h⟩ := step_eq_ok.mp h
  rcases stepActions_cases h with ⟨hnone, hc, -⟩ | ⟨c₀, a, n, hturn, hc⟩
  · exact Or.inl ⟨hnone, hc⟩
  · exact Or.inr ⟨c₀, a, n, acts, hturn, hc⟩

theorem turn_deliver {c : ChordNet} {k : ℕ} {p : ChordPacket} (h : c.inFlight[k]? = some p) :
    c.turn (.deliver k) = some (c.take k, p.dst, (c.node p.dst).recvMessage p.msg p.src) := by
  simp [turn, h]

theorem step_of_turn {c c₀ : ChordNet} {e : ChordEvent} {a : Ipv4Address} {n : ChordNode}
    {acts : List ChordAction} (h : c.turn e = some (c₀, a, .ok (n, acts))) :
    c.step e = .ok (c₀.act a n (sentPackets a acts)) := by
  simp only [step, stepActions, h]
  rfl

theorem step_deliver {c : ChordNet} {k : ℕ} {p : ChordPacket} {n : ChordNode}
    {acts : List ChordAction} (hp : c.inFlight[k]? = some p)
    (h : (c.node p.dst).recvMessage p.msg p.src = .ok (n, acts)) :
    c.step (.deliver k) = .ok ((c.take k).act p.dst n (sentPackets p.dst acts)) :=
  step_of_turn (by rw [turn_deliver hp, h])

theorem turn_node {c c₀ : ChordNet} {e : ChordEvent} {a : Ipv4Address} {r : ChordResult}
    (h : c.turn e = some (c₀, a, r)) : c₀.node = c.node := by
  cases e with
  | deliver k =>
      simp only [turn] at h
      split at h
      · cases h
      · cases h
        rfl
  | fixFinger b =>
      simp only [turn] at h
      split at h
      · cases h
        rfl
      · cases h
  | _ =>
      cases h
      rfl

theorem turn_actor {c c₀ : ChordNet} {e : ChordEvent} {a : Ipv4Address} {r : ChordResult}
    (h : c.turn e = some (c₀, a, r)) : c.actor e = a := by
  cases e with
  | deliver k =>
      simp only [turn] at h
      split at h
      · cases h
      · rename_i p hp
        cases h
        simp [actor, hp]
  | fixFinger b =>
      simp only [turn] at h
      split at h
      · cases h
        rfl
      · cases h
  | _ =>
      cases h
      rfl

theorem turn_inFlight {c c₀ : ChordNet} {e : ChordEvent} {a : Ipv4Address} {r : ChordResult}
    (h : c.turn e = some (c₀, a, r)) :
    c₀.inFlight = c.inFlight ∨ ∃ (k : ℕ) (p : ChordPacket), e = .deliver k ∧
      c.inFlight[k]? = some p ∧ c₀.inFlight = c.inFlight.eraseIdx k := by
  cases e with
  | deliver k =>
      simp only [turn] at h
      split at h
      · cases h
      · rename_i p hp
        cases h
        exact Or.inr ⟨k, p, rfl, hp, rfl⟩
  | fixFinger b =>
      simp only [turn] at h
      split at h
      · cases h
        exact Or.inl rfl
      · cases h
  | _ =>
      cases h
      exact Or.inl rfl

theorem turn_inFlight_subset {c c₀ : ChordNet} {e : ChordEvent} {a : Ipv4Address}
    {r : ChordResult} (h : c.turn e = some (c₀, a, r)) : ∀ p ∈ c₀.inFlight, p ∈ c.inFlight := by
  rcases turn_inFlight h with hsame | ⟨k, p, -, -, herase⟩
  · rw [hsame]
    exact fun p hp => hp
  · rw [herase]
    exact fun p hp => List.mem_of_mem_eraseIdx hp

theorem step_countP {c c' : ChordNet} {e : ChordEvent} {f : ChordPacket → Bool}
    (h : c.step e = .ok c')
    (hsent : ∀ (c₀ : ChordNet) (b : Ipv4Address) (n : ChordNode) (acts : List ChordAction),
      c.turn e = some (c₀, b, .ok (n, acts)) → ∀ q ∈ sentPackets b acts, f q = false)
    (hdeliver : ∀ k q, e = .deliver k → c.inFlight[k]? = some q → f q = false) :
    c'.inFlight.countP f = c.inFlight.countP f ∧
      ∀ q ∈ c'.inFlight, f q = true → q ∈ c.inFlight := by
  rcases step_cases h with ⟨-, rfl⟩ | ⟨c₀, b, n, acts, hturn, rfl⟩
  · exact ⟨rfl, fun q hq _ => hq⟩
  · have hno := hsent c₀ b n acts hturn
    constructor
    · have hzero : (sentPackets b acts).countP f = 0 :=
        List.countP_eq_zero.mpr fun q hq => by simp [hno q hq]
      rw [Net.act_inFlight, List.countP_append, hzero, Nat.add_zero]
      rcases turn_inFlight hturn with hinFlight | ⟨k, q, he, hk, hinFlight⟩
      · rw [hinFlight]
      · rw [hinFlight, countP_eq_eraseIdx f hk, hdeliver k q he hk]
        simp
    · intro q hq hof
      rcases List.mem_append.mp hq with hq | hq
      · exact turn_inFlight_subset hturn q hq
      · rw [hno q hq] at hof
        cases hof

end ChordNet

end PennSearch
