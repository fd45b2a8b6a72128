import PennSearch.Chord.Net

/-!
# The pointer protocol

What the ring is made of, without fingers, transaction ids and lookups: every
node has a membership flag, a successor and a predecessor, and eight message
types read or write them. `Reacts` and `RingTurn` list what a node can do with a
message and at an event, one named case per branch; the hop that a join request
is handed to is left open up to a relation `F` of possible fingers.

Results about joins, leaves and stabilization are proved about `RingTurn`; the
simulation that carries them over to the Chord network is in
`Chord/Simulation.lean`.
-/

namespace PennSearch

open Clockwise MessagePassing

@[ext] structure Pointers where
  member : Bool
  successor : Ipv4Address
  predecessor : Ipv4Address
deriving DecidableEq

inductive RingMessage
  | joinChord
  | findSuccessor (requester : Ipv4Address) (target : Digest)
  | joinChordSuccess (successor : Ipv4Address)
  | notify
  | stabilizeReq
  | stabilizeResp (predecessor : Ipv4Address)
  | leaveSuccessor (predecessor : Ipv4Address)
  | leavePredecessor (successor : Ipv4Address)
deriving DecidableEq

/-- What a node does besides moving its pointers. -/
inductive RingAction
  | send (dst : Ipv4Address) (msg : RingMessage)
  | joinNotify (predecessor : Ipv4Address)
  | leaveNotify (successor : Ipv4Address)
deriving DecidableEq

abbrev RingPacket := Packet Ipv4Address RingMessage

abbrev RingNet := Net Ipv4Address Pointers RingMessage

def Pointers.outside : Pointers := ⟨false, .getAny, .getAny⟩

/-- The packets among the actions of node `src`; those to `0.0.0.0` vanish. -/
def ringSends (src : Ipv4Address) (out : List RingAction) : List RingPacket :=
  out.filterMap fun
    | .send dst msg => if dst = .getAny then none else some ⟨src, dst, msg⟩
    | _ => none

theorem mem_ringSends {src : Ipv4Address} {out : List RingAction} {p : RingPacket} :
    p ∈ ringSends src out ↔ p.src = src ∧ p.dst ≠ .getAny ∧ .send p.dst p.msg ∈ out := by
  obtain ⟨psrc, pdst, pmsg⟩ := p
  simp only [ringSends, List.mem_filterMap]
  constructor
  · rintro ⟨act, hact, h⟩
    cases act with
    | send dst message =>
        by_cases hdst : dst = .getAny
        · simp [hdst] at h
        · obtain ⟨rfl, rfl, rfl⟩ : src = psrc ∧ dst = pdst ∧ message = pmsg := by
            simpa [hdst] using h
          exact ⟨rfl, hdst, hact⟩
    | _ => simp at h
  · rintro ⟨rfl, hdst, hact⟩
    exact ⟨_, hact, by simp [hdst]⟩

theorem eq_of_mem_ringSends {src dst : Ipv4Address} {msg : RingMessage} {p : RingPacket}
    (h : p ∈ ringSends src [.send dst msg]) : p = ⟨src, dst, msg⟩ := by
  obtain ⟨psrc, pdst, pmsg⟩ := p
  obtain ⟨hsrc, -, hmsg⟩ := mem_ringSends.mp h
  obtain ⟨hdst, hmsg⟩ := RingAction.send.inj (List.mem_singleton.mp hmsg)
  exact congr (congrArg₂ Packet.mk hsrc hdst) hmsg

theorem ringSends_send {src dst : Ipv4Address} (h : dst ≠ .getAny) (msg : RingMessage) :
    ringSends src [.send dst msg] = [⟨src, dst, msg⟩] := by
  simp [ringSends, h]

@[simp] theorem ringSends_nil (src : Ipv4Address) : ringSends src [] = [] := rfl

inductive RingEvent
  | join (node nodeAddr : Ipv4Address)
  | leave (node : Ipv4Address)
  | stabilize (node : Ipv4Address)
  | deliver (position : ℕ)
  | quiet

/-- The network once the packet of a delivery is taken out. -/
def RingNet.before (s : RingNet) : RingEvent → RingNet
  | .deliver k => s.take k
  | _ => s

@[simp] theorem RingNet.before_node (s : RingNet) (e : RingEvent) :
    (s.before e).node = s.node := by
  cases e <;> rfl

theorem RingNet.mem_before {s : RingNet} {e : RingEvent} {p : RingPacket}
    (h : p ∈ (s.before e).inFlight) : p ∈ s.inFlight := by
  cases e with
  | deliver k => exact List.mem_of_mem_eraseIdx h
  | _ => exact h

variable [Sha1]

def Pointers.owns (p : Pointers) (a : Ipv4Address) (t : Fin (2 ^ 160)) : Prop :=
  InArc (nodePos a) (nodePos p.successor) t

/-- `Reacts F a p src m q out`: node `a` with pointers `p` receives `m` from
`src`, moves to `q` and performs `out`. -/
inductive Reacts (F : Ipv4Address → Prop) (a : Ipv4Address) (p : Pointers) (src : Ipv4Address) :
    RingMessage → Pointers → List RingAction → Prop
  | joinRefused (outside : p.member = false) : Reacts F a p src .joinChord p []
  | joinSplit (member : p.member = true) (alone : p.successor = a) :
      Reacts F a p src .joinChord { p with successor := src }
        [.send src (.joinChordSuccess a), .send src .notify]
  | joinAnswer (member : p.member = true) (several : p.successor ≠ a)
      (owns : p.owns a (nodePos src)) :
      Reacts F a p src .joinChord p [.send src (.joinChordSuccess p.successor)]
  | joinForward {hop : Ipv4Address} (member : p.member = true) (several : p.successor ≠ a)
      (owns : ¬ p.owns a (nodePos src)) (known : hop = p.successor ∨ F hop) :
      Reacts F a p src .joinChord p [.send hop (.findSuccessor src (sha1 src))]
  | findAnswer {x : Ipv4Address} {t : Digest} (owns : p.owns a t.pos) :
      Reacts F a p src (.findSuccessor x t) p [.send x (.joinChordSuccess p.successor)]
  | findForward {x hop : Ipv4Address} {t : Digest} (owns : ¬ p.owns a t.pos)
      (known : hop = p.successor ∨ F hop) :
      Reacts F a p src (.findSuccessor x t) p [.send hop (.findSuccessor x t)]
  | joined {s : Ipv4Address} :
      Reacts F a p src (.joinChordSuccess s) ⟨true, s, .getAny⟩ [.send s .notify]
  | notifyFirst (none : p.predecessor = .getAny) :
      Reacts F a p src .notify { p with predecessor := src } []
  | notifyAdopt (some : p.predecessor ≠ .getAny)
      (arc : InArc (nodePos p.predecessor) (nodePos a) (nodePos src)) :
      Reacts F a p src .notify { p with predecessor := src } [.joinNotify src]
  | notifyIgnore (some : p.predecessor ≠ .getAny)
      (arc : ¬ InArc (nodePos p.predecessor) (nodePos a) (nodePos src)) :
      Reacts F a p src .notify p []
  | reqAnswer (some : p.predecessor ≠ .getAny) :
      Reacts F a p src .stabilizeReq p [.send src (.stabilizeResp p.predecessor)]
  | reqIgnore (none : p.predecessor = .getAny) : Reacts F a p src .stabilizeReq p []
  | respAdopt {q : Ipv4Address} (some : q ≠ .getAny) (ne : nodePos q ≠ nodePos a)
      (owns : p.owns a (nodePos q)) :
      Reacts F a p src (.stabilizeResp q) { p with successor := q } [.send q .notify]
  | respKeep {q : Ipv4Address}
      (keep : ¬ (q ≠ .getAny ∧ nodePos q ≠ nodePos a ∧ p.owns a (nodePos q))) :
      Reacts F a p src (.stabilizeResp q) p []
  | leaveSuccessor {q : Ipv4Address} :
      Reacts F a p src (.leaveSuccessor q) { p with predecessor := q } []
  | leavePredecessor {q : Ipv4Address} :
      Reacts F a p src (.leavePredecessor q) { p with successor := q } []

/-- `RingTurn F s e a q out`: at event `e` node `a` moves to the pointers `q` and
performs `out`. -/
inductive RingTurn (F : Ipv4Address → Ipv4Address → Prop) (s : RingNet) :
    RingEvent → Ipv4Address → Pointers → List RingAction → Prop
  | quiet (a : Ipv4Address) : RingTurn F s .quiet a (s.node a) []
  | joinIgnored {a b : Ipv4Address}
      (ignored : (s.node a).member = true ∨ (b ≠ a ∧ b = .getAny)) :
      RingTurn F s (.join a b) a (s.node a) []
  | joinLandmark {a : Ipv4Address} (outside : (s.node a).member = false) :
      RingTurn F s (.join a a) a ⟨true, a, .getAny⟩ []
  | joinRequest {a b : Ipv4Address} (outside : (s.node a).member = false) (ne : b ≠ a)
      (some : b ≠ .getAny) :
      RingTurn F s (.join a b) a (s.node a) [.send b .joinChord]
  | leaveIgnored {a : Ipv4Address} (outside : (s.node a).member = false) :
      RingTurn F s (.leave a) a (s.node a) []
  | leaveAlone {a : Ipv4Address} (member : (s.node a).member = true)
      (alone : (s.node a).successor = a) :
      RingTurn F s (.leave a) a .outside []
  | leave {a : Ipv4Address} (member : (s.node a).member = true)
      (several : (s.node a).successor ≠ a) :
      RingTurn F s (.leave a) a .outside
        [.send (s.node a).successor (.leaveSuccessor
            (if (s.node a).successor = (s.node a).predecessor then .getAny
              else (s.node a).predecessor)),
          .leaveNotify (s.node a).successor,
          .send (s.node a).predecessor (.leavePredecessor (s.node a).successor)]
  | stabilizeSkip {a : Ipv4Address}
      (skip : ¬ ((s.node a).member = true ∧ (s.node a).successor ≠ a)) :
      RingTurn F s (.stabilize a) a (s.node a) []
  | stabilize {a : Ipv4Address} (member : (s.node a).member = true)
      (several : (s.node a).successor ≠ a) :
      RingTurn F s (.stabilize a) a (s.node a) [.send (s.node a).successor .stabilizeReq]
  | deliver {k : ℕ} {p : RingPacket} {q : Pointers} {out : List RingAction}
      (packet : s.inFlight[k]? = some p)
      (reacts : Reacts (F p.dst) p.dst (s.node p.dst) p.src p.msg q out) :
      RingTurn F s (.deliver k) p.dst q out

def RingStep (F : Ipv4Address → Ipv4Address → Prop) (s : RingNet) (e : RingEvent)
    (s' : RingNet) : Prop :=
  ∃ a q out, RingTurn F s e a q out ∧ s' = (s.before e).act a q (ringSends a out)

end PennSearch
