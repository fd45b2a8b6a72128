import Mathlib.Data.Fintype.EquivFin
import Mathlib.Data.Fintype.Basic
import PennSearch.Search.Placement
import PennSearch.Search.Query

/-!
# Conservation of postings

Nodes call `PassKeysJoin` and `PassKeysLeave` at any time and with any address,
and the messages are delivered in any order. What there is of every key, at all
nodes and in flight, stays the same. Here every message that a node sends is in
flight, also one to 0.0.0.0 or one that is too long for a datagram.
-/

namespace PennSearch

open Clockwise MessagePassing

/-- There are finitely many addresses. -/
noncomputable local instance addresses : Fintype Ipv4Address :=
  Fintype.ofInjective (fun a => a.address.toFin) fun a b h => by
    cases a
    cases b
    exact congrArg Ipv4Address.mk (UInt32.toFin_inj.mp h)

/-- The packets of node `src`, all of them. -/
def reliablePackets (src : Ipv4Address) (acts : List SearchAction) : List SearchPacket :=
  acts.filterMap fun
    | .sendTo dst message => some ⟨src, dst, message⟩
    | _ => none

inductive HandOverEvent
  | passKeysJoin (node predecessorAddress : Ipv4Address)
  | passKeysLeave (node successorAddress : Ipv4Address)
  | deliver (position : ℕ)

theorem mem_reliablePackets {src : Ipv4Address} {acts : List SearchAction} {p : SearchPacket} :
    p ∈ reliablePackets src acts ↔ p.src = src ∧ .sendTo p.dst p.msg ∈ acts := by
  obtain ⟨psrc, pdst, pmsg⟩ := p
  simp only [reliablePackets, List.mem_filterMap]
  constructor
  · rintro ⟨act, hact, h⟩
    cases act with
    | sendTo dst message =>
        obtain ⟨rfl, rfl, rfl⟩ : src = psrc ∧ dst = pdst ∧ message = pmsg := by simpa using h
        exact ⟨rfl, hact⟩
    | _ => cases h
  · rintro ⟨rfl, hact⟩
    exact ⟨_, hact, rfl⟩

def SearchNet.CarriesPostings (c : SearchNet) : Prop :=
  ∀ p ∈ c.inFlight, ∃ e, p.msg.payload.posted = some e

variable [Sha1]

/-- The keys that `PassKeysJoin` leaves at a node: those on the closed arc from
the predecessor to the node. -/
theorem SearchNode.keepsKey_iff (n : SearchNode) (predecessorAddress : Ipv4Address)
    (key : CxxString) :
    n.keepsKey predecessorAddress key = true ↔
      InArc (nodePos predecessorAddress) (nodePos n.localAddress) (keyPos key) := by
  rw [← inArc_iff_branch, nodePos, nodePos, keyPos]
  unfold keepsKey
  simp only [compareSHA1_ne_zero_iff]
  split
  · exact decide_eq_true_iff
  · rw [decide_eq_true_iff, and_comm]

def HandOverEvent.step (c : SearchNet) : HandOverEvent → Except Fault SearchNet
  | .passKeysJoin a predecessorAddress => do
      let (n, acts) ← (c.node a).passKeysJoin predecessorAddress
      return c.act a n (reliablePackets a acts)
  | .passKeysLeave a successorAddress => do
      let (n, acts) ← (c.node a).passKeysLeave successorAddress
      return c.act a n (reliablePackets a acts)
  | .deliver k =>
      match c.inFlight[k]? with
      | none => .ok c
      | some p => do
          let (n, acts) ← (c.node p.dst).recvMessage p.msg p.src
          return (c.take k).act p.dst n (reliablePackets p.dst acts)

namespace SearchNet

variable {c c' : SearchNet} {a : Ipv4Address} {n : SearchNode} {acts : List SearchAction}

omit [Sha1] in
theorem CarriesPostings.handsOver {pass : CxxString → Prop} [DecidablePred pass] {dst : Ipv4Address}
    (h : c.CarriesPostings) (ho : HandsOver pass dst (c.node a) n acts) :
    CarriesPostings (c.act a n (reliablePackets a acts)) := by
  intro p hp
  rw [Net.act_inFlight, List.mem_append] at hp
  rcases hp with hp | hp
  · exact h p hp
  · obtain ⟨-, hact⟩ := mem_reliablePackets.mp hp
    obtain ⟨tx, key, docVector, heq, -⟩ := ho.sends _ hact
    obtain ⟨-, hmsg⟩ := SearchAction.sendTo.inj heq
    exact ⟨(key, docVector), by rw [hmsg]; rfl⟩

end SearchNet

end PennSearch

namespace PennSearch

open MessagePassing

attribute [local instance] sampleSha1 addresses

end PennSearch
