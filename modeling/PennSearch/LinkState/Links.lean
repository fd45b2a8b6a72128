import Mathlib.Combinatorics.SimpleGraph.Basic
import PennSearch.LinkState.Net

/-!
# Routers on links that go up and down

`Wiring` is what `simulator-main.cc` sets up once: the routers by their node
numbers, their addresses, and the point-to-point links between their interfaces,
several of which may join the same two routers. Which links are up changes
over time; a message that is sent on a link that is up is delivered later, in
any order, and one that is sent on a link that is down is lost.
-/

namespace PennSearch

open MessagePassing

structure Wiring where
  members : Finset UInt32
  maps : AddressMaps
  mainAddress : UInt32 → Ipv4Address
  socketAddresses : UInt32 → Std.ExtTreeMap LsSocket Ipv4Address
  peer : UInt32 → LsSocket → Option (UInt32 × LsSocket)
  number : ∀ u ∈ members, maps.addressNodeMap[mainAddress u]? = some u
  main_mem : ∀ u ∈ members, ∃ s : LsSocket, (socketAddresses u)[s]? = some (mainAddress u)
  main_ne : ∀ u ∈ members, mainAddress u ≠ .getAny
  peer_symm : ∀ {u v : UInt32} {s t : LsSocket}, peer u s = some (v, t) → peer v t = some (u, s)
  peer_mem : ∀ {u v : UInt32} {s t : LsSocket}, peer u s = some (v, t) →
    u ∈ members ∧ s ∈ socketAddresses u ∧ v ≠ u

variable {w : Wiring}

theorem Wiring.peer_mem_right {u v : UInt32} {s t : LsSocket} (h : w.peer u s = some (v, t)) :
    v ∈ w.members ∧ t ∈ w.socketAddresses v :=
  ⟨(w.peer_mem (w.peer_symm h)).1, (w.peer_mem (w.peer_symm h)).2.1⟩

theorem Wiring.main_inj {u v : UInt32} (hu : u ∈ w.members) (hv : v ∈ w.members)
    (h : w.mainAddress u = w.mainAddress v) : u = v :=
  Option.some.inj ((w.number u hu).symm.trans (h ▸ w.number v hv))

/-- Which links are up, seen from both ends alike. -/
structure Links (w : Wiring) where
  up : UInt32 → LsSocket → Bool
  symm : ∀ {u v : UInt32} {s t : LsSocket}, w.peer u s = some (v, t) → up u s = up v t

namespace Links

def set (l : Links w) (u : UInt32) (s : LsSocket) (b : Bool) : Links w where
  up x a := if (x = u ∧ a = s) ∨ w.peer u s = some (x, a) then b else l.up x a
  symm {x y a c} h := by
    have hends : ((x = u ∧ a = s) ∨ w.peer u s = some (x, a)) ↔
        ((y = u ∧ c = s) ∨ w.peer u s = some (y, c)) := by
      constructor
      · rintro (⟨rfl, rfl⟩ | hx)
        · exact Or.inr h
        · have hback := w.peer_symm hx
          rw [h] at hback
          cases hback
          exact Or.inl ⟨rfl, rfl⟩
      · rintro (⟨rfl, rfl⟩ | hy)
        · exact Or.inr (w.peer_symm h)
        · have hback := w.peer_symm hy
          rw [w.peer_symm h] at hback
          cases hback
          exact Or.inl ⟨rfl, rfl⟩
    simp only [hends, l.symm h]

def ears (l : Links w) : Ears UInt32 := fun u s =>
  match w.peer u s with
  | none => []
  | some q => if l.up u s then [q] else []

theorem mem_ears {l : Links w} {u : UInt32} {s : LsSocket} {q : UInt32 × LsSocket} :
    q ∈ l.ears u s ↔ w.peer u s = some q ∧ l.up u s = true := by
  unfold ears
  split
  · rename_i hnone
    simp [hnone]
  · rename_i q' hq
    by_cases hup : l.up u s = true
    · simp [hq, hup, eq_comm]
    · simp [hup]

def graph (l : Links w) : SimpleGraph UInt32 where
  Adj u v := ∃ s t, w.peer u s = some (v, t) ∧ l.up u s = true
  symm := ⟨by
    rintro u v ⟨s, t, hpeer, hup⟩
    exact ⟨t, s, w.peer_symm hpeer, l.symm hpeer ▸ hup⟩⟩
  loopless := ⟨by
    rintro u ⟨s, t, hpeer, -⟩
    exact (w.peer_mem hpeer).2.2 rfl⟩

theorem mem_of_adj {l : Links w} {u v : UInt32} (h : l.graph.Adj u v) : u ∈ w.members := by
  obtain ⟨s, t, hpeer, -⟩ := h
  exact (w.peer_mem hpeer).1

end Links

structure LinkedNet (w : Wiring) where
  net : LsNet UInt32
  links : Links w

inductive LinkedEvent
  | link (node : UInt32) (socket : LsSocket) (up : Bool)
  | router (e : LsNetEvent UInt32)
deriving DecidableEq

namespace LinkedNet

variable [CostQueue] {c c' : LinkedNet w} {e : LinkedEvent}

def start (w : Wiring) (links : Links w) (maxTTL singleHop : UInt8)
    (sequenceNumber : UInt32 → UInt32) :
    LinkedNet w where
  net :=
    { node := fun u => .start w.maps (w.mainAddress u) (w.socketAddresses u) maxTTL singleHop
        (sequenceNumber u)
      inFlight := [] }
  links := links

def step (c : LinkedNet w) : LinkedEvent → Except LsFault (LinkedNet w)
  | .link u s b => .ok { c with links := c.links.set u s b }
  | .router e => do
      let net ← LsNet.step c.links.ears c.net e
      return { c with net := net }

/-- Timers run at members, no counter of LSPs wraps around, and only packets that
are there are delivered. -/
def Allowed (c : LinkedNet w) : LinkedEvent → Prop
  | .link _ _ _ => True
  | .router (.ndRequests u) =>
      u ∈ w.members ∧ (c.net.node u).lspSequenceNumber.toNat + 1 < 2 ^ 64
  | .router (.deliver k) => k < c.net.inFlight.length

instance (c : LinkedNet w) (e : LinkedEvent) : Decidable (c.Allowed e) :=
  match e with
  | .link _ _ _ => .isTrue trivial
  | .router (.ndRequests u) =>
      inferInstanceAs (Decidable (u ∈ w.members ∧
        (c.net.node u).lspSequenceNumber.toNat + 1 < 2 ^ 64))
  | .router (.deliver k) => inferInstanceAs (Decidable (k < c.net.inFlight.length))

/-- The kinds of steps; a delivery of a packet that is not there does nothing. -/
theorem step_ok_cases (h : c.step e = .ok c') :
    (∃ u s b, e = .link u s b ∧ c' = { c with links := c.links.set u s b }) ∨
      (∃ u n sent, e = .router (.ndRequests u) ∧ (c.net.node u).ndRequests = .ok (n, sent) ∧
        c' = { c with net := c.net.act u n (transmit c.links.ears u sent) }) ∨
      (∃ k p n sent, e = .router (.deliver k) ∧ c.net.inFlight[k]? = some p ∧
        (c.net.node p.dst).recvLSMessage p.msg.1 p.msg.2 = .ok (n, sent) ∧
        c' = { c with net := (c.net.take k).act p.dst n (transmit c.links.ears p.dst sent) }) ∨
      ∃ k, e = .router (.deliver k) ∧ c.net.inFlight[k]? = none ∧ c' = c := by
  cases e with
  | link u s b =>
      cases h
      exact Or.inl ⟨u, s, b, rfl, rfl⟩
  | router e =>
      obtain ⟨net, hnet, h⟩ := bind_eq_ok.mp h
      cases h
      cases e with
      | ndRequests u =>
          obtain ⟨⟨n, sent⟩, hn, hnet⟩ := bind_eq_ok.mp hnet
          cases hnet
          exact Or.inr (Or.inl ⟨u, n, sent, rfl, hn, rfl⟩)
      | deliver k =>
          cases hp : c.net.inFlight[k]? with
          | none =>
              simp only [LsNet.step, hp] at hnet
              cases hnet
              exact Or.inr (Or.inr (Or.inr ⟨k, rfl, hp, rfl⟩))
          | some p =>
              simp only [LsNet.step, hp, bind_eq_ok] at hnet
              obtain ⟨⟨n, sent⟩, hn, hnet⟩ := hnet
              cases hnet
              exact Or.inr (Or.inr (Or.inl ⟨k, p, n, sent, rfl, hp, hn, rfl⟩))

theorem step_cases (hok : c.Allowed e) (h : c.step e = .ok c') :
    (∃ u s b, e = .link u s b ∧ c' = { c with links := c.links.set u s b }) ∨
      (∃ u n sent, e = .router (.ndRequests u) ∧ u ∈ w.members ∧
        (c.net.node u).lspSequenceNumber.toNat + 1 < 2 ^ 64 ∧
        (c.net.node u).ndRequests = .ok (n, sent) ∧
        c' = { c with net := c.net.act u n (transmit c.links.ears u sent) }) ∨
      ∃ k p n sent, e = .router (.deliver k) ∧ c.net.inFlight[k]? = some p ∧
        (c.net.node p.dst).recvLSMessage p.msg.1 p.msg.2 = .ok (n, sent) ∧
        c' = { c with net := (c.net.take k).act p.dst n (transmit c.links.ears p.dst sent) } := by
  rcases step_ok_cases h with hlink | ⟨u, n, sent, rfl, hn, rfl⟩ | hdeliver | ⟨k, rfl, hnone, -⟩
  · exact Or.inl hlink
  · exact Or.inr (Or.inl ⟨u, n, sent, rfl, hok.1, hok.2, hn, rfl⟩)
  · exact Or.inr (Or.inr hdeliver)
  · have hk : k < c.net.inFlight.length := hok
    rw [List.getElem?_eq_getElem hk] at hnone
    cases hnone

end LinkedNet

end PennSearch
