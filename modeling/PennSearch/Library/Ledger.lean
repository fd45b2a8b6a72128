import Mathlib.Algebra.BigOperators.Group.Finset.Basic
import Mathlib.Algebra.BigOperators.Group.List.Basic
import Mathlib.Tactic.Abel
import PennSearch.Library.Network

/-!
# Values that parties hold and messages carry

Every party holds a value and every message carries one, in a commutative
monoid. `Net.total` adds up what the parties `N` hold and what is in flight. A
delivery takes the value of one packet out of the network, and a local step that
keeps or sends exactly what the party held before, and what was added, keeps the
total.
-/

namespace MessagePassing

variable {ι σ μ V : Type*} [AddCommMonoid V]

def inTransit (carried : μ → V) (l : List (Packet ι μ)) : V :=
  (l.map fun p => carried p.msg).sum

section InTransit

variable {carried : μ → V} {l : List (Packet ι μ)}

@[simp] theorem inTransit_nil : inTransit carried ([] : List (Packet ι μ)) = 0 := rfl

@[simp] theorem inTransit_cons (p : Packet ι μ) (l : List (Packet ι μ)) :
    inTransit carried (p :: l) = carried p.msg + inTransit carried l := rfl

@[simp] theorem inTransit_append (l l' : List (Packet ι μ)) :
    inTransit carried (l ++ l') = inTransit carried l + inTransit carried l' := by
  simp [inTransit]

theorem inTransit_eraseIdx {k : ℕ} {p : Packet ι μ} (hp : l[k]? = some p) :
    inTransit carried l = carried p.msg + inTransit carried (l.eraseIdx k) := by
  obtain ⟨pre, post, hsplit, -, herase⟩ := exists_split hp
  rw [herase, hsplit, inTransit_append, inTransit_append, inTransit_cons, add_left_comm]

end InTransit

namespace Net

variable (held : σ → V) (carried : μ → V)

/-- What the parties `N` hold, and what is in flight. -/
def total (N : Finset ι) (c : Net ι σ μ) : V :=
  ∑ i ∈ N, held (c.node i) + inTransit carried c.inFlight

variable {held carried} {N : Finset ι} {c : Net ι σ μ}

theorem total_of_inFlight_nil (h : c.inFlight = []) :
    c.total held carried N = ∑ i ∈ N, held (c.node i) := by
  rw [total, h, inTransit_nil, add_zero]

theorem total_eq_held (h : c.inFlight = []) {i : ι} (hi : i ∈ N)
    (hother : ∀ j ∈ N, j ≠ i → held (c.node j) = 0) :
    c.total held carried N = held (c.node i) := by
  rw [total_of_inFlight_nil h]
  exact Finset.sum_eq_single_of_mem i hi hother

theorem total_take {k : ℕ} {p : Packet ι μ} (hp : c.inFlight[k]? = some p) :
    c.total held carried N = carried p.msg + (c.take k).total held carried N := by
  rw [total, inTransit_eraseIdx hp, add_left_comm]
  rfl

variable [DecidableEq ι]

/-- A party of `N` whose value and messages come from its value before and from
`x` adds `x` to the total. -/
theorem total_act {i : ι} {s : σ} {sent : List (Packet ι μ)} {x : V} (hi : i ∈ N)
    (h : held s + inTransit carried sent = held (c.node i) + x) :
    (c.act i s sent).total held carried N = c.total held carried N + x := by
  have hrest : ∑ j ∈ N.erase i, held ((c.act i s sent).node j) =
      ∑ j ∈ N.erase i, held (c.node j) :=
    Finset.sum_congr rfl fun j hj => by rw [c.act_node_of_ne s sent (Finset.ne_of_mem_erase hj)]
  have hleft : (c.act i s sent).total held carried N =
      (held s + inTransit carried sent) +
        (∑ j ∈ N.erase i, held (c.node j) + inTransit carried c.inFlight) := by
    rw [total, ← Finset.add_sum_erase N _ hi, hrest, act_node_self, act_inFlight, inTransit_append]
    abel
  have hright : c.total held carried N =
      held (c.node i) + (∑ j ∈ N.erase i, held (c.node j) + inTransit carried c.inFlight) := by
    rw [total, ← Finset.add_sum_erase N _ hi, add_assoc]
  rw [hleft, h, hright]
  abel

end Net

end MessagePassing
