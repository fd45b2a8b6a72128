import Mathlib.Algebra.Order.BigOperators.Group.Finset
import PennSearch.Library.Network

/-!
# Floods end

Parties pass items on when they first learn them. With finitely many parties and
items, and at most `B` packets for each item that a party learns, `potential` counts
the deliveries that can still happen: the packets in flight, and `B` for every item
that some party does not know. A packet that teaches nothing is used up
(`potential_take_lt`), and one that teaches an item is paid for by it
(`potential_act_lt`).
-/

namespace MessagePassing

variable {ι σ μ η : Type*} [Fintype ι] [DecidableEq ι] {knows : σ → η → Bool} {P : Finset η}
  {B : ℕ} {c : Net ι σ μ} {k : ℕ}

def unknown (knows : σ → η → Bool) (P : Finset η) (s : σ) : Finset η :=
  P.filter fun x => knows s x = false

def potential (knows : σ → η → Bool) (P : Finset η) (B : ℕ) (c : Net ι σ μ) : ℕ :=
  c.inFlight.length + B * ∑ i, (unknown knows P (c.node i)).card

omit [DecidableEq ι] in
theorem potential_take_lt (hk : k < c.inFlight.length) :
    potential knows P B (c.take k) < potential knows P B c := by
  have hlen : (c.inFlight.eraseIdx k).length + 1 = c.inFlight.length :=
    List.length_eraseIdx_add_one hk
  simp only [potential, Net.take_node, Net.take_inFlight]
  omega

theorem potential_act_lt {i : ι} {s : σ} {sent : List (Packet ι μ)} {x : η}
    (hk : k < c.inFlight.length) (hx : x ∈ P) (hnew : knows (c.node i) x = false)
    (hlearned : knows s x = true) (hkeep : ∀ y, knows (c.node i) y = true → knows s y = true)
    (hsent : sent.length ≤ B) :
    potential knows P B ((c.take k).act i s sent) < potential knows P B c := by
  have hlen : (c.inFlight.eraseIdx k).length + 1 = c.inFlight.length :=
    List.length_eraseIdx_add_one hk
  have hsub : unknown knows P s ⊂ unknown knows P (c.node i) := by
    refine Finset.ssubset_iff_subset_ne.mpr ⟨fun y hy => ?_, fun heq => ?_⟩
    · obtain ⟨hyP, hy⟩ := Finset.mem_filter.mp hy
      refine Finset.mem_filter.mpr ⟨hyP, ?_⟩
      by_contra hcon
      rw [hkeep y (by simpa using hcon)] at hy
      cases hy
    · have hmem : x ∈ unknown knows P s := heq ▸ Finset.mem_filter.mpr ⟨hx, hnew⟩
      rw [(Finset.mem_filter.mp hmem).2] at hlearned
      cases hlearned
  have hsum : ∑ j, (unknown knows P (((c.take k).act i s sent).node j)).card + 1 ≤
      ∑ j, (unknown knows P (c.node j)).card := by
    refine Nat.succ_le_of_lt (Finset.sum_lt_sum (fun j _ => ?_) ⟨i, Finset.mem_univ i, ?_⟩)
    · rw [Net.act_node]
      split
      · rename_i hj
        rw [hj]
        exact Finset.card_le_card hsub.subset
      · exact le_rfl
    · rw [Net.act_node_self]
      exact Finset.card_lt_card hsub
  have hmul := Nat.mul_le_mul_left B hsum
  rw [Nat.mul_add, Nat.mul_one] at hmul
  simp only [potential, Net.act_inFlight, Net.take_inFlight, List.length_append] at hmul ⊢
  omega

end MessagePassing
