import Mathlib.Combinatorics.SimpleGraph.Metric

/-!
# Hop counts

`Path S E n h v` is a path of `n` nodes along `E` that starts in the source `h`,
a node with `S`, and ends in `v`. A labelling of the nodes by numbers up to
`bound` is one of shortest paths (`IsLabelling.le_of_path`) as soon as each label
below the bound is attained and no edge can improve a label; the order in which
labels were improved does not matter.

In a simple graph with the neighbours of `u` as sources, the least number of
nodes is the distance from `u`, provided that the edges which enter or leave
the component of `u` are edges of the graph.
-/

namespace HopCount

variable {α : Type*} {S : α → Prop} {E E' : α → α → Prop} {n bound : ℕ} {h u v : α}

/-- A path of `n` nodes along `E` from a source `h` to `v`. -/
inductive Path (S : α → Prop) (E : α → α → Prop) : ℕ → α → α → Prop
  | source {h : α} (isSource : S h) : Path S E 1 h h
  | step {n : ℕ} {h u v : α} (path : Path S E n h u) (edge : E u v) : Path S E (n + 1) h v

theorem Path.isSource (hp : Path S E n h v) : S h := by
  induction hp with
  | source hS => exact hS
  | step _ _ ih => exact ih

theorem Path.pos (hp : Path S E n h v) : 0 < n := by
  cases hp with
  | source => exact Nat.one_pos
  | step => exact Nat.succ_pos _

/-- A shortest path has as many nodes as it is long, each of them ending a path that
is no longer. -/
theorem Path.exists_card_eq (hp : Path S E n h v) (hmin : ∀ m h', Path S E m h' v → n ≤ m) :
    ∃ T : Finset α, T.card = n ∧ ∀ u ∈ T, ∃ m h', Path S E m h' u ∧ m ≤ n := by
  classical
  induction hp with
  | @source h hS =>
      refine ⟨{h}, Finset.card_singleton h, ?_⟩
      intro u hu
      rw [Finset.mem_singleton.mp hu]
      exact ⟨1, h, .source hS, le_rfl⟩
  | @step n h u v hp edge ih =>
      obtain ⟨T, hcard, hT⟩ :=
        ih fun m h' hm => Nat.le_of_succ_le_succ (hmin (m + 1) h' (hm.step edge))
      -- the nodes before `v` end paths that are too short for `v`
      have hv : v ∉ T := by
        intro hv
        obtain ⟨m, h', hm, hle⟩ := hT v hv
        have hlt := hmin m h' hm
        omega
      refine ⟨insert v T, by rw [Finset.card_insert_of_notMem hv, hcard], ?_⟩
      intro w hw
      rcases Finset.mem_insert.mp hw with rfl | hw
      · exact ⟨n + 1, h, hp.step edge, le_rfl⟩
      · obtain ⟨m, h', hm, hle⟩ := hT w hw
        exact ⟨m, h', hm, Nat.le_succ_of_le hle⟩

theorem Path.exists_le_card {A : Finset α} (hA : ∀ n h v, Path S E n h v → v ∈ A)
    (hp : Path S E n h v) : ∃ m h', Path S E m h' v ∧ m ≤ A.card := by
  classical
  have hex : ∃ m, ∃ h', Path S E m h' v := ⟨n, h, hp⟩
  obtain ⟨h', hpath⟩ := Nat.find_spec hex
  obtain ⟨T, hcard, hT⟩ := hpath.exists_card_eq fun m h'' hm => Nat.find_min' hex ⟨h'', hm⟩
  have hsub : T ⊆ A := by
    intro u hu
    obtain ⟨m, h'', hm, -⟩ := hT u hu
    exact hA m h'' u hm
  exact ⟨_, h', hpath, hcard ▸ Finset.card_le_card hsub⟩

/-- Labels up to `bound` that no edge improves, each one below the bound being
the length of a path, of which `hop` is the first node. -/
structure IsLabelling (S : α → Prop) (E : α → α → Prop) (bound : ℕ) (label : α → ℕ)
    (hop : α → α) : Prop where
  attained : ∀ v, label v < bound → Path S E (label v) (hop v) v
  source_le : ∀ v, S v → label v ≤ 1
  relaxed : ∀ u v, label u < bound → E u v → label v ≤ label u + 1
  le_bound : ∀ v, label v ≤ bound

namespace IsLabelling

variable {label : α → ℕ} {hop : α → α}

theorem le_of_path (hl : IsLabelling S E bound label hop) (hp : Path S E n h v) : label v ≤ n := by
  induction hp with
  | source hS => exact hl.source_le _ hS
  | @step n h u v hp edge ih =>
      by_cases hu : label u < bound
      · have hv := hl.relaxed u v hu edge
        omega
      · have hv := hl.le_bound v
        omega

end IsLabelling

section Graph

variable {G : SimpleGraph α}

/-- A path to a node that `u` reaches is no shorter than the distance, when the
edges into the component of `u` are edges of the graph. -/
theorem Path.dist_le (hE : ∀ x y, G.Reachable u y → y ≠ u → E x y → G.Adj x y)
    (hp : Path (G.Adj u) E n h v) (hv : G.Reachable u v) : G.dist u v ≤ n := by
  induction hp with
  | source hS => exact (SimpleGraph.dist_eq_one_iff_adj.mpr hS).le
  | @step n h x y hp edge ih =>
      by_cases hy : y = u
      · subst hy
        simp
      · have hadj := hE x y hv hy edge
        have hx : G.Reachable u x := hv.trans hadj.symm.reachable
        calc G.dist u y ≤ G.dist u x + G.dist x y := hx.dist_triangle_left y
          _ = G.dist u x + 1 := by rw [SimpleGraph.dist_eq_one_iff_adj.mpr hadj]
          _ ≤ n + 1 := Nat.add_le_add_right (ih hx) 1

theorem Path.dist_source_lt (hE : ∀ x y, G.Reachable u y → y ≠ u → E x y → G.Adj x y)
    (hp : Path (G.Adj u) E n h v) (hv : G.Reachable u v) : G.dist h v < n := by
  induction hp with
  | source => simp
  | @step n h x y hp edge ih =>
      by_cases hy : y = u
      · subst hy
        have hdist : G.dist h y = 1 := SimpleGraph.dist_eq_one_iff_adj.mpr hp.isSource.symm
        have hpos := hp.pos
        omega
      · have hadj := hE x y hv hy edge
        have hx : G.Reachable u x := hv.trans hadj.symm.reachable
        have hhx : G.Reachable h x := hp.isSource.reachable.symm.trans hx
        calc G.dist h y ≤ G.dist h x + G.dist x y := hhx.dist_triangle_left y
          _ = G.dist h x + 1 := by rw [SimpleGraph.dist_eq_one_iff_adj.mpr hadj]
          _ < n + 1 := Nat.add_lt_add_right (ih hx) 1

theorem Path.reachable (hE : ∀ x y, G.Reachable u x → E x y → G.Adj x y)
    (hp : Path (G.Adj u) E n h v) : G.Reachable u v := by
  induction hp with
  | source hS => exact hS.reachable
  | step hp edge ih => exact ih.trans (hE _ _ ih edge).reachable

theorem exists_path_of_reachable
    (hE : ∀ x y, G.Reachable u x → x ≠ u → y ≠ u → G.Adj x y → E x y)
    (hv : G.Reachable u v) (hne : v ≠ u) : ∃ h, Path (G.Adj u) E (G.dist u v) h v := by
  obtain ⟨p, hlen⟩ := hv.exists_walk_length_eq_dist
  induction hd : G.dist u v generalizing v with
  | zero =>
      rw [hd] at hlen
      exact absurd (SimpleGraph.Walk.eq_of_length_eq_zero hlen).symm hne
  | succ n ih =>
      cases hp : p.reverse with
      | nil => exact absurd rfl hne
      | @cons _ x _ hadj q =>
          have hq : q.reverse.length = n := by
            have hrev : p.reverse.length = n + 1 := by
              rw [SimpleGraph.Walk.length_reverse, hlen, hd]
            rw [hp, SimpleGraph.Walk.length_cons] at hrev
            rw [SimpleGraph.Walk.length_reverse]
            omega
          have hx : G.Reachable u x := q.reverse.reachable
          have hxn : G.dist u x = n := by
            have hle : G.dist u x ≤ n := hq ▸ SimpleGraph.dist_le q.reverse
            have htri := hx.dist_triangle_left v
            rw [SimpleGraph.dist_eq_one_iff_adj.mpr hadj.symm, hd] at htri
            omega
          by_cases hxu : x = u
          · subst hxu
            have h0 : n = 0 := by rw [← hxn, SimpleGraph.dist_self]
            rw [h0]
            exact ⟨v, .source hadj.symm⟩
          · obtain ⟨h, hpath⟩ := ih hx hxu q.reverse (hq.trans hxn.symm) hxn
            exact ⟨h, .step hpath (hE x v hx hxu hne hadj.symm)⟩

end Graph

end HopCount
