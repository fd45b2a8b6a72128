import Mathlib.Data.List.Nodup
import Mathlib.Order.Interval.Set.Basic

/-!
# Requests under drawn names

A party names each request by the next value of a counter, which it also draws
for other purposes, and closes a request at most once, with an outcome. `RequestRecord`
is the record of this: how many names have been drawn, the requests opened and the
outcomes so far. As long as the names drawn are distinct, the requests that wait
for an outcome are told apart by their names (`Sound`).
-/

/-- The requests opened so far, and the outcomes of those that are closed. -/
structure RequestRecord (κ ρ ω : Type*) where
  drawn : ℕ
  opened : List (κ × ρ)
  closed : List (κ × ω)

namespace RequestRecord

variable {κ ρ ω : Type*}

def none : RequestRecord κ ρ ω := ⟨0, [], []⟩

def Waiting (q : RequestRecord κ ρ ω) (id : κ) (r : ρ) : Prop :=
  (id, r) ∈ q.opened ∧ id ∉ q.closed.map Prod.fst

def openAs (q : RequestRecord κ ρ ω) (id : κ) (r : ρ) : RequestRecord κ ρ ω :=
  { q with drawn := q.drawn + 1, opened := q.opened ++ [(id, r)] }

def draw (q : RequestRecord κ ρ ω) (k : ℕ) : RequestRecord κ ρ ω := { q with drawn := q.drawn + k }

def close (q : RequestRecord κ ρ ω) (outcomes : List (κ × ω)) : RequestRecord κ ρ ω :=
  { q with closed := q.closed ++ outcomes }

variable {q : RequestRecord κ ρ ω} {id id' : κ} {r r' : ρ} {k : ℕ} {outcomes : List (κ × ω)}

@[simp] theorem opened_draw : (q.draw k).opened = q.opened := rfl

@[simp] theorem closed_draw : (q.draw k).closed = q.closed := rfl

@[simp] theorem opened_openAs : (q.openAs id r).opened = q.opened ++ [(id, r)] := rfl

@[simp] theorem closed_openAs : (q.openAs id r).closed = q.closed := rfl

@[simp] theorem opened_close : (q.close outcomes).opened = q.opened := rfl

@[simp] theorem closed_close : (q.close outcomes).closed = q.closed ++ outcomes := rfl

theorem waiting_draw : (q.draw k).Waiting id r ↔ q.Waiting id r := Iff.rfl

theorem waiting_close :
    (q.close outcomes).Waiting id r ↔ q.Waiting id r ∧ id ∉ outcomes.map Prod.fst := by
  rw [Waiting, Waiting, opened_close, closed_close, List.map_append, List.mem_append, not_or,
    and_assoc]

/-- The `k`-th name drawn is `name k`. Each request has a name of its own, and each
outcome is that of a request. -/
structure Sound (name : ℕ → κ) (q : RequestRecord κ ρ ω) : Prop where
  named : ∀ p ∈ q.opened, ∃ k < q.drawn, p.1 = name k
  opened_nodup : (q.opened.map Prod.fst).Nodup
  closed_nodup : (q.closed.map Prod.fst).Nodup
  closed_sub : ∀ p ∈ q.closed, ∃ r, (p.1, r) ∈ q.opened

namespace Sound

variable {name : ℕ → κ}

theorem none : Sound name (RequestRecord.none : RequestRecord κ ρ ω) where
  named p hp := by cases hp
  opened_nodup := List.nodup_nil
  closed_nodup := List.nodup_nil
  closed_sub p hp := by cases hp

theorem eq_of_opened (h : q.Sound name) (hr : (id, r) ∈ q.opened) (hr' : (id, r') ∈ q.opened) :
    r = r' := by
  have heq : (id, r) = (id, r') := List.inj_on_of_nodup_map h.opened_nodup hr hr' rfl
  exact congrArg Prod.snd heq

/-- A name is drawn for the first time. -/
theorem fresh (h : q.Sound name) (hname : Set.InjOn name (Set.Iic q.drawn)) (r : ρ) :
    (name q.drawn, r) ∉ q.opened := by
  intro hr
  obtain ⟨k, hk, heq⟩ := h.named _ hr
  have hd : q.drawn = k := hname (Set.mem_Iic.mpr le_rfl) (Set.mem_Iic.mpr hk.le) heq
  omega

theorem draw (h : q.Sound name) (k : ℕ) : (q.draw k).Sound name where
  named p hp := by
    obtain ⟨j, hj, heq⟩ := h.named p hp
    exact ⟨j, Nat.lt_add_right k hj, heq⟩
  opened_nodup := h.opened_nodup
  closed_nodup := h.closed_nodup
  closed_sub := h.closed_sub

theorem openAs (h : q.Sound name) (hname : Set.InjOn name (Set.Iic q.drawn)) (r : ρ) :
    (q.openAs (name q.drawn) r).Sound name where
  named p hp := by
    rcases List.mem_append.mp hp with hp | hp
    · obtain ⟨j, hj, heq⟩ := h.named p hp
      exact ⟨j, Nat.lt_succ_of_lt hj, heq⟩
    · rw [List.mem_singleton.mp hp]
      exact ⟨q.drawn, Nat.lt_succ_self _, rfl⟩
  opened_nodup := by
    rw [opened_openAs, List.map_append]
    refine List.nodup_append.mpr ⟨h.opened_nodup, List.nodup_singleton _, ?_⟩
    rintro id hid _ hnew rfl
    obtain ⟨⟨id, r'⟩, hr', rfl⟩ := List.mem_map.mp hid
    obtain rfl : id = name q.drawn := List.mem_singleton.mp hnew
    exact h.fresh hname r' hr'
  closed_nodup := h.closed_nodup
  closed_sub p hp := by
    obtain ⟨r', hr'⟩ := h.closed_sub p hp
    exact ⟨r', List.mem_append_left _ hr'⟩

theorem waiting_openAs (h : q.Sound name) (hname : Set.InjOn name (Set.Iic q.drawn)) :
    (q.openAs (name q.drawn) r).Waiting id r' ↔
      (id = name q.drawn ∧ r' = r) ∨ q.Waiting id r' := by
  rw [Waiting, opened_openAs, closed_openAs, List.mem_append, List.mem_singleton, Prod.mk.injEq]
  constructor
  · rintro ⟨hopen | hnew, hclosed⟩
    · exact Or.inr ⟨hopen, hclosed⟩
    · exact Or.inl hnew
  · rintro (⟨rfl, rfl⟩ | ⟨hopen, hclosed⟩)
    · refine ⟨Or.inr ⟨rfl, rfl⟩, fun hclosed => ?_⟩
      obtain ⟨p, hp, heq⟩ := List.mem_map.mp hclosed
      obtain ⟨r₀, hr₀⟩ := h.closed_sub p hp
      exact h.fresh hname r₀ (heq ▸ hr₀)
    · exact ⟨Or.inl hopen, hclosed⟩

/-- Requests that wait are closed, each once. -/
theorem close (h : q.Sound name) (hnodup : (outcomes.map Prod.fst).Nodup)
    (hwaiting : ∀ p ∈ outcomes, ∃ r, q.Waiting p.1 r) : (q.close outcomes).Sound name where
  named := h.named
  opened_nodup := h.opened_nodup
  closed_nodup := by
    rw [closed_close, List.map_append]
    refine List.nodup_append.mpr ⟨h.closed_nodup, hnodup, ?_⟩
    rintro id hid _ hnew rfl
    obtain ⟨p, hp, rfl⟩ := List.mem_map.mp hnew
    obtain ⟨r, -, hopen⟩ := hwaiting p hp
    exact hopen hid
  closed_sub p hp := by
    rcases List.mem_append.mp hp with hp | hp
    · exact h.closed_sub p hp
    · obtain ⟨r, hr, -⟩ := hwaiting p hp
      exact ⟨r, hr⟩

end Sound

end RequestRecord
