import Mathlib.Logic.Function.Basic
import Mathlib.Data.List.Basic
import Mathlib.Data.Multiset.AddSub

/-!
# Message passing with faults

A system is a step function into `Except`: the error side is a step that the
program does not define (a fault), and a run stops there. `Run step ok s es t`
says that the events `es`, each allowed by `ok` in the state it meets, lead
from `s` to `t` without a fault; invariants are proved along `Run` from what
one step preserves.

`Net` is the state of parties that share a network: the local states, and the
packets in flight in the order of sending. A local step replaces one party's
state and appends the packets it sends; a delivery takes out the packet at one
position. Nothing is lost or duplicated. `IsOldest` singles out the deliveries
that keep the order between each pair of parties.
-/

namespace MessagePassing

theorem bind_eq_ok.{u, v} {φ : Type u} {α β : Type v} {x : Except φ α} {f : α → Except φ β}
    {b : β} :
    x >>= f = .ok b ↔ ∃ a, x = .ok a ∧ f a = .ok b := by
  cases x with
  | error e =>
      refine iff_of_false (fun h => by cases h) ?_
      rintro ⟨a, h, -⟩
      cases h
  | ok a =>
      constructor
      · exact fun h => ⟨a, rfl, h⟩
      · rintro ⟨a', h, hf⟩
        cases h
        exact hf

theorem bind_eq_error.{u, v} {φ : Type u} {α β : Type v} {x : Except φ α} {f : α → Except φ β}
    {e : φ} :
    x >>= f = .error e ↔ x = .error e ∨ ∃ a, x = .ok a ∧ f a = .error e := by
  cases x with
  | error e' => simp [bind, Except.bind]
  | ok a => simp [bind, Except.bind]

theorem eq_ok_of_toOption {φ α : Type*} {x : Except φ α} {a : α} (h : x.toOption = some a) :
    x = .ok a := by
  cases x with
  | error e => cases h
  | ok b => exact congrArg Except.ok (Option.some.inj h)

/-- A loop whose rounds succeed and carry an invariant of the rounds done so far. -/
theorem exists_foldlM_eq_ok {φ α γ : Type*} {f : α → γ → Except φ α} {P : List γ → α → Prop}
    {l : List γ} {a : α} (init : P [] a)
    (step : ∀ done c rest a, l = done ++ c :: rest → P done a →
      ∃ b, f a c = .ok b ∧ P (done ++ [c]) b) :
    ∃ b, l.foldlM f a = .ok b ∧ P l b := by
  suffices hrest : ∀ rest done a, l = done ++ rest → P done a →
      ∃ b, rest.foldlM f a = .ok b ∧ P l b from hrest l [] a rfl init
  intro rest
  induction rest with
  | nil =>
      intro done a hl ha
      rw [List.append_nil] at hl
      exact ⟨a, rfl, hl ▸ ha⟩
  | cons c rest ih =>
      intro done a hl ha
      obtain ⟨b, hb, hP⟩ := step done c rest a hl ha
      obtain ⟨b', hb', hP'⟩ := ih (done ++ [c]) b (by simpa using hl) hP
      refine ⟨b', ?_, hP'⟩
      rw [List.foldlM_cons, hb]
      exact hb'

theorem foldlM_induction {φ α γ : Type*} {f : α → γ → Except φ α} {P : List γ → α → Prop}
    {l : List γ} {a b : α} (h : l.foldlM f a = .ok b) (init : P [] a)
    (step : ∀ done c rest a b, l = done ++ c :: rest → P done a → f a c = .ok b →
      P (done ++ [c]) b) : P l b := by
  suffices hrest : ∀ rest done a, l = done ++ rest → P done a →
      rest.foldlM f a = .ok b → P l b from hrest l [] a rfl init h
  intro rest
  induction rest with
  | nil =>
      intro done a hl ha hb
      rw [List.append_nil] at hl
      cases hb
      exact hl ▸ ha
  | cons c rest ih =>
      intro done a hl ha hb
      rw [List.foldlM_cons] at hb
      obtain ⟨a', ha', hb⟩ := bind_eq_ok.mp hb
      exact ih (done ++ [c]) a' (by simpa using hl) (step done c rest a a' hl ha ha') hb

theorem exists_round_of_foldlM {φ α γ : Type*} {f : α → γ → Except φ α} {l : List γ} {a b : α}
    (h : l.foldlM f a = .ok b) : ∀ c ∈ l, ∃ a b, f a c = .ok b := by
  refine foldlM_induction (P := fun done _ => ∀ c ∈ done, ∃ a b, f a c = .ok b) h (by simp) ?_
  intro done c rest a b _ hdone hc c' hc'
  rcases List.mem_append.mp hc' with hc' | hc'
  · exact hdone c' hc'
  · rw [List.mem_singleton.mp hc']
    exact ⟨a, b, hc⟩

theorem exists_of_foldlM_eq_error {φ α γ : Type*} {f : α → γ → Except φ α} {l : List γ} {a : α}
    {e : φ} (h : l.foldlM f a = .error e) : ∃ c ∈ l, ∃ b, f b c = .error e := by
  induction l generalizing a with
  | nil => cases h
  | cons c l ih =>
      rw [List.foldlM_cons] at h
      rcases bind_eq_error.mp h with h | ⟨a', -, h⟩
      · exact ⟨c, List.mem_cons_self, a, h⟩
      · obtain ⟨c', hc', b, hb⟩ := ih h
        exact ⟨c', List.mem_cons_of_mem c hc', b, hb⟩

/-- A computation that does not end in the fault `e`. -/
def Avoids {φ α : Type*} (e : φ) (x : Except φ α) : Prop := x ≠ .error e

section Avoids

universe u v

variable {φ : Type u} {α β : Type v} {e : φ} {x : Except φ α} {f : α → Except φ β}

theorem avoids_ok (a : α) : Avoids e (.ok a : Except φ α) := fun h => by cases h

theorem Avoids.bind (hx : Avoids e x) (hf : ∀ a, Avoids e (f a)) : Avoids e (x >>= f) := by
  intro h
  rcases bind_eq_error.mp h with h | ⟨a, -, h⟩
  · exact hx h
  · exact hf a h

theorem Avoids.foldlM {γ : Type*} {step : α → γ → Except φ α} (hstep : ∀ a c, Avoids e (step a c))
    (l : List γ) (a : α) : Avoids e (l.foldlM step a) := by
  induction l generalizing a with
  | nil => exact avoids_ok a
  | cons c l ih =>
      rw [List.foldlM_cons]
      exact (hstep a c).bind ih

end Avoids

section Run

variable {σ ε φ : Type*}

/-- The events `es`, each allowed in the state it meets, lead from `s` to the
final state without a fault. -/
inductive Run (step : σ → ε → Except φ σ) (ok : σ → ε → Prop) (s : σ) : List ε → σ → Prop
  | nil : Run step ok s [] s
  | snoc {es : List ε} {t u : σ} {e : ε} (run : Run step ok s es t) (allowed : ok t e)
      (eq : step t e = .ok u) : Run step ok s (es ++ [e]) u

variable {step : σ → ε → Except φ σ} {ok ok' : σ → ε → Prop} {s t u : σ} {es es' : List ε}

theorem Run.mono (h : Run step ok s es t) (hok : ∀ t e, ok t e → ok' t e) :
    Run step ok' s es t := by
  induction h with
  | nil => exact .nil
  | snoc _ allowed eq ih => exact .snoc ih (hok _ _ allowed) eq

theorem Run.trans (h : Run step ok s es t) (h' : Run step ok t es' u) :
    Run step ok s (es ++ es') u := by
  induction h' with
  | nil => simpa using h
  | snoc _ allowed eq ih =>
      rw [← List.append_assoc]
      exact .snoc ih allowed eq

theorem Run.single {e : ε} (allowed : ok s e) (eq : step s e = .ok t) :
    Run step ok s [e] t :=
  .snoc .nil allowed eq

/-- What holds at the start and is preserved by every allowed step holds at the
end of every run. -/
theorem Run.invariant {P : σ → Prop} (h : Run step ok s es t) (init : P s)
    (preserved : ∀ t e u, P t → ok t e → step t e = .ok u → P u) : P t := by
  induction h with
  | nil => exact init
  | snoc _ allowed eq ih => exact preserved _ _ _ ih allowed eq

/-- A run is no longer than a measure that every step makes smaller. -/
theorem Run.length_le {J : σ → Prop} (h : Run step ok s es t) (m : σ → ℕ) (init : J s)
    (hstep : ∀ t e u, J t → ok t e → step t e = .ok u → J u ∧ m u < m t) :
    es.length + m t ≤ m s := by
  suffices hboth : J t ∧ es.length + m t ≤ m s from hboth.2
  induction h with
  | nil => exact ⟨init, by simp⟩
  | snoc run allowed eq ih =>
      obtain ⟨hJ, hle⟩ := ih
      obtain ⟨hJ', hlt⟩ := hstep _ _ _ hJ allowed eq
      rw [List.length_append, List.length_singleton]
      exact ⟨hJ', by omega⟩

theorem Run.of_snoc {e : ε} (h : Run step ok s (es ++ [e]) u) :
    ∃ t, Run step ok s es t ∧ ok t e ∧ step t e = .ok u := by
  generalize hes : es ++ [e] = es' at h
  cases h with
  | nil => simp at hes
  | snoc run allowed eq =>
      obtain ⟨rfl, rfl⟩ : _ = _ ∧ _ = _ := by simpa using List.append_inj' hes rfl
      exact ⟨_, run, allowed, eq⟩

theorem Run.unique (h : Run step ok s es t) (h' : Run step ok' s es u) : t = u := by
  induction h generalizing u with
  | nil =>
      generalize hes : ([] : List ε) = es' at h'
      cases h' with
      | nil => rfl
      | snoc run allowed eq => simp at hes
  | snoc run allowed eq ih =>
      obtain ⟨t', run', -, eq'⟩ := h'.of_snoc
      obtain rfl := ih run'
      exact Except.ok.inj (eq.symm.trans eq')

/-- When a good step is exactly one that keeps `P`, the runs in which `P` holds
throughout are those whose steps are all good. -/
theorem Run.always_iff {P I : σ → Prop} {good : σ → ε → Prop} (h : Run step ok s es t)
    (init : I s ∧ P s)
    (preserved : ∀ t e u, I t → P t → ok t e → step t e = .ok u → I u ∧ (P u ↔ good t e)) :
    (∀ pre u, pre <+: es → Run step ok s pre u → P u) ↔
      Run step (fun t e => ok t e ∧ good t e) s es t := by
  have hgood : ∀ {es : List ε} {t : σ}, Run step (fun t e => ok t e ∧ good t e) s es t →
      I t ∧ P t := by
    intro es t h
    refine h.invariant (P := fun t => I t ∧ P t) init ?_
    rintro t e u ⟨hI, hP⟩ ⟨allowed, hgood⟩ eq
    obtain ⟨hI', hiff⟩ := preserved t e u hI hP allowed eq
    exact ⟨hI', hiff.mpr hgood⟩
  induction h with
  | nil =>
      refine ⟨fun _ => .nil, fun _ pre u hpre hrun => ?_⟩
      obtain rfl := List.prefix_nil.mp hpre
      have hnil : Run step ok s [] s := .nil
      obtain rfl := hnil.unique hrun
      exact init.2
  | @snoc es t u e run allowed eq ih =>
      constructor
      · intro hall
        have hrun := ih.mp fun pre v hpre => hall pre v (hpre.trans (List.prefix_append _ _))
        obtain ⟨hI, hP⟩ := hgood hrun
        have hu := hall _ u List.prefix_rfl (.snoc run allowed eq)
        exact .snoc hrun ⟨allowed, ((preserved t e u hI hP allowed eq).2).mp hu⟩ eq
      · intro hrun pre v hpre hv
        rcases List.prefix_concat_iff.mp hpre with rfl | hpre
        · obtain rfl := hv.unique hrun
          exact (hgood hrun).2
        · obtain ⟨t', hrun', -, -⟩ := hrun.of_snoc
          obtain rfl := run.unique hrun'
          exact ih.mpr hrun' pre v hpre hv

/-- The runs whose steps are all good are those that stay runs when bad steps are
not allowed. -/
theorem Run.forall_steps_iff {good : σ → ε → Prop} (h : Run step ok s es t) :
    (∀ pre e u v, pre ++ [e] <+: es → Run step ok s pre u → step u e = .ok v → good u e) ↔
      Run step (fun t e => ok t e ∧ good t e) s es t := by
  constructor
  · intro hall
    induction h with
    | nil => exact .nil
    | @snoc es t u e run allowed eq ih =>
        have hlonger : ∀ pre, pre <+: es → pre <+: es ++ [e] :=
          fun pre hpre => hpre.trans (List.prefix_append es [e])
        have hrun := ih fun pre e' u v hpre => hall pre e' u v (hlonger _ hpre)
        exact .snoc hrun ⟨allowed, hall es e t u List.prefix_rfl run eq⟩ eq
  · intro hrun
    induction hrun with
    | nil => exact fun pre e u v hpre => absurd (List.prefix_nil.mp hpre) (by simp)
    | @snoc es t u e run allowed eq ih =>
        have run' : Run step ok s es t := run.mono fun _ _ hok => hok.1
        intro pre e' u' v hpre hu heq
        rcases List.prefix_concat_iff.mp hpre with heqs | hpre
        · obtain ⟨rfl, hlast⟩ := List.append_inj' heqs rfl
          obtain rfl := hu.unique run'
          exact List.singleton_inj.mp hlast ▸ allowed.2
        · exact ih run' pre e' u' v hpre hu heq

/-- `Run.always_iff` for what depends on the events so far, and for runs that must not
fault: a good step is exactly one that does not fault and keeps `P`. -/
theorem always_safe_iff {P I : List ε → σ → Prop} {good : σ → ε → Prop}
    (init : I [] s ∧ P [] s)
    (preserved : ∀ pre t e, I pre t → P pre t → ok t e →
      ((∃ u, step t e = .ok u ∧ P (pre ++ [e]) u) ↔ good t e) ∧
        ∀ u, good t e → step t e = .ok u → I (pre ++ [e]) u) :
    (∀ pre t, pre <+: es → Run step ok s pre t →
        P pre t ∧ ∀ e, pre ++ [e] <+: es → ok t e → ∃ u, step t e = .ok u) ↔
      ∀ pre t e, pre ++ [e] <+: es → Run step ok s pre t → ok t e → good t e := by
  constructor
  · intro hall
    have hgood : ∀ pre t e, pre ++ [e] <+: es → Run step ok s pre t → I pre t → ok t e →
        good t e := by
      intro pre t e hpre hrun hI allowed
      have hpre' : pre <+: es := (List.prefix_append _ _).trans hpre
      obtain ⟨hP, hsafe⟩ := hall pre t hpre' hrun
      obtain ⟨u, hu⟩ := hsafe e hpre allowed
      exact (preserved pre t e hI hP allowed).1.mp
        ⟨u, hu, (hall _ u hpre (.snoc hrun allowed hu)).1⟩
    have hI : ∀ pre t, Run step ok s pre t → pre <+: es → I pre t := by
      intro pre t hrun
      induction hrun with
      | nil => exact fun _ => init.1
      | @snoc pre t u e run allowed eq ih =>
          intro hpre
          have hpre' : pre <+: es := (List.prefix_append _ _).trans hpre
          have hIt := ih hpre'
          exact (preserved pre t e hIt (hall pre t hpre' run).1 allowed).2 u
            (hgood pre t e hpre run hIt allowed) eq
    intro pre t e hpre hrun allowed
    exact hgood pre t e hpre hrun (hI pre t hrun ((List.prefix_append _ _).trans hpre)) allowed
  · intro hgood
    have hboth : ∀ pre t, Run step ok s pre t → pre <+: es → I pre t ∧ P pre t := by
      intro pre t hrun
      induction hrun with
      | nil => exact fun _ => init
      | @snoc pre t u e run allowed eq ih =>
          intro hpre
          obtain ⟨hI, hP⟩ := ih ((List.prefix_append _ _).trans hpre)
          have hg := hgood pre t e hpre run allowed
          obtain ⟨hiff, hkeep⟩ := preserved pre t e hI hP allowed
          obtain ⟨u', hu', hP'⟩ := hiff.mpr hg
          obtain rfl := Except.ok.inj (eq.symm.trans hu')
          exact ⟨hkeep u hg eq, hP'⟩
    intro pre t hpre hrun
    obtain ⟨hI, hP⟩ := hboth pre t hrun hpre
    refine ⟨hP, fun e hpre' allowed => ?_⟩
    obtain ⟨u, hu, -⟩ := (preserved pre t e hI hP allowed).1.mpr (hgood pre t e hpre' hrun allowed)
    exact ⟨u, hu⟩

/-- The guard of a run may be strengthened by an invariant that the guard
itself maintains. -/
theorem Run.strengthen {P : σ → Prop} (h : Run step ok s es t) (init : P s)
    (preserved : ∀ t e u, P t → ok t e → step t e = .ok u → P u) :
    Run step (fun t e => P t ∧ ok t e) s es t := by
  induction h with
  | nil => exact .nil
  | snoc run allowed eq ih =>
      exact .snoc ih ⟨run.invariant init preserved, allowed⟩ eq

/-- Forward simulation: a system whose every step is matched by a run of another one, with
the same visible events, has only runs that the other one has. -/
theorem Run.simulate {τ ε' φ' ω : Type*} {step' : τ → ε' → Except φ' τ} {ok'' : τ → ε' → Prop}
    {Rel : σ → τ → Prop} {visible : ε → Option ω} {visible' : ε' → Option ω}
    (h : Run step ok s es t) {a : τ} (init : Rel s a)
    (matched : ∀ s e t a, Rel s a → ok s e → step s e = .ok t →
      ∃ fs b, Run step' ok'' a fs b ∧ fs.filterMap visible' = [e].filterMap visible ∧ Rel t b) :
    ∃ fs b, Run step' ok'' a fs b ∧ fs.filterMap visible' = es.filterMap visible ∧ Rel t b := by
  induction h with
  | nil => exact ⟨[], a, .nil, rfl, init⟩
  | snoc run allowed eq ih =>
      obtain ⟨fs, b, hrun, hvisible, hrel⟩ := ih
      obtain ⟨fs', b', hrun', hvisible', hrel'⟩ := matched _ _ _ _ hrel allowed eq
      refine ⟨fs ++ fs', b', hrun.trans hrun', ?_, hrel'⟩
      rw [List.filterMap_append, List.filterMap_append, hvisible, hvisible']

/-- Runs the events one after another, as long as they are allowed and do not
fault. -/
def execute (step : σ → ε → Except φ σ) (ok : σ → ε → Prop) [∀ s e, Decidable (ok s e)] (s : σ) :
    List ε → Option σ
  | [] => some s
  | e :: es =>
      if ok s e then
        match step s e with
        | .ok t => execute step ok t es
        | .error _ => none
      else none

theorem Run.of_execute [∀ s e, Decidable (ok s e)] (h : execute step ok s es = some t) :
    Run step ok s es t := by
  induction es generalizing s with
  | nil =>
      cases h
      exact .nil
  | cons e es ih =>
      rw [execute] at h
      split at h
      · rename_i allowed
        split at h
        · rename_i u heq
          exact (Run.single allowed heq).trans (ih h)
        · cases h
      · cases h

/-- A record that `note` keeps along the events `es`, as long as they do not fault. -/
def history {η : Type*} (step : σ → ε → Except φ σ) (note : σ → ε → η → η) (s : σ) (h : η) :
    List ε → η
  | [] => h
  | e :: es =>
      match step s e with
      | .ok t => history step note t (note s e h) es
      | .error _ => h

section History

variable {η : Type*} {note : σ → ε → η → η} {h : η}

theorem Run.history_append (hrun : Run step ok s es t) (h : η) :
    ∀ es', history step note s h (es ++ es') =
      history step note t (history step note s h es) es' := by
  induction hrun with
  | nil => exact fun es' => rfl
  | @snoc es t u e run allowed eq ih =>
      intro es'
      have hcons : ∀ rest, history step note t (history step note s h es) (e :: rest) =
          history step note u (note t e (history step note s h es)) rest := by
        intro rest
        rw [history, eq]
      rw [List.append_assoc, List.singleton_append, ih, hcons, ih, hcons]
      rfl

theorem Run.history_snoc {e : ε} (hrun : Run step ok s es t) (eq : step t e = .ok u) (h : η) :
    history step note s h (es ++ [e]) = note t e (history step note s h es) := by
  rw [hrun.history_append h, history, eq]
  rfl

theorem Run.history_invariant {I : σ → η → Prop} (hrun : Run step ok s es t) (init : I s h)
    (preserved : ∀ t h e u, I t h → ok t e → step t e = .ok u → I u (note t e h)) :
    I t (history step note s h es) := by
  induction hrun with
  | nil => exact init
  | @snoc es t u e run allowed eq ih =>
      rw [run.history_snoc eq]
      exact preserved _ _ _ _ ih allowed eq

end History

/-- However the enabled steps go on from here, none faults, `Q` holds until `P`
does, and `P` is reached. -/
inductive Reaches (step : σ → ε → Except φ σ) (enabled : σ → ε → Prop) (Q P : σ → Prop) :
    σ → Prop
  | now {s : σ} (here : P s) : Reaches step enabled Q P s
  | later {s : σ} (wait : Q s) (live : ∃ e, enabled s e)
      (safe : ∀ e, enabled s e → ∃ t, step s e = .ok t)
      (next : ∀ e t, enabled s e → step s e = .ok t → Reaches step enabled Q P t) :
      Reaches step enabled Q P s

section Reaches

variable {enabled : σ → ε → Prop} {P Q : σ → Prop} {e : ε}

/-- With a single enabled step, everything depends on that step. -/
theorem reaches_iff_of_only (hP : ¬ P s) (hQ : Q s) (he : enabled s e)
    (honly : ∀ e', enabled s e' → e' = e) :
    Reaches step enabled Q P s ↔ ∃ t, step s e = .ok t ∧ Reaches step enabled Q P t := by
  constructor
  · intro h
    cases h with
    | now here => exact absurd here hP
    | later wait live safe next =>
        obtain ⟨t, heq⟩ := safe e he
        exact ⟨t, heq, next e t he heq⟩
  · rintro ⟨t, heq, ht⟩
    refine .later hQ ⟨e, he⟩ ?_ ?_
    · intro e' he'
      rw [honly e' he']
      exact ⟨t, heq⟩
    · intro e' u he' hu
      rw [honly e' he', heq] at hu
      obtain rfl := Except.ok.inj hu
      exact ht

theorem not_reaches_of_stuck (hP : ¬ P s) (hstuck : ∀ e, ¬ enabled s e) :
    ¬ Reaches step enabled Q P s := by
  intro h
  cases h with
  | now here => exact hP here
  | later wait live safe next =>
      obtain ⟨e, he⟩ := live
      exact hstuck e he

/-- A state in which neither holds has missed its time. -/
theorem not_reaches_of_not (hP : ¬ P s) (hQ : ¬ Q s) : ¬ Reaches step enabled Q P s := by
  intro h
  cases h with
  | now here => exact hP here
  | later wait live safe next => exact hQ wait

/-- An invariant under which every enabled step makes a measure smaller. -/
theorem reaches_of_decreasing {J : σ → Prop} (m : σ → ℕ) (hQ : ∀ t, J t → Q t)
    (hlive : ∀ t, J t → P t ∨ ∃ e, enabled t e)
    (hstep : ∀ t e, J t → enabled t e → ∃ u, step t e = .ok u ∧ J u ∧ m u < m t) (h : J s) :
    Reaches step enabled Q P s := by
  induction hm : m s using Nat.strongRecOn generalizing s with
  | _ n ih =>
      rcases hlive s h with hP | hlive
      · exact .now hP
      · refine .later (hQ s h) hlive (fun e he => ?_) fun e t he ht => ?_
        · obtain ⟨u, hu, -⟩ := hstep s e h he
          exact ⟨u, hu⟩
        · obtain ⟨u, hu, hJ, hlt⟩ := hstep s e h he
          obtain rfl := Except.ok.inj (hu.symm.trans ht)
          exact ih _ (hm ▸ hlt) hJ rfl

end Reaches

end Run

structure Packet (ι μ : Type*) where
  src : ι
  dst : ι
  msg : μ
deriving DecidableEq

/-- The parties' local states, and the packets in flight in sending order. -/
structure Net (ι σ μ : Type*) where
  node : ι → σ
  inFlight : List (Packet ι μ)

namespace Net

variable {ι σ μ : Type*}

def take (c : Net ι σ μ) (k : ℕ) : Net ι σ μ :=
  { c with inFlight := c.inFlight.eraseIdx k }

@[simp] theorem take_node (c : Net ι σ μ) (k : ℕ) : (c.take k).node = c.node := rfl

@[simp] theorem take_inFlight (c : Net ι σ μ) (k : ℕ) :
    (c.take k).inFlight = c.inFlight.eraseIdx k := rfl

variable [DecidableEq ι]

/-- One local step: party `i` moves to the state `s` and sends `sent`. -/
def act (c : Net ι σ μ) (i : ι) (s : σ) (sent : List (Packet ι μ)) : Net ι σ μ where
  node := Function.update c.node i s
  inFlight := c.inFlight ++ sent

@[simp] theorem act_node_self (c : Net ι σ μ) (i : ι) (s : σ) (sent : List (Packet ι μ)) :
    (c.act i s sent).node i = s := by
  simp [act]

theorem act_node (c : Net ι σ μ) (i j : ι) (s : σ) (sent : List (Packet ι μ)) :
    (c.act i s sent).node j = if j = i then s else c.node j :=
  Function.update_apply c.node i s j

@[simp] theorem act_self (c : Net ι σ μ) (i : ι) : c.act i (c.node i) [] = c := by
  simp [act]

theorem act_node_of_ne (c : Net ι σ μ) {i j : ι} (s : σ) (sent : List (Packet ι μ))
    (h : j ≠ i) : (c.act i s sent).node j = c.node j := by
  simp [act, h]

/-- What a local step does not change at its party, it does not change anywhere. -/
theorem act_node_congr {β : Type*} {c : Net ι σ μ} {i : ι} {s : σ} {f : σ → β}
    (h : f s = f (c.node i)) (sent : List (Packet ι μ)) (j : ι) :
    f ((c.act i s sent).node j) = f (c.node j) := by
  rw [act_node]
  split
  · rename_i hj
    rw [hj, h]
  · rfl

@[simp] theorem act_inFlight (c : Net ι σ μ) (i : ι) (s : σ) (sent : List (Packet ι μ)) :
    (c.act i s sent).inFlight = c.inFlight ++ sent := rfl

end Net

section Order

variable {ι μ : Type*}

/-- The packet at position `k` is the oldest one of its ordered pair of
parties, so its delivery keeps the channel first in, first out. -/
def IsOldest (l : List (Packet ι μ)) (k : ℕ) : Prop :=
  ∀ p ∈ l[k]?, ∀ q ∈ l.take k, ¬ (q.src = p.src ∧ q.dst = p.dst)

instance [DecidableEq ι] (l : List (Packet ι μ)) (k : ℕ) : Decidable (IsOldest l k) :=
  match h : l[k]? with
  | none => .isTrue (by simp [IsOldest, h])
  | some p => decidable_of_iff (∀ q ∈ l.take k, ¬ (q.src = p.src ∧ q.dst = p.dst))
      (by simp [IsOldest, h])

theorem exists_split {α : Type*} {l : List α} {k : ℕ} {p : α} (h : l[k]? = some p) :
    ∃ pre post, l = pre ++ p :: post ∧ l.take k = pre ∧ l.eraseIdx k = pre ++ post := by
  obtain ⟨hk, hp⟩ := List.getElem?_eq_some_iff.mp h
  refine ⟨l.take k, l.drop (k + 1), ?_, rfl, List.eraseIdx_eq_take_drop_succ l k⟩
  rw [← hp, ← List.drop_eq_getElem_cons hk, List.take_append_drop]

theorem coe_eq_cons_eraseIdx {α : Type*} {l : List α} {k : ℕ} {x : α} (h : l[k]? = some x) :
    (l : Multiset α) = x ::ₘ (l.eraseIdx k : Multiset α) := by
  obtain ⟨pre, post, rfl, -, herase⟩ := exists_split h
  rw [herase]
  exact Multiset.coe_eq_coe.mpr List.perm_middle

theorem coe_concat {α : Type*} (l : List α) (x : α) :
    ((l ++ [x] : List α) : Multiset α) = x ::ₘ (l : Multiset α) :=
  Multiset.coe_eq_coe.mpr (List.perm_append_singleton x l)

theorem mem_of_getElem? {l : List (Packet ι μ)} {k : ℕ} {p : Packet ι μ}
    (h : l[k]? = some p) : p ∈ l :=
  List.mem_of_getElem? h

theorem mem_eraseIdx_of_ne {α : Type*} {l : List α} {k : ℕ} {p q : α}
    (hp : l[k]? = some p) (hq : q ∈ l) (hne : q ≠ p) : q ∈ l.eraseIdx k := by
  obtain ⟨pre, post, hsplit, -, herase⟩ := exists_split hp
  rw [herase]
  rw [hsplit] at hq
  simpa [hne] using hq

section Filter

variable {α : Type*} {f : α → Bool} {l : List α} {k : ℕ} {p : α}

/-- A chosen element is at the place among the chosen ones that those before it leave. -/
theorem filter_split (h : l[k]? = some p) (hf : f p = true) :
    (l.filter f)[((l.take k).filter f).length]? = some p ∧
      (l.filter f).eraseIdx ((l.take k).filter f).length = (l.eraseIdx k).filter f := by
  obtain ⟨pre, post, rfl, htake, herase⟩ := exists_split h
  rw [htake, herase]
  simp [hf, List.eraseIdx_append_of_length_le]

theorem filter_eraseIdx_of_not (h : l[k]? = some p) (hf : f p = false) :
    (l.eraseIdx k).filter f = l.filter f := by
  obtain ⟨pre, post, rfl, -, herase⟩ := exists_split h
  rw [herase]
  simp [hf]

end Filter

theorem IsOldest.not_before {l : List (Packet ι μ)} {i k : ℕ} {p q : Packet ι μ}
    (h : IsOldest l k) (hp : l[k]? = some p) (hik : i < k) (hq : l[i]? = some q) :
    ¬ (q.src = p.src ∧ q.dst = p.dst) := by
  refine h p (by simp [hp]) q ?_
  have htake : (l.take k)[i]? = some q := by rw [List.getElem?_take_of_lt hik, hq]
  exact List.mem_of_getElem? htake

end Order

section Herald

variable {α : Type*} {P : α → α → Prop} {Q : α → Prop} {l sent : List α}

/-- Every entry with `Q` has an earlier entry that announces it. -/
def Heralded (P : α → α → Prop) (Q : α → Prop) (l : List α) : Prop :=
  ∀ (k : ℕ) (p : α), l[k]? = some p → Q p →
    ∃ (i : ℕ) (q : α), i < k ∧ l[i]? = some q ∧ P q p

theorem Heralded.of_none (h : ∀ p ∈ l, ¬ Q p) : Heralded P Q l :=
  fun _ p hp hQ => absurd hQ (h p (List.mem_of_getElem? hp))

theorem Heralded.append (h : Heralded P Q l) (hsent : ∀ p ∈ sent, ¬ Q p) :
    Heralded P Q (l ++ sent) := by
  intro k p hp hQ
  rw [List.getElem?_append] at hp
  split at hp
  · rename_i hk
    obtain ⟨i, q, hik, hq, hP⟩ := h k p hp hQ
    exact ⟨i, q, hik, by rw [List.getElem?_append_left (Nat.lt_trans hik hk), hq], hP⟩
  · exact absurd hQ (hsent p (List.mem_of_getElem? hp))

theorem Heralded.append_pair {a b : α} (h : Heralded P Q l) (ha : ¬ Q a) (hab : P a b) :
    Heralded P Q (l ++ [a, b]) := by
  have hl : Heralded P Q (l ++ [a]) := h.append (by simpa using ha)
  intro k p hp hQ
  rw [show l ++ [a, b] = (l ++ [a]) ++ [b] by simp] at hp ⊢
  rw [List.getElem?_append] at hp
  split at hp
  · rename_i hk
    obtain ⟨i, q, hik, hq, hP⟩ := hl k p hp hQ
    exact ⟨i, q, hik, by rw [List.getElem?_append_left (Nat.lt_trans hik hk), hq], hP⟩
  · rename_i hk
    obtain rfl : p = b := List.mem_singleton.mp (List.mem_of_getElem? hp)
    refine ⟨l.length, a, ?_, by simp, hab⟩
    rw [List.length_append, List.length_singleton] at hk
    omega

theorem Heralded.eraseIdx (h : Heralded P Q l) {j : ℕ} {x : α} (hx : l[j]? = some x)
    (hnot : ∀ p, Q p → ¬ P x p) : Heralded P Q (l.eraseIdx j) := by
  intro k p hp hQ
  rw [List.getElem?_eraseIdx] at hp
  have hkeep : ∀ {i k' : ℕ} {q : α}, i < k' → l[i]? = some q → P q p →
      (k' ≤ k ∨ (k' = k + 1 ∧ j ≤ k)) →
      ∃ (i : ℕ) (q : α), i < k ∧ (l.eraseIdx j)[i]? = some q ∧ P q p := by
    intro i k' q hik hq hP hk'
    have hij : i ≠ j := by
      rintro rfl
      rw [hx] at hq
      exact hnot p hQ (Option.some.inj hq ▸ hP)
    rcases Nat.lt_or_gt_of_ne hij with hlt | hgt
    · exact ⟨i, q, by omega, by rw [List.getElem?_eraseIdx, if_pos hlt, hq], hP⟩
    · refine ⟨i - 1, q, by omega, ?_, hP⟩
      rw [List.getElem?_eraseIdx, if_neg (by omega), Nat.sub_add_cancel (by omega), hq]
  split at hp
  · obtain ⟨i, q, hik, hq, hP⟩ := h k p hp hQ
    exact hkeep hik hq hP (Or.inl (Nat.le_refl k))
  · rename_i hk
    obtain ⟨i, q, hik, hq, hP⟩ := h (k + 1) p hp hQ
    exact hkeep hik hq hP (Or.inr ⟨rfl, by omega⟩)

theorem countP_eq_eraseIdx (f : α → Bool) {k : ℕ} {p : α} (hp : l[k]? = some p) :
    l.countP f = (if f p then 1 else 0) + (l.eraseIdx k).countP f := by
  obtain ⟨hk, hget⟩ := List.getElem?_eq_some_iff.mp hp
  have hsplit : l = l.take k ++ p :: l.drop (k + 1) := by
    rw [← hget, ← List.drop_eq_getElem_cons hk, List.take_append_drop]
  rw [List.eraseIdx_eq_take_drop_succ]
  nth_rewrite 1 [hsplit]
  rw [List.countP_append, List.countP_cons, List.countP_append]
  omega

theorem eq_of_countP_le_one {f : α → Bool} {p q : α} (h : l.countP f ≤ 1) (hp : p ∈ l)
    (hq : q ∈ l) (hfp : f p = true) (hfq : f q = true) : p = q := by
  rw [List.countP_eq_length_filter] at h
  have hp' : p ∈ l.filter f := List.mem_filter.mpr ⟨hp, hfp⟩
  have hq' : q ∈ l.filter f := List.mem_filter.mpr ⟨hq, hfq⟩
  match hl : l.filter f with
  | [] => simp [hl] at hp'
  | [a] =>
      rw [hl, List.mem_singleton] at hp' hq'
      rw [hp', hq']
  | a :: b :: rest => simp [hl] at h

end Herald

end MessagePassing
