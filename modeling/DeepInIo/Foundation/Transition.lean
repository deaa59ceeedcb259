import Mathlib.Data.List.Induction
import Mathlib.Logic.Relation

/-!
# Transition systems with computed steps

A `TransitionSystem` has a predicate for its initial states and a *function* for its steps: an
action either is not enabled (`none`) or leads to exactly one state.  Everything a scheduler or an
environment may choose is part of the action, so a run is a list of actions and can be evaluated.

`ReachableUnder ok` collects the states of the runs all of whose steps satisfy `ok`; with the
trivial condition it is `Reachable`.  The file provides

* the induction principle for invariants (`ReachableUnder.invariant`),
* evaluation of concrete runs (`exec`, `reachableUnder_exec`), and
* the transfer of runs along a map to an abstract step relation (`ReachableUnder.simulation`).
-/

namespace DeepInIo

/-- A transition system: initial states and a partial step function. -/
structure TransitionSystem (σ α : Type*) where
  /-- The states a run may start in. -/
  init : σ → Prop
  /-- The state after an action, `none` when the action is not enabled. -/
  step : σ → α → Option σ

namespace TransitionSystem

variable {σ α τ : Type*} (S : TransitionSystem σ α)

/-- The states reached by the runs all of whose steps satisfy `ok`. -/
inductive ReachableUnder (ok : σ → α → Prop) : σ → Prop
  | init {s : σ} (h : S.init s) : ReachableUnder ok s
  | step {s s' : σ} {a : α} (h : ReachableUnder ok s) (hok : ok s a)
      (hs : S.step s a = some s') : ReachableUnder ok s'

/-- The states reached by any run. -/
def Reachable : σ → Prop :=
  S.ReachableUnder fun _ _ => True

variable {S}

/-- Weakening the condition on the steps keeps a state reachable. -/
theorem ReachableUnder.mono {ok ok' : σ → α → Prop} (himp : ∀ s a, ok s a → ok' s a) {s : σ}
    (h : S.ReachableUnder ok s) : S.ReachableUnder ok' s := by
  induction h with
  | init h => exact .init h
  | step _ hok hs ih => exact .step ih (himp _ _ hok) hs

/-- A state reached under a condition is reachable. -/
theorem ReachableUnder.reachable {ok : σ → α → Prop} {s : σ} (h : S.ReachableUnder ok s) :
    S.Reachable s :=
  h.mono fun _ _ _ => trivial

/-- One more step of an unrestricted run. -/
theorem Reachable.next {s s' : σ} {a : α} (h : S.Reachable s) (hs : S.step s a = some s') :
    S.Reachable s' :=
  .step h trivial hs

/-- A predicate that holds initially and is kept by every allowed step between reachable states
holds in every state of such a run. -/
theorem ReachableUnder.invariant {ok : σ → α → Prop} {I : σ → Prop}
    (hinit : ∀ s, S.init s → I s)
    (hstep : ∀ s a s', S.ReachableUnder ok s → I s → ok s a → S.step s a = some s' → I s') {s : σ}
    (h : S.ReachableUnder ok s) : I s := by
  induction h with
  | init h => exact hinit _ h
  | step h hok hs ih => exact hstep _ _ _ h ih hok hs

/-- The induction principle for unrestricted runs. -/
theorem Reachable.invariant {I : σ → Prop} (hinit : ∀ s, S.init s → I s)
    (hstep : ∀ s a s', S.Reachable s → I s → S.step s a = some s' → I s') {s : σ}
    (h : S.Reachable s) : I s :=
  ReachableUnder.invariant hinit (fun s a s' hr hi _ hs => hstep s a s' hr hi hs) h

/-- If a map takes initial states to `t₀` and every allowed step to a (possibly empty) sequence of
abstract steps, then it takes every run to an abstract run from `t₀`. -/
theorem ReachableUnder.simulation {ok : σ → α → Prop} {f : σ → τ} {R : τ → τ → Prop} {t₀ : τ}
    (hinit : ∀ s, S.init s → f s = t₀)
    (hstep : ∀ s a s', S.ReachableUnder ok s → ok s a → S.step s a = some s' →
      Relation.ReflTransGen R (f s) (f s')) {s : σ} (h : S.ReachableUnder ok s) :
    Relation.ReflTransGen R t₀ (f s) := by
  induction h with
  | init h => rw [hinit _ h]
  | step h hok hs ih => exact ih.trans (hstep _ _ _ h hok hs)

variable (S)

/-- The state after a list of actions. -/
def exec (s : σ) : List α → Option σ
  | [] => some s
  | a :: as => (S.step s a).bind fun s' => exec s' as

/-- The state after a list of actions each of which meets a decidable condition. -/
def execUnder (ok : σ → α → Prop) [∀ s a, Decidable (ok s a)] (s : σ) : List α → Option σ
  | [] => some s
  | a :: as => if ok s a then (S.step s a).bind fun s' => execUnder ok s' as else none

variable {S}

/-- Evaluating a list of allowed actions from a reached state gives a reached state. -/
theorem reachableUnder_exec {ok : σ → α → Prop} [∀ s a, Decidable (ok s a)] {s s' : σ} {as : List α}
    (h : S.ReachableUnder ok s) (he : S.execUnder ok s as = some s') : S.ReachableUnder ok s' := by
  induction as generalizing s with
  | nil => cases he; exact h
  | cons a as ih =>
    rw [execUnder] at he
    split at he
    · next hok =>
      obtain ⟨s₁, hs₁, he⟩ := Option.bind_eq_some_iff.mp he
      exact ih (h.step hok hs₁) he
    · cases he

/-- Evaluating a list of actions from a reachable state gives a reachable state. -/
theorem reachable_exec {s s' : σ} {as : List α} (h : S.Reachable s)
    (he : S.exec s as = some s') : S.Reachable s' := by
  induction as generalizing s with
  | nil => cases he; exact h
  | cons a as ih =>
    obtain ⟨s₁, hs₁, he⟩ := Option.bind_eq_some_iff.mp he
    exact ih (h.next hs₁) he

/-- A run of two lists of actions, one after the other. -/
theorem exec_append (s : σ) (as as' : List α) :
    S.exec s (as ++ as') = (S.exec s as).bind fun s' => S.exec s' as' := by
  induction as generalizing s with
  | nil => rfl
  | cons a as ih =>
    rw [List.cons_append, exec, exec]
    cases S.step s a with
    | none => rfl
    | some s₁ => exact ih s₁

/-- A predicate of the actions taken and the state reached that holds at the start of a run and is
kept by every further step holds at its end. -/
theorem exec_induction {P : List α → σ → Prop} {s : σ} (hnil : P [] s)
    (hsnoc : ∀ as a s₁ s₂, S.exec s as = some s₁ → P as s₁ → S.step s₁ a = some s₂ →
      P (as ++ [a]) s₂)
    {as : List α} {s' : σ} (h : S.exec s as = some s') : P as s' := by
  induction as using List.reverseRecOn generalizing s' with
  | nil =>
    cases h
    exact hnil
  | append_singleton as a ih =>
    rw [exec_append] at h
    obtain ⟨s₁, hs₁, hlast⟩ := Option.bind_eq_some_iff.mp h
    obtain ⟨s₂, hs₂, heq⟩ := Option.bind_eq_some_iff.mp hlast
    cases heq
    exact hsnoc as a s₁ _ hs₁ (ih hs₁) hs₂

/-! ### Runs with their steps -/

variable (S)

/-- A run from `s` to `s'` with its steps, each of which satisfies `ok`. -/
inductive Trace (ok : σ → α → Prop) (s : σ) : List (σ × α) → σ → Prop
  | nil : Trace ok s [] s
  | snoc {tr : List (σ × α)} {s₁ s₂ : σ} {a : α} (h : Trace ok s tr s₁) (hok : ok s₁ a)
      (hs : S.step s₁ a = some s₂) : Trace ok s (tr ++ [(s₁, a)]) s₂

variable {S}

/-- Weakening the condition on the steps keeps a run. -/
theorem Trace.mono {ok ok' : σ → α → Prop} (himp : ∀ s a, ok s a → ok' s a) {s s' : σ}
    {tr : List (σ × α)} (h : S.Trace ok s tr s') : S.Trace ok' s tr s' := by
  induction h with
  | nil => exact .nil
  | snoc _ hok hs ih => exact ih.snoc (himp _ _ hok) hs

/-- What is reached from a reachable state is reachable. -/
theorem Trace.reachable {ok : σ → α → Prop} {s s' : σ} {tr : List (σ × α)} (h : S.Trace ok s tr s')
    (hr : S.Reachable s) : S.Reachable s' := by
  induction h with
  | nil => exact hr
  | snoc _ _ hs ih => exact ih.next hs

/-- A predicate of the steps taken and the state reached that holds at the start of a run and is
kept by every further allowed step holds at its end. -/
theorem Trace.invariant {ok : σ → α → Prop} {s : σ} (hr : S.Reachable s)
    {P : List (σ × α) → σ → Prop} (hnil : P [] s)
    (hsnoc : ∀ tr s₁ a s₂, S.Reachable s₁ → P tr s₁ → ok s₁ a → S.step s₁ a = some s₂ →
      P (tr ++ [(s₁, a)]) s₂) {tr : List (σ × α)} {s' : σ} (h : S.Trace ok s tr s') : P tr s' := by
  induction h with
  | nil => exact hnil
  | snoc h hok hs ih => exact hsnoc _ _ _ _ (h.reachable hr) ih hok hs

/-- Exactly one step of a run is of a kind. -/
def OnceIn (P : σ → α → Prop) (tr : List (σ × α)) : Prop :=
  ∃ l₁ p l₂, tr = l₁ ++ p :: l₂ ∧ P p.1 p.2 ∧ ∀ q ∈ l₁ ++ l₂, ¬P q.1 q.2

/-- The first step of a kind is its only one so far. -/
theorem onceIn_snoc {P : σ → α → Prop} {tr : List (σ × α)} {s : σ} {a : α}
    (h : ∀ q ∈ tr, ¬P q.1 q.2) (ha : P s a) : OnceIn P (tr ++ [(s, a)]) :=
  ⟨tr, (s, a), [], rfl, ha, by rwa [List.append_nil]⟩

variable (S)

/-- The steps of a list of actions. -/
def traceOf (s : σ) : List α → List (σ × α)
  | [] => []
  | a :: as => (s, a) :: match S.step s a with
    | some s' => traceOf s' as
    | none => []

variable {S}

/-- A run is extended by evaluating further allowed actions. -/
theorem Trace.exec {ok : σ → α → Prop} [∀ s a, Decidable (ok s a)] {s s₁ s' : σ} {tr : List (σ × α)}
    {as : List α} (h : S.Trace ok s tr s₁) (he : S.execUnder ok s₁ as = some s') :
    S.Trace ok s (tr ++ S.traceOf s₁ as) s' := by
  induction as generalizing s₁ tr with
  | nil =>
    cases he
    rwa [traceOf, List.append_nil]
  | cons a as ih =>
    rw [execUnder] at he
    split at he
    · next hok =>
      obtain ⟨s₂, hs₂, he⟩ := Option.bind_eq_some_iff.mp he
      have hlast := ih (h.snoc hok hs₂) he
      simp only [traceOf, hs₂]
      rwa [List.append_assoc, List.singleton_append] at hlast
    · cases he

/-- A run of allowed actions whose last state passes a test. -/
theorem exists_trace (ok : σ → α → Prop) [∀ s a, Decidable (ok s a)] {s : σ} (as : List α)
    (p : σ → Bool) (he : (S.execUnder ok s as).any p = true) :
    ∃ s', S.Trace ok s (S.traceOf s as) s' ∧ p s' = true := by
  obtain ⟨s', hs', hp⟩ := (Option.any_eq_true ..).mp he
  exact ⟨s', (Trace.nil : S.Trace ok s [] s).exec hs', hp⟩

/-! ### Properties of every step -/

variable (S)

/-- Every step of a run, with the states before and after it, has a property. -/
def EveryStep (P : σ → α → σ → Prop) (s : σ) : List α → Prop
  | [] => True
  | a :: as => ∀ s', S.step s a = some s' → P s a s' ∧ EveryStep P s' as

variable {S}

/-- A property of every step is transferred under an invariant. -/
theorem EveryStep.transfer {P Q : σ → α → σ → Prop} {I : σ → Prop}
    (hstep : ∀ s a s', I s → S.step s a = some s' → P s a s' → Q s a s' ∧ I s') {s : σ}
    {as : List α} (hi : I s) (h : S.EveryStep P s as) : S.EveryStep Q s as := by
  induction as generalizing s with
  | nil => exact trivial
  | cons a as ih =>
    intro s' hs
    obtain ⟨hp, hrest⟩ := h s' hs
    obtain ⟨hq, hi'⟩ := hstep s a s' hi hs hp
    exact ⟨hq, ih hi' hrest⟩

variable (S)

/-- A run of allowed actions whose last state passes a test reaches such a state. -/
theorem exists_of_execUnder (ok : σ → α → Prop) [∀ s a, Decidable (ok s a)] {s : σ} (as : List α)
    (p : σ → Bool) (h : S.init s) (he : (S.execUnder ok s as).any p = true) :
    ∃ s', S.ReachableUnder ok s' ∧ p s' = true := by
  obtain ⟨s', hs', hp⟩ := (Option.any_eq_true ..).mp he
  exact ⟨s', reachableUnder_exec (.init h) hs', hp⟩

/-- A run whose last state passes a test reaches such a state. -/
theorem exists_of_exec {s : σ} (as : List α) (p : σ → Bool) (h : S.init s)
    (he : (S.exec s as).any p = true) : ∃ s', S.Reachable s' ∧ p s' = true := by
  obtain ⟨s', hs', hp⟩ := (Option.any_eq_true ..).mp he
  exact ⟨s', reachable_exec (.init h) hs', hp⟩

end TransitionSystem

end DeepInIo
