import Mathlib.Data.List.Nodup
import Mathlib.Logic.Function.Basic
import Mathlib.Tactic.Simps.Basic

/-!
# Mutexes that are taken in a fixed order

Every thread has a plan: the mutex operations and the other actions of the statement it executes.  A
plan is in order if each mutex it takes ranks below all mutexes that are held at that time, if the
mutexes are given back in the reverse order, and if none is left at the end.

`Locks.Disciplined` says that the owners of the mutexes fit such plans.  It is kept by every
operation of a plan, by the begin of a new plan and by a wait at a condition variable; and where it
holds, the mutex that the owner of a mutex waits for ranks below that one (`Disciplined.next_lt`).
-/

namespace DeepInIo

/-- An operation of a plan; `α` are the actions that are no mutex operations. -/
inductive LockOp (μ α : Type*)
  | lock (x : μ)
  | unlock (x : μ)
  | act (a : α)
  deriving DecidableEq

section plans

variable {μ α : Type*} [DecidableEq μ] (rank : μ → ℕ)

/-- The mutexes that are held after a plan, the last one taken first; `none` if the plan is not in
order. -/
def runLocks : List μ → List (LockOp μ α) → Option (List μ)
  | held, [] => some held
  | held, .lock x :: ops => if ∀ y ∈ held, rank x < rank y then runLocks (x :: held) ops else none
  | y :: held, .unlock x :: ops => if x = y then runLocks held ops else none
  | [], .unlock _ :: _ => none
  | held, .act _ :: ops => runLocks held ops

/-- The actions of a plan. -/
def acts : List (LockOp μ α) → List α
  | [] => []
  | .act a :: ops => a :: acts ops
  | _ :: ops => acts ops

variable {rank} {held held' : List μ} {ops : List (LockOp μ α)} {x : μ} {a : α}

theorem runLocks_nil : runLocks rank held ([] : List (LockOp μ α)) = some held := by
  cases held <;> rfl

theorem runLocks_act : runLocks rank held (.act a :: ops) = runLocks rank held ops := by
  cases held <;> rfl

/-- A mutex that is taken ranks below those that are held. -/
theorem runLocks_lock (h : runLocks rank held (.lock x :: ops) = some held') :
    (∀ y ∈ held, rank x < rank y) ∧ runLocks rank (x :: held) ops = some held' := by
  have hrun : (if ∀ y ∈ held, rank x < rank y then runLocks rank (x :: held) ops else none) =
      some held' := by
    cases held <;> exact h
  split at hrun
  · next hlt => exact ⟨hlt, hrun⟩
  · cases hrun

/-- A mutex that is given back is the last one taken. -/
theorem runLocks_unlock (h : runLocks rank held (.unlock x :: ops) = some held') :
    ∃ rest, held = x :: rest ∧ runLocks rank rest ops = some held' := by
  cases held with
  | nil => cases h
  | cons y rest =>
    rw [runLocks] at h
    split at h
    · next heq => exact ⟨rest, by rw [heq], h⟩
    · cases h

end plans

/-- The owners of the mutexes, and what the threads do next. -/
structure Locks (θ μ α : Type*) where
  owner : μ → Option θ
  plan : θ → List (LockOp μ α)

namespace Locks

variable {θ μ α : Type*} [DecidableEq θ] [DecidableEq μ] (L : Locks θ μ α)

/-- Nothing is held and nothing planned. -/
@[simps]
def idle (θ μ α : Type*) : Locks θ μ α := ⟨fun _ => none, fun _ => []⟩

/-- The thread changes its plan. -/
@[simps]
def setPlan (th : θ) (ops : List (LockOp μ α)) : Locks θ μ α :=
  { L with plan := Function.update L.plan th ops }

/-- The thread takes a mutex. -/
@[simps]
def acquire (th : θ) (x : μ) (ops : List (LockOp μ α)) : Locks θ μ α where
  owner := Function.update L.owner x (some th)
  plan := Function.update L.plan th ops

/-- The thread gives a mutex back. -/
@[simps]
def release (th : θ) (x : μ) (ops : List (LockOp μ α)) : Locks θ μ α where
  owner := Function.update L.owner x none
  plan := Function.update L.plan th ops

/-- The mutexes of a thread and its plan fit together. -/
structure Fits (rank : μ → ℕ) (th : θ) (held : List μ) : Prop where
  nodup : held.Nodup
  owner : ∀ x, L.owner x = some th ↔ x ∈ held
  run : runLocks rank held (L.plan th) = some []

/-- All threads take the mutexes in order. -/
def Disciplined (rank : μ → ℕ) : Prop :=
  ∀ th, ∃ held, L.Fits rank th held

/-- The thread waits for a mutex that `th'` holds. -/
def WaitsFor (th th' : θ) : Prop :=
  ∃ x ops, L.plan th = .lock x :: ops ∧ L.owner x = some th'

section lemmas

variable {L} {rank : μ → ℕ} {th th' : θ} {held : List μ} {ops : List (LockOp μ α)} {x y : μ} {a : α}

/-! ### The state of one thread -/

omit [DecidableEq θ] in
/-- What a thread without a plan holds. -/
theorem Fits.eq_nil (h : L.Fits rank th held) (hplan : L.plan th = []) : held = [] := by
  have hrun := h.run
  rw [hplan, runLocks_nil] at hrun
  exact Option.some.inj hrun

omit [DecidableEq θ] in
/-- What concerns only other threads does not matter. -/
theorem Fits.of_eq {L' : Locks θ μ α} (h : L.Fits rank th held) (hplan : L'.plan th = L.plan th)
    (howner : ∀ x, L'.owner x = some th ↔ L.owner x = some th) : L'.Fits rank th held where
  nodup := h.nodup
  owner x := (howner x).trans (h.owner x)
  run := by rw [hplan, h.run]

/-- A changed plan fits when it gives the same mutexes back. -/
theorem Fits.setPlan (h : L.Fits rank th held) (hrun : runLocks rank held ops = some []) :
    (L.setPlan th ops).Fits rank th held where
  nodup := h.nodup
  owner := h.owner
  run := by rwa [setPlan_plan, Function.update_self]

/-! ### The operations keep the discipline -/

/-- A changed plan of one thread. -/
theorem Disciplined.setPlan (h : L.Disciplined rank)
    (hrun : ∀ held, L.Fits rank th held → runLocks rank held ops = some []) :
    (L.setPlan th ops).Disciplined rank := by
  intro th'
  obtain ⟨held, hfits⟩ := h th'
  refine ⟨held, ?_⟩
  by_cases heq : th' = th
  · subst heq
    exact hfits.setPlan (hrun held hfits)
  · exact hfits.of_eq (Function.update_of_ne heq ..) fun _ => Iff.rfl

/-- A thread begins a plan that is in order. -/
theorem Disciplined.begin (h : L.Disciplined rank) (hplan : L.plan th = [])
    (hrun : runLocks rank [] ops = some []) : (L.setPlan th ops).Disciplined rank := by
  refine h.setPlan fun held hfits => ?_
  rw [hfits.eq_nil hplan]
  exact hrun

/-- A thread performs an action. -/
theorem Disciplined.act (h : L.Disciplined rank) (hplan : L.plan th = .act a :: ops) :
    (L.setPlan th ops).Disciplined rank := by
  refine h.setPlan fun held hfits => ?_
  have hrun := hfits.run
  rwa [hplan, runLocks_act] at hrun

/-- A thread takes a free mutex. -/
theorem Disciplined.acquire (h : L.Disciplined rank) (hplan : L.plan th = .lock x :: ops)
    (hfree : L.owner x = none) : (L.acquire th x ops).Disciplined rank := by
  intro th'
  obtain ⟨held, hfits⟩ := h th'
  by_cases heq : th' = th
  · subst heq
    have hrun := hfits.run
    rw [hplan] at hrun
    obtain ⟨-, hrest⟩ := runLocks_lock hrun
    have hnot : x ∉ held := by
      intro hmem
      rw [(hfits.owner x).mpr hmem] at hfree
      cases hfree
    refine ⟨x :: held, List.nodup_cons.mpr ⟨hnot, hfits.nodup⟩, fun y => ?_, ?_⟩
    · by_cases hy : y = x
      · subst hy
        simp
      · simp [hy, hfits.owner y]
    · simpa using hrest
  · refine ⟨held, hfits.of_eq (Function.update_of_ne heq ..) fun y => ?_⟩
    by_cases hy : y = x
    · subst hy
      simp [hfree, Ne.symm heq]
    · simp [hy]

/-- The last mutex taken is given up, for a plan that fits the others. -/
theorem Disciplined.giveUp (h : L.Disciplined rank) {rest : List μ}
    (hfits : L.Fits rank th (x :: rest)) (hrun : runLocks rank rest ops = some []) :
    (L.release th x ops).Disciplined rank := by
  intro th'
  obtain ⟨hnot, hnodup⟩ := List.nodup_cons.mp hfits.nodup
  by_cases heq : th' = th
  · subst heq
    refine ⟨rest, hnodup, fun y => ?_, ?_⟩
    · by_cases hy : y = x
      · subst hy
        simp [hnot]
      · simp [hy, hfits.owner y]
    · simpa using hrun
  · obtain ⟨held, hother⟩ := h th'
    refine ⟨held, hother.of_eq (Function.update_of_ne heq ..) fun y => ?_⟩
    by_cases hy : y = x
    · subst hy
      have howner : L.owner y = some th := (hfits.owner y).mpr List.mem_cons_self
      simp [howner, Ne.symm heq]
    · simp [hy]

/-- A thread gives a mutex back. -/
theorem Disciplined.release (h : L.Disciplined rank) (hplan : L.plan th = .unlock x :: ops) :
    (L.release th x ops).Disciplined rank := by
  obtain ⟨held, hfits⟩ := h th
  have hrun := hfits.run
  rw [hplan] at hrun
  obtain ⟨rest, rfl, hrest⟩ := runLocks_unlock hrun
  exact h.giveUp hfits hrest

/-- A thread waits at a condition variable: it gives up the mutex that it would give back after the
action, and takes it again before it repeats the action. -/
theorem Disciplined.wait (h : L.Disciplined rank) (hplan : L.plan th = .act a :: .unlock x :: ops)
    (halone : ∀ held, runLocks rank held ops = some [] → held = []) :
    (L.release th x (.lock x :: L.plan th)).Disciplined rank := by
  obtain ⟨held, hfits⟩ := h th
  have hrun := hfits.run
  rw [hplan, runLocks_act] at hrun
  obtain ⟨rest, rfl, hrest⟩ := runLocks_unlock hrun
  refine h.giveUp hfits ?_
  obtain rfl := halone rest hrest
  have htaken : runLocks rank [x] (L.plan th) = some [] := hfits.run
  rw [runLocks, if_pos (by simp)]
  exact htaken

/-! ### Waiting for a mutex -/

omit [DecidableEq θ] in
/-- What the owner of a mutex waits for ranks below that mutex. -/
theorem Disciplined.next_lt (h : L.Disciplined rank) (howner : L.owner x = some th)
    (hplan : L.plan th = .lock y :: ops) : rank y < rank x := by
  obtain ⟨held, hfits⟩ := h th
  have hrun := hfits.run
  rw [hplan] at hrun
  exact (runLocks_lock hrun).1 x ((hfits.owner x).mp howner)

omit [DecidableEq θ] in
/-- A thread without a plan owns nothing. -/
theorem Disciplined.plan_ne_nil (h : L.Disciplined rank) (howner : L.owner x = some th) :
    L.plan th ≠ [] := by
  intro hplan
  obtain ⟨held, hfits⟩ := h th
  have hmem := (hfits.owner x).mp howner
  rw [hfits.eq_nil hplan] at hmem
  cases hmem

end lemmas

end Locks

end DeepInIo
