import Mathlib.Algebra.BigOperators.Pi
import Mathlib.Algebra.Group.Pi.Basic
import Mathlib.Algebra.Group.Int.Defs
import Mathlib.Tactic.Abel

/-!
# Ledgers of resources

A ledger counts for each name of a resource how often it was acquired and not released.  Counts are
integers, so that a resource that is released too often shows as well as one that is never released.

A *constructor* makes some calls that may fail, in a fixed order; at the first failure it undoes
what it has done and reports the failure.  `Constructs` says what it leaves in the ledger, depending
on the call that failed.  The loop that constructs one member of a pool after the other, and undoes
all of them when one fails, is `createFrom`; `createFrom_eq` computes what it leaves from what the
constructor and the destructor of a member leave.
-/

namespace DeepInIo

/-- How many resources of each name are held. -/
abbrev Ledger (ρ : Type*) := ρ → ℤ

namespace Ledger

variable {ρ κ : Type*}

section decEq

variable [DecidableEq ρ]

/-- One resource. -/
def one (r : ρ) : Ledger ρ :=
  Pi.single r 1

/-- A resource is acquired. -/
def opened (l : Ledger ρ) (r : ρ) : Ledger ρ :=
  l + one r

/-- A resource is released. -/
def closed (l : Ledger ρ) (r : ρ) : Ledger ρ :=
  l - one r

theorem one_apply (r r' : ρ) : one r r' = if r' = r then 1 else 0 :=
  Pi.single_apply r 1 r'

end decEq

/-! ### Constructors -/

/-- A constructor with the calls `calls`: if none fails, it has acquired `own`; otherwise it leaves
`rest c`, where `c` is the first call that failed. -/
def Constructs (fails : κ → Bool) (calls : List κ) (own : Ledger ρ) (rest : κ → Ledger ρ)
    (f : Ledger ρ → Bool × Ledger ρ) : Prop :=
  ∀ l, f l = match calls.find? fails with
    | none => (true, l + own)
    | some c => (false, l + rest c)

/-- `for (j = 0; j < i; j++) destroy(j)` -/
def destroyBelow (destroy : ℕ → Ledger ρ → Ledger ρ) (i : ℕ) (l : Ledger ρ) : Ledger ρ :=
  (List.range i).foldl (fun l j => destroy j l) l

/-- The members `i, i + 1, …` of a pool, `k` of them, are constructed, until one fails and
everything is undone. -/
def createFrom (create : ℕ → Ledger ρ → Bool × Ledger ρ) (undo : ℕ → Ledger ρ → Ledger ρ) (i : ℕ) :
    ℕ → Ledger ρ → Bool × Ledger ρ
  | 0, l => (true, l)
  | k + 1, l =>
    match create i l with
    | (true, l) => createFrom create undo (i + 1) k l
    | (false, l) => (false, undo i l)

/-- The first member that cannot be constructed, with the call that fails. -/
def firstFailure (fails : κ → Bool) (calls : ℕ → List κ) (i : ℕ) : ℕ → Option (ℕ × κ)
  | 0 => none
  | k + 1 =>
    match (calls i).find? fails with
    | some c => some (i, c)
    | none => firstFailure fails calls (i + 1) k

/-- No member fails if none of the calls does. -/
theorem firstFailure_eq_none {fails : κ → Bool} {calls : ℕ → List κ} (k i : ℕ) :
    firstFailure fails calls i k = none ↔ ∀ j < k, ∀ c ∈ calls (i + j), fails c = false := by
  induction k generalizing i with
  | zero => simp [firstFailure]
  | succ k ih =>
    rw [firstFailure]
    cases hfind : (calls i).find? fails with
    | some c =>
      refine iff_of_false (by rintro ⟨⟩) fun h => ?_
      have hfails := List.find?_some hfind
      rw [h 0 (Nat.succ_pos k) c (List.mem_of_find?_eq_some hfind)] at hfails
      cases hfails
    | none =>
      have hfirst := List.find?_eq_none.mp hfind
      simp only [ih]
      constructor
      · intro h j hj c hc
        cases j with
        | zero => exact Bool.eq_false_iff.mpr (hfirst c hc)
        | succ j =>
          exact h j (Nat.lt_of_succ_lt_succ hj) c (by rwa [Nat.add_right_comm, Nat.add_assoc])
      · intro h j hj c hc
        exact h (j + 1) (Nat.succ_lt_succ hj) c (by rwa [Nat.add_right_comm, Nat.add_assoc] at hc)

variable {fails : κ → Bool} {calls : ℕ → List κ} {own left : ℕ → Ledger ρ} {rest : ℕ → κ → Ledger ρ}
  {create : ℕ → Ledger ρ → Bool × Ledger ρ} {destroy : ℕ → Ledger ρ → Ledger ρ}

/-- Members that each leave something are destroyed. -/
theorem destroyBelow_eq (hdestroy : ∀ j l, destroy j l = l - own j + left j) (i : ℕ)
    (l : Ledger ρ) :
    destroyBelow destroy i l = l - ∑ j ∈ Finset.range i, own j + ∑ j ∈ Finset.range i, left j := by
  induction i with
  | zero => simp [destroyBelow]
  | succ i ih =>
    rw [destroyBelow] at ih ⊢
    rw [List.range_succ, List.foldl_append, ih, List.foldl_cons, List.foldl_nil, hdestroy,
      Finset.sum_range_succ, Finset.sum_range_succ]
    abel

/-- What the loop leaves: the members if all could be constructed, and otherwise what their
destructors have left, with what the constructor that failed has left; `extra` is what the undoing
releases besides. -/
theorem createFrom_eq (hcreate : ∀ j, Constructs fails (calls j) (own j) (rest j) (create j))
    {undo : ℕ → Ledger ρ → Ledger ρ} {extra : Ledger ρ}
    (hundo : ∀ j l, undo j l =
      l - ∑ j ∈ Finset.range j, own j + ∑ j ∈ Finset.range j, left j - extra) (k i : ℕ) (l :
    Ledger ρ) :
    createFrom create undo i k (l + ∑ j ∈ Finset.range i, own j) =
      match firstFailure fails calls i k with
      | none => (true, l + ∑ j ∈ Finset.range (i + k), own j)
      | some (j, c) => (false, l + ∑ j ∈ Finset.range j, left j + rest j c - extra) := by
  induction k generalizing i with
  | zero => rfl
  | succ k ih =>
    rw [createFrom, firstFailure, hcreate i]
    cases (calls i).find? fails with
    | none =>
      have hlast := ih (i + 1)
      rw [Finset.sum_range_succ, ← add_assoc] at hlast
      simp only
      rw [hlast, Nat.add_right_comm, Nat.add_assoc]
    | some c =>
      simp only [hundo]
      congr 1
      abel

end Ledger

end DeepInIo
