import Mathlib.Algebra.BigOperators.Fin
import Mathlib.Algebra.Order.BigOperators.Group.Finset

/-!
# Totals over a finite family of threads

Invariants of a concurrent program often count something over all threads: references held, tokens
owned, messages in flight.  A step changes one thread, so the new total is determined by that
thread's contribution before and after.
-/

namespace DeepInIo

section part

variable {ι α M : Type*} [DecidableEq ι] [AddCommMonoid M]

/-- The total over a finite part of a family after one member of the part changed, without
subtraction: the old contribution of the member is traded for its new one. -/
theorem partSum_update (S : Finset ι) (f : ι → α) {i : ι} (hi : i ∈ S) (a : α) (g : α → M) :
    ∑ j ∈ S, g (Function.update f i a j) + g (f i) = ∑ j ∈ S, g (f j) + g a := by
  have hold := Finset.sum_erase_add S (fun j => g (f j)) hi
  have hnew := Finset.sum_erase_add S (fun j => g (Function.update f i a j)) hi
  have hrest : ∀ j ∈ S.erase i, g (Function.update f i a j) = g (f j) := fun j hj => by
    rw [Function.update_of_ne (Finset.ne_of_mem_erase hj)]
  rw [Finset.sum_congr rfl hrest, Function.update_self] at hnew
  rw [← hnew, ← hold, add_right_comm]

end part

variable {ι α M : Type*} [Fintype ι] [DecidableEq ι]

/-- The total after one thread changed. -/
theorem threadSum_update [AddCommMonoid M] (f : ι → α) (i : ι) (a : α) (g : α → M) :
    ∑ j, g (Function.update f i a j) + g (f i) = ∑ j, g (f j) + g a :=
  partSum_update Finset.univ f (Finset.mem_univ i) a g

/-- What one thread saves, the total saves. -/
theorem threadSum_update_add_le (f : ι → α) (i : ι) (a : α) (g : α → ℕ) {d : ℕ}
    (h : g a + d ≤ g (f i)) :
    ∑ j, g (Function.update f i a j) + d ≤ ∑ j, g (f j) := by
  have hsum := threadSum_update f i a g
  omega

/-- Changing a thread without changing its contribution keeps the total. -/
theorem threadSum_update_eq [AddCancelCommMonoid M] (f : ι → α) (i : ι) (a : α) (g : α → M)
    (h : g a = g (f i)) : ∑ j, g (Function.update f i a j) = ∑ j, g (f j) := by
  have hsum := threadSum_update f i a g
  rw [h] at hsum
  exact add_right_cancel hsum

omit [DecidableEq ι] in
/-- One thread's contribution is bounded by the total. -/
theorem le_threadSum (f : ι → ℕ) (i : ι) : f i ≤ ∑ j, f j :=
  Finset.single_le_sum (fun _ _ => Nat.zero_le _) (Finset.mem_univ i)

end DeepInIo
