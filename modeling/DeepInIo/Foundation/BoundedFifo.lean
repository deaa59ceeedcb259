import Mathlib.Data.Nat.Notation
import Mathlib.Logic.Relation

/-!
# A bounded first-in first-out queue that can be closed

The queue as its users see it: items are accepted at the end while it is open and has room, and
returned from the front.  `BoundedFifo.Inv` is the account of what was accepted and returned.
-/

namespace DeepInIo

/-- A queue with the items accepted and returned so far. -/
structure BoundedFifo (α : Type*) where
  items : List α
  accepted : List α
  returned : List α
  closed : Bool

namespace BoundedFifo

variable {α : Type*} {cap : ℕ} {q q' : BoundedFifo α}

/-- The queue before the first item. -/
def empty (α : Type*) : BoundedFifo α := ⟨[], [], [], false⟩

/-- The steps of a queue with room for `cap` items. -/
inductive Step (cap : ℕ) : BoundedFifo α → BoundedFifo α → Prop
  | put (q : BoundedFifo α) (a : α) (hopen : q.closed = false) (hroom : q.items.length < cap) :
      Step cap q { q with items := q.items ++ [a], accepted := q.accepted ++ [a] }
  | take (q : BoundedFifo α) (a : α) (l : List α) (h : q.items = a :: l) :
      Step cap q { q with items := l, returned := q.returned ++ [a] }
  | close (q : BoundedFifo α) : Step cap q { q with closed := true }

/-- What was accepted has been returned, in that order, or is in the queue; and the queue keeps its
bound. -/
structure Inv (cap : ℕ) (q : BoundedFifo α) : Prop where
  account : q.accepted = q.returned ++ q.items
  bound : q.items.length ≤ cap

theorem inv_empty : Inv cap (empty α) :=
  ⟨rfl, Nat.zero_le _⟩

/-- A step keeps the account. -/
theorem Step.inv (h : Step cap q q') (hi : Inv cap q) : Inv cap q' := by
  cases h with
  | put a hopen hroom =>
    constructor
    · rw [hi.account, List.append_assoc]
    · rw [List.length_append]
      exact hroom
  | take a l h =>
    have hbound := hi.bound
    rw [h, List.length_cons] at hbound
    refine ⟨?_, Nat.le_of_succ_le hbound⟩
    change q.accepted = q.returned ++ [a] ++ l
    rw [hi.account, h, List.append_assoc, List.singleton_append]
  | close => exact ⟨hi.account, hi.bound⟩

/-- A run keeps the account. -/
theorem Inv.steps (hi : Inv cap q) (h : Relation.ReflTransGen (Step cap) q q') : Inv cap q' := by
  induction h with
  | refl => exact hi
  | tail _ hstep ih => exact hstep.inv ih

end BoundedFifo

end DeepInIo
