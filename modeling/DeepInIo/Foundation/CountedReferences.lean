import Mathlib.Data.Multiset.AddSub
import Mathlib.Logic.Relation

/-!
# Counted references to one object

Threads share an object through references that are counted.  A thread that has a reference may take
another one, pass one on or give one up; the one that brings the count to zero ends the object, in a
step of its own.

`CountedObject` keeps, beside the counter, who has the references and who is about to end the
object.  Its invariant (`CountedObject.Inv`) says that the object is ended once, by the thread that
gave up the last reference, and not before (`CountedObject.Inv.ended`).
-/

namespace DeepInIo

/-- An object with its counter and the threads of type `θ` that use it. -/
structure CountedObject (θ : Type*) where
  count : ℤ
  /-- The thread of each reference. -/
  refs : Multiset θ
  /-- The threads that found the count at zero and have not yet ended the object. -/
  ending : Multiset θ
  /-- How often the object was ended. -/
  ends : ℕ

namespace CountedObject

variable {θ : Type*} [DecidableEq θ] {o o' : CountedObject θ}

/-- The object when it is created by the thread `th`. -/
def created (th : θ) : CountedObject θ := ⟨1, {th}, 0, 0⟩

/-- The steps of the threads. -/
inductive Step : CountedObject θ → CountedObject θ → Prop
  | acquire (o : CountedObject θ) (th : θ) (h : th ∈ o.refs) :
      Step o { o with count := o.count + 1, refs := th ::ₘ o.refs }
  | pass (o : CountedObject θ) (th th' : θ) (h : th ∈ o.refs) :
      Step o { o with refs := th' ::ₘ o.refs.erase th }
  | release (o : CountedObject θ) (th : θ) (h : th ∈ o.refs) :
      Step o { o with
        count := o.count - 1
        refs := o.refs.erase th
        ending := if o.count - 1 ≤ 0 then th ::ₘ o.ending else o.ending }
  | finish (o : CountedObject θ) (th : θ) (h : th ∈ o.ending) :
      Step o { o with ending := o.ending.erase th, ends := o.ends + 1 }

/-- The counter is right, and the object is ended exactly when no reference is left. -/
structure Inv (o : CountedObject θ) : Prop where
  count_eq : o.count = o.refs.card
  once : o.ending.card + o.ends = if o.refs = 0 then 1 else 0

theorem inv_created (th : θ) : (created th).Inv :=
  ⟨rfl, (if_neg (Multiset.singleton_ne_zero th)).symm⟩

/-- The count falls to zero with the last reference. -/
theorem Inv.last_iff (hi : o.Inv) {th : θ} (h : th ∈ o.refs) :
    o.count - 1 ≤ 0 ↔ o.refs.erase th = 0 := by
  have hcard := Multiset.card_erase_add_one h
  rw [hi.count_eq, ← hcard, ← Multiset.card_eq_zero]
  omega

/-- Every step keeps the invariant. -/
theorem Step.inv (h : Step o o') (hi : o.Inv) : o'.Inv := by
  have hne : ∀ {th : θ}, th ∈ o.refs → o.ending.card + o.ends = 0 := by
    intro th hth
    rw [hi.once, if_neg fun hzero => ?_]
    rw [hzero] at hth
    exact Multiset.notMem_zero th hth
  cases h with
  | acquire th h =>
    constructor
    · simp only [Multiset.card_cons, hi.count_eq]
      push_cast
      rfl
    · rw [if_neg (Multiset.cons_ne_zero)]
      exact hne h
  | pass th th' h =>
    constructor
    · simp only [Multiset.card_cons, Multiset.card_erase_add_one h, hi.count_eq]
    · rw [if_neg (Multiset.cons_ne_zero)]
      exact hne h
  | release th h =>
    constructor
    · simp only [hi.count_eq, ← Multiset.card_erase_add_one h]
      push_cast
      omega
    · have hzero := hne h
      simp only [hi.last_iff h]
      split
      · rw [Multiset.card_cons]
        omega
      · exact hzero
  | finish th h =>
    refine ⟨hi.count_eq, ?_⟩
    simp only [← hi.once, ← Multiset.card_erase_add_one h]
    omega

/-- An ended object has no references, was ended once, and will not be ended again. -/
theorem Inv.ended (hi : o.Inv) (h : 0 < o.ends) : o.refs = 0 ∧ o.ending = 0 ∧ o.ends = 1 := by
  have honce := hi.once
  split at honce
  · next hzero =>
    have hcard : o.ending.card = 0 := by omega
    exact ⟨hzero, Multiset.card_eq_zero.mp hcard, by omega⟩
  · omega

end CountedObject

end DeepInIo
