import Mathlib.Data.Multiset.Filter
import Mathlib.Data.Multiset.Range
import Mathlib.Logic.Function.Basic
import Mathlib.Logic.Relation

/-!
# A bag kept in slots

A `Bag` of bounded size has entries put into it and taken out of it in any order: what was put is
what is still there and what was taken (`Bag.Inv`).  `slotContents` are the entries in the used
slots of a table.  Filling a free slot puts an entry into this bag, and emptying a used one takes it
out.
-/

namespace DeepInIo

/-! ### Bags -/

/-- A bag with all entries that were put into it and taken out of it. -/
structure Bag (α : Type*) where
  contents : Multiset α
  put : Multiset α
  taken : Multiset α

namespace Bag

variable {α : Type*} {cap : ℕ} {b b' : Bag α}

/-- An entry is put into a bag that is not full, or taken out. -/
inductive Step (cap : ℕ) : Bag α → Bag α → Prop
  | put (b : Bag α) (a : α) (h : b.contents.card < cap) :
      Step cap b ⟨a ::ₘ b.contents, a ::ₘ b.put, b.taken⟩
  | take (b : Bag α) (a : α) (rest : Multiset α) (h : b.contents = a ::ₘ rest) :
      Step cap b ⟨rest, b.put, a ::ₘ b.taken⟩

/-- What was put is there or was taken, and the bag is not overfull. -/
structure Inv (cap : ℕ) (b : Bag α) : Prop where
  put_eq : b.put = b.contents + b.taken
  card_le : b.contents.card ≤ cap

theorem inv_empty : (⟨0, 0, 0⟩ : Bag α).Inv cap :=
  ⟨rfl, Nat.zero_le _⟩

/-- Every step keeps the invariant. -/
theorem Step.inv (hs : Step cap b b') (h : b.Inv cap) : b'.Inv cap := by
  cases hs with
  | put a hlt =>
    constructor
    · simp only [h.put_eq, Multiset.cons_add]
    · simp only [Multiset.card_cons]
      exact hlt
  | take a rest hrest =>
    constructor
    · simp only [h.put_eq, hrest, Multiset.cons_add, Multiset.add_cons]
    · have hle := h.card_le
      rw [hrest, Multiset.card_cons] at hle
      exact Nat.le_of_succ_le hle

/-- The invariant holds along every run. -/
theorem Inv.steps (h : b.Inv cap) (hs : Relation.ReflTransGen (Step cap) b b') : b'.Inv cap := by
  induction hs with
  | refl => exact h
  | tail _ hs ih => exact hs.inv ih

end Bag

/-- A list with one more entry at its end, as a bag. -/
theorem coe_snoc {α : Type*} (l : List α) (a : α) :
    ((l ++ [a] : List α) : Multiset α) = a ::ₘ (l : Multiset α) :=
  Multiset.coe_eq_coe.mpr (List.perm_append_singleton a l)

/-! ### Slots -/

variable {α : Type*} {size i : ℕ} {slots : ℕ → Option α} {a : α}

/-- The entries in the used slots below `size`. -/
def slotContents (size : ℕ) (slots : ℕ → Option α) : Multiset α :=
  (Multiset.range size).filterMap slots

theorem slotContents_succ_some (h : slots size = some a) :
    slotContents (size + 1) slots = a ::ₘ slotContents size slots := by
  rw [slotContents, Multiset.range_succ, Multiset.filterMap_cons_some slots size _ h]
  rfl

theorem slotContents_succ_none (h : slots size = none) :
    slotContents (size + 1) slots = slotContents size slots := by
  rw [slotContents, Multiset.range_succ, Multiset.filterMap_cons_none size _ h]
  rfl

/-- A last slot that stays as it is adds its entry on both sides. -/
theorem slotContents_succ_congr {slots' : ℕ → Option α} (h : slots' size = slots size)
    {f : Multiset α → Multiset α} (hf : ∀ a s, f (a ::ₘ s) = a ::ₘ f s)
    (ih : slotContents size slots' = f (slotContents size slots)) :
    slotContents (size + 1) slots' = f (slotContents (size + 1) slots) := by
  cases hslot : slots size with
  | none => rw [slotContents_succ_none (h.trans hslot), slotContents_succ_none hslot, ih]
  | some a => rw [slotContents_succ_some (h.trans hslot), slotContents_succ_some hslot, ih, hf]

/-- The slots from `size` on do not matter. -/
theorem slotContents_update_of_le (h : size ≤ i) (r : Option α) :
    slotContents size (Function.update slots i r) = slotContents size slots := by
  induction size with
  | zero => rfl
  | succ size ih =>
    have hne : size ≠ i := Nat.ne_of_lt h
    exact slotContents_succ_congr (Function.update_of_ne hne ..) (f := id) (fun _ _ => rfl)
      (ih (Nat.le_of_succ_le h))

/-- Filling a free slot puts an entry. -/
theorem slotContents_fill (hi : i < size) (hfree : slots i = none) :
    slotContents size (Function.update slots i (some a)) = a ::ₘ slotContents size slots := by
  induction size with
  | zero => cases hi
  | succ size ih =>
    by_cases hlast : i = size
    · subst hlast
      rw [slotContents_succ_some (Function.update_self ..), slotContents_update_of_le le_rfl,
        slotContents_succ_none hfree]
    · exact slotContents_succ_congr (Function.update_of_ne (Ne.symm hlast) ..)
        (f := fun s => a ::ₘ s) (fun b s => Multiset.cons_swap ..) (ih (by omega))

/-- Emptying a used slot takes its entry. -/
theorem slotContents_clear (hi : i < size) (hused : slots i = some a) :
    slotContents size slots = a ::ₘ slotContents size (Function.update slots i none) := by
  have hfill := slotContents_fill (a := a) hi (Function.update_self i none slots)
  rwa [Function.update_idem, ← hused, Function.update_eq_self] at hfill

/-- There are as many entries as slots exactly when all are used. -/
theorem card_slotContents_eq_iff :
    (slotContents size slots).card ≤ size ∧
      ((slotContents size slots).card = size ↔ ∀ i < size, (slots i).isSome = true) := by
  induction size with
  | zero => exact ⟨le_rfl, iff_of_true rfl fun _ h => absurd h (Nat.not_lt_zero _)⟩
  | succ size ih =>
    obtain ⟨hle, hiff⟩ := ih
    cases hslot : slots size with
    | none =>
      rw [slotContents_succ_none hslot]
      refine ⟨Nat.le_succ_of_le hle, iff_of_false (by omega) fun hall => ?_⟩
      have hlast := hall size (Nat.lt_succ_self _)
      rw [hslot] at hlast
      cases hlast
    | some a =>
      rw [slotContents_succ_some hslot, Multiset.card_cons]
      refine ⟨Nat.succ_le_succ hle, ?_⟩
      rw [Nat.succ_inj, hiff]
      constructor
      · intro hall i hi
        rcases Nat.lt_succ_iff_lt_or_eq.mp hi with hlt | rfl
        · exact hall i hlt
        · rw [hslot]
          rfl
      · exact fun hall i hi => hall i (Nat.lt_succ_of_lt hi)

/-- There is no entry exactly when no slot is used. -/
theorem slotContents_eq_zero_iff : slotContents size slots = 0 ↔ ∀ i < size, slots i = none := by
  induction size with
  | zero => exact iff_of_true rfl fun _ h => absurd h (Nat.not_lt_zero _)
  | succ size ih =>
    cases hslot : slots size with
    | none =>
      rw [slotContents_succ_none hslot, ih]
      constructor
      · intro hall i hi
        rcases Nat.lt_succ_iff_lt_or_eq.mp hi with hlt | rfl
        · exact hall i hlt
        · exact hslot
      · exact fun hall i hi => hall i (Nat.lt_succ_of_lt hi)
    | some a =>
      rw [slotContents_succ_some hslot]
      refine iff_of_false (Multiset.cons_ne_zero) fun hall => ?_
      rw [hall size (Nat.lt_succ_self _)] at hslot
      cases hslot

end DeepInIo
