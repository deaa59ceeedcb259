import Mathlib.Data.List.Basic
import Mathlib.Logic.Function.Basic
import Mathlib.Logic.Relation
import Mathlib.Order.Basic
import Mathlib.Algebra.Order.Group.Nat

/-!
# A table of slots emptied from the front

Entries are put into free slots of a table, and the entry in the first used slot is taken.  Every
entry carries a stamp, the number of entries put before it, so that `taken` shows how far the table
is from a queue.

`SlotTable.Step R b` is a step that does not put an entry below a related one, nor below one that
`b` later entries have passed already.  Under this condition related entries are taken in the order
in which they were put, and no entry is passed by more than `b` others (`SlotTable.Inv`).
-/

namespace DeepInIo

/-- The loop `for (i = start; i < start + count; i++) if (p(i)) return i;`. -/
def scan (p : ℕ → Bool) (start : ℕ) : ℕ → Option ℕ
  | 0 => none
  | count + 1 => if p start then some start else scan p (start + 1) count

/-- The loop finds the first index that passes the test. -/
theorem scan_eq_some {p : ℕ → Bool} {start count i : ℕ} (h : scan p start count = some i) :
    start ≤ i ∧ i < start + count ∧ p i = true ∧ ∀ j, start ≤ j → j < i → p j = false := by
  induction count generalizing start with
  | zero => cases h
  | succ count ih =>
    rw [scan] at h
    split at h
    · next hp =>
      cases h
      exact ⟨le_rfl, by omega, hp, fun j hj hlt => absurd hlt (not_lt.mpr hj)⟩
    · next hp =>
      obtain ⟨hle, hlt, hi, hmin⟩ := ih h
      refine ⟨by omega, by omega, hi, fun j hj hji => ?_⟩
      rcases Nat.eq_or_lt_of_le hj with rfl | hj
      · exact Bool.eq_false_iff.mpr hp
      · exact hmin j hj hji

/-- The loop ends when no index passes the test. -/
theorem scan_eq_none {p : ℕ → Bool} {start count : ℕ} (h : scan p start count = none) (i : ℕ)
    (hle : start ≤ i) (hlt : i < start + count) : p i = false := by
  induction count generalizing start with
  | zero => omega
  | succ count ih =>
    rw [scan] at h
    split at h
    · cases h
    · next hp =>
      rcases Nat.eq_or_lt_of_le hle with rfl | hle
      · exact Bool.eq_false_iff.mpr hp
      · exact ih h hle (by omega)

/-- A table whose used slots hold stamped entries. -/
structure SlotTable (α : Type*) where
  slots : ℕ → Option (ℕ × α)
  /-- The stamp of the next entry. -/
  next : ℕ
  /-- The entries taken so far, in that order. -/
  taken : List (ℕ × α)

namespace SlotTable

variable {α : Type*} {R : α → α → Prop} {b : ℕ} {t t' : SlotTable α}

/-- How many of the entries of a list were put after the stamp `k`. -/
def later (k : ℕ) (l : List (ℕ × α)) : ℕ :=
  l.countP fun e => k < e.1

/-- How many of the slots below `j` hold entries put after the stamp `k`. -/
def laterBelow (slots : ℕ → Option (ℕ × α)) (k j : ℕ) : ℕ :=
  (List.range j).countP fun i => (slots i).any fun e => k < e.1

/-- How many entries have passed, or are about to pass, an entry with stamp `k` in the slot `j`. -/
def passed (t : SlotTable α) (k j : ℕ) : ℕ :=
  later k t.taken + laterBelow t.slots k j

/-- An entry is put into a free slot, or the entry in the first used slot is taken. -/
inductive Step (R : α → α → Prop) (b : ℕ) : SlotTable α → SlotTable α → Prop
  | put (t : SlotTable α) (i : ℕ) (v : α) (hfree : t.slots i = none)
      (hfit : ∀ j e, i < j → t.slots j = some e → ¬R v e.2 ∧ t.passed e.1 j < b) :
      Step R b t ⟨Function.update t.slots i (some (t.next, v)), t.next + 1, t.taken⟩
  | take (t : SlotTable α) (i : ℕ) (e : ℕ × α) (hi : t.slots i = some e)
      (hfirst : ∀ j, j < i → t.slots j = none) :
      Step R b t ⟨Function.update t.slots i none, t.next, t.taken ++ [e]⟩

/-- Related entries leave in the order in which they came, and none is passed by more than `b`
others. -/
structure Inv (R : α → α → Prop) (b : ℕ) (t : SlotTable α) : Prop where
  slot_lt : ∀ i e, t.slots i = some e → e.1 < t.next
  taken_lt : ∀ e ∈ t.taken, e.1 < t.next
  slots_ordered : ∀ i j e e', i < j → t.slots i = some e → t.slots j = some e' → R e.2 e'.2 →
    e.1 < e'.1
  taken_first : ∀ e ∈ t.taken, ∀ j e', t.slots j = some e' → R e.2 e'.2 → e.1 < e'.1
  taken_ordered : t.taken.Pairwise fun e e' => R e.2 e'.2 → e.1 < e'.1
  slot_passed : ∀ j e, t.slots j = some e → t.passed e.1 j ≤ b
  taken_passed : ∀ l e l', t.taken = l ++ e :: l' → later e.1 l ≤ b

/-- An empty table. -/
theorem inv_empty : Inv R b (⟨fun _ => none, 0, []⟩ : SlotTable α) := by
  refine ⟨nofun, nofun, nofun, nofun, .nil, nofun, fun l e l' h => ?_⟩
  simp at h

/-! ### Counting -/

/-- Nothing comes after the next stamp. -/
theorem later_eq_zero {l : List (ℕ × α)} {k : ℕ} (h : ∀ e ∈ l, e.1 < k) : later k l = 0 := by
  refine List.countP_eq_zero.mpr fun e he => ?_
  simpa using (h e he).le

theorem later_append (k : ℕ) (l l' : List (ℕ × α)) : later k (l ++ l') = later k l + later k l' :=
  List.countP_append ..

/-- Changing one slot changes the count of the slots above it by what the slot counts for. -/
theorem laterBelow_update (slots : ℕ → Option (ℕ × α)) (o : Option (ℕ × α)) (k : ℕ) {i j : ℕ}
    (hij : i < j) :
    laterBelow (Function.update slots i o) k j + ((slots i).any fun e => k < e.1).toNat =
      laterBelow slots k j + (o.any fun e => k < e.1).toNat := by
  induction j with
  | zero => omega
  | succ j ih =>
    rw [laterBelow, laterBelow, List.range_succ, List.countP_append, List.countP_append]
    rcases Nat.lt_succ_iff_lt_or_eq.mp hij with hlt | rfl
    · have hj : Function.update slots i o j = slots j :=
        Function.update_of_ne (Nat.ne_of_gt hlt) _ _
      have hrest := ih hlt
      rw [laterBelow, laterBelow] at hrest
      simp only [List.countP_singleton, hj]
      omega
    · have hsame :
          (List.range i).countP (fun i' => (Function.update slots i o i').any fun e => k < e.1) =
            (List.range i).countP fun i' => (slots i').any fun e => k < e.1 := by
        refine List.countP_congr fun i' hi' => ?_
        rw [Function.update_of_ne (Nat.ne_of_lt (List.mem_range.mp hi'))]
      rw [hsame]
      simp only [List.countP_singleton, Function.update_self]
      cases (slots i).any fun e => decide (k < e.1) <;> cases o.any fun e => decide (k < e.1) <;>
        simp

/-- A slot does not count for the slots below it. -/
theorem laterBelow_update_of_le (slots : ℕ → Option (ℕ × α)) (o : Option (ℕ × α)) (k : ℕ) {i j : ℕ}
    (hji : j ≤ i) : laterBelow (Function.update slots i o) k j = laterBelow slots k j := by
  refine List.countP_congr fun i' hi' => ?_
  have hlt := List.mem_range.mp hi'
  rw [Function.update_of_ne (by omega)]

/-! ### The invariant -/

/-- Putting an entry keeps the order. -/
theorem Inv.put (h : Inv R b t) {i : ℕ} {v : α} (hfree : t.slots i = none)
    (hfit : ∀ j e, i < j → t.slots j = some e → ¬R v e.2 ∧ t.passed e.1 j < b) :
    Inv R b ⟨Function.update t.slots i (some (t.next, v)), t.next + 1, t.taken⟩ := by
  have hslot : ∀ {j e}, Function.update t.slots i (some (t.next, v)) j = some e →
      (j = i ∧ e = (t.next, v)) ∨ (j ≠ i ∧ t.slots j = some e) := by
    intro j e he
    by_cases hj : j = i
    · subst hj
      rw [Function.update_self] at he
      exact .inl ⟨rfl, (Option.some.inj he).symm⟩
    · rw [Function.update_of_ne hj] at he
      exact .inr ⟨hj, he⟩
  refine ⟨fun j e he => ?_, fun e he => ?_, fun j j' e e' hlt he he' hr => ?_,
    fun e he j e' he' hr => ?_, h.taken_ordered, fun j e he => ?_, h.taken_passed⟩
  · rcases hslot he with ⟨-, rfl⟩ | ⟨-, he⟩
    · exact Nat.lt_succ_self _
    · exact Nat.lt_succ_of_lt (h.slot_lt j e he)
  · exact Nat.lt_succ_of_lt (h.taken_lt e he)
  · rcases hslot he with ⟨rfl, rfl⟩ | ⟨hj, he⟩
    · rcases hslot he' with ⟨rfl, -⟩ | ⟨-, he'⟩
      · exact absurd hlt (lt_irrefl _)
      · exact absurd hr (hfit j' e' hlt he').1
    · rcases hslot he' with ⟨-, rfl⟩ | ⟨-, he'⟩
      · exact h.slot_lt j e he
      · exact h.slots_ordered j j' e e' hlt he he' hr
  · rcases hslot he' with ⟨-, rfl⟩ | ⟨-, he'⟩
    · exact h.taken_lt e he
    · exact h.taken_first e he j e' he' hr
  · rcases hslot he with ⟨rfl, rfl⟩ | ⟨hj, he⟩
    · have hbelow : laterBelow (Function.update t.slots j (some (t.next, v))) t.next j = 0 := by
        rw [laterBelow_update_of_le _ _ _ le_rfl]
        refine List.countP_eq_zero.mpr fun i' _ => ?_
        cases he : t.slots i' with
        | none => simp
        | some e => simpa using (h.slot_lt i' e he).le
      rw [passed, hbelow, later_eq_zero h.taken_lt]
      exact Nat.zero_le b
    · rcases Nat.lt_or_gt_of_ne hj with hlt | hgt
      · rw [passed, laterBelow_update_of_le _ _ _ hlt.le]
        exact h.slot_passed j e he
      · have hcount := laterBelow_update t.slots (some (t.next, v)) e.1 hgt
        have hpassed := (hfit j e hgt he).2
        rw [passed] at hpassed
        change later e.1 t.taken +
            laterBelow (Function.update t.slots i (some (t.next, v))) e.1 j ≤ b
        have hle := Bool.toNat_le ((some (t.next, v)).any fun e' : ℕ × α => e.1 < e'.1)
        rw [hfree] at hcount
        simp only [Option.any_none, Bool.toNat_false] at hcount
        omega

/-- Taking the first entry keeps the order. -/
theorem Inv.take (h : Inv R b t) {i : ℕ} {e : ℕ × α} (hi : t.slots i = some e)
    (hfirst : ∀ j, j < i → t.slots j = none) :
    Inv R b ⟨Function.update t.slots i none, t.next, t.taken ++ [e]⟩ := by
  have hslot : ∀ {j e'}, Function.update t.slots i none j = some e' → i < j ∧
      t.slots j = some e' := by
    intro j e' he'
    have hj : j ≠ i := by
      rintro rfl
      rw [Function.update_self] at he'
      cases he'
    rw [Function.update_of_ne hj] at he'
    refine ⟨?_, he'⟩
    rcases Nat.lt_or_gt_of_ne hj with hlt | hgt
    · rw [hfirst j hlt] at he'
      cases he'
    · exact hgt
  refine ⟨fun j e' he' => ?_, fun e' he' => ?_, fun j j' e₁ e₂ hlt he₁ he₂ hr => ?_,
    fun e' he' j e₂ he₂ hr => ?_, ?_, fun j e' he' => ?_, fun l e' l' heq => ?_⟩
  · exact h.slot_lt j e' (hslot he').2
  · rcases List.mem_append.mp he' with he' | he'
    · exact h.taken_lt e' he'
    · cases List.mem_singleton.mp he'
      exact h.slot_lt i e hi
  · exact h.slots_ordered j j' e₁ e₂ hlt (hslot he₁).2 (hslot he₂).2 hr
  · obtain ⟨hij, he₂⟩ := hslot he₂
    rcases List.mem_append.mp he' with he' | he'
    · exact h.taken_first e' he' j e₂ he₂ hr
    · cases List.mem_singleton.mp he'
      exact h.slots_ordered i j e e₂ hij hi he₂ hr
  · rw [List.pairwise_append]
    refine ⟨h.taken_ordered, List.pairwise_singleton .., fun e₁ he₁ e₂ he₂ => ?_⟩
    cases List.mem_singleton.mp he₂
    exact h.taken_first e₁ he₁ i e hi
  · obtain ⟨hij, he'⟩ := hslot he'
    have hcount := laterBelow_update t.slots none e'.1 hij
    have hpassed := h.slot_passed j e' he'
    rw [passed] at hpassed
    change later e'.1 (t.taken ++ [e]) + laterBelow (Function.update t.slots i none) e'.1 j ≤ b
    rw [hi] at hcount
    simp only [Option.any_none, Bool.toNat_false, Option.any_some] at hcount
    have hone : later e'.1 [e] = (decide (e'.1 < e.1)).toNat := by
      rw [later, List.countP_singleton]
      cases decide (e'.1 < e.1) <;> rfl
    rw [later_append, hone]
    omega
  · rcases List.eq_nil_or_concat l' with rfl | ⟨l₀, x, rfl⟩
    · obtain ⟨rfl, hx⟩ := List.append_inj' heq rfl
      cases hx
      have hpassed := h.slot_passed i e hi
      rw [passed] at hpassed
      omega
    · rw [List.concat_eq_append, ← List.cons_append, ← List.append_assoc] at heq
      obtain ⟨heq, -⟩ := List.append_inj' heq rfl
      exact h.taken_passed l e' l₀ heq

/-- Every step keeps the order. -/
theorem Step.inv (h : Step R b t t') (hi : Inv R b t) : Inv R b t' := by
  cases h with
  | put i v hfree hfit => exact hi.put hfree hfit
  | take i e he hfirst => exact hi.take he hfirst

/-- Runs keep the order. -/
theorem Inv.steps (hi : Inv R b t) (h : Relation.ReflTransGen (Step R b) t t') : Inv R b t' := by
  induction h with
  | refl => exact hi
  | tail _ hs ih => exact hs.inv ih

end SlotTable

end DeepInIo
