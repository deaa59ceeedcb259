import Mathlib.Data.List.Count
import Mathlib.Data.List.Nodup
import Mathlib.Data.List.Perm.Basic
import Mathlib.Logic.Function.Basic

/-!
# Allocators

An `Allocator` counts for every address how often it was allocated and freed.  `malloc` returns any
address that is not live, and only a live address can be freed.  When the live addresses are those
of a list (`Allocator.Owns`), every allocation is in the list or was freed, and none was freed
twice; `Owns.malloc` and `Owns.free` say how the list changes.
-/

namespace DeepInIo

/-- How often each address was allocated and freed. -/
structure Allocator (α : Type*) where
  allocs : α → ℕ
  frees : α → ℕ

namespace Allocator

variable {α : Type*} [DecidableEq α] {h h' : Allocator α} {l l' : List α} {a : α}

/-- Nothing was allocated. -/
def empty : Allocator α :=
  ⟨fun _ => 0, fun _ => 0⟩

/-- The address is allocated and not freed. -/
def live (h : Allocator α) (a : α) : Bool :=
  h.frees a < h.allocs a

/-- `malloc` returns the address `a`. -/
def malloc (h : Allocator α) (a : α) : Option (Allocator α) :=
  if h.live a then none else some { h with allocs := Function.update h.allocs a (h.allocs a + 1) }

/-- `free`, which faults when the address is not live. -/
def free (h : Allocator α) (a : α) : Option (Allocator α) :=
  if h.live a then some { h with frees := Function.update h.frees a (h.frees a + 1) } else none

/-- Every allocation is in the list, once, or was freed. -/
structure Owns (h : Allocator α) (l : List α) : Prop where
  nodup : l.Nodup
  allocs : ∀ a, h.allocs a = h.frees a + l.count a

theorem owns_empty : (empty : Allocator α).Owns [] :=
  ⟨List.nodup_nil, fun _ => rfl⟩

/-- The live addresses are those of the list. -/
theorem Owns.live_iff (ho : h.Owns l) : h.live a = true ↔ a ∈ l := by
  have hcount := ho.allocs a
  rw [live, decide_eq_true_iff, ← List.count_pos_iff]
  omega

/-- The order of the list does not matter. -/
theorem Owns.perm (ho : h.Owns l) (hp : l.Perm l') : h.Owns l' :=
  ⟨hp.nodup_iff.mp ho.nodup, fun a => by rw [ho.allocs a, hp.count_eq]⟩

/-- `malloc` adds its address. -/
theorem Owns.of_malloc (ho : h.Owns l) (hm : h.malloc a = some h') : h'.Owns (a :: l) := by
  unfold malloc at hm
  split at hm
  · cases hm
  · next hlive =>
    cases hm
    refine ⟨List.nodup_cons.mpr ⟨fun hmem => hlive (ho.live_iff.mpr hmem), ho.nodup⟩, fun b => ?_⟩
    have hcount := ho.allocs b
    by_cases hb : b = a
    · subst hb
      simp only [Function.update_self, List.count_cons_self]
      omega
    · simp only [Function.update_of_ne hb, List.count_cons_of_ne (Ne.symm hb), hcount]

/-- `malloc` can return any address that is not in the list. -/
theorem Owns.malloc (ho : h.Owns l) (ha : a ∉ l) :
    ∃ h', h.malloc a = some h' ∧ h'.Owns (a :: l) := by
  have hm : h.malloc a = some { h with allocs := Function.update h.allocs a (h.allocs a + 1) } :=
    if_neg fun hlive => ha (ho.live_iff.mp hlive)
  exact ⟨_, hm, ho.of_malloc hm⟩

/-- An address of the list can be freed, and leaves it. -/
theorem Owns.free (ho : h.Owns (a :: l)) : ∃ h', h.free a = some h' ∧ h'.Owns l := by
  obtain ⟨ha, hl⟩ := List.nodup_cons.mp ho.nodup
  have hlive : h.live a = true := ho.live_iff.mpr List.mem_cons_self
  refine ⟨_, if_pos hlive, hl, fun b => ?_⟩
  have hcount := ho.allocs b
  by_cases hb : b = a
  · subst hb
    rw [List.count_cons_self] at hcount
    simp only [Function.update_self]
    omega
  · rw [List.count_cons_of_ne (Ne.symm hb)] at hcount
    simp only [Function.update_of_ne hb, hcount]

end Allocator

end DeepInIo
