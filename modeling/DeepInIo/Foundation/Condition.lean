import Mathlib.Data.Finset.Card
import Mathlib.Data.Int.Notation

/-!
# Condition variables

A condition variable is a set of threads that wait and a set of threads that were woken and have not
run since.  A signal wakes at least one waiting thread if there is one; a spurious wake-up is a
wake-up of one thread, and a broadcast wakes all.

`Condition.Covers k` says that a thread waits only while `k` woken ones are on their way.  A signal
raises the number that is covered by one, and a woken thread that runs lowers it by one; so a single
signal for each unit of work is enough for no thread to wait beside work that nobody was woken for.
-/

namespace DeepInIo

/-- A condition variable with the threads that wait on it and those that were woken. -/
structure Condition (θ : Type*) where
  waiting : Finset θ
  signalled : Finset θ

namespace Condition

variable {θ : Type*} [DecidableEq θ] (c : Condition θ)

/-- Nobody waits. -/
def idle (θ : Type*) : Condition θ := ⟨∅, ∅⟩

/-- A thread begins to wait. -/
def wait (th : θ) : Condition θ := { c with waiting := insert th c.waiting }

/-- The threads `W` are woken. -/
def wake (W : Finset θ) : Condition θ := ⟨c.waiting \ W, c.signalled ∪ W⟩

/-- All are woken. -/
def broadcast : Condition θ := c.wake c.waiting

/-- A woken thread runs. -/
def leave (th : θ) : Condition θ := { c with signalled := c.signalled.erase th }

/-- The sets of threads that a signal may wake. -/
def Signals (W : Finset θ) : Prop :=
  W ⊆ c.waiting ∧ (c.waiting.Nonempty → W.Nonempty)

instance (W : Finset θ) : Decidable (c.Signals W) :=
  inferInstanceAs (Decidable (_ ∧ _))

/-- The threads at a condition variable. -/
def members : Finset θ :=
  c.waiting ∪ c.signalled

/-- A thread waits only while at least `k` woken ones have not run. -/
def Covers (k : ℤ) : Prop :=
  c.waiting.Nonempty → k ≤ c.signalled.card

section lemmas

variable {c} {k k' : ℤ} {W : Finset θ} {th : θ}

/-! ### Who is at the condition variable -/

@[simp] theorem mem_members_wait {th' : θ} :
    th' ∈ (c.wait th).members ↔ th' = th ∨ th' ∈ c.members := by
  simp [members, wait]

/-- Waking moves threads from one set to the other. -/
theorem members_wake (hW : W ⊆ c.waiting) : (c.wake W).members = c.members := by
  ext th'
  simp only [members, wake, Finset.mem_union, Finset.mem_sdiff]
  by_cases hmem : th' ∈ W
  · simp [hmem, hW hmem]
  · simp [hmem]

@[simp] theorem members_broadcast : c.broadcast.members = c.members :=
  members_wake (Finset.Subset.refl _)

@[simp] theorem broadcast_waiting : c.broadcast.waiting = ∅ :=
  Finset.sdiff_self _

/-- A thread that runs is no longer there. -/
theorem mem_members_leave {th' : θ} (hdisj : Disjoint c.waiting c.signalled)
    (hth : th ∈ c.signalled) :
    th' ∈ (c.leave th).members ↔ th' ≠ th ∧ th' ∈ c.members := by
  have hnot : th ∉ c.waiting := fun hw => Finset.disjoint_left.mp hdisj hw hth
  simp only [members, leave, Finset.mem_union, Finset.mem_erase]
  constructor
  · rintro (hw | ⟨hne, hs⟩)
    · exact ⟨fun heq => hnot (heq ▸ hw), .inl hw⟩
    · exact ⟨hne, .inr hs⟩
  · rintro ⟨hne, hw | hs⟩
    · exact .inl hw
    · exact .inr ⟨hne, hs⟩

/-! ### A thread waits or was woken -/

theorem disjoint_wait (hdisj : Disjoint c.waiting c.signalled) (hth : th ∉ c.signalled) :
    Disjoint (c.wait th).waiting (c.wait th).signalled :=
  Finset.disjoint_insert_left.mpr ⟨hth, hdisj⟩

theorem disjoint_wake (hdisj : Disjoint c.waiting c.signalled) (W : Finset θ) :
    Disjoint (c.wake W).waiting (c.wake W).signalled := by
  refine Finset.disjoint_union_right.mpr ⟨?_, Finset.sdiff_disjoint⟩
  exact Disjoint.mono_left Finset.sdiff_subset hdisj

theorem disjoint_leave (hdisj : Disjoint c.waiting c.signalled) (th : θ) :
    Disjoint (c.leave th).waiting (c.leave th).signalled :=
  Disjoint.mono_right (Finset.erase_subset th c.signalled) hdisj

/-! ### Counting -/

omit [DecidableEq θ] in
/-- Less is covered as well. -/
theorem Covers.mono (h : c.Covers k) (hle : k' ≤ k) : c.Covers k' :=
  fun hw => le_trans hle (h hw)

omit [DecidableEq θ] in
/-- Nothing is always covered. -/
theorem covers_of_nonpos (hle : k ≤ 0) : c.Covers k :=
  fun _ => le_trans hle (Int.natCast_nonneg _)

omit [DecidableEq θ] in
/-- Anything is covered when nobody waits. -/
theorem covers_of_empty (h : c.waiting = ∅) : c.Covers k := by
  intro hw
  rw [h] at hw
  exact absurd hw Finset.not_nonempty_empty

/-- Waking threads keeps what is covered. -/
theorem Covers.wake (h : c.Covers k) (W : Finset θ) : (c.wake W).Covers k := by
  intro hw
  have hle : c.signalled.card ≤ (c.wake W).signalled.card :=
    Finset.card_le_card Finset.subset_union_left
  have hk := h (hw.mono Finset.sdiff_subset)
  omega

/-- A signal covers one more. -/
theorem Covers.signal (h : c.Covers k) (hdisj : Disjoint c.waiting c.signalled) (hW : c.Signals W) :
    (c.wake W).Covers (k + 1) := by
  intro hw
  have hwaiting : c.waiting.Nonempty := hw.mono Finset.sdiff_subset
  have hk := h hwaiting
  have hpos := Finset.card_pos.mpr (hW.2 hwaiting)
  have hcard : (c.wake W).signalled.card = c.signalled.card + W.card :=
    Finset.card_union_of_disjoint (Disjoint.mono_left hW.1 hdisj).symm
  omega

/-- A woken thread that runs covers one less. -/
theorem Covers.leave (h : c.Covers k) (th : θ) : (c.leave th).Covers (k - 1) := by
  intro hw
  have hk := h hw
  have hcard := Finset.pred_card_le_card_erase (s := c.signalled) (a := th)
  change _ ≤ ((c.signalled.erase th).card : ℤ)
  omega

end lemmas

end Condition

end DeepInIo
