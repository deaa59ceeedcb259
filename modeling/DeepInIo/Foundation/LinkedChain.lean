import Mathlib.Data.Nat.Notation
import Mathlib.Logic.Function.Basic

/-!
# Chains of linked nodes

`LinkedChain next p l` says that following `next` from `p` until there is no next node visits
exactly the nodes of `l`.  Such a chain has no cycle (`LinkedChain.nodup`), does not depend on the
links of other nodes, and grows at its end by one link (`LinkedChain.append`).  At its start a node
is put before it by linking the node to it (`LinkedChain.push`), and a node is taken out by linking
the one before it past it (`LinkedChain.unlink`).
-/

namespace DeepInIo

variable {ν : Type*}

/-- Following `next` from a pointer to the end visits the nodes of a list. -/
inductive LinkedChain (next : ν → Option ν) : Option ν → List ν → Prop
  | nil : LinkedChain next none []
  | cons {a : ν} {l : List ν} (h : LinkedChain next (next a) l) : LinkedChain next (some a) (a :: l)

/-- The first `fuel` nodes visited from a pointer. -/
def followLinks (next : ν → Option ν) : Option ν → ℕ → List ν
  | none, _ => []
  | some _, 0 => []
  | some a, fuel + 1 => a :: followLinks next (next a) fuel

namespace LinkedChain

variable {next : ν → Option ν} {p : Option ν} {l l' : List ν}

/-- The pointer is that to the first node. -/
theorem head?_eq (h : LinkedChain next p l) : l.head? = p := by
  cases h <;> rfl

/-- The nodes are determined by the pointer. -/
theorem unique (h : LinkedChain next p l) (h' : LinkedChain next p l') : l = l' := by
  induction h generalizing l' with
  | nil =>
    cases h'
    rfl
  | cons h ih =>
    cases h' with
    | cons h' => rw [ih h']

/-- From every node of a chain on there is a chain of its own. -/
theorem of_mem (h : LinkedChain next p l) {a : ν} (ha : a ∈ l) :
    ∃ l₁ l₂, l = l₁ ++ a :: l₂ ∧ LinkedChain next (some a) (a :: l₂) := by
  induction h with
  | nil => cases ha
  | @cons b l h ih =>
    rcases List.mem_cons.mp ha with rfl | hmem
    · exact ⟨[], l, rfl, .cons h⟩
    · obtain ⟨l₁, l₂, rfl, htail⟩ := ih hmem
      exact ⟨b :: l₁, l₂, rfl, htail⟩

/-- No node is visited twice. -/
theorem nodup (h : LinkedChain next p l) : l.Nodup := by
  induction h with
  | nil => exact List.nodup_nil
  | @cons a l h ih =>
    refine List.nodup_cons.mpr ⟨fun ha => ?_, ih⟩
    -- a second visit would start the same chain again, which is longer than its own rest
    obtain ⟨l₁, l₂, rfl, htail⟩ := h.of_mem ha
    have heq := congrArg List.length (LinkedChain.unique (.cons h) htail)
    simp only [List.length_cons, List.length_append] at heq
    omega

/-- Only the links of the visited nodes matter. -/
theorem congr {next' : ν → Option ν} (h : LinkedChain next p l) (heq : ∀ a ∈ l, next' a = next a) :
    LinkedChain next' p l := by
  induction h with
  | nil => exact .nil
  | @cons a l h ih =>
    refine .cons ?_
    rw [heq a List.mem_cons_self]
    exact ih fun b hb => heq b (List.mem_cons_of_mem _ hb)

/-- The links of other nodes do not matter. -/
theorem update [DecidableEq ν] (h : LinkedChain next p l) {a : ν} (ha : a ∉ l) (r : Option ν) :
    LinkedChain (Function.update next a r) p l := by
  induction h with
  | nil => exact .nil
  | @cons b l h ih =>
    obtain ⟨hab, hl⟩ := not_or.mp fun hm => ha (List.mem_cons.mpr hm)
    refine .cons ?_
    rw [Function.update_of_ne (Ne.symm hab)]
    exact ih hl

/-- Linking a node behind the last one. -/
theorem append [DecidableEq ν] (h : LinkedChain next p l) {a b : ν} (hlast : l.getLast? = some a)
    (hb : b ∉ l) (hnext : next b = none) :
    LinkedChain (Function.update next a (some b)) p (l ++ [b]) := by
  have hnodup := h.nodup
  induction h with
  | nil => cases hlast
  | @cons c l h ih =>
    obtain ⟨hbc, hbl⟩ := not_or.mp fun hm => hb (List.mem_cons.mpr hm)
    obtain ⟨hc, hl⟩ := List.nodup_cons.mp hnodup
    refine .cons ?_
    cases l with
    | nil =>
      obtain rfl : c = a := Option.some.inj hlast
      rw [Function.update_self]
      refine .cons ?_
      rw [Function.update_of_ne hbc, hnext]
      exact .nil
    | cons d l =>
      rw [List.getLast?_cons_cons] at hlast
      have hca : c ≠ a := fun heq => hc (heq ▸ List.mem_of_getLast? hlast)
      rw [Function.update_of_ne hca]
      exact ih hlast hbl hl

/-- Linking a node before the first one. -/
theorem push [DecidableEq ν] (h : LinkedChain next p l) {a : ν} (ha : a ∉ l) :
    LinkedChain (Function.update next a p) (some a) (a :: l) := by
  refine .cons ?_
  rw [Function.update_self]
  exact h.update ha p

/-- Past its first node a chain goes on. -/
theorem tail {a : ν} (h : LinkedChain next p (a :: l)) : LinkedChain next (next a) l := by
  cases h with
  | cons h => exact h

/-- Linking a node past the one behind it. -/
theorem unlink [DecidableEq ν] {l₁ l₂ : List ν} {a b : ν} (h : LinkedChain next p (l₁ ++ b :: l₂))
    (hlast : l₁.getLast? = some a) :
    LinkedChain (Function.update next a (next b)) p (l₁ ++ l₂) := by
  have hnodup := h.nodup
  induction l₁ generalizing p with
  | nil => cases hlast
  | cons c l₁ ih =>
    cases h with
    | cons h =>
      obtain ⟨hc, hl⟩ := List.nodup_cons.mp hnodup
      refine .cons ?_
      cases l₁ with
      | nil =>
        obtain rfl : c = a := Option.some.inj hlast
        rw [Function.update_self]
        exact h.tail.update (fun hm => hc (List.mem_cons_of_mem _ hm)) _
      | cons d l₁ =>
        rw [List.getLast?_cons_cons] at hlast
        have hca : c ≠ a :=
          fun heq => hc (heq ▸ List.mem_append_left _ (List.mem_of_getLast? hlast))
        rw [Function.update_of_ne hca]
        exact ih h hlast hl

/-- Following the links far enough finds the nodes. -/
theorem followLinks_eq (h : LinkedChain next p l) {fuel : ℕ} (hle : l.length ≤ fuel) :
    followLinks next p fuel = l := by
  induction h generalizing fuel with
  | nil => cases fuel <;> rfl
  | cons h ih =>
    cases fuel with
    | zero => cases hle
    | succ fuel => rw [followLinks, ih (Nat.le_of_succ_le_succ hle)]

end LinkedChain

end DeepInIo
