import Mathlib.Data.Int.CardIntervalMod
import Mathlib.Data.List.Induction

/-!
# Round robin

The turns of a round robin over `n` places: turn `i` is that of the place `i % n`.  After any number
of turns two places differ by at most one turn (`turnsOf_le_succ`).  A list that is dealt in turn is
divided in this way, and every place gets its share in the order of the list (`dealt`).
-/

namespace DeepInIo

/-- How many of the first `k` turns of a round robin over `n` places are those of the place `j`. -/
def turnsOf (n k j : ℕ) : ℕ :=
  Nat.count (fun i => i % n = j) k

variable {n k i j : ℕ}

/-- The turn `k` is that of the place `k % n`. -/
theorem turnsOf_succ : turnsOf n (k + 1) j = turnsOf n k j + if k % n = j then 1 else 0 :=
  Nat.count_succ ..

/-- Every place has had one turn in each full round, and the first places one more. -/
theorem turnsOf_eq (hj : j < n) : turnsOf n k j = k / n + if j < k % n then 1 else 0 := by
  have hcount := Nat.count_modEq_card k (Nat.zero_lt_of_lt hj) j
  rw [Nat.mod_eq_of_lt hj] at hcount
  rw [← hcount, turnsOf]
  congr 1
  funext i
  rw [Nat.ModEq, Nat.mod_eq_of_lt hj]

/-- No place is more than one turn ahead of another. -/
theorem turnsOf_le_succ (hi : i < n) (hj : j < n) : turnsOf n k i ≤ turnsOf n k j + 1 := by
  rw [turnsOf_eq hi, turnsOf_eq hj]
  split <;> split <;> omega

/-- The place after that of the turn `k`. -/
theorem succ_mod_round : (k % n + 1) % n = (k + 1) % n :=
  Nat.mod_add_mod k n 1

/-! ### Dealing -/

variable {α : Type*}

/-- What the place `j` gets when the list is dealt to `n` places in turn. -/
def dealt (n j : ℕ) (xs : List α) : List α :=
  (xs.zipIdx.filter fun p => p.2 % n = j).map Prod.fst

@[simp] theorem dealt_nil : dealt n j ([] : List α) = [] := rfl

/-- The next one goes to the place whose turn it is. -/
theorem dealt_concat (xs : List α) (x : α) :
    dealt n j (xs ++ [x]) = dealt n j xs ++ if xs.length % n = j then [x] else [] := by
  rw [dealt, dealt, List.zipIdx_append, List.filter_append, List.map_append, Nat.zero_add,
    List.zipIdx_singleton, List.filter_singleton]
  congr 1
  by_cases hj : xs.length % n = j <;> simp [hj]

/-- A place gets as many as it has turns. -/
theorem length_dealt (xs : List α) : (dealt n j xs).length = turnsOf n xs.length j := by
  induction xs using List.reverseRecOn with
  | nil => rfl
  | append_singleton xs x ih =>
    rw [dealt_concat, List.length_append, ih, List.length_append, List.length_singleton,
      turnsOf_succ]
    split <;> rfl

/-- No place gets more than one more than another. -/
theorem length_dealt_le_succ (hi : i < n) (hj : j < n) (xs : List α) :
    (dealt n i xs).length ≤ (dealt n j xs).length + 1 := by
  rw [length_dealt, length_dealt]
  exact turnsOf_le_succ hi hj

end DeepInIo
