import Mathlib.Data.List.Nodup
import Mathlib.Logic.Function.Basic

/-!
# Lists of entries with a key

A list whose entries have keys stands for the map that gives the first entry with a key
(`KeyedList.lookup`).  `put` replaces that entry where it is, or puts a new one in front, and
`remove` takes it out.  `put` is an update of the map in every case; `remove` is one when no two
entries have the same key, which both operations keep.
-/

namespace DeepInIo.KeyedList

variable {α κ : Type*} [DecidableEq κ] (key : α → κ)

/-- The first entry with the key. -/
def lookup (l : List α) (k : κ) : Option α :=
  l.find? fun e => key e == k

/-- Replace the first entry with the key of `e`, or put `e` in front. -/
def put (l : List α) (e : α) : List α :=
  match l.findIdx? fun e' => key e' == key e with
  | some i => l.set i e
  | none => e :: l

/-- Take out the first entry with the key. -/
def remove (l : List α) (k : κ) : List α :=
  l.eraseP fun e => key e == k

variable {key} {l l₁ l₂ : List α} {k : κ} {e e' : α}

/-! ### Where the key is -/

/-- Either no entry has the key, or there is a first one that has it. -/
theorem cases_key (key : α → κ) (l : List α) (k : κ) :
    k ∉ l.map key ∨ ∃ l₁ e l₂, l = l₁ ++ e :: l₂ ∧ key e = k ∧ k ∉ l₁.map key := by
  induction l with
  | nil => exact .inl List.not_mem_nil
  | cons d l ih =>
    by_cases hd : key d = k
    · exact .inr ⟨[], d, l, rfl, hd, List.not_mem_nil⟩
    · rcases ih with habsent | ⟨l₁, e, l₂, rfl, he, hl₁⟩
      · left
        rw [List.map_cons, List.mem_cons]
        exact not_or.mpr ⟨Ne.symm hd, habsent⟩
      · refine .inr ⟨d :: l₁, e, l₂, rfl, he, ?_⟩
        rw [List.map_cons, List.mem_cons]
        exact not_or.mpr ⟨Ne.symm hd, hl₁⟩

theorem test_eq_false (h : k ∉ l.map key) : ∀ e ∈ l, ¬(key e == k) = true := by
  intro e he heq
  exact h (List.mem_map.mpr ⟨e, he, beq_iff_eq.mp heq⟩)

theorem lookup_of_absent (h : k ∉ l.map key) : lookup key l k = none :=
  List.find?_eq_none.mpr (test_eq_false h)

theorem lookup_append (h : k ∉ l₁.map key) (he : key e = k) :
    lookup key (l₁ ++ e :: l₂) k = some e := by
  rw [lookup, List.find?_append, List.find?_eq_none.mpr (test_eq_false h),
    List.find?_cons_of_pos (by simpa using he)]
  rfl

theorem put_of_absent (h : key e ∉ l.map key) : put key l e = e :: l := by
  have hnone : (l.findIdx? fun e' => key e' == key e) = none := by
    rw [List.findIdx?_eq_none_iff]
    exact fun e' he' => Bool.eq_false_iff.mpr (test_eq_false h e' he')
  rw [put, hnone]

theorem put_append (h : key e ∉ l₁.map key) (he : key e' = key e) :
    put key (l₁ ++ e' :: l₂) e = l₁ ++ e :: l₂ := by
  have hnone : (l₁.findIdx? fun e' => key e' == key e) = none := by
    rw [List.findIdx?_eq_none_iff]
    exact fun e' he' => Bool.eq_false_iff.mpr (test_eq_false h e' he')
  have hsome : ((l₁ ++ e' :: l₂).findIdx? fun e' => key e' == key e) = some l₁.length := by
    rw [List.findIdx?_append, hnone, List.findIdx?_cons, if_pos (beq_iff_eq.mpr he)]
    simp
  rw [put, hsome]
  simp

theorem remove_of_absent (h : k ∉ l.map key) : remove key l k = l :=
  List.eraseP_of_forall_not (test_eq_false h)

theorem remove_append (h : k ∉ l₁.map key) (he : key e = k) :
    remove key (l₁ ++ e :: l₂) k = l₁ ++ l₂ := by
  rw [remove, List.eraseP_append_right _ (test_eq_false h),
    List.eraseP_cons_of_pos (by simpa using he)]

/-- An entry that is found is one of the list, and has the key. -/
theorem mem_of_lookup (h : lookup key l k = some e) : e ∈ l ∧ key e = k :=
  ⟨List.mem_of_find?_eq_some h, by simpa using List.find?_some h⟩

/-! ### The map -/

/-- The entries with other keys do not matter. -/
theorem lookup_append_of_ne (h : key e ≠ k) :
    lookup key (l₁ ++ e :: l₂) k = lookup key (l₁ ++ l₂) k := by
  rw [lookup, lookup, List.find?_append, List.find?_append,
    List.find?_cons_of_neg (by simpa using h)]

/-- A new first entry is an update of the map. -/
theorem lookup_cons (key : α → κ) (l : List α) (e : α) :
    lookup key (e :: l) = Function.update (lookup key l) (key e) (some e) := by
  funext k
  by_cases hk : k = key e
  · subst hk
    rw [Function.update_self, lookup, List.find?_cons_of_pos (by simp)]
  · rw [Function.update_of_ne hk, lookup, List.find?_cons_of_neg (by simpa using Ne.symm hk)]
    rfl

/-- `put` is an update of the map. -/
theorem lookup_put (key : α → κ) (l : List α) (e : α) :
    lookup key (put key l e) = Function.update (lookup key l) (key e) (some e) := by
  rcases cases_key key l (key e) with habsent | ⟨l₁, e', l₂, rfl, he', hl₁⟩
  · rw [put_of_absent habsent, lookup_cons]
  · funext k
    rw [put_append hl₁ he']
    by_cases hk : k = key e
    · subst hk
      rw [Function.update_self, lookup_append hl₁ rfl]
    · rw [Function.update_of_ne hk, lookup_append_of_ne (Ne.symm hk),
        lookup_append_of_ne (he'.trans_ne (Ne.symm hk))]

/-- When the keys are different, `remove` is an update of the map. -/
theorem lookup_remove (h : (l.map key).Nodup) (k : κ) :
    lookup key (remove key l k) = Function.update (lookup key l) k none := by
  funext k'
  rcases cases_key key l k with habsent | ⟨l₁, e, l₂, rfl, rfl, hl₁⟩
  · rw [remove_of_absent habsent, ← lookup_of_absent habsent, Function.update_eq_self]
  · rw [remove_append hl₁ rfl]
    by_cases hk : k' = key e
    · subst hk
      rw [List.map_append, List.map_cons] at h
      have hrest := (List.nodup_middle.mp h).notMem
      rw [Function.update_self, lookup_of_absent]
      rwa [List.map_append]
    · rw [Function.update_of_ne hk, lookup_append_of_ne (Ne.symm hk)]

/-- The keys after `put`. -/
theorem nodup_put (h : (l.map key).Nodup) (e : α) : ((put key l e).map key).Nodup := by
  rcases cases_key key l (key e) with habsent | ⟨l₁, e', l₂, rfl, he', hl₁⟩
  · rw [put_of_absent habsent, List.map_cons]
    exact List.nodup_cons.mpr ⟨habsent, h⟩
  · rw [put_append hl₁ he', List.map_append, List.map_cons]
    rwa [List.map_append, List.map_cons, he'] at h

/-- The keys after `remove`. -/
theorem nodup_remove (h : (l.map key).Nodup) (k : κ) : ((remove key l k).map key).Nodup :=
  (List.eraseP_sublist.map key).nodup h

end DeepInIo.KeyedList
