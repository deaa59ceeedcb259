import Mathlib.Data.Nat.Notation
import Mathlib.Logic.Basic

/-!
# The head of an HTTP message

A message is a head, an empty line and a body.  `splitAtFirst` finds the first occurrence of a
separator, `headerField` the value of a field of the head, and `parseDecimal` reads a decimal
number; `parseDecimal` undoes the decimal rendering of the standard library
(`parseDecimal_toDigits`).
-/

namespace DeepInIo

section split

variable {α : Type*} [DecidableEq α]

/-- Split a list at the first occurrence of `sep`. -/
def splitAtFirst (sep : List α) : List α → Option (List α × List α)
  | [] => if sep.isEmpty then some ([], []) else none
  | a :: l =>
    if sep.isPrefixOf (a :: l) then some ([], (a :: l).drop sep.length)
    else (splitAtFirst sep l).map fun p => (a :: p.1, p.2)

/-- The separator does not begin in `l` when it does not occur there and the last element of `l` is
none of its own. -/
theorem splitAtFirst_append_of_none {sep l : List α} (h : splitAtFirst sep l = none)
    (hlast : ∀ a ∈ l.getLast?, a ∉ sep) (l' : List α) :
    splitAtFirst sep (l ++ l') = (splitAtFirst sep l').map fun p => (l ++ p.1, p.2) := by
  induction l with
  | nil => simp
  | cons a l ih =>
    rw [splitAtFirst] at h
    split at h
    · cases h
    · next hpre =>
      have hpre' : sep.isPrefixOf (a :: (l ++ l')) = false := by
        rw [List.isPrefixOf_iff_prefix] at hpre
        rw [← Bool.not_eq_true, List.isPrefixOf_iff_prefix]
        intro hsep
        -- either all of the separator lies in `a :: l`, or the last element of `a :: l` is part of
        -- it
        rcases List.prefix_or_prefix_of_prefix hsep (List.prefix_append (a :: l) l') with hp | hp
        · exact hpre hp
        · refine hlast ((a :: l).getLast (List.cons_ne_nil a l))
            (List.getLast?_eq_some_getLast _) ?_
          exact hp.subset (List.getLast_mem _)
      have htail : ∀ b ∈ l.getLast?, b ∉ sep := by
        intro b hb
        refine hlast b ?_
        cases l with
        | nil => cases hb
        | cons c l => rwa [List.getLast?_cons_cons]
      rw [List.cons_append, splitAtFirst, hpre', if_neg Bool.false_ne_true,
        ih (Option.map_eq_none_iff.mp h) htail, Option.map_map]
      rfl

/-- What does not hold the first element of the separator is part of the first half. -/
theorem splitAtFirst_append {b : α} {sep l : List α} (h : b ∉ l) (l' : List α) :
    splitAtFirst (b :: sep) (l ++ l') = (splitAtFirst (b :: sep) l').map fun p =>
      (l ++ p.1, p.2) := by
  induction l with
  | nil => simp
  | cons a l ih =>
    obtain ⟨hab, hl⟩ := not_or.mp fun hm => h (List.mem_cons.mpr hm)
    have hpre : (b :: sep).isPrefixOf (a :: (l ++ l')) = false := by
      rw [List.isPrefixOf_cons_cons, beq_eq_false_iff_ne.mpr hab, Bool.false_and]
    rw [List.cons_append, splitAtFirst, hpre, if_neg Bool.false_ne_true, ih hl, Option.map_map]
    rfl

end split

/-- The bytes that end a line. -/
def crlf : List UInt8 := [13, 10]

/-- The value of the first field of this name in the head of a message, up to the end of its
line. -/
def headerField (name head : List UInt8) : Option (List UInt8) :=
  (splitAtFirst (crlf ++ name ++ [58, 32]) head).map fun p => p.2.takeWhile fun b => b != 13

/-- The digit a character stands for. -/
def digit? (b : UInt8) : Option ℕ :=
  if 48 ≤ b ∧ b ≤ 57 then some (b.toNat - 48) else none

/-- A nonempty sequence of digits as a number. -/
def parseDecimal (l : List UInt8) : Option ℕ :=
  if l.isEmpty then none
  else l.foldl (fun acc b => acc.bind fun k => (digit? b).map fun d => 10 * k + d) (some 0)

/-- A digit of the decimal rendering is read back as itself. -/
theorem digit?_toUInt8 {c : Char} (h : c.isDigit) :
    digit? c.toNat.toUInt8 = some (c.toNat - 48) := by
  have hc : 48 ≤ c.toNat ∧ c.toNat ≤ 57 := by
    simpa [Char.isDigit, UInt32.le_iff_toNat_le] using h
  have hlt : c.toNat.toUInt8.toNat = c.toNat := by
    rw [UInt8.toNat_ofNat']
    omega
  rw [digit?, if_pos, hlt]
  rw [UInt8.le_iff_toNat_le, UInt8.le_iff_toNat_le, hlt]
  exact hc

/-- Reading a decimal rendering gives the number back. -/
theorem parseDecimal_toDigits (k : ℕ) :
    parseDecimal ((Nat.toDigits 10 k).map fun c => c.toNat.toUInt8) = some k := by
  -- the loop computes what the standard library computes from the digits
  have hfold : ∀ (cs : List Char) (acc : ℕ), (∀ c ∈ cs, c.isDigit) →
      (cs.map fun c => c.toNat.toUInt8).foldl
        (fun acc b => acc.bind fun k => (digit? b).map fun d => 10 * k + d) (some acc) =
        some (Nat.ofDigitChars 10 cs acc) := by
    intro cs
    induction cs with
    | nil => exact fun acc _ => congrArg some Nat.ofDigitChars_nil.symm
    | cons c cs ih =>
      intro acc hcs
      rw [List.map_cons, List.foldl_cons, Option.bind_some,
        digit?_toUInt8 (hcs c List.mem_cons_self), Option.map_some,
        ih _ fun c hc => hcs c (List.mem_cons_of_mem _ hc), Nat.ofDigitChars_cons]
      rfl
  rw [parseDecimal, if_neg (by simp), hfold _ _ fun c hc => ?_, Nat.ofDigitChars_ten_toDigits]
  exact Nat.isDigit_of_mem_toDigits (by decide) (by decide) hc

/-- A decimal rendering holds no line end. -/
theorem cr_notMem_toDigits (k : ℕ) : 13 ∉ (Nat.toDigits 10 k).map fun c => c.toNat.toUInt8 := by
  intro hmem
  obtain ⟨c, hc, h13⟩ := List.mem_map.mp hmem
  have hdigit := digit?_toUInt8 (Nat.isDigit_of_mem_toDigits (by decide) (by decide) hc)
  rw [h13] at hdigit
  cases hdigit

end DeepInIo
