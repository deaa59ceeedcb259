import Mathlib.Logic.ExistsUnique

/-!
# Custody

Things that are handed from place to place: `Held p x` says that the place `p` holds `x`.  Custody
is exclusive when nothing is held at two places.  It stays so when places only let things go
(`Exclusive.mono`) and when one thing comes to a place and is held nowhere else (`Exclusive.move`).
-/

namespace DeepInIo

variable {P X : Type*} {Held Held' : P → X → Prop} {p q : P} {x : X}

/-- Nothing is held at two places. -/
def Exclusive (Held : P → X → Prop) : Prop :=
  ∀ x p q, Held p x → Held q x → p = q

namespace Exclusive

/-- Letting things go. -/
theorem mono (h : Exclusive Held) (hsub : ∀ p x, Held' p x → Held p x) : Exclusive Held' := by
  intro x p q hp hq
  exact h x p q (hsub p x hp) (hsub q x hq)

/-- The thing `x` comes to the place `p`. -/
theorem move (h : Exclusive Held) (hrest : ∀ q y, y ≠ x → Held' q y → Held q y)
    (hx : ∀ q, Held' q x → q = p) :
    Exclusive Held' := by
  intro y q q' hq hq'
  by_cases hy : y = x
  · subst hy
    rw [hx q hq, hx q' hq']
  · exact h y q q' (hrest q y hy hq) (hrest q' y hy hq')

/-- What one place holds no other place holds. -/
theorem not_held (h : Exclusive Held) (hp : Held p x) (hne : q ≠ p) : ¬Held q x := by
  intro hq
  exact hne (h x q p hq hp)

/-- What is held at all is held at exactly one place. -/
theorem existsUnique (h : Exclusive Held) (hp : ∃ p, Held p x) : ∃! p, Held p x := by
  obtain ⟨p, hp⟩ := hp
  exact ⟨p, hp, fun q hq => h x q p hq hp⟩

end Exclusive

end DeepInIo
