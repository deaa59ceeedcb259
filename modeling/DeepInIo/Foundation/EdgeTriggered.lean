import Mathlib.Data.Nat.Notation

/-!
# Edge-triggered notification channels

A *channel* holds items for one consumer.  The consumer is not told how many there are: an arrival
arms a single *edge*, arrivals that find the edge already armed add nothing, and taking items arms
nothing.  A delivered edge becomes an event in the consumer's hands.

The file treats the discipline in which the consumer takes **one** item for each event.  Its
accounting law `Channel.Step.balanced` says that the items present are exactly those the armed edge
and the events in flight will still fetch, plus one for every arrival that found the edge armed:
such an arrival is never made up for.  When the edge may also be armed for other reasons
(`Channel.nudge`), the law remains as an inequality (`Channel.Step.covered`).
-/

namespace DeepInIo

/-- A channel watched by an edge-triggered consumer that takes one item per event. -/
structure Channel where
  /-- The items present. -/
  items : ℕ
  /-- An arrival has been signalled and not yet delivered. -/
  edge : Bool
  /-- The delivered events whose item has not been taken yet. -/
  events : ℕ
  /-- The arrivals that found the edge already armed. -/
  coalesced : ℕ

namespace Channel

/-- The channel before the first arrival. -/
def empty : Channel := ⟨0, false, 0, 0⟩

/-- The steps of a channel. -/
inductive Step : Channel → Channel → Prop
  /-- An item arrives and arms the edge. -/
  | arrive (c : Channel) :
      Step c ⟨c.items + 1, true, c.events, c.coalesced + c.edge.toNat⟩
  /-- The armed edge is delivered as one event. -/
  | deliver (c : Channel) (h : c.edge = true) :
      Step c ⟨c.items, false, c.events + 1, c.coalesced⟩
  /-- The consumer takes the one item of an event. -/
  | take (c : Channel) (h : 0 < c.events) :
      Step c ⟨c.items - 1, c.edge, c.events - 1, c.coalesced⟩

/-- The edge is armed for another reason than an arrival. -/
def nudge (c : Channel) : Channel :=
  { c with edge := true }

/-! ### Accounting -/

/-- Everything present is about to be fetched, except one item for each coalesced arrival. -/
def Balanced (c : Channel) : Prop :=
  c.items = c.edge.toNat + c.events + c.coalesced

/-- Everything present is about to be fetched, except at most one item for each coalesced
arrival. -/
def Covered (c : Channel) : Prop :=
  c.items ≤ c.edge.toNat + c.events + c.coalesced

theorem balanced_empty : empty.Balanced := rfl

theorem Balanced.covered {c : Channel} (h : c.Balanced) : c.Covered :=
  Nat.le_of_eq h

/-- Every step keeps the balance. -/
theorem Step.balanced {c c' : Channel} (h : Step c c') (hc : c.Balanced) : c'.Balanced := by
  unfold Balanced at *
  cases h with
  | arrive => simp only [Bool.toNat_true]; omega
  | deliver h => simp only [h, Bool.toNat_true, Bool.toNat_false] at *; omega
  | take h => simp only; omega

/-- Every step keeps a channel covered. -/
theorem Step.covered {c c' : Channel} (h : Step c c') (hc : c.Covered) : c'.Covered := by
  unfold Covered at *
  cases h with
  | arrive => simp only [Bool.toNat_true]; omega
  | deliver h => simp only [h, Bool.toNat_true, Bool.toNat_false] at *; omega
  | take h => simp only; omega

/-- An edge more covers no less. -/
theorem Covered.nudge {c : Channel} (h : c.Covered) : c.nudge.Covered := by
  unfold Covered Channel.nudge at *
  have : c.edge.toNat ≤ 1 := c.edge.toNat_le
  simp only [Bool.toNat_true]
  omega

/-- At rest, with no edge armed and no event in hand, a balanced channel holds the coalesced
arrivals. -/
theorem Balanced.items_at_rest {c : Channel} (h : c.Balanced) (he : c.edge = false)
    (hv : c.events = 0) : c.items = c.coalesced := by
  rw [Balanced, he, hv] at h
  simpa using h

/-- At rest a covered channel holds at most the coalesced arrivals. -/
theorem Covered.items_at_rest {c : Channel} (h : c.Covered) (he : c.edge = false)
    (hv : c.events = 0) : c.items ≤ c.coalesced := by
  rw [Covered, he, hv] at h
  simpa using h

end Channel

end DeepInIo
