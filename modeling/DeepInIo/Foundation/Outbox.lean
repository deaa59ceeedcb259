import Mathlib.Data.List.Basic

/-!
# Buffers with one message

An `Outbox` sends messages over a byte stream through a buffer that holds one message at a time.  A
message may be put in when nothing is pending, and a write moves any number of elements from the
front of the buffer to the stream.  What was sent is then always a prefix of the accepted messages,
one after the other (`Outbox.Inv.sent_initial`).
-/

namespace DeepInIo

/-- A byte stream with a buffer for one message, and the messages accepted so far. -/
structure Outbox (α : Type*) where
  /-- What was written to the stream. -/
  sent : List α
  /-- What is still in the buffer. -/
  pending : List α
  /-- The messages put into the buffer, in that order. -/
  accepted : List (List α)

namespace Outbox

variable {α : Type*} {b b' : Outbox α}

/-- The steps of an outbox. -/
inductive Step : Outbox α → Outbox α → Prop
  | put (b : Outbox α) (msg : List α) (h : b.pending = []) :
      Step b { b with pending := msg, accepted := b.accepted ++ [msg] }
  | write (b : Outbox α) (k : ℕ) :
      Step b { b with sent := b.sent ++ b.pending.take k, pending := b.pending.drop k }

/-- What was sent and what is pending are together the accepted messages. -/
def Inv (b : Outbox α) : Prop :=
  b.sent ++ b.pending = b.accepted.flatten

theorem inv_empty : (⟨[], [], []⟩ : Outbox α).Inv := rfl

/-- Every step keeps the invariant. -/
theorem Step.inv (h : Step b b') (hi : b.Inv) : b'.Inv := by
  cases h with
  | put msg hempty =>
    have hsent : b.sent = b.accepted.flatten := by
      rw [← hi, hempty, List.append_nil]
    simp [Inv, hsent]
  | write k =>
    change b.sent ++ b.pending.take k ++ b.pending.drop k = b.accepted.flatten
    rw [List.append_assoc, List.take_append_drop]
    exact hi

/-- What was sent is a prefix of any sequence of messages that the accepted ones begin. -/
theorem Inv.sent_initial (hi : b.Inv) {msgs : List (List α)} (h : b.accepted <+: msgs) :
    b.sent <+: msgs.flatten := by
  obtain ⟨rest, rfl⟩ := h
  rw [List.flatten_append, ← hi, List.append_assoc]
  exact List.prefix_append ..

end Outbox

end DeepInIo
