import Mathlib.Data.List.TakeDrop
import Mathlib.Order.Basic

/-!
# A send buffer for one message

A message is copied over the front of a buffer of fixed capacity, and written from there to a stream
in pieces of any length.  `OutBuffer.Bounded` says that the part still to be written lies inside the
message, and the message inside the buffer, whenever messages are put in.  Between two messages, the
stream carries a beginning of the last one (`OutBuffer.Carries`).
-/

namespace DeepInIo

/-- A buffer, of which the elements from `pos` to `size` are to be sent, with the stream. -/
structure OutBuffer (α : Type*) where
  content : List α
  pos : ℕ
  size : ℕ
  /-- What was written to the stream. -/
  sent : List α

namespace OutBuffer

variable {α : Type*} {cap : ℕ} {b b' : OutBuffer α} {msg base : List α}

/-- What is still to be sent. -/
def unsent (b : OutBuffer α) : List α :=
  (b.content.drop b.pos).take (b.size - b.pos)

/-- The steps of a buffer of capacity `cap`. -/
inductive Step (cap : ℕ) : OutBuffer α → OutBuffer α → Prop
  /-- A message is copied to the front of the buffer. -/
  | put (b : OutBuffer α) (msg : List α) (hne : msg ≠ []) (hlt : msg.length < cap) :
      Step cap b { b with
        content := msg ++ b.content.drop msg.length, pos := 0, size := msg.length }
  /-- Some elements are written. -/
  | write (b : OutBuffer α) (len : ℕ) (hlen : len ≤ b.size - b.pos) :
      Step cap b { b with pos := b.pos + len, sent := b.sent ++ b.unsent.take len }
  /-- The buffer is emptied. -/
  | reset (b : OutBuffer α) : Step cap b { b with pos := 0, size := 0 }

/-- What is to be sent lies inside what was put in, and that inside the buffer. -/
structure Bounded (cap : ℕ) (b : OutBuffer α) : Prop where
  pos_le : b.pos ≤ b.size
  size_lt : b.size < cap
  size_le : b.size ≤ b.content.length

/-- An empty buffer of any positive capacity. -/
theorem bounded_empty (hcap : 0 < cap) (content sent : List α) :
    (⟨content, 0, 0, sent⟩ : OutBuffer α).Bounded cap :=
  ⟨Nat.le_refl _, hcap, Nat.zero_le _⟩

/-- Every step keeps the bounds. -/
theorem Step.bounded (h : Step cap b b') (hb : b.Bounded cap) : b'.Bounded cap := by
  cases h with
  | put msg hne hlt =>
    refine ⟨Nat.zero_le _, hlt, ?_⟩
    rw [List.length_append]
    exact Nat.le_add_right ..
  | write len hlen =>
    have hle := hb.pos_le
    refine ⟨?_, hb.size_lt, hb.size_le⟩
    simp only
    omega
  | reset => exact bounded_empty (Nat.zero_lt_of_lt hb.size_lt) ..

/-! ### The last message -/

/-- The stream has got the first elements of the message `msg` since it was `base`, and the buffer
holds the message with the position behind them, or was emptied when everything was sent. -/
inductive Carries (msg base : List α) (b : OutBuffer α) : Prop
  | pending (hpos : b.pos ≤ msg.length) (hsize : b.size = msg.length)
      (hcontent : b.content.take msg.length = msg) (hsent : b.sent = base ++ msg.take b.pos)
  | empty (hpos : b.pos = 0) (hsize : b.size = 0) (hsent : b.sent = base ++ msg)

/-- A message is carried from the moment it is put in. -/
theorem carries_put (b : OutBuffer α) (msg : List α) :
    Carries msg b.sent
      { b with content := msg ++ b.content.drop msg.length, pos := 0, size := msg.length } := by
  refine .pending (Nat.zero_le _) rfl (List.take_left ..) ?_
  rw [List.take_zero, List.append_nil]

/-- The rest of a carried message is what is still to be sent. -/
theorem unsent_eq_drop (hsize : b.size = msg.length) (hcontent : b.content.take msg.length = msg) :
    b.unsent = msg.drop b.pos := by
  rw [unsent, hsize, ← List.drop_take, hcontent]

/-- Writing goes on with the message. -/
theorem Carries.write (h : Carries msg base b) {len : ℕ} (hlen : len ≤ b.size - b.pos) :
    Carries msg base { b with pos := b.pos + len, sent := b.sent ++ b.unsent.take len } := by
  cases h with
  | pending hpos hsize hcontent hsent =>
    refine .pending ?_ hsize hcontent ?_
    · simp only
      omega
    · simp only [unsent_eq_drop hsize hcontent, hsent, List.append_assoc]
      rw [List.take_add]
  | empty hpos hsize hsent =>
    have hzero : len = 0 := by omega
    subst hzero
    exact .empty hpos hsize (by simp only [List.take_zero, List.append_nil, hsent])

/-- A buffer is emptied when its message was sent. -/
theorem Carries.reset (h : Carries msg base b) (hle : b.size ≤ b.pos) :
    Carries msg base { b with pos := 0, size := 0 } := by
  refine .empty rfl rfl ?_
  cases h with
  | pending hpos hsize hcontent hsent => rw [hsent, List.take_of_length_le (by omega)]
  | empty hpos hsize hsent => exact hsent

/-- How much of the message was sent. -/
def sentOf (msg : List α) (b : OutBuffer α) : ℕ :=
  if b.size = 0 then msg.length else b.pos

/-- The stream has got a beginning of the message. -/
theorem Carries.sent_eq (h : Carries msg base b) (hne : msg ≠ []) :
    sentOf msg b ≤ msg.length ∧ b.sent = base ++ msg.take (sentOf msg b) := by
  cases h with
  | pending hpos hsize hcontent hsent =>
    have hzero : ¬b.size = 0 := by
      rw [hsize, List.length_eq_zero_iff]
      exact hne
    rw [sentOf, if_neg hzero]
    exact ⟨hpos, hsent⟩
  | empty hpos hsize hsent =>
    rw [sentOf, if_pos hsize, List.take_length]
    exact ⟨Nat.le_refl _, hsent⟩

end OutBuffer

end DeepInIo
