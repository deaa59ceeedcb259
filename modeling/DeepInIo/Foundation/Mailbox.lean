import Mathlib.Data.Nat.Notation
import Mathlib.Logic.Relation

/-!
# Mailboxes with a bounded wake-up pipe

A *mailbox* is a list of messages for one consumer, guarded by a wake-up pipe of finite capacity.  A
sender first links its message and later writes one byte to the pipe; the write arms an edge, except
that a full pipe refuses it silently.  The consumer is woken by the delivered edge: it reads *one*
byte, whatever the number of bytes, and then takes messages until it has seen the list empty.

Bytes and messages drift apart, so the pipe may be full while messages arrive.  What makes the
discipline safe is `Mailbox.Armed`: a full pipe has an edge that is still pending or not yet
answered by a read.  With it no message is left without a wake-up (`Mailbox.Run.awake`).
-/

namespace DeepInIo

/-- What the consumer of a mailbox is doing. -/
inductive Mailbox.Phase
  /-- it is not treating a wake-up -/
  | idle
  /-- it has a wake-up and is about to read one byte -/
  | reading
  /-- it has read the byte and has not seen the list empty since -/
  | draining
  deriving DecidableEq

/-- A list of messages with its wake-up pipe. -/
structure Mailbox where
  /-- The messages in the list. -/
  items : ℕ
  /-- The senders between linking their message and writing their byte. -/
  linked : ℕ
  /-- The bytes in the pipe. -/
  bytes : ℕ
  /-- Readiness of the pipe is signalled and not delivered. -/
  edge : Bool
  /-- The delivered wake-ups the consumer has not begun to treat. -/
  events : ℕ
  phase : Mailbox.Phase

namespace Mailbox

variable {cap : ℕ}

/-- The mailbox before the first message. -/
def empty : Mailbox := ⟨0, 0, 0, false, 0, .idle⟩

/-- The steps of a mailbox whose pipe holds `cap` bytes. -/
inductive Step (cap : ℕ) : Mailbox → Mailbox → Prop
  /-- A sender links its message. -/
  | link (b : Mailbox) : Step cap b { b with items := b.items + 1, linked := b.linked + 1 }
  /-- A sender writes its byte. -/
  | notify (b : Mailbox) (h : b.bytes < cap) (hl : 0 < b.linked) :
      Step cap b { b with bytes := b.bytes + 1, edge := true, linked := b.linked - 1 }
  /-- The pipe is full and refuses the byte. -/
  | refuse (b : Mailbox) (h : cap ≤ b.bytes) (hl : 0 < b.linked) :
      Step cap b { b with linked := b.linked - 1 }
  /-- The edge is delivered. -/
  | deliver (b : Mailbox) (h : b.edge = true) :
      Step cap b { b with edge := false, events := b.events + 1 }
  /-- The consumer begins to treat a wake-up. -/
  | begin (b : Mailbox) (h : b.phase = .idle) (he : 0 < b.events) :
      Step cap b { b with events := b.events - 1, phase := .reading }
  /-- The consumer reads one byte. -/
  | read (b : Mailbox) (h : b.phase = .reading) :
      Step cap b { b with bytes := b.bytes - 1, phase := .draining }
  /-- The consumer takes a message. -/
  | take (b : Mailbox) (h : b.phase = .draining) (hi : 0 < b.items) :
      Step cap b { b with items := b.items - 1 }
  /-- The consumer sees the list empty. -/
  | finish (b : Mailbox) (h : b.phase = .draining) (h0 : b.items = 0) :
      Step cap b { b with phase := .idle }

/-- A full pipe has an edge that is pending, delivered, or about to be answered by a read. -/
def Armed (cap : ℕ) (b : Mailbox) : Prop :=
  b.bytes = cap → b.edge = true ∨ 0 < b.events ∨ b.phase = .reading

/-- Messages in the list have a wake-up: one that is pending, delivered or being treated, or a
sender that is still to write its byte. -/
def Awake (b : Mailbox) : Prop :=
  0 < b.items → b.edge = true ∨ 0 < b.events ∨ b.phase ≠ .idle ∨ 0 < b.linked

/-- The invariant of a mailbox. -/
structure Inv (cap : ℕ) (b : Mailbox) : Prop where
  bounded : b.bytes ≤ cap
  armed : b.Armed cap
  awake : b.Awake

theorem Inv.empty (hcap : 0 < cap) : Mailbox.empty.Inv cap :=
  ⟨Nat.zero_le _, fun h => absurd h (Nat.ne_of_lt hcap), fun h => absurd h (Nat.lt_irrefl 0)⟩

/-- Every step keeps the invariant. -/
theorem Step.inv {b b' : Mailbox} (h : Step cap b b') (hcap : 0 < cap) (hb : b.Inv cap) :
    b'.Inv cap := by
  obtain ⟨hbound, harmed, hawake⟩ := hb
  cases h with
  | link =>
    exact ⟨hbound, harmed, fun _ => .inr (.inr (.inr (Nat.succ_pos _)))⟩
  | notify h => exact ⟨h, fun _ => .inl rfl, fun _ => .inl rfl⟩
  | refuse h =>
    refine ⟨hbound, harmed, fun hi => ?_⟩
    -- The sender that found the pipe full leaves its message to the wake-up of a full pipe.
    rcases harmed (Nat.le_antisymm hbound h) with he | he | he
    · exact .inl he
    · exact .inr (.inl he)
    · exact .inr (.inr (.inl (by rw [he]; nofun)))
  | deliver h =>
    exact ⟨hbound, fun _ => .inr (.inl (Nat.succ_pos _)), fun _ => .inr (.inl (Nat.succ_pos _))⟩
  | begin h => exact ⟨hbound, fun _ => .inr (.inr rfl), fun _ => .inr (.inr (.inl nofun))⟩
  | read h =>
    refine ⟨Nat.sub_le_of_le_add (by omega), fun hfull => ?_, fun _ => .inr (.inr (.inl nofun))⟩
    simp only at hfull
    omega
  | take h hpos => exact ⟨hbound, harmed, fun _ => hawake hpos⟩
  | finish h h0 =>
    refine ⟨hbound, fun hfull => ?_, fun hi => ?_⟩
    · rcases harmed hfull with he | he | he
      · exact .inl he
      · exact .inr (.inl he)
      · rw [h] at he; cases he
    · simp only [h0] at hi
      omega

/-- In every run from the empty mailbox the invariant holds. -/
theorem Run.inv (hcap : 0 < cap) {b : Mailbox} (h : Relation.ReflTransGen (Step cap) empty b) :
    b.Inv cap := by
  induction h with
  | refl => exact Inv.empty hcap
  | tail _ hs ih => exact hs.inv hcap ih

/-- In every run messages in the list have a wake-up. -/
theorem Run.awake (hcap : 0 < cap) {b : Mailbox} (h : Relation.ReflTransGen (Step cap) empty b) :
    b.Awake :=
  (Run.inv hcap h).awake

end Mailbox

end DeepInIo
