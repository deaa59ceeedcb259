import DeepInIo.AdvancedServer.Connection
import Mathlib.Logic.Relation

/-!
# The life of a connection

The abstract view of one connection is the place of its owner reference.  `Owner.Step` is the life
cycle that the server is meant to follow: the main thread creates a connection and hands it to an IO
thread, the IO thread takes it into its event loop, and later marks it as closing and gives up the
reference.  A reference that was given up never comes back (`Owner.final_of_steps`).

`Conn.Ok` says what the fields of a connection have to do with the place of its owner reference.
-/

namespace DeepInIo.AdvancedServer

variable {n : ℕ}

namespace Owner

/-! ### Places -/

/-- The IO thread an owner belongs to. -/
def home : Owner n → Option (Fin n)
  | .pipe t | .adopter t | .registered t | .closing t | .released t => some t
  | _ => none

/-- The IO thread whose event loop has accepted the connection. -/
def loop : Owner n → Option (Fin n)
  | .registered t | .closing t | .released t => some t
  | _ => none

/-- `conn_mark_closing` has run. -/
def marked : Owner n → Bool
  | .closing _ | .released _ => true
  | _ => false

/-- The owner reference is still held. -/
def held : Owner n → Bool
  | .unborn | .released _ | .dropped => false
  | _ => true

/-- The connection has its descriptor. -/
def live : Owner n → Bool
  | .creator | .pipe _ | .adopter _ | .registered _ => true
  | _ => false

theorem home_of_loop {o : Owner n} {t : Fin n} (h : o.loop = some t) : o.home = some t := by
  cases o <;> simp_all [loop, home]

theorem loop_of_known {o : Owner n} {t : Fin n} (h : o = .registered t ∨ o = .released t) :
    o.loop = some t := by
  rcases h with rfl | rfl <;> rfl

/-! ### Steps -/

/-- The ways the main thread moves an owner reference. -/
inductive ByMain : Owner n → Owner n → Prop
  | create : ByMain .unborn .creator
  | handOff (t : Fin n) : ByMain .creator (.pipe t)
  | drop : ByMain .creator .dropped

/-- The ways the IO thread `t` moves an owner reference. -/
inductive ByIo (t : Fin n) : Owner n → Owner n → Prop
  | read : ByIo t (.pipe t) (.adopter t)
  | refuse : ByIo t (.adopter t) .dropped
  | accept : ByIo t (.adopter t) (.registered t)
  | mark : ByIo t (.registered t) (.closing t)
  | release : ByIo t (.closing t) (.released t)

/-- The life cycle of a connection. -/
inductive Step : Owner n → Owner n → Prop
  | main {o o' : Owner n} (h : ByMain o o') : Step o o'
  | io {o o' : Owner n} (t : Fin n) (h : ByIo t o o') : Step o o'

/-- A step of the life cycle neither returns to the unborn state nor leaves a final one. -/
theorem Step.held_or_unborn {o o' : Owner n} (h : Step o o') :
    (o.held = true ∨ o = .unborn) ∧ o' ≠ .unborn := by
  rcases h with h | ⟨t, h⟩ <;> cases h <;> simp [held]

/-- The event loop that accepted a connection keeps it. -/
theorem Step.loop_mono {o o' : Owner n} (h : Step o o') {t : Fin n} (ho : o.loop = some t) :
    o'.loop = some t := by
  rcases h with h | ⟨t, h⟩ <;> cases h <;> simp_all [loop]

/-- A born connection whose owner reference is gone has reached the end of its life. -/
theorem final_of_steps {o o' : Owner n} (h : Relation.ReflTransGen Step o o')
    (hheld : o.held = false) (hborn : o ≠ .unborn) : o' = o := by
  induction h with
  | refl => rfl
  | tail _ hs ih =>
    subst ih
    rcases hs.held_or_unborn.1 with h | h
    · rw [hheld] at h; cases h
    · exact absurd h hborn

/-- A move of another IO thread does not concern the thread `t`. -/
theorem ByIo.home {t : Fin n} {o o' : Owner n} (h : ByIo t o o') :
    o.home = some t ∧ (o'.home = some t ∨ o'.home = none) := by
  cases h <;> simp [Owner.home]

end Owner

/-! ### The fields of a connection -/

namespace Conn

/-- What the fields of a connection have to do with its owner: the flag `closing`, the state, the
thread it is assigned to, and that nothing happens to it before an event loop has accepted it. -/
structure Ok (k : Conn n) : Prop where
  flag : k.closing = k.owner.marked
  state : k.state ≠ .closed
  thread : ∀ t, k.owner.home = some t → k.ioThread = some t
  untouched : k.owner.loop = none →
    k.leaked = 0 ∧ k.chunks = [] ∧ k.installed = [] ∧ k.writePos = 0 ∧ k.writeSize = 0

namespace Ok

variable {k : Conn n}

theorem unborn : (Conn.unborn n).Ok :=
  ⟨rfl, nofun, nofun, fun _ => ⟨rfl, rfl, rfl, rfl, rfl⟩⟩

theorem create (f : Fd) (s : SockId) (t : Fin n) : (Conn.create f s t).Ok :=
  ⟨rfl, nofun, nofun, fun _ => ⟨rfl, rfl, rfl, rfl, rfl⟩⟩

theorem acquire (h : k.Ok) : k.acquire.Ok := ⟨h.flag, h.state, h.thread, h.untouched⟩

theorem release (h : k.Ok) : k.release.Ok := ⟨h.flag, h.state, h.thread, h.untouched⟩

theorem install (h : k.Ok) (data : List UInt8) (hl : k.owner.loop ≠ none) : (k.install data).Ok :=
  ⟨h.flag, nofun, h.thread, fun hn => absurd hn hl⟩

theorem advance (h : k.Ok) (len : ℕ) (hl : k.owner.loop ≠ none) : (k.advance len).Ok :=
  ⟨h.flag, h.state, h.thread, fun hn => absurd hn hl⟩

theorem resetWrite (h : k.Ok) (hl : k.owner.loop ≠ none) : k.resetWrite.Ok :=
  ⟨h.flag, h.state, h.thread, fun hn => absurd hn hl⟩

theorem setReading (h : k.Ok) : k.setReading.Ok := ⟨h.flag, nofun, h.thread, h.untouched⟩

theorem addChunk (h : k.Ok) (data : List UInt8) (hl : k.owner.loop ≠ none) :
    (k.addChunk data).Ok :=
  ⟨h.flag, h.state, h.thread, fun hn => absurd hn hl⟩

theorem leak (h : k.Ok) (hl : k.owner.loop ≠ none) : k.leak.Ok :=
  ⟨h.flag, h.state, h.thread, fun hn => absurd hn hl⟩

/-- The owner reference moves without touching the flag or the assigned thread. -/
theorem setOwner (h : k.Ok) {o : Owner n} (hm : o.marked = k.owner.marked)
    (ht : ∀ t, o.home = some t → k.ioThread = some t) (hl : o.loop = none → k.owner.loop = none) :
    (k.setOwner o).Ok :=
  ⟨h.flag.trans hm.symm, h.state, ht, fun hn => h.untouched (hl hn)⟩

/-- The IO thread that adopts a connection is the one it was assigned to. -/
theorem adopt (h : k.Ok) {t : Fin n} (ho : k.owner.home = some t) :
    { k with ioThread := some t }.Ok :=
  ⟨h.flag, h.state, fun t' ht' => by rw [ho] at ht'; exact ht', h.untouched⟩

/-- `conn_mark_closing` by the thread that owns the connection. -/
theorem markClosing (h : k.Ok) {t : Fin n} (ho : k.owner.home = some t) :
    (k.markClosing.setOwner (.closing t)).Ok := by
  refine ⟨rfl, ?_, fun t' ht' => ?_, nofun⟩
  · simp only [setOwner_state, markClosing_state]
    split
    · exact h.state
    · nofun
  · cases ht'
    exact h.thread t ho

/-- A connection is valid exactly while its owner has not marked it. -/
theorem isValid_iff (h : k.Ok) : k.isValid = true ↔ k.owner.marked = false := by
  have hs := h.state
  rw [Conn.isValid, h.flag]
  simp [hs]

end Ok

end Conn

end DeepInIo.AdvancedServer
