import DeepInIo.AdvancedServer.Response
import Mathlib.Data.List.Infix
import Mathlib.Logic.Function.Basic
import Mathlib.Tactic.Simps.Basic

/-!
# What the server does for one client

Seen from one socket, the server is a machine of its own: bytes arrive, an IO thread reads chunks of
them, the chunks go through the task queue to workers, and their responses through the buffer of the
connection back to the socket.  `ClientView` is that machine.  Its steps carry no bytes but those
the client itself sends: a step says how many bytes are read or written, or which worker goes on,
and the machine knows the rest.  All that it writes are pieces of responses to its chunks
(`ClientView.Sound`), and its chunks are the bytes that arrived, in order (`flatten_chunks_after`).
-/

namespace DeepInIo.AdvancedServer

variable {n m : ℕ}

/-! ### The machine -/

/-- `write_buf`, `write_pos` and `write_size`. -/
@[ext]
structure SendBuffer where
  data : List UInt8
  pos : ℕ
  size : ℕ

namespace SendBuffer

/-- The buffer of a new connection. -/
@[simps]
def empty : SendBuffer := ⟨[], 0, 0⟩

variable (b : SendBuffer)

/-- `process_request` copies a response that passes its size guard over the old contents. -/
def install (chunk : List UInt8) : SendBuffer :=
  if responseFits chunk then
    { data := response chunk ++ b.data.drop (httpResponse chunk).2
      pos := 0
      size := (httpResponse chunk).2 }
  else b

/-- `len` bytes were written. -/
@[simps]
def advance (len : ℕ) : SendBuffer :=
  { b with pos := b.pos + len }

/-- Everything was written. -/
@[simps]
def reset : SendBuffer :=
  { b with pos := 0, size := 0 }

/-- The bytes still to be written. -/
def unsent : List UInt8 :=
  (b.data.drop b.pos).take (b.size - b.pos)

end SendBuffer

/-- What the server has of one client. -/
@[ext]
structure ClientView (n m : ℕ) where
  /-- The bytes that arrived and were not read. -/
  unread : List UInt8
  /-- All chunks that were read. -/
  chunks : List (List UInt8)
  /-- The chunk an IO thread makes a task of. -/
  reading : Fin n → Option (List UInt8)
  /-- The chunks in the task queue. -/
  queue : List (List UInt8)
  /-- The chunk a worker is going to answer. -/
  held : Fin m → Option (List UInt8)
  buffer : SendBuffer
  written : List UInt8

/-- A step that concerns one client. -/
inductive ClientStep (n m : ℕ)
  /-- bytes arrive from the client -/
  | arrive (bytes : List UInt8)
  /-- an IO thread reads `len` bytes -/
  | read (t : Fin n) (len : ℕ)
  /-- an IO thread gives its chunk up -/
  | drop (t : Fin n)
  /-- an IO thread submits its chunk -/
  | submit (t : Fin n)
  /-- a worker takes the next chunk -/
  | pop (w : Fin m)
  /-- a worker does not answer its chunk -/
  | skip (w : Fin m)
  /-- a worker puts the response to its chunk into the buffer -/
  | install (w : Fin m)
  /-- `len` bytes of the buffer are written -/
  | write (len : ℕ)
  /-- the buffer is emptied -/
  | reset
  /-- the next chunk is destroyed with the task queue -/
  | destroy
  deriving DecidableEq

namespace ClientView

/-- Nothing has happened. -/
@[simps]
def initial : ClientView n m where
  unread := []
  chunks := []
  reading := fun _ => none
  queue := []
  held := fun _ => none
  buffer := .empty
  written := []

variable (v : ClientView n m)

/-- One step for the client. -/
def step : ClientStep n m → ClientView n m
  | .arrive bytes => { v with unread := v.unread ++ bytes }
  | .read t len =>
    { v with
      unread := v.unread.drop len
      chunks := v.chunks ++ [v.unread.take len]
      reading := Function.update v.reading t (some (v.unread.take len)) }
  | .drop t => { v with reading := Function.update v.reading t none }
  | .submit t =>
    { v with
      queue := v.queue ++ (v.reading t).toList
      reading := Function.update v.reading t none }
  | .pop w =>
    { v with
      queue := v.queue.tail
      held := Function.update v.held w v.queue.head? }
  | .skip w => { v with held := Function.update v.held w none }
  | .install w =>
    { v with
      held := Function.update v.held w none
      buffer := (v.held w).elim v.buffer v.buffer.install }
  | .write len =>
    { v with
      buffer := v.buffer.advance len
      written := v.written ++ v.buffer.unsent.take len }
  | .reset => { v with buffer := v.buffer.reset }
  | .destroy => { v with queue := v.queue.tail }

/-- The machine after some steps. -/
def after (steps : List (ClientStep n m)) : ClientView n m :=
  steps.foldl step v

end ClientView

/-! ### Where its bytes come from -/

/-- The bytes that arrive with a step. -/
def ClientStep.arrived : ClientStep n m → List UInt8
  | .arrive bytes => bytes
  | _ => []

/-- The buffer is empty, or holds the response to one of the chunks. -/
def SendBuffer.Answers (b : SendBuffer) (chunks : List (List UInt8)) : Prop :=
  b.size = 0 ∨ ∃ d ∈ chunks, b.data.take b.size = response d

/-- The pieces of data of the machine are its chunks, and what it has written are pieces of the
responses to them. -/
structure ClientView.Sound (v : ClientView n m) : Prop where
  reading : ∀ t, ∀ d ∈ v.reading t, d ∈ v.chunks
  queue : ∀ d ∈ v.queue, d ∈ v.chunks
  held : ∀ w, ∀ d ∈ v.held w, d ∈ v.chunks
  buffer : v.buffer.Answers v.chunks
  written : ∃ pieces : List (List UInt8), v.written = pieces.flatten ∧
    ∀ p ∈ pieces, ∃ d ∈ v.chunks, p <:+: response d

section sound

variable {v : ClientView n m}

/-- A response that is put into the buffer is one to a chunk. -/
theorem SendBuffer.Answers.install {b : SendBuffer} {chunks : List (List UInt8)}
    (h : b.Answers chunks) {d : List UInt8} (hd : d ∈ chunks) : (b.install d).Answers chunks := by
  rw [SendBuffer.install]
  split
  · next hfits => exact .inr ⟨d, hd, List.take_left' (length_response_of_fits hfits)⟩
  · exact h

theorem sound_initial : (ClientView.initial : ClientView n m).Sound where
  reading _ := nofun
  queue := nofun
  held _ := nofun
  buffer := .inl rfl
  written := ⟨[], rfl, nofun⟩

/-- What is still to be written is a piece of a response. -/
theorem ClientView.Sound.unsent (h : v.Sound) (len : ℕ) :
    v.buffer.unsent.take len = [] ∨ ∃ d ∈ v.chunks, v.buffer.unsent.take len <:+: response d := by
  rcases h.buffer with hsize | ⟨d, hd, hdata⟩
  · left
    rw [SendBuffer.unsent, hsize, Nat.zero_sub, List.take_zero, List.take_nil]
  · right
    refine ⟨d, hd, ?_⟩
    have hunsent : v.buffer.unsent = (response d).drop v.buffer.pos := by
      rw [← hdata, List.drop_take]
      rfl
    rw [hunsent]
    exact (List.take_prefix ..).isInfix.trans (List.drop_suffix ..).isInfix

/-- An entry of an updated function. -/
theorem forall_mem_update {ι : Type*} [DecidableEq ι] {f : ι → Option (List UInt8)} {i₀ : ι}
    {o : Option (List UInt8)} {l : List (List UInt8)} (hf : ∀ i, ∀ d ∈ f i, d ∈ l)
    (ho : ∀ d ∈ o, d ∈ l) (i : ι) : ∀ d ∈ Function.update f i₀ o i, d ∈ l := by
  by_cases hi : i = i₀
  · subst hi
    rw [Function.update_self]
    exact ho
  · rw [Function.update_of_ne hi]
    exact hf i

/-- Every step keeps the machine sound. -/
theorem ClientView.Sound.step (h : v.Sound) (l : ClientStep n m) : (v.step l).Sound := by
  obtain ⟨pieces, hwritten, hpieces⟩ := h.written
  cases l with
  | arrive bytes => exact ⟨h.reading, h.queue, h.held, h.buffer, h.written⟩
  | read t len =>
    have hgrow : ∀ {d : List UInt8}, d ∈ v.chunks → d ∈ v.chunks ++ [v.unread.take len] :=
      fun hd => List.mem_append_left _ hd
    refine ⟨forall_mem_update (fun t d hd => hgrow (h.reading t d hd)) fun d hd => ?_,
      fun d hd => hgrow (h.queue d hd), fun w d hd => hgrow (h.held w d hd), ?_, pieces, hwritten,
      fun p hp => ?_⟩
    · obtain rfl := Option.some.inj hd
      exact List.mem_append_right _ (List.mem_singleton.mpr rfl)
    · exact h.buffer.imp id fun ⟨d, hd, hdata⟩ => ⟨d, hgrow hd, hdata⟩
    · obtain ⟨d, hd, hinfix⟩ := hpieces p hp
      exact ⟨d, hgrow hd, hinfix⟩
  | drop t => exact ⟨forall_mem_update h.reading nofun, h.queue, h.held, h.buffer, h.written⟩
  | submit t =>
    refine ⟨forall_mem_update h.reading nofun, fun d hd => ?_, h.held, h.buffer, h.written⟩
    rcases List.mem_append.mp hd with hd | hd
    · exact h.queue d hd
    · exact h.reading t d (Option.mem_toList.mp hd)
  | pop w =>
    exact ⟨h.reading, fun d hd => h.queue d (List.mem_of_mem_tail hd),
      forall_mem_update h.held fun d hd => h.queue d (List.mem_of_head? hd), h.buffer, h.written⟩
  | skip w => exact ⟨h.reading, h.queue, forall_mem_update h.held nofun, h.buffer, h.written⟩
  | install w =>
    refine ⟨h.reading, h.queue, forall_mem_update h.held nofun, ?_, h.written⟩
    change ((v.held w).elim v.buffer v.buffer.install).Answers v.chunks
    cases hw : v.held w with
    | none => exact h.buffer
    | some d => exact h.buffer.install (h.held w d hw)
  | write len =>
    refine ⟨h.reading, h.queue, h.held, h.buffer, ?_⟩
    rcases h.unsent len with hnil | hpiece
    · refine ⟨pieces, ?_, hpieces⟩
      change v.written ++ v.buffer.unsent.take len = _
      rw [hnil, List.append_nil, hwritten]
    · refine ⟨pieces ++ [v.buffer.unsent.take len], ?_, fun p hp => ?_⟩
      · change v.written ++ v.buffer.unsent.take len = _
        rw [hwritten, List.flatten_append, List.flatten_singleton]
      · rcases List.mem_append.mp hp with hp | hp
        · exact hpieces p hp
        · obtain rfl := List.mem_singleton.mp hp
          exact hpiece
  | reset => exact ⟨h.reading, h.queue, h.held, .inl rfl, h.written⟩
  | destroy =>
    exact ⟨h.reading, fun d hd => h.queue d (List.mem_of_mem_tail hd), h.held, h.buffer, h.written⟩

/-- The machine is sound after any steps. -/
theorem ClientView.Sound.after (h : v.Sound) (steps : List (ClientStep n m)) :
    (v.after steps).Sound := by
  induction steps generalizing v with
  | nil => exact h
  | cons l steps ih => exact ih (h.step l)

/-- The chunks and the bytes not read are all bytes that arrived, in order. -/
theorem flatten_chunks_step (l : ClientStep n m) :
    (v.step l).chunks.flatten ++ (v.step l).unread = v.chunks.flatten ++ v.unread ++ l.arrived := by
  cases l with
  | arrive bytes => exact (List.append_assoc ..).symm
  | read t len =>
    change (v.chunks ++ [v.unread.take len]).flatten ++ v.unread.drop len = _ ++ []
    rw [List.flatten_append, List.flatten_singleton, List.append_assoc, List.take_append_drop,
      List.append_nil]
  | _ => exact (List.append_nil _).symm

/-- The chunks and the bytes not read are all bytes that arrived, in order. -/
theorem flatten_chunks_after (steps : List (ClientStep n m)) :
    (v.after steps).chunks.flatten ++ (v.after steps).unread =
      v.chunks.flatten ++ v.unread ++ steps.flatMap ClientStep.arrived := by
  induction steps generalizing v with
  | nil => exact (List.append_nil _).symm
  | cons l steps ih =>
    change ((v.step l).after steps).chunks.flatten ++ ((v.step l).after steps).unread = _
    rw [ih, flatten_chunks_step, List.append_assoc, List.flatMap_cons]

end sound

end DeepInIo.AdvancedServer
