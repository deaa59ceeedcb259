import DeepInIo.AdvancedServer.Response
import Mathlib.Tactic.Simps.Basic

/-!
# Connection objects

The record updates of `connection.c` and of the places that write a connection's fields.  Closing a
descriptor is an effect on the kernel and is added where the object lives in the server state.
-/

namespace DeepInIo.AdvancedServer

namespace Conn

variable {n : ℕ}

/-- `conn_create` for the socket `s` with number `f`, to be served by the IO thread `t`. -/
@[simps]
def create (f : Fd) (s : SockId) (t : Fin n) : Conn n where
  fd := some f
  state := .connected
  writeBuf := []
  writePos := 0
  writeSize := 0
  ioThread := some t
  refCount := 1
  closing := false
  owner := .creator
  sock := s
  chunks := []
  installed := []
  leaked := 0
  frees := 0

/-- `conn_acquire` -/
@[simps]
def acquire (k : Conn n) : Conn n :=
  { k with refCount := k.refCount + 1 }

/-- `should_free` of `conn_release`. -/
def lastRelease (k : Conn n) : Bool :=
  k.refCount - 1 ≤ 0

/-- `conn_release`, with the tail that closes the descriptor and frees the object. -/
@[simps]
def release (k : Conn n) : Conn n :=
  { k with
    refCount := k.refCount - 1
    fd := if k.lastRelease then none else k.fd
    frees := if k.lastRelease then k.frees + 1 else k.frees }

/-- `conn_is_valid` -/
def isValid (k : Conn n) : Bool :=
  !k.closing && k.state != .closed

/-- `conn_mark_closing`, which does nothing the second time. -/
@[simps]
def markClosing (k : Conn n) : Conn n :=
  { k with
    closing := true
    state := if k.closing then k.state else .closing
    fd := if k.closing then k.fd else none }

/-- `process_request` copies a response that passed its size guard over the old contents of
`write_buf`. -/
@[simps]
def install (k : Conn n) (data : List UInt8) : Conn n :=
  { k with
    writeBuf := response data ++ k.writeBuf.drop (httpResponse data).2
    writeSize := (httpResponse data).2
    writePos := 0
    state := .writing
    installed := k.installed ++ [response data] }

/-- `handle_write` after `write` accepted `len` bytes. -/
@[simps]
def advance (k : Conn n) (len : ℕ) : Conn n :=
  { k with writePos := k.writePos + len }

/-- `handle_write` after the last byte: the buffer is empty again. -/
@[simps]
def resetWrite (k : Conn n) : Conn n :=
  { k with writePos := 0, writeSize := 0 }

/-- `conn->state = CONN_STATE_READING` -/
@[simps]
def setReading (k : Conn n) : Conn n :=
  { k with state := .reading }

/-- Specification: the owner reference moves. -/
@[simps]
def setOwner (k : Conn n) (o : Owner n) : Conn n :=
  { k with owner := o }

/-- Specification: `handle_read` made a task of a chunk. -/
@[simps]
def addChunk (k : Conn n) (data : List UInt8) : Conn n :=
  { k with chunks := k.chunks ++ [data] }

/-- Specification: a reference is left without a holder. -/
@[simps]
def leak (k : Conn n) : Conn n :=
  { k with leaked := k.leaked + 1 }

/-- The bytes `handle_write` still has to send: `write_buf[write_pos .. write_size)`. -/
def unsent (k : Conn n) : List UInt8 :=
  (k.writeBuf.drop k.writePos).take (k.writeSize - k.writePos)

/-- The object has been freed. -/
def Freed (k : Conn n) : Prop :=
  0 < k.frees

instance (k : Conn n) : Decidable k.Freed :=
  inferInstanceAs (Decidable (0 < k.frees))

end Conn

end DeepInIo.AdvancedServer
