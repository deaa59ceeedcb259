import Mathlib.Data.Fin.Basic
import Mathlib.Data.Nat.Notation

/-!
# The data of the advanced reactor server

The types of `common.h`, `event_loop.h` and `io_thread.h`, and the objects the server gets from the
operating system.  `n` is the number of IO threads; pointers to connections, accepted sockets and
descriptor numbers are natural numbers.

Two things are added to the source's records for the sake of the specification and are never read by
the code: `Owner`, which says where the owner reference of a connection currently is, and the
history fields of `Conn`.
-/

namespace DeepInIo.AdvancedServer

/-- A descriptor number.  The `-1` of a closed descriptor is `none` where it can occur. -/
abbrev Fd := ℕ

/-- A `connection_t`.  Every call of `conn_create` gets a new number, and a freed connection keeps
what it holds; what happens when memory is used again is a matter of `AddressReuse.lean`. -/
abbrev ConnId := ℕ

/-- A socket returned by `accept`, whatever its number. -/
abbrev SockId := ℕ

/-- `MAX_EVENTS` -/
def maxEvents : ℕ := 2048

/-- `BUFFER_SIZE` -/
def bufferSize : ℕ := 4096

/-- `conn_state_t` -/
inductive ConnState
  | connected
  | reading
  | writing
  | closing
  | closed
  deriving DecidableEq

/-- `task_type_t` -/
inductive TaskType
  | read
  | write
  | process
  | close
  deriving DecidableEq

/-- `io_msg_type_t` -/
inductive IoMsgType
  | responseReady
  | closeConn
  deriving DecidableEq

/-- `task_t`, without its link; the data carry their length. -/
structure Task where
  type : TaskType
  conn : ConnId
  data : List UInt8
  deriving DecidableEq

/-- `io_message_t`, without its link. -/
structure IoMessage where
  type : IoMsgType
  conn : ConnId
  deriving DecidableEq

/-- A set of the `EVENT_*` bits. -/
structure EventMask where
  read : Bool := false
  write : Bool := false
  error : Bool := false
  hup : Bool := false
  rdhup : Bool := false
  et : Bool := false
  deriving DecidableEq

/-- `EVENT_READ | EVENT_ET` -/
def EventMask.readEt : EventMask := { read := true, et := true }

/-- `EVENT_WRITE | EVENT_ET` -/
def EventMask.writeEt : EventMask := { write := true, et := true }

@[simp] theorem EventMask.readEt_read : EventMask.readEt.read = true := rfl

@[simp] theorem EventMask.readEt_write : EventMask.readEt.write = false := rfl

@[simp] theorem EventMask.writeEt_read : EventMask.writeEt.read = false := rfl

@[simp] theorem EventMask.writeEt_write : EventMask.writeEt.write = true := rfl

/-- The two ends of a pipe: `fd[0]` and `fd[1]`. -/
inductive PipeEnd
  | read
  | write
  deriving DecidableEq

/-- The descriptors the server opens for itself. -/
inductive SysFile (n : ℕ)
  | listen
  | mainEpoll
  | epoll (t : Fin n)
  | pipe (t : Fin n) (e : PipeEnd)
  | msgPipe (t : Fin n) (e : PipeEnd)
  deriving DecidableEq

/-- What an open descriptor number stands for. -/
inductive File (n : ℕ)
  | sys (x : SysFile n)
  | client (s : SockId)
  | other
  deriving DecidableEq

/-- Where the owner reference of a connection is.  After `conn_create` it belongs in turn to the
creating main thread, the hand-off pipe, the IO thread that read it from the pipe, and that thread's
event loop; `closing` is the time between `conn_mark_closing` and the owner's `conn_release`.  A
connection that never reaches an event loop ends as `dropped`. -/
inductive Owner (n : ℕ)
  | unborn
  | creator
  | pipe (t : Fin n)
  | adopter (t : Fin n)
  | registered (t : Fin n)
  | closing (t : Fin n)
  | released (t : Fin n)
  | dropped
  deriving DecidableEq

/-- `connection_t`.  Left out are the fields nothing reads (`event_loop`, `read_buf`, `read_pos`,
`addr`, `last_active`). -/
structure Conn (n : ℕ) where
  fd : Option Fd
  state : ConnState
  /-- The bytes `memcpy` has put into `write_buf`; what lies behind them was never written. -/
  writeBuf : List UInt8
  writePos : ℕ
  writeSize : ℕ
  ioThread : Option (Fin n)
  refCount : ℤ
  closing : Bool
  /-- Specification: where the owner reference is. -/
  owner : Owner n
  /-- Specification: the socket accepted for the connection. -/
  sock : SockId
  /-- Specification: the chunks `handle_read` turned into tasks, in read order. -/
  chunks : List (List UInt8)
  /-- Specification: the responses put into `write_buf`, in that order. -/
  installed : List (List UInt8)
  /-- Specification: references acquired whose task was never handed to the queue. -/
  leaked : ℕ
  /-- Specification: how often the object was given to `free`. -/
  frees : ℕ

/-- The unallocated object. -/
def Conn.unborn (n : ℕ) : Conn n where
  fd := none
  state := .connected
  writeBuf := []
  writePos := 0
  writeSize := 0
  ioThread := none
  refCount := 0
  closing := false
  owner := .unborn
  sock := 0
  chunks := []
  installed := []
  leaked := 0
  frees := 0

end DeepInIo.AdvancedServer
