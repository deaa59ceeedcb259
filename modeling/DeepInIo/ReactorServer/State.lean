import DeepInIo.ReactorServer.GlobalQueue
import Mathlib.Data.Fin.Basic

/-!
# The state of the reactor server

The data of `linux/reactor-server`: the descriptor table and the epoll instances of the `n` IO
threads, the threads with their program points, and the task table.  A program point stands for the
statement a thread executes next; a critical section is one step.

Nothing in the program calls `io_thread_handle_response`, so that the write path of `io_thread_loop`
finds no buffer; it is part of the model all the same.
-/

namespace DeepInIo.ReactorServer

/-- A descriptor number. -/
abbrev Fd := ℕ

/-- A socket returned by `accept`, whatever its number. -/
abbrev SockId := ℕ

/-- `MAX_EVENTS` -/
def maxEvents : ℕ := 64

/-- `BUF_SIZE` -/
def bufSize : ℕ := 4096

/-- What an open descriptor number stands for. -/
inductive File
  | sys
  | client (s : SockId)
  deriving DecidableEq

/-- An accepted socket. -/
structure Sock where
  /-- The bytes that arrived and were not read. -/
  unread : List UInt8
  /-- The peer has shut down its side. -/
  peerClosed : Bool
  /-- Every byte `write` accepted, in order. -/
  written : List UInt8

/-- The bits of an event mask that are used; `EPOLLET` is always set. -/
structure EpollMask where
  epollin : Bool
  epollout : Bool
  deriving DecidableEq

/-- The kernel's state; `reg t` is the interest list of the IO thread `t`. -/
structure Kernel (n : ℕ) where
  fds : Fd → Option File
  socks : SockId → Sock
  nextSock : SockId
  reg : Fin n → Fd → Option EpollMask

/-- `conn_entry_t` -/
structure ConnEntry where
  fd : Fd
  buf : List UInt8
  deriving DecidableEq

/-- An event returned by `epoll_wait`. -/
structure Event where
  fd : Fd
  epollin : Bool
  epollout : Bool
  deriving DecidableEq

/-- The program points of `io_thread_loop`. -/
inductive IoPc
  /-- inside `epoll_wait`, collecting events -/
  | wait
  /-- head of the loop over the returned events -/
  | next
  /-- `read` -/
  | rdRead (e : Event)
  /-- `global_queue_add_task` -/
  | rdAdd (e : Event) (buffer : List UInt8)
  /-- `close` after the end of the stream or an error -/
  | clClose (e : Event)
  /-- `EPOLL_CTL_DEL` -/
  | clDel (e : Event)
  /-- `conn_map_remove` after `EPOLL_CTL_DEL` -/
  | clRemove (e : Event)
  /-- `if (events[i].events & EPOLLOUT)`, with `conn_map_get` -/
  | wrGet (e : Event)
  /-- `write` -/
  | wrWrite (e : Event) (out : List UInt8)
  /-- `EPOLL_CTL_MOD` -/
  | wrMod (e : Event)
  /-- `conn_map_remove` after a `write` -/
  | wrRemove (e : Event)
  /-- `close` after a failed `write` -/
  | wrClose (e : Event)
  deriving DecidableEq

/-- The program points of the loop of `main` and of `io_thread_add_conn`. -/
inductive MainPc (n : ℕ)
  /-- `accept` -/
  | accept
  /-- `int target = current++ % MAX_IO_THREADS` -/
  | dispatch (f : Fd) (s : SockId)
  /-- `EPOLL_CTL_ADD` -/
  | add (t : Fin n) (f : Fd) (s : SockId)
  /-- `close` after a failed `EPOLL_CTL_ADD` -/
  | addFailed (f : Fd) (s : SockId)
  deriving DecidableEq

/-- An IO thread with `io_thread_t`. -/
structure IoThread where
  pc : IoPc
  /-- The events returned by `epoll_wait` that are still to be looked at. -/
  batch : List Event
  connMap : List ConnEntry

/-- The state of the server. -/
structure State (n : ℕ) where
  kernel : Kernel n
  main : MainPc n
  /-- `current`, a 32-bit `int`. -/
  current : BitVec 32
  io : Fin n → IoThread
  queue : GlobalQueue
  /-- Specification: the IO thread in whose instance the socket was registered. -/
  added : SockId → Option (Fin n)
  /-- Specification: the bytes that were read from the number. -/
  readFrom : Fd → List UInt8

/-! ### System calls -/

namespace Kernel

variable {n : ℕ} (k : Kernel n)

/-- The accepted socket behind a number. -/
def sockAt (f : Fd) : Option SockId :=
  match k.fds f with
  | some (.client s) => some s
  | _ => none

/-- `close`: the number becomes free and the registrations of the open file go. -/
def close (f : Fd) : Kernel n :=
  if (k.fds f).isSome then
    { k with
      fds := Function.update k.fds f none
      reg := fun t => Function.update (k.reg t) f none }
  else k

@[simp] theorem close_socks (f : Fd) : (k.close f).socks = k.socks := by
  unfold close
  split <;> rfl

@[simp] theorem close_nextSock (f : Fd) : (k.close f).nextSock = k.nextSock := by
  unfold close
  split <;> rfl

/-- `close` frees the number. -/
theorem close_fds (f : Fd) : (k.close f).fds = Function.update k.fds f none := by
  unfold close
  split
  · rfl
  · next hc =>
    rw [Option.not_isSome_iff_eq_none] at hc
    rw [← hc, Function.update_eq_self]

/-- A number that is still registered after `close` was so before, and is another one if `f` was
open. -/
theorem close_reg_some {f f' : Fd} {t : Fin n} {mask : EpollMask}
    (h : (k.close f).reg t f' = some mask) :
    k.reg t f' = some mask ∧ ((k.fds f).isSome → f' ≠ f) := by
  unfold close at h
  split at h
  · by_cases hf : f' = f
    · subst hf
      simp at h
    · exact ⟨by simpa [Function.update_of_ne hf] using h, fun _ => hf⟩
  · next hc => exact ⟨h, fun hopen => absurd hopen hc⟩

/-- The registrations of the other numbers stay. -/
theorem close_reg_of_ne {f f' : Fd} (hf : f' ≠ f) (t : Fin n) :
    (k.close f).reg t f' = k.reg t f' := by
  unfold close
  split
  · exact Function.update_of_ne hf ..
  · rfl

/-- Replace an entry of an interest list. -/
@[simps]
def setReg (t : Fin n) (f : Fd) (r : Option EpollMask) : Kernel n :=
  { k with reg := Function.update k.reg t (Function.update (k.reg t) f r) }

/-- `EPOLL_CTL_ADD`: `none` when the number is not open or is already registered. -/
def epollAdd (t : Fin n) (f : Fd) (mask : EpollMask) : Option (Kernel n) :=
  if (k.fds f).isSome && (k.reg t f).isNone then some (k.setReg t f (some mask)) else none

/-- `EPOLL_CTL_MOD`, which fails when the number is not registered. -/
def epollMod (t : Fin n) (f : Fd) (mask : EpollMask) : Kernel n :=
  if (k.reg t f).isSome then k.setReg t f (some mask) else k

/-- `EPOLL_CTL_DEL`: whatever is registered under the number goes. -/
def epollDel (t : Fin n) (f : Fd) : Kernel n :=
  k.setReg t f none

/-- Change an accepted socket. -/
@[simps]
def setSock (s : SockId) (v : Sock) : Kernel n :=
  { k with socks := Function.update k.socks s v }

/-- `read` of up to `sizeof(buffer) - 1` bytes when it returns `len > 0`. -/
def readBytes (f : Fd) (len : ℕ) : Option (List UInt8 × Kernel n) :=
  match k.sockAt f with
  | none => none
  | some s =>
    let v := k.socks s
    if 0 < len && len ≤ bufSize - 1 && len ≤ v.unread.length then
      some (v.unread.take len, k.setSock s { v with unread := v.unread.drop len })
    else none

/-- `read` returns 0 exactly when everything was read and the peer has shut down. -/
def readEof (f : Fd) : Bool :=
  match k.sockAt f with
  | none => false
  | some s => (k.socks s).unread.isEmpty && (k.socks s).peerClosed

/-- `read` would block. -/
def readAgain (f : Fd) : Bool :=
  match k.sockAt f with
  | none => false
  | some s => (k.socks s).unread.isEmpty && !(k.socks s).peerClosed

/-- `write` when it accepts the first `len` of the offered bytes. -/
def writeBytes (f : Fd) (bytes : List UInt8) (len : ℕ) : Option (Kernel n) :=
  match k.sockAt f with
  | none => none
  | some s =>
    let v := k.socks s
    if len ≤ bytes.length then some (k.setSock s { v with written := v.written ++ bytes.take len })
    else none

end Kernel

/-! ### The map of buffers -/

/-- `conn_map_set`: the entry is replaced where it is, or a new one is put in front. -/
def connMapSet (map : List ConnEntry) (fd : Fd) (buf : List UInt8) : List ConnEntry :=
  match map.findIdx? fun e => e.fd == fd with
  | some i => map.set i { fd := fd, buf := cString buf }
  | none => { fd := fd, buf := cString buf } :: map

/-- `conn_map_get` -/
def connMapGet (map : List ConnEntry) (fd : Fd) : Option (List UInt8) :=
  (map.find? fun e => e.fd == fd).map ConnEntry.buf

/-- `conn_map_remove` -/
def connMapRemove (map : List ConnEntry) (fd : Fd) : List ConnEntry :=
  map.eraseP fun e => e.fd == fd

/-! ### Record updates -/

namespace State

variable {n : ℕ} (s : State n)

/-- Replace an IO thread. -/
@[simps]
def setIo (t : Fin n) (th : IoThread) : State n :=
  { s with io := Function.update s.io t th }

/-- An IO thread proceeds to another program point. -/
@[simps]
def setIoPc (t : Fin n) (pc : IoPc) : State n :=
  { s with io := Function.update s.io t { s.io t with pc := pc } }

/-- The main thread proceeds to another program point. -/
@[simps]
def setMain (pc : MainPc n) : State n :=
  { s with main := pc }

/-- Replace the kernel's state. -/
@[simps]
def setKernel (k : Kernel n) : State n :=
  { s with kernel := k }

/-- Replace the task table. -/
@[simps]
def setQueue (q : GlobalQueue) : State n :=
  { s with queue := q }

/-- The state when `main` has started the threads; `sys` are the numbers that are in use. -/
def start (sys : Fd → Bool) : State n where
  kernel :=
    { fds := fun f => if sys f then some .sys else none
      socks := fun _ => ⟨[], false, []⟩
      nextSock := 0
      reg := fun _ _ => none }
  main := .accept
  current := 0
  io := fun _ => { pc := .wait, batch := [], connMap := [] }
  queue := GlobalQueue.globalQueueInit
  added := fun _ => none
  readFrom := fun _ => []

end State

end DeepInIo.ReactorServer
