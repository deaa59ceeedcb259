import DeepInIo.ReactorServer.State
import Mathlib.Data.Int.Notation

/-!
# The threads of the reactor server

One step of `main` with `io_thread_add_conn`, of `io_thread_loop`, and of the worker, which only
takes tasks out of the table.  What a system call returns is chosen by the action; a result the
kernel cannot give is refused.  `accept` may return any number that is free.
-/

namespace DeepInIo.ReactorServer

/-- The outcome of the call at the current program point of the main thread. -/
inductive MainResult
  /-- the call succeeds, or there is nothing to choose -/
  | ok
  /-- the call fails -/
  | fail
  /-- `accept` returns the next connection under this number -/
  | accepted (f : Fd)
  deriving DecidableEq

/-- The outcome of the call at the current program point of an IO thread. -/
inductive IoResult
  /-- the call succeeds, or there is nothing to choose -/
  | ok
  /-- `epoll_wait` collects an event -/
  | event (e : Event)
  /-- `read` returns `len > 0` -/
  | got (len : ℕ)
  /-- `read` returns 0 -/
  | eof
  /-- `EAGAIN` or `EWOULDBLOCK` -/
  | again
  /-- any other error -/
  | err
  /-- `write` accepts `len` bytes -/
  | wrote (len : ℕ)
  deriving DecidableEq

/-- What the clients do. -/
inductive Environment
  /-- bytes arrive on an accepted socket -/
  | data (f : Fd) (bytes : List UInt8)
  /-- the peer of an accepted socket shuts down -/
  | peerClose (f : Fd)
  deriving DecidableEq

/-- One step of the server: which thread runs, and what its call returns. -/
inductive Action (n : ℕ)
  | main (r : MainResult)
  | io (t : Fin n) (r : IoResult)
  | worker
  | env (e : Environment)
  deriving DecidableEq

/-- `current % MAX_IO_THREADS` as an index of `io_threads`; a negative remainder is none. -/
def dispatchTarget (n : ℕ) (current : BitVec 32) : Option (Fin n) :=
  let target := current.toInt.tmod n
  if h : 0 ≤ target ∧ target.toNat < n then some ⟨target.toNat, h.2⟩ else none

namespace State

variable {n : ℕ}

/-! ### The main thread -/

/-- `accept` returns the number `f`, which was free. -/
def acceptSocket (s : State n) (f : Fd) : Option (State n) :=
  if (s.kernel.fds f).isNone then
    some ((s.setKernel { s.kernel with
      fds := Function.update s.kernel.fds f (some (.client s.kernel.nextSock))
      socks := Function.update s.kernel.socks s.kernel.nextSock ⟨[], false, []⟩
      nextSock := s.kernel.nextSock + 1 }).setMain (.dispatch f s.kernel.nextSock))
  else none

/-- `io_thread_add_conn`: `EPOLL_CTL_ADD` with `EPOLLIN | EPOLLET`. -/
def addConn (s : State n) (t : Fin n) (f : Fd) (sk : SockId) : State n :=
  match s.kernel.epollAdd t f { epollin := true, epollout := false } with
  | none => s.setMain (.addFailed f sk)
  | some k =>
    { s with
      kernel := k
      main := .accept
      added := Function.update s.added sk (some t) }

/-- One step of the main thread. -/
def mainStep (s : State n) (r : MainResult) : Option (State n) :=
  match s.main with
  | .accept =>
    match r with
    | .accepted f => s.acceptSocket f
    | .fail => some s
    | .ok => none
  | .dispatch f sk =>
    (dispatchTarget n s.current).map fun t =>
      { s with current := s.current + 1, main := .add t f sk }
  | .add t f sk =>
    match r with
    | .ok => some (s.addConn t f sk)
    | .fail => some (s.setMain (.addFailed f sk))
    | .accepted _ => none
  | .addFailed f _ => some ((s.setKernel (s.kernel.close f)).setMain .accept)

/-! ### The IO threads -/

/-- `epoll_wait` collects one event of a registered number; it returns one event for a
registration. -/
def collect (s : State n) (t : Fin n) (e : Event) : Option (State n) :=
  match s.kernel.reg t e.fd with
  | none => none
  | some mask =>
    if (e.epollin → mask.epollin) ∧ (e.epollout → mask.epollout) ∧
      ∀ e' ∈ (s.io t).batch, e'.fd ≠ e.fd then
      some (s.setIo t { s.io t with batch := (s.io t).batch ++ [e] })
    else none

/-- The head of the loop over the returned events. -/
def nextEvent (s : State n) (t : Fin n) : State n :=
  match (s.io t).batch with
  | [] => s.setIoPc t .wait
  | e :: rest =>
    s.setIo t { s.io t with pc := if e.epollin then .rdRead e else .wrGet e, batch := rest }

/-- `read` returned the bytes `data`. -/
def readData (s : State n) (t : Fin n) (e : Event) (data : List UInt8) (k : Kernel n) : State n :=
  { s with
    kernel := k
    io := Function.update s.io t { s.io t with pc := .rdAdd e data }
    readFrom := Function.update s.readFrom e.fd (s.readFrom e.fd ++ data) }

/-- The `read` of the loop. -/
def readStep (s : State n) (t : Fin n) (e : Event) (r : IoResult) : Option (State n) :=
  match r with
  | .got len => (s.kernel.readBytes e.fd len).map fun p => s.readData t e p.1 p.2
  | .eof => if s.kernel.readEof e.fd then some (s.setIoPc t (.clClose e)) else none
  | .again => if s.kernel.readAgain e.fd then some (s.setIoPc t (.wrGet e)) else none
  | .err => some (s.setIoPc t (.clClose e))
  | _ => none

/-- `if (events[i].events & EPOLLOUT)` with `conn_map_get`. -/
def getBuffer (s : State n) (t : Fin n) (e : Event) : IoPc :=
  if e.epollout then
    match connMapGet (s.io t).connMap e.fd with
    | some out => .wrWrite e out
    | none => .next
  else .next

/-- The `write` of the loop. -/
def writeStep (s : State n) (t : Fin n) (e : Event) (out : List UInt8) (r : IoResult) :
    Option (State n) :=
  match r with
  | .wrote len => (s.kernel.writeBytes e.fd out len).map fun k =>
    (s.setKernel k).setIoPc t (.wrMod e)
  | .again => some (s.setIoPc t .next)
  | .err => some (s.setIoPc t (.wrClose e))
  | _ => none

/-- `conn_map_remove` -/
def removeBuffer (s : State n) (t : Fin n) (e : Event) (pc : IoPc) : State n :=
  s.setIo t { s.io t with pc := pc, connMap := connMapRemove (s.io t).connMap e.fd }

/-- One step of the IO thread `t`. -/
def ioStep (s : State n) (t : Fin n) (r : IoResult) : Option (State n) :=
  match (s.io t).pc with
  | .wait =>
    match r with
    | .ok => some (s.setIoPc t .next)
    | .event e => if (s.io t).batch.length < maxEvents then s.collect t e else none
    | _ => none
  | .next => some (s.nextEvent t)
  | .rdRead e => s.readStep t e r
  | .rdAdd e buffer =>
    some ((s.setQueue (s.queue.globalQueueAddTask e.fd buffer).1).setIoPc t (.rdRead e))
  | .clClose e => some ((s.setKernel (s.kernel.close e.fd)).setIoPc t (.clDel e))
  | .clDel e => some ((s.setKernel (s.kernel.epollDel t e.fd)).setIoPc t (.clRemove e))
  | .clRemove e => some (s.removeBuffer t e (.wrGet e))
  | .wrGet e => some (s.setIoPc t (s.getBuffer t e))
  | .wrWrite e out => s.writeStep t e out r
  | .wrMod e =>
    some ((s.setKernel (s.kernel.epollMod t e.fd { epollin := true, epollout := false })).setIoPc t
      (.wrRemove e))
  | .wrRemove e => some (s.removeBuffer t e .next)
  | .wrClose e => some ((s.setKernel (s.kernel.close e.fd)).setIoPc t (.wrRemove e))

/-! ### The worker and the clients -/

/-- `worker_func` takes a task. -/
def workerStep (s : State n) : State n :=
  s.setQueue s.queue.globalQueueGetTask.1

/-- A step of the clients. -/
def envStep (s : State n) : Environment → Option (State n)
  | .data f bytes =>
    match s.kernel.sockAt f with
    | none => none
    | some sk =>
      let v := s.kernel.socks sk
      some (s.setKernel (s.kernel.setSock sk { v with unread := v.unread ++ bytes }))
  | .peerClose f =>
    match s.kernel.sockAt f with
    | none => none
    | some sk =>
      some (s.setKernel (s.kernel.setSock sk { s.kernel.socks sk with peerClosed := true }))

/-- One step of the server. -/
def step (s : State n) : Action n → Option (State n)
  | .main r => s.mainStep r
  | .io t r => s.ioStep t r
  | .worker => some s.workerStep
  | .env e => s.envStep e

end State

/-- The server with `n` IO threads. -/
def server (n : ℕ) : TransitionSystem (State n) (Action n) where
  init s := ∃ sys, s = State.start sys
  step s a := s.step a

/-! ### Pieces of runs -/

namespace Action

variable {n : ℕ}

/-- The main thread accepts a connection under the number `f` and registers it. -/
def connect (f : Fd) : List (Action n) :=
  [.main (.accepted f), .main .ok, .main .ok]

/-- The IO thread `t` gets a read event for the number `f`, up to the first `read`. -/
def deliver (t : Fin n) (f : Fd) : List (Action n) :=
  [.io t (.event { fd := f, epollin := true, epollout := false }), .io t .ok, .io t .ok]

end Action

end DeepInIo.ReactorServer
