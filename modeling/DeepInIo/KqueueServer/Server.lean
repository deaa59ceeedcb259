import DeepInIo.Foundation.Transition
import Mathlib.Data.Fin.Basic

/-!
# The server of `osx/kqueue`

`kqueue_server.c` is one thread.  It waits in `kevent` for the listening socket and for the clients,
accepts one connection for each event of the listening socket, and reads a client once for each of
its events.  The filters are level-triggered: as long as a socket is readable, `kevent` reports it
again.

The NUL behind a chunk that fills the buffer is written out of bounds, and what this write destroys
is left out.

A step is one system call with the statements up to the next one.  A call of `kevent` returns its
events in one step.  The descriptor table of the process has `n` entries, and `accept` fails when
none is free.
-/

namespace DeepInIo.KqueueServer

/-- `MAX_EVENTS` -/
def maxEvents : ℕ := 10

/-- `BUFFER_SIZE` -/
def bufferSize : ℕ := 1024

/-- The connection of a client, accepted or not. -/
structure Sock where
  /-- The bytes that arrived and were not read. -/
  unread : List UInt8
  /-- The peer has shut down its side. -/
  peerClosed : Bool
  deriving DecidableEq

/-- A connection on which nothing has arrived. -/
def Sock.fresh : Sock where
  unread := []
  peerClosed := false

/-- `read` would return. -/
def Sock.readable (v : Sock) : Bool :=
  !v.unread.isEmpty || v.peerClosed

/-- More bytes arrive, or the peer shuts down. -/
def Sock.arrive (v : Sock) (bytes : List UInt8) : Sock :=
  { v with unread := v.unread ++ bytes }

/-- The peer shuts down. -/
def Sock.shut (v : Sock) : Sock :=
  { v with peerClosed := true }

/-- What an event is about, `events[i].ident`. -/
inductive Ident (n : ℕ)
  /-- `listen_fd` -/
  | listen
  | client (f : Fin n)
  deriving DecidableEq

/-- The program points of the event loop. -/
inductive Pc (n : ℕ)
  /-- `kevent` -/
  | wait
  /-- head of the loop over the returned events -/
  | next
  /-- `accept` -/
  | accept
  /-- `EV_ADD` for `conn_fd`, which is `-1` when `accept` has failed -/
  | register (connFd : Option (Fin n))
  /-- `read` -/
  | read (f : Fin n)
  /-- `close` when `read` returned no byte -/
  | close (f : Fin n)
  /-- `EV_DELETE` -/
  | del (f : Fin n)
  /-- `kevent` has failed and the loop was left -/
  | stopped
  deriving DecidableEq

/-- The state of the server. -/
structure State (n : ℕ) where
  /-- The connections that wait for `accept`. -/
  backlog : List Sock
  /-- The open client sockets. -/
  socks : Fin n → Option Sock
  /-- The clients whose `EVFILT_READ` is registered. -/
  filters : Fin n → Bool
  pc : Pc n
  /-- The events returned by `kevent` that are still to be looked at. -/
  batch : List (Ident n)

/-- What happens at the current program point. -/
inductive Result (n : ℕ)
  /-- the call succeeds, or there is nothing to choose -/
  | ok
  /-- the call fails -/
  | err
  /-- `accept` fails, and the connection is gone -/
  | aborted
  /-- `kevent` returns these events -/
  | events (es : List (Ident n))
  /-- `accept` returns the next connection under this number -/
  | accepted (f : Fin n)
  deriving DecidableEq

/-- What the clients do; a connection that was not accepted is known by its place in the queue. -/
inductive Environment (n : ℕ)
  /-- a client connects -/
  | connect
  /-- bytes arrive on an accepted connection -/
  | data (f : Fin n) (bytes : List UInt8)
  /-- the peer of an accepted connection shuts down -/
  | peerClose (f : Fin n)
  /-- bytes arrive on a connection that was not accepted yet -/
  | early (i : ℕ) (bytes : List UInt8)
  /-- the peer of a connection that was not accepted yet shuts down -/
  | earlyClose (i : ℕ)
  deriving DecidableEq

/-- One step of the server. -/
inductive Action (n : ℕ)
  | loop (r : Result n)
  | env (e : Environment n)
  deriving DecidableEq

namespace State

variable {n : ℕ}

/-- The state when the event loop starts. -/
def start (n : ℕ) : State n where
  backlog := []
  socks := fun _ => none
  filters := fun _ => false
  pc := .wait
  batch := []

variable (s : State n)

/-- The server proceeds to another program point. -/
@[simps]
def setPc (pc : Pc n) : State n :=
  { s with pc := pc }

/-- Replace a client socket. -/
@[simps]
def setSock (f : Fin n) (v : Option Sock) : State n :=
  { s with socks := Function.update s.socks f v }

/-- Register the filter of a client, or delete it. -/
@[simps]
def setFilter (f : Fin n) (b : Bool) : State n :=
  { s with filters := Function.update s.filters f b }

/-- What `kevent` reports. -/
def ready : Ident n → Bool
  | .listen => !s.backlog.isEmpty
  | .client f => s.filters f && (s.socks f).any Sock.readable

/-- `kevent` returns at least one event and at most `MAX_EVENTS`, one for each filter that is
ready. -/
def kevent (es : List (Ident n)) : Option (State n) :=
  if es ≠ [] ∧ es.Nodup ∧ es.length ≤ maxEvents ∧ ∀ e ∈ es, s.ready e = true then
    some { s with pc := .next, batch := es }
  else none

/-- The head of the loop over the returned events. -/
def nextEvent : State n :=
  match s.batch with
  | [] => s.setPc .wait
  | .listen :: rest => { s with pc := .accept, batch := rest }
  | .client f :: rest => { s with pc := .read f, batch := rest }

/-- `accept` -/
def acceptConn : Result n → Option (State n)
  | .accepted f =>
    match s.backlog with
    | v :: rest =>
      if (s.socks f).isNone then
        some (({ s with backlog := rest }.setSock f (some v)).setPc (.register (some f)))
      else none
    | [] => none
  | .err => some (s.setPc (.register none))
  | .aborted => some ({ s with backlog := s.backlog.tail }.setPc (.register none))
  | _ => none

/-- `EV_ADD`, which fails for a `conn_fd` of `-1`. -/
def addFilter (connFd : Option (Fin n)) : Result n → Option (State n)
  | .ok =>
    match connFd with
    | some f => some ((s.setFilter f true).setPc .next)
    | none => some (s.setPc .next)
  | .err => some (s.setPc .next)
  | _ => none

/-- `read` of up to `BUFFER_SIZE` bytes, which takes all there are; at the end of the stream, when
it would block and for any other error `n <= 0`. -/
def readClient (f : Fin n) : Result n → Option (State n)
  | .ok =>
    match s.socks f with
    | some v =>
      if v.unread = [] then some (s.setPc (.close f))
      else some ((s.setSock f (some { v with unread := v.unread.drop bufferSize })).setPc .next)
    | none => some (s.setPc (.close f))
  | .err => some (s.setPc (.close f))
  | _ => none

/-- `close`: the number becomes free, and its filter goes. -/
@[simps]
def closeSock (f : Fin n) : State n :=
  { s with
    socks := Function.update s.socks f none
    filters := Function.update s.filters f false }

/-- One step of the event loop. -/
def loopStep (r : Result n) : Option (State n) :=
  match s.pc with
  | .wait =>
    match r with
    | .events es => s.kevent es
    | .err => some (s.setPc .stopped)
    | _ => none
  | .next => some s.nextEvent
  | .accept => s.acceptConn r
  | .register connFd => s.addFilter connFd r
  | .read f => s.readClient f r
  | .close f => some ((s.closeSock f).setPc (.del f))
  | .del f => some ((s.setFilter f false).setPc .next)
  | .stopped => none

/-- A step of the clients. -/
def envStep : Environment n → Option (State n)
  | .connect => some { s with backlog := s.backlog ++ [Sock.fresh] }
  | .data f bytes =>
    match s.socks f with
    | some v =>
      if bytes = [] ∨ v.peerClosed then none else some (s.setSock f (some (v.arrive bytes)))
    | none => none
  | .peerClose f =>
    match s.socks f with
    | some v => some (s.setSock f (some v.shut))
    | none => none
  | .early i bytes =>
    match s.backlog[i]? with
    | some v =>
      if bytes = [] ∨ v.peerClosed then none
        else some { s with backlog := s.backlog.set i (v.arrive bytes) }
    | none => none
  | .earlyClose i =>
    match s.backlog[i]? with
    | some v => some { s with backlog := s.backlog.set i v.shut }
    | none => none

/-- One step of the server. -/
def step : Action n → Option (State n)
  | .loop r => s.loopStep r
  | .env e => s.envStep e

end State

/-- The server after it has started its event loop. -/
def server (n : ℕ) : TransitionSystem (State n) (Action n) where
  init s := s = State.start n
  step s a := s.step a

end DeepInIo.KqueueServer
