import DeepInIo.Foundation.Transition

/-!
# The two servers of `linux/epoll`

`basic_epoll_server.c` has one event loop, which accepts the connections itself.
`epoll_multithread_server.c` has `WORKER_COUNT` loops, to which the main thread sends the accepted
descriptors through pipes, in turn.  Both register a client with `EPOLLIN | EPOLLET` and read it
once for each event, into a buffer of `BUFFER_SIZE` bytes; the loops are the same otherwise, so that
one model serves for both.

The NUL behind a chunk that fills the buffer is written out of bounds.  What this write destroys is
left out; that it happens is a matter of `Reading.lean`.

A step is one system call with the statements up to the next one, of one thread.  The kernel keeps
for every registered client whether an edge is armed: `EPOLL_CTL_ADD` arms it when the client is
readable, data that arrives arms it, and `epoll_wait` takes it with the event.
-/

namespace DeepInIo.EpollServer

/-- A descriptor number. -/
abbrev Fd := ℕ

/-- `BUFFER_SIZE` -/
def bufferSize : ℕ := 1024

/-- What is different between the two servers. -/
structure Config where
  /-- The number of event loops. -/
  loops : ℕ
  /-- `MAX_EVENTS` -/
  maxEvents : ℕ
  /-- A loop accepts connections itself; if not, they come through its pipe. -/
  accepts : Bool

/-- `basic_epoll_server.c` -/
def basicEpollServer : Config where
  loops := 1
  maxEvents := 10
  accepts := true

/-- `epoll_multithread_server.c`, with `WORKER_COUNT` loops. -/
def epollMultithreadServer : Config where
  loops := 4
  maxEvents := 1024
  accepts := false

/-- An accepted socket. -/
structure Sock where
  /-- The bytes that arrived and were not read. -/
  unread : List UInt8
  /-- The peer has shut down its side. -/
  peerClosed : Bool

/-- What an event is about, `events[i].data.fd`. -/
inductive Source
  /-- `listen_fd` -/
  | listen
  /-- `w->pipe_fd[0]` -/
  | pipe
  | client (f : Fd)
  deriving DecidableEq

/-- The program points of an event loop. -/
inductive LoopPc
  /-- inside `epoll_wait`, collecting events -/
  | wait
  /-- head of the loop over the returned events -/
  | next
  /-- `accept` -/
  | accept
  /-- `read` from the pipe -/
  | readPipe
  /-- `EPOLL_CTL_ADD` -/
  | add (f : Fd)
  /-- `read` from a client -/
  | read (f : Fd)
  /-- `close` when `read` returned no byte -/
  | close (f : Fd)
  /-- `EPOLL_CTL_DEL` -/
  | del (f : Fd)
  deriving DecidableEq

/-- An event loop. -/
structure EventLoop where
  pc : LoopPc
  /-- The events returned by `epoll_wait` that are still to be looked at. -/
  batch : List Source
  deriving DecidableEq

/-- The program points of the main thread of `epoll_multithread_server.c`. -/
inductive MainPc
  /-- `accept` -/
  | accept
  /-- `write` to the pipe of the next worker -/
  | write (f : Fd)
  deriving DecidableEq

/-- The state of a server. -/
structure State (c : Config) where
  /-- The open client sockets. -/
  socks : Fd → Option Sock
  /-- The interest lists; the flag says that an edge is armed. -/
  reg : Fin c.loops → Fd → Option Bool
  loops : Fin c.loops → EventLoop
  /-- The descriptors in the pipes. -/
  pipes : Fin c.loops → List Fd
  main : MainPc
  /-- `current_worker` -/
  currentWorker : ℕ
  /-- Specification: the index of the NUL behind each chunk that was read. -/
  ends : List ℕ

/-- What happens at the current program point. -/
inductive Result
  /-- the call succeeds, or there is nothing to choose -/
  | ok
  /-- the call fails -/
  | err
  /-- `epoll_wait` collects an event -/
  | event (e : Source)
  /-- `epoll_wait` finds that a client whose edge is armed is not readable -/
  | drop (f : Fd)
  /-- `accept` returns a connection under this number -/
  | accepted (f : Fd)
  deriving DecidableEq

/-- What the clients do. -/
inductive Environment
  /-- bytes arrive on a socket -/
  | data (f : Fd) (bytes : List UInt8)
  /-- the peer shuts down, which may arm the edge or not -/
  | peerClose (f : Fd) (signalled : Bool)
  deriving DecidableEq

/-- One step of a server. -/
inductive Action (c : Config)
  | loop (l : Fin c.loops) (r : Result)
  | main (r : Result)
  | env (e : Environment)
  deriving DecidableEq

/-- `read` would return. -/
def Sock.readable (v : Sock) : Bool :=
  !v.unread.isEmpty || v.peerClosed

namespace State

variable {c : Config}

/-- The state when the event loops start. -/
def start (c : Config) : State c where
  socks := fun _ => none
  reg := fun _ _ => none
  loops := fun _ => { pc := .wait, batch := [] }
  pipes := fun _ => []
  main := .accept
  currentWorker := 0
  ends := []

variable (s : State c)

/-! ### Record updates -/

/-- Replace an event loop. -/
@[simps]
def setLoop (l : Fin c.loops) (loop : EventLoop) : State c :=
  { s with loops := Function.update s.loops l loop }

/-- An event loop proceeds to another program point. -/
@[simps]
def setPc (l : Fin c.loops) (pc : LoopPc) : State c :=
  { s with loops := Function.update s.loops l { s.loops l with pc := pc } }

/-- Replace a client socket. -/
@[simps]
def setSock (f : Fd) (v : Option Sock) : State c :=
  { s with socks := Function.update s.socks f v }

/-- Replace an entry of an interest list. -/
@[simps]
def setReg (l : Fin c.loops) (f : Fd) (r : Option Bool) : State c :=
  { s with reg := Function.update s.reg l (Function.update (s.reg l) f r) }

/-- An edge of a client is armed wherever it is registered. -/
@[simps]
def arm (f : Fd) : State c :=
  { s with reg := fun l => Function.update (s.reg l) f ((s.reg l f).map fun _ => true) }

/-! ### The event loops -/

/-- `epoll_wait` takes an event, once for each source.  The listening socket and the pipe are not
edge-triggered. -/
def collect (l : Fin c.loops) (e : Source) : Option (State c) :=
  if e ∈ (s.loops l).batch ∨ c.maxEvents ≤ (s.loops l).batch.length then none
  else
    let loop := { s.loops l with batch := (s.loops l).batch ++ [e] }
    match e with
    | .listen => if c.accepts then some (s.setLoop l loop) else none
    | .pipe => if c.accepts || (s.pipes l).isEmpty then none else some (s.setLoop l loop)
    | .client f =>
      match s.socks f, s.reg l f with
      | some v, some true =>
        if v.readable then some ((s.setReg l f (some false)).setLoop l loop) else none
      | _, _ => none

/-- `epoll_wait` drops the edge of a client that is not readable. -/
def dropEdge (l : Fin c.loops) (f : Fd) : Option (State c) :=
  match s.socks f, s.reg l f with
  | some v, some true => if v.readable then none else some (s.setReg l f (some false))
  | _, _ => none

/-- The head of the loop over the returned events. -/
def nextEvent (l : Fin c.loops) : State c :=
  match (s.loops l).batch with
  | [] => s.setPc l .wait
  | .listen :: rest => s.setLoop l { pc := .accept, batch := rest }
  | .pipe :: rest => s.setLoop l { pc := .readPipe, batch := rest }
  | .client f :: rest => s.setLoop l { pc := .read f, batch := rest }

/-- `EPOLL_CTL_ADD` with `EPOLLIN | EPOLLET`, which fails when the number is not open or is already
registered. -/
def addConn (l : Fin c.loops) (f : Fd) : State c :=
  match s.socks f, s.reg l f with
  | some v, none => (s.setReg l f (some v.readable)).setPc l .next
  | _, _ => s.setPc l .next

/-- `read` of up to `BUFFER_SIZE` bytes, which takes all there are, and `buffer[n] = '\0'`. -/
@[simps]
def readChunk (l : Fin c.loops) (f : Fd) (v : Sock) : State c :=
  { s with
    socks := Function.update s.socks f (some { v with unread := v.unread.drop bufferSize })
    loops := Function.update s.loops l { s.loops l with pc := .next }
    ends := s.ends ++ [min bufferSize v.unread.length] }

/-- `read` from a client: at the end of the stream, when it would block and for any other error
`n <= 0`. -/
def readClient (l : Fin c.loops) (f : Fd) (r : Result) : Option (State c) :=
  match r with
  | .ok =>
    match s.socks f with
    | some v => if v.unread = [] then some (s.setPc l (.close f)) else some (s.readChunk l f v)
    | none => some (s.setPc l (.close f))
  | .err => some (s.setPc l (.close f))
  | _ => none

/-- `close`: the number becomes free and the registrations go. -/
@[simps]
def closeSock (f : Fd) : State c :=
  { s with
    socks := Function.update s.socks f none
    reg := fun l => Function.update (s.reg l) f none }

/-- `accept` returns the number `f`, which was free. -/
def acceptSock (f : Fd) : Option (State c) :=
  if (s.socks f).isNone then some (s.setSock f (some { unread := [], peerClosed := false }))
    else none

/-- One step of the event loop `l`. -/
def loopStep (l : Fin c.loops) (r : Result) : Option (State c) :=
  match (s.loops l).pc with
  | .wait =>
    match r with
    | .ok => if (s.loops l).batch = [] then none else some (s.setPc l .next)
    | .event e => s.collect l e
    | .drop f => s.dropEdge l f
    | _ => none
  | .next => some (s.nextEvent l)
  | .accept =>
    match r with
    | .accepted f => (s.acceptSock f).map fun s => s.setPc l (.add f)
    | .err => some (s.setPc l .next)
    | _ => none
  | .readPipe =>
    match s.pipes l with
    | [] => none
    | f :: rest => some ({ s with pipes := Function.update s.pipes l rest }.setPc l (.add f))
  | .add f =>
    match r with
    | .ok => some (s.addConn l f)
    | .err => some (s.setPc l .next)
    | _ => none
  | .read f => s.readClient l f r
  | .close f => some ((s.closeSock f).setPc l (.del f))
  | .del f => some ((s.setReg l f none).setPc l .next)

/-! ### The main thread and the clients -/

/-- One step of the main thread of `epoll_multithread_server.c`, which returns when `accept` fails
for good. -/
def mainStep (r : Result) : Option (State c) :=
  if c.accepts then none
  else
    match s.main with
    | .accept =>
      match r with
      | .accepted f => (s.acceptSock f).map fun s => { s with main := .write f }
      | .err => some s
      | _ => none
    | .write f =>
      if h : s.currentWorker < c.loops then
        some { s with
          pipes :=
            Function.update s.pipes ⟨s.currentWorker, h⟩ (s.pipes ⟨s.currentWorker, h⟩ ++ [f])
          main := .accept
          currentWorker := (s.currentWorker + 1) % c.loops }
      else none

/-- A step of the clients. -/
def envStep : Environment → Option (State c)
  | .data f bytes =>
    match s.socks f with
    | some v =>
      if bytes = [] ∨ v.peerClosed then none
      else some ((s.setSock f (some { v with unread := v.unread ++ bytes })).arm f)
    | none => none
  | .peerClose f signalled =>
    match s.socks f with
    | some v =>
      let s' := s.setSock f (some { v with peerClosed := true })
      some (if signalled then s'.arm f else s')
    | none => none

/-- One step of the server. -/
def step : Action c → Option (State c)
  | .loop l r => s.loopStep l r
  | .main r => s.mainStep r
  | .env e => s.envStep e

end State

/-- A server after it has started its event loops. -/
def server (c : Config) : TransitionSystem (State c) (Action c) where
  init s := s = State.start c
  step s a := s.step a

end DeepInIo.EpollServer
