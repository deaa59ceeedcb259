import DeepInIo.AdvancedServer.IoThread
import DeepInIo.AdvancedServer.Worker
import DeepInIo.Foundation.Transition
import Mathlib.Tactic.SplitIfs

/-!
# The main thread and the whole server

One step of `server_start`, `accept_connections`, `io_thread_add_connection` and `server_destroy`,
the events that come from the clients, and the transition system made of all threads.
-/

namespace DeepInIo.AdvancedServer

/-- The outcome of the call at the current program point of the main thread. -/
inductive MainResult
  /-- the call succeeds, or there is nothing to choose -/
  | ok
  /-- the call fails; for `accept`, with an error that ends the loop -/
  | fail
  /-- `accept` returns the next connection under this number -/
  | accepted (f : Fd)
  /-- `accept` finds no connection -/
  | again
  /-- `accept` was interrupted -/
  | intr
  /-- the server is told to stop -/
  | stop
  deriving DecidableEq

/-- What happens outside the server. -/
inductive Environment
  /-- a client connects -/
  | arrive
  /-- bytes arrive on an accepted socket -/
  | data (f : Fd) (bytes : List UInt8)
  /-- the peer of an accepted socket shuts down -/
  | peerClose (f : Fd)
  /-- the send buffer of an accepted socket gets room -/
  | drain (f : Fd)
  deriving DecidableEq

/-- One step of the server: which thread runs, and what its call returns. -/
inductive Action (n m : ℕ)
  | main (r : MainResult)
  | io (t : Fin n) (r : IoResult)
  | worker (w : Fin m) (ok : Bool)
  | env (e : Environment)
  deriving DecidableEq

namespace State

variable {n m : ℕ}

/-- `accept` returns the number `f`, which was free. -/
def acceptSocket (s : State n m) (f : Fd) : Option (State n m) :=
  if 0 < s.kernel.backlog && (s.kernel.fds f).isNone then
    some ((s.setKernel { s.kernel with
      backlog := s.kernel.backlog - 1
      fds := Function.update s.kernel.fds f (some (.client s.kernel.nextSock))
      socks := Function.update s.kernel.socks s.kernel.nextSock Sock.fresh
      nextSock := s.kernel.nextSock + 1 }).setMain (.getThread f s.kernel.nextSock))
  else none

/-- `io_thread_pool_get_thread`: the threads in turn, `NULL` for an empty pool. -/
def getThread (s : State n m) (f : Fd) (sk : SockId) : State n m :=
  if h : s.nextThread < n then
    { s with
      nextThread := (s.nextThread + 1) % n
      main := .create ⟨s.nextThread, h⟩ f sk }
  else s.setMain (.closeClient f sk)

/-- `conn_create` in `io_thread_add_connection`. -/
@[simps]
def createConnection (s : State n m) (t : Fin n) (f : Fd) (sk : SockId) : State n m :=
  { s with
    conns := Function.update s.conns s.nextConn (Conn.create f sk t)
    nextConn := s.nextConn + 1
    main := .handoff t s.nextConn f sk }

/-- `io_thread_add_connection` writes the pointer to the hand-off pipe and returns 0, so that
`total_connections++` follows. -/
@[simps]
def handOff (s : State n m) (t : Fin n) (c : ConnId) : State n m :=
  { s with
    conns := Function.update s.conns c ((s.conns c).setOwner (.pipe t))
    io := Function.update s.io t { s.io t with
      pipe := (s.io t).pipe ++ [.conn c]
      pipeEdge := true
      coalesced := (s.io t).coalesced + (s.io t).pipeEdge.toNat }
    totalConnections := s.totalConnections + 1
    main := .accept }

/-- `conn_release` in `io_thread_add_connection` after a failed `write`. -/
def dropConnection (s : State n m) (c : ConnId) (f : Fd) (sk : SockId) : State n m :=
  let s' := s.connRelease c
  (s'.setConn c ((s'.conns c).setOwner .dropped)).setMain (.closeClient f sk)

@[simp] theorem dropConnection_conns (s : State n m) (c : ConnId) (f : Fd) (sk : SockId) :
    (s.dropConnection c f sk).conns =
      Function.update s.conns c ((s.conns c).release.setOwner .dropped) := by
  funext c'
  by_cases h : c' = c <;> simp [dropConnection, h]

/-- The IO thread to destroy after the first `i`, or the worker pool when there is none. -/
def nextDestroy (n i : ℕ) : MainPc n :=
  if h : i < n then .ioDestroy ⟨i, h⟩ .flag else .poolShutdown

/-- One stage of `io_thread_destroy`. -/
def ioDestroyStep (cfg : Config n) (s : State n m) (t : Fin n) (r : MainResult) :
    DestroyStage → Option (State n m)
  | .flag => some ((s.setIo t { s.io t with shutdown := true }).setMain (.ioDestroy t .wake))
  | .wake =>
    if r = .ok then
      some ((s.setIo t { s.io t with
        pipe := (s.io t).pipe ++ [.wake], pipeEdge := true }).setMain (.ioDestroy t .join))
    else if r = .fail then some (s.setMain (.ioDestroy t .join))
    else none
  | .join => if (s.io t).pc = .stopped then some (s.setMain (.ioDestroy t .loop)) else none
  | .loop =>
    some ((s.setKernel ((s.kernel.close (some (cfg.sysFd (.epoll t)))).dropLoop t)).setMain
      (.ioDestroy t .close0))
  | .close0 =>
    some ((s.setKernel (s.kernel.close (some (cfg.sysFd (.pipe t .read))))).setMain
      (.ioDestroy t .close1))
  | .close1 =>
    some ((s.setKernel (s.kernel.close (some (cfg.sysFd (.pipe t .write))))).setMain
      (.ioDestroy t .free))
  | .free => some ((s.setIo t { s.io t with freed := true }).setMain (nextDestroy n (t + 1)))

/-- The loop of `task_queue_destroy`: `task_destroy` of every task left. -/
def destroyTask (s : State n m) : State n m :=
  match s.queue with
  | [] => s.setMain .done
  | task :: rest => (s.connRelease task.conn).setQueue rest

/-- One step of the main thread. -/
def mainStep (cfg : Config n) (s : State n m) (r : MainResult) : Option (State n m) :=
  match s.main with
  | .wait =>
    match r with
    | .ok =>
      if s.kernel.listenEdge then
        some ((s.setKernel { s.kernel with listenEdge := false }).setMain .accept)
      else none
    | .stop => some (s.setMain .closeListen)
    | _ => none
  | .accept =>
    match r with
    | .accepted f => s.acceptSocket f
    | .again => if s.kernel.backlog = 0 then some (s.setMain .wait) else none
    | .intr => some s
    | .fail => some (s.setMain .wait)
    | _ => none
  | .getThread f sk => some (s.getThread f sk)
  | .create t f sk =>
    match r with
    | .ok => some (s.createConnection t f sk)
    | .fail => some (s.setMain (.closeClient f sk))
    | _ => none
  | .handoff t c f sk =>
    match r with
    | .ok => if (s.io t).pipe.length < cfg.pipeCap then some (s.handOff t c) else none
    | .fail => some (s.setMain (.drop c f sk))
    | _ => none
  | .drop c f sk => some (s.dropConnection c f sk)
  | .closeClient f _ => some ((s.setKernel (s.kernel.close (some f))).setMain .accept)
  | .closeListen =>
    some ((s.setKernel (s.kernel.close (some (cfg.sysFd .listen)))).setMain .destroyLoop)
  | .destroyLoop =>
    some ((s.setKernel (s.kernel.close (some (cfg.sysFd .mainEpoll)))).setMain (nextDestroy n 0))
  | .ioDestroy t stage => s.ioDestroyStep cfg t r stage
  | .poolShutdown => some ({ s with poolShutdown := true }.setMain .queueShutdown)
  | .queueShutdown => some ({ s with queueShutdown := true }.setMain .joinWorkers)
  | .joinWorkers => if ∀ w, s.worker w = .exited then some (s.setMain .queueDestroy) else none
  | .queueDestroy => some s.destroyTask
  | .done => none

/-- A step of the clients. -/
def envStep (s : State n m) : Environment → Option (State n m)
  | .arrive =>
    some (s.setKernel { s.kernel with backlog := s.kernel.backlog + 1, listenEdge := true })
  | .data f bytes =>
    match s.kernel.sockAt (some f) with
    | none => none
    | some sk =>
      let v := s.kernel.socks sk
      some (s.setKernel
        ((s.kernel.setSock sk { v with unread := v.unread ++ bytes }).signal f true false))
  | .peerClose f =>
    match s.kernel.sockAt (some f) with
    | none => none
    | some sk =>
      some (s.setKernel
        ((s.kernel.setSock sk { s.kernel.socks sk with peerClosed := true }).signal f true false))
  | .drain f =>
    match s.kernel.sockAt (some f) with
    | none => none
    | some sk =>
      some (s.setKernel
        ((s.kernel.setSock sk { s.kernel.socks sk with writable := true }).signal f false true))

/-- One step of the server. -/
def step (cfg : Config n) (s : State n m) : Action n m → Option (State n m)
  | .main r => s.mainStep cfg r
  | .io t r => s.ioStep cfg t r
  | .worker w ok => s.workerStep cfg w ok
  | .env e => s.envStep e

end State

/-! ### A freshly started process -/

/-- The descriptors of one IO thread, in the order in which `io_thread_create` opens them. -/
def SysFile.ofIoThread {n : ℕ} (t : Fin n) : ℕ → SysFile n
  | 0 => .pipe t .read
  | 1 => .pipe t .write
  | 2 => .msgPipe t .read
  | 3 => .msgPipe t .write
  | _ => .epoll t

/-- The number of a descriptor in a process that had only its standard streams open: `server_create`
opens the listening socket, then the descriptors of each IO thread, and last the epoll instance of
the main thread. -/
def SysFile.number {n : ℕ} : SysFile n → ℕ
  | .listen => 3
  | .pipe t .read => 4 + 5 * t
  | .pipe t .write => 4 + 5 * t + 1
  | .msgPipe t .read => 4 + 5 * t + 2
  | .msgPipe t .write => 4 + 5 * t + 3
  | .epoll t => 4 + 5 * t + 4
  | .mainEpoll => 4 + 5 * n

/-- The descriptor table that belongs to `SysFile.number`. -/
def SysFile.table (n f : ℕ) : Option (File n) :=
  if f < 3 then some .other
  else if f = 3 then some (.sys .listen)
  else if h : (f - 4) / 5 < n then some (.sys (SysFile.ofIoThread ⟨(f - 4) / 5, h⟩ ((f - 4) % 5)))
  else if f = 4 + 5 * n then some (.sys .mainEpoll)
  else none

/-- The five numbers from `4 + 5 * t` on belong to the IO thread `t`. -/
theorem SysFile.table_ofIoThread {n : ℕ} (t : Fin n) {r : ℕ} (hr : r < 5) :
    SysFile.table n (4 + 5 * t + r) = some (.sys (SysFile.ofIoThread t r)) := by
  have hdiv : (4 + 5 * t.1 + r - 4) / 5 = t.1 := by omega
  have hmod : (4 + 5 * t.1 + r - 4) % 5 = r := by omega
  have hlt : (4 + 5 * t.1 + r - 4) / 5 < n := by omega
  have ht : (⟨(4 + 5 * t.1 + r - 4) / 5, hlt⟩ : Fin n) = t := Fin.ext hdiv
  rw [SysFile.table, if_neg (by omega), if_neg (by omega), dif_pos hlt, ht, hmod]

/-- The table holds every descriptor of the server under its number. -/
theorem SysFile.table_number {n : ℕ} (x : SysFile n) :
    SysFile.table n x.number = some (.sys x) := by
  cases x with
  | listen => rfl
  | mainEpoll =>
    have hdiv : ¬(4 + 5 * n - 4) / 5 < n := by omega
    rw [SysFile.table, SysFile.number, if_neg (by omega), if_neg (by omega), dif_neg hdiv,
      if_pos rfl]
  | epoll t => exact SysFile.table_ofIoThread t (r := 4) (by decide)
  | pipe t e => cases e with
    | read => exact SysFile.table_ofIoThread t (r := 0) (by decide)
    | write => exact SysFile.table_ofIoThread t (r := 1) (by decide)
  | msgPipe t e => cases e with
    | read => exact SysFile.table_ofIoThread t (r := 2) (by decide)
    | write => exact SysFile.table_ofIoThread t (r := 3) (by decide)

/-- No client is connected yet. -/
theorem SysFile.table_ne_client {n : ℕ} (f : ℕ) (s : SockId) :
    SysFile.table n f ≠ some (.client s) := by
  unfold SysFile.table
  split_ifs <;> simp

/-- A freshly started process, with the queue size of `server_create` and Linux's pipe size. -/
def Config.fresh (n : ℕ) : Config n where
  maxSize := 2000
  pipeCap := 8192
  msgPipeCap := 65536
  msgPipeCap_pos := by decide
  fds := SysFile.table n
  sysFd := SysFile.number
  fds_sysFd := SysFile.table_number
  fds_ne_client := SysFile.table_ne_client

variable {n m : ℕ}

/-- The server with `n` IO threads and `m` workers. -/
def server (m : ℕ) (cfg : Config n) : TransitionSystem (State n m) (Action n m) where
  init s := s = State.start cfg
  step s a := s.step cfg a

/-! ### Pieces of runs -/

namespace Action

/-- The main thread finds a new connection, gives it the number `f` and hands it to an IO thread. -/
def acceptOne (f : Fd) : List (Action n m) :=
  [.main (.accepted f), .main .ok, .main .ok, .main .ok]

/-- A client connects while the main thread waits, and gets the number `f`. -/
def connect (f : Fd) : List (Action n m) :=
  [.env .arrive, .main .ok] ++ acceptOne f ++ [.main .again]

/-- From the head of its loop the IO thread `t` waits for the hand-off pipe, takes one connection
into its event loop and comes back. -/
def adopt (t : Fin n) : List (Action n m) :=
  [.io t .ok, .io t (.event .pipe), .io t .ok, .io t .ok, .io t .ok, .io t .ok, .io t .ok,
    .io t .ok]

/-- From the head of its loop the IO thread `t` waits for the descriptor `f` and gets as far as the
first call of `handle_read` or `handle_write`. -/
def deliver (t : Fin n) (f : Fd) (events : EventMask) : List (Action n m) :=
  [.io t .ok, .io t (.event (.fd f events)), .io t .ok, .io t .ok, .io t .ok, .io t .ok]

/-- From the head of its loop the IO thread `t` waits for the message pipe, handles `k` messages of
valid connections and comes back. -/
def drainMessages (t : Fin n) (k : ℕ) : List (Action n m) :=
  [.io t .ok, .io t (.event .msgPipe), .io t .ok, .io t .ok, .io t .ok] ++
    List.replicate (4 * k) (.io t .ok) ++ [.io t .ok, .io t .ok]

/-- `handle_read` reads `len` bytes and submits them. -/
def readOne (t : Fin n) (len : ℕ) : List (Action n m) :=
  [.io t (.got len), .io t .ok, .io t .ok]

/-- A worker takes `k` steps whose allocations succeed. -/
def work (w : Fin m) (k : ℕ) : List (Action n m) :=
  List.replicate k (.worker w true)

end Action

end DeepInIo.AdvancedServer
