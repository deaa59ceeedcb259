import DeepInIo.AdvancedServer.Connection
import DeepInIo.AdvancedServer.EventLoop

/-!
# The state of the running server

The state of the main thread, of the `n` IO threads and of the `m` workers, with the objects they
share.  Each thread has a program point; a point stands for the statement the thread executes next,
so that the accesses to shared data are steps of their own.  A critical section is one step.  The
counters are an exception: a `read`, a `write` or a hand-off counts in its own step, and
`Counters.lean` takes the two apart.  The objects that the server has freed, connections and IO
threads, keep what they hold.

The statements of `handle_read`, `handle_write` and `io_thread_run` that concern one event work on
the locals of `EventContext`.
-/

namespace DeepInIo.AdvancedServer

/-- An element of the hand-off pipe: the pointer of a connection, or the byte with which
`io_thread_destroy` wakes the thread. -/
inductive PipeItem
  | conn (c : ConnId)
  | wake
  deriving DecidableEq

/-- An event `event_loop_wait` returned, identified by its `data` pointer. -/
inductive Event
  | pipe
  | msgPipe
  | conn (c : ConnId) (events : EventMask)
  deriving DecidableEq

/-- The locals of the treatment of one connection event: `conn`, `ev->events` and `conn_fd`. -/
structure EventContext where
  conn : ConnId
  events : EventMask
  fd : Option Fd
  deriving DecidableEq

/-- The places that close a connection in the loop: in `handle_read`, in `handle_write`, and after
`EVENT_ERROR` or `EVENT_HUP`. -/
inductive CloseSite
  | read
  | write
  | hangup
  deriving DecidableEq

/-- The program points of `io_thread_run`, `handle_read` and `handle_write`. -/
inductive IoPc
  /-- `while (!io_thread->shutdown)` -/
  | loop
  /-- inside `event_loop_wait`, collecting events -/
  | wait
  /-- head of the loop over the returned events -/
  | next
  /-- `read` on the hand-off pipe -/
  | pipeRead
  /-- the assignments to `new_conn` -/
  | pipeAdopt (c : ConnId)
  /-- `event_loop_add` of the new connection -/
  | pipeAdd (c : ConnId)
  /-- `conn_release` after a failed `event_loop_add` -/
  | pipeRelease (c : ConnId)
  /-- `read` of one byte of the message pipe -/
  | msgRead
  /-- `while (io_thread->msg_queue_head)` -/
  | msgDrain
  /-- the type of a message, and `conn_is_valid` -/
  | msgCheck (msg : IoMessage)
  /-- `event_loop_mod` of a message's connection -/
  | msgMod (msg : IoMessage)
  /-- `conn_release` and `free` of a message -/
  | msgRelease (msg : IoMessage)
  /-- the first `conn_is_valid` of a connection event -/
  | evCheck (x : EventContext)
  /-- `int conn_fd = conn->fd` -/
  | evFd (x : EventContext)
  /-- `read` in `handle_read` -/
  | rdRead (x : EventContext)
  /-- `task_create` -/
  | rdCreate (x : EventContext) (data : List UInt8)
  /-- `thread_pool_submit` -/
  | rdSubmit (x : EventContext) (task : Task)
  /-- `if (conn->write_size <= 0)` -/
  | wrEntry (x : EventContext)
  /-- back to read mode, nothing to send -/
  | wrIdle (x : EventContext)
  /-- `while (conn->write_pos < conn->write_size)` with its `write` -/
  | wrLoop (x : EventContext)
  /-- `if (conn->write_pos >= conn->write_size)` -/
  | wrFinal (x : EventContext)
  /-- `write_pos` and `write_size` are reset -/
  | wrReset (x : EventContext)
  /-- back to read mode, everything sent -/
  | wrMod (x : EventContext)
  /-- `conn_mark_closing` -/
  | closeMark (k : CloseSite) (x : EventContext)
  /-- `event_loop_del` -/
  | closeDel (k : CloseSite) (x : EventContext) (fd : Option Fd)
  /-- `conn_release` of the owner reference -/
  | closeRelease (k : CloseSite) (x : EventContext)
  /-- `conn_is_valid` after `handle_read` or `handle_write` -/
  | recheck (k : CloseSite) (x : EventContext)
  /-- `if (ev->events & (EVENT_ERROR | EVENT_HUP))` -/
  | erTest (x : EventContext)
  /-- the thread has returned -/
  | stopped
  deriving DecidableEq

/-- The program points of `worker_thread`, `process_request` and `io_thread_send_message`. -/
inductive WorkerPc (n : ℕ)
  /-- `while (!pool->shutdown)` -/
  | loop
  /-- `task_queue_pop` -/
  | pop
  /-- the test of `pool->shutdown` after a `NULL` task -/
  | popNull
  /-- the `switch`, and `conn_is_valid` -/
  | check (task : Task)
  /-- `process_request` up to the installed response -/
  | install (task : Task)
  /-- `if (conn->io_thread && conn_is_valid(conn))` -/
  | sendTest (task : Task)
  /-- `malloc` of the message -/
  | sendAlloc (task : Task) (t : Fin n)
  /-- `conn_acquire` under the queue's mutex -/
  | sendAcquire (task : Task) (t : Fin n)
  /-- the message is appended to the list -/
  | sendLink (task : Task) (t : Fin n)
  /-- `write` to the message pipe -/
  | sendNotify (task : Task) (t : Fin n)
  /-- `conn_mark_closing` of `TASK_TYPE_CLOSE` -/
  | closeMark (task : Task)
  /-- `conn_release` of `TASK_TYPE_CLOSE` -/
  | closeRelease (task : Task)
  /-- `pool->tasks_completed++` -/
  | stats (task : Task)
  /-- `task_destroy` -/
  | destroy (task : Task)
  /-- the thread has returned -/
  | exited
  deriving DecidableEq

/-- The stages of `io_thread_destroy`. -/
inductive DestroyStage
  | flag
  | wake
  | join
  | loop
  | close0
  | close1
  | free
  deriving DecidableEq

/-- The program points of `server_start`, `accept_connections`, `io_thread_add_connection` and
`server_destroy`. -/
inductive MainPc (n : ℕ)
  /-- inside `event_loop_wait` of `server_start` -/
  | wait
  /-- `accept` -/
  | accept
  /-- `io_thread_pool_get_thread` for an accepted socket -/
  | getThread (f : Fd) (s : SockId)
  /-- `conn_create` -/
  | create (t : Fin n) (f : Fd) (s : SockId)
  /-- `write` of the pointer to the hand-off pipe -/
  | handoff (t : Fin n) (c : ConnId) (f : Fd) (s : SockId)
  /-- `conn_release` after a failed `write` -/
  | drop (c : ConnId) (f : Fd) (s : SockId)
  /-- `close(client_fd)` -/
  | closeClient (f : Fd) (s : SockId)
  /-- `close` of the listening socket -/
  | closeListen
  /-- `event_loop_destroy` of the main loop -/
  | destroyLoop
  /-- `io_thread_destroy` of an IO thread -/
  | ioDestroy (t : Fin n) (stage : DestroyStage)
  /-- `pool->shutdown = 1` -/
  | poolShutdown
  /-- `task_queue_shutdown` -/
  | queueShutdown
  /-- `pthread_join` of the workers -/
  | joinWorkers
  /-- the loop of `task_queue_destroy` -/
  | queueDestroy
  /-- `server_destroy` has returned -/
  | done
  deriving DecidableEq

/-- An IO thread with `io_thread_t`.  Its `event_loop` is the kernel's interest list. -/
structure IoThread where
  pc : IoPc
  /-- The events returned by `event_loop_wait` that are still to be looked at. -/
  batch : List Event
  pipe : List PipeItem
  /-- Readiness of `pipe_fd[0]` is signalled and not delivered. -/
  pipeEdge : Bool
  msgQueue : List IoMessage
  /-- The number of bytes in the message pipe. -/
  msgPipe : ℕ
  /-- Readiness of `msg_pipe_fd[0]` is signalled and not delivered. -/
  msgEdge : Bool
  shutdown : Bool
  connectionsHandled : ℕ
  bytesRead : ℕ
  bytesWritten : ℕ
  /-- The object has been freed. -/
  freed : Bool
  /-- Specification: the hand-offs written while `pipe_fd[0]` was signalled already. -/
  coalesced : ℕ

/-- An IO thread as `io_thread_create` starts it. -/
def IoThread.start : IoThread where
  pc := .loop
  batch := []
  pipe := []
  pipeEdge := false
  msgQueue := []
  msgPipe := 0
  msgEdge := false
  shutdown := false
  connectionsHandled := 0
  bytesRead := 0
  bytesWritten := 0
  freed := false
  coalesced := 0

/-- The parameters of a run: the capacities, and the descriptors the server holds when it starts. -/
structure Config (n : ℕ) where
  /-- `max_size` of the task queue. -/
  maxSize : ℕ
  /-- How many pointers a hand-off pipe holds. -/
  pipeCap : ℕ
  /-- How many bytes a message pipe holds. -/
  msgPipeCap : ℕ
  msgPipeCap_pos : 0 < msgPipeCap
  /-- The descriptor table after `server_create`. -/
  fds : Fd → Option (File n)
  /-- The numbers of the server's own descriptors. -/
  sysFd : SysFile n → Fd
  fds_sysFd : ∀ x, fds (sysFd x) = some (.sys x)
  fds_ne_client : ∀ f s, fds f ≠ some (.client s)

/-- The state of the server with `n` IO threads and `m` workers. -/
structure State (n m : ℕ) where
  kernel : Kernel n
  conns : ConnId → Conn n
  nextConn : ConnId
  main : MainPc n
  nextThread : ℕ
  totalConnections : ℕ
  io : Fin n → IoThread
  queue : List Task
  queueShutdown : Bool
  poolShutdown : Bool
  tasksCompleted : ℕ
  worker : Fin m → WorkerPc n

namespace State

variable {n m : ℕ} (s : State n m)

/-- The state in which `server_start` begins. -/
def start (cfg : Config n) : State n m where
  kernel :=
    { fds := cfg.fds
      socks := fun _ => Sock.fresh
      nextSock := 0
      backlog := 0
      listenEdge := false
      reg := fun _ _ => none }
  conns := fun _ => Conn.unborn n
  nextConn := 0
  main := .wait
  nextThread := 0
  totalConnections := 0
  io := fun _ => IoThread.start
  queue := []
  queueShutdown := false
  poolShutdown := false
  tasksCompleted := 0
  worker := fun _ => .loop

/-- Replace an IO thread. -/
@[simps]
def setIo (t : Fin n) (th : IoThread) : State n m :=
  { s with io := Function.update s.io t th }

/-- An IO thread proceeds to another program point. -/
@[simps]
def setIoPc (t : Fin n) (pc : IoPc) : State n m :=
  { s with io := Function.update s.io t { s.io t with pc := pc } }

/-- A worker proceeds to another program point. -/
@[simps]
def setWorker (w : Fin m) (pc : WorkerPc n) : State n m :=
  { s with worker := Function.update s.worker w pc }

/-- The main thread proceeds to another program point. -/
@[simps]
def setMain (pc : MainPc n) : State n m :=
  { s with main := pc }

/-- Replace a connection object. -/
@[simps]
def setConn (c : ConnId) (k : Conn n) : State n m :=
  { s with conns := Function.update s.conns c k }

/-- Replace the kernel's state. -/
@[simps]
def setKernel (k : Kernel n) : State n m :=
  { s with kernel := k }

/-- Replace the task queue. -/
@[simps]
def setQueue (q : List Task) : State n m :=
  { s with queue := q }

/-- `conn_release`: the last reference closes the descriptor and frees the object. -/
@[simps]
def connRelease (c : ConnId) : State n m :=
  { s with
    conns := Function.update s.conns c (s.conns c).release
    kernel := if (s.conns c).lastRelease then s.kernel.close (s.conns c).fd else s.kernel }

/-- `conn_mark_closing` -/
@[simps]
def connMarkClosing (c : ConnId) : State n m :=
  { s with
    conns := Function.update s.conns c (s.conns c).markClosing
    kernel := if (s.conns c).closing then s.kernel else s.kernel.close (s.conns c).fd }

/-- `server_destroy` has not been entered. -/
def Running : Prop :=
  match s.main with
  | .wait | .accept | .getThread .. | .create .. | .handoff .. | .drop .. | .closeClient .. => True
  | _ => False

end State

end DeepInIo.AdvancedServer
