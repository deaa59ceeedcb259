import DeepInIo.AdvancedServer.State

/-!
# The IO thread

One step of `io_thread_run` and of the functions it calls, `handle_read` and `handle_write`.  What a
system call, an allocation or `event_loop_wait` returns is chosen by the `IoResult` of the action; a
result the kernel cannot give is refused.

`event_loop_wait` is modelled as the kernel works, by collecting one event after the other.  A
connection event may carry any flags and may be collected more than once; collecting it consumes the
readiness it reports.
-/

namespace DeepInIo.AdvancedServer

/-- What `event_loop_wait` finds ready: the read end of the hand-off pipe, that of the message pipe,
or a registered descriptor. -/
inductive Ready
  | pipe
  | msgPipe
  | fd (f : Fd) (events : EventMask)
  deriving DecidableEq

/-- The outcome of the call at the current program point of an IO thread. -/
inductive IoResult
  /-- the call succeeds, or there is nothing to choose -/
  | ok
  /-- `malloc` or the kernel refuses -/
  | fail
  /-- the second `malloc` of `task_create`, for the data, refuses -/
  | failData
  /-- `event_loop_wait` collects an event -/
  | event (r : Ready)
  /-- `read` returns `len > 0` -/
  | got (len : ℕ)
  /-- `read` returns 0 -/
  | eof
  /-- `EAGAIN` or `EWOULDBLOCK` -/
  | again
  /-- any other error -/
  | err
  /-- `write` accepts `len` bytes and leaves room in the send buffer or not -/
  | wrote (len : ℕ) (room : Bool)
  deriving DecidableEq

namespace State

variable {n m : ℕ}

/-- `event_loop_wait` collects one event of the IO thread `t`. -/
def collect (s : State n m) (t : Fin n) : Ready → Option (State n m)
  | .pipe =>
    if (s.io t).pipeEdge then
      some (s.setIo t { s.io t with pipeEdge := false, batch := (s.io t).batch ++ [.pipe] })
    else none
  | .msgPipe =>
    if (s.io t).msgEdge then
      some (s.setIo t { s.io t with msgEdge := false, batch := (s.io t).batch ++ [.msgPipe] })
    else none
  | .fd f ev =>
    match s.kernel.reg t f with
    | none => none
    | some r =>
      let r' := { r with
        pendRead := r.pendRead && !ev.read
        pendWrite := r.pendWrite && !ev.write }
      some ((s.setKernel (s.kernel.setReg t f (some r'))).setIo t
        { s.io t with batch := (s.io t).batch ++ [.conn r.data ev] })

/-- The head of the loop over the returned events. -/
def nextEvent (s : State n m) (t : Fin n) : State n m :=
  match (s.io t).batch with
  | [] => s.setIoPc t .loop
  | .pipe :: rest => s.setIo t { s.io t with pc := .pipeRead, batch := rest }
  | .msgPipe :: rest => s.setIo t { s.io t with pc := .msgRead, batch := rest }
  | .conn c ev :: rest =>
    s.setIo t { s.io t with pc := .evCheck { conn := c, events := ev, fd := none }, batch := rest }

/-- `read` on the hand-off pipe.  An empty pipe and the single wake-up byte fail the size test. -/
def readPipe (s : State n m) (t : Fin n) : State n m :=
  match (s.io t).pipe with
  | [] => s.setIoPc t .next
  | .wake :: rest => s.setIo t { s.io t with pc := .next, pipe := rest }
  | .conn c :: rest =>
    (s.setConn c ((s.conns c).setOwner (.adopter t))).setIo t
      { s.io t with pc := .pipeAdopt c, pipe := rest }

/-- `event_loop_add` of a new connection, with its `connections_handled++`. -/
def addConnection (s : State n m) (t : Fin n) (c : ConnId) : State n m :=
  match s.kernel.eventLoopAdd t (s.conns c).fd .readEt c with
  | none => s.setIoPc t (.pipeRelease c)
  | some k =>
    ((s.setKernel k).setConn c ((s.conns c).setOwner (.registered t))).setIo t
      { s.io t with pc := .next, connectionsHandled := (s.io t).connectionsHandled + 1 }

/-- The head of `while (io_thread->msg_queue_head)`, which takes a message. -/
def drainMessage (s : State n m) (t : Fin n) : State n m :=
  match (s.io t).msgQueue with
  | [] => s.setIoPc t .next
  | msg :: rest => s.setIo t { s.io t with pc := .msgCheck msg, msgQueue := rest }

/-- The test of a message before its connection is switched to write mode. -/
def checkMessage (s : State n m) (msg : IoMessage) : IoPc :=
  if msg.type = .responseReady ∧ (s.conns msg.conn).isValid = true then .msgMod msg
  else .msgRelease msg

/-- Where the treatment of an event goes after its `EVENT_READ` part. -/
def afterRead (x : EventContext) : IoPc :=
  if x.events.write then .wrEntry x else .erTest x

/-- Where the treatment of an event goes when `conn_fd` is known. -/
def afterFd (x : EventContext) : IoPc :=
  if x.events.read then .rdRead x else afterRead x

/-- Where the treatment of an event goes after the test behind `handle_read` or `handle_write`. -/
def afterCheck (k : CloseSite) (x : EventContext) : IoPc :=
  if k = .read then afterRead x else .erTest x

/-- `handle_read` got data: its `bytes_read += n`, the state of the connection, and the copy to
process. -/
def readData (s : State n m) (t : Fin n) (x : EventContext) (data : List UInt8) (k : Kernel n) :
    State n m :=
  ((s.setKernel k).setConn x.conn (s.conns x.conn).setReading).setIo t
    { s.io t with pc := .rdCreate x data, bytesRead := (s.io t).bytesRead + data.length }

/-- `thread_pool_submit`, which blocks while the queue is full.  A refused task is forgotten. -/
def submit (cfg : Config n) (s : State n m) (t : Fin n) (x : EventContext) (task : Task) :
    Option (State n m) :=
  if s.poolShutdown || s.queueShutdown then
    some ((s.setConn task.conn (s.conns task.conn).leak).setIoPc t (.rdRead x))
  else if s.queue.length < cfg.maxSize then
    some ((s.setQueue (s.queue ++ [task])).setIoPc t (.rdRead x))
  else none

/-- `write` of `handle_write` accepted `len` bytes, with its `bytes_written += n`. -/
def wroteData (s : State n m) (t : Fin n) (x : EventContext) (len : ℕ) (k : Kernel n) : State n m :=
  ((s.setKernel k).setConn x.conn ((s.conns x.conn).advance len)).setIo t
    { s.io t with pc := .wrLoop x, bytesWritten := (s.io t).bytesWritten + len }

/-- Back to read mode: `event_loop_mod` and the state of the connection. -/
def backToRead (s : State n m) (t : Fin n) (x : EventContext) : State n m :=
  ((s.setKernel (s.kernel.eventLoopMod t (s.conns x.conn).fd .readEt x.conn)).setConn x.conn
    (s.conns x.conn).setReading).setIoPc t (.recheck .write x)

/-- `conn_mark_closing` in the loop.  `handle_read` and `handle_write` have saved `conn->fd` just
before; the hang-up branch uses the `conn_fd` read at the start of the event. -/
def markClosing (s : State n m) (t : Fin n) (k : CloseSite) (x : EventContext) : State n m :=
  let s' := s.connMarkClosing x.conn
  (s'.setConn x.conn ((s'.conns x.conn).setOwner (.closing t))).setIoPc t
    (.closeDel k x (if k = .hangup then x.fd else (s.conns x.conn).fd))

/-- The owner's `conn_release` in the loop. -/
def releaseOwner (s : State n m) (t : Fin n) (k : CloseSite) (x : EventContext) : State n m :=
  let s' := s.connRelease x.conn
  (s'.setConn x.conn ((s'.conns x.conn).setOwner (.released t))).setIoPc t
    (if k = .hangup then .next else .recheck k x)

/-- `conn_release` of a connection the event loop refused. -/
def rejectConnection (s : State n m) (t : Fin n) (c : ConnId) : State n m :=
  let s' := s.connRelease c
  (s'.setConn c ((s'.conns c).setOwner .dropped)).setIoPc t .next

@[simp] theorem markClosing_conns (s : State n m) (t : Fin n) (k : CloseSite) (x : EventContext) :
    (s.markClosing t k x).conns =
      Function.update s.conns x.conn ((s.conns x.conn).markClosing.setOwner (.closing t)) := by
  funext c
  by_cases h : c = x.conn <;> simp [markClosing, h]

@[simp] theorem releaseOwner_conns (s : State n m) (t : Fin n) (k : CloseSite) (x : EventContext) :
    (s.releaseOwner t k x).conns =
      Function.update s.conns x.conn ((s.conns x.conn).release.setOwner (.released t)) := by
  funext c
  by_cases h : c = x.conn <;> simp [releaseOwner, h]

@[simp] theorem rejectConnection_conns (s : State n m) (t : Fin n) (c : ConnId) :
    (s.rejectConnection t c).conns =
      Function.update s.conns c ((s.conns c).release.setOwner .dropped) := by
  funext c'
  by_cases h : c' = c <;> simp [rejectConnection, h]

/-- The `write` of `handle_write`. -/
def writeStep (s : State n m) (t : Fin n) (x : EventContext) (r : IoResult) : Option (State n m) :=
  let k := s.conns x.conn
  match r with
  | .wrote len room =>
    (s.kernel.writeBytes k.fd k.unsent len room).map fun k' => s.wroteData t x len k'
  | .again => if s.kernel.writeAgain k.fd then some (s.setIoPc t (.wrFinal x)) else none
  | .err => some (s.setIoPc t (.closeMark .write x))
  | _ => none

/-- The `read` of `handle_read`. -/
def readStep (s : State n m) (t : Fin n) (x : EventContext) (r : IoResult) : Option (State n m) :=
  let k := s.conns x.conn
  match r with
  | .got len => (s.kernel.readBytes k.fd len).map fun p => s.readData t x p.1 p.2
  | .eof => if s.kernel.readEof k.fd then some (s.setIoPc t (.closeMark .read x)) else none
  | .again => if s.kernel.readAgain k.fd then some (s.setIoPc t (.recheck .read x)) else none
  | .err => some (s.setIoPc t (.closeMark .read x))
  | _ => none

/-- `task_create`: the reference is taken between the two allocations, and a failure of the second
one does not give it back. -/
def createTask (s : State n m) (t : Fin n) (x : EventContext) (data : List UInt8) (r : IoResult) :
    Option (State n m) :=
  let k := s.conns x.conn
  match r with
  | .ok =>
    some ((s.setConn x.conn (k.acquire.addChunk data)).setIoPc t
      (.rdSubmit x { type := .process, conn := x.conn, data := data }))
  | .fail => some (s.setIoPc t (.rdRead x))
  | .failData => some ((s.setConn x.conn k.acquire.leak).setIoPc t (.rdRead x))
  | _ => none

/-- One step of the IO thread `t`. -/
def ioStep (cfg : Config n) (s : State n m) (t : Fin n) (r : IoResult) : Option (State n m) :=
  match (s.io t).pc with
  | .loop => some (s.setIoPc t (if (s.io t).shutdown then .stopped else .wait))
  | .wait =>
    match r with
    | .ok => some (s.setIoPc t .next)
    | .event e => if (s.io t).batch.length < maxEvents then s.collect t e else none
    | _ => none
  | .next => some (s.nextEvent t)
  | .pipeRead => some (s.readPipe t)
  | .pipeAdopt c =>
    some ((s.setConn c { s.conns c with ioThread := some t }).setIoPc t (.pipeAdd c))
  | .pipeAdd c =>
    match r with
    | .ok => some (s.addConnection t c)
    | .fail => some (s.setIoPc t (.pipeRelease c))
    | _ => none
  | .pipeRelease c => some (s.rejectConnection t c)
  | .msgRead => some (s.setIo t { s.io t with pc := .msgDrain, msgPipe := (s.io t).msgPipe - 1 })
  | .msgDrain => some (s.drainMessage t)
  | .msgCheck msg => some (s.setIoPc t (s.checkMessage msg))
  | .msgMod msg =>
    some ((s.setKernel (s.kernel.eventLoopMod t (s.conns msg.conn).fd .writeEt msg.conn)).setIoPc t
      (.msgRelease msg))
  | .msgRelease msg => some ((s.connRelease msg.conn).setIoPc t .msgDrain)
  | .evCheck x => some (s.setIoPc t (if (s.conns x.conn).isValid then .evFd x else .next))
  | .evFd x => some (s.setIoPc t (afterFd { x with fd := (s.conns x.conn).fd }))
  | .rdRead x => s.readStep t x r
  | .rdCreate x data => s.createTask t x data r
  | .rdSubmit x task => s.submit cfg t x task
  | .wrEntry x =>
    some (s.setIoPc t (if (s.conns x.conn).writeSize = 0 then .wrIdle x else .wrLoop x))
  | .wrIdle x => some (s.backToRead t x)
  | .wrLoop x =>
    if (s.conns x.conn).writePos < (s.conns x.conn).writeSize then s.writeStep t x r
    else some (s.setIoPc t (.wrFinal x))
  | .wrFinal x =>
    some (s.setIoPc t
      (if (s.conns x.conn).writeSize ≤ (s.conns x.conn).writePos then .wrReset x
       else .recheck .write x))
  | .wrReset x => some ((s.setConn x.conn (s.conns x.conn).resetWrite).setIoPc t (.wrMod x))
  | .wrMod x => some (s.backToRead t x)
  | .closeMark k x => some (s.markClosing t k x)
  | .closeDel k x fd =>
    some ((s.setKernel (s.kernel.eventLoopDel t fd)).setIoPc t (.closeRelease k x))
  | .closeRelease k x => some (s.releaseOwner t k x)
  | .recheck k x =>
    some (s.setIoPc t (if (s.conns x.conn).isValid then afterCheck k x else .next))
  | .erTest x =>
    some (s.setIoPc t
      (if x.events.error || x.events.hup then .closeMark .hangup x else .next))
  | .stopped => none

end State

end DeepInIo.AdvancedServer
