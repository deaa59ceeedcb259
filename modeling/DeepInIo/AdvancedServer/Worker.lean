import DeepInIo.AdvancedServer.State

/-!
# The worker threads

One step of `worker_thread` and of the functions it calls, `process_request`,
`io_thread_send_message` and `task_destroy`.
-/

namespace DeepInIo.AdvancedServer

namespace State

variable {n m : ℕ}

/-- `task_queue_pop`: a task, `NULL` once the queue is shut down and empty, and blocking before. -/
def popTask (s : State n m) (w : Fin m) : Option (State n m) :=
  match s.queue with
  | task :: rest => some ((s.setQueue rest).setWorker w (.check task))
  | [] => if s.queueShutdown then some (s.setWorker w .popNull) else none

/-- The `switch` over the type of a task. -/
def dispatchTask (s : State n m) (task : Task) : WorkerPc n :=
  match task.type with
  | .process => if (s.conns task.conn).isValid then .install task else .stats task
  | .close => .closeMark task
  | _ => .stats task

/-- `process_request` writes its response into the connection if the response passes the guard. -/
def installResponse (s : State n m) (w : Fin m) (task : Task) : State n m :=
  if responseFits task.data then
    (s.setConn task.conn ((s.conns task.conn).install task.data)).setWorker w (.sendTest task)
  else s.setWorker w (.sendTest task)

/-- Whether `process_request` sends its message, and to which thread. -/
def testSend (s : State n m) (task : Task) : WorkerPc n :=
  match (s.conns task.conn).ioThread with
  | some t => if (s.conns task.conn).isValid then .sendAlloc task t else .stats task
  | none => .stats task

/-- `io_thread_send_message` appends its message to the list of the IO thread `t`. -/
def linkMessage (s : State n m) (w : Fin m) (task : Task) (t : Fin n) : State n m :=
  (s.setIo t { s.io t with
    msgQueue := (s.io t).msgQueue ++ [{ type := .responseReady, conn := task.conn }] }).setWorker w
    (.sendNotify task t)

/-- The one-byte `write` of `io_thread_send_message`, which fails silently on a full pipe. -/
def notify (cfg : Config n) (s : State n m) (w : Fin m) (task : Task) (t : Fin n) : State n m :=
  if (s.io t).msgPipe < cfg.msgPipeCap then
    (s.setIo t { s.io t with msgPipe := (s.io t).msgPipe + 1, msgEdge := true }).setWorker w
      (.stats task)
  else s.setWorker w (.stats task)

/-- One step of the worker `w`; `ok` is false when the allocation at this point is refused. -/
def workerStep (cfg : Config n) (s : State n m) (w : Fin m) (ok : Bool) : Option (State n m) :=
  match s.worker w with
  | .loop => some (s.setWorker w (if s.poolShutdown then .exited else .pop))
  | .pop => s.popTask w
  | .popNull => some (s.setWorker w (if s.poolShutdown then .exited else .loop))
  | .check task => some (s.setWorker w (s.dispatchTask task))
  | .install task => some (s.installResponse w task)
  | .sendTest task => some (s.setWorker w (s.testSend task))
  | .sendAlloc task t => some (s.setWorker w (if ok then .sendAcquire task t else .stats task))
  | .sendAcquire task t =>
    some ((s.setConn task.conn (s.conns task.conn).acquire).setWorker w (.sendLink task t))
  | .sendLink task t => some (s.linkMessage w task t)
  | .sendNotify task t => some (s.notify cfg w task t)
  | .closeMark task => some ((s.connMarkClosing task.conn).setWorker w (.closeRelease task))
  | .closeRelease task => some ((s.connRelease task.conn).setWorker w (.stats task))
  | .stats task =>
    some ({ s with tasksCompleted := s.tasksCompleted + 1 }.setWorker w (.destroy task))
  | .destroy task => some ((s.connRelease task.conn).setWorker w .loop)
  | .exited => none

end State

end DeepInIo.AdvancedServer
