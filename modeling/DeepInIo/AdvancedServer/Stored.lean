import DeepInIo.AdvancedServer.Addresses
import DeepInIo.AdvancedServer.UseAfterFree

/-!
# A state in memory

`Stored α live s r` says that `r` is the state `s` when the connection `c` lies at the address
`α c`.  Where several connections have had the same address, at most one of them is `live`, and what
is found there is this one.

Both states take the same step, as long as the connections that the step inspects or changes are
live (`Stored.ioStep`, `Stored.workerStep`, `Stored.mainStep`, `Stored.envStep`).  The creation of a
connection, in which an address is chosen, is left out.
-/

namespace DeepInIo.AdvancedServer

open State

variable {n m : ℕ}

/-- The step is a `conn_create` that succeeds. -/
def State.creates (s : State n m) : Action n m → Bool
  | .main .ok =>
    match s.main with
    | .create .. => true
    | _ => false
  | _ => false

/-- Two computations that branch in the same way. -/
theorem optionRel_ite {σ τ : Type*} {R : σ → τ → Prop} {p : Prop} [Decidable p] {x x' : Option σ}
    {y y' : Option τ} (hpos : Option.Rel R x y) (hneg : Option.Rel R x' y') :
    Option.Rel R (if p then x else x') (if p then y else y') := by
  split
  · exact hpos
  · exact hneg

section stored

variable (α : ConnId → ConnId) (live : ConnId → Prop)

/-- The state `r` holds, at the addresses `α`, what `s` holds; of the connections, those that are
live. -/
structure Stored (s r : State n m) : Prop where
  kernel : r.kernel = s.kernel.readdress α
  main : r.main = s.main.readdress α
  nextThread : r.nextThread = s.nextThread
  totalConnections : r.totalConnections = s.totalConnections
  io : r.io = fun t => (s.io t).readdress α
  queue : r.queue = s.queue.map (Task.readdress α)
  queueShutdown : r.queueShutdown = s.queueShutdown
  poolShutdown : r.poolShutdown = s.poolShutdown
  tasksCompleted : r.tasksCompleted = s.tasksCompleted
  worker : r.worker = fun w => (s.worker w).readdress α
  conns : ∀ c, live c → r.conns (α c) = s.conns c
  apart : ∀ c c', live c → live c' → α c = α c' → c = c'

end stored

namespace Stored

variable {α : ConnId → ConnId} {live : ConnId → Prop} {s r : State n m} {t : Fin n} {w : Fin m}
  {c : ConnId}

theorem setKernel (h : Stored α live s r) {k k' : Kernel n} (hk : k' = k.readdress α) :
    Stored α live (s.setKernel k) (r.setKernel k') :=
  { h with kernel := hk }

theorem setMain (h : Stored α live s r) {pc pc' : MainPc n} (hpc : pc' = pc.readdress α) :
    Stored α live (s.setMain pc) (r.setMain pc') :=
  { h with main := hpc }

theorem setQueue (h : Stored α live s r) {q q' : List Task} (hq : q' = q.map (Task.readdress α)) :
    Stored α live (s.setQueue q) (r.setQueue q') :=
  { h with queue := hq }

theorem setIo (h : Stored α live s r) {th th' : IoThread} (hth : th' = th.readdress α) :
    Stored α live (s.setIo t th) (r.setIo t th') where
  __ := h
  io := by
    funext t'
    rw [setIo_io, h.io, hth]
    by_cases ht : t' = t
    · subst ht
      rw [Function.update_self, setIo_io, Function.update_self]
    · rw [Function.update_of_ne ht, setIo_io, Function.update_of_ne ht]

theorem setIoPc (h : Stored α live s r) {pc pc' : IoPc} (hpc : pc' = pc.readdress α) :
    Stored α live (s.setIoPc t pc) (r.setIoPc t pc') := by
  have hth : { r.io t with pc := pc' } = IoThread.readdress α { s.io t with pc := pc } := by
    rw [h.io, hpc]
    rfl
  exact h.setIo hth

theorem setWorker (h : Stored α live s r) {pc pc' : WorkerPc n} (hpc : pc' = pc.readdress α) :
    Stored α live (s.setWorker w pc) (r.setWorker w pc') where
  __ := h
  worker := by
    funext w'
    rw [setWorker_worker, h.worker, hpc]
    by_cases hw : w' = w
    · subst hw
      rw [Function.update_self, setWorker_worker, Function.update_self]
    · rw [Function.update_of_ne hw, setWorker_worker, Function.update_of_ne hw]

/-- No live connection lies on another one. -/
theorem setConn (h : Stored α live s r) (hc : live c) {k k' : Conn n} (hk : k' = k) :
    Stored α live (s.setConn c k) (r.setConn (α c) k') where
  __ := h
  conns c' hc' := by
    rw [setConn_conns, setConn_conns, hk]
    by_cases heq : c' = c
    · subst heq
      rw [Function.update_self, Function.update_self]
    · have hne : α c' ≠ α c := fun hα => heq (h.apart c' c hc' hc hα)
      rw [Function.update_of_ne hne, Function.update_of_ne heq]
      exact h.conns c' hc'

theorem connRelease (h : Stored α live s r) (hc : live c) :
    Stored α live (s.connRelease c) (r.connRelease (α c)) := by
  have hconn := h.setConn hc (congrArg Conn.release (h.conns c hc))
  refine { hconn with kernel := ?_ }
  rw [connRelease_kernel, connRelease_kernel, h.conns c hc, h.kernel]
  split
  · exact (Kernel.readdress_close ..).symm
  · rfl

theorem connMarkClosing (h : Stored α live s r) (hc : live c) :
    Stored α live (s.connMarkClosing c) (r.connMarkClosing (α c)) := by
  have hconn := h.setConn hc (congrArg Conn.markClosing (h.conns c hc))
  refine { hconn with kernel := ?_ }
  rw [connMarkClosing_kernel, connMarkClosing_kernel, h.conns c hc, h.kernel]
  split
  · rfl
  · exact (Kernel.readdress_close ..).symm

/-! ### The IO thread -/

theorem collect (h : Stored α live s r) (e : Ready) :
    Option.Rel (Stored α live) (s.collect t e) (r.collect t e) := by
  cases e with
  | pipe =>
    simp only [State.collect, h.io, IoThread.readdress_pipeEdge]
    exact optionRel_ite (.some (h.setIo (by simp [IoThread.readdress, Event.readdress]))) .none
  | msgPipe =>
    simp only [State.collect, h.io, IoThread.readdress_msgEdge]
    exact optionRel_ite (.some (h.setIo (by simp [IoThread.readdress, Event.readdress]))) .none
  | fd f ev =>
    simp only [State.collect, h.kernel, Kernel.readdress_reg]
    cases hreg : s.kernel.reg t f with
    | none => exact .none
    | some reg =>
      refine .some ((h.setKernel ?_).setIo ?_)
      · rw [Kernel.readdress_setReg]
        rfl
      · simp [h.io, IoThread.readdress, Event.readdress]

theorem nextEvent (h : Stored α live s r) : Stored α live (s.nextEvent t) (r.nextEvent t) := by
  have hbatch : (r.io t).batch = (s.io t).batch.map (Event.readdress α) := by rw [h.io]; rfl
  unfold State.nextEvent
  rw [hbatch]
  cases hb : (s.io t).batch with
  | nil => exact h.setIoPc rfl
  | cons e rest =>
    cases e <;>
      exact h.setIo (by simp [h.io, IoThread.readdress, IoPc.readdress, EventContext.readdress])

theorem readPipe (h : Stored α live s r) (hc : ∀ c, (s.io t).pipe.head? = some (.conn c) → live c) :
    Stored α live (s.readPipe t) (r.readPipe t) := by
  have hpipe : (r.io t).pipe = (s.io t).pipe.map (PipeItem.readdress α) := by rw [h.io]; rfl
  unfold State.readPipe
  rw [hpipe]
  cases hp : (s.io t).pipe with
  | nil => exact h.setIoPc rfl
  | cons item rest =>
    cases item with
    | wake => exact h.setIo (by simp [h.io, IoThread.readdress, IoPc.readdress])
    | conn c =>
      have hlast := hc c (by rw [hp]; rfl)
      refine (h.setConn hlast ?_).setIo (by simp [h.io, IoThread.readdress, IoPc.readdress])
      rw [h.conns c hlast]

theorem addConnection (h : Stored α live s r) (hc : live c) :
    Stored α live (s.addConnection t c) (r.addConnection t (α c)) := by
  unfold State.addConnection
  rw [h.kernel, h.conns c hc, Kernel.eventLoopAdd_readdress]
  cases s.kernel.eventLoopAdd t (s.conns c).fd .readEt c with
  | none => exact h.setIoPc rfl
  | some k =>
    have hkernel : Stored α live (s.setKernel k) (r.setKernel (k.readdress α)) := h.setKernel rfl
    refine (hkernel.setConn hc rfl).setIo ?_
    simp [h.io, IoThread.readdress, IoPc.readdress]

theorem drainMessage (h : Stored α live s r) :
    Stored α live (s.drainMessage t) (r.drainMessage t) := by
  have hqueue : (r.io t).msgQueue = (s.io t).msgQueue.map (IoMessage.readdress α) := by
    rw [h.io]; rfl
  unfold State.drainMessage
  rw [hqueue]
  cases hq : (s.io t).msgQueue with
  | nil => exact h.setIoPc rfl
  | cons msg rest => exact h.setIo (by simp [h.io, IoThread.readdress, IoPc.readdress])

theorem checkMessage (h : Stored α live s r) {msg : IoMessage} (hc : live msg.conn) :
    r.checkMessage (msg.readdress α) = (s.checkMessage msg).readdress α := by
  unfold State.checkMessage
  rw [IoMessage.readdress_conn, h.conns _ hc, IoMessage.readdress_type]
  split <;> rfl

theorem readData (h : Stored α live s r) {x : EventContext} (hc : live x.conn)
    (data : List UInt8) (k : Kernel n) :
    Stored α live (s.readData t x data k) (r.readData t (x.readdress α) data (k.readdress α)) := by
  have hkernel : Stored α live (s.setKernel k) (r.setKernel (k.readdress α)) := h.setKernel rfl
  refine (hkernel.setConn hc ?_).setIo ?_
  · rw [EventContext.readdress_conn, h.conns _ hc]
  · simp [h.io, IoThread.readdress, IoPc.readdress]

theorem readStep (h : Stored α live s r) {x : EventContext} (hc : live x.conn) (res : IoResult) :
    Option.Rel (Stored α live) (s.readStep t x res) (r.readStep t (x.readdress α) res) := by
  unfold State.readStep
  rw [EventContext.readdress_conn, h.conns _ hc, h.kernel]
  cases res with
  | got len =>
    simp only [Kernel.readBytes_readdress, Option.map_map]
    cases s.kernel.readBytes (s.conns x.conn).fd len with
    | none => exact .none
    | some p => exact .some (h.readData hc p.1 p.2)
  | eof => exact optionRel_ite (.some (h.setIoPc rfl)) .none
  | again => exact optionRel_ite (.some (h.setIoPc rfl)) .none
  | err => exact .some (h.setIoPc rfl)
  | ok | fail | failData | event | wrote => exact .none

theorem createTask (h : Stored α live s r) {x : EventContext} (hc : live x.conn)
    (data : List UInt8) (res : IoResult) :
    Option.Rel (Stored α live) (s.createTask t x data res)
      (r.createTask t (x.readdress α) data res) := by
  unfold State.createTask
  rw [EventContext.readdress_conn, h.conns _ hc]
  cases res with
  | ok => exact .some ((h.setConn hc rfl).setIoPc rfl)
  | fail => exact .some (h.setIoPc rfl)
  | failData => exact .some ((h.setConn hc rfl).setIoPc rfl)
  | event | got | eof | again | err | wrote => exact .none

theorem submit (h : Stored α live s r) {cfg : Config n} {x : EventContext} {task : Task}
    (hc : live task.conn) :
    Option.Rel (Stored α live) (s.submit cfg t x task)
      (r.submit cfg t (x.readdress α) (task.readdress α)) := by
  unfold State.submit
  rw [h.poolShutdown, h.queueShutdown, h.queue, List.length_map, Task.readdress_conn, h.conns _ hc]
  refine optionRel_ite (.some ((h.setConn hc rfl).setIoPc rfl)) ?_
  exact optionRel_ite (.some ((h.setQueue (by simp)).setIoPc rfl)) .none

theorem wroteData (h : Stored α live s r) {x : EventContext} (hc : live x.conn)
    (len : ℕ) (k : Kernel n) :
    Stored α live (s.wroteData t x len k) (r.wroteData t (x.readdress α) len (k.readdress α)) := by
  have hkernel : Stored α live (s.setKernel k) (r.setKernel (k.readdress α)) := h.setKernel rfl
  refine (hkernel.setConn hc ?_).setIo ?_
  · rw [EventContext.readdress_conn, h.conns _ hc]
  · simp [h.io, IoThread.readdress, IoPc.readdress]

theorem writeStep (h : Stored α live s r) {x : EventContext} (hc : live x.conn) (res : IoResult) :
    Option.Rel (Stored α live) (s.writeStep t x res) (r.writeStep t (x.readdress α) res) := by
  unfold State.writeStep
  rw [EventContext.readdress_conn, h.conns _ hc, h.kernel]
  cases res with
  | wrote len room =>
    simp only [Kernel.writeBytes_readdress, Option.map_map]
    cases s.kernel.writeBytes (s.conns x.conn).fd (s.conns x.conn).unsent len room with
    | none => exact .none
    | some k => exact .some (h.wroteData hc len k)
  | again => exact optionRel_ite (.some (h.setIoPc rfl)) .none
  | err => exact .some (h.setIoPc rfl)
  | ok | fail | failData | event | got | eof => exact .none

theorem backToRead (h : Stored α live s r) {x : EventContext} (hc : live x.conn) :
    Stored α live (s.backToRead t x) (r.backToRead t (x.readdress α)) := by
  unfold State.backToRead
  rw [EventContext.readdress_conn, h.conns _ hc, h.kernel]
  exact ((h.setKernel (Kernel.eventLoopMod_readdress ..)).setConn hc rfl).setIoPc rfl

theorem markClosing (h : Stored α live s r) {x : EventContext} (hc : live x.conn)
    (k : CloseSite) : Stored α live (s.markClosing t k x) (r.markClosing t k (x.readdress α)) := by
  have hmarked := h.connMarkClosing hc
  refine (hmarked.setConn hc ?_).setIoPc ?_
  · rw [EventContext.readdress_conn, hmarked.conns x.conn hc]
  · rw [EventContext.readdress_conn, h.conns _ hc]
    rfl

theorem releaseOwner (h : Stored α live s r) {x : EventContext} (hc : live x.conn)
    (k : CloseSite) :
    Stored α live (s.releaseOwner t k x) (r.releaseOwner t k (x.readdress α)) := by
  have hreleased := h.connRelease hc
  refine (hreleased.setConn hc ?_).setIoPc ?_
  · rw [EventContext.readdress_conn, hreleased.conns x.conn hc]
  · split <;> rfl

theorem rejectConnection (h : Stored α live s r) (hc : live c) :
    Stored α live (s.rejectConnection t c) (r.rejectConnection t (α c)) := by
  have hreleased := h.connRelease hc
  refine (hreleased.setConn hc ?_).setIoPc rfl
  rw [hreleased.conns c hc]

/-- A step of an IO thread. -/
theorem ioStep (h : Stored α live s r) {cfg : Config n}
    (hlast : ∀ c, (s.io t).pc.access? = some c → live c)
    (hpipe : ∀ c, (s.io t).pipe.head? = some (.conn c) → live c)
    (hsubmit : ∀ x task, (s.io t).pc = .rdSubmit x task → task.conn = x.conn) (res : IoResult) :
    Option.Rel (Stored α live) (s.ioStep cfg t res) (r.ioStep cfg t res) := by
  have hpc' : (r.io t).pc = (s.io t).pc.readdress α := by rw [h.io]; rfl
  unfold State.ioStep
  rw [hpc']
  cases hpc : (s.io t).pc with
  | loop =>
    refine .some (h.setIoPc ?_)
    rw [h.io]
    simp only [IoThread.readdress_shutdown]
    split <;> rfl
  | wait =>
    cases res with
    | ok => exact .some (h.setIoPc rfl)
    | event e =>
      simp only [IoPc.readdress, h.io, IoThread.readdress_batch, List.length_map]
      exact optionRel_ite (h.collect e) .none
    | _ => exact .none
  | next => exact .some h.nextEvent
  | pipeRead => exact .some (h.readPipe hpipe)
  | pipeAdopt c =>
    have hc := hlast c (by rw [hpc]; rfl)
    refine .some ((h.setConn hc ?_).setIoPc rfl)
    rw [h.conns c hc]
  | pipeAdd c =>
    have hc := hlast c (by rw [hpc]; rfl)
    cases res with
    | ok => exact .some (h.addConnection hc)
    | fail => exact .some (h.setIoPc rfl)
    | _ => exact .none
  | pipeRelease c => exact .some (h.rejectConnection (hlast c (by rw [hpc]; rfl)))
  | msgRead => exact .some (h.setIo (by simp [h.io, IoThread.readdress, IoPc.readdress]))
  | msgDrain => exact .some h.drainMessage
  | msgCheck msg => exact .some (h.setIoPc (h.checkMessage (hlast _ (by rw [hpc]; rfl))))
  | msgMod msg =>
    have hc := hlast msg.conn (by rw [hpc]; rfl)
    simp only [IoPc.readdress, IoMessage.readdress_conn, h.conns _ hc, h.kernel]
    exact .some ((h.setKernel (Kernel.eventLoopMod_readdress ..)).setIoPc rfl)
  | msgRelease msg =>
    have hc := hlast msg.conn (by rw [hpc]; rfl)
    exact .some ((h.connRelease hc).setIoPc rfl)
  | evCheck x =>
    have hc := hlast x.conn (by rw [hpc]; rfl)
    simp only [IoPc.readdress, EventContext.readdress_conn, h.conns _ hc]
    refine .some (h.setIoPc ?_)
    split <;> rfl
  | evFd x =>
    have hc := hlast x.conn (by rw [hpc]; rfl)
    simp only [IoPc.readdress, EventContext.readdress_conn, h.conns _ hc]
    exact .some (h.setIoPc (readdress_afterFd α { x with fd := (s.conns x.conn).fd }).symm)
  | rdRead x => exact h.readStep (hlast _ (by rw [hpc]; rfl)) res
  | rdCreate x data => exact h.createTask (hlast _ (by rw [hpc]; rfl)) data res
  | rdSubmit x task =>
    have hc := hlast x.conn (by rw [hpc]; rfl)
    rw [← hsubmit x task hpc] at hc
    exact h.submit hc
  | wrEntry x =>
    have hc := hlast x.conn (by rw [hpc]; rfl)
    simp only [IoPc.readdress, EventContext.readdress_conn, h.conns _ hc]
    refine .some (h.setIoPc ?_)
    split <;> rfl
  | wrIdle x => exact .some (h.backToRead (hlast _ (by rw [hpc]; rfl)))
  | wrLoop x =>
    have hc := hlast x.conn (by rw [hpc]; rfl)
    simp only [IoPc.readdress, EventContext.readdress_conn, h.conns _ hc]
    exact optionRel_ite (h.writeStep hc res) (.some (h.setIoPc rfl))
  | wrFinal x =>
    have hc := hlast x.conn (by rw [hpc]; rfl)
    simp only [IoPc.readdress, EventContext.readdress_conn, h.conns _ hc]
    refine .some (h.setIoPc ?_)
    split <;> rfl
  | wrReset x =>
    have hc := hlast x.conn (by rw [hpc]; rfl)
    simp only [IoPc.readdress, EventContext.readdress_conn, h.conns _ hc]
    exact .some ((h.setConn hc rfl).setIoPc rfl)
  | wrMod x => exact .some (h.backToRead (hlast _ (by rw [hpc]; rfl)))
  | closeMark k x => exact .some (h.markClosing (hlast _ (by rw [hpc]; rfl)) k)
  | closeDel k x fd =>
    refine .some ((h.setKernel ?_).setIoPc rfl)
    rw [h.kernel]
    exact Kernel.eventLoopDel_readdress ..
  | closeRelease k x => exact .some (h.releaseOwner (hlast _ (by rw [hpc]; rfl)) k)
  | recheck k x =>
    have hc := hlast x.conn (by rw [hpc]; rfl)
    simp only [IoPc.readdress, EventContext.readdress_conn, h.conns _ hc]
    refine .some (h.setIoPc ?_)
    split
    · exact (readdress_afterCheck ..).symm
    · rfl
  | erTest x =>
    refine .some (h.setIoPc ?_)
    simp only [EventContext.readdress_events]
    split <;> rfl
  | stopped => exact .none

/-! ### The workers, the main thread and the clients -/

theorem popTask (h : Stored α live s r) :
    Option.Rel (Stored α live) (s.popTask w) (r.popTask w) := by
  unfold State.popTask
  rw [h.queue, h.queueShutdown]
  cases hq : s.queue with
  | nil => exact optionRel_ite (.some (h.setWorker rfl)) .none
  | cons task rest => exact .some ((h.setQueue rfl).setWorker rfl)

theorem dispatchTask (h : Stored α live s r) {task : Task} (hc : live task.conn) :
    r.dispatchTask (task.readdress α) = (s.dispatchTask task).readdress α := by
  unfold State.dispatchTask
  rw [Task.readdress_type, Task.readdress_conn, h.conns _ hc]
  cases task.type with
  | process => dsimp only; split <;> rfl
  | read | write | close => rfl

theorem testSend (h : Stored α live s r) {task : Task} (hc : live task.conn) :
    r.testSend (task.readdress α) = (s.testSend task).readdress α := by
  unfold State.testSend
  rw [Task.readdress_conn, h.conns _ hc]
  cases (s.conns task.conn).ioThread with
  | none => rfl
  | some t => dsimp only; split <;> rfl

theorem installResponse (h : Stored α live s r) {task : Task} (hc : live task.conn) :
    Stored α live (s.installResponse w task) (r.installResponse w (task.readdress α)) := by
  unfold State.installResponse
  rw [Task.readdress_data, Task.readdress_conn, h.conns _ hc]
  split
  · exact (h.setConn hc rfl).setWorker rfl
  · exact h.setWorker rfl

theorem linkMessage (h : Stored α live s r) (task : Task) :
    Stored α live (s.linkMessage w task t) (r.linkMessage w (task.readdress α) t) := by
  refine (h.setIo ?_).setWorker rfl
  simp [h.io, IoThread.readdress, IoMessage.readdress]

theorem notify (h : Stored α live s r) (cfg : Config n) (task : Task) :
    Stored α live (s.notify cfg w task t) (r.notify cfg w (task.readdress α) t) := by
  unfold State.notify
  simp only [h.io, IoThread.readdress_msgPipe]
  split
  · exact (h.setIo (by simp [IoThread.readdress])).setWorker rfl
  · exact h.setWorker rfl

/-- A step of a worker. -/
theorem workerStep (h : Stored α live s r) {cfg : Config n}
    (hlast : ∀ c, (s.worker w).access? = some c → live c) (ok : Bool) :
    Option.Rel (Stored α live) (s.workerStep cfg w ok) (r.workerStep cfg w ok) := by
  have hpc' : r.worker w = (s.worker w).readdress α := by rw [h.worker]
  unfold State.workerStep
  rw [hpc']
  cases hpc : s.worker w with
  | loop | popNull =>
    refine .some (h.setWorker ?_)
    rw [h.poolShutdown]
    split <;> rfl
  | pop => exact h.popTask
  | check task => exact .some (h.setWorker (h.dispatchTask (hlast _ (by rw [hpc]; rfl))))
  | install task => exact .some (h.installResponse (hlast _ (by rw [hpc]; rfl)))
  | sendTest task => exact .some (h.setWorker (h.testSend (hlast _ (by rw [hpc]; rfl))))
  | sendAlloc task t =>
    refine .some (h.setWorker ?_)
    split <;> rfl
  | sendAcquire task t =>
    have hc := hlast task.conn (by rw [hpc]; rfl)
    exact .some ((h.setConn hc (congrArg Conn.acquire (h.conns _ hc))).setWorker rfl)
  | sendLink task t => exact .some (h.linkMessage task)
  | sendNotify task t => exact .some (h.notify cfg task)
  | closeMark task =>
    have hc := hlast task.conn (by rw [hpc]; rfl)
    exact .some ((h.connMarkClosing hc).setWorker rfl)
  | closeRelease task | destroy task =>
    have hc := hlast task.conn (by rw [hpc]; rfl)
    exact .some ((h.connRelease hc).setWorker rfl)
  | stats task =>
    have hcount : Stored α live { s with tasksCompleted := s.tasksCompleted + 1 }
        { r with tasksCompleted := r.tasksCompleted + 1 } :=
      { h with tasksCompleted := congrArg (· + 1) h.tasksCompleted }
    exact .some (hcount.setWorker rfl)
  | exited => exact .none

theorem acceptSocket (h : Stored α live s r) (f : Fd) :
    Option.Rel (Stored α live) (s.acceptSocket f) (r.acceptSocket f) := by
  unfold State.acceptSocket
  simp only [h.kernel, Kernel.readdress_backlog, Kernel.readdress_fds, Kernel.readdress_nextSock]
  exact optionRel_ite (.some ((h.setKernel rfl).setMain rfl)) .none

theorem getThread (h : Stored α live s r) (f : Fd) (sk : SockId) :
    Stored α live (s.getThread f sk) (r.getThread f sk) := by
  unfold State.getThread
  simp only [h.nextThread]
  split
  · exact { h with nextThread := rfl, main := rfl }
  · exact h.setMain rfl

theorem handOff (h : Stored α live s r) (hc : live c) :
    Stored α live (s.handOff t c) (r.handOff t (α c)) := by
  have hconn := h.setConn hc (congrArg (Conn.setOwner · (.pipe t)) (h.conns c hc))
  have hth : { r.io t with
      pipe := (r.io t).pipe ++ [.conn (α c)]
      pipeEdge := true
      coalesced := (r.io t).coalesced + (r.io t).pipeEdge.toNat } =
      IoThread.readdress α { s.io t with
        pipe := (s.io t).pipe ++ [.conn c]
        pipeEdge := true
        coalesced := (s.io t).coalesced + (s.io t).pipeEdge.toNat } := by
    simp [h.io, IoThread.readdress, PipeItem.readdress]
  have hio := hconn.setIo (t := t) hth
  exact { hio with
    totalConnections := congrArg (· + 1) h.totalConnections
    main := rfl }

theorem dropConnection (h : Stored α live s r) (hc : live c) (f : Fd) (sk : SockId) :
    Stored α live (s.dropConnection c f sk) (r.dropConnection (α c) f sk) := by
  have hreleased := h.connRelease hc
  refine (hreleased.setConn hc ?_).setMain rfl
  rw [hreleased.conns c hc]

theorem readdress_nextDestroy (i : ℕ) :
    (nextDestroy n i).readdress α = nextDestroy n i := by
  unfold nextDestroy
  split <;> rfl

theorem ioDestroyStep (h : Stored α live s r) (cfg : Config n) (res : MainResult)
    (stage : DestroyStage) :
    Option.Rel (Stored α live) (s.ioDestroyStep cfg t res stage)
      (r.ioDestroyStep cfg t res stage) := by
  have hclose : ∀ o, r.kernel.close o = (s.kernel.close o).readdress α := by
    intro o
    rw [h.kernel, Kernel.readdress_close]
  cases stage with
  | flag => exact .some ((h.setIo (by simp [h.io, IoThread.readdress])).setMain rfl)
  | wake =>
    refine optionRel_ite (.some ((h.setIo ?_).setMain rfl))
      (optionRel_ite (.some (h.setMain rfl)) .none)
    simp [h.io, IoThread.readdress, PipeItem.readdress]
  | join =>
    have hstopped : (r.io t).pc = .stopped ↔ (s.io t).pc = .stopped := by
      rw [h.io]
      exact IoPc.readdress_eq_stopped α
    simp only [State.ioDestroyStep, hstopped]
    exact optionRel_ite (.some (h.setMain rfl)) .none
  | loop =>
    refine .some ((h.setKernel ?_).setMain rfl)
    rw [hclose, Kernel.readdress_dropLoop]
  | close0 | close1 => exact .some ((h.setKernel (hclose _)).setMain rfl)
  | free =>
    refine .some ((h.setIo ?_).setMain (readdress_nextDestroy _).symm)
    simp [h.io, IoThread.readdress]

theorem destroyTask (h : Stored α live s r)
    (hlast : ∀ task, s.queue.head? = some task → live task.conn) :
    Stored α live s.destroyTask r.destroyTask := by
  unfold State.destroyTask
  rw [h.queue]
  cases hq : s.queue with
  | nil => exact h.setMain rfl
  | cons task rest => exact (h.connRelease (hlast task (by rw [hq]; rfl))).setQueue rfl

/-- A step of the main thread that creates no connection. -/
theorem mainStep (h : Stored α live s r) {cfg : Config n}
    (hlast : ∀ c, s.mainAccess = some c → live c) (res : MainResult)
    (hno : s.creates (.main res) = false) :
    Option.Rel (Stored α live) (s.mainStep cfg res) (r.mainStep cfg res) := by
  have hclose : ∀ o, r.kernel.close o = (s.kernel.close o).readdress α := by
    intro o
    rw [h.kernel, Kernel.readdress_close]
  unfold State.mainStep
  rw [h.main]
  cases hpc : s.main with
  | wait =>
    cases res with
    | ok =>
      simp only [MainPc.readdress, h.kernel, Kernel.readdress_listenEdge]
      exact optionRel_ite (.some ((h.setKernel rfl).setMain rfl)) .none
    | stop => exact .some (h.setMain rfl)
    | _ => exact .none
  | accept =>
    cases res with
    | accepted f => exact h.acceptSocket f
    | again =>
      simp only [MainPc.readdress, h.kernel, Kernel.readdress_backlog]
      exact optionRel_ite (.some (h.setMain rfl)) .none
    | intr => exact .some h
    | fail => exact .some (h.setMain rfl)
    | _ => exact .none
  | getThread f sk => exact .some (h.getThread f sk)
  | create t f sk =>
    cases res with
    | ok => simp [State.creates, hpc] at hno
    | fail => exact .some (h.setMain rfl)
    | _ => exact .none
  | handoff t c f sk =>
    have hc := hlast c (by simp [State.mainAccess, hpc])
    cases res with
    | ok =>
      simp only [MainPc.readdress, h.io, IoThread.readdress_pipe, List.length_map]
      exact optionRel_ite (.some (h.handOff hc)) .none
    | fail => exact .some (h.setMain rfl)
    | _ => exact .none
  | drop c f sk =>
    have hc := hlast c (by simp [State.mainAccess, hpc])
    exact .some (h.dropConnection hc f sk)
  | closeClient f sk => exact .some ((h.setKernel (hclose _)).setMain rfl)
  | closeListen => exact .some ((h.setKernel (hclose _)).setMain rfl)
  | destroyLoop =>
    exact .some ((h.setKernel (hclose _)).setMain (readdress_nextDestroy 0).symm)
  | ioDestroy t stage => exact h.ioDestroyStep cfg res stage
  | poolShutdown =>
    have hflag : Stored α live { s with poolShutdown := true } { r with poolShutdown := true } :=
      { h with poolShutdown := rfl }
    exact .some (hflag.setMain rfl)
  | queueShutdown =>
    have hflag : Stored α live { s with queueShutdown := true } { r with queueShutdown := true } :=
      { h with queueShutdown := rfl }
    exact .some (hflag.setMain rfl)
  | joinWorkers =>
    have hexited : (∀ w, r.worker w = .exited) ↔ ∀ w, s.worker w = .exited := by
      rw [h.worker]
      exact forall_congr' fun w => WorkerPc.readdress_eq_exited α
    simp only [MainPc.readdress, hexited]
    exact optionRel_ite (.some (h.setMain rfl)) .none
  | queueDestroy =>
    refine .some (h.destroyTask fun task htask => hlast _ ?_)
    rw [State.mainAccess, hpc, htask]
    rfl
  | done => exact .none

/-- A step of the clients. -/
theorem envStep (h : Stored α live s r) (e : Environment) :
    Option.Rel (Stored α live) (s.envStep e) (r.envStep e) := by
  cases e with
  | arrive => exact .some (h.setKernel (by rw [h.kernel]; rfl))
  | data f bytes | peerClose f | drain f =>
    simp only [State.envStep, h.kernel, Kernel.sockAt_readdress]
    cases s.kernel.sockAt (some f) with
    | none => exact .none
    | some sk =>
      refine .some (h.setKernel ?_)
      rw [← Kernel.signal_readdress, Kernel.readdress_setSock]
      rfl

end Stored

end DeepInIo.AdvancedServer
