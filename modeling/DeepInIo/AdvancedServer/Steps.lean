import DeepInIo.AdvancedServer.Server

/-!
# What a step can do

The step functions are computed; the relations of this file say for each thread what its steps can
do to the state.  Steps that only move a thread to another program point are collected in `IoMove`
and `WorkerMove`.  The four lemmas `ioStep_spec`, `workerStep_spec`, `mainStep_spec` and
`envStep_spec` are the only place where the step functions are taken apart; every invariant is
proved by cases on the relations.
-/

namespace DeepInIo.AdvancedServer

open State

variable {n m : ℕ}

/-- The steps of an IO thread that only change its program point. -/
inductive IoMove (s : State n m) (t : Fin n) : IoPc → IoPc → Prop
  | stop (h : (s.io t).shutdown = true) : IoMove s t .loop .stopped
  | wait (h : (s.io t).shutdown = false) : IoMove s t .loop .wait
  | returned : IoMove s t .wait .next
  | batchDone (h : (s.io t).batch = []) : IoMove s t .next .loop
  | pipeEmpty (h : (s.io t).pipe = []) : IoMove s t .pipeRead .next
  | addFailed (c : ConnId) : IoMove s t (.pipeAdd c) (.pipeRelease c)
  | drained (h : (s.io t).msgQueue = []) : IoMove s t .msgDrain .next
  | msgValid (msg : IoMessage) (h : (s.conns msg.conn).isValid = true) :
      IoMove s t (.msgCheck msg) (.msgMod msg)
  | msgSkip (msg : IoMessage)
      (h : msg.type = .responseReady → (s.conns msg.conn).isValid = false) :
      IoMove s t (.msgCheck msg) (.msgRelease msg)
  | evValid (x : EventContext) (h : (s.conns x.conn).isValid = true) :
      IoMove s t (.evCheck x) (.evFd x)
  | evInvalid (x : EventContext) (h : (s.conns x.conn).isValid = false) :
      IoMove s t (.evCheck x) .next
  | fdLoaded (x : EventContext) :
      IoMove s t (.evFd x) (afterFd { x with fd := (s.conns x.conn).fd })
  | readAgain (x : EventContext) (h : s.kernel.readAgain (s.conns x.conn).fd = true) :
      IoMove s t (.rdRead x) (.recheck .read x)
  | readClose (x : EventContext) : IoMove s t (.rdRead x) (.closeMark .read x)
  | createFailed (x : EventContext) (data : List UInt8) : IoMove s t (.rdCreate x data) (.rdRead x)
  | writeNothing (x : EventContext) (h : (s.conns x.conn).writeSize = 0) :
      IoMove s t (.wrEntry x) (.wrIdle x)
  | writeSome (x : EventContext) (h : (s.conns x.conn).writeSize ≠ 0) :
      IoMove s t (.wrEntry x) (.wrLoop x)
  | writeDone (x : EventContext) (h : (s.conns x.conn).writeSize ≤ (s.conns x.conn).writePos) :
      IoMove s t (.wrLoop x) (.wrFinal x)
  | writeAgain (x : EventContext) (h : s.kernel.writeAgain (s.conns x.conn).fd = true) :
      IoMove s t (.wrLoop x) (.wrFinal x)
  | writeErr (x : EventContext) : IoMove s t (.wrLoop x) (.closeMark .write x)
  | finalDone (x : EventContext) (h : (s.conns x.conn).writeSize ≤ (s.conns x.conn).writePos) :
      IoMove s t (.wrFinal x) (.wrReset x)
  | finalMore (x : EventContext) (h : (s.conns x.conn).writePos < (s.conns x.conn).writeSize) :
      IoMove s t (.wrFinal x) (.recheck .write x)
  | stillValid (k : CloseSite) (x : EventContext) (h : (s.conns x.conn).isValid = true) :
      IoMove s t (.recheck k x) (afterCheck k x)
  | nowInvalid (k : CloseSite) (x : EventContext) (h : (s.conns x.conn).isValid = false) :
      IoMove s t (.recheck k x) .next
  | hangup (x : EventContext) : IoMove s t (.erTest x) (.closeMark .hangup x)
  | noHangup (x : EventContext) : IoMove s t (.erTest x) .next

/-- What a step of the IO thread `t` can do. -/
inductive IoStep (cfg : Config n) (s : State n m) (t : Fin n) : State n m → Prop
  | move {pc' : IoPc} (h : IoMove s t (s.io t).pc pc') : IoStep cfg s t (s.setIoPc t pc')
  | collectPipe (hpc : (s.io t).pc = .wait) (he : (s.io t).pipeEdge = true) :
      IoStep cfg s t
        (s.setIo t { s.io t with pipeEdge := false, batch := (s.io t).batch ++ [.pipe] })
  | collectMsg (hpc : (s.io t).pc = .wait) (he : (s.io t).msgEdge = true) :
      IoStep cfg s t
        (s.setIo t { s.io t with msgEdge := false, batch := (s.io t).batch ++ [.msgPipe] })
  | collectFd {f : Fd} {ev : EventMask} {r : Registration} (hpc : (s.io t).pc = .wait)
      (hr : s.kernel.reg t f = some r) :
      IoStep cfg s t
        ((s.setKernel (s.kernel.setReg t f (some { r with
          pendRead := r.pendRead && !ev.read
          pendWrite := r.pendWrite && !ev.write }))).setIo t
          { s.io t with batch := (s.io t).batch ++ [.conn r.data ev] })
  | nextPipe {rest : List Event} (hpc : (s.io t).pc = .next)
      (hb : (s.io t).batch = .pipe :: rest) :
      IoStep cfg s t (s.setIo t { s.io t with pc := .pipeRead, batch := rest })
  | nextMsg {rest : List Event} (hpc : (s.io t).pc = .next)
      (hb : (s.io t).batch = .msgPipe :: rest) :
      IoStep cfg s t (s.setIo t { s.io t with pc := .msgRead, batch := rest })
  | nextConn {c : ConnId} {ev : EventMask} {rest : List Event} (hpc : (s.io t).pc = .next)
      (hb : (s.io t).batch = .conn c ev :: rest) :
      IoStep cfg s t (s.setIo t { s.io t with
        pc := .evCheck { conn := c, events := ev, fd := none }, batch := rest })
  | readWake {rest : List PipeItem} (hpc : (s.io t).pc = .pipeRead)
      (hp : (s.io t).pipe = .wake :: rest) :
      IoStep cfg s t (s.setIo t { s.io t with pc := .next, pipe := rest })
  | readConn {c : ConnId} {rest : List PipeItem} (hpc : (s.io t).pc = .pipeRead)
      (hp : (s.io t).pipe = .conn c :: rest) :
      IoStep cfg s t
        ((s.setConn c ((s.conns c).setOwner (.adopter t))).setIo t
          { s.io t with pc := .pipeAdopt c, pipe := rest })
  | adopt {c : ConnId} (hpc : (s.io t).pc = .pipeAdopt c) :
      IoStep cfg s t ((s.setConn c { s.conns c with ioThread := some t }).setIoPc t (.pipeAdd c))
  | register {c : ConnId} {k : Kernel n} (hpc : (s.io t).pc = .pipeAdd c)
      (hk : s.kernel.eventLoopAdd t (s.conns c).fd .readEt c = some k) :
      IoStep cfg s t
        (((s.setKernel k).setConn c ((s.conns c).setOwner (.registered t))).setIo t
          { s.io t with pc := .next, connectionsHandled := (s.io t).connectionsHandled + 1 })
  | reject {c : ConnId} (hpc : (s.io t).pc = .pipeRelease c) :
      IoStep cfg s t (s.rejectConnection t c)
  | msgRead (hpc : (s.io t).pc = .msgRead) :
      IoStep cfg s t (s.setIo t { s.io t with pc := .msgDrain, msgPipe := (s.io t).msgPipe - 1 })
  | drain {msg : IoMessage} {rest : List IoMessage} (hpc : (s.io t).pc = .msgDrain)
      (hq : (s.io t).msgQueue = msg :: rest) :
      IoStep cfg s t (s.setIo t { s.io t with pc := .msgCheck msg, msgQueue := rest })
  | msgMod {msg : IoMessage} (hpc : (s.io t).pc = .msgMod msg) :
      IoStep cfg s t
        ((s.setKernel (s.kernel.eventLoopMod t (s.conns msg.conn).fd .writeEt msg.conn)).setIoPc t
          (.msgRelease msg))
  | msgRelease {msg : IoMessage} (hpc : (s.io t).pc = .msgRelease msg) :
      IoStep cfg s t ((s.connRelease msg.conn).setIoPc t .msgDrain)
  | readData {x : EventContext} {len : ℕ} {data : List UInt8} {k : Kernel n}
      (hpc : (s.io t).pc = .rdRead x)
      (hk : s.kernel.readBytes (s.conns x.conn).fd len = some (data, k)) :
      IoStep cfg s t (s.readData t x data k)
  | createTask {x : EventContext} {data : List UInt8} (hpc : (s.io t).pc = .rdCreate x data) :
      IoStep cfg s t
        ((s.setConn x.conn ((s.conns x.conn).acquire.addChunk data)).setIoPc t
          (.rdSubmit x { type := .process, conn := x.conn, data := data }))
  | createLeak {x : EventContext} {data : List UInt8} (hpc : (s.io t).pc = .rdCreate x data) :
      IoStep cfg s t ((s.setConn x.conn (s.conns x.conn).acquire.leak).setIoPc t (.rdRead x))
  | submitLeak {x : EventContext} {task : Task} (hpc : (s.io t).pc = .rdSubmit x task)
      (hs : s.poolShutdown = true ∨ s.queueShutdown = true) :
      IoStep cfg s t ((s.setConn task.conn (s.conns task.conn).leak).setIoPc t (.rdRead x))
  | submit {x : EventContext} {task : Task} (hpc : (s.io t).pc = .rdSubmit x task)
      (hq : s.queue.length < cfg.maxSize) :
      IoStep cfg s t ((s.setQueue (s.queue ++ [task])).setIoPc t (.rdRead x))
  | backToRead {x : EventContext} (hpc : (s.io t).pc = .wrIdle x ∨ (s.io t).pc = .wrMod x) :
      IoStep cfg s t (s.backToRead t x)
  | wrote {x : EventContext} {len : ℕ} {room : Bool} {k : Kernel n}
      (hpc : (s.io t).pc = .wrLoop x)
      (hlt : (s.conns x.conn).writePos < (s.conns x.conn).writeSize)
      (hk : s.kernel.writeBytes (s.conns x.conn).fd (s.conns x.conn).unsent len room = some k) :
      IoStep cfg s t (s.wroteData t x len k)
  | reset {x : EventContext} (hpc : (s.io t).pc = .wrReset x) :
      IoStep cfg s t ((s.setConn x.conn (s.conns x.conn).resetWrite).setIoPc t (.wrMod x))
  | closeMark {k : CloseSite} {x : EventContext} (hpc : (s.io t).pc = .closeMark k x) :
      IoStep cfg s t (s.markClosing t k x)
  | closeDel {k : CloseSite} {x : EventContext} {fd : Option Fd}
      (hpc : (s.io t).pc = .closeDel k x fd) :
      IoStep cfg s t ((s.setKernel (s.kernel.eventLoopDel t fd)).setIoPc t (.closeRelease k x))
  | closeRelease {k : CloseSite} {x : EventContext} (hpc : (s.io t).pc = .closeRelease k x) :
      IoStep cfg s t (s.releaseOwner t k x)

/-- The step function of the IO thread does only what `IoStep` says. -/
theorem ioStep_spec {cfg : Config n} {s s' : State n m} {t : Fin n} {r : IoResult}
    (h : s.ioStep cfg t r = some s') : IoStep cfg s t s' := by
  cases hpc : (s.io t).pc <;> simp only [ioStep, hpc] at h
  case loop =>
    cases h
    split
    · next hs => exact .move (hpc ▸ .stop hs)
    · next hs => exact .move (hpc ▸ .wait (Bool.eq_false_iff.mpr hs))
  case wait =>
    cases r with
    | ok => cases h; exact .move (hpc ▸ .returned)
    | event e =>
      dsimp only at h
      split at h
      · cases e with
        | pipe =>
          rw [collect] at h
          split at h <;> cases h
          exact .collectPipe hpc ‹_›
        | msgPipe =>
          rw [collect] at h
          split at h <;> cases h
          exact .collectMsg hpc ‹_›
        | fd f ev =>
          rw [collect] at h
          split at h <;> cases h
          exact .collectFd hpc ‹_›
      · cases h
    | _ => cases h
  case next =>
    cases h
    unfold nextEvent
    split
    · exact .move (hpc ▸ .batchDone ‹_›)
    · exact .nextPipe hpc ‹_›
    · exact .nextMsg hpc ‹_›
    · exact .nextConn hpc ‹_›
  case pipeRead =>
    cases h
    unfold readPipe
    split
    · exact .move (hpc ▸ .pipeEmpty ‹_›)
    · exact .readWake hpc ‹_›
    · exact .readConn hpc ‹_›
  case pipeAdopt c => cases h; exact .adopt hpc
  case pipeAdd c =>
    cases r <;> cases h
    · unfold addConnection
      split
      · exact .move (hpc ▸ .addFailed c)
      · exact .register hpc ‹_›
    · exact .move (hpc ▸ .addFailed c)
  case pipeRelease c => cases h; exact .reject hpc
  case msgRead => cases h; exact .msgRead hpc
  case msgDrain =>
    cases h
    unfold drainMessage
    split
    · exact .move (hpc ▸ .drained ‹_›)
    · exact .drain hpc ‹_›
  case msgCheck msg =>
    cases h
    unfold checkMessage
    split
    · next hv => exact .move (hpc ▸ .msgValid msg hv.2)
    · next hv =>
      exact .move (hpc ▸ .msgSkip msg fun ht => Bool.eq_false_iff.mpr fun hc => hv ⟨ht, hc⟩)
  case msgMod msg => cases h; exact .msgMod hpc
  case msgRelease msg => cases h; exact .msgRelease hpc
  case evCheck x =>
    cases h
    split
    · next hv => exact .move (hpc ▸ .evValid x hv)
    · next hv => exact .move (hpc ▸ .evInvalid x (Bool.eq_false_iff.mpr hv))
  case evFd x => cases h; exact .move (hpc ▸ .fdLoaded x)
  case rdRead x =>
    cases r <;> simp only [readStep, reduceCtorEq] at h
    case got len =>
      obtain ⟨p, hp, rfl⟩ := Option.map_eq_some_iff.mp h
      exact .readData hpc hp
    case eof => split at h <;> cases h; exact .move (hpc ▸ .readClose x)
    case again => split at h <;> cases h; exact .move (hpc ▸ .readAgain x ‹_›)
    case err => cases h; exact .move (hpc ▸ .readClose x)
  case rdCreate x data =>
    cases r <;> simp only [State.createTask, reduceCtorEq] at h <;> cases h
    · exact .createTask hpc
    · exact .move (hpc ▸ .createFailed x data)
    · exact .createLeak hpc
  case rdSubmit x task =>
    simp only [State.submit] at h
    split at h
    · next hs => cases h; exact .submitLeak hpc (by simpa using hs)
    · split at h <;> cases h
      exact .submit hpc ‹_›
  case wrEntry x =>
    cases h
    split
    · exact .move (hpc ▸ .writeNothing x ‹_›)
    · exact .move (hpc ▸ .writeSome x ‹_›)
  case wrIdle x => cases h; exact .backToRead (.inl hpc)
  case wrLoop x =>
    split at h
    · next hlt =>
      cases r <;> simp only [writeStep, reduceCtorEq] at h
      case wrote len room =>
        obtain ⟨k, hk, rfl⟩ := Option.map_eq_some_iff.mp h
        exact .wrote hpc hlt hk
      case again => split at h <;> cases h; exact .move (hpc ▸ .writeAgain x ‹_›)
      case err => cases h; exact .move (hpc ▸ .writeErr x)
    · next hlt => cases h; exact .move (hpc ▸ .writeDone x (by omega))
  case wrFinal x =>
    cases h
    split
    · exact .move (hpc ▸ .finalDone x ‹_›)
    · next hlt => exact .move (hpc ▸ .finalMore x (by omega))
  case wrReset x => cases h; exact .reset hpc
  case wrMod x => cases h; exact .backToRead (.inr hpc)
  case closeMark k x => cases h; exact .closeMark hpc
  case closeDel k x fd => cases h; exact .closeDel hpc
  case closeRelease k x => cases h; exact .closeRelease hpc
  case recheck k x =>
    cases h
    split
    · next hv => exact .move (hpc ▸ .stillValid k x hv)
    · next hv => exact .move (hpc ▸ .nowInvalid k x (Bool.eq_false_iff.mpr hv))
  case erTest x =>
    cases h
    split
    · exact .move (hpc ▸ .hangup x)
    · exact .move (hpc ▸ .noHangup x)
  case stopped => cases h

/-- The steps of a worker that only change its program point. -/
inductive WorkerMove (cfg : Config n) (s : State n m) : WorkerPc n → WorkerPc n → Prop
  | exit (h : s.poolShutdown = true) : WorkerMove cfg s .loop .exited
  | loop (h : s.poolShutdown = false) : WorkerMove cfg s .loop .pop
  | noTask (hq : s.queue = []) (h : s.queueShutdown = true) : WorkerMove cfg s .pop .popNull
  | noTaskExit (h : s.poolShutdown = true) : WorkerMove cfg s .popNull .exited
  | noTaskLoop (h : s.poolShutdown = false) : WorkerMove cfg s .popNull .loop
  | process (task : Task) (ht : task.type = .process) (h : (s.conns task.conn).isValid = true) :
      WorkerMove cfg s (.check task) (.install task)
  | close (task : Task) (ht : task.type = .close) : WorkerMove cfg s (.check task) (.closeMark task)
  | skip (task : Task)
      (h : task.type = .process → (s.conns task.conn).isValid = false) :
      WorkerMove cfg s (.check task) (.stats task)
  | noInstall (task : Task) (h : responseFits task.data = false) :
      WorkerMove cfg s (.install task) (.sendTest task)
  | send (task : Task) (t : Fin n) (ht : (s.conns task.conn).ioThread = some t)
      (h : (s.conns task.conn).isValid = true) :
      WorkerMove cfg s (.sendTest task) (.sendAlloc task t)
  | noSend (task : Task)
      (h : (s.conns task.conn).ioThread = none ∨ (s.conns task.conn).isValid = false) :
      WorkerMove cfg s (.sendTest task) (.stats task)
  | allocated (task : Task) (t : Fin n) : WorkerMove cfg s (.sendAlloc task t) (.sendAcquire task t)
  | notAllocated (task : Task) (t : Fin n) : WorkerMove cfg s (.sendAlloc task t) (.stats task)
  | pipeFull (task : Task) (t : Fin n) (h : cfg.msgPipeCap ≤ (s.io t).msgPipe) :
      WorkerMove cfg s (.sendNotify task t) (.stats task)

/-- What a step of the worker `w` can do. -/
inductive WorkerStep (cfg : Config n) (s : State n m) (w : Fin m) : State n m → Prop
  | move {pc' : WorkerPc n} (h : WorkerMove cfg s (s.worker w) pc') :
      WorkerStep cfg s w (s.setWorker w pc')
  | pop {task : Task} {rest : List Task} (hpc : s.worker w = .pop)
      (hq : s.queue = task :: rest) :
      WorkerStep cfg s w ((s.setQueue rest).setWorker w (.check task))
  | install {task : Task} (hpc : s.worker w = .install task)
      (hf : responseFits task.data = true) :
      WorkerStep cfg s w
        ((s.setConn task.conn ((s.conns task.conn).install task.data)).setWorker w
          (.sendTest task))
  | acquire {task : Task} {t : Fin n} (hpc : s.worker w = .sendAcquire task t) :
      WorkerStep cfg s w
        ((s.setConn task.conn (s.conns task.conn).acquire).setWorker w (.sendLink task t))
  | link {task : Task} {t : Fin n} (hpc : s.worker w = .sendLink task t) :
      WorkerStep cfg s w (s.linkMessage w task t)
  | notify {task : Task} {t : Fin n} (hpc : s.worker w = .sendNotify task t)
      (hlt : (s.io t).msgPipe < cfg.msgPipeCap) :
      WorkerStep cfg s w
        ((s.setIo t { s.io t with msgPipe := (s.io t).msgPipe + 1, msgEdge := true }).setWorker w
          (.stats task))
  | closeMark {task : Task} (hpc : s.worker w = .closeMark task) :
      WorkerStep cfg s w ((s.connMarkClosing task.conn).setWorker w (.closeRelease task))
  | closeRelease {task : Task} (hpc : s.worker w = .closeRelease task) :
      WorkerStep cfg s w ((s.connRelease task.conn).setWorker w (.stats task))
  | stats {task : Task} (hpc : s.worker w = .stats task) :
      WorkerStep cfg s w
        ({ s with tasksCompleted := s.tasksCompleted + 1 }.setWorker w (.destroy task))
  | destroy {task : Task} (hpc : s.worker w = .destroy task) :
      WorkerStep cfg s w ((s.connRelease task.conn).setWorker w .loop)

/-- The step function of a worker does only what `WorkerStep` says. -/
theorem workerStep_spec {cfg : Config n} {s s' : State n m} {w : Fin m} {ok : Bool}
    (h : s.workerStep cfg w ok = some s') : WorkerStep cfg s w s' := by
  cases hpc : s.worker w <;> simp only [workerStep, hpc] at h
  case loop =>
    cases h
    split
    · next hs => exact .move (hpc ▸ .exit hs)
    · next hs => exact .move (hpc ▸ .loop (Bool.eq_false_iff.mpr hs))
  case pop =>
    rw [popTask] at h
    split at h
    · cases h; exact .pop hpc ‹_›
    · split at h <;> cases h
      exact .move (hpc ▸ .noTask ‹_› ‹_›)
  case popNull =>
    cases h
    split
    · next hs => exact .move (hpc ▸ .noTaskExit hs)
    · next hs => exact .move (hpc ▸ .noTaskLoop (Bool.eq_false_iff.mpr hs))
  case check task =>
    cases h
    refine .move (hpc ▸ ?_)
    unfold dispatchTask
    split
    · next ht =>
      split
      · next hv => exact .process task ht hv
      · next hv => exact .skip task fun _ => Bool.eq_false_iff.mpr hv
    · next ht => exact .close task ht
    · next hp hc => exact .skip task fun ht => absurd ht hp
  case install task =>
    cases h
    unfold installResponse
    split
    · next hf => exact .install hpc hf
    · next hf => exact .move (hpc ▸ .noInstall task (Bool.eq_false_iff.mpr hf))
  case sendTest task =>
    cases h
    refine .move (hpc ▸ ?_)
    unfold testSend
    split
    · next t ht =>
      split
      · next hv => exact .send task t ht hv
      · next hv => exact .noSend task (.inr (Bool.eq_false_iff.mpr hv))
    · next ht => exact .noSend task (.inl ht)
  case sendAlloc task t =>
    cases h
    refine .move (hpc ▸ ?_)
    split
    · exact .allocated task t
    · exact .notAllocated task t
  case sendAcquire task t => cases h; exact .acquire hpc
  case sendLink task t => cases h; exact .link hpc
  case sendNotify task t =>
    cases h
    unfold notify
    split
    · exact .notify hpc ‹_›
    · next hn => exact .move (hpc ▸ .pipeFull task t (not_lt.mp hn))
  case closeMark task => cases h; exact .closeMark hpc
  case closeRelease task => cases h; exact .closeRelease hpc
  case stats task => cases h; exact .stats hpc
  case destroy task => cases h; exact .destroy hpc
  case exited => cases h

/-- What a step of the main thread can do. -/
inductive MainStep (cfg : Config n) (s : State n m) : State n m → Prop
  | woken (hpc : s.main = .wait) (he : s.kernel.listenEdge = true) :
      MainStep cfg s ((s.setKernel { s.kernel with listenEdge := false }).setMain .accept)
  | stop (hpc : s.main = .wait) : MainStep cfg s (s.setMain .closeListen)
  | accept {f : Fd} (hpc : s.main = .accept) (hf : s.kernel.fds f = none)
      (hb : 0 < s.kernel.backlog) :
      MainStep cfg s ((s.setKernel { s.kernel with
        backlog := s.kernel.backlog - 1
        fds := Function.update s.kernel.fds f (some (.client s.kernel.nextSock))
        socks := Function.update s.kernel.socks s.kernel.nextSock Sock.fresh
        nextSock := s.kernel.nextSock + 1 }).setMain (.getThread f s.kernel.nextSock))
  | acceptAgain (hpc : s.main = .accept) (hb : s.kernel.backlog = 0) :
      MainStep cfg s (s.setMain .wait)
  | acceptIntr (hpc : s.main = .accept) : MainStep cfg s s
  | acceptFailed (hpc : s.main = .accept) : MainStep cfg s (s.setMain .wait)
  | getThread {f : Fd} {sk : SockId} (hpc : s.main = .getThread f sk) (h : s.nextThread < n) :
      MainStep cfg s { s with
        nextThread := (s.nextThread + 1) % n
        main := .create ⟨s.nextThread, h⟩ f sk }
  | noThread {f : Fd} {sk : SockId} (hpc : s.main = .getThread f sk) (h : n ≤ s.nextThread) :
      MainStep cfg s (s.setMain (.closeClient f sk))
  | create {t : Fin n} {f : Fd} {sk : SockId} (hpc : s.main = .create t f sk) :
      MainStep cfg s (s.createConnection t f sk)
  | createFailed {t : Fin n} {f : Fd} {sk : SockId} (hpc : s.main = .create t f sk) :
      MainStep cfg s (s.setMain (.closeClient f sk))
  | handOff {t : Fin n} {c : ConnId} {f : Fd} {sk : SockId} (hpc : s.main = .handoff t c f sk)
      (hlt : (s.io t).pipe.length < cfg.pipeCap) : MainStep cfg s (s.handOff t c)
  | handOffFailed {t : Fin n} {c : ConnId} {f : Fd} {sk : SockId}
      (hpc : s.main = .handoff t c f sk) : MainStep cfg s (s.setMain (.drop c f sk))
  | drop {c : ConnId} {f : Fd} {sk : SockId} (hpc : s.main = .drop c f sk) :
      MainStep cfg s (s.dropConnection c f sk)
  | closeClient {f : Fd} {sk : SockId} (hpc : s.main = .closeClient f sk) :
      MainStep cfg s ((s.setKernel (s.kernel.close (some f))).setMain .accept)
  | closeListen (hpc : s.main = .closeListen) :
      MainStep cfg s
        ((s.setKernel (s.kernel.close (some (cfg.sysFd .listen)))).setMain .destroyLoop)
  | destroyLoop (hpc : s.main = .destroyLoop) :
      MainStep cfg s
        ((s.setKernel (s.kernel.close (some (cfg.sysFd .mainEpoll)))).setMain (nextDestroy n 0))
  | ioFlag {t : Fin n} (hpc : s.main = .ioDestroy t .flag) :
      MainStep cfg s ((s.setIo t { s.io t with shutdown := true }).setMain (.ioDestroy t .wake))
  | ioWake {t : Fin n} (hpc : s.main = .ioDestroy t .wake) :
      MainStep cfg s ((s.setIo t { s.io t with
        pipe := (s.io t).pipe ++ [.wake], pipeEdge := true }).setMain (.ioDestroy t .join))
  | ioWakeFailed {t : Fin n} (hpc : s.main = .ioDestroy t .wake) :
      MainStep cfg s (s.setMain (.ioDestroy t .join))
  | ioJoin {t : Fin n} (hpc : s.main = .ioDestroy t .join) (hs : (s.io t).pc = .stopped) :
      MainStep cfg s (s.setMain (.ioDestroy t .loop))
  | ioLoop {t : Fin n} (hpc : s.main = .ioDestroy t .loop) :
      MainStep cfg s
        ((s.setKernel ((s.kernel.close (some (cfg.sysFd (.epoll t)))).dropLoop t)).setMain
          (.ioDestroy t .close0))
  | ioClose0 {t : Fin n} (hpc : s.main = .ioDestroy t .close0) :
      MainStep cfg s
        ((s.setKernel (s.kernel.close (some (cfg.sysFd (.pipe t .read))))).setMain
          (.ioDestroy t .close1))
  | ioClose1 {t : Fin n} (hpc : s.main = .ioDestroy t .close1) :
      MainStep cfg s
        ((s.setKernel (s.kernel.close (some (cfg.sysFd (.pipe t .write))))).setMain
          (.ioDestroy t .free))
  | ioFree {t : Fin n} (hpc : s.main = .ioDestroy t .free) :
      MainStep cfg s
        ((s.setIo t { s.io t with freed := true }).setMain (nextDestroy n (t + 1)))
  | poolShutdown (hpc : s.main = .poolShutdown) :
      MainStep cfg s ({ s with poolShutdown := true }.setMain .queueShutdown)
  | queueShutdown (hpc : s.main = .queueShutdown) :
      MainStep cfg s ({ s with queueShutdown := true }.setMain .joinWorkers)
  | joinWorkers (hpc : s.main = .joinWorkers) (h : ∀ w, s.worker w = .exited) :
      MainStep cfg s (s.setMain .queueDestroy)
  | destroyTask {task : Task} {rest : List Task} (hpc : s.main = .queueDestroy)
      (hq : s.queue = task :: rest) :
      MainStep cfg s ((s.connRelease task.conn).setQueue rest)
  | destroyed (hpc : s.main = .queueDestroy) (hq : s.queue = []) :
      MainStep cfg s (s.setMain .done)

/-- The step function of the main thread does only what `MainStep` says. -/
theorem mainStep_spec {cfg : Config n} {s s' : State n m} {r : MainResult}
    (h : s.mainStep cfg r = some s') : MainStep cfg s s' := by
  cases hpc : s.main <;> simp only [mainStep, hpc] at h
  case wait =>
    cases r <;> simp only [reduceCtorEq] at h
    · split at h <;> cases h
      exact .woken hpc ‹_›
    · cases h; exact .stop hpc
  case accept =>
    cases r <;> simp only [reduceCtorEq] at h
    · cases h; exact .acceptFailed hpc
    · rw [acceptSocket] at h
      split at h <;> cases h
      next hb =>
      simp only [Bool.and_eq_true, decide_eq_true_eq, Option.isNone_iff_eq_none] at hb
      exact .accept hpc hb.2 hb.1
    · split at h <;> cases h
      exact .acceptAgain hpc ‹_›
    · cases h; exact .acceptIntr hpc
  case getThread f sk =>
    cases h
    unfold State.getThread
    split
    · exact .getThread hpc ‹_›
    · exact .noThread hpc (not_lt.mp ‹_›)
  case create t f sk =>
    cases r <;> cases h
    · exact .create hpc
    · exact .createFailed hpc
  case handoff t c f sk =>
    cases r <;> simp only [reduceCtorEq] at h
    · split at h <;> cases h
      exact .handOff hpc ‹_›
    · cases h; exact .handOffFailed hpc
  case drop c f sk => cases h; exact .drop hpc
  case closeClient f sk => cases h; exact .closeClient hpc
  case closeListen => cases h; exact .closeListen hpc
  case destroyLoop => cases h; exact .destroyLoop hpc
  case ioDestroy t stage =>
    cases stage <;> simp only [ioDestroyStep] at h
    case flag => cases h; exact .ioFlag hpc
    case wake =>
      split at h
      · cases h; exact .ioWake hpc
      · split at h <;> cases h
        exact .ioWakeFailed hpc
    case join =>
      split at h <;> cases h
      exact .ioJoin hpc ‹_›
    case loop => cases h; exact .ioLoop hpc
    case close0 => cases h; exact .ioClose0 hpc
    case close1 => cases h; exact .ioClose1 hpc
    case free => cases h; exact .ioFree hpc
  case poolShutdown => cases h; exact .poolShutdown hpc
  case queueShutdown => cases h; exact .queueShutdown hpc
  case joinWorkers =>
    split at h <;> cases h
    exact .joinWorkers hpc ‹_›
  case queueDestroy =>
    cases h
    unfold State.destroyTask
    split
    · exact .destroyed hpc ‹_›
    · exact .destroyTask hpc ‹_›
  case done => cases h

/-- What a step of the clients can do. -/
inductive EnvStep (s : State n m) : State n m → Prop
  | arrive :
      EnvStep s (s.setKernel { s.kernel with backlog := s.kernel.backlog + 1, listenEdge := true })
  | sock {f : Fd} {sk : SockId} {v : Sock} {rd wr : Bool} (hs : s.kernel.sockAt (some f) = some sk)
      (hw : v.written = (s.kernel.socks sk).written)
      (hrd : rd = false → v.unread = (s.kernel.socks sk).unread)
      (hwr : wr = false → v.writable = (s.kernel.socks sk).writable) :
      EnvStep s (s.setKernel ((s.kernel.setSock sk v).signal f rd wr))

/-- The clients do only what `EnvStep` says: whatever they change about a socket is signalled. -/
theorem envStep_spec {s s' : State n m} {e : Environment} (h : s.envStep e = some s') :
    EnvStep s s' := by
  cases e <;> simp only [envStep] at h
  case arrive => cases h; exact .arrive
  case data f bytes =>
    split at h <;> cases h
    exact .sock ‹_› rfl (by simp) (by simp)
  case peerClose f =>
    split at h <;> cases h
    exact .sock ‹_› rfl (by simp) (by simp)
  case drain f =>
    split at h <;> cases h
    exact .sock ‹_› rfl (by simp) (by simp)

/-- What a step of the server can do. -/
inductive ServerStep (cfg : Config n) (s s' : State n m) : Prop
  | main (h : MainStep cfg s s')
  | io (t : Fin n) (h : IoStep cfg s t s')
  | worker (w : Fin m) (h : WorkerStep cfg s w s')
  | env (h : EnvStep s s')

/-- The server does only what its threads and the clients can do. -/
theorem step_spec {cfg : Config n} {s s' : State n m} {a : Action n m}
    (h : (server m cfg).step s a = some s') : ServerStep cfg s s' := by
  cases a with
  | main r => exact .main (mainStep_spec h)
  | io t r => exact .io t (ioStep_spec h)
  | worker w ok => exact .worker w (workerStep_spec h)
  | env e => exact .env (envStep_spec h)

end DeepInIo.AdvancedServer
