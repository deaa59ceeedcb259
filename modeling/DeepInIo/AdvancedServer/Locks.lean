import DeepInIo.AdvancedServer.Steps
import DeepInIo.Foundation.Condition
import DeepInIo.Foundation.LockOrder

/-!
# The mutexes of the server

A step of `State.step` executes a statement in one go.  Here it is surrounded by the mutex
operations that the source performs for it, each of which is a step of its own: `State.plan` lists
them in order for every program point.  A thread stops at a mutex that another thread holds, and in
`task_queue_push` and `task_queue_pop` at the condition variables of the task queue.  Everything
else is left to the steps of `State`; a blocking step of the task queue becomes a
`pthread_cond_wait`.

A mutex of a connection works as long as the server runs.  The model ends where `server_destroy`
begins.
-/

namespace DeepInIo.AdvancedServer

/-- The threads of the server. -/
inductive Thread (n m : ℕ)
  | main
  | io (t : Fin n)
  | worker (w : Fin m)
  deriving DecidableEq

/-- The mutexes of the server. -/
inductive Mutex (n : ℕ)
  /-- `conn_mutex` -/
  | conn (c : ConnId)
  /-- `msg_queue_mutex` -/
  | msgQueue (t : Fin n)
  /-- `stats_mutex` of an IO thread -/
  | ioStats (t : Fin n)
  /-- `stats_mutex` of the worker pool -/
  | poolStats
  /-- `mutex` of the task queue -/
  | taskQueue
  /-- `mutex` of the pool of IO threads -/
  | ioPool
  /-- `stats_mutex` of the server -/
  | serverStats
  deriving DecidableEq

/-- The order of the mutexes: only a `conn_mutex` is taken while another mutex is held, in
`io_thread_send_message`. -/
def Mutex.rank {n : ℕ} : Mutex n → ℕ
  | .msgQueue _ => 1
  | _ => 0

/-- What a thread does between its mutex operations: a step of the server, or the loop with
`pthread_cond_wait` and the rest of the critical section of a task queue call. -/
inductive Act (n m : ℕ)
  | run (a : Action n m)
  | push (t : Fin n)
  | pop (w : Fin m)
  deriving DecidableEq

/-- The thread that takes a step. -/
def Action.thread? {n m : ℕ} : Action n m → Option (Thread n m)
  | .main _ => some .main
  | .io t _ => some (.io t)
  | .worker w _ => some (.worker w)
  | .env _ => none

section plans

variable {n m : ℕ}

/-- A step inside of a critical section. -/
def inMutex (x : Mutex n) (a : Action n m) : List (LockOp (Mutex n) (Act n m)) :=
  [.lock x, .act (.run a), .unlock x]

/-- A step before a critical section that only counts. -/
def thenCount (x : Mutex n) (a : Action n m) : List (LockOp (Mutex n) (Act n m)) :=
  [.act (.run a), .lock x, .unlock x]

/-- A step without a mutex. -/
def noMutex (a : Action n m) : List (LockOp (Mutex n) (Act n m)) :=
  [.act (.run a)]

/-- A call of the task queue. -/
def queueCall (a : Act n m) : List (LockOp (Mutex n) (Act n m)) :=
  [.lock .taskQueue, .act a, .unlock .taskQueue]

namespace State

variable (s : State n m)

/-- The operations of the IO thread `t` whose call returns `r`. -/
def ioPlan (t : Fin n) (r : IoResult) : List (LockOp (Mutex n) (Act n m)) :=
  let a : Action n m := .io t r
  match (s.io t).pc with
  | .pipeAdd c =>
    if r = .ok && (s.kernel.eventLoopAdd t (s.conns c).fd .readEt c).isSome then
      thenCount (.ioStats t) a
    else noMutex a
  | .pipeRelease c => inMutex (.conn c) a
  | .msgDrain => inMutex (.msgQueue t) a
  | .msgCheck msg => if msg.type = .responseReady then inMutex (.conn msg.conn) a else noMutex a
  | .msgRelease msg => inMutex (.conn msg.conn) a
  | .evCheck x | .closeMark _ x | .closeRelease _ x | .recheck _ x => inMutex (.conn x.conn) a
  | .rdRead _ =>
    match r with
    | .got _ => thenCount (.ioStats t) a
    | _ => noMutex a
  | .wrLoop x =>
    match r with
    | .wrote _ _ =>
      if (s.conns x.conn).writePos < (s.conns x.conn).writeSize then thenCount (.ioStats t) a
        else noMutex a
    | _ => noMutex a
  | .rdCreate x _ =>
    match r with
    | .ok | .failData => inMutex (.conn x.conn) a
    | _ => noMutex a
  | .rdSubmit _ _ => if s.poolShutdown then noMutex a else queueCall (.push t)
  | _ => noMutex a

/-- The operations of the worker `w`; `io_thread_send_message` takes the connection's mutex inside
of the message queue's. -/
def workerPlan (w : Fin m) (ok : Bool) : List (LockOp (Mutex n) (Act n m)) :=
  let a : Action n m := .worker w ok
  match s.worker w with
  | .pop => queueCall (.pop w)
  | .check task => if task.type = .process then inMutex (.conn task.conn) a else noMutex a
  | .sendTest task =>
    if (s.conns task.conn).ioThread.isSome then inMutex (.conn task.conn) a else noMutex a
  | .sendAcquire task t =>
    [.lock (.msgQueue t), .lock (.conn task.conn), .act (.run a), .unlock (.conn task.conn),
      .act (.run a), .unlock (.msgQueue t)]
  | .closeMark task | .closeRelease task | .destroy task => inMutex (.conn task.conn) a
  | .stats _ => inMutex .poolStats a
  | _ => noMutex a

/-- The operations of the main thread whose call returns `r`. -/
def mainPlan (r : MainResult) : List (LockOp (Mutex n) (Act n m)) :=
  let a : Action n m := .main r
  match s.main with
  | .getThread _ _ => if n = 0 then noMutex a else inMutex .ioPool a
  | .handoff .. => if r = .ok then thenCount .serverStats a else noMutex a
  | .drop c _ _ => inMutex (.conn c) a
  | _ => noMutex a

/-- The operations of the thread that takes the step `a` next. -/
def plan : Action n m → List (LockOp (Mutex n) (Act n m))
  | .main r => s.mainPlan r
  | .io t r => s.ioPlan t r
  | .worker w ok => s.workerPlan w ok
  | .env _ => []

end State

end plans

/-- The server with its mutexes and the condition variables of the task queue. -/
structure LockedServer (n m : ℕ) where
  server : State n m
  locks : Locks (Thread n m) (Mutex n) (Act n m)
  notEmpty : Condition (Thread n m)
  notFull : Condition (Thread n m)

/-- One step of the server with its mutexes. -/
inductive LockedAction (n m : ℕ)
  /-- something happens outside of the server -/
  | env (e : Environment)
  /-- a thread comes to its next statement, whose calls will return as in `a` -/
  | begin (a : Action n m)
  /-- a thread performs the next operation of its plan; a signal wakes the threads `woken` -/
  | proceed (th : Thread n m) (woken : Finset (Thread n m))
  /-- a spurious wake-up -/
  | spurious (th : Thread n m)

/-- The thread that takes a step. -/
def LockedAction.thread? {n m : ℕ} : LockedAction n m → Option (Thread n m)
  | .begin a => a.thread?
  | .proceed th _ => some th
  | _ => none

namespace LockedServer

variable {n m : ℕ} (cfg : Config n) (L : LockedServer n m)

/-- The thread is inside of `pthread_cond_wait`. -/
def Asleep (th : Thread n m) : Prop :=
  th ∈ L.notEmpty.waiting ∨ th ∈ L.notFull.waiting

instance (th : Thread n m) : Decidable (L.Asleep th) :=
  inferInstanceAs (Decidable (_ ∨ _))

/-- `server_start` begins, and nobody holds a mutex. -/
@[simps]
def start : LockedServer n m where
  server := .start cfg
  locks := .idle ..
  notEmpty := .idle _
  notFull := .idle _

/-- A thread takes a step of the server. -/
def run (th : Thread n m) (a : Action n m) (ops : List (LockOp (Mutex n) (Act n m))) :
    Option (LockedServer n m) :=
  (L.server.step cfg a).map fun s => { L with server := s, locks := L.locks.setPlan th ops }

/-- A thread comes to its next statement; what has no mutex before it happens at once. -/
def begin (a : Action n m) : Option (LockedServer n m) :=
  match a.thread? with
  | none => none
  | some th =>
    if L.locks.plan th = [] ∧ a ≠ .main .stop then
      match L.server.plan a with
      | .act (.run a') :: ops => L.run cfg th a' ops
      | ops => some { L with locks := L.locks.setPlan th ops }
    else none

/-- `pthread_cond_wait` in `task_queue_push`, which gives the mutex up and takes it again
afterwards. -/
@[simps]
def waitNotFull (th : Thread n m) : LockedServer n m :=
  { L with
    notFull := (L.notFull.leave th).wait th
    locks := L.locks.release th .taskQueue (.lock .taskQueue :: L.locks.plan th) }

/-- `pthread_cond_wait` in `task_queue_pop`. -/
@[simps]
def waitNotEmpty (th : Thread n m) : LockedServer n m :=
  { L with
    notEmpty := (L.notEmpty.leave th).wait th
    locks := L.locks.release th .taskQueue (.lock .taskQueue :: L.locks.plan th) }

/-- `task_queue_push` with the mutex held: it waits, it fails after the shutdown, or it adds the
task and signals `not_empty`. -/
def push (th : Thread n m) (t : Fin n) (ops : List (LockOp (Mutex n) (Act n m)))
    (woken : Finset (Thread n m)) : Option (LockedServer n m) :=
  if cfg.maxSize ≤ L.server.queue.length && !L.server.queueShutdown then some (L.waitNotFull th)
  else if L.server.queueShutdown then
    { L with notFull := L.notFull.leave th }.run cfg th (.io t .ok) ops
  else if L.notEmpty.Signals woken then
    { L with notFull := L.notFull.leave th, notEmpty := L.notEmpty.wake woken }.run cfg th
      (.io t .ok) ops
  else none

/-- `task_queue_pop` with the mutex held: it waits, it returns `NULL` after the shutdown, or it
takes a task and signals `not_full`. -/
def pop (th : Thread n m) (w : Fin m) (ops : List (LockOp (Mutex n) (Act n m)))
    (woken : Finset (Thread n m)) : Option (LockedServer n m) :=
  if L.server.queue.isEmpty && !L.server.queueShutdown then some (L.waitNotEmpty th)
  else if L.server.queue.isEmpty then
    { L with notEmpty := L.notEmpty.leave th }.run cfg th (.worker w true) ops
  else if L.notFull.Signals woken then
    { L with notEmpty := L.notEmpty.leave th, notFull := L.notFull.wake woken }.run cfg th
      (.worker w true) ops
  else none

/-- A thread performs the next operation of its plan. -/
def proceed (th : Thread n m) (woken : Finset (Thread n m)) : Option (LockedServer n m) :=
  match L.locks.plan th with
  | [] => none
  | .lock x :: ops =>
    if L.locks.owner x = none ∧ ¬L.Asleep th then some { L with locks := L.locks.acquire th x ops }
      else none
  | .unlock x :: ops => some { L with locks := L.locks.release th x ops }
  | .act (.run a) :: ops => L.run cfg th a ops
  | .act (.push t) :: ops => L.push cfg th t ops woken
  | .act (.pop w) :: ops => L.pop cfg th w ops woken

/-- One step of the server with its mutexes. -/
def step : LockedAction n m → Option (LockedServer n m)
  | .env e => (L.server.envStep e).map fun s => { L with server := s }
  | .begin a => L.begin cfg a
  | .proceed th woken => L.proceed cfg th woken
  | .spurious th =>
    if th ∈ L.notEmpty.waiting then some { L with notEmpty := L.notEmpty.wake {th} }
    else if th ∈ L.notFull.waiting then some { L with notFull := L.notFull.wake {th} }
    else none

end LockedServer

/-- The server with its mutexes, until `server_destroy`. -/
def lockedServer {n : ℕ} (m : ℕ) (cfg : Config n) :
    TransitionSystem (LockedServer n m) (LockedAction n m) where
  init L := L = LockedServer.start cfg
  step L a := L.step cfg a

/-! ### The plans -/

section plans

variable {n m : ℕ} {s : State n m} {a : Action n m}

/-- The forms of a plan. -/
inductive PlanForm (a : Action n m) : List (LockOp (Mutex n) (Act n m)) → Prop
  | inMutex (x : Mutex n) : PlanForm a (inMutex x a)
  | thenCount (x : Mutex n) : PlanForm a (thenCount x a)
  | noMutex : PlanForm a (noMutex a)
  | push (t : Fin n) : PlanForm a (queueCall (.push t))
  | pop (w : Fin m) : PlanForm a (queueCall (.pop w))
  | send (c : ConnId) (t : Fin n) :
    PlanForm a [.lock (.msgQueue t), .lock (.conn c), .act (.run a), .unlock (.conn c),
      .act (.run a), .unlock (.msgQueue t)]

/-- Every plan has one of the forms. -/
theorem plan_form {th : Thread n m} (hth : a.thread? = some th) : PlanForm a (s.plan a) := by
  cases a with
  | main r =>
    simp only [State.plan, State.mainPlan]
    repeat' split
    all_goals constructor
  | io t r =>
    simp only [State.plan, State.ioPlan]
    repeat' split
    all_goals constructor
  | worker w ok =>
    simp only [State.plan, State.workerPlan]
    repeat' split
    all_goals constructor
  | env e => cases hth

/-- Every plan takes the mutexes in order. -/
theorem plan_inOrder {th : Thread n m} (hth : a.thread? = some th) :
    runLocks Mutex.rank [] (s.plan a) = some [] := by
  have hform : PlanForm a (s.plan a) := plan_form hth
  generalize s.plan a = ops at hform ⊢
  cases hform <;>
    simp [runLocks, inMutex, thenCount, noMutex, queueCall, Mutex.rank]

/-- A plan that begins with an action begins with the step itself. -/
theorem plan_act {th : Thread n m} (hth : a.thread? = some th) {x : Act n m}
    {ops : List (LockOp (Mutex n) (Act n m))} (hplan : s.plan a = .act x :: ops) :
    x = .run a ∧ acts ops = [] := by
  have hform : PlanForm a (s.plan a) := plan_form hth
  rw [hplan] at hform
  cases hform <;> exact ⟨rfl, rfl⟩

end plans

/-! ### What a step can do -/

section steps

variable {n m : ℕ} {cfg : Config n} {L L' : LockedServer n m}

/-- What a step can do. -/
inductive LockedStep (cfg : Config n) (L : LockedServer n m) : LockedServer n m → Prop
  | env {e : Environment} {s : State n m} (hs : L.server.step cfg (.env e) = some s) :
      LockedStep cfg L { L with server := s }
  | plan {th : Thread n m} {a : Action n m} (hth : a.thread? = some th) (hstop : a ≠ .main .stop)
      (hplan : L.locks.plan th = []) (hlock : ∀ a' ops, L.server.plan a ≠ .act a' :: ops) :
      LockedStep cfg L { L with locks := L.locks.setPlan th (L.server.plan a) }
  | start {th : Thread n m} {a : Action n m} {ops : List (LockOp (Mutex n) (Act n m))}
      {s : State n m} (hth : a.thread? = some th) (hstop : a ≠ .main .stop)
      (hplan : L.locks.plan th = []) (hrun : L.server.plan a = .act (.run a) :: ops)
      (hs : L.server.step cfg a = some s) :
      LockedStep cfg L { L with server := s, locks := L.locks.setPlan th ops }
  | lock {th : Thread n m} {x : Mutex n} {ops : List (LockOp (Mutex n) (Act n m))}
      (hplan : L.locks.plan th = .lock x :: ops) (hfree : L.locks.owner x = none)
      (hawake : ¬L.Asleep th) :
      LockedStep cfg L { L with locks := L.locks.acquire th x ops }
  | unlock {th : Thread n m} {x : Mutex n} {ops : List (LockOp (Mutex n) (Act n m))}
      (hplan : L.locks.plan th = .unlock x :: ops) :
      LockedStep cfg L { L with locks := L.locks.release th x ops }
  | run {th : Thread n m} {a : Action n m} {ops : List (LockOp (Mutex n) (Act n m))} {s : State n m}
      (hplan : L.locks.plan th = .act (.run a) :: ops) (hs : L.server.step cfg a = some s) :
      LockedStep cfg L { L with server := s, locks := L.locks.setPlan th ops }
  | pushWaits {th : Thread n m} {t : Fin n} {ops : List (LockOp (Mutex n) (Act n m))}
      (hplan : L.locks.plan th = .act (.push t) :: ops)
      (hfull : cfg.maxSize ≤ L.server.queue.length) (hopen : L.server.queueShutdown = false) :
        LockedStep cfg L (L.waitNotFull th)
  | pushFails {th : Thread n m} {t : Fin n} {ops : List (LockOp (Mutex n) (Act n m))}
      {s : State n m} (hplan : L.locks.plan th = .act (.push t) :: ops)
      (hclosed : L.server.queueShutdown = true) (hs : L.server.step cfg (.io t .ok) = some s) :
      LockedStep cfg L { L with
        server := s, notFull := L.notFull.leave th, locks := L.locks.setPlan th ops }
  | pushed {th : Thread n m} {t : Fin n} {ops : List (LockOp (Mutex n) (Act n m))} {s : State n m}
      {woken : Finset (Thread n m)} (hplan : L.locks.plan th = .act (.push t) :: ops)
      (hroom : L.server.queue.length < cfg.maxSize) (hopen : L.server.queueShutdown = false)
      (hwoken : L.notEmpty.Signals woken) (hs : L.server.step cfg (.io t .ok) = some s) :
      LockedStep cfg L
        ⟨s, L.locks.setPlan th ops, L.notEmpty.wake woken, L.notFull.leave th⟩
  | popWaits {th : Thread n m} {w : Fin m} {ops : List (LockOp (Mutex n) (Act n m))}
      (hplan : L.locks.plan th = .act (.pop w) :: ops) (hempty : L.server.queue = [])
      (hopen : L.server.queueShutdown = false) : LockedStep cfg L (L.waitNotEmpty th)
  | popNull {th : Thread n m} {w : Fin m} {ops : List (LockOp (Mutex n) (Act n m))} {s : State n m}
      (hplan : L.locks.plan th = .act (.pop w) :: ops) (hclosed : L.server.queueShutdown = true)
      (hempty : L.server.queue = []) (hs : L.server.step cfg (.worker w true) = some s) :
      LockedStep cfg L { L with
        server := s, notEmpty := L.notEmpty.leave th, locks := L.locks.setPlan th ops }
  | popped {th : Thread n m} {w : Fin m} {ops : List (LockOp (Mutex n) (Act n m))} {s : State n m}
      {woken : Finset (Thread n m)} (hplan : L.locks.plan th = .act (.pop w) :: ops)
      (hne : L.server.queue ≠ []) (hwoken : L.notFull.Signals woken)
      (hs : L.server.step cfg (.worker w true) = some s) :
      LockedStep cfg L
        ⟨s, L.locks.setPlan th ops, L.notEmpty.leave th, L.notFull.wake woken⟩
  | wakeNotEmpty {th : Thread n m} (hth : th ∈ L.notEmpty.waiting) :
      LockedStep cfg L { L with notEmpty := L.notEmpty.wake {th} }
  | wakeNotFull {th : Thread n m} (hth : th ∈ L.notFull.waiting) :
      LockedStep cfg L { L with notFull := L.notFull.wake {th} }

/-- A thread that comes to its next statement does only what `LockedStep` says. -/
theorem begin_spec {a : Action n m} (h : L.begin cfg a = some L') : LockedStep cfg L L' := by
  rw [LockedServer.begin] at h
  split at h
  · cases h
  · next th hth =>
    split at h
    · next hok =>
      obtain ⟨hplan, hstop⟩ := hok
      split at h
      · next a' ops hrun =>
        obtain ⟨hact, -⟩ := plan_act hth hrun
        cases hact
        obtain ⟨s, hs, rfl⟩ := Option.map_eq_some_iff.mp h
        exact .start hth hstop hplan hrun hs
      · next hlock =>
        cases h
        refine .plan hth hstop hplan fun x ops hact => ?_
        obtain ⟨rfl, -⟩ := plan_act hth hact
        exact hlock _ _ hact
    · cases h

/-- The critical section of `task_queue_push` does only what `LockedStep` says. -/
theorem push_spec {th : Thread n m} {t : Fin n} {ops : List (LockOp (Mutex n) (Act n m))}
    {woken : Finset (Thread n m)} (hplan : L.locks.plan th = .act (.push t) :: ops)
    (h : L.push cfg th t ops woken = some L') : LockedStep cfg L L' := by
  rw [LockedServer.push] at h
  split at h
  · next hfull =>
    cases h
    rw [Bool.and_eq_true, decide_eq_true_eq, Bool.not_eq_true'] at hfull
    exact .pushWaits hplan hfull.1 hfull.2
  · next hroom =>
    split at h
    · next hclosed =>
      obtain ⟨s, hs, rfl⟩ := Option.map_eq_some_iff.mp h
      exact .pushFails hplan hclosed hs
    · next hopen =>
      rw [Bool.not_eq_true] at hopen
      split at h
      · next hwoken =>
        obtain ⟨s, hs, rfl⟩ := Option.map_eq_some_iff.mp h
        exact .pushed hplan (by simpa [hopen] using hroom) hopen hwoken hs
      · cases h

/-- The critical section of `task_queue_pop` does only what `LockedStep` says. -/
theorem pop_spec {th : Thread n m} {w : Fin m} {ops : List (LockOp (Mutex n) (Act n m))}
    {woken : Finset (Thread n m)} (hplan : L.locks.plan th = .act (.pop w) :: ops)
    (h : L.pop cfg th w ops woken = some L') : LockedStep cfg L L' := by
  rw [LockedServer.pop] at h
  split at h
  · next hwait =>
    cases h
    rw [Bool.and_eq_true, List.isEmpty_iff, Bool.not_eq_true'] at hwait
    exact .popWaits hplan hwait.1 hwait.2
  · next hgo =>
    split at h
    · next hempty =>
      rw [List.isEmpty_iff] at hempty
      obtain ⟨s, hs, rfl⟩ := Option.map_eq_some_iff.mp h
      exact .popNull hplan (by simpa [hempty] using hgo) hempty hs
    · next hne =>
      rw [List.isEmpty_iff] at hne
      split at h
      · next hwoken =>
        obtain ⟨s, hs, rfl⟩ := Option.map_eq_some_iff.mp h
        exact .popped hplan hne hwoken hs
      · cases h

/-- The step function does only what `LockedStep` says. -/
theorem lockedStep_spec {a : LockedAction n m} (h : L.step cfg a = some L') :
    LockedStep cfg L L' := by
  cases a with
  | env e =>
    obtain ⟨s, hs, rfl⟩ := Option.map_eq_some_iff.mp h
    exact .env hs
  | begin a => exact begin_spec h
  | proceed th woken =>
    simp only [LockedServer.step, LockedServer.proceed] at h
    split at h
    case h_1 => cases h
    case h_2 x ops hplan =>
      split at h
      · next hok =>
        cases h
        exact .lock hplan hok.1 hok.2
      · cases h
    case h_3 x ops hplan =>
      cases h
      exact .unlock hplan
    case h_4 a ops hplan =>
      obtain ⟨s, hs, rfl⟩ := Option.map_eq_some_iff.mp h
      exact .run hplan hs
    case h_5 t ops hplan => exact push_spec hplan h
    case h_6 w ops hplan => exact pop_spec hplan h
  | spurious th =>
    simp only [LockedServer.step] at h
    split at h
    · next hth =>
      cases h
      exact .wakeNotEmpty hth
    · split at h
      · next hth =>
        cases h
        exact .wakeNotFull hth
      · cases h

end steps

end DeepInIo.AdvancedServer
