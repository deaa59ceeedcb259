import DeepInIo.AdvancedServer.Invariant
import DeepInIo.AdvancedServer.Locks

/-!
# What the threads plan and hold

The invariants of the server with its mutexes: a thread plans only what its program point allows
(`Planned`), the mutexes are taken in order, the threads at a condition variable are inside of a
call of the task queue (`Waiters`), and enough of them are woken (`LockedServer.Alert`).
-/

namespace DeepInIo.AdvancedServer

open State

variable {n m : ℕ} {cfg : Config n}

/-! ### Before `server_destroy` -/

/-- `server_destroy` has not begun, and no flag that ends a thread is set. -/
structure State.Serving (s : State n m) : Prop where
  running : s.Running
  pool : s.poolShutdown = false
  queue : s.queueShutdown = false
  worker : ∀ w, s.worker w ≠ .exited

section serving

variable {s s' : State n m}

theorem serving_start : (State.start cfg : State n m).Serving where
  running := trivial
  pool := rfl
  queue := rfl
  worker _ := nofun

/-- A worker exits only after the shutdown. -/
theorem WorkerStep.not_exited {w : Fin m} (h : WorkerStep cfg s w s')
    (hpool : s.poolShutdown = false) :
    s'.worker w ≠ .exited := by
  intro hexit
  cases h with
  | move hm =>
    rw [setWorker_worker, Function.update_self] at hexit
    subst hexit
    generalize s.worker w = pc at hm
    cases hm with
    | exit hset | noTaskExit hset =>
      rw [hpool] at hset
      cases hset
  | _ => simp [linkMessage] at hexit

/-- The main thread leaves its loop only when it is told to stop. -/
theorem MainStep.serving (h : MainStep cfg s s') (hs : s.Serving)
    (hstop : s.main = .wait → s'.main ≠ .closeListen) :
    s'.Running ∧ s'.poolShutdown = false ∧ s'.queueShutdown = false := by
  have hrun := hs.running
  cases h with
  | stop hpc => exact absurd rfl (hstop hpc)
  | acceptIntr => exact ⟨hrun, hs.pool, hs.queue⟩
  | woken | accept | acceptAgain | acceptFailed | getThread | noThread | create | createFailed
  | handOff | handOffFailed | drop | closeClient => exact ⟨trivial, hs.pool, hs.queue⟩
  | closeListen hpc | destroyLoop hpc | ioFlag hpc | ioWake hpc | ioWakeFailed hpc | ioJoin hpc
  | ioLoop hpc | ioClose0 hpc | ioClose1 hpc | ioFree hpc | poolShutdown hpc | queueShutdown hpc
  | joinWorkers hpc | destroyTask hpc | destroyed hpc =>
    rw [State.Running, hpc] at hrun
    exact hrun.elim

/-- Only the signal to stop leads from the loop of `server_start` to `server_destroy`. -/
theorem main_ne_closeListen {r : MainResult} (hs : s.mainStep cfg r = some s') (hr : r ≠ .stop)
    (hpc : s.main = .wait) : s'.main ≠ .closeListen := by
  intro hclose
  cases r <;> simp only [mainStep, hpc] at hs
  case ok =>
    split at hs <;> cases hs
    cases hclose
  case stop => exact hr rfl
  all_goals cases hs

/-- The server goes on until it is told to stop. -/
theorem State.Serving.step {a : Action n m} (h : s.Serving) (hs : s.step cfg a = some s')
    (hstop : a ≠ .main .stop) : s'.Serving := by
  cases a with
  | main r =>
    have hstep : MainStep cfg s s' := mainStep_spec hs
    have hr : r ≠ .stop := fun heq => hstop (by rw [heq])
    obtain ⟨hrun, hpool, hqueue⟩ := hstep.serving h (main_ne_closeListen hs hr)
    exact ⟨hrun, hpool, hqueue, fun w => by rw [hstep.worker_eq]; exact h.worker w⟩
  | io t r =>
    have hstep : IoStep cfg s t s' := ioStep_spec hs
    obtain ⟨hpool, hqueue⟩ := hstep.flags
    refine ⟨?_, hpool.trans h.pool, hqueue.trans h.queue, fun w => ?_⟩
    · rw [State.Running, hstep.main_eq]
      exact h.running
    · rw [hstep.worker_eq]
      exact h.worker w
  | worker w ok =>
    have hstep : WorkerStep cfg s w s' := workerStep_spec hs
    obtain ⟨hpool, hqueue⟩ := hstep.flags
    refine ⟨?_, hpool.trans h.pool, hqueue.trans h.queue, fun w' => ?_⟩
    · rw [State.Running, hstep.main_eq]
      exact h.running
    · by_cases hw : w' = w
      · subst hw
        exact hstep.not_exited h.pool
      · rw [hstep.worker_ne hw]
        exact h.worker w'
  | env e =>
    have hstep : EnvStep s s' := envStep_spec hs
    cases hstep <;> exact ⟨h.running, h.pool, h.queue, h.worker⟩

end serving

/-! ### The program point a plan was made for -/

/-- The step of an IO thread at this point, with this result, is possible in every state. -/
def IoPc.settled : IoPc → IoResult → Bool
  | .pipeRelease _, _ | .msgDrain, _ | .msgCheck _, _ | .msgRelease _, _ | .evCheck _, _
  | .closeMark .., _ | .closeRelease .., _ | .recheck .., _ => true
  | .rdCreate .., .ok | .rdCreate .., .failData => true
  | _, _ => false

/-- The step of the main thread at this point is possible in every state, and does not end the
loop. -/
def MainPc.settled : MainPc n → Bool
  | .getThread .. | .drop .. => true
  | _ => false

/-- The step of a worker at this point is possible in every state. -/
def WorkerPc.settled : WorkerPc n → Bool
  | .pop | .exited => false
  | _ => true

section settled

variable {s : State n m}

theorem ioStep_settled {t : Fin n} {r : IoResult} (h : (s.io t).pc.settled r = true) :
    ∃ s', s.ioStep cfg t r = some s' := by
  unfold ioStep
  generalize (s.io t).pc = pc at h ⊢
  cases pc with
  | rdCreate x data => cases r <;> first | cases h; done | exact ⟨_, rfl⟩
  | pipeRelease | msgDrain | msgCheck | msgRelease | evCheck | closeMark | closeRelease | recheck =>
    exact ⟨_, rfl⟩
  | _ => cases h

theorem mainStep_settled {r : MainResult} (h : s.main.settled = true) :
    ∃ s', s.mainStep cfg r = some s' := by
  unfold mainStep
  generalize s.main = pc at h ⊢
  cases pc with
  | getThread | drop => exact ⟨_, rfl⟩
  | _ => cases h

theorem workerStep_settled {w : Fin m} {ok : Bool} (h : (s.worker w).settled = true) :
    ∃ s', s.workerStep cfg w ok = some s' := by
  unfold workerStep
  generalize s.worker w = pc at h ⊢
  cases pc with
  | pop | exited => cases h
  | _ => exact ⟨_, rfl⟩

end settled

/-- What a thread may have planned at its program point. -/
inductive Planned (s : State n m) : Thread n m → List (LockOp (Mutex n) (Act n m)) → Prop
  | idle {th : Thread n m} {ops : List (LockOp (Mutex n) (Act n m))} (h : acts ops = []) :
      Planned s th ops
  | io {t : Fin n} {r : IoResult} {ops : List (LockOp (Mutex n) (Act n m))}
      (h : acts ops = [.run (.io t r)]) (hpc : (s.io t).pc.settled r = true) : Planned s (.io t) ops
  | main {r : MainResult} {ops : List (LockOp (Mutex n) (Act n m))}
      (h : acts ops = [.run (.main r)]) (hpc : s.main.settled = true) (hr : r ≠ .stop) :
        Planned s .main ops
  | worker {w : Fin m} {ok : Bool} {ops : List (LockOp (Mutex n) (Act n m))}
      (h : acts ops = [.run (.worker w ok)]) (hpc : (s.worker w).settled = true) :
      Planned s (.worker w) ops
  | send {w : Fin m} {ok : Bool} {task : Task} {t : Fin n} {ops : List (LockOp (Mutex n) (Act n m))}
      (h : acts ops = [.run (.worker w ok), .run (.worker w ok)])
      (hpc : s.worker w = .sendAcquire task t) :
      Planned s (.worker w) ops
  | push {t : Fin n} {x : EventContext} {task : Task} {ops : List (LockOp (Mutex n) (Act n m))}
      (h : ops = queueCall (.push t) ∨ ops = (queueCall (.push t)).tail)
      (hpc : (s.io t).pc = .rdSubmit x task) : Planned s (.io t) ops
  | pop {w : Fin m} {ops : List (LockOp (Mutex n) (Act n m))}
      (h : ops = queueCall (.pop w) ∨ ops = (queueCall (.pop w)).tail) (hpc : s.worker w = .pop) :
      Planned s (.worker w) ops

section planned

variable {s s' : State n m} {th : Thread n m} {ops : List (LockOp (Mutex n) (Act n m))}

/-- A plan that begins with a mutex fits the program point. -/
theorem planned_plan {a : Action n m} (hth : a.thread? = some th) (hstop : a ≠ .main .stop)
    (hlock : ∀ x ops, s.plan a ≠ .act x :: ops) : Planned s th (s.plan a) := by
  cases a with
  | main r =>
    cases hth
    have hr : r ≠ .stop := fun heq => hstop (by rw [heq])
    simp only [State.plan, mainPlan] at hlock ⊢
    cases hpc : s.main <;> simp only [hpc] at hlock ⊢
    case getThread f sk =>
      split
      · next hn => simp [hn, noMutex] at hlock
      · exact .main rfl (by rw [hpc]; rfl) hr
    case drop => exact .main rfl (by rw [hpc]; rfl) hr
    case handoff => split at hlock <;> simp [noMutex, thenCount] at hlock
    all_goals simp [noMutex] at hlock
  | io t r =>
    cases hth
    simp only [State.plan, ioPlan] at hlock ⊢
    cases hpc : (s.io t).pc <;> simp only [hpc] at hlock ⊢
    case pipeRelease | msgDrain | msgRelease | evCheck | closeMark | closeRelease | recheck =>
      exact .io rfl (by rw [hpc]; rfl)
    case msgCheck msg =>
      split
      · exact .io rfl (by rw [hpc]; rfl)
      · next hne => simp [hne, noMutex] at hlock
    case rdCreate x data =>
      cases r
      case ok | failData => exact .io rfl (by rw [hpc]; rfl)
      all_goals simp [noMutex] at hlock
    case rdSubmit x task =>
      split
      · next hset => simp [hset, noMutex] at hlock
      · exact .push (.inl rfl) hpc
    case pipeAdd => split at hlock <;> simp [noMutex, thenCount] at hlock
    case rdRead => cases r <;> simp [noMutex, thenCount] at hlock
    case wrLoop =>
      cases r
      case wrote =>
        simp only at hlock
        split at hlock <;> simp [noMutex, thenCount] at hlock
      all_goals simp [noMutex] at hlock
    all_goals simp [noMutex] at hlock
  | worker w ok =>
    cases hth
    simp only [State.plan, workerPlan] at hlock ⊢
    cases hpc : s.worker w <;> simp only [hpc] at hlock ⊢
    case pop => exact .pop (.inl rfl) hpc
    case sendAcquire => exact .send rfl hpc
    case closeMark | closeRelease | destroy | stats => exact .worker rfl (by rw [hpc]; rfl)
    case check task =>
      split
      · exact .worker rfl (by rw [hpc]; rfl)
      · next hne => simp [hne, noMutex] at hlock
    case sendTest task =>
      split
      · exact .worker rfl (by rw [hpc]; rfl)
      · next hne => simp [hne, noMutex] at hlock
    all_goals simp [noMutex] at hlock
  | env e => cases hth

/-- The program point of a thread is the same in two states. -/
def SamePoint (s s' : State n m) : Thread n m → Prop
  | .main => s'.main = s.main
  | .io t => (s'.io t).pc = (s.io t).pc
  | .worker w => s'.worker w = s.worker w

/-- A plan fits as long as the thread stays where it is. -/
theorem Planned.congr (h : Planned s th ops) (hsame : SamePoint s s' th) : Planned s' th ops := by
  cases h with
  | idle h => exact .idle h
  | io h hpc => exact .io h (hsame ▸ hpc)
  | main h hpc hr => exact .main h (hsame ▸ hpc) hr
  | worker h hpc => exact .worker h (hsame ▸ hpc)
  | send h hpc => exact .send h (hsame.trans hpc)
  | push h hpc => exact .push h (hsame.trans hpc)
  | pop h hpc => exact .pop h (hsame.trans hpc)

/-- A step moves only its own thread. -/
theorem samePoint_step {a : Action n m} (hs : s.step cfg a = some s') (hth : a.thread? ≠ some th) :
    SamePoint s s' th := by
  cases a with
  | main r =>
    have hstep : MainStep cfg s s' := mainStep_spec hs
    cases th with
    | main => exact absurd rfl hth
    | io t => exact (hstep.io_eq t).1
    | worker w => exact congrFun hstep.worker_eq w
  | io t r =>
    have hstep : IoStep cfg s t s' := ioStep_spec hs
    cases th with
    | main => exact hstep.main_eq
    | io t' => exact congrArg IoThread.pc (hstep.io_ne fun heq => hth (by rw [heq]; rfl))
    | worker w => exact congrFun hstep.worker_eq w
  | worker w ok =>
    have hstep : WorkerStep cfg s w s' := workerStep_spec hs
    cases th with
    | main => exact hstep.main_eq
    | io t => exact (hstep.io_eq t).2.1
    | worker w' => exact hstep.worker_ne fun heq => hth (by rw [heq]; rfl)
  | env e =>
    have hstep : EnvStep s s' := envStep_spec hs
    cases hstep <;> cases th <;> rfl

/-- The step that a thread has planned is its own, and does not end the loop. -/
theorem Planned.run {a : Action n m} (h : Planned s th (.act (.run a) :: ops)) :
    a.thread? = some th ∧ a ≠ .main .stop := by
  cases h with
  | idle h => cases h
  | main h hpc hr =>
    injection h with h₁
    cases h₁
    exact ⟨rfl, fun heq => hr (by cases heq; rfl)⟩
  | io h hpc | worker h hpc | send h hpc =>
    injection h with h₁
    cases h₁
    exact ⟨rfl, nofun⟩
  | push h hpc | pop h hpc => rcases h with h | h <;> cases h

/-- The step that a thread has planned is possible. -/
theorem Planned.enabled {a : Action n m} (h : Planned s th (.act (.run a) :: ops)) :
    ∃ s', s.step cfg a = some s' := by
  cases h with
  | idle h => cases h
  | io h hpc =>
    injection h with h₁
    cases h₁
    exact ioStep_settled hpc
  | main h hpc hr =>
    injection h with h₁
    cases h₁
    exact mainStep_settled hpc
  | worker h hpc =>
    injection h with h₁
    cases h₁
    exact workerStep_settled hpc
  | send h hpc =>
    injection h with h₁
    cases h₁
    exact workerStep_settled (by rw [hpc]; rfl)
  | push h hpc | pop h hpc => rcases h with h | h <;> cases h

/-- What is left of the plan fits after the step. -/
theorem Planned.after_run {a : Action n m} (h : Planned s th (.act (.run a) :: ops))
    (hs : s.step cfg a = some s') : Planned s' th ops := by
  cases h with
  | idle h => cases h
  | io h hpc | main h hpc hr | worker h hpc =>
    injection h with h₁ h₂
    exact .idle h₂
  | @send w ok task t _ h hpc =>
    injection h with h₁ h₂
    cases h₁
    have hstep : WorkerStep cfg s w s' := workerStep_spec hs
    refine .worker h₂ ?_
    have hlink : s'.worker w = .sendLink task t := by
      cases hstep with
      | move hm =>
        rw [hpc] at hm
        cases hm
      | acquire hpc' =>
        rw [hpc] at hpc'
        cases hpc'
        simp
      | _ hpc' =>
        rw [hpc] at hpc'
        cases hpc'
    rw [hlink]
    rfl
  | push h hpc => rcases h with h | h <;> cases h
  | pop h hpc => rcases h with h | h <;> cases h

/-- A mutex operation does not change what is planned after it. -/
theorem Planned.after_lock {x : Mutex n} (h : Planned s th (.lock x :: ops)) :
    Planned s th ops := by
  cases h with
  | idle h => exact .idle h
  | io h hpc => exact .io h hpc
  | main h hpc hr => exact .main h hpc hr
  | worker h hpc => exact .worker h hpc
  | send h hpc => exact .send h hpc
  | push h hpc =>
    rcases h with h | h <;> cases h
    exact .push (.inr rfl) hpc
  | pop h hpc =>
    rcases h with h | h <;> cases h
    exact .pop (.inr rfl) hpc

/-- A mutex operation does not change what is planned after it. -/
theorem Planned.after_unlock {x : Mutex n} (h : Planned s th (.unlock x :: ops)) :
    Planned s th ops := by
  cases h with
  | idle h => exact .idle h
  | io h hpc => exact .io h hpc
  | main h hpc hr => exact .main h hpc hr
  | worker h hpc => exact .worker h hpc
  | send h hpc => exact .send h hpc
  | push h hpc | pop h hpc => rcases h with h | h <;> cases h

/-- A thread about to push is an IO thread at `thread_pool_submit`. -/
theorem Planned.push_eq {t : Fin n} (h : Planned s th (.act (.push t) :: ops)) :
    th = .io t ∧ ops = [.unlock .taskQueue] ∧ ∃ x task, (s.io t).pc = .rdSubmit x task := by
  cases h with
  | idle h | io h hpc | main h hpc hr | worker h hpc | send h hpc => cases h
  | push h hpc =>
    rcases h with h | h <;> cases h
    exact ⟨rfl, rfl, _, _, hpc⟩
  | pop h hpc => rcases h with h | h <;> cases h

/-- A thread about to pop is a worker at `task_queue_pop`. -/
theorem Planned.pop_eq {w : Fin m} (h : Planned s th (.act (.pop w) :: ops)) :
    th = .worker w ∧ ops = [.unlock .taskQueue] ∧ s.worker w = .pop := by
  cases h with
  | idle h | io h hpc | main h hpc hr | worker h hpc | send h hpc => cases h
  | push h hpc => rcases h with h | h <;> cases h
  | pop h hpc =>
    rcases h with h | h <;> cases h
    exact ⟨rfl, rfl, hpc⟩

end planned

/-! ### The threads at the condition variables -/

/-- The threads at a condition variable are inside of calls of the task queue: those that wait will
have to take the mutex, and those that were woken have not run since. -/
structure Waiters (c : Condition (Thread n m))
    (plan : Thread n m → List (LockOp (Mutex n) (Act n m))) (call : Thread n m → Act n m → Prop) :
    Prop where
  waiting : ∀ th ∈ c.waiting, ∃ a, call th a ∧ plan th = queueCall a
  signalled : ∀ th ∈ c.signalled, ∃ a, call th a ∧ acts (plan th) = [a]
  disjoint : Disjoint c.waiting c.signalled

/-- The calls of `task_queue_push`. -/
inductive IsPush : Thread n m → Act n m → Prop
  | intro (t : Fin n) : IsPush (.io t) (.push t)

/-- The calls of `task_queue_pop`. -/
inductive IsPop : Thread n m → Act n m → Prop
  | intro (w : Fin m) : IsPop (.worker w) (.pop w)

namespace Waiters

variable {c : Condition (Thread n m)} {plan : Thread n m → List (LockOp (Mutex n) (Act n m))}
  {call : Thread n m → Act n m → Prop} {th : Thread n m} {ops : List (LockOp (Mutex n) (Act n m))}

theorem idle : Waiters (.idle (Thread n m)) plan call :=
  ⟨nofun, nofun, Finset.disjoint_empty_left _⟩

/-- A thread that does not wait proceeds, and if it was woken then it still has its call before
it. -/
theorem update (h : Waiters c plan call) (hw : th ∉ c.waiting)
    (hs : th ∈ c.signalled → acts ops = acts (plan th)) :
    Waiters c (Function.update plan th ops) call where
  waiting th' hth' := by
    have hne : th' ≠ th := fun heq => hw (heq ▸ hth')
    rw [Function.update_of_ne hne]
    exact h.waiting th' hth'
  signalled th' hth' := by
    by_cases heq : th' = th
    · subst heq
      rw [Function.update_self, hs hth']
      exact h.signalled th' hth'
    · rw [Function.update_of_ne heq]
      exact h.signalled th' hth'
  disjoint := h.disjoint

/-- A thread that does not have such a call before it is not at the condition variable. -/
theorem update_of_acts (h : Waiters c plan call) (hno : ∀ a, call th a → acts (plan th) ≠ [a]) :
    Waiters c (Function.update plan th ops) call := by
  refine h.update (fun hw => ?_) fun hs => ?_
  · obtain ⟨a, ha, hplan⟩ := h.waiting th hw
    exact hno a ha (by rw [hplan]; rfl)
  · obtain ⟨a, ha, hplan⟩ := h.signalled th hs
    exact absurd hplan (hno a ha)

/-- A thread that does not wait leaves. -/
theorem leave (h : Waiters c plan call) (hw : th ∉ c.waiting) :
    Waiters (c.leave th) (Function.update plan th ops) call where
  waiting th' hth' := by
    have hne : th' ≠ th := fun heq => hw (heq ▸ hth')
    rw [Function.update_of_ne hne]
    exact h.waiting th' hth'
  signalled th' hth' := by
    obtain ⟨hne, hmem⟩ := Finset.mem_erase.mp hth'
    rw [Function.update_of_ne hne]
    exact h.signalled th' hmem
  disjoint := Condition.disjoint_leave h.disjoint th

/-- A thread begins to wait. -/
theorem wait (h : Waiters c plan call) {a : Act n m} (ha : call th a) (hops : ops = queueCall a) :
    Waiters ((c.leave th).wait th) (Function.update plan th ops) call where
  waiting th' hth' := by
    by_cases heq : th' = th
    · subst heq
      exact ⟨a, ha, by rw [Function.update_self, hops]⟩
    · rw [Function.update_of_ne heq]
      exact h.waiting th' (Finset.mem_of_mem_insert_of_ne hth' heq)
  signalled th' hth' := by
    obtain ⟨hne, hmem⟩ := Finset.mem_erase.mp hth'
    rw [Function.update_of_ne hne]
    exact h.signalled th' hmem
  disjoint :=
    Condition.disjoint_wait (Condition.disjoint_leave h.disjoint th) (Finset.notMem_erase th _)

/-- Threads are woken. -/
theorem wake (h : Waiters c plan call) {W : Finset (Thread n m)} (hW : W ⊆ c.waiting) :
    Waiters (c.wake W) plan call where
  waiting th hth := h.waiting th (Finset.mem_sdiff.mp hth).1
  signalled th hth := by
    rcases Finset.mem_union.mp hth with hs | hw
    · exact h.signalled th hs
    · obtain ⟨a, ha, hplan⟩ := h.waiting th (hW hw)
      exact ⟨a, ha, by rw [hplan]; rfl⟩
  disjoint := Condition.disjoint_wake h.disjoint W

end Waiters

/-! ### The task queue -/

section queue

variable {s s' : State n m} {th : Thread n m} {ops : List (LockOp (Mutex n) (Act n m))}

/-- The step works on the task queue. -/
def Action.UsesQueue (s : State n m) : Action n m → Prop
  | .main _ => s.main = .queueDestroy
  | .io t _ => ∃ x task, (s.io t).pc = .rdSubmit x task
  | .worker w _ => s.worker w = .pop
  | .env _ => False

/-- All other steps leave the task queue alone. -/
theorem queue_eq_of_not_usesQueue {a : Action n m} (hs : s.step cfg a = some s')
    (ha : ¬a.UsesQueue s) :
    s'.queue = s.queue := by
  cases a with
  | main r =>
    have hstep : MainStep cfg s s' := mainStep_spec hs
    cases hstep with
    | destroyTask hpc => exact absurd hpc ha
    | _ => rfl
  | io t r =>
    have hstep : IoStep cfg s t s' := ioStep_spec hs
    cases hstep with
    | submit hpc => exact absurd ⟨_, _, hpc⟩ ha
    | _ => rfl
  | worker w ok =>
    have hstep : WorkerStep cfg s w s' := workerStep_spec hs
    cases hstep with
    | pop hpc => exact absurd hpc ha
    | _ => rfl
  | env e =>
    have hstep : EnvStep s s' := envStep_spec hs
    cases hstep <;> rfl

/-- A step that begins without a mutex does not work on the task queue. -/
theorem not_usesQueue_of_plan {a : Action n m} (hserving : s.Serving)
    (hplan : s.plan a = .act (.run a) :: ops) : ¬a.UsesQueue s := by
  intro huses
  cases a with
  | main r =>
    have hrun := hserving.running
    rw [State.Running, huses] at hrun
    exact hrun.elim
  | io t r =>
    obtain ⟨x, task, hpc⟩ := huses
    simp [State.plan, ioPlan, hpc, hserving.pool, queueCall] at hplan
  | worker w ok =>
    have hpc : s.worker w = .pop := huses
    simp [State.plan, workerPlan, hpc, queueCall] at hplan
  | env e => exact huses

/-- A planned step does not work on the task queue. -/
theorem Planned.not_usesQueue {a : Action n m} (h : Planned s th (.act (.run a) :: ops)) :
    ¬a.UsesQueue s := by
  intro huses
  cases h with
  | idle h => cases h
  | io h hpc =>
    injection h with h₁
    cases h₁
    obtain ⟨x, task, hsubmit⟩ := huses
    rw [hsubmit] at hpc
    cases hpc
  | main h hpc hr =>
    injection h with h₁
    cases h₁
    have hmain : s.main = .queueDestroy := huses
    rw [hmain] at hpc
    cases hpc
  | @worker w ok _ h hpc =>
    injection h with h₁
    cases h₁
    have hpop : s.worker w = .pop := huses
    rw [hpop] at hpc
    cases hpc
  | @send w ok _ _ _ h hpc =>
    injection h with h₁
    cases h₁
    have hpop : s.worker w = .pop := huses
    rw [hpop] at hpc
    cases hpc
  | push h hpc => rcases h with h | h <;> cases h
  | pop h hpc => rcases h with h | h <;> cases h

/-- `task_queue_push` adds one task. -/
theorem length_queue_push {t : Fin n} {x : EventContext} {task : Task} (hserving : s.Serving)
    (hpc : (s.io t).pc = .rdSubmit x task) (hs : s.step cfg (.io t .ok) = some s') :
    s'.queue.length = s.queue.length + 1 := by
  change s.ioStep cfg t .ok = some s' at hs
  simp only [ioStep, hpc, State.submit, hserving.pool, hserving.queue, Bool.or_self] at hs
  rw [if_neg (by simp)] at hs
  split at hs
  · cases hs
    simp
  · cases hs

/-- `task_queue_pop` takes one task. -/
theorem length_queue_pop {w : Fin m} (hpc : s.worker w = .pop) (hne : s.queue ≠ [])
    (hs : s.step cfg (.worker w true) = some s') : s'.queue.length + 1 = s.queue.length := by
  change s.workerStep cfg w true = some s' at hs
  simp only [workerStep, hpc, popTask] at hs
  cases hq : s.queue with
  | nil => exact absurd hq hne
  | cons task rest =>
    rw [hq] at hs
    cases hs
    simp

end queue

/-! ### The invariant -/

/-- Enough threads are awake: a worker waits for a task only while there are as many woken workers
as tasks, and an IO thread waits for room only while there are as many woken IO threads as free
places. -/
structure LockedServer.Alert (cfg : Config n) (L : LockedServer n m) : Prop where
  workers : Waiters L.notEmpty L.locks.plan IsPop
  ioThreads : Waiters L.notFull L.locks.plan IsPush
  tasks : L.notEmpty.Covers L.server.queue.length
  room : L.notFull.Covers (cfg.maxSize - L.server.queue.length)

/-- The invariant of the server with its mutexes. -/
structure LockedServer.Ok (cfg : Config n) (L : LockedServer n m) : Prop where
  serving : L.server.Serving
  planned : ∀ th, Planned L.server th (L.locks.plan th)
  disciplined : L.locks.Disciplined Mutex.rank
  alert : L.Alert cfg

section invariant

variable {L L' : LockedServer n m}

/-- The server goes on. -/
theorem LockedStep.serving (h : LockedStep cfg L L') (hi : L.Ok cfg) : L'.server.Serving := by
  have hs := hi.serving
  cases h with
  | env henv => exact hs.step henv nofun
  | start hth hstop hplan hrun hstep => exact hs.step hstep hstop
  | @run th a ops s hplan hstep =>
    have hth := hi.planned th
    rw [hplan] at hth
    exact hs.step hstep hth.run.2
  | pushFails hplan hclosed hstep | pushed hplan hroom hopen hwoken hstep
  | popNull hplan hclosed hempty hstep | popped hplan hne hwoken hstep => exact hs.step hstep nofun
  | plan | lock | unlock | pushWaits | popWaits | wakeNotEmpty | wakeNotFull => exact hs

/-- The plan of one thread is replaced, and the others stay where they are. -/
theorem planned_update {s s' : State n m} {plan : Thread n m → List (LockOp (Mutex n) (Act n m))}
    {th : Thread n m} {ops : List (LockOp (Mutex n) (Act n m))}
    (h : ∀ th', Planned s th' (plan th')) (hself : Planned s' th ops)
    (hother : ∀ th', th' ≠ th → SamePoint s s' th') (th' : Thread n m) :
    Planned s' th' (Function.update plan th ops th') := by
  by_cases heq : th' = th
  · subst heq
    rwa [Function.update_self]
  · rw [Function.update_of_ne heq]
    exact (h th').congr (hother th' heq)

/-- A thread stays where it is when nothing happens to the server. -/
theorem SamePoint.refl (s : State n m) (th : Thread n m) : SamePoint s s th := by
  cases th <;> rfl

/-- Every thread plans what its program point allows. -/
theorem LockedStep.planned (h : LockedStep cfg L L') (hi : L.Ok cfg) (th : Thread n m) :
    Planned L'.server th (L'.locks.plan th) := by
  have hp := hi.planned
  have hown : ∀ {a : Action n m} {s : State n m} {th : Thread n m}, a.thread? = some th →
      L.server.step cfg a = some s → ∀ th', th' ≠ th → SamePoint L.server s th' := by
    intro a s th hth hs th' hne
    refine samePoint_step hs fun heq => hne ?_
    rw [hth] at heq
    exact (Option.some.inj heq).symm
  cases h with
  | env henv => exact (hp th).congr (samePoint_step henv nofun)
  | plan hth hstop hplan hlock =>
    exact planned_update hp (planned_plan hth hstop hlock) (fun th' _ => .refl ..) th
  | start hth hstop hplan hrun hs =>
    exact planned_update hp (.idle (plan_act hth hrun).2) (hown hth hs) th
  | @lock th₀ x ops hplan hfree hawake =>
    have hself := hp th₀
    rw [hplan] at hself
    exact planned_update hp hself.after_lock (fun th' _ => .refl ..) th
  | @unlock th₀ x ops hplan =>
    have hself := hp th₀
    rw [hplan] at hself
    exact planned_update hp hself.after_unlock (fun th' _ => .refl ..) th
  | @run th₀ a ops s hplan hs =>
    have hself := hp th₀
    rw [hplan] at hself
    exact planned_update hp (hself.after_run hs) (hown hself.run.1 hs) th
  | @pushWaits th₀ t ops hplan hfull hopen =>
    have hself := hp th₀
    rw [hplan] at hself
    obtain ⟨rfl, rfl, x, task, hpc⟩ := hself.push_eq
    refine planned_update hp (.push (.inl ?_) hpc) (fun th' _ => .refl ..) th
    rw [hplan]
    rfl
  | @popWaits th₀ w ops hplan hempty hopen =>
    have hself := hp th₀
    rw [hplan] at hself
    obtain ⟨rfl, rfl, hpc⟩ := hself.pop_eq
    refine planned_update hp (.pop (.inl ?_) hpc) (fun th' _ => .refl ..) th
    rw [hplan]
    rfl
  | @pushFails th₀ t ops s hplan hclosed hs
  | @pushed th₀ t ops s woken hplan hroom hopen hwoken hs =>
    have hself := hp th₀
    rw [hplan] at hself
    obtain ⟨rfl, rfl, x, task, hpc⟩ := hself.push_eq
    exact planned_update hp (.idle rfl) (hown rfl hs) th
  | @popNull th₀ w ops s hplan hclosed hempty hs | @popped th₀ w ops s woken hplan hne hwoken hs =>
    have hself := hp th₀
    rw [hplan] at hself
    obtain ⟨rfl, rfl, hpc⟩ := hself.pop_eq
    exact planned_update hp (.idle rfl) (hown rfl hs) th
  | wakeNotEmpty | wakeNotFull => exact hp th

/-- Nothing is held when nothing is left to do. -/
theorem eq_nil_of_runLocks_nil {held : List (Mutex n)}
    (h : runLocks Mutex.rank held ([] : List (LockOp (Mutex n) (Act n m))) = some []) :
    held = [] := by
  rw [runLocks_nil] at h
  exact Option.some.inj h

/-- The mutexes are taken in order. -/
theorem LockedStep.disciplined (h : LockedStep cfg L L') (hi : L.Ok cfg) :
    L'.locks.Disciplined Mutex.rank := by
  have hd := hi.disciplined
  cases h with
  | env | wakeNotEmpty | wakeNotFull => exact hd
  | plan hth hstop hplan hlock => exact hd.begin hplan (plan_inOrder hth)
  | start hth hstop hplan hrun hs =>
    have horder := plan_inOrder (s := L.server) hth
    rw [hrun, runLocks_act] at horder
    exact hd.begin hplan horder
  | lock hplan hfree hawake => exact hd.acquire hplan hfree
  | unlock hplan => exact hd.release hplan
  | run hplan hs | pushFails hplan hclosed hs | pushed hplan hroom hopen hwoken hs
  | popNull hplan hclosed hempty hs | popped hplan hne hwoken hs => exact hd.act hplan
  | @pushWaits th t ops hplan hfull hopen =>
    have hself := hi.planned th
    rw [hplan] at hself
    obtain ⟨-, rfl, -⟩ := hself.push_eq
    exact hd.wait hplan fun held => eq_nil_of_runLocks_nil
  | @popWaits th w ops hplan hempty hopen =>
    have hself := hi.planned th
    rw [hplan] at hself
    obtain ⟨-, rfl, -⟩ := hself.pop_eq
    exact hd.wait hplan fun held => eq_nil_of_runLocks_nil

/-- The operations that only concern the server leave the threads at the condition variables
alone. -/
theorem LockedServer.Alert.run (h : L.Alert cfg) {th : Thread n m}
    {ops : List (LockOp (Mutex n) (Act n m))} {s : State n m} (hqueue : s.queue = L.server.queue)
    (hno : ∀ a, IsPop th a ∨ IsPush th a → acts (L.locks.plan th) ≠ [a]) :
    LockedServer.Alert cfg { L with server := s, locks := L.locks.setPlan th ops } where
  workers := h.workers.update_of_acts fun a ha => hno a (.inl ha)
  ioThreads := h.ioThreads.update_of_acts fun a ha => hno a (.inr ha)
  tasks := by
    change L.notEmpty.Covers s.queue.length
    rw [hqueue]
    exact h.tasks
  room := by
    change L.notFull.Covers (cfg.maxSize - s.queue.length)
    rw [hqueue]
    exact h.room

/-- A thread with a plan that begins with the action `x` is not at the other condition variables. -/
theorem acts_ne {th : Thread n m} {x : Act n m} {ops : List (LockOp (Mutex n) (Act n m))}
    (hplan : L.locks.plan th = .act x :: ops) {a : Act n m} (hne : a ≠ x) :
    acts (L.locks.plan th) ≠ [a] := by
  intro hacts
  rw [hplan] at hacts
  injection hacts with hx
  exact hne hx.symm

/-- Enough threads stay awake. -/
theorem LockedStep.alert (h : LockedStep cfg L L') (hi : L.Ok cfg) : L'.Alert cfg := by
  have ha := hi.alert
  have hidle : ∀ {th : Thread n m}, L.locks.plan th = [] →
      ∀ a, IsPop th a ∨ IsPush th a → acts (L.locks.plan th) ≠ [a] := by
    intro th hplan a _ hacts
    rw [hplan] at hacts
    cases hacts
  cases h with
  | env hs =>
    have hqueue := queue_eq_of_not_usesQueue hs id
    refine ⟨ha.workers, ha.ioThreads, ?_, ?_⟩
    · change L.notEmpty.Covers _
      rw [hqueue]
      exact ha.tasks
    · change L.notFull.Covers _
      rw [hqueue]
      exact ha.room
  | plan hth hstop hplan hlock => exact ha.run rfl (hidle hplan)
  | start hth hstop hplan hrun hs =>
    exact ha.run (queue_eq_of_not_usesQueue hs (not_usesQueue_of_plan hi.serving hrun))
      (hidle hplan)
  | @run th a ops s hplan hs =>
    have hself := hi.planned th
    rw [hplan] at hself
    refine ha.run (queue_eq_of_not_usesQueue hs hself.not_usesQueue) fun x hx => acts_ne hplan ?_
    rintro rfl
    rcases hx with hx | hx <;> cases hx
  | @lock th x ops hplan hfree hawake =>
    have hacts : acts ops = acts (L.locks.plan th) := by rw [hplan]; rfl
    exact ⟨ha.workers.update (fun hw => hawake (.inl hw)) fun _ => hacts,
      ha.ioThreads.update (fun hw => hawake (.inr hw)) fun _ => hacts, ha.tasks, ha.room⟩
  | @unlock th x ops hplan =>
    have hacts : acts ops = acts (L.locks.plan th) := by rw [hplan]; rfl
    refine ⟨ha.workers.update (fun hw => ?_) fun _ => hacts,
      ha.ioThreads.update (fun hw => ?_) fun _ => hacts, ha.tasks, ha.room⟩
    · obtain ⟨a, -, hcall⟩ := ha.workers.waiting th hw
      rw [hplan] at hcall
      cases hcall
    · obtain ⟨a, -, hcall⟩ := ha.ioThreads.waiting th hw
      rw [hplan] at hcall
      cases hcall
  | @pushWaits th t ops hplan hfull hopen =>
    have hself := hi.planned th
    rw [hplan] at hself
    obtain ⟨rfl, rfl, -⟩ := hself.push_eq
    refine ⟨ha.workers.update_of_acts fun a hpop => acts_ne hplan ?_, ?_, ha.tasks, ?_⟩
    · rintro rfl
      cases hpop
    · exact ha.ioThreads.wait (.intro t) (by rw [hplan]; rfl)
    · refine Condition.covers_of_nonpos ?_
      change (cfg.maxSize : ℤ) - L.server.queue.length ≤ 0
      omega
  | @popWaits th w ops hplan hempty hopen =>
    have hself := hi.planned th
    rw [hplan] at hself
    obtain ⟨rfl, rfl, -⟩ := hself.pop_eq
    refine ⟨?_, ha.ioThreads.update_of_acts fun a hpush => acts_ne hplan ?_, ?_, ha.room⟩
    · exact ha.workers.wait (.intro w) (by rw [hplan]; rfl)
    · rintro rfl
      cases hpush
    · refine Condition.covers_of_nonpos ?_
      change (L.server.queue.length : ℤ) ≤ 0
      rw [hempty]
      exact le_rfl
  | pushFails hplan hclosed hs | popNull hplan hclosed hempty hs =>
    rw [hi.serving.queue] at hclosed
    cases hclosed
  | @pushed th t ops s woken hplan hroom hopen hwoken hs =>
    have hself := hi.planned th
    rw [hplan] at hself
    obtain ⟨rfl, rfl, x, task, hpc⟩ := hself.push_eq
    have hlen := length_queue_push hi.serving hpc hs
    have hnot : Thread.io t ∉ L.notFull.waiting := by
      intro hw
      obtain ⟨a, -, hcall⟩ := ha.ioThreads.waiting _ hw
      rw [hplan] at hcall
      cases hcall
    refine ⟨(ha.workers.update_of_acts fun a hpop => acts_ne hplan ?_).wake hwoken.1,
      ha.ioThreads.leave hnot, ?_, ?_⟩
    · rintro rfl
      cases hpop
    · refine (ha.tasks.signal ha.workers.disjoint hwoken).mono ?_
      change (s.queue.length : ℤ) ≤ L.server.queue.length + 1
      omega
    · refine (ha.room.leave (.io t)).mono ?_
      change (cfg.maxSize : ℤ) - s.queue.length ≤ cfg.maxSize - L.server.queue.length - 1
      omega
  | @popped th w ops s woken hplan hne hwoken hs =>
    have hself := hi.planned th
    rw [hplan] at hself
    obtain ⟨rfl, rfl, hpc⟩ := hself.pop_eq
    have hlen := length_queue_pop hpc hne hs
    have hnot : Thread.worker w ∉ L.notEmpty.waiting := by
      intro hw
      obtain ⟨a, -, hcall⟩ := ha.workers.waiting _ hw
      rw [hplan] at hcall
      cases hcall
    refine ⟨ha.workers.leave hnot,
      (ha.ioThreads.update_of_acts fun a hpush => acts_ne hplan ?_).wake hwoken.1, ?_, ?_⟩
    · rintro rfl
      cases hpush
    · refine (ha.tasks.leave (.worker w)).mono ?_
      change (s.queue.length : ℤ) ≤ L.server.queue.length - 1
      omega
    · refine (ha.room.signal ha.ioThreads.disjoint hwoken).mono ?_
      change (cfg.maxSize : ℤ) - s.queue.length ≤ cfg.maxSize - L.server.queue.length + 1
      omega
  | @wakeNotEmpty th hth =>
    exact ⟨ha.workers.wake (Finset.singleton_subset_iff.mpr hth), ha.ioThreads, ha.tasks.wake _,
      ha.room⟩
  | @wakeNotFull th hth =>
    exact ⟨ha.workers, ha.ioThreads.wake (Finset.singleton_subset_iff.mpr hth), ha.tasks,
      ha.room.wake _⟩

/-- The invariant holds in every state of the server with its mutexes. -/
theorem reachable_ok (h : (lockedServer m cfg).Reachable L) : L.Ok cfg := by
  refine h.invariant ?_ fun L a L' _ hi hs => ?_
  · rintro _ rfl
    exact ⟨serving_start, fun th => .idle rfl,
      fun th => ⟨[], List.nodup_nil, fun x => by simp, rfl⟩, .idle, .idle,
      Condition.covers_of_empty rfl, Condition.covers_of_empty rfl⟩
  · have hstep : LockedStep cfg L L' := lockedStep_spec hs
    exact ⟨hstep.serving hi, hstep.planned hi, hstep.disciplined hi, hstep.alert hi⟩

/-- Without the mutexes, a step is a step of the server or nothing. -/
theorem LockedStep.server (h : LockedStep cfg L L') :
    L'.server = L.server ∨ ∃ a, L.server.step cfg a = some L'.server := by
  cases h with
  | env hs | start _ _ _ _ hs | run _ hs | pushFails _ _ hs | pushed _ _ _ _ hs | popNull _ _ _ hs
  | popped _ _ _ hs => exact .inr ⟨_, hs⟩
  | plan | lock | unlock | pushWaits | popWaits | wakeNotEmpty | wakeNotFull => exact .inl rfl

/-- Without the mutexes, a run is a run of the server. -/
theorem reachable_server (h : (lockedServer m cfg).Reachable L) :
    (server m cfg).Reachable L.server := by
  refine h.invariant (I := fun L => (server m cfg).Reachable L.server) ?_ fun L a L' _ hi hs => ?_
  · rintro _ rfl
    exact .init rfl
  · have hstep : LockedStep cfg L L' := lockedStep_spec hs
    rcases hstep.server with heq | ⟨a, hserver⟩
    · rw [heq]
      exact hi
    · exact hi.next hserver

end invariant

end DeepInIo.AdvancedServer
