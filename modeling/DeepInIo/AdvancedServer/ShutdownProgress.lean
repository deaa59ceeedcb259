import DeepInIo.AdvancedServer.ShutdownCost
import DeepInIo.Foundation.Progress

/-!
# `server_destroy` returns

Once `server_destroy` has been entered it waits for threads: `pthread_join` of one IO thread after
the other, which may hang in `task_queue_push` until a worker makes room, and then `pthread_join` of
the workers.  In a run that neglects neither the main thread nor the threads it waits for, and in
which the clients stop sending at some time, it returns (`server_destroy_returns`).  An IO thread
that has not been told to stop may take as many steps in between as it likes, and the system calls
may return what they like.

A thread that is told to stop reads a socket until nothing is left in it, so that a client that
never stops sending could keep `server_destroy` waiting.
-/

namespace DeepInIo.AdvancedServer

open State

variable {n m : ℕ}

/-! ### The flags -/

/-- The order in which `server_destroy` sets the flags, and where the threads are by then. -/
structure StopOrder (s : State n m) : Prop where
  batch : ∀ t, (s.io t).batch.length ≤ maxEvents
  flagged : ∀ t, s.main = .ioDestroy t .wake ∨ s.main = .ioDestroy t .join →
    (s.io t).shutdown = true
  entered : s.main = .queueShutdown → s.poolShutdown = true
  joining : s.main = .joinWorkers ∨ s.main = .queueDestroy → s.queueShutdown = true
  pool : s.queueShutdown = true → s.poolShutdown = true
  worker : ∀ w, s.worker w = .popNull ∨ s.worker w = .exited → s.poolShutdown = true

section order

variable {cfg : Config n} {s s' : State n m} {t : Fin n} {w : Fin m}

/-- `event_loop_wait` returns no more events than there is room for. -/
theorem ioStep_batch {r : IoResult} (h : s.ioStep cfg t r = some s')
    (hbatch : (s.io t).batch.length ≤ maxEvents) :
    (s'.io t).batch.length ≤ maxEvents := by
  have hkeep : ∀ {th : IoThread}, th.batch = (s.io t).batch →
      (Function.update s.io t th t).batch.length ≤ maxEvents := by
    intro th hth
    rwa [Function.update_self, hth]
  have hnext : ∀ {th : IoThread} {e : Event}, (s.io t).batch = e :: th.batch →
      (Function.update s.io t th t).batch.length ≤ maxEvents := by
    intro th e hth
    rw [hth, List.length_cons] at hbatch
    rw [Function.update_self]
    omega
  by_cases hwait : (s.io t).pc = .wait
  · have hcollect : ∀ {th : IoThread} {e : Event}, th.batch = (s.io t).batch ++ [e] →
        (s.io t).batch.length < maxEvents →
        (Function.update s.io t th t).batch.length ≤ maxEvents := by
      intro th e hth hlt
      rw [Function.update_self, hth, List.length_append]
      exact hlt
    simp only [ioStep, hwait] at h
    cases r with
    | ok =>
      cases h
      exact hkeep rfl
    | event e =>
      dsimp only at h
      split at h
      · next hlt =>
        cases e <;> simp only [collect] at h <;> split at h <;> cases h
        · exact hcollect rfl hlt
        · exact hcollect rfl hlt
        · exact hcollect rfl hlt
      · cases h
    | _ => cases h
  · cases ioStep_spec h with
    | collectPipe hpc | collectMsg hpc | collectFd hpc => exact (hwait hpc).elim
    | nextPipe hpc hb | nextMsg hpc hb | nextConn hpc hb => exact hnext hb
    | _ => exact hkeep rfl

/-- `server_destroy` sets the flag of the pool, then that of the queue, and then joins the
workers. -/
theorem MainStep.flags (h : MainStep cfg s s') :
    s.main = .poolShutdown ∧ s'.main = .queueShutdown ∧ s'.poolShutdown = true ∧
        s'.queueShutdown = s.queueShutdown ∨
      s.main = .queueShutdown ∧ s'.main = .joinWorkers ∧ s'.poolShutdown = s.poolShutdown ∧
        s'.queueShutdown = true ∨
      s'.main ≠ .queueShutdown ∧
        (s'.main = .joinWorkers ∨ s'.main = .queueDestroy → s.main = .joinWorkers ∨
          s.main = .queueDestroy) ∧
        s'.poolShutdown = s.poolShutdown ∧ s'.queueShutdown = s.queueShutdown := by
  have hnext : ∀ k, nextDestroy n k ≠ .queueShutdown ∧
      ¬(nextDestroy n k = .joinWorkers ∨ nextDestroy n k = .queueDestroy) := by
    intro k
    unfold nextDestroy
    split <;> simp
  cases h with
  | poolShutdown hpc => exact .inl ⟨hpc, rfl, rfl, rfl⟩
  | queueShutdown hpc => exact .inr (.inl ⟨hpc, rfl, rfl, rfl⟩)
  | destroyLoop | ioFree =>
    exact .inr (.inr ⟨(hnext _).1, fun hmain => ((hnext _).2 hmain).elim, rfl, rfl⟩)
  | joinWorkers hpc => exact .inr (.inr ⟨by simp, fun _ => .inl hpc, rfl, rfl⟩)
  | acceptIntr hpc =>
    refine .inr (.inr ⟨?_, id, rfl, rfl⟩)
    intro hmain
    cases hpc.symm.trans hmain
  | destroyTask hpc =>
    refine .inr (.inr ⟨?_, fun _ => .inr hpc, rfl, rfl⟩)
    intro hmain
    cases hpc.symm.trans hmain
  | _ => exact .inr (.inr ⟨by simp [dropConnection], by simp [dropConnection], rfl, rfl⟩)

/-- `io_thread_destroy` wakes and joins a thread whose flag it has set. -/
theorem MainStep.flagged (h : MainStep cfg s s')
    (hold : ∀ t, s.main = .ioDestroy t .wake ∨ s.main = .ioDestroy t .join →
      (s.io t).shutdown = true)
    (hm : s'.main = .ioDestroy t .wake ∨ s'.main = .ioDestroy t .join) :
    (s'.io t).shutdown = true := by
  have hnext : ∀ {k : ℕ},
      ¬(nextDestroy n k = .ioDestroy t .wake ∨ nextDestroy n k = .ioDestroy t .join) := by
    intro k
    unfold nextDestroy
    split <;> simp
  cases h with
  | @ioFlag t₀ hpc =>
    rcases hm with hm | hm <;> cases hm
    exact congrArg IoThread.shutdown (Function.update_self t _ s.io)
  | @ioWake t₀ hpc =>
    rcases hm with hm | hm <;> cases hm
    rw [setMain_io, setIo_io, Function.update_self]
    exact hold t (.inl hpc)
  | @ioWakeFailed t₀ hpc =>
    rcases hm with hm | hm <;> cases hm
    exact hold t (.inl hpc)
  | destroyLoop | ioFree => exact (hnext hm).elim
  | acceptIntr | destroyTask => exact hold t hm
  | _ => rcases hm with hm | hm <;> cases hm

/-- A worker sets no flag of an IO thread. -/
theorem WorkerStep.io_shutdown (h : WorkerStep cfg s w s') (t : Fin n) :
    (s'.io t).shutdown = (s.io t).shutdown := by
  cases h with
  | @link task t₀ hpc =>
    by_cases ht : t = t₀
    · subst ht; simp [linkMessage]
    · simp [linkMessage, ht]
  | @notify task t₀ hpc =>
    by_cases ht : t = t₀
    · subst ht; simp
    · simp [ht]
  | _ => rfl

/-- A worker stops because of the flag of the pool. -/
theorem WorkerStep.stops (h : WorkerStep cfg s w s')
    (hpool : s.queueShutdown = true → s.poolShutdown = true)
    (hw : s'.worker w = .popNull ∨ s'.worker w = .exited) : s.poolShutdown = true := by
  cases h with
  | @move pc' hm =>
    rw [setWorker_worker, Function.update_self] at hw
    generalize s.worker w = pc at hm
    cases hm with
    | exit hstop | noTaskExit hstop => exact hstop
    | noTask _ hstop => exact hpool hstop
    | _ => rcases hw with hw | hw <;> cases hw
  | link => 
    rw [linkMessage, setWorker_worker, Function.update_self] at hw
    rcases hw with hw | hw <;> cases hw
  | _ =>
    rw [setWorker_worker, Function.update_self] at hw
    rcases hw with hw | hw <;> cases hw

/-- A step keeps the order of the flags. -/
theorem StopOrder.step (h : StopOrder s) {a : Action n m} (hs : (server m cfg).step s a = some s') :
    StopOrder s' := by
  cases a with
  | main r =>
    have hstep := mainStep_spec hs
    have hbatch : ∀ t, (s'.io t).batch.length ≤ maxEvents := by
      intro t
      rw [(hstep.io_eq t).2.1]
      exact h.batch t
    have hflagged := fun t => hstep.flagged (t := t) h.flagged
    have hworker := h.worker
    rw [← hstep.worker_eq] at hworker
    rcases hstep.flags with ⟨-, hpc', hpool, hqueue⟩ | ⟨hpc, hpc', hpool, hqueue⟩ | ⟨hne, hjoin,
        hpool, hqueue⟩
    · refine ⟨hbatch, hflagged, fun _ => hpool, fun hjoin => ?_, fun _ => hpool, fun _ _ => hpool⟩
      rw [hpc'] at hjoin
      rcases hjoin with hjoin | hjoin <;> cases hjoin
    · have hset := hpool.trans (h.entered hpc)
      exact ⟨hbatch, hflagged, fun _ => hset, fun _ => hqueue, fun _ => hset, fun _ _ => hset⟩
    · refine ⟨hbatch, hflagged, fun hpc => (hne hpc).elim, fun hpc => ?_, ?_, fun w hw => ?_⟩
      · rw [hqueue]
        exact h.joining (hjoin hpc)
      · rw [hpool, hqueue]
        exact h.pool
      · rw [hpool]
        exact hworker w hw
  | io t₀ r =>
    have hstep := ioStep_spec hs
    obtain ⟨hpool, hqueue⟩ := hstep.flags
    refine ⟨fun t => ?_, fun t hpc => ?_, ?_, ?_, ?_, fun w => ?_⟩
    · by_cases ht : t = t₀
      · subst ht
        exact ioStep_batch hs (h.batch t)
      · rw [hstep.io_ne ht]
        exact h.batch t
    · rw [hstep.main_eq] at hpc
      by_cases ht : t = t₀
      · subst ht
        rw [hstep.shutdown_eq]
        exact h.flagged t hpc
      · rw [hstep.io_ne ht]
        exact h.flagged t hpc
    · rw [hstep.main_eq, hpool]
      exact h.entered
    · rw [hstep.main_eq, hqueue]
      exact h.joining
    · rw [hpool, hqueue]
      exact h.pool
    · rw [hstep.worker_eq, hpool]
      exact h.worker w
  | worker w₀ ok =>
    have hstep := workerStep_spec hs
    obtain ⟨hpool, hqueue⟩ := hstep.flags
    refine ⟨fun t => ?_, fun t hpc => ?_, ?_, ?_, ?_, fun w hw => ?_⟩
    · rw [(hstep.io_eq t).2.2]
      exact h.batch t
    · rw [hstep.main_eq] at hpc
      rw [hstep.io_shutdown]
      exact h.flagged t hpc
    · rw [hstep.main_eq, hpool]
      exact h.entered
    · rw [hstep.main_eq, hqueue]
      exact h.joining
    · rw [hpool, hqueue]
      exact h.pool
    · rw [hpool]
      by_cases heq : w = w₀
      · subst heq
        exact hstep.stops h.pool hw
      · rw [hstep.worker_ne heq] at hw
        exact h.worker w hw
  | env e =>
    have hstep := envStep_spec hs
    cases hstep <;> exact ⟨h.batch, h.flagged, h.entered, h.joining, h.pool, h.worker⟩

theorem reachable_stopOrder (h : (server m cfg).Reachable s) : StopOrder s := by
  refine TransitionSystem.Reachable.invariant ?_ ?_ h
  · intro s hinit
    cases hinit
    refine ⟨fun _ => Nat.zero_le _, fun _ hm => ?_, fun h => (by cases h), fun h => ?_,
      fun h => (by cases h), fun _ hw => ?_⟩
    · rcases hm with hm | hm <;> cases hm
    · rcases h with h | h <;> cases h
    · rcases hw with hw | hw <;> cases hw
  · intro s a s' _ horder hs
    exact horder.step hs

end order

/-! ### Steps that take work off -/

/-- No data arrive. -/
def Quiet (_ : State n m) (a : Action n m) : Prop :=
  ∀ f bytes, a ≠ .env (.data f bytes)

/-- A step of the main thread, of a worker, or of an IO thread that was told to stop. -/
def State.serves (s : State n m) : Action n m → Bool
  | .main _ => true
  | .worker .. => true
  | .io t _ => (s.io t).shutdown
  | .env _ => false

section progress

variable {cfg : Config n} {s s' : State n m} {t : Fin n} {w : Fin m}

/-- The clients add no work as long as they send nothing. -/
theorem work_envStep {e : Environment} (h : s.envStep e = some s')
    (hquiet : ∀ f bytes, e ≠ .data f bytes) :
    s'.work = s.work := by
  have hsame : s'.unread = s.unread → s'.queue = s.queue → s'.unsent = s.unsent → s'.io = s.io →
      s'.worker = s.worker → s'.main = s.main → s'.work = s.work := by
    intro hunread hqueue hunsent hio hworker hmain
    unfold State.work dataWork
    rw [hunread, hqueue, hunsent, hio, hworker, hmain]
  have hsock : ∀ {sk : SockId} {v : Sock}, v.unread = (s.kernel.socks sk).unread → ∀ sk',
      (Function.update s.kernel.socks sk v sk').unread.length =
        (s.kernel.socks sk').unread.length := by
    intro sk v hv sk'
    by_cases hsk : sk' = sk
    · rw [hsk, Function.update_self, hv]
    · rw [Function.update_of_ne hsk]
  cases e <;> simp only [envStep] at h
  case arrive =>
    cases h
    rfl
  case data f bytes => exact (hquiet f bytes rfl).elim
  case peerClose f =>
    split at h <;> cases h
    refine hsame (Finset.sum_congr rfl fun sk' _ => ?_) rfl rfl rfl rfl rfl
    exact hsock (v := { s.kernel.socks _ with peerClosed := true }) rfl sk'
  case drain f =>
    split at h <;> cases h
    refine hsame (Finset.sum_congr rfl fun sk' _ => ?_) rfl rfl rfl rfl rfl
    exact hsock (v := { s.kernel.socks _ with writable := true }) rfl sk'

/-- After `server_destroy` was entered, a step takes off work when it is one that counts, and adds
none. -/
theorem serving_paid :
    (server m cfg).Paid Quiet State.serves
    (fun s => (server m cfg).Reachable s ∧ ¬s.Running) State.work := by
  intro s a s' hinv hquiet hs
  obtain ⟨hr, hrun⟩ := hinv
  have hr' := hr.next hs
  have hrun' : ¬s'.Running := fun h => hrun ((step_spec hs).running h)
  have hi := reachable_owned hr
  have horder := reachable_stopOrder hr
  refine ⟨⟨hr', hrun'⟩, ?_⟩
  cases a with
  | main r => exact (mainStep_spec hs).paid hrun horder.batch
  | io t r =>
    exact (ioStep_spec hs).paid hi (reachable_descriptors hr).conn
      ((reachable_stopOrder hr').batch t)
  | worker w ok => exact (workerStep_spec hs).paid hi fun hpc => horder.worker w (.inl hpc)
  | env e => exact (work_envStep hs fun f bytes he => hquiet f bytes (congrArg Action.env he)).le

/-- The steps that count are no more than the work. -/
theorem serving_le (hr : (server m cfg).Reachable s) (hentered : ¬s.Running)
    {tr : List (State n m × Action n m)} (h : (server m cfg).Trace Quiet s tr s') :
    TransitionSystem.busySteps State.serves tr + s'.work ≤ s.work :=
  (TransitionSystem.Trace.busy_le serving_paid ⟨hr, hentered⟩ h).2

/-! ### Some thread can go on -/

/-- An IO thread that has not returned can go on, unless it waits for room in the task queue. -/
theorem ioStep_enabled (hpc : (s.io t).pc ≠ .stopped)
    (hroom : ∀ x task, (s.io t).pc = .rdSubmit x task → s.queue.length < cfg.maxSize) :
    ∃ r, (s.ioStep cfg t r).isSome = true := by
  cases h : (s.io t).pc with
  | stopped => exact (hpc h).elim
  | rdRead x => exact ⟨.err, by simp [ioStep, h, State.readStep]⟩
  | rdSubmit x task =>
    refine ⟨.ok, ?_⟩
    have hlt := hroom x task h
    simp only [ioStep, h, State.submit, if_pos hlt]
    split <;> rfl
  | wrLoop x =>
    refine ⟨.err, ?_⟩
    simp only [ioStep, h]
    split <;> rfl
  | _ => exact ⟨.ok, by simp [ioStep, h, State.createTask]⟩

/-- A worker that has not returned can go on, unless it waits for a task. -/
theorem workerStep_enabled (hpc : s.worker w ≠ .exited)
    (htask : s.worker w = .pop → s.queue ≠ [] ∨ s.queueShutdown = true) :
    (s.workerStep cfg w true).isSome = true := by
  cases h : s.worker w with
  | exited => exact (hpc h).elim
  | pop =>
    simp only [workerStep, h, popTask]
    split
    · rfl
    · next hq =>
      rcases htask h with hne | hstop
      · exact (hne hq).elim
      · rw [if_pos hstop]
        rfl
  | _ => simp [workerStep, h]

/-- As long as `server_destroy` has not returned, it can go on or a thread that it waits for can. -/
theorem exists_serving (hr : (server m cfg).Reachable s) (hrun : ¬s.Running)
    (hdone : s.main ≠ .done) (hm : 0 < m) (hsize : 0 < cfg.maxSize) :
    ∃ a, s.serves a = true ∧ ((server m cfg).step s a).isSome = true := by
  have horder := reachable_stopOrder hr
  have hmain : ∀ {r : MainResult}, (s.mainStep cfg r).isSome = true →
      ∃ a, s.serves a = true ∧ ((server m cfg).step s a).isSome = true :=
        fun {r} h => ⟨.main r, rfl, h⟩
  cases hpc : s.main with
  | wait | accept | getThread | create | handoff | drop | closeClient =>
    exact (hrun (by rw [State.Running, hpc]; trivial)).elim
  | done => exact (hdone hpc).elim
  | closeListen | destroyLoop | poolShutdown | queueShutdown =>
    exact hmain (r := .ok) (by simp [mainStep, hpc])
  | queueDestroy => exact hmain (r := .ok) (by simp [mainStep, hpc])
  | joinWorkers =>
    by_cases hall : ∀ w, s.worker w = .exited
    · exact hmain (r := .ok) (by simp [mainStep, hpc, hall])
    · push Not at hall
      obtain ⟨w, hw⟩ := hall
      exact ⟨.worker w true, rfl, workerStep_enabled hw fun _ => .inr (horder.joining (.inl hpc))⟩
  | ioDestroy t stage =>
    cases stage with
    | flag | wake | loop | close0 | close1 | free =>
      exact hmain (r := .ok) (by simp [mainStep, hpc, ioDestroyStep])
    | join =>
      have hflag := horder.flagged t (.inr hpc)
      by_cases hstopped : (s.io t).pc = .stopped
      · exact hmain (r := .ok) (by simp [mainStep, hpc, ioDestroyStep, hstopped])
      · by_cases hfull : s.queue.length < cfg.maxSize
        · have henabled : ∃ r, (s.ioStep cfg t r).isSome = true :=
            ioStep_enabled hstopped fun _ _ _ => hfull
          obtain ⟨r, hr⟩ := henabled
          exact ⟨.io t r, hflag, hr⟩
        · -- a worker makes room: none has returned before the pool is shut down
          have hrunning := ((reachable_tornDown hr).no_shutdown hstopped).1
          refine ⟨.worker ⟨0, hm⟩ true, rfl, workerStep_enabled (fun hw => ?_) fun _ =>
            .inl fun hq => ?_⟩
          · rw [horder.worker _ (.inr hw)] at hrunning
            cases hrunning
          · rw [hq, List.length_nil] at hfull
            exact hfull hsize

end progress

/-- Once it was entered, `server_destroy` returns in every run that neglects none of the threads it
waits for and in which the clients stop sending at some time. -/
theorem server_destroy_returns {cfg : Config n} (hm : 0 < m) (hsize : 0 < cfg.maxSize)
    {st : ℕ → State n m} {act : ℕ → Action n m} (hr : (server m cfg).Reachable (st 0))
    (hentered : ¬(st 0).Running) (hrun : (server m cfg).Run (fun _ _ => True) st act)
    (hfair : (server m cfg).Fair State.serves st act)
    (hquiet : ∃ i₀, ∀ i, i₀ ≤ i → Quiet (st i) (act i)) : ∃ k, (st k).main = .done := by
  obtain ⟨i₀, hquiet⟩ := hquiet
  have hinv := hrun.forall (I := fun s => (server m cfg).Reachable s ∧ ¬s.Running)
    (fun s a s' hi hs => ⟨hi.1.next hs, fun h => hi.2 ((step_spec hs).running h)⟩) ⟨hr, hentered⟩ i₀
  -- from the time on when no data arrive any more
  have hlate : (server m cfg).Run Quiet (fun i => st (i₀ + i)) fun i => act (i₀ + i) :=
    fun i => ⟨hquiet _ (Nat.le_add_right ..), (hrun (i₀ + i)).2⟩
  obtain ⟨k, hk⟩ := TransitionSystem.exists_of_fair serving_paid (G := fun s => s.main = .done)
    (fun s hi hdone => exists_serving hi.1 hi.2 hdone hm hsize) hlate (hfair.drop i₀) (i := 0) hinv
  exact ⟨i₀ + k, hk⟩

section idle

variable {cfg : Config n} {s : State n m}

/-- All threads have returned. -/
def State.Over (s : State n m) : Prop :=
  s.main = .done ∧ (∀ w, s.worker w = .exited) ∧ ∀ t, (s.io t).pc = .stopped

instance (s : State n m) : Decidable s.Over :=
  inferInstanceAs (Decidable (_ ∧ _))

/-- When all threads have returned, only the clients take steps. -/
theorem State.Over.idle (h : s.Over) {a : Action n m} (hserves : s.serves a = true) :
    (server m cfg).step s a = none := by
  obtain ⟨hdone, hexited, hstopped⟩ := h
  cases a with
  | main r => simp [server, State.step, mainStep, hdone]
  | worker w ok => simp [server, State.step, workerStep, hexited]
  | io t r => simp [server, State.step, ioStep, hstopped]
  | env e => cases hserves

/-- From the wait in `task_queue_push` on: the worker `w` makes room and the IO thread `t` pushes
its task, so that it is joined and freed.  The worker returns, and `task_queue_destroy` finds the
second task. -/
def stopFullServer (t : Fin n) (w : Fin m) : List (Action n m) :=
  List.flatten
    [Action.work w 2, [.io t .ok, .io t .again], Action.work w 9, List.replicate 4 (.io t .ok),
      List.replicate 7 (.main .ok), Action.work w 1, List.replicate 3 (.main .ok)]

end idle

/-- The queue has room for one task.  `server_destroy` waits for an IO thread that hangs in
`task_queue_push` with its second task. -/
theorem server_destroy_returns_full :
    ∃ st : ℕ → State 1 1,
      (∃ act, (server 1 { Config.fresh 1 with maxSize := 1 }).Run (fun _ _ => True) st act) ∧
        ((st 0).main = .ioDestroy 0 .join ∧ (st 0).queue.length = 1 ∧
          ((st 0).io 0).pc.task? = some { type := .process, conn := 0, data := [66] }) ∧
        ∃ k, (st k).main = .done := by
  let S := server 1 { Config.fresh 1 with maxSize := 1 }
  obtain ⟨s₀, hr, hs₀⟩ := TransitionSystem.exists_of_exec S (s := State.start _)
    (List.flatten [Action.connect 10, Action.adopt 0, [.env (.data 10 [65, 66])],
      Action.deliver 0 10 { read := true }, Action.readOne 0 1, [.io 0 (.got 1), .io 0 .ok],
      [.main .stop], List.replicate 4 (.main .ok)])
    (fun s : State 1 1 => decide (s.main = .ioDestroy 0 .join ∧ s.queue.length = 1 ∧
        (s.io 0).pc.task? = some { type := .process, conn := 0, data := [66] }) &&
      (S.execUnder (fun s a => True ∧ s.serves a = true) s (stopFullServer 0 0)).any
        fun s : State 1 1 => decide s.Over) rfl (by decide +kernel)
  simp only [Bool.and_eq_true, decide_eq_true_eq] at hs₀
  obtain ⟨hstart, hexec⟩ := hs₀
  obtain ⟨s', hs', hover⟩ := (Option.any_eq_true ..).mp hexec
  have hidle : ∀ s : State 1 1, s.Over →
      True ∧ ∃ s', s'.Over ∧ S.step s (.env .arrive) = some s' := by
    intro s hs
    exact ⟨trivial,
      s.setKernel { s.kernel with backlog := s.kernel.backlog + 1, listenEdge := true }, hs, rfl⟩
  obtain ⟨st, act, rfl, hrun, hfair, hact⟩ := TransitionSystem.exists_fair_run hidle
    (fun s a hs hserves => hs.idle hserves) hs' (of_decide_eq_true hover)
  refine ⟨st, ⟨act, hrun⟩, hstart,
    server_destroy_returns Nat.zero_lt_one Nat.zero_lt_one hr ?_ hrun hfair ?_⟩
  · rw [State.Running, hstart.1]
    exact id
  · refine ⟨(stopFullServer (0 : Fin 1) (0 : Fin 1)).length, fun i hi f bytes hdata => ?_⟩
    rw [hact i hi] at hdata
    cases hdata

end DeepInIo.AdvancedServer
