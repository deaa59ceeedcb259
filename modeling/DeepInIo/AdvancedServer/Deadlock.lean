import DeepInIo.AdvancedServer.LockInvariant

/-!
# The server does not deadlock

A thread of the server stops at a mutex or at a condition variable of the task queue.  Following the
threads that are waited for leads to mutexes of lower and lower rank, from an IO thread in
`task_queue_push` through a worker that is awake or a woken IO thread; so it ends at a thread that
is not blocked, and never comes back to where it began (`no_deadlock`).
-/

namespace DeepInIo.AdvancedServer

open State

variable {n m : ℕ} {cfg : Config n}

namespace LockedServer

variable (L : LockedServer n m)

/-- The thread waits for a mutex that another thread holds. -/
def WaitsForMutex (th : Thread n m) : Prop :=
  ¬L.Asleep th ∧ ∃ th', L.locks.WaitsFor th th'

/-- The thread is inside of `pthread_cond_wait`, or waits for a mutex. -/
def Blocked (th : Thread n m) : Prop :=
  L.Asleep th ∨ L.WaitsForMutex th

/-- The thread can take its next step. -/
def CanStep (cfg : Config n) (th : Thread n m) : Prop :=
  ∃ a L', a.thread? = some th ∧ L.step cfg a = some L'

/-- The first thread is blocked until the second one goes on: it holds the mutex, or it can make
room in the task queue, or it was woken because there is room. -/
inductive Awaits : Thread n m → Thread n m → Prop
  | mutex {th th' : Thread n m} (hawake : ¬L.Asleep th) (h : L.locks.WaitsFor th th') :
      Awaits th th'
  | worker {th : Thread n m} {w : Fin m} (h : th ∈ L.notFull.waiting)
      (hw : .worker w ∉ L.notEmpty.waiting) : Awaits th (.worker w)
  | producer {th th' : Thread n m} (h : th ∈ L.notFull.waiting) (h' : th' ∈ L.notFull.signalled) :
      Awaits th th'

/-- What the thread waits for: the place in the task queue comes above all mutexes. -/
def height (th : Thread n m) : ℕ :=
  if th ∈ L.notFull.waiting then 3
  else
    match L.locks.plan th with
    | .lock x :: _ => x.rank + 1
    | _ => 0

end LockedServer

section deadlock

variable {L : LockedServer n m} {th th' : Thread n m}

/-! ### Who waits for whom -/

/-- The ranks of the mutexes are small. -/
theorem Mutex.rank_le (x : Mutex n) : x.rank ≤ 1 := by
  cases x <;> simp [Mutex.rank]

/-- A thread that is not in `task_queue_push` waits for a mutex at most. -/
theorem LockedServer.height_le (hth : th ∉ L.notFull.waiting) : L.height th ≤ 2 := by
  rw [height, if_neg hth]
  split
  · next x ops hplan =>
    have hrank := x.rank_le
    omega
  · exact Nat.zero_le _

/-- A thread inside of `pthread_cond_wait` owns no mutex. -/
theorem LockedServer.Ok.awake_of_owner (hi : L.Ok cfg) {x : Mutex n}
    (howner : L.locks.owner x = some th) :
    ¬L.Asleep th := by
  intro hasleep
  obtain ⟨a, hplan⟩ : ∃ a, L.locks.plan th = queueCall a := by
    rcases hasleep with hw | hw
    · obtain ⟨a, -, hplan⟩ := hi.alert.workers.waiting th hw
      exact ⟨a, hplan⟩
    · obtain ⟨a, -, hplan⟩ := hi.alert.ioThreads.waiting th hw
      exact ⟨a, hplan⟩
  obtain ⟨held, hfits⟩ := hi.disciplined th
  have hrun := hfits.run
  rw [hplan, queueCall] at hrun
  obtain ⟨-, hrest⟩ := runLocks_lock hrun
  rw [runLocks_act] at hrest
  obtain ⟨rest, heq, hrest⟩ := runLocks_unlock hrest
  obtain rfl := eq_nil_of_runLocks_nil hrest
  injection heq with _ hheld
  have hmem := (hfits.owner x).mp howner
  rw [hheld] at hmem
  cases hmem

/-- A worker never waits in `task_queue_push`. -/
theorem LockedServer.Ok.worker_notMem (hi : L.Ok cfg) (w : Fin m) :
    Thread.worker w ∉ L.notFull.waiting := by
  intro hw
  obtain ⟨a, hpush, -⟩ := hi.alert.ioThreads.waiting _ hw
  cases hpush

/-- A thread at `task_queue_push` is not at `task_queue_pop`. -/
theorem LockedServer.Ok.notMem_of_signalled (hi : L.Ok cfg) (hs : th ∈ L.notFull.signalled) :
    th ∉ L.notEmpty.waiting := by
  intro hw
  obtain ⟨a, hpush, -⟩ := hi.alert.ioThreads.signalled th hs
  obtain ⟨b, hpop, -⟩ := hi.alert.workers.waiting th hw
  cases hpush
  cases hpop

/-- A thread that another one waits for is awake, and has something to do. -/
theorem LockedServer.Ok.awake_of_awaits (hi : L.Ok cfg) (h : L.Awaits th th') :
    ¬L.Asleep th' ∧ (L.locks.plan th' ≠ [] ∨ ∃ w, th' = .worker w) := by
  cases h with
  | mutex hawake h =>
    obtain ⟨x, ops, hplan, howner⟩ := h
    exact ⟨hi.awake_of_owner howner, .inl (hi.disciplined.plan_ne_nil howner)⟩
  | @worker w h hw =>
    refine ⟨?_, .inr ⟨w, rfl⟩⟩
    rintro (hasleep | hasleep)
    · exact hw hasleep
    · exact hi.worker_notMem w hasleep
  | producer h hs =>
    refine ⟨?_, .inl fun hplan => ?_⟩
    · rintro (hasleep | hasleep)
      · exact hi.notMem_of_signalled hs hasleep
      · exact Finset.disjoint_left.mp hi.alert.ioThreads.disjoint hasleep hs
    · obtain ⟨a, -, hacts⟩ := hi.alert.ioThreads.signalled th' hs
      rw [hplan] at hacts
      cases hacts

/-- A thread waits for threads that wait for less. -/
theorem LockedServer.Ok.height_lt (hi : L.Ok cfg) (h : L.Awaits th th') :
    L.height th' < L.height th := by
  obtain ⟨hawake', -⟩ := hi.awake_of_awaits h
  have hnot' : th' ∉ L.notFull.waiting := fun hw => hawake' (.inr hw)
  have hfull : th ∈ L.notFull.waiting → L.height th' < L.height th := by
    intro hw
    have hle := height_le hnot'
    have heq : L.height th = 3 := if_pos hw
    omega
  cases h with
  | mutex hawake h =>
    obtain ⟨x, ops, hplan, howner⟩ := h
    rw [height, if_neg hnot', height, if_neg fun hw => hawake (.inr hw), hplan]
    split
    · next y ops' hplan' =>
      have hlt := hi.disciplined.next_lt howner hplan'
      exact Nat.add_lt_add_right hlt 1
    · exact Nat.succ_pos _
  | worker hw => exact hfull hw
  | producer hw => exact hfull hw

/-- Nobody waits for itself, not even through others. -/
theorem LockedServer.Ok.no_cycle (hi : L.Ok cfg) : ¬Relation.TransGen L.Awaits th th := by
  have hlt : ∀ th', Relation.TransGen L.Awaits th th' → L.height th' < L.height th := by
    intro th' hwait
    induction hwait with
    | single h => exact hi.height_lt h
    | tail _ h ih => exact (hi.height_lt h).trans ih
  exact fun hcycle => lt_irrefl _ (hlt th hcycle)

/-! ### Who can go on -/

/-- A worker before a statement can always begin it. -/
theorem LockedServer.Ok.canBegin (hi : L.Ok cfg) {w : Fin m}
    (hplan : L.locks.plan (.worker w) = []) :
    L.CanStep cfg (.worker w) := by
  suffices hbegin : ∃ L', L.begin cfg (.worker w true) = some L' by
    obtain ⟨L', hL'⟩ := hbegin
    exact ⟨.begin (.worker w true), L', rfl, hL'⟩
  have hth : (Action.worker w true : Action n m).thread? = some (.worker w) := rfl
  rw [LockedServer.begin, hth]
  simp only [hplan, ne_eq, reduceCtorEq, not_false_eq_true, and_self, if_true]
  split
  · next a' ops hrun =>
    obtain ⟨hact, -⟩ := plan_act hth hrun
    cases hact
    have hsettled : (L.server.worker w).settled = true := by
      have hexit := hi.serving.worker w
      have hpop : L.server.worker w ≠ .pop := by
        intro hpc
        simp [State.plan, workerPlan, hpc, queueCall] at hrun
      generalize L.server.worker w = pc at hexit hpop ⊢
      cases pc with
      | pop => exact absurd rfl hpop
      | exited => exact absurd rfl hexit
      | _ => rfl
    have hstep : ∃ s, L.server.step cfg (.worker w true) = some s := workerStep_settled hsettled
    obtain ⟨s, hs⟩ := hstep
    exact ⟨_, by rw [LockedServer.run, hs]; rfl⟩
  · exact ⟨_, rfl⟩

/-- A thread that holds the mutex of the task queue can run its critical section, which wakes whom
it signals. -/
theorem LockedServer.Ok.canPush (hi : L.Ok cfg) {t : Fin n}
    {ops : List (LockOp (Mutex n) (Act n m))} (hplan : L.locks.plan th = .act (.push t) :: ops) :
    L.CanStep cfg th := by
  suffices hpush : ∃ woken L', L.push cfg th t ops woken = some L' by
    obtain ⟨woken, L', hL'⟩ := hpush
    refine ⟨.proceed th woken, L', rfl, ?_⟩
    rw [LockedServer.step, LockedServer.proceed, hplan]
    exact hL'
  have hself := hi.planned th
  rw [hplan] at hself
  obtain ⟨rfl, rfl, x, task, hpc⟩ := hself.push_eq
  have hopen := hi.serving.queue
  refine ⟨L.notEmpty.waiting, ?_⟩
  by_cases hfull : cfg.maxSize ≤ L.server.queue.length
  · exact ⟨L.waitNotFull (.io t), by simp [LockedServer.push, hfull, hopen]⟩
  · have hwoken : L.notEmpty.Signals L.notEmpty.waiting := ⟨Finset.Subset.refl _, id⟩
    have hstep : ∃ s, L.server.step cfg (.io t .ok) = some s := by
      refine ⟨(L.server.setQueue (L.server.queue ++ [task])).setIoPc t (.rdRead x), ?_⟩
      change L.server.ioStep cfg t .ok = _
      simp only [ioStep, hpc, State.submit, hi.serving.pool, hopen, Bool.or_self]
      rw [if_neg (by simp), if_pos (by omega)]
    obtain ⟨s, hs⟩ := hstep
    simp [LockedServer.push, LockedServer.run, hfull, hopen, hwoken, hs]

/-- A thread that holds the mutex of the task queue can run its critical section, which wakes whom
it signals. -/
theorem LockedServer.Ok.canPop (hi : L.Ok cfg) {w : Fin m} {ops : List (LockOp (Mutex n) (Act n m))}
    (hplan : L.locks.plan th = .act (.pop w) :: ops) : L.CanStep cfg th := by
  suffices hpop : ∃ woken L', L.pop cfg th w ops woken = some L' by
    obtain ⟨woken, L', hL'⟩ := hpop
    refine ⟨.proceed th woken, L', rfl, ?_⟩
    rw [LockedServer.step, LockedServer.proceed, hplan]
    exact hL'
  have hself := hi.planned th
  rw [hplan] at hself
  obtain ⟨rfl, rfl, hpc⟩ := hself.pop_eq
  have hopen := hi.serving.queue
  refine ⟨L.notFull.waiting, ?_⟩
  cases hqueue : L.server.queue with
  | nil => exact ⟨L.waitNotEmpty (.worker w), by simp [LockedServer.pop, hqueue, hopen]⟩
  | cons task rest =>
    have hwoken : L.notFull.Signals L.notFull.waiting := ⟨Finset.Subset.refl _, id⟩
    have hstep : ∃ s, L.server.step cfg (.worker w true) = some s := by
      refine ⟨(L.server.setQueue rest).setWorker w (.check task), ?_⟩
      change L.server.workerStep cfg w true = _
      simp only [workerStep, hpc, popTask, hqueue]
    obtain ⟨s, hs⟩ := hstep
    simp [LockedServer.pop, LockedServer.run, hqueue, hwoken, hs]

/-- A thread that is not blocked and has something to do can take its next step. -/
theorem LockedServer.Ok.canStep (hi : L.Ok cfg) (hfree : ¬L.Blocked th)
    (hplan : L.locks.plan th ≠ [] ∨ ∃ w, th = .worker w) : L.CanStep cfg th := by
  have hawake : ¬L.Asleep th := fun hasleep => hfree (.inl hasleep)
  have hproceed : ∀ {L'}, L.proceed cfg th ∅ = some L' → L.CanStep cfg th :=
    fun {L'} h => ⟨.proceed th ∅, L', rfl, h⟩
  cases hops : L.locks.plan th with
  | nil =>
    rcases hplan with hne | ⟨w, rfl⟩
    · exact absurd hops hne
    · exact hi.canBegin hops
  | cons op ops =>
    cases op with
    | lock x =>
      have hnone : L.locks.owner x = none := by
        by_contra hne
        obtain ⟨th', howner⟩ := Option.ne_none_iff_exists'.mp hne
        exact hfree (.inr ⟨hawake, th', x, ops, hops, howner⟩)
      exact hproceed (by rw [LockedServer.proceed, hops]; exact if_pos ⟨hnone, hawake⟩)
    | unlock x => exact hproceed (by rw [LockedServer.proceed, hops])
    | act x =>
      cases x with
      | run a =>
        have hself := hi.planned th
        rw [hops] at hself
        have henabled : ∃ s, L.server.step cfg a = some s := hself.enabled
        obtain ⟨s, hs⟩ := henabled
        have hrun : L.run cfg th a ops =
            some { L with server := s, locks := L.locks.setPlan th ops } := by
          simp [LockedServer.run, hs]
        exact hproceed (by rw [LockedServer.proceed, hops]; exact hrun)
      | push t => exact hi.canPush hops
      | pop w => exact hi.canPop hops

/-! ### Deadlock freedom -/

/-- An IO thread in `task_queue_push` waits for a worker that is awake or for an IO thread that was
woken. -/
theorem LockedServer.Ok.exists_awaits (hi : L.Ok cfg) (hm : 0 < m) (hcap : 0 < cfg.maxSize)
    (hth : th ∈ L.notFull.waiting) : ∃ th', L.Awaits th th' := by
  by_cases hw : ∃ w, Thread.worker w ∉ L.notEmpty.waiting
  · obtain ⟨w, hw⟩ := hw
    exact ⟨_, .worker hth hw⟩
  · have hall : ∀ w, Thread.worker w ∈ L.notEmpty.waiting :=
      fun w => not_not.mp fun hno => hw ⟨w, hno⟩
    -- all workers wait, so none was woken and the queue is empty
    have hnone : L.notEmpty.signalled = ∅ := by
      refine Finset.eq_empty_of_forall_notMem fun th' hs => ?_
      obtain ⟨a, hpop, -⟩ := hi.alert.workers.signalled th' hs
      cases hpop with
      | intro w => exact Finset.disjoint_left.mp hi.alert.workers.disjoint (hall w) hs
    have hempty := hi.alert.tasks ⟨_, hall ⟨0, hm⟩⟩
    have hroom := hi.alert.room ⟨th, hth⟩
    rw [hnone, Finset.card_empty] at hempty
    have hpos : 0 < L.notFull.signalled.card := by omega
    obtain ⟨th', hs⟩ := Finset.card_pos.mp hpos
    exact ⟨th', .producer hth hs⟩

/-- From a blocked thread the chain of the threads that are waited for leads to one that can go
on. -/
theorem LockedServer.Ok.exists_canStep (hi : L.Ok cfg) (hm : 0 < m) (hcap : 0 < cfg.maxSize)
    (hth : th ∈ L.notFull.waiting ∨ L.WaitsForMutex th) :
    ∃ th', Relation.TransGen L.Awaits th th' ∧ ¬L.Blocked th' ∧ L.CanStep cfg th' := by
  induction hk : L.height th using Nat.strong_induction_on generalizing th with
  | _ k ih =>
    obtain ⟨th', hawaits⟩ : ∃ th', L.Awaits th th' := by
      rcases hth with hfull | ⟨hawake, th', hwaits⟩
      · exact hi.exists_awaits hm hcap hfull
      · exact ⟨th', .mutex hawake hwaits⟩
    obtain ⟨hawake', hplan'⟩ := hi.awake_of_awaits hawaits
    by_cases hmutex : L.WaitsForMutex th'
    · have hlt := hi.height_lt hawaits
      rw [hk] at hlt
      obtain ⟨th'', hchain, hfree, hstep⟩ := ih _ hlt (.inr hmutex) rfl
      exact ⟨th'', hchain.head hawaits, hfree, hstep⟩
    · have hfree : ¬L.Blocked th' := not_or.mpr ⟨hawake', hmutex⟩
      exact ⟨th', .single hawaits, hfree, hi.canStep hfree hplan'⟩

/-- In every state that the server reaches before `server_destroy`, with at least one worker and
room for one task: if an IO thread is blocked in `task_queue_push` or any thread is blocked on a
mutex, then among the threads that it waits for, directly or not, there is another one that is not
blocked and can take its next step; and no thread waits for itself. -/
theorem no_deadlock (hm : 0 < m) (hcap : 0 < cfg.maxSize) (h : (lockedServer m cfg).Reachable L) :
    (∀ th, th ∈ L.notFull.waiting ∨ L.WaitsForMutex th →
      ∃ th', th' ≠ th ∧ Relation.TransGen L.Awaits th th' ∧ ¬L.Blocked th' ∧ L.CanStep cfg th') ∧
    ∀ th, ¬Relation.TransGen L.Awaits th th := by
  have hi := reachable_ok h
  refine ⟨fun th hth => ?_, fun th => hi.no_cycle⟩
  obtain ⟨th', hchain, hfree, hstep⟩ := hi.exists_canStep hm hcap hth
  refine ⟨th', fun heq => ?_, hchain, hfree, hstep⟩
  rw [heq] at hchain
  exact hi.no_cycle hchain

/-- A thread performs a statement with `k` more operations, and wakes nobody. -/
def LockedAction.statement (a : Action n m) (k : ℕ) : List (LockedAction n m) :=
  .begin a :: (a.thread?.toList.flatMap fun th => List.replicate k (.proceed th ∅))

/-- A connection sends two requests while the worker has not begun; the queue has room for one task,
so the IO thread waits in `task_queue_push`. -/
theorem no_deadlock_full :
    ∃ L : LockedServer 1 1, .io 0 ∈ L.notFull.waiting ∧
      (∀ th, th ∈ L.notFull.waiting ∨ L.WaitsForMutex th →
        ∃ th', th' ≠ th ∧ Relation.TransGen L.Awaits th th' ∧ ¬L.Blocked th' ∧
          L.CanStep { Config.fresh 1 with maxSize := 1 } th') ∧
      ∀ th, ¬Relation.TransGen L.Awaits th th := by
  let io : IoResult → ℕ → List (LockedAction 1 1) := fun r k => LockedAction.statement (.io 0 r) k
  let main : MainResult → ℕ → List (LockedAction 1 1) :=
    fun r k => LockedAction.statement (.main r) k
  obtain ⟨L, hL, hp⟩ := (lockedServer 1 { Config.fresh 1 with maxSize := 1 }).exists_of_exec
    (List.flatten [.env .arrive :: main .ok 0, main (.accepted 10) 0, main .ok 3, main .ok 0,
      main .ok 2, io .ok 0, io (.event .pipe) 0, io .ok 0, io .ok 0, io .ok 0, io .ok 0, io .ok 2,
      io .ok 0, [.env (.data 10 [1, 2])], io .ok 0, io (.event (.fd 10 { read := true })) 0,
      io .ok 0, io .ok 0, io .ok 3, io .ok 0, io (.got 1) 2, io .ok 3, io .ok 3, io (.got 1) 2,
      io .ok 3, io .ok 2])
    (fun L => decide (.io 0 ∈ L.notFull.waiting)) rfl (by decide +kernel)
  have hwaits : .io 0 ∈ L.notFull.waiting := of_decide_eq_true hp
  exact ⟨L, hwaits, no_deadlock Nat.one_pos Nat.one_pos hL⟩

end deadlock

end DeepInIo.AdvancedServer
