import DeepInIo.TaskQueue.Refinement

/-!
# No wake-up of the task queue is lost

Each push wakes one consumer and each pop one producer.  That is enough: a consumer waits only while
there are at least as many woken consumers as tasks, and a producer only while there are at least as
many woken producers as free places (`Monitor.Awake`).
-/

namespace DeepInIo

section wakeUp

variable {θ ν : Type*} [DecidableEq θ] [DecidableEq ν] {s s' : Monitor θ ν} {maxSize : ℤ}

/-- The threads at the condition variables are those inside the calls, and each of them waits or was
woken. -/
structure Monitor.Placed (s : Monitor θ ν) : Prop where
  notEmpty : ∀ th, th ∈ s.notEmpty.members ↔ s.call th = .pop
  notFull : ∀ th, th ∈ s.notFull.members ↔ ∃ task, s.call th = .push task
  notEmpty_disjoint : Disjoint s.notEmpty.waiting s.notEmpty.signalled
  notFull_disjoint : Disjoint s.notFull.waiting s.notFull.signalled

omit [DecidableEq θ] [DecidableEq ν] in
/-- Before the shutdown the woken consumers are enough for all tasks but `d`, and the woken
producers for all free places but `e`; after the shutdown nobody waits. -/
structure Monitor.Awake (s : Monitor θ ν) (d e : ℤ) : Prop where
  notEmpty : s.queue.shutdown = false → s.notEmpty.Covers (s.queue.size - d)
  notFull : s.queue.shutdown = false → s.notFull.Covers (s.queue.maxSize - s.queue.size - e)
  closed : s.queue.shutdown = true → s.notEmpty.waiting = ∅ ∧ s.notFull.waiting = ∅

omit [DecidableEq θ] [DecidableEq ν] in
/-- Fewer threads are enough for less. -/
theorem Monitor.Awake.mono {d d' e e' : ℤ} (h : s.Awake d e) (hd : d ≤ d') (he : e ≤ e') :
    s.Awake d' e' :=
  ⟨fun hopen => (h.notEmpty hopen).mono (by omega), fun hopen => (h.notFull hopen).mono (by omega),
    h.closed⟩

omit [DecidableEq ν] in
/-- A woken producer leaves the condition variable. -/
theorem Monitor.Placed.resumePush (h : s.Placed) {th : θ} (hth : th ∈ s.notFull.signalled) :
    (s.resumePush th).Placed where
  notEmpty th' := by
    rw [Monitor.resumePush_notEmpty, Monitor.resumePush_call, h.notEmpty th']
    by_cases heq : th' = th
    · subst heq
      obtain ⟨task, hcall⟩ := (h.notFull th').mp (Finset.mem_union_right _ hth)
      simp [hcall]
    · rw [Function.update_of_ne heq]
  notFull th' := by
    rw [Monitor.resumePush_notFull, Monitor.resumePush_call,
      Condition.mem_members_leave h.notFull_disjoint hth, h.notFull th']
    by_cases heq : th' = th
    · subst heq
      simp
    · simp [heq]
  notEmpty_disjoint := h.notEmpty_disjoint
  notFull_disjoint := Condition.disjoint_leave h.notFull_disjoint th

omit [DecidableEq ν] in
/-- A woken consumer leaves the condition variable. -/
theorem Monitor.Placed.resumePop (h : s.Placed) {th : θ} (hth : th ∈ s.notEmpty.signalled) :
    (s.resumePop th).Placed where
  notEmpty th' := by
    rw [Monitor.resumePop_notEmpty, Monitor.resumePop_call,
      Condition.mem_members_leave h.notEmpty_disjoint hth, h.notEmpty th']
    by_cases heq : th' = th
    · subst heq
      simp
    · simp [heq]
  notFull th' := by
    rw [Monitor.resumePop_notFull, Monitor.resumePop_call, h.notFull th']
    by_cases heq : th' = th
    · subst heq
      have hcall := (h.notEmpty th').mp (Finset.mem_union_right _ hth)
      simp [hcall]
    · rw [Function.update_of_ne heq]
  notEmpty_disjoint := Condition.disjoint_leave h.notEmpty_disjoint th
  notFull_disjoint := h.notFull_disjoint

/-- The section of `task_queue_push` leaves enough threads awake, though its own thread was one of
them. -/
theorem PushSection.awake {th : θ} {task : ν} (h : PushSection s th task s') (hp : s.Placed)
    (ha : s.Awake 0 1) (hcall : s.call th = .out) : s'.Placed ∧ s'.Awake 0 0 := by
  cases h with
  | wait hfull hopen =>
    have hnot : th ∉ s.notFull.signalled := by
      intro hmem
      obtain ⟨task', htask⟩ := (hp.notFull th).mp (Finset.mem_union_right _ hmem)
      rw [hcall] at htask
      cases htask
    refine ⟨⟨fun th' => ?_, fun th' => ?_, hp.notEmpty_disjoint,
      Condition.disjoint_wait hp.notFull_disjoint hnot⟩, ha.notEmpty, fun _ => ?_,
        fun hclosed => ?_⟩
    · rw [Monitor.waitNotFull_notEmpty, Monitor.waitNotFull_call, hp.notEmpty th']
      by_cases heq : th' = th
      · subst heq
        simp [hcall]
      · rw [Function.update_of_ne heq]
    · rw [Monitor.waitNotFull_notFull, Monitor.waitNotFull_call, Condition.mem_members_wait,
        hp.notFull th']
      by_cases heq : th' = th
      · subst heq
        simp
      · simp [heq]
    · refine Condition.covers_of_nonpos ?_
      change s.queue.maxSize - s.queue.size - 0 ≤ 0
      omega
    · change s.queue.shutdown = true at hclosed
      rw [hopen] at hclosed
      cases hclosed
  | rejected hclosed =>
    have hno : ∀ {p : Prop}, s.queue.shutdown = false → p := by
      intro p hopen
      rw [hclosed] at hopen
      cases hopen
    exact ⟨⟨hp.notEmpty, hp.notFull, hp.notEmpty_disjoint, hp.notFull_disjoint⟩,
      fun hopen => hno hopen, fun hopen => hno hopen, ha.closed⟩
  | @accepted woken hroom hopen hwoken =>
    refine ⟨⟨fun th' => ?_, hp.notFull, Condition.disjoint_wake hp.notEmpty_disjoint woken,
      hp.notFull_disjoint⟩, fun _ => ?_, fun _ => ?_, fun hclosed => ?_⟩
    · rw [Monitor.accept_notEmpty, Condition.members_wake hwoken.1]
      exact hp.notEmpty th'
    · refine ((ha.notEmpty hopen).signal hp.notEmpty_disjoint hwoken).mono ?_
      simp only [Monitor.accept_queue, TaskQueue.enqueue_size]
      omega
    · refine (ha.notFull hopen).mono ?_
      simp only [Monitor.accept_queue, TaskQueue.enqueue_size, TaskQueue.enqueue_maxSize]
      omega
    · simp only [Monitor.accept_queue, TaskQueue.enqueue_shutdown] at hclosed
      rw [hopen] at hclosed
      cases hclosed

/-- The section of `task_queue_pop` leaves enough threads awake, though its own thread was one of
them. -/
theorem PopSection.awake {th : θ} (h : PopSection s th s') (hp : s.Placed) (ha : s.Awake 1 0)
    (hi : s.queue.Shaped) (hcall : s.call th = .out) : s'.Placed ∧ s'.Awake 0 0 := by
  cases h with
  | wait hempty hopen =>
    have hnot : th ∉ s.notEmpty.signalled := by
      intro hmem
      have hpop := (hp.notEmpty th).mp (Finset.mem_union_right _ hmem)
      rw [hcall] at hpop
      cases hpop
    refine ⟨⟨fun th' => ?_, fun th' => ?_, Condition.disjoint_wait hp.notEmpty_disjoint hnot,
      hp.notFull_disjoint⟩, fun _ => ?_, ha.notFull, fun hclosed => ?_⟩
    · rw [Monitor.waitNotEmpty_notEmpty, Monitor.waitNotEmpty_call, Condition.mem_members_wait,
        hp.notEmpty th']
      by_cases heq : th' = th
      · subst heq
        simp
      · simp [heq]
    · rw [Monitor.waitNotEmpty_notFull, Monitor.waitNotEmpty_call, hp.notFull th']
      by_cases heq : th' = th
      · subst heq
        simp [hcall]
      · rw [Function.update_of_ne heq]
    · refine Condition.covers_of_nonpos ?_
      change s.queue.size - 0 ≤ 0
      omega
    · change s.queue.shutdown = true at hclosed
      rw [hopen] at hclosed
      cases hclosed
  | closed hempty hclosed =>
    have hno : ∀ {p : Prop}, s.queue.shutdown = false → p := by
      intro p hopen
      rw [hclosed] at hopen
      cases hopen
    exact ⟨⟨hp.notEmpty, hp.notFull, hp.notEmpty_disjoint, hp.notFull_disjoint⟩,
      fun hopen => hno hopen, fun hopen => hno hopen, ha.closed⟩
  | noHead hne hhead => exact absurd (hi.head_eq_none_iff.mp hhead) hne
  | @popped task woken hhead hwoken =>
    refine ⟨⟨hp.notEmpty, fun th' => ?_, hp.notEmpty_disjoint,
      Condition.disjoint_wake hp.notFull_disjoint woken⟩, fun hopen => ?_, fun hopen => ?_,
      fun hclosed => ?_⟩
    · rw [Monitor.hand_notFull, Condition.members_wake hwoken.1]
      exact hp.notFull th'
    · refine (ha.notEmpty hopen).mono ?_
      change s.queue.size - 1 - 0 ≤ s.queue.size - 1
      omega
    · refine ((ha.notFull hopen).signal hp.notFull_disjoint hwoken).mono ?_
      change s.queue.maxSize - (s.queue.size - 1) - 0 ≤ s.queue.maxSize - s.queue.size - 0 + 1
      omega
    · obtain ⟨hne, hnf⟩ := ha.closed hclosed
      refine ⟨hne, ?_⟩
      change s.notFull.waiting \ woken = ∅
      rw [hnf, Finset.empty_sdiff]

/-- A step leaves enough threads awake. -/
theorem MonitorStep.awake {a : QueueAction θ ν} (h : MonitorStep s a s') (hp : s.Placed)
    (ha : s.Awake 0 0) (hi : s.queue.Shaped) : s'.Placed ∧ s'.Awake 0 0 := by
  cases h with
  | push hcall h => exact h.awake hp (ha.mono le_rfl Int.one_nonneg) hcall
  | pop hcall h => exact h.awake hp (ha.mono Int.one_nonneg le_rfl) hi hcall
  | @pushAgain th task woken s' hcall hth h =>
    refine h.awake (hp.resumePush hth) ⟨ha.notEmpty, fun hopen => ?_, fun hclosed => ?_⟩
      (Function.update_self ..)
    · refine ((ha.notFull hopen).leave th).mono ?_
      simp only [Monitor.resumePush_queue]
      omega
    · exact ha.closed hclosed
  | @popAgain th woken s' hcall hth h =>
    refine h.awake (hp.resumePop hth) ⟨fun hopen => ?_, ha.notFull, fun hclosed => ?_⟩ hi
      (Function.update_self ..)
    · refine ((ha.notEmpty hopen).leave th).mono ?_
      simp only [Monitor.resumePop_queue]
      omega
    · exact ha.closed hclosed
  | @spuriousNotEmpty th hth =>
    have hmem : {th} ⊆ s.notEmpty.waiting := Finset.singleton_subset_iff.mpr hth
    refine ⟨⟨fun th' => ?_, hp.notFull, Condition.disjoint_wake hp.notEmpty_disjoint _,
      hp.notFull_disjoint⟩, fun hopen => (ha.notEmpty hopen).wake _, ha.notFull, fun hclosed => ?_⟩
    · change th' ∈ (s.notEmpty.wake {th}).members ↔ _
      rw [Condition.members_wake hmem]
      exact hp.notEmpty th'
    · rw [(ha.closed hclosed).1] at hth
      exact absurd hth (Finset.notMem_empty _)
  | @spuriousNotFull th hth =>
    have hmem : {th} ⊆ s.notFull.waiting := Finset.singleton_subset_iff.mpr hth
    refine ⟨⟨hp.notEmpty, fun th' => ?_, hp.notEmpty_disjoint,
      Condition.disjoint_wake hp.notFull_disjoint _⟩, ha.notEmpty,
      fun hopen => (ha.notFull hopen).wake _, fun hclosed => ?_⟩
    · change th' ∈ (s.notFull.wake {th}).members ↔ _
      rw [Condition.members_wake hmem]
      exact hp.notFull th'
    · rw [(ha.closed hclosed).2] at hth
      exact absurd hth (Finset.notMem_empty _)
  | shutdown =>
    refine ⟨⟨fun th' => ?_, fun th' => ?_, Condition.disjoint_wake hp.notEmpty_disjoint _,
      Condition.disjoint_wake hp.notFull_disjoint _⟩, nofun, nofun,
      fun _ => ⟨Condition.broadcast_waiting, Condition.broadcast_waiting⟩⟩
    · rw [Monitor.taskQueueShutdown_notEmpty, Condition.members_broadcast]
      exact hp.notEmpty th'
    · rw [Monitor.taskQueueShutdown_notFull, Condition.members_broadcast]
      exact hp.notFull th'

/-- Enough threads are awake in every reachable state. -/
theorem reachable_awake (h : (taskQueue θ ν maxSize).ReachableUnder Monitor.Fresh s) :
    s.Placed ∧ s.Awake 0 0 := by
  refine h.invariant ?_ fun s a s' hr hi _ hs =>
    (monitorStep_spec hs).awake hi.1 hi.2 (reachable_linked hr).shaped
  rintro _ ⟨next, rfl⟩
  refine ⟨⟨fun th => ?_, fun th => ?_, Finset.disjoint_empty_left _, Finset.disjoint_empty_left _⟩,
    fun _ => Condition.covers_of_empty rfl, fun _ => Condition.covers_of_empty rfl, nofun⟩
  · simp [Condition.members, Condition.idle]
  · simp [Condition.members, Condition.idle]

/-- `task_queue_shutdown` can always run; it sets the flag and wakes all threads. -/
theorem Monitor.step_shutdown (s : Monitor θ ν) :
    ∃ s', s.step .shutdown = some s' ∧ s'.queue.shutdown = true ∧ s'.notEmpty.waiting = ∅ ∧
      s'.notFull.waiting = ∅ :=
  ⟨s.taskQueueShutdown, rfl, rfl, Condition.broadcast_waiting, Condition.broadcast_waiting⟩

/-- The section of `task_queue_push` leaves the flag alone. -/
theorem PushSection.shutdown_eq {th : θ} {task : ν} (h : PushSection s th task s') :
    s'.queue.shutdown = s.queue.shutdown := by
  cases h with
  | wait | rejected => rfl
  | accepted => exact s.queue.enqueue_shutdown task

/-- The section of `task_queue_pop` leaves the flag alone. -/
theorem PopSection.shutdown_eq {th : θ} (h : PopSection s th s') :
    s'.queue.shutdown = s.queue.shutdown := by
  cases h <;> rfl

/-- No step clears the flag. -/
theorem MonitorStep.shutdown_mono {a : QueueAction θ ν} (h : MonitorStep s a s')
    (hclosed : s.queue.shutdown = true) : s'.queue.shutdown = true := by
  cases h with
  | push hcall h | pushAgain hcall hth h => exact h.shutdown_eq.trans hclosed
  | pop hcall h | popAgain hcall hth h => exact h.shutdown_eq.trans hclosed
  | spuriousNotEmpty | spuriousNotFull => exact hclosed
  | shutdown => rfl

/-- In every run of any number of threads that push no task that is in the queue: before the
shutdown, a consumer waits only while the woken consumers are at least as many as the tasks, and a
producer only while the woken producers are at least as many as the free places; when
`task_queue_shutdown` runs it sets the flag, and in every state of the run from then on the flag is
set and nobody waits. -/
theorem taskQueue_no_lost_wakeup
    (h : (taskQueue θ ν maxSize).ReachableUnder Monitor.Fresh s) :
    (s.queue.shutdown = false →
      (s.notEmpty.waiting.Nonempty → s.queue.size ≤ s.notEmpty.signalled.card) ∧
      (s.notFull.waiting.Nonempty → maxSize - s.queue.size ≤ s.notFull.signalled.card)) ∧
    (s.queue.shutdown = true → s.notEmpty.waiting = ∅ ∧ s.notFull.waiting = ∅) ∧
    ∃ s₁, s.step .shutdown = some s₁ ∧
      ∀ tr s₂, (taskQueue θ ν maxSize).Trace Monitor.Fresh s₁ tr s₂ →
        s₂.queue.shutdown = true ∧ s₂.notEmpty.waiting = ∅ ∧ s₂.notFull.waiting = ∅ := by
  obtain ⟨-, ha⟩ := reachable_awake h
  refine ⟨fun hopen => ⟨fun hw => ?_, fun hw => ?_⟩, ha.closed, ?_⟩
  · simpa using ha.notEmpty hopen hw
  · simpa [(reachable_linked h).maxSize_eq] using ha.notFull hopen hw
  · obtain ⟨s₁, hs₁, hclosed, -, -⟩ := s.step_shutdown
    have hfresh : s.Fresh .shutdown := fun task htask => nomatch htask
    have hr₁ : (taskQueue θ ν maxSize).ReachableUnder Monitor.Fresh s₁ := h.step hfresh hs₁
    refine ⟨s₁, hs₁, fun tr s₂ htr => ?_⟩
    -- the flag stays set along the rest of the run
    have hrun : (taskQueue θ ν maxSize).ReachableUnder Monitor.Fresh s₂ ∧
        s₂.queue.shutdown = true := by
      induction htr with
      | nil => exact ⟨hr₁, hclosed⟩
      | snoc _ hok hs ih => exact ⟨ih.1.step hok hs, (monitorStep_spec hs).shutdown_mono ih.2⟩
    exact ⟨hrun.2, (reachable_awake hrun.1).2.closed hrun.2⟩

/-- Two consumers wait, one task arrives, and another producer takes the mutex before the woken one;
with a waiting thread on either condition variable the queue is shut down, and the threads
return. -/
theorem taskQueue_no_lost_wakeup_shutdown :
    ∃ s s₁ s₂ : Monitor ℕ ℕ, ∃ tr, s.notEmpty.waiting = {1} ∧ s.notEmpty.signalled = {0} ∧
      s.queue.size = 1 ∧ s.notFull.waiting = {3} ∧
      (s.notEmpty.waiting.Nonempty → s.queue.size ≤ s.notEmpty.signalled.card) ∧
      (s.notFull.waiting.Nonempty → 1 - s.queue.size ≤ s.notFull.signalled.card) ∧
      s.step .shutdown = some s₁ ∧ s₁.notEmpty.waiting = ∅ ∧ s₁.notFull.waiting = ∅ ∧
      (taskQueue ℕ ℕ 1).Trace Monitor.Fresh s₁ tr s₂ ∧ s₂.last = some (.pushed (-1)) ∧
      s₂.queue.shutdown = true ∧ s₂.notEmpty.waiting = ∅ ∧ s₂.notFull.waiting = ∅ := by
  obtain ⟨s, hs, hp⟩ := (taskQueue ℕ ℕ 1).exists_of_execUnder Monitor.Fresh
    [.pop 0 ∅, .pop 1 ∅, .push 2 7 {0}, .push 3 8 ∅]
    (fun s : Monitor ℕ ℕ => decide (s.notEmpty.waiting = {1} ∧ s.notEmpty.signalled = {0} ∧
      s.queue.size = 1 ∧ s.notFull.waiting = {3} ∧ s.queue.shutdown = false) &&
      ((taskQueue ℕ ℕ 1).execUnder Monitor.Fresh s.taskQueueShutdown
        [.popAgain 1 ∅, .popAgain 0 ∅, .pushAgain 3 ∅]).any fun s₂ : Monitor ℕ ℕ =>
          decide (s₂.last = some (.pushed (-1))))
    ⟨fun _ => none, rfl⟩ (by decide +kernel)
  obtain ⟨hnow, hlater⟩ := Bool.and_eq_true_iff.mp hp
  obtain ⟨hwaiting, hsignalled, hsize, hfull, hopen⟩ := of_decide_eq_true hnow
  obtain ⟨s₂, htr, hlast⟩ := TransitionSystem.exists_trace _ _ _ hlater
  obtain ⟨hbefore, -, s₁, hs₁, hafter⟩ := taskQueue_no_lost_wakeup hs
  obtain ⟨hempty, hnotFull⟩ := hbefore hopen
  obtain rfl : s.taskQueueShutdown = s₁ := Option.some.inj hs₁
  obtain ⟨-, hdone⟩ := hafter [] _ .nil
  exact ⟨s, _, s₂, _, hwaiting, hsignalled, hsize, hfull, hempty, hnotFull, hs₁, hdone.1, hdone.2,
    htr, of_decide_eq_true hlast, hafter _ s₂ htr⟩

end wakeUp

end DeepInIo
