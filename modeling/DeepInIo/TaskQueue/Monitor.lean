import DeepInIo.Foundation.Condition
import DeepInIo.Foundation.Transition
import DeepInIo.TaskQueue.Basic

/-!
# The threads at the task queue

Any number of threads call `task_queue_push`, `task_queue_pop` and `task_queue_shutdown`.  A
critical section is one step: it lasts from locking the mutex, or from waking up, until
`pthread_cond_wait` or the end of the call.  A woken thread runs its section again at any later
time, so that others may come first; `woken` are the threads that the signal of a section wakes.

The fields `accepted`, `returned` and `last` are added for the specification.
-/

namespace DeepInIo

/-- Where a thread is. -/
inductive CallState (ν : Type*)
  /-- in no call, or about to begin one -/
  | out
  /-- at `pthread_cond_wait` of `task_queue_push` -/
  | push (task : ν)
  /-- at `pthread_cond_wait` of `task_queue_pop` -/
  | pop
  deriving DecidableEq

/-- How a critical section ends. -/
inductive CallResult (ν : Type*)
  | waits
  | pushed (result : ℤ)
  | popped (task : Option ν)
  deriving DecidableEq

/-- The queue with its condition variables and its callers. -/
structure Monitor (θ ν : Type*) where
  queue : TaskQueue ν
  call : θ → CallState ν
  notEmpty : Condition θ
  notFull : Condition θ
  /-- Specification: the tasks whose push returned 0, in that order. -/
  accepted : List ν
  /-- Specification: the tasks returned by pops, in that order. -/
  returned : List ν
  /-- Specification: how the critical section of the last step ended, if it was a push or a pop. -/
  last : Option (CallResult ν)

/-- One step: which thread runs, and which threads its signal wakes. -/
inductive QueueAction (θ ν : Type*)
  | push (th : θ) (task : ν) (woken : Finset θ)
  | pop (th : θ) (woken : Finset θ)
  | pushAgain (th : θ) (woken : Finset θ)
  | popAgain (th : θ) (woken : Finset θ)
  | spurious (th : θ)
  | shutdown

namespace Monitor

variable {θ ν : Type*}

/-- The queue before the first call; the links of the tasks are arbitrary. -/
@[simps]
def create (next : ν → Option ν) (maxSize : ℤ) : Monitor θ ν where
  queue := .taskQueueCreate next maxSize
  call := fun _ => .out
  notEmpty := .idle θ
  notFull := .idle θ
  accepted := []
  returned := []
  last := none

variable [DecidableEq θ] [DecidableEq ν] (s : Monitor θ ν)

/-! ### The critical sections -/

/-- A thread begins to wait in `task_queue_push`. -/
@[simps]
def waitNotFull (th : θ) (task : ν) : Monitor θ ν :=
  { s with
    notFull := s.notFull.wait th
    call := Function.update s.call th (.push task)
    last := some .waits }

/-- A thread begins to wait in `task_queue_pop`. -/
@[simps]
def waitNotEmpty (th : θ) : Monitor θ ν :=
  { s with
    notEmpty := s.notEmpty.wait th
    call := Function.update s.call th .pop
    last := some .waits }

/-- `task_queue_push` adds its task and signals `not_empty`. -/
@[simps]
def accept (task : ν) (woken : Finset θ) : Monitor θ ν :=
  { s with
    queue := s.queue.enqueue task
    notEmpty := s.notEmpty.wake woken
    accepted := s.accepted ++ [task]
    last := some (.pushed 0) }

/-- `task_queue_pop` takes a task and signals `not_full`. -/
@[simps]
def hand (task : ν) (woken : Finset θ) : Monitor θ ν :=
  { s with
    queue := s.queue.dequeue task
    notFull := s.notFull.wake woken
    returned := s.returned ++ [task]
    last := some (.popped (some task)) }

/-- A call ends without a task. -/
@[simps]
def finish (r : CallResult ν) : Monitor θ ν :=
  { s with last := some r }

/-- The critical section of `task_queue_push`. -/
def pushSection (th : θ) (task : ν) (woken : Finset θ) : Option (Monitor θ ν) :=
  if s.queue.pushWaits then some (s.waitNotFull th task)
  else if s.queue.shutdown then some (s.finish (.pushed (-1)))
  else if s.notEmpty.Signals woken then some (s.accept task woken)
  else none

/-- The critical section of `task_queue_pop`. -/
def popSection (th : θ) (woken : Finset θ) : Option (Monitor θ ν) :=
  if s.queue.popWaits then some (s.waitNotEmpty th)
  else if s.queue.shutdown && decide (s.queue.size = 0) then some (s.finish (.popped none))
  else
    match s.queue.head with
    | none => some (s.finish (.popped none))
    | some task => if s.notFull.Signals woken then some (s.hand task woken) else none

/-! ### The steps -/

/-- A woken thread returns from `pthread_cond_wait` in `task_queue_push`. -/
@[simps]
def resumePush (th : θ) : Monitor θ ν :=
  { s with
    notFull := s.notFull.leave th
    call := Function.update s.call th .out }

/-- A woken thread returns from `pthread_cond_wait` in `task_queue_pop`. -/
@[simps]
def resumePop (th : θ) : Monitor θ ν :=
  { s with
    notEmpty := s.notEmpty.leave th
    call := Function.update s.call th .out }

/-- `task_queue_shutdown` -/
@[simps]
def taskQueueShutdown : Monitor θ ν :=
  { s with
    queue := s.queue.close
    notEmpty := s.notEmpty.broadcast
    notFull := s.notFull.broadcast
    last := none }

/-- One step of a thread at the queue. -/
def step : QueueAction θ ν → Option (Monitor θ ν)
  | .push th task woken =>
    match s.call th with
    | .out => s.pushSection th task woken
    | _ => none
  | .pop th woken =>
    match s.call th with
    | .out => s.popSection th woken
    | _ => none
  | .pushAgain th woken =>
    match s.call th with
    | .push task =>
      if th ∈ s.notFull.signalled then (s.resumePush th).pushSection th task woken else none
    | _ => none
  | .popAgain th woken =>
    match s.call th with
    | .pop => if th ∈ s.notEmpty.signalled then (s.resumePop th).popSection th woken else none
    | _ => none
  | .spurious th =>
    if th ∈ s.notEmpty.waiting then some { s with notEmpty := s.notEmpty.wake {th}, last := none }
    else if th ∈ s.notFull.waiting then some { s with notFull := s.notFull.wake {th}, last := none }
    else none
  | .shutdown => some s.taskQueueShutdown

/-- The task whose push the step is about. -/
def pushed? : QueueAction θ ν → Option ν
  | .push _ task _ => some task
  | .pushAgain th _ =>
    match s.call th with
    | .push task => some task
    | _ => none
  | _ => none

/-- The tasks that are pushed are not in the queue already. -/
def Fresh (a : QueueAction θ ν) : Prop :=
  ∀ task ∈ s.pushed? a, task ∉ s.queue.nodes

instance (a : QueueAction θ ν) : Decidable (s.Fresh a) :=
  inferInstanceAs (Decidable (∀ task ∈ s.pushed? a, task ∉ s.queue.nodes))

end Monitor

/-- The threads `θ` at a task queue of the given capacity. -/
def taskQueue (θ ν : Type*) [DecidableEq θ] [DecidableEq ν] (maxSize : ℤ) :
    TransitionSystem (Monitor θ ν) (QueueAction θ ν) where
  init s := ∃ next, s = Monitor.create next maxSize
  step := Monitor.step

/-! ### What a step can do -/

section steps

variable {θ ν : Type*} [DecidableEq θ] [DecidableEq ν] {s s' : Monitor θ ν}

/-- What the critical section of `task_queue_push` can do. -/
inductive PushSection (s : Monitor θ ν) (th : θ) (task : ν) : Monitor θ ν → Prop
  | wait (hfull : s.queue.maxSize ≤ s.queue.size) (hopen : s.queue.shutdown = false) :
      PushSection s th task (s.waitNotFull th task)
  | rejected (hclosed : s.queue.shutdown = true) : PushSection s th task (s.finish (.pushed (-1)))
  | accepted {woken : Finset θ} (hroom : s.queue.size < s.queue.maxSize)
      (hopen : s.queue.shutdown = false) (hwoken : s.notEmpty.Signals woken) :
        PushSection s th task (s.accept task woken)

/-- What the critical section of `task_queue_pop` can do. -/
inductive PopSection (s : Monitor θ ν) (th : θ) : Monitor θ ν → Prop
  | wait (hempty : s.queue.size = 0) (hopen : s.queue.shutdown = false) :
      PopSection s th (s.waitNotEmpty th)
  | closed (hempty : s.queue.size = 0) (hclosed : s.queue.shutdown = true) :
      PopSection s th (s.finish (.popped none))
  | noHead (hne : s.queue.size ≠ 0) (hhead : s.queue.head = none) :
      PopSection s th (s.finish (.popped none))
  | popped {task : ν} {woken : Finset θ} (hhead : s.queue.head = some task)
      (hwoken : s.notFull.Signals woken) : PopSection s th (s.hand task woken)

/-- What a step can do. -/
inductive MonitorStep (s : Monitor θ ν) : QueueAction θ ν → Monitor θ ν → Prop
  | push {th : θ} {task : ν} {woken : Finset θ} {s' : Monitor θ ν} (hcall : s.call th = .out)
      (h : PushSection s th task s') : MonitorStep s (.push th task woken) s'
  | pop {th : θ} {woken : Finset θ} {s' : Monitor θ ν} (hcall : s.call th = .out)
      (h : PopSection s th s') : MonitorStep s (.pop th woken) s'
  | pushAgain {th : θ} {task : ν} {woken : Finset θ} {s' : Monitor θ ν}
      (hcall : s.call th = .push task) (hth : th ∈ s.notFull.signalled)
      (h : PushSection (s.resumePush th) th task s') :
      MonitorStep s (.pushAgain th woken) s'
  | popAgain {th : θ} {woken : Finset θ} {s' : Monitor θ ν} (hcall : s.call th = .pop)
      (hth : th ∈ s.notEmpty.signalled) (h : PopSection (s.resumePop th) th s') :
      MonitorStep s (.popAgain th woken) s'
  | spuriousNotEmpty {th : θ} (hth : th ∈ s.notEmpty.waiting) :
      MonitorStep s (.spurious th) { s with notEmpty := s.notEmpty.wake {th}, last := none }
  | spuriousNotFull {th : θ} (hth : th ∈ s.notFull.waiting) :
      MonitorStep s (.spurious th) { s with notFull := s.notFull.wake {th}, last := none }
  | shutdown : MonitorStep s .shutdown s.taskQueueShutdown

/-- The section of `task_queue_push` does only what `PushSection` says. -/
theorem pushSection_spec {th : θ} {task : ν} {woken : Finset θ}
    (h : s.pushSection th task woken = some s') : PushSection s th task s' := by
  rw [Monitor.pushSection, TaskQueue.pushWaits] at h
  cases hs : s.queue.shutdown
  · by_cases hfull : s.queue.maxSize ≤ s.queue.size
    · rw [hs, if_pos (by simpa using hfull)] at h
      cases h
      exact .wait hfull hs
    · rw [hs, if_neg (by simpa using hfull), if_neg Bool.false_ne_true] at h
      split at h
      · next hwoken =>
        cases h
        exact .accepted (not_le.mp hfull) hs hwoken
      · cases h
  · rw [hs, if_neg (by simp), if_pos rfl] at h
    cases h
    exact .rejected hs

/-- The section of `task_queue_pop` does only what `PopSection` says. -/
theorem popSection_spec {th : θ} {woken : Finset θ} (h : s.popSection th woken = some s') :
    PopSection s th s' := by
  have htake : (match s.queue.head with
      | none => some (s.finish (.popped none))
      | some task => if s.notFull.Signals woken then some (s.hand task woken) else none) = some s' →
      s.queue.size ≠ 0 → PopSection s th s' := by
    intro h hne
    split at h
    · next hhead =>
      cases h
      exact .noHead hne hhead
    · next task hhead =>
      split at h
      · next hwoken =>
        cases h
        exact .popped hhead hwoken
      · cases h
  rw [Monitor.popSection, TaskQueue.popWaits] at h
  by_cases hempty : s.queue.size = 0
  · cases hs : s.queue.shutdown
    · rw [hs, if_pos (by simpa using hempty)] at h
      cases h
      exact .wait hempty hs
    · rw [hs, if_neg (by simp), if_pos (by simpa using hempty)] at h
      cases h
      exact .closed hempty hs
  · rw [if_neg (by simp [hempty]), if_neg (by simp [hempty])] at h
    exact htake h hempty

/-- The step function does only what `MonitorStep` says. -/
theorem monitorStep_spec {a : QueueAction θ ν} (h : s.step a = some s') : MonitorStep s a s' := by
  cases a with
  | push th task woken =>
    simp only [Monitor.step] at h
    split at h
    · next hcall => exact .push hcall (pushSection_spec h)
    · cases h
  | pop th woken =>
    simp only [Monitor.step] at h
    split at h
    · next hcall => exact .pop hcall (popSection_spec h)
    · cases h
  | pushAgain th woken =>
    simp only [Monitor.step] at h
    split at h
    · next task hcall =>
      split at h
      · next hth => exact .pushAgain hcall hth (pushSection_spec h)
      · cases h
    · cases h
  | popAgain th woken =>
    simp only [Monitor.step] at h
    split at h
    · next hcall =>
      split at h
      · next hth => exact .popAgain hcall hth (popSection_spec h)
      · cases h
    · cases h
  | spurious th =>
    simp only [Monitor.step] at h
    split at h
    · next hth =>
      cases h
      exact .spuriousNotEmpty hth
    · split at h
      · next hth =>
        cases h
        exact .spuriousNotFull hth
      · cases h
  | shutdown =>
    cases h
    exact .shutdown

/-! ### The outcome of a call -/

/-- What a critical section of `task_queue_pop` means for its thread and for the queue. -/
inductive PopOutcome (s : Monitor θ ν) (th : θ) (s' : Monitor θ ν) : Prop
  | waits (hlast : s'.last = some .waits) (hopen : s.queue.shutdown = false)
      (hqueue : s'.queue = s.queue) (hcall : s'.call = Function.update s.call th .pop)
      (hreturned : s'.returned = s.returned)
  | null (hlast : s'.last = some (.popped none)) (hqueue : s'.queue = s.queue)
      (hcall : s'.call = Function.update s.call th .out) (hreturned : s'.returned = s.returned)
  | popped (task : ν) (hlast : s'.last = some (.popped (some task)))
      (hqueue : s'.queue = s.queue.dequeue task) (hcall : s'.call = Function.update s.call th .out)
      (hreturned : s'.returned = s.returned ++ [task])

/-- What a critical section of `task_queue_push` means for its thread and for the queue. -/
inductive PushOutcome (s : Monitor θ ν) (th : θ) (task : ν) (s' : Monitor θ ν) : Prop
  | waits (hlast : s'.last = some .waits) (hqueue : s'.queue = s.queue)
      (hcall : s'.call = Function.update s.call th (.push task))
      (hreturned : s'.returned = s.returned)
  | rejected (hlast : s'.last = some (.pushed (-1))) (hqueue : s'.queue = s.queue)
      (hcall : s'.call = Function.update s.call th .out) (hreturned : s'.returned = s.returned)
  | accepted (hlast : s'.last = some (.pushed 0)) (hqueue : s'.queue = s.queue.enqueue task)
      (hcall : s'.call = Function.update s.call th .out) (hreturned : s'.returned = s.returned)

/-- The outcome of a section that begins outside of the call. -/
theorem PopSection.outcome {th : θ} (h : PopSection s th s') (hcall : s.call th = .out) :
    PopOutcome s th s' := by
  have hout : s.call = Function.update s.call th .out := by
    rw [← hcall, Function.update_eq_self]
  cases h with
  | wait hempty hopen => exact .waits rfl hopen rfl rfl rfl
  | closed | noHead => exact .null rfl rfl hout rfl
  | popped hhead hwoken => exact .popped _ rfl rfl hout rfl

/-- The outcome of a section that begins outside of the call. -/
theorem PushSection.outcome {th : θ} {task : ν} (h : PushSection s th task s')
    (hcall : s.call th = .out) :
    PushOutcome s th task s' := by
  have hout : s.call = Function.update s.call th .out := by
    rw [← hcall, Function.update_eq_self]
  cases h with
  | wait hfull hopen => exact .waits rfl rfl rfl rfl
  | rejected hclosed => exact .rejected rfl rfl hout rfl
  | accepted hroom hopen hwoken => exact .accepted rfl rfl hout rfl

/-- The outcome of `task_queue_pop` from the call on. -/
theorem MonitorStep.pop_outcome {th : θ} {woken : Finset θ} (h : MonitorStep s (.pop th woken) s') :
    PopOutcome s th s' := by
  cases h with
  | pop hcall h => exact h.outcome hcall

/-- The outcome of `task_queue_pop` from a wake-up on. -/
theorem MonitorStep.popAgain_outcome {th : θ} {woken : Finset θ}
    (h : MonitorStep s (.popAgain th woken) s') : PopOutcome s th s' := by
  cases h with
  | popAgain hcall hth h =>
    have hout : (s.resumePop th).call th = .out := Function.update_self ..
    cases h.outcome hout with
    | waits hlast hopen hqueue hcall hreturned =>
      exact .waits hlast hopen hqueue (hcall.trans (Function.update_idem ..)) hreturned
    | null hlast hqueue hcall hreturned =>
      exact .null hlast hqueue (hcall.trans (Function.update_idem ..)) hreturned
    | popped task hlast hqueue hcall hreturned =>
      exact .popped task hlast hqueue (hcall.trans (Function.update_idem ..)) hreturned

/-- The outcome of `task_queue_push` from the call on. -/
theorem MonitorStep.push_outcome {th : θ} {task : ν} {woken : Finset θ}
    (h : MonitorStep s (.push th task woken) s') : PushOutcome s th task s' := by
  cases h with
  | push hcall h => exact h.outcome hcall

/-- The outcome of `task_queue_push` from a wake-up on. -/
theorem MonitorStep.pushAgain_outcome {th : θ} {task : ν} {woken : Finset θ}
    (h : MonitorStep s (.pushAgain th woken) s') (htask : s.call th = .push task) :
    PushOutcome s th task s' := by
  cases h with
  | @pushAgain _ task' _ _ hcall hth h =>
    obtain rfl : task = task' := by
      rw [hcall] at htask
      cases htask
      rfl
    have hout : (s.resumePush th).call th = .out := Function.update_self ..
    cases h.outcome hout with
    | waits hlast hqueue hcall hreturned =>
      exact .waits hlast hqueue (hcall.trans (Function.update_idem ..)) hreturned
    | rejected hlast hqueue hcall hreturned =>
      exact .rejected hlast hqueue (hcall.trans (Function.update_idem ..)) hreturned
    | accepted hlast hqueue hcall hreturned =>
      exact .accepted hlast hqueue (hcall.trans (Function.update_idem ..)) hreturned

/-- A spurious wake-up is not noticed outside of the condition variables. -/
theorem MonitorStep.spurious_frame {th : θ} (h : MonitorStep s (.spurious th) s') :
    s'.queue = s.queue ∧ s'.call = s.call ∧ s'.returned = s.returned := by
  cases h <;> exact ⟨rfl, rfl, rfl⟩

end steps

end DeepInIo
