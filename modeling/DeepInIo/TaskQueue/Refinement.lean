import DeepInIo.Foundation.BoundedFifo
import DeepInIo.TaskQueue.Monitor

/-!
# The task queue is a bounded FIFO

`Monitor.fifo` forgets the links and the threads.  Every step is at most one step of the abstract
queue (`MonitorStep.fifo`), and the links keep their shape, as long as no task is pushed that is in
the queue.
-/

namespace DeepInIo

section refinement

variable {θ ν : Type*} [DecidableEq θ] [DecidableEq ν] {s s' : Monitor θ ν} {maxSize : ℤ}

omit [DecidableEq θ] [DecidableEq ν] in
/-- The queue as its users see it. -/
def Monitor.fifo (s : Monitor θ ν) : BoundedFifo ν :=
  ⟨s.queue.nodes, s.accepted, s.returned, s.queue.shutdown⟩

/-- The queue has its shape and its capacity. -/
structure Monitor.Linked (maxSize : ℤ) (s : Monitor θ ν) : Prop where
  shaped : s.queue.Shaped
  maxSize_eq : s.queue.maxSize = maxSize

/-- The section of `task_queue_push` is at most one step of the abstract queue. -/
theorem PushSection.fifo {th : θ} {task : ν} (h : PushSection s th task s') (hi : s.Linked maxSize)
    (hnew : task ∉ s.queue.nodes) :
    s'.Linked maxSize ∧
      Relation.ReflTransGen (BoundedFifo.Step maxSize.toNat) s.fifo s'.fifo := by
  cases h with
  | wait | rejected => exact ⟨⟨hi.shaped, hi.maxSize_eq⟩, .refl⟩
  | @accepted woken hroom hopen =>
    obtain ⟨hshaped, hnodes⟩ := hi.shaped.enqueue hnew
    refine ⟨⟨hshaped, (s.queue.enqueue_maxSize task).trans hi.maxSize_eq⟩, ?_⟩
    have hlen : s.queue.nodes.length < maxSize.toNat := by
      have hsize := hi.shaped.size
      have hcap := hi.maxSize_eq
      omega
    have hfifo : (s.accept task woken).fifo =
        { s.fifo with items := s.fifo.items ++ [task], accepted := s.fifo.accepted ++ [task] } := by
      rw [Monitor.fifo, Monitor.accept_queue, hnodes, TaskQueue.enqueue_shutdown]
      rfl
    rw [hfifo]
    exact .single (.put s.fifo task hopen hlen)

/-- The section of `task_queue_pop` is at most one step of the abstract queue. -/
theorem PopSection.fifo {th : θ} (h : PopSection s th s') (hi : s.Linked maxSize) :
    s'.Linked maxSize ∧
      Relation.ReflTransGen (BoundedFifo.Step maxSize.toNat) s.fifo s'.fifo := by
  cases h with
  | wait | closed | noHead => exact ⟨⟨hi.shaped, hi.maxSize_eq⟩, .refl⟩
  | @popped task woken hhead =>
    obtain ⟨l, hnodes, hshaped, hrest⟩ := hi.shaped.dequeue hhead
    refine ⟨⟨hshaped, hi.maxSize_eq⟩, ?_⟩
    have hfifo : (s.hand task woken).fifo =
        { s.fifo with items := l, returned := s.fifo.returned ++ [task] } := by
      rw [Monitor.fifo, Monitor.hand_queue, hrest]
      rfl
    rw [hfifo]
    exact .single (.take s.fifo task l hnodes)

/-- A step is at most one step of the abstract queue. -/
theorem MonitorStep.fifo {a : QueueAction θ ν} (h : MonitorStep s a s') (hi : s.Linked maxSize)
    (hfresh : s.Fresh a) :
    s'.Linked maxSize ∧
      Relation.ReflTransGen (BoundedFifo.Step maxSize.toNat) s.fifo s'.fifo := by
  cases h with
  | push hcall h => exact h.fifo hi (hfresh _ rfl)
  | pop hcall h => exact h.fifo hi
  | @pushAgain th task woken s' hcall hth h =>
    have hr : (s.resumePush th).Linked maxSize := ⟨hi.shaped, hi.maxSize_eq⟩
    refine h.fifo hr (hfresh task ?_)
    rw [Monitor.pushed?, hcall]
    rfl
  | @popAgain th woken s' hcall hth h =>
    have hr : (s.resumePop th).Linked maxSize := ⟨hi.shaped, hi.maxSize_eq⟩
    exact h.fifo hr
  | spuriousNotEmpty | spuriousNotFull => exact ⟨⟨hi.shaped, hi.maxSize_eq⟩, .refl⟩
  | shutdown => exact ⟨⟨hi.shaped.close, hi.maxSize_eq⟩, .single (.close s.fifo)⟩

/-- The queue has its shape in every run that pushes no task that is in the queue. -/
theorem reachable_linked (h : (taskQueue θ ν maxSize).ReachableUnder Monitor.Fresh s) :
    s.Linked maxSize := by
  refine h.invariant ?_ fun s a s' _ hi hok hs => ((monitorStep_spec hs).fifo hi hok).1
  rintro _ ⟨next, rfl⟩
  exact ⟨(TaskQueue.shaped_create next maxSize).1, rfl⟩

/-- What was accepted was returned or is in the queue, which keeps its bound. -/
theorem reachable_fifo (h : (taskQueue θ ν maxSize).ReachableUnder Monitor.Fresh s) :
    BoundedFifo.Inv maxSize.toNat s.fifo := by
  refine BoundedFifo.inv_empty.steps (h.simulation ?_ fun s a s' hr hok hs =>
    ((monitorStep_spec hs).fifo (reachable_linked hr) hok).2)
  rintro _ ⟨next, rfl⟩
  rw [Monitor.fifo, Monitor.create_queue, (TaskQueue.shaped_create next maxSize).2]
  rfl

/-! ### The results of the calls -/

/-- `task_queue_push` returns -1 only after the shutdown, and then leaves the queue alone. -/
theorem MonitorStep.rejected {a : QueueAction θ ν} (h : MonitorStep s a s')
    (hlast : s'.last = some (.pushed (-1))) : s.queue.shutdown = true ∧ s'.queue = s.queue ∧
      s'.accepted = s.accepted ∧ s'.returned = s.returned := by
  cases h with
  | push hcall h | pushAgain hcall hth h =>
    cases h with
    | wait | accepted => simp at hlast
    | rejected hclosed => exact ⟨hclosed, rfl, rfl, rfl⟩
  | pop hcall h | popAgain hcall hth h => cases h <;> simp at hlast
  | spuriousNotEmpty | spuriousNotFull | shutdown => cases hlast

/-- `task_queue_pop` returns NULL only when the queue is shut down and empty. -/
theorem MonitorStep.noTask {a : QueueAction θ ν} (h : MonitorStep s a s') (hi : s.queue.Shaped)
    (hlast : s'.last = some (.popped none)) : s.queue.shutdown = true ∧ s.queue.size = 0 := by
  cases h with
  | push hcall h | pushAgain hcall hth h => cases h <;> simp at hlast
  | pop hcall h | popAgain hcall hth h =>
    cases h with
    | wait | popped => simp at hlast
    | closed hempty hclosed => exact ⟨hclosed, hempty⟩
    | noHead hne hhead => exact absurd (hi.head_eq_none_iff.mp hhead) hne
  | spuriousNotEmpty | spuriousNotFull | shutdown => cases hlast

/-- `task_queue_push` returns 0 exactly when its task is accepted. -/
theorem MonitorStep.accepts {a : QueueAction θ ν} (h : MonitorStep s a s') :
    (∃ task ∈ s.pushed? a, s'.last = some (.pushed 0) ∧ s'.accepted = s.accepted ++ [task]) ∨
      s'.last ≠ some (.pushed 0) ∧ s'.accepted = s.accepted := by
  cases h with
  | @push th task woken _ hcall h =>
    cases h with
    | wait | rejected => exact .inr ⟨by simp, rfl⟩
    | accepted => exact .inl ⟨task, rfl, rfl, rfl⟩
  | @pushAgain th task woken _ hcall hth h =>
    have htask : s.pushed? (.pushAgain th woken) = some task := by rw [Monitor.pushed?, hcall]
    cases h with
    | wait | rejected => exact .inr ⟨by simp, rfl⟩
    | accepted => exact .inl ⟨task, htask, rfl, rfl⟩
  | pop hcall h | popAgain hcall hth h => cases h <;> exact .inr ⟨by simp, rfl⟩
  | spuriousNotEmpty | spuriousNotFull | shutdown => exact .inr ⟨nofun, rfl⟩

/-- `task_queue_pop` returns a task exactly when it is handed out, and then it is the first one. -/
theorem MonitorStep.hands {a : QueueAction θ ν} (h : MonitorStep s a s') :
    (∃ task, s.queue.head = some task ∧ s'.last = some (.popped (some task)) ∧
        s'.returned = s.returned ++ [task]) ∨
      (∀ task, s'.last ≠ some (.popped (some task))) ∧ s'.returned = s.returned := by
  cases h with
  | push hcall h | pushAgain hcall hth h => cases h <;> exact .inr ⟨by simp, rfl⟩
  | pop hcall h | popAgain hcall hth h =>
    cases h with
    | wait | closed | noHead => exact .inr ⟨by simp, rfl⟩
    | popped hhead => exact .inl ⟨_, hhead, rfl, rfl⟩
  | spuriousNotEmpty | spuriousNotFull | shutdown => exact .inr ⟨nofun, rfl⟩

/-- As long as there is a task, also after the shutdown, `task_queue_pop` returns the first one. -/
theorem Monitor.step_pop {th : θ} {woken : Finset θ} (hi : s.queue.Shaped)
    (hcall : s.call th = .out) (hwoken : s.notFull.Signals woken) (hne : s.queue.size ≠ 0) :
    ∃ task, s.queue.head = some task ∧ s.step (.pop th woken) = some (s.hand task woken) := by
  obtain ⟨task, hhead⟩ :=
    Option.ne_none_iff_exists'.mp fun hnone => hne (hi.head_eq_none_iff.mp hnone)
  refine ⟨task, hhead, ?_⟩
  simp only [Monitor.step, hcall, Monitor.popSection, TaskQueue.popWaits, hne, hhead, decide_false,
    Bool.false_and, Bool.and_false, Bool.false_eq_true, if_false, if_pos hwoken]

/-- In every run of any number of threads that push no task that is in the queue: the links from
`head` visit `size` different nodes and end at `tail`; the tasks accepted so far are, in this order,
those returned and those on the way from `head`; a section of `task_queue_push`, also one after a
wake-up, returns 0 exactly when its task is accepted, and -1 only after the shutdown and without any
change; one of `task_queue_pop` returns a task exactly when it is taken from the head, NULL only
when the queue is shut down and empty, and the first task whenever there is one. -/
theorem taskQueue_fifo (hmax : 1 ≤ maxSize)
    (h : (taskQueue θ ν maxSize).ReachableUnder Monitor.Fresh s) :
    (∃ l, LinkedChain s.queue.next s.queue.head l ∧ l.Nodup ∧ (l.length : ℤ) = s.queue.size ∧
      l.getLast? = s.queue.tail ∧ s.accepted = s.returned ++ l) ∧
    (s.queue.head = none ↔ s.queue.size = 0) ∧ (s.queue.tail = none ↔ s.queue.size = 0) ∧
    0 ≤ s.queue.size ∧ s.queue.size ≤ maxSize ∧
    (∀ a s', s.step a = some s' →
      (∃ task ∈ s.pushed? a, s'.last = some (.pushed 0) ∧ s'.accepted = s.accepted ++ [task]) ∨
        s'.last ≠ some (.pushed 0) ∧ s'.accepted = s.accepted) ∧
    (∀ a s', s.step a = some s' →
      (∃ task, s.queue.head = some task ∧ s'.last = some (.popped (some task)) ∧
          s'.returned = s.returned ++ [task]) ∨
        (∀ task, s'.last ≠ some (.popped (some task))) ∧ s'.returned = s.returned) ∧
    (∀ a s', s.step a = some s' → s'.last = some (.pushed (-1)) →
      s.queue.shutdown = true ∧ s'.queue = s.queue ∧ s'.accepted = s.accepted ∧
        s'.returned = s.returned) ∧
    (∀ a s', s.step a = some s' → s'.last = some (.popped none) →
      s.queue.shutdown = true ∧ s.queue.size = 0) ∧
    ∀ th woken, s.call th = .out → s.notFull.Signals woken → s.queue.size ≠ 0 →
      ∃ task s', s.queue.head = some task ∧ s.step (.pop th woken) = some s' ∧
        s'.last = some (.popped (some task)) ∧ s'.returned = s.returned ++ [task] := by
  have hi := reachable_linked h
  have hfifo := reachable_fifo h
  have hsize := hi.shaped.size
  have hbound : s.queue.nodes.length ≤ maxSize.toNat := hfifo.bound
  refine ⟨⟨s.queue.nodes, hi.shaped.chain, hi.shaped.chain.nodup, hsize, hi.shaped.tail,
    hfifo.account⟩, hi.shaped.head_eq_none_iff, hi.shaped.tail_eq_none_iff, by omega, by omega,
    fun a s' hs => (monitorStep_spec hs).accepts, fun a s' hs => (monitorStep_spec hs).hands,
    fun a s' hs hlast => (monitorStep_spec hs).rejected hlast,
    fun a s' hs hlast => (monitorStep_spec hs).noTask hi.shaped hlast,
    fun th woken hcall hwoken hne => ?_⟩
  obtain ⟨task, hhead, hstep⟩ := Monitor.step_pop hi.shaped hcall hwoken hne
  exact ⟨task, s.hand task woken, hhead, hstep, rfl, rfl⟩

/-- Two producers and a consumer at a queue for one task, which is then shut down. -/
theorem taskQueue_fifo_shutdown :
    ∃ s : Monitor ℕ ℕ, s.accepted = [7, 8] ∧ s.returned = [7] ∧ s.queue.shutdown = true ∧
      (∃ l, LinkedChain s.queue.next s.queue.head l ∧ l.Nodup ∧ (l.length : ℤ) = s.queue.size ∧
        l.getLast? = s.queue.tail ∧ s.accepted = s.returned ++ l) ∧
      ∀ th woken, s.call th = .out → s.notFull.Signals woken → s.queue.size ≠ 0 →
        ∃ task s', s.queue.head = some task ∧ s.step (.pop th woken) = some s' ∧
          s'.last = some (.popped (some task)) ∧ s'.returned = s.returned ++ [task] := by
  obtain ⟨s, hs, hp⟩ := (taskQueue ℕ ℕ 1).exists_of_execUnder Monitor.Fresh
    [.pop 0 ∅, .push 1 7 {0}, .push 2 8 ∅, .popAgain 0 {2}, .pushAgain 2 ∅, .shutdown, .push 1 9 ∅]
    (fun s => decide (s.accepted = [7, 8] ∧ s.returned = [7] ∧ s.queue.shutdown = true))
    ⟨fun _ => none, rfl⟩ (by decide +kernel)
  obtain ⟨hacc, hret, hclosed⟩ := of_decide_eq_true hp
  obtain ⟨hchain, -, -, -, -, -, -, -, -, hpop⟩ := taskQueue_fifo le_rfl hs
  exact ⟨s, hacc, hret, hclosed, hchain, hpop⟩

end refinement

end DeepInIo
