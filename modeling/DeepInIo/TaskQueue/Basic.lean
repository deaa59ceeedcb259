import DeepInIo.Foundation.LinkedChain
import Mathlib.Data.Int.Notation
import Mathlib.Tactic.Simps.Basic

/-!
# The task queue

The data of `task_queue.c`: tasks are linked through their `next` fields from `head` to `tail`.  A
pointer is an `Option`; what `next` holds outside the queue is arbitrary.
-/

namespace DeepInIo

/-- `task_queue_t` with the links of the tasks. -/
structure TaskQueue (ν : Type*) where
  next : ν → Option ν
  head : Option ν
  tail : Option ν
  size : ℤ
  maxSize : ℤ
  shutdown : Bool

namespace TaskQueue

variable {ν : Type*}

/-- `task_queue_create` -/
@[simps]
def taskQueueCreate (next : ν → Option ν) (maxSize : ℤ) : TaskQueue ν where
  next := next
  head := none
  tail := none
  size := 0
  maxSize := maxSize
  shutdown := false

variable (q : TaskQueue ν)

/-- The condition of the waiting loop of `task_queue_push`. -/
def pushWaits : Bool :=
  decide (q.maxSize ≤ q.size) && !q.shutdown

/-- The condition of the waiting loop of `task_queue_pop`. -/
def popWaits : Bool :=
  decide (q.size = 0) && !q.shutdown

/-- The nodes found by following the links from `head`. -/
def nodes : List ν :=
  followLinks q.next q.head q.size.toNat

/-- `queue->shutdown = 1` -/
@[simps]
def close : TaskQueue ν :=
  { q with shutdown := true }

variable [DecidableEq ν]

/-- `task_queue_push` adds the task behind the tail. -/
def enqueue (task : ν) : TaskQueue ν :=
  let next := Function.update q.next task none
  match q.tail with
  | some last =>
    { q with
      next := Function.update next last (some task)
      tail := some task
      size := q.size + 1 }
  | none =>
    { q with
      next := next
      head := some task
      tail := some task
      size := q.size + 1 }

/-- `task_queue_pop` takes `task` from the head. -/
def dequeue (task : ν) : TaskQueue ν :=
  let head := q.next task
  { q with
    next := Function.update q.next task none
    head := head
    tail := if head.isNone then none else q.tail
    size := q.size - 1 }

@[simp] theorem enqueue_size (task : ν) : (q.enqueue task).size = q.size + 1 := by
  unfold enqueue
  split <;> rfl

@[simp] theorem enqueue_maxSize (task : ν) : (q.enqueue task).maxSize = q.maxSize := by
  unfold enqueue
  split <;> rfl

@[simp] theorem enqueue_shutdown (task : ν) : (q.enqueue task).shutdown = q.shutdown := by
  unfold enqueue
  split <;> rfl

/-! ### The shape of the queue -/

/-- The links from `head` visit `size` nodes and end at `tail`. -/
structure Shaped : Prop where
  chain : LinkedChain q.next q.head q.nodes
  size : (q.nodes.length : ℤ) = q.size
  tail : q.nodes.getLast? = q.tail

section shape

variable {q} {task : ν} {l : List ν}

omit [DecidableEq ν] in
/-- A queue has its shape when some chain of the right length ends at `tail`. -/
theorem Shaped.of_chain (h : LinkedChain q.next q.head l) (hsize : (l.length : ℤ) = q.size)
    (htail : l.getLast? = q.tail) : q.Shaped ∧ q.nodes = l := by
  have hnodes : q.nodes = l := h.followLinks_eq (by omega)
  refine ⟨⟨?_, ?_, ?_⟩, hnodes⟩
  · rw [hnodes]
    exact h
  · rw [hnodes]
    exact hsize
  · rw [hnodes]
    exact htail

omit [DecidableEq ν] in
/-- The empty queue. -/
theorem shaped_create (next : ν → Option ν) (maxSize : ℤ) :
    (taskQueueCreate next maxSize).Shaped ∧ (taskQueueCreate next maxSize).nodes = [] :=
  Shaped.of_chain .nil rfl rfl

omit [DecidableEq ν] in
/-- Closing the queue leaves its tasks alone. -/
theorem Shaped.close (h : q.Shaped) : q.close.Shaped :=
  ⟨h.chain, h.size, h.tail⟩

omit [DecidableEq ν] in
/-- The queue is empty exactly when `head` is NULL. -/
theorem Shaped.head_eq_none_iff (h : q.Shaped) : q.head = none ↔ q.size = 0 := by
  rw [← h.chain.head?_eq, ← h.size, List.head?_eq_none_iff, Int.natCast_eq_zero,
    List.length_eq_zero_iff]

omit [DecidableEq ν] in
/-- The queue is empty exactly when `tail` is NULL. -/
theorem Shaped.tail_eq_none_iff (h : q.Shaped) : q.tail = none ↔ q.size = 0 := by
  rw [← h.tail, ← h.size, List.getLast?_eq_none_iff, Int.natCast_eq_zero, List.length_eq_zero_iff]

/-- `task_queue_push` appends a task that is not in the queue. -/
theorem Shaped.enqueue (h : q.Shaped) (hnew : task ∉ q.nodes) :
    (q.enqueue task).Shaped ∧ (q.enqueue task).nodes = q.nodes ++ [task] := by
  have hchain := h.chain.update hnew none
  have hnext : Function.update q.next task none task = none := Function.update_self ..
  have hsize : ((q.nodes ++ [task]).length : ℤ) = q.size + 1 := by
    rw [List.length_append, ← h.size]
    rfl
  rcases htail : q.tail with _ | last
  · have hnil : q.nodes = [] := List.getLast?_eq_none_iff.mp (h.tail.trans htail)
    have henq : q.enqueue task = { q with
        next := Function.update q.next task none
        head := some task
        tail := some task
        size := q.size + 1 } := by
      rw [TaskQueue.enqueue, htail]
    rw [henq]
    rw [hnil] at hsize ⊢
    refine Shaped.of_chain (.cons ?_) hsize rfl
    change LinkedChain _ (Function.update q.next task none task) []
    rw [hnext]
    exact .nil
  · have henq : q.enqueue task = { q with
        next := Function.update (Function.update q.next task none) last (some task)
        tail := some task
        size := q.size + 1 } := by
      rw [TaskQueue.enqueue, htail]
    rw [henq]
    refine Shaped.of_chain (hchain.append (h.tail.trans htail) hnew hnext) hsize ?_
    exact List.getLast?_concat ..

/-- `task_queue_pop` takes the first task. -/
theorem Shaped.dequeue (h : q.Shaped) (hhead : q.head = some task) :
    ∃ l, q.nodes = task :: l ∧ (q.dequeue task).Shaped ∧ (q.dequeue task).nodes = l := by
  have hchain := h.chain
  have hsize := h.size
  have htail := h.tail
  rw [hhead] at hchain
  generalize q.nodes = nodes at hchain hsize htail
  cases hchain with
  | @cons _ l hchain =>
    have hnot : task ∉ l := (List.nodup_cons.mp (LinkedChain.cons hchain).nodup).1
    refine ⟨l, rfl, Shaped.of_chain (hchain.update hnot none) ?_ ?_⟩
    · change (l.length : ℤ) = q.size - 1
      rw [← hsize, List.length_cons]
      omega
    · change l.getLast? = if (q.next task).isNone then none else q.tail
      rw [← htail, ← hchain.head?_eq]
      cases l with
      | nil => rfl
      | cons a l => exact (List.getLast?_cons_cons ..).symm

end shape

end TaskQueue

end DeepInIo
