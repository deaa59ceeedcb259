import DeepInIo.Foundation.SlotTable
import DeepInIo.Foundation.Transition
import Mathlib.Tactic.Simps.Basic

/-!
# The global task table

`global_queue.c`: tasks are stored in the first free slot of `g_tasks` and handed out from the first
valid one, each under `g_task_lock`.  Seen as a `SlotTable`, every call of the two functions is at
most one step (`call_table`), provided that no task is stored below one that it must not pass.

The fields `stamp`, `stored` and `handed` are added for the specification and never read by the
code.
-/

namespace DeepInIo.ReactorServer

/-- `MAX_TASKS` -/
def maxTasks : ℕ := 1024

/-- `MAX_DATA_SIZE` -/
def maxDataSize : ℕ := 4096

/-- The characters of a C string: everything before the first NUL. -/
def cString (s : List UInt8) : List UInt8 :=
  s.takeWhile fun b => b != 0

/-- `strncpy` of at most `size` characters; what it writes behind them are NULs. -/
def strncpy (s : List UInt8) (size : ℕ) : List UInt8 :=
  (cString s).take size

/-- `global_task_t`; `data` are the characters before the NUL. -/
structure GlobalTask where
  fd : ℤ
  data : List UInt8
  valid : Bool
  /-- Specification: how many tasks were stored before. -/
  stamp : ℕ

/-- `g_tasks` -/
structure GlobalQueue where
  tasks : ℕ → GlobalTask
  /-- Specification: the tasks stored so far, in that order. -/
  stored : List (ℤ × List UInt8)
  /-- Specification: the tasks handed out so far, in that order. -/
  handed : List GlobalTask

namespace GlobalQueue

/-- `global_queue_init` -/
def globalQueueInit : GlobalQueue where
  tasks := fun _ => { fd := -1, data := [], valid := false, stamp := 0 }
  stored := []
  handed := []

variable (q : GlobalQueue)

/-- The loop of `global_queue_add_task`: the first free slot. -/
def freeSlot : Option ℕ :=
  scan (fun i => !(q.tasks i).valid) 0 maxTasks

/-- The loop of `global_queue_get_task`: the first valid slot. -/
def validSlot : Option ℕ :=
  scan (fun i => (q.tasks i).valid) 0 maxTasks

/-- The body of the loop of `global_queue_add_task`. -/
@[simps]
def store (i : ℕ) (fd : ℤ) (data : List UInt8) : GlobalQueue where
  tasks := Function.update q.tasks i
    { fd := fd, data := strncpy data (maxDataSize - 1), valid := true, stamp := q.stored.length }
  stored := q.stored ++ [(fd, strncpy data (maxDataSize - 1))]
  handed := q.handed

/-- `global_queue_add_task` with its result, `-1` when the table is full. -/
def globalQueueAddTask (fd : ℤ) (data : List UInt8) : GlobalQueue × ℤ :=
  match q.freeSlot with
  | some i => (q.store i fd data, 0)
  | none => (q, -1)

/-- The body of the loop of `global_queue_get_task`. -/
@[simps]
def handOut (i : ℕ) : GlobalQueue where
  tasks := Function.update q.tasks i { q.tasks i with valid := false }
  stored := q.stored
  handed := q.handed ++ [q.tasks i]

/-- `global_queue_get_task` with the task it copies, none when no slot is valid. -/
def globalQueueGetTask : GlobalQueue × Option GlobalTask :=
  match q.validSlot with
  | some i => (q.handOut i, some (q.tasks i))
  | none => (q, none)

end GlobalQueue

/-- A call of one of the two functions. -/
inductive QueueCall
  | addTask (fd : ℤ) (data : List UInt8)
  | getTask
  deriving DecidableEq

/-- The table under arbitrary calls of any number of threads. -/
def globalQueue : TransitionSystem GlobalQueue QueueCall where
  init q := q = GlobalQueue.globalQueueInit
  step q
    | .addTask fd data => some (q.globalQueueAddTask fd data).1
    | .getTask => some q.globalQueueGetTask.1

namespace GlobalQueue

variable {q q' : GlobalQueue}

/-! ### The table -/

/-- The table without the slots that are free. -/
def table (q : GlobalQueue) : SlotTable GlobalTask where
  slots i := if i < maxTasks ∧ (q.tasks i).valid = true then some ((q.tasks i).stamp, q.tasks i)
    else none
  next := q.stored.length
  taken := q.handed.map fun task => (task.stamp, task)

/-- How many tasks stored after `task` have been handed out. -/
def overtaken (q : GlobalQueue) (task : GlobalTask) : ℕ :=
  q.handed.countP fun task' => task.stamp < task'.stamp

/-- How many tasks stored after the one in the slot `j` have been handed out or are in a slot below
it. -/
def passed (q : GlobalQueue) (j : ℕ) : ℕ :=
  q.overtaken (q.tasks j) +
    (List.range j).countP fun i =>
      (q.tasks i).valid && decide ((q.tasks j).stamp < (q.tasks i).stamp)

/-- No task waits above a free slot that is of the same descriptor, or that has been passed `b`
times: the call does not store its task below such a one. -/
def Behind (b : ℕ) (q : GlobalQueue) : QueueCall → Prop
  | .addTask fd _ =>
    ∀ j < maxTasks, (q.tasks j).valid = true → (∃ i < j, (q.tasks i).valid = false) →
      (q.tasks j).fd ≠ fd ∧ q.passed j < b
  | .getTask => True

instance (b : ℕ) (q : GlobalQueue) : (a : QueueCall) → Decidable (Behind b q a)
  | .addTask fd _ => inferInstanceAs (Decidable (∀ j < maxTasks, (q.tasks j).valid = true →
      (∃ i < j, (q.tasks i).valid = false) → (q.tasks j).fd ≠ fd ∧ q.passed j < b))
  | .getTask => .isTrue trivial

/-! ### Calls are steps of the table -/

/-- A slot the loop of `global_queue_add_task` stops at is free. -/
theorem freeSlot_spec {i : ℕ} (h : q.freeSlot = some i) :
    i < maxTasks ∧ (q.tasks i).valid = false := by
  obtain ⟨-, hlt, hfree, -⟩ := scan_eq_some h
  exact ⟨by omega, by simpa using hfree⟩

/-- There is a slot to stop at exactly when the table is not full. -/
theorem freeSlot_isSome_iff : q.freeSlot.isSome ↔ ∃ i < maxTasks, (q.tasks i).valid = false := by
  constructor
  · intro h
    obtain ⟨i, hi⟩ := Option.isSome_iff_exists.mp h
    exact ⟨i, freeSlot_spec hi⟩
  · rintro ⟨i, hlt, hfree⟩
    rw [Option.isSome_iff_ne_none]
    intro hnone
    have hp := scan_eq_none hnone i (Nat.zero_le _) (by omega)
    simp [hfree] at hp

/-- A slot the loop of `global_queue_get_task` stops at is the first valid one. -/
theorem validSlot_spec {i : ℕ} (h : q.validSlot = some i) :
    i < maxTasks ∧ (q.tasks i).valid = true ∧ ∀ j < i, (q.tasks j).valid = false := by
  obtain ⟨-, hlt, hvalid, hfirst⟩ := scan_eq_some h
  exact ⟨by omega, hvalid, fun j hj => hfirst j (Nat.zero_le j) hj⟩

theorem table_slots_eq_some {j : ℕ} {e : ℕ × GlobalTask} :
    q.table.slots j = some e ↔
      j < maxTasks ∧ (q.tasks j).valid = true ∧ e = ((q.tasks j).stamp, q.tasks j) := by
  change (if j < maxTasks ∧ (q.tasks j).valid = true then some ((q.tasks j).stamp, q.tasks j)
    else none) = some e ↔ _
  split
  · next h => simp [h, eq_comm]
  · next h => simpa using fun hj hv => absurd ⟨hj, hv⟩ h

/-- The entries that have passed a slot of the table are the tasks that have passed it. -/
theorem table_passed {j : ℕ} (hj : j < maxTasks) :
    q.table.passed (q.tasks j).stamp j = q.passed j := by
  have hbelow : SlotTable.laterBelow q.table.slots (q.tasks j).stamp j =
      (List.range j).countP fun i =>
      (q.tasks i).valid && decide ((q.tasks j).stamp < (q.tasks i).stamp) := by
    refine List.countP_congr fun i hi => ?_
    have hlt : i < maxTasks := (List.mem_range.mp hi).trans hj
    cases hv : (q.tasks i).valid <;> simp [table, hv, hlt]
  rw [SlotTable.passed, hbelow, SlotTable.later, table, List.countP_map]
  rfl

/-- Storing a task puts an entry into the table. -/
theorem store_table {i : ℕ} (hi : i < maxTasks) (fd : ℤ) (data : List UInt8) :
    (q.store i fd data).table =
      ⟨Function.update q.table.slots i (some (q.stored.length, (q.store i fd data).tasks i)),
        q.stored.length + 1, q.table.taken⟩ := by
  simp only [table, store_handed, store_stored, List.length_append, List.length_singleton]
  congr 1
  funext j
  by_cases hj : j = i
  · subst hj
    simp [hi]
  · simp [hj]

/-- Handing out a task takes an entry from the table. -/
theorem handOut_table {i : ℕ} :
    (q.handOut i).table =
      ⟨Function.update q.table.slots i none, q.stored.length,
        q.table.taken ++ [((q.tasks i).stamp, q.tasks i)]⟩ := by
  simp only [table, handOut_handed, handOut_stored, List.map_append, List.map_singleton]
  congr 1
  funext j
  by_cases hj : j = i
  · subst hj
    simp
  · simp [hj]

/-- A call is at most one step of the table. -/
theorem call_table {b : ℕ} {a : QueueCall} (hok : Behind b q a)
    (hs : globalQueue.step q a = some q') :
    Relation.ReflTransGen (SlotTable.Step (fun v w : GlobalTask => v.fd = w.fd) b) q.table
      q'.table := by
  cases a with
  | addTask fd data =>
    simp only [globalQueue, globalQueueAddTask, Option.some.injEq] at hs
    subst hs
    split
    · next i hi =>
      obtain ⟨hlt, hfree⟩ := freeSlot_spec hi
      rw [store_table hlt]
      refine .single (.put q.table i _ ?_ fun j e hij he => ?_)
      · simp [table, hfree]
      · obtain ⟨hj, hv, rfl⟩ := table_slots_eq_some.mp he
        obtain ⟨hfd, hpassed⟩ := hok j hj hv ⟨i, hij, hfree⟩
        refine ⟨fun heq => hfd ?_, ?_⟩
        · simpa using heq.symm
        · rw [table_passed hj]
          exact hpassed
    · exact .refl
  | getTask =>
    simp only [globalQueue, globalQueueGetTask, Option.some.injEq] at hs
    subst hs
    split
    · next i hi =>
      obtain ⟨hlt, hvalid, hfirst⟩ := validSlot_spec hi
      rw [handOut_table]
      refine .single (.take q.table i _ ?_ fun j hj => ?_)
      · exact table_slots_eq_some.mpr ⟨hlt, hvalid, rfl⟩
      · simp [table, hfirst j hj]
    · exact .refl

/-- The table is in order in every run that keeps behind. -/
theorem reachable_table {b : ℕ} (h : globalQueue.ReachableUnder (Behind b) q) :
    SlotTable.Inv (fun v w : GlobalTask => v.fd = w.fd) b q.table := by
  refine SlotTable.inv_empty.steps
    (h.simulation (f := table) ?_ fun q a q' _ hok hs => call_table hok hs)
  rintro q rfl
  simp [table, globalQueueInit]

/-! ### The stamps -/

/-- The stamp of a task says where it was stored. -/
structure Stamped (q : GlobalQueue) : Prop where
  tasks : ∀ j, (q.tasks j).valid = true →
    q.stored[(q.tasks j).stamp]? = some ((q.tasks j).fd, (q.tasks j).data)
  handed : ∀ task ∈ q.handed, q.stored[task.stamp]? = some (task.fd, task.data)

/-- What is stored stays stored. -/
theorem getElem?_append_of_eq {α : Type*} {l l' : List α} {i : ℕ} {a : α} (h : l[i]? = some a) :
    (l ++ l')[i]? = some a := by
  rw [List.getElem?_append_left (List.getElem?_eq_some_iff.mp h).1, h]

/-- Every task was stored at the place its stamp says. -/
theorem reachable_stamped (h : globalQueue.Reachable q) : Stamped q := by
  refine h.invariant ?_ ?_
  · rintro q rfl
    exact ⟨nofun, nofun⟩
  · intro q a q' _ hi hs
    cases a with
    | addTask fd data =>
      simp only [globalQueue, globalQueueAddTask, Option.some.injEq] at hs
      subst hs
      split
      · next i _ =>
        refine ⟨fun j hv => ?_, fun task ht => getElem?_append_of_eq (hi.handed task ht)⟩
        by_cases hj : j = i
        · subst hj
          simp
        · rw [store_tasks, Function.update_of_ne hj] at hv ⊢
          exact getElem?_append_of_eq (hi.tasks j hv)
      · exact hi
    | getTask =>
      simp only [globalQueue, globalQueueGetTask, Option.some.injEq] at hs
      subst hs
      split
      · next i hvalid =>
        refine ⟨fun j hv => ?_, fun task ht => ?_⟩
        · by_cases hj : j = i
          · subst hj
            simp at hv
          · rw [handOut_tasks, Function.update_of_ne hj] at hv ⊢
            exact hi.tasks j hv
        · rcases List.mem_append.mp ht with ht | ht
          · exact hi.handed task ht
          · cases List.mem_singleton.mp ht
            exact hi.tasks i (validSlot_spec hvalid).2.1
      · exact hi

/-! ### The order in which tasks are handed out -/

/-- In every run of calls in which no task is stored below a waiting one of the same descriptor, nor
below one that `b` later tasks have passed already: tasks of one descriptor are handed out in the
order in which they were stored, none while an earlier one waits, and no task, waiting or handed
out, is overtaken by more than `b` tasks stored after it.  The stamp of a task is its place among
the stored ones. -/
theorem globalQueue_ordered {b : ℕ} (h : globalQueue.ReachableUnder (Behind b) q) :
    (∀ task ∈ q.handed, q.stored[task.stamp]? = some (task.fd, task.data)) ∧
      q.handed.Pairwise (fun task task' => task.fd = task'.fd → task.stamp < task'.stamp) ∧
      (∀ task ∈ q.handed, ∀ j < maxTasks, (q.tasks j).valid = true → task.fd = (q.tasks j).fd →
        task.stamp < (q.tasks j).stamp) ∧
      (∀ j < maxTasks, (q.tasks j).valid = true → q.overtaken (q.tasks j) ≤ b) ∧
      ∀ l task l', q.handed = l ++ task :: l' →
        l.countP (fun task' => task.stamp < task'.stamp) ≤ b := by
  have hi := reachable_table h
  refine ⟨(reachable_stamped h.reachable).handed, ?_, fun task ht j hj hv => ?_, fun j hj hv => ?_,
    fun l task l' heq => ?_⟩
  · exact List.pairwise_map.mp hi.taken_ordered
  · exact hi.taken_first (task.stamp, task) (List.mem_map_of_mem ht) j _
      (table_slots_eq_some.mpr ⟨hj, hv, rfl⟩)
  · have hpassed := hi.slot_passed j _ (table_slots_eq_some.mpr ⟨hj, hv, rfl⟩)
    rw [table_passed hj] at hpassed
    exact le_trans (Nat.le_add_right ..) hpassed
  · have hpassed := hi.taken_passed (l.map fun task => (task.stamp, task)) (task.stamp, task)
      (l'.map fun task => (task.stamp, task)) (by simp [table, heq])
    rw [SlotTable.later, List.countP_map] at hpassed
    exact hpassed

/-- Three tasks, of which the third overtakes one of another descriptor, once. -/
theorem globalQueue_ordered_passed :
    ∃ q : GlobalQueue, q.handed.map (fun task => task.fd) = [5, 5, 6] ∧
      (∀ task ∈ q.handed, q.stored[task.stamp]? = some (task.fd, task.data)) ∧
      q.handed.Pairwise (fun task task' => task.fd = task'.fd → task.stamp < task'.stamp) ∧
      (∀ task ∈ q.handed, ∀ j < maxTasks, (q.tasks j).valid = true → task.fd = (q.tasks j).fd →
        task.stamp < (q.tasks j).stamp) ∧
      (∀ j < maxTasks, (q.tasks j).valid = true → q.overtaken (q.tasks j) ≤ 1) ∧
      ∀ l task l', q.handed = l ++ task :: l' →
        l.countP (fun task' => task.stamp < task'.stamp) ≤ 1 := by
  obtain ⟨q, hq, hp⟩ := globalQueue.exists_of_execUnder (Behind 1)
    [.addTask 5 [65], .addTask 6 [66], .getTask, .addTask 5 [67], .getTask, .getTask]
    (fun q => decide (q.handed.map (fun task => task.fd) = [5, 5, 6])) rfl (by decide +kernel)
  exact ⟨q, of_decide_eq_true hp, globalQueue_ordered hq⟩

/-- A task is stored in the slot that became free and handed out before an earlier one of the same
descriptor. -/
theorem later_task_first :
    ∃ q, globalQueue.Reachable q ∧ q.stored = [(5, [65]), (5, [66]), (5, [67])] ∧
      q.handed.map (fun task => task.stamp) = [0, 2, 1] := by
  obtain ⟨q, hq, hp⟩ := globalQueue.exists_of_exec
    [.addTask 5 [65], .addTask 5 [66], .getTask, .addTask 5 [67], .getTask, .getTask]
    (fun q => decide (q.stored = [(5, [65]), (5, [66]), (5, [67])] ∧
      q.handed.map (fun task => task.stamp) = [0, 2, 1])) rfl (by decide +kernel)
  exact ⟨q, hq, of_decide_eq_true hp⟩

/-- While the first slot is filled and emptied, the task in the second one waits. -/
theorem overtaken_without_bound (b : ℕ) :
    ∃ q, globalQueue.Reachable q ∧ (q.tasks 1).valid = true ∧ b ≤ q.overtaken (q.tasks 1) := by
  suffices hrun : ∃ q, globalQueue.Reachable q ∧ (q.tasks 0).valid = false ∧
      (q.tasks 1).valid = true ∧ (q.tasks 1).stamp < q.stored.length ∧
      b ≤ q.overtaken (q.tasks 1) by
    obtain ⟨q, hq, -, hv, -, hb⟩ := hrun
    exact ⟨q, hq, hv, hb⟩
  induction b with
  | zero =>
    obtain ⟨q, hq, hp⟩ := globalQueue.exists_of_exec [.addTask 5 [65], .addTask 6 [66], .getTask]
      (fun q => decide ((q.tasks 0).valid = false ∧ (q.tasks 1).valid = true ∧
        (q.tasks 1).stamp < q.stored.length)) rfl (by decide +kernel)
    obtain ⟨h0, h1, hlt⟩ := of_decide_eq_true hp
    exact ⟨q, hq, h0, h1, hlt, Nat.zero_le _⟩
  | succ b ih =>
    obtain ⟨q, hq, h0, h1, hlt, hb⟩ := ih
    have hfree : q.freeSlot = some 0 := by
      simp [freeSlot, maxTasks, scan, h0]
    have hstore : globalQueue.step q (.addTask 5 [65]) = some (q.store 0 5 [65]) := by
      simp [globalQueue, globalQueueAddTask, hfree]
    have hvalid : (q.store 0 5 [65]).validSlot = some 0 := by
      simp [validSlot, maxTasks, scan]
    have hhand : globalQueue.step (q.store 0 5 [65]) .getTask =
        some ((q.store 0 5 [65]).handOut 0) := by
      simp [globalQueue, globalQueueGetTask, hvalid]
    refine ⟨_, (hq.next hstore).next hhand, by simp, by simpa using h1, ?_, ?_⟩
    · simpa using Nat.lt_succ_of_lt hlt
    · rw [overtaken] at hb ⊢
      simp only [handOut_handed, store_handed, List.countP_append, List.countP_singleton,
        handOut_tasks, store_tasks, Function.update_self, Function.update_of_ne Nat.one_ne_zero]
      rw [if_pos (decide_eq_true hlt)]
      exact Nat.succ_le_succ hb

end GlobalQueue

end DeepInIo.ReactorServer
