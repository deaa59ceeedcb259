import DeepInIo.ReactorServer.GlobalQueue
import DeepInIo.Foundation.SlotBag
import Mathlib.Data.List.TakeWhile

/-!
# The bytes of the global task table

`global_queue.c` with the arrays `data` of the slots, in which old characters stay behind.  A task
is in the table as its descriptor and its string, cut to `MAX_DATA_SIZE - 1` characters and filled
up with NULs.  Read through the strings, every call is a call of `GlobalQueue` (`view_addTask`,
`view_getTask`).

The table is a `Bag` of at most `MAX_TASKS` tasks: what was accepted is in a valid slot or was
handed out, each task once (`taskTable_bag`).
-/

namespace DeepInIo.ReactorServer

/-! ### Strings in arrays -/

/-- `char data[MAX_DATA_SIZE]` -/
abbrev CharArray := { chars : List UInt8 // chars.length = maxDataSize }

namespace CharArray

/-- `strncpy`: the string, cut to `size` characters or filled up to them with NULs. -/
def strncpy (dst : CharArray) (src : List UInt8) (size : ℕ) (hsize : size ≤ maxDataSize) :
    CharArray :=
  let chars := (cString src).take size
  ⟨chars ++ List.replicate (size - chars.length) 0 ++ dst.val.drop size, by
    have hle : chars.length ≤ size := List.length_take_le ..
    rw [List.length_append, List.length_append, List.length_replicate, List.length_drop,
      dst.property]
    omega⟩

/-- `data[i] = c` -/
def setChar (dst : CharArray) (i : ℕ) (c : UInt8) : CharArray :=
  ⟨dst.val.set i c, by rw [List.length_set, dst.property]⟩

/-- The string in the array. -/
def text (data : CharArray) : List UInt8 :=
  cString data.val

/-- Behind the string, which ends before the array does, there are only NULs. -/
def Terminated (data : CharArray) : Prop :=
  data.text.length < maxDataSize ∧
    data.val = data.text ++ List.replicate (maxDataSize - data.text.length) 0

end CharArray

/-- `global_task_t` -/
structure TaskSlot where
  fd : ℤ
  data : CharArray
  valid : Bool
  /-- Specification: how many tasks were accepted before. -/
  stamp : ℕ

/-- `g_tasks` -/
structure TaskTable where
  tasks : ℕ → TaskSlot
  /-- Specification: the arguments of the calls that were accepted, in that order. -/
  accepted : List (ℤ × List UInt8)
  /-- Specification: the tasks handed out, in that order. -/
  handed : List TaskSlot

namespace TaskTable

/-- `global_queue_init`, whatever the array contains. -/
def globalQueueInit (data : ℕ → CharArray) : TaskTable where
  tasks := fun i => { fd := -1, data := (data i).setChar 0 0, valid := false, stamp := 0 }
  accepted := []
  handed := []

variable (q : TaskTable)

/-- The loop of `global_queue_add_task`: the first free slot. -/
def freeSlot : Option ℕ :=
  scan (fun i => !(q.tasks i).valid) 0 maxTasks

/-- The loop of `global_queue_get_task`: the first valid slot. -/
def validSlot : Option ℕ :=
  scan (fun i => (q.tasks i).valid) 0 maxTasks

/-- The body of the loop of `global_queue_add_task`. -/
@[simps]
def store (i : ℕ) (fd : ℤ) (data : List UInt8) : TaskTable where
  tasks := Function.update q.tasks i
    { fd := fd
      data := ((q.tasks i).data.strncpy data (maxDataSize - 1) (Nat.sub_le ..)).setChar
        (maxDataSize - 1) 0
      valid := true
      stamp := q.accepted.length }
  accepted := q.accepted ++ [(fd, data)]
  handed := q.handed

/-- `global_queue_add_task` with its result. -/
def globalQueueAddTask (fd : ℤ) (data : List UInt8) : TaskTable × ℤ :=
  match q.freeSlot with
  | some i => (q.store i fd data, 0)
  | none => (q, -1)

/-- The body of the loop of `global_queue_get_task`. -/
@[simps]
def handOut (i : ℕ) : TaskTable where
  tasks := Function.update q.tasks i { q.tasks i with valid := false }
  accepted := q.accepted
  handed := q.handed ++ [q.tasks i]

/-- `global_queue_get_task` with its result and, when it is 0, the task. -/
def globalQueueGetTask : TaskTable × ℤ × Option TaskSlot :=
  match q.validSlot with
  | some i => (q.handOut i, 0, some (q.tasks i))
  | none => (q, -1, none)

end TaskTable

/-- The table under arbitrary calls of any number of threads. -/
def taskTable : TransitionSystem TaskTable QueueCall where
  init q := ∃ data, q = TaskTable.globalQueueInit data
  step q
    | .addTask fd data => some (q.globalQueueAddTask fd data).1
    | .getTask => some q.globalQueueGetTask.1

/-! ### What `strncpy` leaves -/

/-- A string contains no NUL. -/
theorem ne_zero_of_mem_cString {s : List UInt8} {b : UInt8} (h : b ∈ cString s) : b ≠ 0 := by
  have htest := List.mem_takeWhile_imp h
  simpa using htest

/-- NULs end a string. -/
theorem cString_append_replicate {s : List UInt8} (h : ∀ b ∈ s, b ≠ 0) (k : ℕ) :
    cString (s ++ List.replicate k 0) = s := by
  unfold cString
  rw [List.takeWhile_append_of_pos fun b hb => by simpa using h b hb]
  cases k <;> simp [List.replicate]

namespace CharArray

variable {dst : CharArray}

/-- An array whose first character is a NUL has the empty string. -/
theorem text_setChar_zero (dst : CharArray) : (dst.setChar 0 0).text = [] := by
  obtain ⟨chars, hlen⟩ := dst
  cases chars with
  | nil => cases hlen
  | cons b chars => rfl

/-- The characters after `strncpy` and the final NUL. -/
theorem val_copy (dst : CharArray) (src : List UInt8) :
    ((dst.strncpy src (maxDataSize - 1) (Nat.sub_le ..)).setChar (maxDataSize - 1) 0).val =
      ReactorServer.strncpy src (maxDataSize - 1) ++
        List.replicate (maxDataSize - (ReactorServer.strncpy src (maxDataSize - 1)).length) 0 := by
  have hle : (ReactorServer.strncpy src (maxDataSize - 1)).length ≤ maxDataSize - 1 :=
    List.length_take_le ..
  have hdrop : (dst.val.drop (maxDataSize - 1)).length = 1 := by
    rw [List.length_drop, dst.property]
    rfl
  obtain ⟨b, hb⟩ := List.length_eq_one_iff.mp hdrop
  set text := ReactorServer.strncpy src (maxDataSize - 1)
  change (text ++ List.replicate (maxDataSize - 1 - text.length) 0 ++
    dst.val.drop (maxDataSize - 1)).set (maxDataSize - 1) 0 = _
  rw [hb]
  have hfront : (text ++ List.replicate (maxDataSize - 1 - text.length) 0).length =
      maxDataSize - 1 := by
    rw [List.length_append, List.length_replicate]
    omega
  have hsize : maxDataSize - text.length = maxDataSize - 1 - text.length + 1 := by
    have hpos : 0 < maxDataSize := by decide
    omega
  rw [List.set_append_right _ _ hfront.le, hfront, Nat.sub_self, List.set_cons_zero, hsize,
    List.replicate_succ', List.append_assoc]

/-- The copy is the string, cut to the size of the array, and terminated. -/
theorem copy_spec (dst : CharArray) (src : List UInt8) :
    ((dst.strncpy src (maxDataSize - 1) (Nat.sub_le ..)).setChar (maxDataSize - 1) 0).text =
        ReactorServer.strncpy src (maxDataSize - 1) ∧
      ((dst.strncpy src (maxDataSize - 1) (Nat.sub_le ..)).setChar (maxDataSize - 1)
        0).Terminated := by
  have htext :
      ((dst.strncpy src (maxDataSize - 1) (Nat.sub_le ..)).setChar (maxDataSize - 1) 0).text =
        ReactorServer.strncpy src (maxDataSize - 1) := by
    rw [text, val_copy, cString_append_replicate]
    intro b hb
    exact ne_zero_of_mem_cString (List.mem_of_mem_take hb)
  refine ⟨htext, ?_, ?_⟩
  · rw [htext]
    exact (List.length_take_le ..).trans_lt (by decide)
  · rw [htext, val_copy]

end CharArray

/-! ### The table as a bag of strings -/

/-- A descriptor and a string, with the number of tasks accepted before. -/
abbrev NumberedTask := (ℤ × List UInt8) × ℕ

namespace GlobalQueue

variable {q q' : GlobalQueue}

/-- A task with its number. -/
def entry (task : GlobalTask) : NumberedTask :=
  ((task.fd, task.data), task.stamp)

/-- The tasks in the valid slots. -/
def slotEntry (q : GlobalQueue) (i : ℕ) : Option NumberedTask :=
  if (q.tasks i).valid then some (entry (q.tasks i)) else none

/-- The tasks accepted, in the table, and handed out. -/
def bag (q : GlobalQueue) : Bag NumberedTask where
  contents := slotContents maxTasks q.slotEntry
  put := q.stored.zipIdx
  taken := q.handed.map entry

theorem slotEntry_isSome_iff {i : ℕ} :
    (q.slotEntry i).isSome = true ↔ (q.tasks i).valid = true := by
  unfold slotEntry
  split <;> simp_all

theorem slotEntry_eq_none_iff {i : ℕ} : q.slotEntry i = none ↔ (q.tasks i).valid = false := by
  unfold slotEntry
  split <;> simp_all

/-- There is a free slot exactly while the bag is not full. -/
theorem freeSlot_eq_none_iff : q.freeSlot = none ↔ q.bag.contents.card = maxTasks := by
  have hfree := freeSlot_isSome_iff (q := q)
  rw [Option.isSome_iff_ne_none] at hfree
  rw [bag, card_slotContents_eq_iff.2, ← not_iff_not, ← Ne, hfree]
  push Not
  apply exists_congr
  intro i
  apply and_congr_right
  intro _
  rw [Ne, slotEntry_isSome_iff, Bool.not_eq_true]

/-- There is a valid slot exactly while the bag is not empty. -/
theorem validSlot_eq_none_iff : q.validSlot = none ↔ q.bag.contents = 0 := by
  rw [bag, slotContents_eq_zero_iff]
  constructor
  · intro hnone i hi
    exact slotEntry_eq_none_iff.mpr (scan_eq_none hnone i (Nat.zero_le _) (by omega))
  · intro hall
    cases hslot : q.validSlot with
    | none => rfl
    | some i =>
      obtain ⟨hlt, hvalid, -⟩ := validSlot_spec hslot
      rw [slotEntry_eq_none_iff.mp (hall i hlt)] at hvalid
      cases hvalid

/-- A call is at most one step of the bag. -/
theorem call_bag {a : QueueCall} (hs : globalQueue.step q a = some q') :
    Relation.ReflTransGen (Bag.Step maxTasks) q.bag q'.bag := by
  cases a with
  | addTask fd data =>
    simp only [globalQueue, globalQueueAddTask, Option.some.injEq] at hs
    subst hs
    split
    · next i hi =>
      obtain ⟨hlt, hfree⟩ := freeSlot_spec hi
      have hroom : q.bag.contents.card < maxTasks := by
        refine lt_of_le_of_ne card_slotContents_eq_iff.1 fun hfull => ?_
        rw [freeSlot_eq_none_iff.mpr hfull] at hi
        cases hi
      have hslots : (q.store i fd data).slotEntry =
          Function.update q.slotEntry i
            (some ((fd, strncpy data (maxDataSize - 1)), q.stored.length)) := by
        funext j
        by_cases hj : j = i
        · subst hj
          simp [slotEntry, entry]
        · simp [slotEntry, hj]
      have hput : (q.store i fd data).bag =
          ⟨((fd, strncpy data (maxDataSize - 1)), q.stored.length) ::ₘ q.bag.contents,
            ((fd, strncpy data (maxDataSize - 1)), q.stored.length) ::ₘ q.bag.put,
            q.bag.taken⟩ := by
        unfold bag
        rw [hslots, slotContents_fill hlt (slotEntry_eq_none_iff.mpr hfree), store_stored,
          store_handed, List.zipIdx_append, List.zipIdx_singleton, coe_snoc, Nat.zero_add]
      rw [hput]
      exact .single (.put q.bag _ hroom)
    · exact .refl
  | getTask =>
    simp only [globalQueue, globalQueueGetTask, Option.some.injEq] at hs
    subst hs
    split
    · next i hi =>
      obtain ⟨hlt, hvalid, -⟩ := validSlot_spec hi
      have hslots : (q.handOut i).slotEntry = Function.update q.slotEntry i none := by
        funext j
        by_cases hj : j = i
        · subst hj
          simp [slotEntry]
        · simp [slotEntry, hj]
      have hused : q.slotEntry i = some (entry (q.tasks i)) := if_pos hvalid
      have htake : (q.handOut i).bag =
          ⟨slotContents maxTasks (Function.update q.slotEntry i none), q.bag.put,
            entry (q.tasks i) ::ₘ q.bag.taken⟩ := by
        unfold bag
        rw [hslots, handOut_stored, handOut_handed, List.map_append, List.map_singleton, coe_snoc]
      rw [htake]
      exact .single (.take q.bag _ _ (slotContents_clear hlt hused))
    · exact .refl

/-- The bag is in order in every run. -/
theorem reachable_bag (h : globalQueue.Reachable q) : q.bag.Inv maxTasks := by
  refine Bag.inv_empty.steps (h.simulation (f := bag) ?_ fun q a q' _ _ hs => call_bag hs)
  rintro _ rfl
  have hnone : slotContents maxTasks globalQueueInit.slotEntry = 0 :=
    slotContents_eq_zero_iff.mpr fun i _ => rfl
  rw [bag, hnone]
  rfl

end GlobalQueue

namespace TaskSlot

/-- A task with its number. -/
def entry (task : TaskSlot) : NumberedTask :=
  ((task.fd, task.data.text), task.stamp)

/-- A task with its string. -/
def view (task : TaskSlot) : GlobalTask where
  fd := task.fd
  data := task.data.text
  valid := task.valid
  stamp := task.stamp

end TaskSlot

namespace TaskTable

variable {q q' : TaskTable}

/-- The tasks accepted, with their strings cut to the size of the array. -/
def acceptedTasks (q : TaskTable) : List (ℤ × List UInt8) :=
  q.accepted.map fun e => (e.1, strncpy e.2 (maxDataSize - 1))

/-- The tasks in the valid slots. -/
def outstanding (q : TaskTable) : Multiset NumberedTask :=
  slotContents maxTasks fun i => if (q.tasks i).valid then some (q.tasks i).entry else none

/-- The accepted tasks with their numbers. -/
def acceptedBag (q : TaskTable) : Multiset NumberedTask :=
  q.acceptedTasks.zipIdx

/-- The tasks handed out. -/
def handedOut (q : TaskTable) : Multiset NumberedTask :=
  q.handed.map TaskSlot.entry

/-- The table with the strings of its slots. -/
def view (q : TaskTable) : GlobalQueue where
  tasks := fun i => (q.tasks i).view
  stored := q.acceptedTasks
  handed := q.handed.map TaskSlot.view

/-! ### Read through the strings -/

theorem view_init (data : ℕ → CharArray) :
    (globalQueueInit data).view = GlobalQueue.globalQueueInit := by
  simp [view, globalQueueInit, GlobalQueue.globalQueueInit, TaskSlot.view,
    CharArray.text_setChar_zero, acceptedTasks]

theorem view_store (q : TaskTable) (i : ℕ) (fd : ℤ) (data : List UInt8) :
    (q.store i fd data).view = q.view.store i fd data := by
  simp only [view, GlobalQueue.store, acceptedTasks, store_accepted, store_handed, List.map_append,
    List.map_singleton, List.length_map]
  congr 1
  funext j
  by_cases hj : j = i
  · subst hj
    simp only [store_tasks, Function.update_self, TaskSlot.view, (CharArray.copy_spec _ data).1]
  · simp only [store_tasks, Function.update_of_ne hj]

theorem view_handOut (q : TaskTable) (i : ℕ) : (q.handOut i).view = q.view.handOut i := by
  simp only [view, GlobalQueue.handOut, acceptedTasks, handOut_accepted, handOut_handed,
    List.map_append, List.map_singleton]
  congr 1
  funext j
  by_cases hj : j = i
  · subst hj
    simp only [handOut_tasks, Function.update_self, TaskSlot.view]
  · simp only [handOut_tasks, Function.update_of_ne hj]

/-- `global_queue_add_task` is that of the strings. -/
theorem view_addTask (q : TaskTable) (fd : ℤ) (data : List UInt8) :
    q.view.globalQueueAddTask fd data = ((q.globalQueueAddTask fd data).1.view,
      (q.globalQueueAddTask fd data).2) := by
  have hslot : q.view.freeSlot = q.freeSlot := rfl
  unfold globalQueueAddTask GlobalQueue.globalQueueAddTask
  rw [hslot]
  cases q.freeSlot with
  | none => rfl
  | some i => rw [view_store]

/-- `global_queue_get_task` is that of the strings. -/
theorem view_getTask (q : TaskTable) :
    q.view.globalQueueGetTask =
      (q.globalQueueGetTask.1.view, q.globalQueueGetTask.2.2.map TaskSlot.view) := by
  have hslot : q.view.validSlot = q.validSlot := rfl
  unfold globalQueueGetTask GlobalQueue.globalQueueGetTask
  rw [hslot]
  cases q.validSlot with
  | none => rfl
  | some i =>
    simp only [view_handOut]
    rfl

/-- Every run is a run of the strings. -/
theorem reachable_view (h : taskTable.Reachable q) : globalQueue.Reachable q.view := by
  refine h.invariant (I := fun q => globalQueue.Reachable q.view) ?_ ?_
  · rintro _ ⟨data, rfl⟩
    exact .init (view_init data)
  · rintro q a q' - hi hs
    cases a with
    | addTask fd data =>
      cases hs
      exact hi.next (a := .addTask fd data) (by simp only [globalQueue, view_addTask])
    | getTask =>
      cases hs
      exact hi.next (a := .getTask) (by simp only [globalQueue, view_getTask])

/-! ### What a call does -/

/-- The effect of a call: a task is stored in a free slot, the first valid one is handed out, or
nothing. -/
inductive Effect (q : TaskTable) : QueueCall → TaskTable → Prop
  | store (i : ℕ) (fd : ℤ) (data : List UInt8) (hi : i < maxTasks)
      (hfree : (q.tasks i).valid = false) :
      Effect q (.addTask fd data) (q.store i fd data)
  | handOut (i : ℕ) (hi : i < maxTasks) (hvalid : (q.tasks i).valid = true) :
      Effect q .getTask (q.handOut i)
  | refused (a : QueueCall) : Effect q a q

/-- Every call has one of these effects. -/
theorem step_effect {a : QueueCall} (hs : taskTable.step q a = some q') : Effect q a q' := by
  cases a with
  | addTask fd data =>
    simp only [taskTable, globalQueueAddTask, Option.some.injEq] at hs
    subst hs
    split
    · next i hi =>
      obtain ⟨hlt, hfree⟩ := GlobalQueue.freeSlot_spec (q := q.view) hi
      exact .store i fd data hlt hfree
    · exact .refused _
  | getTask =>
    simp only [taskTable, globalQueueGetTask, Option.some.injEq] at hs
    subst hs
    split
    · next i hi =>
      obtain ⟨hlt, hvalid, -⟩ := GlobalQueue.validSlot_spec (q := q.view) hi
      exact .handOut i hlt hvalid
    · exact .refused _

/-- The strings of all tasks are terminated. -/
structure Terminated (q : TaskTable) : Prop where
  tasks : ∀ i, (q.tasks i).valid = true → (q.tasks i).data.Terminated
  handed : ∀ task ∈ q.handed, task.data.Terminated

theorem Effect.terminated {a : QueueCall} (h : Effect q a q') (hi : q.Terminated) :
    q'.Terminated := by
  cases h with
  | store i fd data =>
    refine ⟨fun j hv => ?_, hi.handed⟩
    by_cases hj : j = i
    · subst hj
      rw [store_tasks, Function.update_self]
      exact (CharArray.copy_spec _ data).2
    · rw [store_tasks, Function.update_of_ne hj] at hv ⊢
      exact hi.tasks j hv
  | handOut i _ hvalid =>
    constructor
    · intro j hv
      by_cases hj : j = i
      · subst hj
        rw [handOut_tasks, Function.update_self] at hv
        cases hv
      · rw [handOut_tasks, Function.update_of_ne hj] at hv ⊢
        exact hi.tasks j hv
    · intro task ht
      rcases List.mem_append.mp ht with ht | ht
      · exact hi.handed task ht
      · rw [List.mem_singleton.mp ht]
        exact hi.tasks i hvalid
  | refused => exact hi

theorem reachable_terminated (h : taskTable.Reachable q) : q.Terminated := by
  refine h.invariant ?_ fun q a q' _ hi hs => (step_effect hs).terminated hi
  rintro _ ⟨data, rfl⟩
  exact ⟨by rintro _ ⟨⟩, by rintro _ ⟨⟩⟩

/-- A task stays in its slot, as it is, until it is handed out. -/
theorem Effect.kept {a : QueueCall} (h : Effect q a q') {i : ℕ} (hi : (q.tasks i).valid = true) :
    q'.tasks i = q.tasks i ∨ (a = .getTask ∧ q'.handed = q.handed ++ [q.tasks i]) := by
  cases h with
  | store j fd data _ hfree =>
    left
    refine Function.update_of_ne ?_ ..
    rintro rfl
    rw [hfree] at hi
    cases hi
  | handOut j =>
    by_cases hj : i = j
    · subst hj
      exact .inr ⟨rfl, rfl⟩
    · exact .inl (Function.update_of_ne hj ..)
  | refused => exact .inl rfl

/-- The numbers of the accepted tasks are their places. -/
theorem mem_acceptedBag {e : NumberedTask} (h : e ∈ q.acceptedBag) :
    ∃ data, q.accepted[e.2]? = some (e.1.1, data) ∧ e.1.2 = strncpy data (maxDataSize - 1) := by
  obtain ⟨⟨fd, text⟩, k⟩ := e
  have hplace : q.acceptedTasks[k]? = some (fd, text) := by
    have hmem := List.mem_zipIdx_iff_getElem?.mp (Multiset.mem_coe.mp h)
    exact hmem
  rw [acceptedTasks, List.getElem?_map, Option.map_eq_some_iff] at hplace
  obtain ⟨⟨fd', data⟩, haccepted, heq⟩ := hplace
  obtain ⟨rfl, rfl⟩ := Prod.mk.inj heq
  exact ⟨data, haccepted, rfl⟩

/-- When the tasks handed out are among the accepted ones, none was handed out twice. -/
theorem nodup_stamps {rest : Multiset NumberedTask}
    (h : q.acceptedBag = rest + q.handedOut) : (q.handed.map TaskSlot.stamp).Nodup := by
  have hle : q.handedOut ≤ q.acceptedBag := by
    rw [h]
    exact Multiset.le_add_left ..
  have hnumbers : (q.acceptedTasks.zipIdx.map Prod.snd).Nodup := by
    rw [List.zipIdx_map_snd]
    exact List.nodup_range'
  have hstamps := Multiset.nodup_of_le (Multiset.map_le_map (f := Prod.snd) hle) hnumbers
  rwa [handedOut, Multiset.map_coe, Multiset.coe_nodup, List.map_map] at hstamps

/-! ### What the calls return -/

/-- A task was accepted: its descriptor and its string are in a slot that was free. -/
structure Added (q q' : TaskTable) (fd : ℤ) (data : List UInt8) : Prop where
  accepted : q'.accepted = q.accepted ++ [(fd, data)]
  handed : q'.handed = q.handed
  slot : ∃ i < maxTasks, (q.tasks i).valid = false ∧ (q'.tasks i).valid = true ∧
    (q'.tasks i).fd = fd ∧ (q'.tasks i).data.text = strncpy data (maxDataSize - 1) ∧
    (q'.tasks i).data.Terminated ∧ ∀ j, j ≠ i → q'.tasks j = q.tasks j

/-- The task of a valid slot was handed out, as it is in the slot. -/
structure Taken (q q' : TaskTable) (task : TaskSlot) : Prop where
  accepted : q'.accepted = q.accepted
  handed : q'.handed = q.handed ++ [task]
  slot : ∃ i < maxTasks, (q.tasks i).valid = true ∧ task = q.tasks i ∧ (q'.tasks i).valid = false ∧
    ∀ j, j ≠ i → q'.tasks j = q.tasks j

/-- `global_queue_add_task` accepts its task and returns 0, or changes nothing and returns -1. -/
theorem addTask_result (q : TaskTable) (fd : ℤ) (data : List UInt8) :
    (q.globalQueueAddTask fd data).2 = 0 ∧ q.Added (q.globalQueueAddTask fd data).1 fd data ∨
      (q.globalQueueAddTask fd data).2 = -1 ∧ (q.globalQueueAddTask fd data).1 = q := by
  unfold globalQueueAddTask
  split
  · next i hi =>
    obtain ⟨hlt, hfree⟩ := GlobalQueue.freeSlot_spec (q := q.view) hi
    obtain ⟨htext, hterminated⟩ := CharArray.copy_spec (q.tasks i).data data
    refine .inl ⟨rfl, rfl, rfl, i, hlt, hfree, ?_, ?_, ?_, ?_,
      fun j hj => Function.update_of_ne hj ..⟩
    · rw [store_tasks, Function.update_self]
    · rw [store_tasks, Function.update_self]
    · rw [store_tasks, Function.update_self]
      exact htext
    · rw [store_tasks, Function.update_self]
      exact hterminated
  · exact .inr ⟨rfl, rfl⟩

/-- `global_queue_get_task` hands out the task of a valid slot and returns 0, or changes nothing and
returns -1. -/
theorem getTask_result (q : TaskTable) :
    (∃ task, q.globalQueueGetTask.2 = (0, some task) ∧ q.Taken q.globalQueueGetTask.1 task) ∨
      q.globalQueueGetTask.2 = (-1, none) ∧ q.globalQueueGetTask.1 = q := by
  unfold globalQueueGetTask
  split
  · next i hi =>
    obtain ⟨hlt, hvalid, -⟩ := GlobalQueue.validSlot_spec (q := q.view) hi
    refine .inl ⟨q.tasks i, rfl, rfl, rfl, i, hlt, hvalid, rfl, ?_,
      fun j hj => Function.update_of_ne hj ..⟩
    rw [handOut_tasks, Function.update_self]
  · exact .inr ⟨rfl, rfl⟩

end TaskTable

/-- In every run: the accepted tasks, each with its number, are those in the valid slots and those
handed out, of which none was handed out twice and each is what was accepted under its number, its
string cut to `MAX_DATA_SIZE - 1` characters and terminated.  `global_queue_add_task` returns 0 when
it has put its task into a free slot, where it counts as accepted; `global_queue_get_task` returns 0
with the task of a valid slot, which counts as handed out from then on.  A task stays in its slot as
it is until it is handed out.  The calls return `-1` exactly when `MAX_TASKS` tasks, respectively
none, are in the table, and nothing changes then. -/
theorem taskTable_bag {q : TaskTable} (h : taskTable.Reachable q) :
    q.acceptedBag = q.outstanding + q.handedOut ∧
      (q.handed.map TaskSlot.stamp).Nodup ∧
      (∀ task ∈ q.handed, ∃ data, q.accepted[task.stamp]? = some (task.fd, data) ∧
        task.data.text = strncpy data (maxDataSize - 1)) ∧
      (∀ i, (q.tasks i).valid = true → (q.tasks i).data.Terminated) ∧
      (∀ task ∈ q.handed, task.data.Terminated) ∧
      (∀ a q', taskTable.step q a = some q' → ∀ i, (q.tasks i).valid = true →
        q'.tasks i = q.tasks i ∨ (a = .getTask ∧ q'.handed = q.handed ++ [q.tasks i])) ∧
      (∀ fd data, ((q.globalQueueAddTask fd data).2 = 0 ∧
          q.Added (q.globalQueueAddTask fd data).1 fd data ∨
        (q.globalQueueAddTask fd data).2 = -1 ∧ (q.globalQueueAddTask fd data).1 = q) ∧
        ((q.globalQueueAddTask fd data).2 = -1 ↔ q.outstanding.card = maxTasks)) ∧
      ((∃ task, q.globalQueueGetTask.2 = (0, some task) ∧ q.Taken q.globalQueueGetTask.1 task) ∨
        q.globalQueueGetTask.2 = (-1, none) ∧ q.globalQueueGetTask.1 = q) ∧
      (q.globalQueueGetTask.2.1 = -1 ↔ q.outstanding = 0) := by
  have hbag := GlobalQueue.reachable_bag (TaskTable.reachable_view h)
  have hput : q.acceptedBag = q.outstanding + q.handedOut := by
    refine hbag.put_eq.trans ?_
    have htaken : (q.view.handed.map GlobalQueue.entry) = q.handed.map TaskSlot.entry :=
      List.map_map ..
    rw [GlobalQueue.bag, htaken]
    rfl
  have hterm := TaskTable.reachable_terminated h
  have hfull : q.freeSlot = none ↔ q.outstanding.card = maxTasks :=
    GlobalQueue.freeSlot_eq_none_iff (q := q.view)
  have hempty : q.validSlot = none ↔ q.outstanding = 0 :=
    GlobalQueue.validSlot_eq_none_iff (q := q.view)
  refine ⟨hput, TaskTable.nodup_stamps hput, fun task ht => ?_, hterm.tasks, hterm.handed,
    fun a q' hs i hi => (TaskTable.step_effect hs).kept hi,
    fun fd data => ⟨q.addTask_result fd data, ?_⟩, q.getTask_result, ?_⟩
  · have hmem : task.entry ∈ q.acceptedBag := by
      rw [hput]
      exact Multiset.mem_add.mpr (.inr (Multiset.mem_coe.mpr (List.mem_map_of_mem ht)))
    exact TaskTable.mem_acceptedBag hmem
  · rw [← hfull]
    unfold TaskTable.globalQueueAddTask
    cases q.freeSlot with
    | none => exact iff_of_true rfl rfl
    | some i => exact iff_of_false (by rintro ⟨⟩) (by rintro ⟨⟩)
  · rw [← hempty]
    unfold TaskTable.globalQueueGetTask
    cases q.validSlot with
    | none => exact iff_of_true rfl rfl
    | some i => exact iff_of_false (by rintro ⟨⟩) (by rintro ⟨⟩)

/-- A string with a NUL inside, in a slot that was used before: the next call hands it out, cut at
the NUL, and the slot can be used again. -/
theorem taskTable_bag_reused :
    ∃ q : TaskTable, q.accepted = [(5, [65]), (6, [66, 0, 67])] ∧
      q.handed.map (fun task => (task.fd, task.data.text)) = [(5, [65])] ∧
      q.acceptedBag = q.outstanding + q.handedOut ∧
      (q.globalQueueAddTask 7 [68]).2 = 0 ∧ q.Added (q.globalQueueAddTask 7 [68]).1 7 [68] ∧
      ∃ task, q.globalQueueGetTask.2 = (0, some task) ∧ q.Taken q.globalQueueGetTask.1 task ∧
        task.fd = 6 ∧ task.data.text = [66] := by
  obtain ⟨q, hq, hp⟩ := taskTable.exists_of_exec
    (s := .globalQueueInit fun _ => ⟨List.replicate maxDataSize 90, List.length_replicate ..⟩)
    [.addTask 5 [65], .getTask, .addTask 6 [66, 0, 67]]
    (fun q => decide (q.accepted = [(5, [65]), (6, [66, 0, 67])] ∧
      q.handed.map (fun task => (task.fd, task.data.text)) = [(5, [65])] ∧
      (q.globalQueueAddTask 7 [68]).2 = 0 ∧ q.globalQueueGetTask.2.1 = 0 ∧
      q.globalQueueGetTask.2.2.map (fun task => (task.fd, task.data.text)) = some (6, [66])))
    ⟨_, rfl⟩ (by decide +kernel)
  obtain ⟨haccepted, hhanded, hzero, hget, htext⟩ := of_decide_eq_true hp
  obtain ⟨hput, -, -, -, -, -, hadd, htake, -⟩ := taskTable_bag hq
  obtain ⟨-, hadded⟩ := (hadd 7 [68]).1.resolve_right fun hno => by
    rw [hzero] at hno
    exact absurd hno.1 (by decide)
  rcases htake with ⟨task, hres, htaken⟩ | ⟨hres, -⟩
  · rw [hres, Option.map_some, Option.some.injEq] at htext
    obtain ⟨hfd, hstring⟩ := Prod.mk.inj htext
    exact ⟨q, haccepted, hhanded, hput, hzero, hadded, task, hres, htaken, hfd, hstring⟩
  · rw [hres] at hget
    cases hget

end DeepInIo.ReactorServer
