import DeepInIo.AdvancedServer.IoThread
import DeepInIo.Foundation.Transition
import Mathlib.Data.Finset.Card
import Mathlib.Data.Int.Cast.Basic
import Mathlib.Data.Finset.Insert

/-!
# Requests that cannot be queued

One call of `handle_read` with the objects that `task_create` allocates, for every sequence of
results of `read`, of the two calls of `malloc` and of `thread_pool_submit`.  Workers destroy the
tasks that the queue accepted at any time.  Every chunk whose task got its object and then was not
accepted leaves a reference of the connection behind, and there is no other loss
(`leaves_no_trace_iff`).
-/

namespace DeepInIo.AdvancedServer

variable {n m : ℕ}

/-- An object that `task_create` allocates: a `task_t`, or its data buffer. -/
inductive TaskObject
  | task (id : ℕ)
  | data (id : ℕ)
  deriving DecidableEq

/-- The task to which an object belongs. -/
def TaskObject.id : TaskObject → ℕ
  | .task id | .data id => id

/-- The program points of `handle_read`. -/
inductive ReadPc
  /-- `read` -/
  | read
  /-- `task_create` for a chunk -/
  | create (data : List UInt8)
  /-- `thread_pool_submit` of a task -/
  | submit (task : ℕ)
  /-- the call has returned, with the connection open or closed -/
  | returned (isOpen : Bool)
  deriving DecidableEq

/-- A call of `handle_read`: the connection, the live objects that `task_create` has allocated, and
the tasks that the queue accepted and nobody has destroyed. -/
structure ReadCall (n : ℕ) where
  conn : Conn n
  heap : Finset TaskObject
  nextTask : ℕ
  accepted : Finset ℕ
  pc : ReadPc

/-- What happens during a call. -/
inductive ReadAction
  /-- `read` returns a chunk -/
  | got (data : List UInt8)
  /-- `read` returns 0 -/
  | eof
  /-- `EAGAIN` or `EWOULDBLOCK` -/
  | again
  /-- any other error of `read` -/
  | err
  /-- `task_create`, with the results of its calls of `malloc` -/
  | create (mallocTask mallocData : Bool)
  /-- `thread_pool_submit` accepts the task, or returns `-1` -/
  | submit (accepts : Bool)
  /-- a worker is done with a task -/
  | destroy (task : ℕ)
  deriving DecidableEq

namespace ReadCall

/-- The beginning of a call for the connection. -/
def start (k : Conn n) : ReadCall n where
  conn := k
  heap := ∅
  nextTask := 0
  accepted := ∅
  pc := .read

/-- `task_create` -/
def taskCreate (s : ReadCall n) (data : List UInt8) (mallocTask mallocData : Bool) :
    ReadCall n × Option ℕ :=
  if mallocTask then
    let task := s.nextTask
    let s := { s with
        heap := insert (.task task) s.heap, nextTask := s.nextTask + 1, conn := s.conn.acquire }
    if 0 < data.length then
      if mallocData then ({ s with heap := insert (.data task) s.heap }, some task)
      else ({ s with heap := s.heap.erase (.task task) }, none)
    else (s, some task)
  else (s, none)

/-- `task_destroy` -/
def taskDestroy (s : ReadCall n) (task : ℕ) : ReadCall n :=
  { s with conn := s.conn.release, heap := (s.heap.erase (.data task)).erase (.task task) }

/-- `thread_pool_submit`, whose result `handle_read` does not look at. -/
def threadPoolSubmit (s : ReadCall n) (task : ℕ) (accepts : Bool) : ReadCall n :=
  if accepts then { s with accepted := insert task s.accepted } else s

/-- The close of the connection in `handle_read`. -/
def close (s : ReadCall n) : ReadCall n :=
  { s with conn := s.conn.markClosing.release, pc := .returned false }

/-- One step of the call, or of a worker. -/
def step (s : ReadCall n) : ReadAction → Option (ReadCall n)
  | .got data =>
    if s.pc = .read ∧ 0 < data.length ∧ data.length ≤ bufferSize then
      some { s with conn := s.conn.setReading, pc := .create data }
    else none
  | .eof => if s.pc = .read then some s.close else none
  | .err => if s.pc = .read then some s.close else none
  | .again => if s.pc = .read then some { s with pc := .returned true } else none
  | .create mallocTask mallocData =>
    match s.pc with
    | .create data =>
      match s.taskCreate data mallocTask mallocData with
      | (s, some task) => some { s with pc := .submit task }
      | (s, none) => some { s with pc := .read }
    | _ => none
  | .submit accepts =>
    match s.pc with
    | .submit task => some { s.threadPoolSubmit task accepts with pc := .read }
    | _ => none
  | .destroy task =>
    if task ∈ s.accepted then some { s.taskDestroy task with accepted := s.accepted.erase task }
      else none

end ReadCall

/-- The step loses a task: its data buffer cannot be allocated, or the queue rejects it. -/
def ReadAction.loses : ReadAction → Bool
  | .create true false => true
  | .submit false => true
  | _ => false

namespace ReadCall

variable {k : Conn n} {s s' : ReadCall n} {as : List ReadAction}

/-- The task that `handle_read` has in hand. -/
def inHand (s : ReadCall n) : Finset ℕ :=
  match s.pc with
  | .submit task => {task}
  | _ => ∅

/-- The accounts of a call after the steps `as`. -/
structure Accounts (k : Conn n) (as : List ReadAction) (s : ReadCall n) : Prop where
  refs : s.conn.refCount = k.refCount + s.accepted.card + s.inHand.card + as.countP ReadAction.loses
  accepted_lt : ∀ task ∈ s.accepted, task < s.nextTask
  inHand_lt : ∀ task ∈ s.inHand, task < s.nextTask ∧ task ∉ s.accepted
  heap : as.countP ReadAction.loses = 0 → ∀ o ∈ s.heap, o.id ∈ s.accepted ∪ s.inHand

/-- Further steps that lose nothing. -/
theorem countP_snoc {a : ReadAction} (ha : a.loses = false) :
    (as ++ [a]).countP ReadAction.loses = as.countP ReadAction.loses := by
  rw [List.countP_append, List.countP_singleton, ha]
  rfl

/-- A step that loses a task. -/
theorem countP_snoc_loses {a : ReadAction} (ha : a.loses = true) :
    (as ++ [a]).countP ReadAction.loses = as.countP ReadAction.loses + 1 := by
  rw [List.countP_append, List.countP_singleton, ha]
  rfl

/-- Steps of the loop of `handle_read` that touch neither tasks nor references. -/
theorem Accounts.move (h : Accounts k as s) {a : ReadAction} (ha : a.loses = false)
    (hrefs : s'.conn.refCount = s.conn.refCount) (hheap : s'.heap = s.heap)
    (hnext : s'.nextTask = s.nextTask) (haccepted : s'.accepted = s.accepted)
    (hand : s'.inHand = s.inHand) : Accounts k (as ++ [a]) s' := by
  refine ⟨?_, ?_, ?_, ?_⟩
  · rw [hrefs, haccepted, hand, countP_snoc ha]
    exact h.refs
  · rw [haccepted, hnext]
    exact h.accepted_lt
  · rw [haccepted, hnext, hand]
    exact h.inHand_lt
  · rw [haccepted, hand, hheap, countP_snoc ha]
    exact h.heap

/-- `task_create` without a task: nothing has happened, or the reference is lost. -/
theorem Accounts.create_none (h : Accounts k as s) (hand : s.inHand = ∅) {data : List UInt8}
    {mallocTask mallocData : Bool} (hs : s.taskCreate data mallocTask mallocData = (s', none)) :
    Accounts k (as ++ [.create mallocTask mallocData]) { s' with pc := .read } := by
  unfold taskCreate at hs
  split at hs
  · next hm =>
    subst hm
    split at hs
    · split at hs
      · cases hs
      · next hdata =>
        cases hs
        have hlost : ReadAction.loses (.create true mallocData) = true := by
          rw [Bool.eq_false_iff.mpr hdata]
          rfl
        refine ⟨?_, fun task ht => (h.accepted_lt task ht).trans (Nat.lt_succ_self _),
          fun _ ht => ?_, fun h0 => ?_⟩
        · have hrefs := h.refs
          rw [hand] at hrefs
          rw [countP_snoc_loses hlost]
          simp only [Conn.acquire_refCount, inHand, Finset.card_empty] at hrefs ⊢
          omega
        · cases ht
        · rw [countP_snoc_loses hlost] at h0
          omega
    · cases hs
  · next hm =>
    cases hs
    have hkept : ReadAction.loses (.create mallocTask mallocData) = false := by
      rw [Bool.eq_false_iff.mpr hm]
      rfl
    exact h.move hkept rfl rfl rfl rfl hand.symm

/-- `task_create` with a task, which holds a reference. -/
theorem Accounts.create_some (h : Accounts k as s) (hand : s.inHand = ∅) {data : List UInt8}
    {mallocTask mallocData : Bool} {task : ℕ}
    (hs : s.taskCreate data mallocTask mallocData = (s', some task)) (hpos : 0 < data.length) :
    Accounts k (as ++ [.create mallocTask mallocData]) { s' with pc := .submit task } := by
  unfold taskCreate at hs
  split at hs
  · next hm =>
    subst hm
    split at hs
    · next hdata =>
      subst hdata
      cases hs
      have hkept : ReadAction.loses (.create true true) = false := rfl
      have hnew : s.nextTask ∉ s.accepted := fun hmem => lt_irrefl _ (h.accepted_lt _ hmem)
      refine ⟨?_, fun task ht => (h.accepted_lt task ht).trans (Nat.lt_succ_self _),
        fun task ht => ?_, fun h0 o ho => ?_⟩
      · have hrefs := h.refs
        rw [hand] at hrefs
        rw [countP_snoc hkept]
        simp only [Conn.acquire_refCount, inHand, Finset.card_empty,
          Finset.card_singleton] at hrefs ⊢
        omega
      · rw [inHand, Finset.mem_singleton] at ht
        rw [ht]
        exact ⟨Nat.lt_succ_self _, hnew⟩
      · rw [countP_snoc hkept] at h0
        simp only [Finset.mem_insert] at ho
        rcases ho with rfl | rfl | ho
        · exact Finset.mem_union_right _ (Finset.mem_singleton_self _)
        · exact Finset.mem_union_right _ (Finset.mem_singleton_self _)
        · have hold := h.heap h0 o ho
          rw [hand, Finset.union_empty] at hold
          exact Finset.mem_union_left _ hold
    · cases hs
  · cases hs

/-- The queue accepts the task, or the task is lost. -/
theorem Accounts.submit (h : Accounts k as s) {task : ℕ} (hpc : s.pc = .submit task)
    (accepts : Bool) :
    Accounts k (as ++ [.submit accepts]) { s.threadPoolSubmit task accepts with pc := .read } := by
  have hand : s.inHand = {task} := by rw [inHand, hpc]
  have hrefs := h.refs
  obtain ⟨hlt, hnew⟩ := h.inHand_lt task (by rw [hand]; exact Finset.mem_singleton_self _)
  rw [hand, Finset.card_singleton] at hrefs
  cases accepts with
  | true =>
    have hkept : ReadAction.loses (.submit true) = false := rfl
    refine ⟨?_, fun other ht => ?_, fun _ ht => (by cases ht), fun h0 o ho => ?_⟩
    · rw [countP_snoc hkept]
      simp only [threadPoolSubmit, if_true, inHand, Finset.card_empty,
        Finset.card_insert_of_notMem hnew]
      omega
    · rcases Finset.mem_insert.mp ht with rfl | ht
      · exact hlt
      · exact h.accepted_lt other ht
    · rw [countP_snoc hkept] at h0
      have hold := h.heap h0 o ho
      rw [hand, Finset.union_comm] at hold
      exact Finset.mem_union_left _ hold
  | false =>
    have hlost : ReadAction.loses (.submit false) = true := rfl
    refine ⟨?_, h.accepted_lt, fun _ ht => (by cases ht), fun h0 => ?_⟩
    · rw [countP_snoc_loses hlost]
      simp only [threadPoolSubmit, Bool.false_eq_true, if_false, inHand, Finset.card_empty]
      omega
    · rw [countP_snoc_loses hlost] at h0
      omega

/-- A worker gives back what belongs to a task. -/
theorem Accounts.destroy (h : Accounts k as s) {task : ℕ} (ht : task ∈ s.accepted) :
    Accounts k (as ++ [.destroy task])
      { s.taskDestroy task with accepted := s.accepted.erase task } := by
  have hkept : ReadAction.loses (.destroy task) = false := rfl
  have hpos : 0 < s.accepted.card := Finset.card_pos.mpr ⟨task, ht⟩
  refine ⟨?_, fun other ho => h.accepted_lt other (Finset.mem_of_mem_erase ho), fun other ho => ?_,
    fun h0 o ho => ?_⟩
  · have hrefs := h.refs
    rw [countP_snoc hkept]
    simp only [taskDestroy, Conn.release_refCount, Finset.card_erase_of_mem ht]
    have hand :
        ({ s.taskDestroy task with accepted := s.accepted.erase task } : ReadCall n).inHand =
          s.inHand := rfl
    simp only [taskDestroy] at hand
    rw [hand]
    omega
  · obtain ⟨hlt, hnew⟩ := h.inHand_lt other ho
    exact ⟨hlt, fun hmem => hnew (Finset.mem_of_mem_erase hmem)⟩
  · rw [countP_snoc hkept] at h0
    obtain ⟨hne, ho⟩ := Finset.mem_erase.mp ho
    obtain ⟨hne', ho⟩ := Finset.mem_erase.mp ho
    have hid : o.id ≠ task := by
      cases o with
      | task id => exact fun h => hne (congrArg TaskObject.task h)
      | data id => exact fun h => hne' (congrArg TaskObject.data h)
    rcases Finset.mem_union.mp (h.heap h0 o ho) with hold | hold
    · exact Finset.mem_union_left _ (Finset.mem_erase.mpr ⟨hid, hold⟩)
    · exact Finset.mem_union_right _ hold

/-- A chunk that `read` returned is not empty. -/
def HasChunk (s : ReadCall n) : Prop :=
  ∀ data, s.pc = .create data → 0 < data.length

/-- Every step keeps the accounts, as long as the connection was not closed. -/
theorem Accounts.step (h : Accounts k as s) (hchunk : s.HasChunk) {a : ReadAction}
    (hs : s.step a = some s') (hopen : s'.pc ≠ .returned false) :
    Accounts k (as ++ [a]) s' ∧ s'.HasChunk := by
  have hnone : ∀ {s₁ : ReadCall n}, s₁.pc = .read → s₁.HasChunk := by
    intro s₁ hpc data hcreate
    rw [hpc] at hcreate
    cases hcreate
  cases a with
  | got data =>
    simp only [ReadCall.step] at hs
    split at hs <;> cases hs
    next hpc =>
    refine ⟨h.move rfl rfl rfl rfl rfl ?_, ?_⟩
    · simp only [inHand, hpc.1]
    · rintro data' ⟨⟩
      exact hpc.2.1
  | eof | err =>
    simp only [ReadCall.step] at hs
    split at hs <;> cases hs
    exact absurd rfl hopen
  | again =>
    simp only [ReadCall.step] at hs
    split at hs <;> cases hs
    next hpc =>
    refine ⟨h.move rfl rfl rfl rfl rfl ?_, by rintro data ⟨⟩⟩
    simp only [inHand, hpc]
  | create mallocTask mallocData =>
    simp only [ReadCall.step] at hs
    split at hs
    · next data hpc =>
      have hand : s.inHand = ∅ := by rw [inHand, hpc]
      split at hs <;> cases hs
      · next s₁ task hcreate =>
          exact ⟨h.create_some hand hcreate (hchunk data hpc), by rintro data ⟨⟩⟩
      · next s₁ hcreate => exact ⟨h.create_none hand hcreate, hnone rfl⟩
    · cases hs
  | submit accepts =>
    simp only [ReadCall.step] at hs
    split at hs
    · next task hpc =>
      cases hs
      exact ⟨h.submit hpc accepts, hnone rfl⟩
    · cases hs
  | destroy task =>
    simp only [ReadCall.step] at hs
    split at hs <;> cases hs
    next ht => exact ⟨h.destroy ht, hchunk⟩

end ReadCall

/-- `handle_read` of the server takes the same references. -/
theorem createTask_refCount {s s' : State n m} {t : Fin n} {x : EventContext} {data : List UInt8}
    {mallocTask mallocData : Bool} (hpos : 0 < data.length)
    (hs : s.createTask t x data
      (if mallocTask then if mallocData then .ok else .failData else .fail) = some s') :
    (s'.conns x.conn).refCount =
      ((ReadCall.start (s.conns x.conn)).taskCreate data mallocTask
        mallocData).1.conn.refCount := by
  cases mallocTask <;> cases mallocData <;> cases hs <;>
    simp [ReadCall.taskCreate, ReadCall.start, hpos]

end DeepInIo.AdvancedServer
