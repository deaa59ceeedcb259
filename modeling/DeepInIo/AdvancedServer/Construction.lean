import DeepInIo.AdvancedServer.Basic
import DeepInIo.Foundation.ResourceLedger

/-!
# What a failed construction leaves

`server_create`, `thread_pool_create`, `io_thread_pool_create` and what they call, for every pattern
of failures.  A ledger keeps the descriptors, the threads and the objects on the heap.
`thread_pool_create` always undoes what it has done.  `io_thread_destroy` never closes the message
pipe of its thread, nor does `io_thread_create` after two of its failures; the failures after which
nothing is left are listed in `IoPoolClean` and `ServerClean` (`construction_clean_iff`).
-/

namespace DeepInIo.AdvancedServer

/-- The operating systems for which there is an event loop. -/
inductive Platform
  | linux
  | apple
  deriving DecidableEq

/-- Who has an event loop: the main thread, or the IO thread with the index `i`. -/
inductive LoopOwner
  | main
  | io (i : ℕ)
  deriving DecidableEq

/-- The parts of an event loop: `event_loop_t`, the backend's structure, its descriptor and its
arrays. -/
inductive LoopPart
  | loop
  | impl
  | fd
  | events
  | changes
  deriving DecidableEq

/-- What is acquired during construction: objects on the heap, descriptors and threads. -/
inductive Resource
  /-- `reactor_server_t` -/
  | server
  | listenFd
  /-- `thread_pool_t` -/
  | workerPool
  | taskQueue
  /-- the array of the workers' `pthread_t` -/
  | workerArray
  /-- a running worker -/
  | worker (i : ℕ)
  /-- `io_thread_pool_t` -/
  | ioPool
  /-- the array of pointers to the IO threads -/
  | ioArray
  /-- `io_thread_t` -/
  | ioThread (i : ℕ)
  | pipe (i : ℕ) (e : PipeEnd)
  | msgPipe (i : ℕ) (e : PipeEnd)
  | loopPart (o : LoopOwner) (p : LoopPart)
  /-- a running IO thread -/
  | thread (i : ℕ)
  deriving DecidableEq

/-- The calls that can fail. -/
inductive Call
  /-- `malloc`, `calloc`, `epoll_create1`, `kqueue` or `pthread_create` -/
  | acquire (r : Resource)
  | openPipe (i : ℕ)
  | openMsgPipe (i : ℕ)
  /-- `event_loop_add` -/
  | add (o : LoopOwner) (fd : Resource)
  deriving DecidableEq

open Ledger

section source

variable (fails : Call → Bool) (os : Platform)

/-! ### Event loops -/

/-- `epoll_create_impl` -/
def epollCreateImpl (o : LoopOwner) (l : Ledger Resource) : Bool × Ledger Resource :=
  if fails (.acquire (.loopPart o .impl)) then (false, l)
  else
    let l := l.opened (.loopPart o .impl)
    if fails (.acquire (.loopPart o .fd)) then (false, l.closed (.loopPart o .impl))
    else
      let l := l.opened (.loopPart o .fd)
      if fails (.acquire (.loopPart o .events)) then
        (false, (l.closed (.loopPart o .fd)).closed (.loopPart o .impl))
      else (true, l.opened (.loopPart o .events))

/-- `kqueue_create_impl` -/
def kqueueCreateImpl (o : LoopOwner) (l : Ledger Resource) : Bool × Ledger Resource :=
  if fails (.acquire (.loopPart o .impl)) then (false, l)
  else
    let l := l.opened (.loopPart o .impl)
    if fails (.acquire (.loopPart o .fd)) then (false, l.closed (.loopPart o .impl))
    else
      let l := l.opened (.loopPart o .fd)
      if fails (.acquire (.loopPart o .events)) then
        (false, (l.closed (.loopPart o .fd)).closed (.loopPart o .impl))
      else
        let l := l.opened (.loopPart o .events)
        if fails (.acquire (.loopPart o .changes)) then
          (false, ((l.closed (.loopPart o .events)).closed (.loopPart o .fd)).closed
            (.loopPart o .impl))
        else (true, l.opened (.loopPart o .changes))

/-- `event_loop_create` -/
def eventLoopCreate (o : LoopOwner) (l : Ledger Resource) : Bool × Ledger Resource :=
  if fails (.acquire (.loopPart o .loop)) then (false, l)
  else
    let l := l.opened (.loopPart o .loop)
    let created :=
      match os with
      | .linux => epollCreateImpl fails o l
      | .apple => kqueueCreateImpl fails o l
    match created with
    | (true, l) => (true, l)
    | (false, l) => (false, l.closed (.loopPart o .loop))

/-- `event_loop_destroy`, with `epoll_destroy_impl` or `kqueue_destroy_impl`. -/
def eventLoopDestroy (o : LoopOwner) (l : Ledger Resource) : Ledger Resource :=
  let l := (l.closed (.loopPart o .fd)).closed (.loopPart o .events)
  let l :=
    match os with
    | .linux => l
    | .apple => l.closed (.loopPart o .changes)
  (l.closed (.loopPart o .impl)).closed (.loopPart o .loop)

/-! ### IO threads -/

/-- Both ends of the hand-off pipe are closed. -/
def closePipe (i : ℕ) (l : Ledger Resource) : Ledger Resource :=
  (l.closed (.pipe i .read)).closed (.pipe i .write)

/-- Both ends of the message pipe are closed. -/
def closeMsgPipe (i : ℕ) (l : Ledger Resource) : Ledger Resource :=
  (l.closed (.msgPipe i .read)).closed (.msgPipe i .write)

/-- `io_thread_create` -/
def ioThreadCreate (i : ℕ) (l : Ledger Resource) : Bool × Ledger Resource :=
  if fails (.acquire (.ioThread i)) then (false, l)
  else
    let l := l.opened (.ioThread i)
    if fails (.openPipe i) then (false, l.closed (.ioThread i))
    else
      let l := (l.opened (.pipe i .read)).opened (.pipe i .write)
      if fails (.openMsgPipe i) then (false, (closePipe i l).closed (.ioThread i))
      else
        let l := (l.opened (.msgPipe i .read)).opened (.msgPipe i .write)
        match eventLoopCreate fails os (.io i) l with
        | (false, l) => (false, (closePipe i l).closed (.ioThread i))
        | (true, l) =>
          if fails (.add (.io i) (.pipe i .read)) then
            (false, (closeMsgPipe i (closePipe i (eventLoopDestroy os (.io i) l))).closed
              (.ioThread i))
          else if fails (.add (.io i) (.msgPipe i .read)) then
            (false, (closeMsgPipe i (closePipe i (eventLoopDestroy os (.io i) l))).closed
              (.ioThread i))
          else if fails (.acquire (.thread i)) then
            (false, (closePipe i (eventLoopDestroy os (.io i) l)).closed (.ioThread i))
          else (true, l.opened (.thread i))

/-- `io_thread_destroy`, whose `pthread_join` ends the thread. -/
def ioThreadDestroy (i : ℕ) (l : Ledger Resource) : Ledger Resource :=
  (closePipe i (eventLoopDestroy os (.io i) (l.closed (.thread i)))).closed (.ioThread i)

/-- `io_thread_pool_create` -/
def ioThreadPoolCreate (count : ℕ) (l : Ledger Resource) : Bool × Ledger Resource :=
  if fails (.acquire .ioPool) then (false, l)
  else
    let l := l.opened .ioPool
    if fails (.acquire .ioArray) then (false, l.closed .ioPool)
    else
      createFrom (ioThreadCreate fails os)
        (fun i l => ((destroyBelow (ioThreadDestroy os) i l).closed .ioArray).closed .ioPool) 0
        count (l.opened .ioArray)

/-- `io_thread_pool_destroy` -/
def ioThreadPoolDestroy (count : ℕ) (l : Ledger Resource) : Ledger Resource :=
  ((destroyBelow (ioThreadDestroy os) count l).closed .ioArray).closed .ioPool

/-! ### Workers -/

/-- The `pthread_create` of a worker. -/
def workerCreate (i : ℕ) (l : Ledger Resource) : Bool × Ledger Resource :=
  if fails (.acquire (.worker i)) then (false, l) else (true, l.opened (.worker i))

/-- The `pthread_join` of a worker. -/
def workerJoin (i : ℕ) (l : Ledger Resource) : Ledger Resource :=
  l.closed (.worker i)

/-- `thread_pool_destroy` of a pool with `count` workers, whose queue is empty. -/
def threadPoolDestroy (count : ℕ) (l : Ledger Resource) : Ledger Resource :=
  (((destroyBelow workerJoin count l).closed .workerArray).closed .taskQueue).closed .workerPool

/-- `thread_pool_create`, which lets `thread_pool_destroy` undo what it has done. -/
def threadPoolCreate (count : ℕ) (l : Ledger Resource) : Bool × Ledger Resource :=
  if fails (.acquire .workerPool) then (false, l)
  else
    let l := l.opened .workerPool
    if fails (.acquire .taskQueue) then (false, l.closed .workerPool)
    else
      let l := l.opened .taskQueue
      if fails (.acquire .workerArray) then (false, (l.closed .taskQueue).closed .workerPool)
      else createFrom (workerCreate fails) threadPoolDestroy 0 count (l.opened .workerArray)

/-! ### The server -/

/-- `server_create`.  `create_listen_socket` ends the process when it fails. -/
def serverCreate (ioThreads workerThreads : ℕ) (l : Ledger Resource) : Bool × Ledger Resource :=
  if fails (.acquire .server) then (false, l)
  else
    let l := (l.opened .server).opened .listenFd
    match threadPoolCreate fails workerThreads l with
    | (false, l) => (false, (l.closed .listenFd).closed .server)
    | (true, l) =>
      match ioThreadPoolCreate fails os ioThreads l with
      | (false, l) => (false, ((threadPoolDestroy workerThreads l).closed .listenFd).closed .server)
      | (true, l) =>
        match eventLoopCreate fails os .main l with
        | (false, l) =>
          (false,
            ((threadPoolDestroy workerThreads (ioThreadPoolDestroy os ioThreads l)).closed
              .listenFd).closed
            .server)
        | (true, l) =>
          if fails (.add .main .listenFd) then
            (false, ((threadPoolDestroy workerThreads (ioThreadPoolDestroy os ioThreads
              (eventLoopDestroy os .main l))).closed .listenFd).closed .server)
          else (true, l)

end source

/-! ### What the parts leave -/

section parts

variable {fails : Call → Bool} {os : Platform}

/-- The calls of `event_loop_create`. -/
def loopCalls (os : Platform) (o : LoopOwner) : List Call :=
  [.acquire (.loopPart o .loop), .acquire (.loopPart o .impl), .acquire (.loopPart o .fd),
    .acquire (.loopPart o .events)] ++
  match os with
  | .linux => []
  | .apple => [.acquire (.loopPart o .changes)]

/-- An event loop. -/
def loopOwn (os : Platform) (o : LoopOwner) : Ledger Resource :=
  one (Resource.loopPart o .loop) + one (Resource.loopPart o .impl) +
    one (Resource.loopPart o .fd) + one (Resource.loopPart o .events) +
  match os with
  | .linux => 0
  | .apple => one (Resource.loopPart o .changes)

/-- `event_loop_create` leaves nothing when it fails. -/
theorem constructs_eventLoopCreate (o : LoopOwner) :
    Constructs fails (loopCalls os o) (loopOwn os o) (fun _ => 0) (eventLoopCreate fails os o) := by
  intro l
  cases hloop : fails (.acquire (.loopPart o .loop)) with
  | true => simp [eventLoopCreate, loopCalls, hloop]
  | false =>
  cases himpl : fails (.acquire (.loopPart o .impl)) with
  | true =>
    cases os <;>
      simp [eventLoopCreate, epollCreateImpl, kqueueCreateImpl, loopCalls, hloop, himpl,
        opened, closed]
  | false =>
  cases hfd : fails (.acquire (.loopPart o .fd)) with
  | true =>
    cases os <;>
      simp [eventLoopCreate, epollCreateImpl, kqueueCreateImpl, loopCalls, hloop, himpl, hfd,
        opened, closed]
  | false =>
  cases hevents : fails (.acquire (.loopPart o .events)) with
  | true =>
    cases os <;>
      simp [eventLoopCreate, epollCreateImpl, kqueueCreateImpl, loopCalls, hloop, himpl, hfd,
        hevents, opened, closed]
  | false =>
    cases os with
    | linux =>
      simp [eventLoopCreate, epollCreateImpl, loopCalls, loopOwn, hloop, himpl, hfd, hevents,
        opened, ← add_assoc]
    | apple =>
      cases hchanges : fails (.acquire (.loopPart o .changes)) with
      | true =>
        simp [eventLoopCreate, kqueueCreateImpl, loopCalls, hloop, himpl, hfd, hevents, hchanges,
          opened, closed]
      | false =>
        simp [eventLoopCreate, kqueueCreateImpl, loopCalls, loopOwn, hloop, himpl, hfd, hevents,
          hchanges, opened, ← add_assoc]

/-- `event_loop_destroy` releases the event loop. -/
theorem eventLoopDestroy_eq (o : LoopOwner) (l : Ledger Resource) :
    eventLoopDestroy os o l = l - loopOwn os o := by
  cases os <;> simp only [eventLoopDestroy, loopOwn, closed] <;> abel

/-- A call of `io_thread_create` after whose failure the message pipe stays open: one of
`event_loop_create`, or `pthread_create`. -/
def Call.losesMsgPipe : Call → Bool
  | .acquire (.loopPart _ _) | .acquire (.thread _) => true
  | _ => false

/-- The message pipe of an IO thread. -/
def msgPipeFds (i : ℕ) : Ledger Resource :=
  one (Resource.msgPipe i .read) + one (Resource.msgPipe i .write)

/-- The calls of `io_thread_create`. -/
def ioThreadCalls (os : Platform) (i : ℕ) : List Call :=
  [.acquire (.ioThread i), .openPipe i, .openMsgPipe i] ++ loopCalls os (.io i) ++
    [.add (.io i) (.pipe i .read), .add (.io i) (.msgPipe i .read), .acquire (.thread i)]

/-- An IO thread. -/
def ioThreadOwn (os : Platform) (i : ℕ) : Ledger Resource :=
  one (Resource.ioThread i) + one (Resource.pipe i .read) + one (Resource.pipe i .write) +
    msgPipeFds i + loopOwn os (.io i) + one (Resource.thread i)

/-- What `io_thread_create` leaves when the call fails. -/
def ioThreadRest (i : ℕ) (c : Call) : Ledger Resource :=
  if c.losesMsgPipe then msgPipeFds i else 0

/-- The calls of an event loop come before its end. -/
theorem losesMsgPipe_of_find? {o : LoopOwner} {c : Call}
    (h : (loopCalls os o).find? fails = some c) :
    c.losesMsgPipe = true := by
  have hmem := List.mem_of_find?_eq_some h
  have hall : ∀ c ∈ loopCalls os o, c.losesMsgPipe = true := by
    cases os <;> simp [loopCalls, Call.losesMsgPipe]
  exact hall c hmem

/-- `io_thread_create` leaves the message pipe open after two of its failures. -/
theorem constructs_ioThreadCreate (i : ℕ) :
    Constructs fails (ioThreadCalls os i) (ioThreadOwn os i) (ioThreadRest i)
      (ioThreadCreate fails os i) := by
  intro l
  cases hobj : fails (.acquire (.ioThread i)) with
  | true => simp [ioThreadCreate, ioThreadCalls, hobj, ioThreadRest, Call.losesMsgPipe]
  | false =>
  cases hpipe : fails (.openPipe i) with
  | true =>
    simp [ioThreadCreate, ioThreadCalls, hobj, hpipe, ioThreadRest, Call.losesMsgPipe,
      opened, closed]
  | false =>
  cases hmsg : fails (.openMsgPipe i) with
  | true =>
    simp [ioThreadCreate, ioThreadCalls, hobj, hpipe, hmsg, ioThreadRest, Call.losesMsgPipe,
      opened, closed, closePipe]
    abel
  | false =>
  have hfind : (ioThreadCalls os i).find? fails = ((loopCalls os (.io i)).find? fails).or
      ([.add (.io i) (.pipe i .read), .add (.io i) (.msgPipe i .read), .acquire (.thread i)].find?
        fails) := by
    simp [ioThreadCalls, hobj, hpipe, hmsg]
  rw [hfind]
  simp only [ioThreadCreate, hobj, hpipe, hmsg, Bool.false_eq_true, if_false]
  rw [constructs_eventLoopCreate]
  cases hloop : (loopCalls os (.io i)).find? fails with
  | some c =>
    simp [ioThreadRest, losesMsgPipe_of_find? hloop, opened, closed, closePipe, msgPipeFds]
    abel
  | none =>
  cases hadd : fails (.add (.io i) (.pipe i .read)) with
  | true =>
    simp [hadd, ioThreadRest, Call.losesMsgPipe, opened, closed, closePipe, closeMsgPipe,
      eventLoopDestroy_eq]
    abel
  | false =>
  cases haddMsg : fails (.add (.io i) (.msgPipe i .read)) with
  | true =>
    simp [hadd, haddMsg, ioThreadRest, Call.losesMsgPipe, opened, closed, closePipe, closeMsgPipe,
      eventLoopDestroy_eq]
    abel
  | false =>
  cases hthread : fails (.acquire (.thread i)) with
  | true =>
    simp [hadd, haddMsg, hthread, ioThreadRest, Call.losesMsgPipe, opened, closed, closePipe,
      eventLoopDestroy_eq, msgPipeFds]
    abel
  | false =>
    simp [hadd, haddMsg, hthread, opened, ioThreadOwn, msgPipeFds]
    abel

/-- `io_thread_destroy` leaves the message pipe open. -/
theorem ioThreadDestroy_eq (i : ℕ) (l : Ledger Resource) :
    ioThreadDestroy os i l = l - ioThreadOwn os i + msgPipeFds i := by
  simp only [ioThreadDestroy, closePipe, closed, eventLoopDestroy_eq, ioThreadOwn]
  abel

/-- How often the reading end of the first message pipe is among those of the first threads. -/
theorem sum_msgPipeFds_apply (j : ℕ) :
    (∑ i ∈ Finset.range j, msgPipeFds i) (.msgPipe 0 .read) = if 0 < j then 1 else 0 := by
  simp [msgPipeFds, Finset.sum_apply, one_apply]

/-- A thread that cannot be constructed leaves nothing if it is the first one and its message pipe
is closed. -/
theorem left_eq_zero_iff (j : ℕ) (c : Call) :
    ∑ i ∈ Finset.range j, msgPipeFds i + ioThreadRest j c = 0 ↔ j = 0 ∧ c.losesMsgPipe = false := by
  constructor
  · intro h
    have hzero := congrFun h (.msgPipe 0 .read)
    rw [Pi.add_apply, sum_msgPipeFds_apply, Pi.zero_apply] at hzero
    rcases Nat.eq_zero_or_pos j with rfl | hj
    · refine ⟨rfl, ?_⟩
      cases hc : c.losesMsgPipe with
      | false => rfl
      | true => simp [ioThreadRest, hc, msgPipeFds, one_apply] at hzero
    · cases hc : c.losesMsgPipe <;>
        simp [ioThreadRest, hc, msgPipeFds, one_apply, hj, Nat.ne_of_lt hj] at hzero
  · rintro ⟨rfl, hc⟩
    simp [ioThreadRest, hc]

/-! ### What the pools leave -/

/-- The pool of IO threads. -/
def ioPoolOwn (os : Platform) (count : ℕ) : Ledger Resource :=
  one Resource.ioPool + one Resource.ioArray + ∑ i ∈ Finset.range count, ioThreadOwn os i

/-- `io_thread_pool_create` leaves the message pipes of the threads it has destroyed. -/
theorem ioThreadPoolCreate_eq (count : ℕ) (l : Ledger Resource) :
    ioThreadPoolCreate fails os count l =
      if fails (.acquire .ioPool) ∨ fails (.acquire .ioArray) then (false, l)
      else match firstFailure fails (ioThreadCalls os) 0 count with
        | none => (true, l + ioPoolOwn os count)
        | some (j, c) => (false, l + (∑ i ∈ Finset.range j, msgPipeFds i + ioThreadRest j c)) := by
  cases hpool : fails (.acquire .ioPool) with
  | true => simp [ioThreadPoolCreate, hpool]
  | false =>
  cases harray : fails (.acquire .ioArray) with
  | true => simp [ioThreadPoolCreate, hpool, harray, opened, closed]
  | false =>
  have hundo : ∀ j l, ((destroyBelow (ioThreadDestroy os) j l).closed .ioArray).closed .ioPool =
      l - ∑ i ∈ Finset.range j, ioThreadOwn os i + ∑ i ∈ Finset.range j, msgPipeFds i -
        (one Resource.ioArray + one Resource.ioPool) := by
    intro j l
    rw [destroyBelow_eq ioThreadDestroy_eq, closed, closed]
    abel
  have hcreate : ∀ j, Constructs fails (ioThreadCalls os j) (ioThreadOwn os j) (ioThreadRest j)
      (ioThreadCreate fails os j) := constructs_ioThreadCreate
  have hloop := createFrom_eq hcreate hundo count 0 ((l.opened .ioPool).opened .ioArray)
  simp only [Finset.range_zero, Finset.sum_empty, add_zero, Nat.zero_add] at hloop
  simp only [ioThreadPoolCreate, hpool, harray, Bool.false_eq_true, if_false, or_self, hloop]
  cases firstFailure fails (ioThreadCalls os) 0 count with
  | none =>
    simp only [opened, ioPoolOwn]
    congr 1
    abel
  | some p =>
    simp only [opened]
    congr 1
    abel

/-- `io_thread_pool_destroy` leaves all message pipes. -/
theorem ioThreadPoolDestroy_eq (count : ℕ) (l : Ledger Resource) :
    ioThreadPoolDestroy os count l = l - ioPoolOwn os count + ∑ i ∈
      Finset.range count, msgPipeFds i := by
  rw [ioThreadPoolDestroy, destroyBelow_eq ioThreadDestroy_eq, closed, closed, ioPoolOwn]
  abel

/-- The calls of `thread_pool_create`. -/
def workerCalls (count : ℕ) : List Call :=
  [.acquire .workerPool, .acquire .taskQueue, .acquire .workerArray] ++
    (List.range count).map fun i => .acquire (.worker i)

/-- The pool of workers. -/
def workerPoolOwn (count : ℕ) : Ledger Resource :=
  one Resource.workerPool + one Resource.taskQueue + one Resource.workerArray +
    ∑ i ∈ Finset.range count, one (Resource.worker i)

/-- `thread_pool_destroy` releases the pool. -/
theorem threadPoolDestroy_eq (count : ℕ) (l : Ledger Resource) :
    threadPoolDestroy count l = l - workerPoolOwn count := by
  have hjoin : ∀ j l, workerJoin j l =
      l - one (.worker j) + (fun _ => 0 : ℕ → Ledger Resource) j := by
    intro j l
    rw [workerJoin, closed, add_zero]
  rw [threadPoolDestroy, destroyBelow_eq hjoin, closed, closed, closed, workerPoolOwn,
    Finset.sum_const_zero]
  abel

/-- `thread_pool_create` leaves nothing. -/
theorem threadPoolCreate_eq (count : ℕ) (l : Ledger Resource) :
    threadPoolCreate fails count l =
      if (workerCalls count).any fails then (false, l) else (true, l + workerPoolOwn count) := by
  cases hpool : fails (.acquire .workerPool) with
  | true => simp [threadPoolCreate, workerCalls, hpool]
  | false =>
  cases hqueue : fails (.acquire .taskQueue) with
  | true => simp [threadPoolCreate, workerCalls, hpool, hqueue, opened, closed]
  | false =>
  cases harray : fails (.acquire .workerArray) with
  | true => simp [threadPoolCreate, workerCalls, hpool, hqueue, harray, opened, closed]
  | false =>
  have hcreate : ∀ j, Constructs fails [.acquire (.worker j)] (one (.worker j)) (fun _ => 0)
      (workerCreate fails j) := by
    intro j l
    cases hj : fails (.acquire (.worker j)) <;> simp [workerCreate, hj, opened]
  have hundo : ∀ j l, threadPoolDestroy j l = l - ∑ i ∈ Finset.range j, one (.worker i) +
      ∑ i ∈ Finset.range j, (0 : Ledger Resource) -
        (one Resource.workerPool + one Resource.taskQueue + one Resource.workerArray) := by
    intro j l
    rw [threadPoolDestroy_eq, workerPoolOwn, Finset.sum_const_zero]
    abel
  have hloop :=
    createFrom_eq hcreate hundo count 0
      (((l.opened .workerPool).opened .taskQueue).opened .workerArray)
  simp only [Finset.range_zero, Finset.sum_empty, add_zero, Nat.zero_add] at hloop
  simp only [threadPoolCreate, hpool, hqueue, harray, Bool.false_eq_true, if_false, hloop]
  have hcalls : (workerCalls count).any fails = true ↔
      ¬firstFailure fails (fun j => [.acquire (.worker j)]) 0 count = none := by
    rw [firstFailure_eq_none]
    simp [workerCalls, hpool, hqueue, harray]
  cases hfail : firstFailure fails (fun j => [.acquire (.worker j)]) 0 count with
  | none =>
    rw [if_neg (fun h => hcalls.mp h hfail)]
    simp only [opened, workerPoolOwn]
    congr 1
    abel
  | some p =>
    rw [if_pos (hcalls.mpr (by rw [hfail]; rintro ⟨⟩))]
    simp only [opened, Finset.sum_const_zero]
    congr 1
    abel

end parts

/-! ### Which failures leave nothing -/

/-- A failure of `io_thread_pool_create` that leaves nothing: of one of its own allocations, or of a
call for the first IO thread that is neither `event_loop_create` nor `pthread_create`. -/
def IoPoolClean (fails : Call → Bool) (os : Platform) (count : ℕ) : Prop :=
  fails (.acquire .ioPool) = true ∨ fails (.acquire .ioArray) = true ∨
    ∃ c, firstFailure fails (ioThreadCalls os) 0 count = some (0, c) ∧ c.losesMsgPipe = false

/-- A failure of `server_create` that leaves nothing: of its own allocation, of a call of
`thread_pool_create`, or one that leaves nothing of `io_thread_pool_create`. -/
def ServerClean (fails : Call → Bool) (os : Platform) (ioThreads workerThreads : ℕ) : Prop :=
  fails (.acquire .server) = true ∨ (∃ c ∈ workerCalls workerThreads, fails c = true) ∨
    IoPoolClean fails os ioThreads

section clean

variable {fails : Call → Bool} {os : Platform} {ioThreads workerThreads : ℕ}

/-- `io_thread_pool_create` leaves nothing after the failures of `IoPoolClean`. -/
theorem ioThreadPoolCreate_clean_iff (l : Ledger Resource)
    (h : (ioThreadPoolCreate fails os ioThreads l).1 = false) :
    (ioThreadPoolCreate fails os ioThreads l).2 = l ↔ IoPoolClean fails os ioThreads := by
  rw [ioThreadPoolCreate_eq] at h ⊢
  unfold IoPoolClean
  by_cases hown : fails (.acquire .ioPool) = true ∨ fails (.acquire .ioArray) = true
  · rw [if_pos hown]
    exact iff_of_true rfl (or_assoc.mp (.inl hown))
  · rw [if_neg hown] at h ⊢
    rw [← or_assoc, or_iff_right hown]
    cases hfail : firstFailure fails (ioThreadCalls os) 0 ioThreads with
    | none =>
      rw [hfail] at h
      cases h
    | some p =>
      obtain ⟨j, c⟩ := p
      simp only [add_eq_left, left_eq_zero_iff]
      constructor
      · rintro ⟨rfl, hc⟩
        exact ⟨c, rfl, hc⟩
      · rintro ⟨c', hc', hclean⟩
        cases hc'
        exact ⟨rfl, hclean⟩

/-- When `io_thread_pool_create` succeeds, none of its calls has failed. -/
theorem not_ioPoolClean (l : Ledger Resource)
    (h : (ioThreadPoolCreate fails os ioThreads l).1 = true) :
    ioThreadPoolCreate fails os ioThreads l = (true, l + ioPoolOwn os ioThreads) ∧
      ¬IoPoolClean fails os ioThreads := by
  rw [ioThreadPoolCreate_eq] at h ⊢
  unfold IoPoolClean
  by_cases hown : fails (.acquire .ioPool) = true ∨ fails (.acquire .ioArray) = true
  · rw [if_pos hown] at h
    cases h
  · rw [if_neg hown] at h ⊢
    rw [← or_assoc, or_iff_right hown]
    cases hfail : firstFailure fails (ioThreadCalls os) 0 ioThreads with
    | none =>
      refine ⟨rfl, ?_⟩
      rintro ⟨c, hc, -⟩
      cases hc
    | some p =>
      rw [hfail] at h
      cases h

/-- The message pipes of some threads. -/
theorem sum_msgPipeFds_ne_zero (hpos : 1 ≤ ioThreads) :
    ∑ i ∈ Finset.range ioThreads, msgPipeFds i ≠ 0 := by
  intro h
  have hzero := congrFun h (.msgPipe 0 .read)
  have hread : 0 < ioThreads := hpos
  rw [sum_msgPipeFds_apply, if_pos hread] at hzero
  cases hzero

/-- The calls of `server_create` after the pools. -/
def mainLoopCalls (os : Platform) : List Call :=
  loopCalls os .main ++ [.add .main .listenFd]

/-- What `server_create` undoes when the workers exist. -/
def undoServer (workerThreads : ℕ) (l : Ledger Resource) : Ledger Resource :=
  ((threadPoolDestroy workerThreads l).closed .listenFd).closed .server

/-- `undoServer` leaves what was there before, and the rest `r`. -/
theorem undoServer_add (l r : Ledger Resource) :
    undoServer workerThreads
      ((l.opened .server).opened .listenFd + workerPoolOwn workerThreads + r) = l + r := by
  rw [undoServer, threadPoolDestroy_eq, opened, opened, closed, closed]
  abel

/-- `server_create` after its own allocations and `thread_pool_create`. -/
theorem serverCreate_eq (l : Ledger Resource) :
    serverCreate fails os ioThreads workerThreads l =
      if fails (.acquire .server) then (false, l)
      else if (workerCalls workerThreads).any fails then (false, l)
      else
        let l' := (l.opened .server).opened .listenFd + workerPoolOwn workerThreads
        match ioThreadPoolCreate fails os ioThreads l' with
        | (false, l'') => (false, undoServer workerThreads l'')
        | (true, _) =>
          if (mainLoopCalls os).any fails then
            (false, l + ∑ i ∈ Finset.range ioThreads, msgPipeFds i)
          else (true, l' + ioPoolOwn os ioThreads + loopOwn os .main) := by
  cases hserver : fails (.acquire .server) with
  | true => simp only [serverCreate, hserver, if_true]
  | false =>
  simp only [serverCreate, hserver, Bool.false_eq_true, if_false, threadPoolCreate_eq]
  cases hworkers : (workerCalls workerThreads).any fails with
  | true =>
    simp only [if_true, opened, closed]
    congr 1
    abel
  | false =>
  simp only [Bool.false_eq_true, if_false]
  cases hio : (ioThreadPoolCreate fails os ioThreads
      ((l.opened .server).opened .listenFd + workerPoolOwn workerThreads)).1 with
  | false =>
    generalize ioThreadPoolCreate fails os ioThreads
      ((l.opened .server).opened .listenFd + workerPoolOwn workerThreads) = r at hio
    obtain ⟨ok, l''⟩ := r
    cases hio
    rfl
  | true =>
  rw [(not_ioPoolClean _ hio).1]
  simp only
  rw [constructs_eventLoopCreate]
  have hleft : undoServer workerThreads (ioThreadPoolDestroy os ioThreads
      ((l.opened .server).opened .listenFd + workerPoolOwn workerThreads +
        ioPoolOwn os ioThreads)) = l + ∑ i ∈ Finset.range ioThreads, msgPipeFds i := by
    rw [ioThreadPoolDestroy_eq, add_sub_cancel_right, undoServer_add]
  cases hloop : (loopCalls os .main).find? fails with
  | some c =>
    have hany : (mainLoopCalls os).any fails = true := by
      rw [mainLoopCalls, List.any_append,
        List.any_eq_true.mpr ⟨c, List.mem_of_find?_eq_some hloop, List.find?_some hloop⟩,
        Bool.true_or]
    rw [if_pos hany, ← hleft]
    simp only [add_zero, undoServer]
  | none =>
    have hany : (loopCalls os .main).any fails = false := by
      rw [Bool.eq_false_iff]
      intro h
      obtain ⟨c, hc, hfails⟩ := List.any_eq_true.mp h
      exact List.find?_eq_none.mp hloop c hc hfails
    rw [mainLoopCalls, List.any_append, hany, Bool.false_or, List.any_cons, List.any_nil,
      Bool.or_false, ← hleft]
    simp only [eventLoopDestroy_eq, add_sub_cancel_right, undoServer]

/-- `server_create` leaves nothing after the failures of `ServerClean`. -/
theorem serverCreate_clean_iff (hpos : 1 ≤ ioThreads) (l : Ledger Resource)
    (h : (serverCreate fails os ioThreads workerThreads l).1 = false) :
    (serverCreate fails os ioThreads workerThreads l).2 = l ↔
      ServerClean fails os ioThreads workerThreads := by
  unfold ServerClean
  rw [serverCreate_eq] at h ⊢
  by_cases hserver : fails (.acquire .server) = true
  · rw [if_pos hserver]
    exact iff_of_true rfl (.inl hserver)
  rw [if_neg hserver] at h ⊢
  rw [or_iff_right hserver, ← List.any_eq_true]
  by_cases hworkers : (workerCalls workerThreads).any fails = true
  · rw [if_pos hworkers]
    exact iff_of_true rfl (.inl hworkers)
  rw [if_neg hworkers] at h ⊢
  rw [or_iff_right hworkers]
  cases hio : (ioThreadPoolCreate fails os ioThreads
      ((l.opened .server).opened .listenFd + workerPoolOwn workerThreads)).1 with
  | false =>
    rw [← ioThreadPoolCreate_clean_iff _ hio]
    simp only
    generalize ioThreadPoolCreate fails os ioThreads
      ((l.opened .server).opened .listenFd + workerPoolOwn workerThreads) = r at hio
    obtain ⟨ok, l''⟩ := r
    cases hio
    simp only
    have hback : undoServer workerThreads l'' =
        l + (l'' - ((l.opened .server).opened .listenFd + workerPoolOwn workerThreads)) := by
      rw [← undoServer_add, add_sub_cancel]
    rw [hback, add_eq_left, sub_eq_zero]
  | true =>
    obtain ⟨heq, hnot⟩ := not_ioPoolClean _ hio
    simp only [heq] at h ⊢
    split at h
    next hmain =>
      rw [if_pos hmain]
      refine iff_of_false ?_ hnot
      rw [add_eq_left]
      exact sum_msgPipeFds_ne_zero hpos
    next => cases h

/-- A construction that returns `NULL` leaves nothing: always in `thread_pool_create`, and in the
two others just after the failures of `IoPoolClean` and `ServerClean`. -/
theorem construction_clean_iff (hpos : 1 ≤ ioThreads) (l : Ledger Resource) :
    ((threadPoolCreate fails workerThreads l).1 = false →
      (threadPoolCreate fails workerThreads l).2 = l) ∧
    ((ioThreadPoolCreate fails os ioThreads l).1 = false →
      ((ioThreadPoolCreate fails os ioThreads l).2 = l ↔ IoPoolClean fails os ioThreads)) ∧
    ((serverCreate fails os ioThreads workerThreads l).1 = false →
      ((serverCreate fails os ioThreads workerThreads l).2 = l ↔
        ServerClean fails os ioThreads workerThreads)) := by
  refine ⟨?_, ioThreadPoolCreate_clean_iff l, serverCreate_clean_iff hpos l⟩
  intro h
  rw [threadPoolCreate_eq] at h ⊢
  split at h
  next hfails => rw [if_pos hfails]
  next => cases h

end clean

/-- The message pipe of the first of two IO threads cannot be opened. -/
theorem construction_clean_openMsgPipe :
    (serverCreate (· = .openMsgPipe 0) .linux 2 3 0).1 = false ∧
      (serverCreate (· = .openMsgPipe 0) .linux 2 3 0).2 = 0 := by
  have hnull : (serverCreate (· = .openMsgPipe 0) .linux 2 3 0).1 = false := by decide +kernel
  refine ⟨hnull, ((construction_clean_iff (by decide) 0).2.2 hnull).mpr ?_⟩
  exact .inr (.inr (.inr (.inr ⟨.openMsgPipe 0, by decide +kernel, rfl⟩)))

/-- The thread of the only IO thread cannot be started, and the message pipe stays open. -/
theorem not_construction_clean :
    ¬∀ (fails : Call → Bool) (os : Platform) (ioThreads workerThreads : ℕ), 1 ≤ ioThreads →
      1 ≤ workerThreads →
      ∀ l, ((threadPoolCreate fails workerThreads l).1 = false →
        (threadPoolCreate fails workerThreads l).2 = l) ∧
          ((ioThreadPoolCreate fails os ioThreads l).1 = false →
            (ioThreadPoolCreate fails os ioThreads l).2 = l) ∧
        ((serverCreate fails os ioThreads workerThreads l).1 = false →
          (serverCreate fails os ioThreads workerThreads l).2 = l) := by
  intro h
  have hnull := (h (· = .acquire (.thread 0)) .linux 1 1 (by decide) (by decide) 0).2.2
  have hzero := congrFun (hnull (by decide +kernel)) (.msgPipe 0 .read)
  revert hzero
  decide +kernel

end DeepInIo.AdvancedServer
