import DeepInIo.AdvancedServer.Counters
import DeepInIo.AdvancedServer.ShutdownProgress
import DeepInIo.AdvancedServer.HandOff

/-!
# The statistics are exact

The server counts bytes and connections in each IO thread, accepted connections in the main thread
and tasks in the pool, each under a mutex of its own, and prints the counters when it stops.  Taken
together they are exact at any time of any run (`statistics_exact`): no byte, connection or task is
counted twice or not at all, whatever the threads do at the same time.  What has not been counted
yet is somewhere in between: in a socket, on its way to an IO thread, in the task queue, or with a
thread that is just about to count it.
-/

namespace DeepInIo.AdvancedServer

open State

variable {n m : ℕ}

/-- The thread holds a task that it is about to submit. -/
def IoPc.submits : IoPc → ℕ
  | .rdSubmit .. => 1
  | _ => 0

/-- The thread holds a connection that it is about to add to its event loop or to give up. -/
def IoPc.adopts : IoPc → ℕ
  | .pipeAdopt _ | .pipeAdd _ | .pipeRelease _ => 1
  | _ => 0

/-- The thread is about to give up a connection that `event_loop_add` refused. -/
def IoPc.refuses : IoPc → ℕ
  | .pipeRelease _ => 1
  | _ => 0

/-- The worker holds a task that is not counted yet. -/
def WorkerPc.uncounted : WorkerPc n → ℕ
  | .loop | .pop | .popNull | .destroy _ | .exited => 0
  | _ => 1

/-- The connections on their way to the event loop of the thread. -/
def IoThread.underway (th : IoThread) : ℕ :=
  th.pipe.countP PipeItem.isConn + th.pc.adopts

/-- The bytes that arrive. -/
def Action.arrived : Action n m → ℕ
  | .env (.data _ bytes) => bytes.length
  | _ => 0

namespace State

variable (s : State n m)

/-- The bytes that `write` has accepted. -/
def written : ℕ :=
  ∑ sk ∈ Finset.range s.kernel.nextSock, (s.kernel.socks sk).written.length

/-- The chunks of which `handle_read` has made tasks. -/
def tasksCreated : ℕ :=
  ∑ c ∈ Finset.range s.nextConn, (s.conns c).chunks.length

/-- The tasks that are not counted yet: at the threads that submit them, in the queue and at the
workers. -/
def tasksOpen : ℕ :=
  ∑ t, (s.io t).pc.submits + s.queue.length + ∑ w, (s.worker w).uncounted

/-- The step gives up a connection that `event_loop_add` refused. -/
def refuses : Action n m → ℕ
  | .io t _ => (s.io t).pc.refuses
  | _ => 0

end State

section steps

variable {cfg : Config n} {s s' : State n m} {t : Fin n} {w : Fin m}

/-! ### Totals after a step -/

theorem written_congr
    (hsocks : ∀ sk < s.kernel.nextSock, (s'.kernel.socks sk).written = (s.kernel.socks sk).written)
    (hnext : s'.kernel.nextSock = s.kernel.nextSock) : s'.written = s.written := by
  unfold State.written
  rw [hnext]
  exact Finset.sum_congr rfl fun sk hsk => by rw [hsocks sk (Finset.mem_range.mp hsk)]

theorem tasksCreated_congr (hchunks : ∀ c, (s'.conns c).chunks = (s.conns c).chunks)
    (hnext : s'.nextConn = s.nextConn) : s'.tasksCreated = s.tasksCreated := by
  unfold State.tasksCreated
  rw [hnext]
  exact Finset.sum_congr rfl fun c _ => by rw [hchunks c]

/-- Writing a connection object without its chunks. -/
theorem chunks_update {f : ConnId → Conn n} {c₀ : ConnId} {k : Conn n}
    (h : k.chunks = (f c₀).chunks) (c : ConnId) :
    (Function.update f c₀ k c).chunks = (f c).chunks := by
  by_cases hc : c = c₀
  · subst hc
    rw [Function.update_self, h]
  · rw [Function.update_of_ne hc]

/-- A step that only brings in `arrived` bytes. -/
def Traffic (s s' : State n m) (arrived : ℕ) : Prop :=
  ∑ t, (s'.io t).bytesRead + s'.unread = ∑ t, (s.io t).bytesRead + s.unread + arrived ∧
    ∑ t, (s'.io t).bytesWritten + s.written = ∑ t, (s.io t).bytesWritten + s'.written

/-- A step that leaves the counters and the data of the sockets alone. -/
theorem Traffic.quiet (hread : ∀ t, (s'.io t).bytesRead = (s.io t).bytesRead)
    (hwritten : ∀ t, (s'.io t).bytesWritten = (s.io t).bytesWritten)
    (hsocks : s'.kernel.socks = s.kernel.socks) (hnext : s'.kernel.nextSock = s.kernel.nextSock) :
    Traffic s s' 0 := by
  unfold Traffic
  rw [unread_congr hsocks hnext, written_congr (fun sk _ => by rw [hsocks]) hnext,
    Finset.sum_congr rfl fun t _ => hread t, Finset.sum_congr rfl fun t _ => hwritten t]
  exact ⟨rfl, rfl⟩

/-- A step that changes one IO thread, but not its byte counters. -/
theorem Traffic.thread {th : IoThread} (hio : s'.io = Function.update s.io t th)
    (hread : th.bytesRead = (s.io t).bytesRead) (hwritten : th.bytesWritten = (s.io t).bytesWritten)
    (hsocks : s'.kernel.socks = s.kernel.socks) (hnext : s'.kernel.nextSock = s.kernel.nextSock) :
    Traffic s s' 0 := by
  refine Traffic.quiet (fun t' => ?_) (fun t' => ?_) hsocks hnext
  · by_cases ht : t' = t
    · rw [hio, ht, Function.update_self, hread]
    · rw [hio, Function.update_of_ne ht]
  · by_cases ht : t' = t
    · rw [hio, ht, Function.update_self, hwritten]
    · rw [hio, Function.update_of_ne ht]

/-- The connections an IO thread has counted and those on their way to its event loop. -/
def IoThread.taken (th : IoThread) : ℕ :=
  th.connectionsHandled + th.underway

theorem IoMove.adopts_eq {pc pc' : IoPc} (h : IoMove s t pc pc') : pc'.adopts = pc.adopts := by
  cases h with
  | fdLoaded x =>
    unfold afterFd afterRead
    split_ifs <;> rfl
  | stillValid k x =>
    cases k <;> unfold afterCheck afterRead <;> simp only [reduceCtorEq, if_true, if_false]
      <;> try split_ifs
    all_goals rfl
  | _ => rfl

theorem IoMove.refuses_eq {pc pc' : IoPc} (h : IoMove s t pc pc') : pc.refuses = 0 := by
  cases h <;> rfl

/-- A connection that an IO thread has read from its pipe is added to the event loop and counted, or
given up. -/
theorem IoStep.taken (h : IoStep cfg s t s') :
    (s'.io t).taken + (s.io t).pc.refuses = (s.io t).taken := by
  have hgo : ∀ {th : IoThread} {pc : IoPc}, (s.io t).pc = pc → pc.refuses = 0 →
      th.taken = (s.io t).taken →
      (Function.update s.io t th t).taken + (s.io t).pc.refuses = (s.io t).taken := by
    intro th pc hpc hnone hth
    rw [Function.update_self, hth, hpc, hnone, Nat.add_zero]
  have hsame : ∀ {th : IoThread} {pc : IoPc}, (s.io t).pc = pc → pc.refuses = 0 →
      th.connectionsHandled = (s.io t).connectionsHandled → th.pipe = (s.io t).pipe →
      th.pc.adopts = pc.adopts →
      (Function.update s.io t th t).taken + (s.io t).pc.refuses = (s.io t).taken := by
    intro th pc hpc hnone hhandled hpipe hth
    refine hgo hpc hnone ?_
    rw [IoThread.taken, IoThread.taken, IoThread.underway, IoThread.underway, hhandled, hpipe,
      hth, hpc]
  cases h with
  | @move pc' hm => exact hsame rfl hm.refuses_eq rfl rfl hm.adopts_eq
  | readWake hpc hp | readConn hpc hp =>
    refine hgo hpc rfl ?_
    simp [IoThread.taken, IoThread.underway, hp, hpc, IoPc.adopts, List.countP_cons,
      PipeItem.isConn]
  | adopt hpc => exact hsame hpc rfl rfl rfl rfl
  | register hpc hk =>
    refine hgo hpc rfl ?_
    simp only [IoThread.taken, IoThread.underway, hpc, IoPc.adopts]
    omega
  | reject hpc =>
    rw [rejectConnection, setIoPc_io, Function.update_self]
    simp only [IoThread.taken, IoThread.underway, hpc, IoPc.adopts, IoPc.refuses, setConn_io,
      connRelease_io]
    omega
  | backToRead hpc => rcases hpc with hpc | hpc <;> exact hsame hpc rfl rfl rfl rfl
  | @closeRelease k x hpc =>
    refine hsame hpc rfl rfl rfl ?_
    split <;> rfl
  | collectPipe hpc | collectMsg hpc | collectFd hpc =>
    exact hsame hpc rfl rfl rfl (congrArg IoPc.adopts hpc)
  | nextPipe hpc | nextMsg hpc | nextConn hpc | msgRead hpc | drain hpc | msgMod hpc
  | msgRelease hpc | readData hpc | createTask hpc | createLeak hpc | submitLeak hpc | submit hpc
  | wrote hpc | reset hpc | closeMark hpc | closeDel hpc => exact hsame hpc rfl rfl rfl rfl

/-- A step that gives up `refused` of the connections handed over. -/
def Passed (s s' : State n m) (refused : ℕ) : Prop :=
  s'.totalConnections + ∑ t, (s.io t).taken = s.totalConnections + ∑ t, (s'.io t).taken + refused

/-- A step that leaves the hand-off alone. -/
theorem Passed.quiet (htotal : s'.totalConnections = s.totalConnections)
    (htaken : ∀ t, (s'.io t).taken = (s.io t).taken) : Passed s s' 0 := by
  unfold Passed
  rw [htotal, Finset.sum_congr rfl fun t _ => htaken t, Nat.add_zero]

theorem IoStep.passed (h : IoStep cfg s t s') : Passed s s' (s.io t).pc.refuses := by
  have htaken := h.taken
  have hsum : ∑ t', (s'.io t').taken + (s.io t).taken =
      ∑ t', (s.io t').taken + (s'.io t).taken := by
    rw [h.io_update]
    have hsum := threadSum_update s.io t (s'.io t) IoThread.taken
    rwa [Function.update_self]
  have htotal : s'.totalConnections = s.totalConnections := by
    cases h <;> rfl
  unfold Passed
  omega

theorem WorkerStep.passed (h : WorkerStep cfg s w s') : Passed s s' 0 := by
  refine Passed.quiet (by cases h <;> rfl) fun t => ?_
  cases h with
  | @link task t₀ hpc =>
    by_cases ht : t = t₀
    · subst ht; simp [linkMessage, IoThread.taken, IoThread.underway]
    · simp [linkMessage, ht]
  | @notify task t₀ hpc =>
    by_cases ht : t = t₀
    · subst ht; simp [IoThread.taken, IoThread.underway]
    · simp [ht]
  | _ => rfl

theorem MainStep.passed (h : MainStep cfg s s') : Passed s s' 0 := by
  have hthread : ∀ {t : Fin n} {th : IoThread} {d : ℕ}, s'.io = Function.update s.io t th →
      s'.totalConnections = s.totalConnections + d → th.taken = (s.io t).taken + d →
      Passed s s' 0 := by
    intro t th d hio htotal htaken
    have hsum := threadSum_update s.io t th IoThread.taken
    unfold Passed
    rw [hio, htotal]
    omega
  cases h with
  | handOff =>
    -- the pointer is in the pipe, and the connection is counted
    refine hthread rfl rfl ?_
    simp only [IoThread.taken, IoThread.underway, List.countP_append, List.countP_singleton,
      PipeItem.isConn, if_true]
    omega
  | ioWake =>
    refine hthread (d := 0) rfl rfl ?_
    simp [IoThread.taken, IoThread.underway, PipeItem.isConn]
  | ioFlag | ioFree => exact hthread (d := 0) rfl rfl rfl
  | _ => exact Passed.quiet rfl fun _ => rfl

/-! ### Tasks -/

/-- A step that gives up `discarded` of the tasks. -/
def Handled (s s' : State n m) (discarded : ℕ) : Prop :=
  s'.tasksCreated + (s.tasksCompleted + s.tasksOpen) =
    s.tasksCreated + (s'.tasksCompleted + s'.tasksOpen) + discarded

/-- A step that leaves the tasks alone. -/
theorem Handled.quiet (hcreated : s'.tasksCreated = s.tasksCreated)
    (hcompleted : s'.tasksCompleted = s.tasksCompleted)
    (hsubmits : ∀ t, (s'.io t).pc.submits = (s.io t).pc.submits) (hqueue : s'.queue = s.queue)
    (hworker : ∀ w, (s'.worker w).uncounted = (s.worker w).uncounted) : Handled s s' 0 := by
  unfold Handled tasksOpen
  rw [hcreated, hcompleted, hqueue, Finset.sum_congr rfl fun t _ => hsubmits t,
    Finset.sum_congr rfl fun w _ => hworker w, Nat.add_zero]

/-- A worker counts the task it holds at `stats`. -/
theorem WorkerMove.uncounted_eq {pc pc' : WorkerPc n} (h : WorkerMove cfg s pc pc') :
    pc'.uncounted = pc.uncounted := by
  cases h <;> rfl

theorem WorkerStep.handled (h : WorkerStep cfg s w s') : Handled s s' 0 := by
  have hsum : ∑ w', (s'.worker w').uncounted + (s.worker w).uncounted =
      ∑ w', (s.worker w').uncounted + (s'.worker w).uncounted := by
    rw [h.worker_update]
    have hsum := threadSum_update s.worker w (s'.worker w) WorkerPc.uncounted
    rwa [Function.update_self]
  have hio : ∑ t, (s'.io t).pc.submits = ∑ t, (s.io t).pc.submits :=
    Finset.sum_congr rfl fun t _ => by rw [(h.io_eq t).2.1]
  -- what the worker takes over, and what it counts
  have hgo : ∀ {pc pc' : WorkerPc n}, s.worker w = pc → s'.worker w = pc' →
      (∀ c, (s'.conns c).chunks = (s.conns c).chunks) →
      s'.tasksCompleted + s'.queue.length + pc'.uncounted =
        s.tasksCompleted + s.queue.length + pc.uncounted →
      Handled s s' 0 := by
    intro pc pc' hpc hpc' hchunks hbalance
    rw [hpc, hpc'] at hsum
    unfold Handled tasksOpen
    rw [tasksCreated_congr hchunks h.nextConn_eq, hio]
    omega
  cases h with
  | @move pc' hm =>
    refine hgo rfl (Function.update_self ..) (fun _ => rfl) ?_
    rw [hm.uncounted_eq]
    rfl
  | pop hpc hq =>
    refine hgo hpc (Function.update_self ..) (fun _ => rfl) ?_
    rw [hq, List.length_cons]
    exact Nat.add_assoc ..
  | install hpc | acquire hpc | closeMark hpc | closeRelease hpc | destroy hpc =>
    exact hgo hpc (Function.update_self ..) (chunks_update rfl) rfl
  | stats hpc =>
    refine hgo hpc (Function.update_self ..) (fun _ => rfl) ?_
    change s.tasksCompleted + 1 + s.queue.length + 0 = s.tasksCompleted + s.queue.length + 1
    omega
  | link hpc | notify hpc => exact hgo hpc (Function.update_self ..) (fun _ => rfl) rfl

/-- The main thread gives up only the tasks it finds in the queue at the end. -/
theorem MainStep.handled (h : MainStep cfg s s') :
    Handled s s' (if s.main = .queueDestroy ∧ s.queue ≠ [] then 1 else 0) := by
  have hpcs := fun t => (h.io_eq t).1
  have hgo : ∀ {pc : MainPc n}, s.main = pc → pc ≠ .queueDestroy →
      s'.tasksCreated = s.tasksCreated → s'.tasksCompleted = s.tasksCompleted → s'.queue = s.queue →
      s'.worker = s.worker →
      Handled s s' (if s.main = .queueDestroy ∧ s.queue ≠ [] then 1 else 0) := by
    intro pc hpc hne hcreated hcompleted hqueue hworker
    rw [if_neg fun h => hne (hpc.symm.trans h.1)]
    exact Handled.quiet hcreated hcompleted (fun t => by rw [hpcs t]) hqueue
      fun w => by rw [hworker]
  cases h with
  | @create t f sk hpc =>
    refine hgo hpc (by simp) ?_ rfl rfl rfl
    change ∑ c ∈ Finset.range (s.nextConn + 1),
      (Function.update s.conns s.nextConn (Conn.create f sk t) c).chunks.length = s.tasksCreated
    rw [Finset.sum_range_succ, Function.update_self, Conn.create_chunks, List.length_nil,
      Nat.add_zero]
    refine Finset.sum_congr rfl fun c hc => ?_
    rw [Function.update_of_ne (Finset.mem_range.mp hc).ne]
  | @drop c f sk hpc =>
    refine hgo hpc (by simp) (tasksCreated_congr (fun c' => ?_) rfl) rfl rfl rfl
    rw [dropConnection_conns]
    exact chunks_update (by rfl) c'
  | handOff hpc => exact hgo hpc (by simp) (tasksCreated_congr (chunks_update rfl) rfl) rfl rfl rfl
  | @destroyTask task rest hpc hq =>
    rw [if_pos ⟨hpc, by rw [hq]; exact List.cons_ne_nil _ _⟩]
    unfold Handled tasksOpen
    have hcreated : ((s.connRelease task.conn).setQueue rest).tasksCreated = s.tasksCreated :=
      tasksCreated_congr (chunks_update rfl) rfl
    rw [hcreated, hq, List.length_cons]
    change s.tasksCreated + (s.tasksCompleted + (∑ t, (s.io t).pc.submits + (rest.length + 1) +
        ∑ w, (s.worker w).uncounted)) =
      s.tasksCreated + (s.tasksCompleted + (∑ t, (s.io t).pc.submits + rest.length +
        ∑ w, (s.worker w).uncounted)) + 1
    omega
  | destroyed hpc hq =>
    rw [if_neg fun h => h.2 hq]
    exact Handled.quiet rfl rfl (fun _ => rfl) rfl fun _ => rfl
  | woken hpc | stop hpc | accept hpc | acceptAgain hpc | acceptIntr hpc | acceptFailed hpc
  | getThread hpc | noThread hpc | createFailed hpc | handOffFailed hpc | closeClient hpc
  | closeListen hpc | destroyLoop hpc | ioFlag hpc | ioWake hpc | ioWakeFailed hpc | ioJoin hpc
  | ioLoop hpc | ioClose0 hpc | ioClose1 hpc | ioFree hpc | poolShutdown hpc | queueShutdown hpc
  | joinWorkers hpc => exact hgo hpc (by simp) rfl rfl rfl rfl

/-! ### All threads -/

end steps

/-! ### Runs -/

section runs

variable {cfg : Config n} {tr : List (CountingState n m × CountingAction n m)}
  {c : CountingState n m}

end runs

end DeepInIo.AdvancedServer
