import DeepInIo.AdvancedServer.Ownership

/-!
# The ownership invariant of the server

`Owned` collects what holds in every reachable state about the places where connections occur: the
threads, the task queue, the message lists and the interest lists.  It is proved thread by thread
from the relations of `Steps`, and every change it sees of an owner is a step of the life cycle
(`ServerStep.owner`, `reachable_owner`).
-/

namespace DeepInIo.AdvancedServer

open State

variable {n m : ℕ}

/-! ### Places of tasks and messages -/

/-- The task a worker holds. -/
def WorkerPc.task? : WorkerPc n → Option Task
  | .check k | .install k | .sendTest k | .sendAlloc k _ | .sendAcquire k _ | .sendLink k _
  | .sendNotify k _ | .closeMark k | .closeRelease k | .stats k | .destroy k => some k
  | .loop | .pop | .popNull | .exited => none

/-- The branch of `TASK_TYPE_CLOSE`. -/
def WorkerPc.closes : WorkerPc n → Bool
  | .closeMark _ | .closeRelease _ => true
  | _ => false

/-- The IO thread to which a worker is sending a message. -/
def WorkerPc.target? : WorkerPc n → Option (Fin n)
  | .sendAlloc _ t | .sendAcquire _ t | .sendLink _ t | .sendNotify _ t => some t
  | _ => none

/-- The task an IO thread is submitting. -/
def IoPc.task? : IoPc → Option Task
  | .rdSubmit _ k => some k
  | _ => none

/-- The message an IO thread is handling. -/
def IoPc.message? : IoPc → Option IoMessage
  | .msgCheck msg | .msgMod msg | .msgRelease msg => some msg
  | _ => none

/-- The connection the main thread has created and not handed over. -/
def MainPc.creating : MainPc n → Option ConnId
  | .handoff _ c _ _ | .drop c _ _ => some c
  | _ => none

/-- An IO thread has accepted the connection into its event loop at some time. -/
def State.Adopted (s : State n m) (c : ConnId) : Prop :=
  ∃ t, (s.owner c).loop = some t

/-- Where connections occur, and what their owners are there. -/
structure Owned (s : State n m) : Prop where
  unborn : ∀ c, s.owner c = .unborn ↔ s.nextConn ≤ c
  fresh : ∀ c, s.owner c = .unborn → s.conns c = Conn.unborn n
  creator : ∀ c, s.owner c = .creator ↔ s.main.creating = some c
  conn : ∀ c, (s.conns c).Ok
  handoff : ∀ t c f sk, s.main = .handoff t c f sk → (s.conns c).ioThread = some t
  io : ∀ t, IoOwned s.owner t (s.io t)
  queued : ∀ task ∈ s.queue, task.type = .process ∧ s.Adopted task.conn
  submitting : ∀ t task, (s.io t).pc.task? = some task →
    task.type = .process ∧ (s.io t).pc.role = .active task.conn
  held : ∀ w task, (s.worker w).task? = some task → task.type = .process ∧ s.Adopted task.conn
  never_closes : ∀ w, (s.worker w).closes = false
  sending : ∀ w task t, (s.worker w).task? = some task → (s.worker w).target? = some t →
    (s.owner task.conn).loop = some t
  message : ∀ t msg, msg ∈ (s.io t).msgQueue ∨ (s.io t).pc.message? = some msg →
    msg.type = .responseReady ∧ (s.owner msg.conn).loop = some t
  listed : ∀ t f r, s.kernel.reg t f = some r → (s.owner r.data).loop = some t

/-! ### What a step leaves alone -/

section frame

variable {cfg : Config n} {s s' : State n m} {t : Fin n} {w : Fin m}

/-- `conn_release` only removes entries of the interest lists. -/
theorem reg_of_connRelease {c : ConnId} {f : Fd} {r : Registration}
    (h : (s.connRelease c).kernel.reg t f = some r) : s.kernel.reg t f = some r := by
  rw [connRelease_kernel] at h
  split at h
  · exact Kernel.reg_of_close h
  · exact h

/-- `conn_mark_closing` only removes entries of the interest lists. -/
theorem reg_of_connMarkClosing {c : ConnId} {f : Fd} {r : Registration}
    (h : (s.connMarkClosing c).kernel.reg t f = some r) : s.kernel.reg t f = some r := by
  rw [connMarkClosing_kernel] at h
  split at h
  · exact h
  · exact Kernel.reg_of_close h

theorem IoStep.main_eq (h : IoStep cfg s t s') : s'.main = s.main := by
  cases h <;> rfl

theorem IoStep.worker_eq (h : IoStep cfg s t s') : s'.worker = s.worker := by
  cases h <;> rfl

theorem IoStep.nextConn_eq (h : IoStep cfg s t s') : s'.nextConn = s.nextConn := by
  cases h <;> rfl

theorem IoStep.io_ne (h : IoStep cfg s t s') {t' : Fin n} (ht : t' ≠ t) : s'.io t' = s.io t' := by
  cases h <;> exact Function.update_of_ne ht _ _

/-- A step of an IO thread shuts nothing down. -/
theorem IoStep.flags (h : IoStep cfg s t s') :
    s'.poolShutdown = s.poolShutdown ∧ s'.queueShutdown = s.queueShutdown := by
  cases h <;> exact ⟨rfl, rfl⟩

theorem WorkerStep.main_eq (h : WorkerStep cfg s w s') : s'.main = s.main := by
  cases h <;> rfl

theorem WorkerStep.nextConn_eq (h : WorkerStep cfg s w s') : s'.nextConn = s.nextConn := by
  cases h <;> rfl

theorem WorkerStep.worker_ne (h : WorkerStep cfg s w s') {w' : Fin m} (hw : w' ≠ w) :
    s'.worker w' = s.worker w' := by
  cases h <;> exact Function.update_of_ne hw _ _

/-- A step of a worker shuts nothing down. -/
theorem WorkerStep.flags (h : WorkerStep cfg s w s') :
    s'.poolShutdown = s.poolShutdown ∧ s'.queueShutdown = s.queueShutdown := by
  cases h <;> exact ⟨rfl, rfl⟩

theorem MainStep.worker_eq (h : MainStep cfg s s') : s'.worker = s.worker := by
  cases h <;> rfl

/-- `server_destroy` is never left. -/
theorem MainStep.running (h : MainStep cfg s s') (hr : s'.Running) : s.Running := by
  cases h with
  | acceptIntr => exact hr
  | woken hpc | stop hpc | accept hpc | acceptAgain hpc | acceptFailed hpc | getThread hpc
  | noThread hpc | create hpc | createFailed hpc | handOff hpc | handOffFailed hpc | drop hpc
  | closeClient hpc => simp [State.Running, hpc]
  | destroyTask hpc => simp [State.Running, hpc] at hr
  | destroyLoop | ioFree =>
    simp only [State.Running, setMain_main, nextDestroy] at hr
    split_ifs at hr <;> exact hr.elim
  | _ => exact hr.elim

/-- `server_destroy` is never left. -/
theorem ServerStep.running (h : ServerStep cfg s s') (hr : s'.Running) : s.Running := by
  cases h with
  | main h => exact h.running hr
  | io t h => rwa [State.Running, h.main_eq] at hr
  | worker w h => rwa [State.Running, h.main_eq] at hr
  | env h => cases h <;> exact hr

end frame

/-! ### Owners follow the life cycle -/

section owner

variable {cfg : Config n} {s s' : State n m} {t : Fin n} {w : Fin m}

/-- One owner is written, as a step of a relation allows. -/
theorem owner_update {R : Owner n → Owner n → Prop} {c₀ : ConnId} {o : Owner n}
    (h : R (s.owner c₀) o) (c : ConnId) :
    Function.update s.owner c₀ o c = s.owner c ∨
      R (s.owner c) (Function.update s.owner c₀ o c) := by
  by_cases hc : c = c₀
  · subst hc; right; simpa using h
  · left; simp [hc]

/-- An IO thread moves owners along the life cycle. -/
theorem IoStep.owner (h : IoStep cfg s t s') (hi : IoOwned s.owner t (s.io t)) (c : ConnId) :
    s'.owner c = s.owner c ∨ Owner.ByIo t (s.owner c) (s'.owner c) := by
  cases h with
  | @readConn c₀ rest hpc hp =>
    have ho : s.owner c₀ = .pipe t := (hi.pipe c₀).mp (by simp [hp])
    rw [owner_setIo, owner_setConn]
    exact owner_update (by rw [ho]; exact .read) c
  | @register c₀ k hpc hk =>
    have ho : s.owner c₀ = .adopter t := (hi.adopting c₀).mp (congrArg IoPc.role hpc)
    rw [owner_setIo, owner_setConn, owner_setKernel]
    exact owner_update (by rw [ho]; exact .accept) c
  | @reject c₀ hpc =>
    have ho : s.owner c₀ = .adopter t := (hi.adopting c₀).mp (congrArg IoPc.role hpc)
    rw [rejectConnection, owner_setIoPc, owner_setConn, owner_connRelease]
    exact owner_update (by rw [ho]; exact .refuse) c
  | @closeMark k x hpc =>
    have ho : s.owner x.conn = .registered t := hi.active x.conn (congrArg IoPc.role hpc)
    rw [State.markClosing, owner_setIoPc, owner_setConn, owner_connMarkClosing]
    exact owner_update (by rw [ho]; exact .mark) c
  | @closeRelease k x hpc =>
    have ho : s.owner x.conn = .closing t := (hi.closing x.conn).mp (congrArg IoPc.role hpc)
    rw [releaseOwner, owner_setIoPc, owner_setConn, owner_connRelease]
    exact owner_update (by rw [ho]; exact .release) c
  | adopt | readData | createTask | createLeak | submitLeak | backToRead | wrote | reset =>
    left
    simp only [State.readData, State.backToRead, wroteData, owner_setIo, owner_setIoPc]
    rw [owner_setConn_same] <;> rfl
  | _ => exact .inl (by simp)

/-- A worker moves no owner. -/
theorem WorkerStep.owner (h : WorkerStep cfg s w s') : s'.owner = s.owner := by
  cases h with
  | install | acquire =>
    rw [owner_setWorker, owner_setConn_same]
    rfl
  | stats => rfl
  | _ => simp [linkMessage]

/-- The main thread moves owners along the life cycle. -/
theorem MainStep.owner (h : MainStep cfg s s') (hi : Owned s) (c : ConnId) :
    s'.owner c = s.owner c ∨ Owner.ByMain (s.owner c) (s'.owner c) := by
  cases h with
  | @create t f sk hpc =>
    have ho : s.owner s.nextConn = .unborn := (hi.unborn _).mpr le_rfl
    change (s.setConn s.nextConn (Conn.create f sk t)).owner c = _ ∨
      Owner.ByMain _ ((s.setConn s.nextConn (Conn.create f sk t)).owner c)
    rw [owner_setConn]
    exact owner_update (by rw [ho]; exact .create) c
  | @handOff t c₀ f sk hpc =>
    have ho : s.owner c₀ = .creator := (hi.creator c₀).mpr (congrArg MainPc.creating hpc)
    change (s.setConn c₀ ((s.conns c₀).setOwner (.pipe t))).owner c = _ ∨
      Owner.ByMain _ ((s.setConn c₀ ((s.conns c₀).setOwner (.pipe t))).owner c)
    rw [owner_setConn]
    exact owner_update (by rw [ho]; exact .handOff t) c
  | @drop c₀ f sk hpc =>
    have ho : s.owner c₀ = .creator := (hi.creator c₀).mpr (congrArg MainPc.creating hpc)
    rw [dropConnection, owner_setMain, owner_setConn, owner_connRelease]
    exact owner_update (by rw [ho]; exact .drop) c
  | getThread | poolShutdown | queueShutdown => exact .inl rfl
  | acceptIntr => exact .inl rfl
  | _ => exact .inl (by simp)

end owner

/-! ### The invariant is kept by the IO threads -/

section ioThread

variable {cfg : Config n} {s s' : State n m} {t : Fin n}

/-- The thread that takes a step stays in its place. -/
theorem IoStep.io_self (h : IoStep cfg s t s') (hi : Owned s) : IoOwned s'.owner t (s'.io t) := by
  have ho := hi.io t
  cases h with
  | move hm =>
    simp only [owner_setIoPc, setIoPc_io, Function.update_self]
    exact ho.roleMove (fun c => (hi.conn c).flag) hm.role
  | collectPipe hpc he | collectMsg hpc he =>
    simp only [owner_setIo, setIo_io, Function.update_self]
    exact ho.batch_of rfl rfl fun c ev hc => .inl (by simpa using hc)
  | @collectFd f ev r hpc hr =>
    have hl := hi.listed t f r hr
    simp only [owner_setIo, owner_setKernel, setIo_io, Function.update_self]
    refine ho.batch_of rfl rfl fun c ev' hc => ?_
    rcases List.mem_append.mp hc with hc | hc
    · exact .inl hc
    · cases List.mem_singleton.mp hc
      exact .inr hl
  | nextPipe hpc hb | nextMsg hpc hb =>
    simp only [owner_setIo, setIo_io, Function.update_self]
    exact ho.batch_of rfl (congrArg IoPc.role hpc).symm fun c ev hc =>
      .inl (by rw [hb]; exact .tail _ hc)
  | nextConn hpc hb =>
    simp only [owner_setIo, setIo_io, Function.update_self]
    exact ho.nextConn hpc hb rfl
  | readWake hpc hp =>
    simp only [owner_setIo, setIo_io, Function.update_self]
    exact ho.wake (by simp [hp]) (congrArg IoPc.role hpc).symm rfl
  | readConn hpc hp =>
    simp only [owner_setIo, owner_setConn, setIo_io, Function.update_self]
    exact ho.readConn hpc hp
  | adopt hpc =>
    simp only [owner_setIoPc, setIoPc_io, Function.update_self]
    rw [owner_setConn_same]
    · exact ho.congr rfl (congrArg IoPc.role hpc).symm rfl
    · rfl
  | register hpc hk =>
    simp only [owner_setIo, owner_setConn, owner_setKernel, setIo_io, Function.update_self]
    exact ho.settle (congrArg IoPc.role hpc) rfl (.inl rfl)
  | reject hpc =>
    simp only [rejectConnection, owner_setIoPc, owner_setConn, owner_connRelease, setIoPc_io,
      Function.update_self]
    exact ho.settle (congrArg IoPc.role hpc) rfl (.inr rfl)
  | closeMark hpc =>
    simp only [State.markClosing, owner_setIoPc, owner_setConn, owner_connMarkClosing, setIoPc_io,
      Function.update_self]
    exact ho.close (congrArg IoPc.role hpc) rfl
  | @closeRelease k x hpc =>
    simp only [releaseOwner, owner_setIoPc, owner_setConn, owner_connRelease, setIoPc_io,
      Function.update_self]
    refine ho.release (congrArg IoPc.role hpc) ?_
    split
    · exact .inr rfl
    · exact .inl rfl
  | readData hpc | createTask hpc | createLeak hpc | submitLeak hpc | wrote hpc | reset hpc =>
    simp only [State.readData, wroteData, owner_setIo, owner_setIoPc, setIo_io, setIoPc_io,
      Function.update_self]
    rw [owner_setConn_same]
    · exact ho.congr rfl (congrArg IoPc.role hpc).symm rfl
    · rfl
  | backToRead hpc =>
    simp only [State.backToRead, owner_setIoPc, setIoPc_io, Function.update_self]
    rw [owner_setConn_same]
    · refine ho.roleMove (fun c => (hi.conn c).flag) ?_
      rcases hpc with hpc | hpc <;> rw [hpc] <;> exact .back _
    · rfl
  | msgRead hpc | drain hpc | msgMod hpc | msgRelease hpc | submit hpc | closeDel hpc =>
    simp only [owner_setIo, owner_setIoPc, owner_setKernel, owner_connRelease, owner_setQueue,
      setIo_io, setIoPc_io, Function.update_self]
    exact ho.congr rfl (congrArg IoPc.role hpc).symm rfl

/-- The steps of one IO thread do not disturb another. -/
theorem IoStep.io_other (h : IoStep cfg s t s') (hi : Owned s) {t' : Fin n} (ht : t' ≠ t) :
    IoOwned s'.owner t' (s'.io t') := by
  rw [h.io_ne ht]
  refine (hi.io t').rely fun c => ?_
  rcases h.owner (hi.io t) c with hc | hc
  · exact .inl hc
  · obtain ⟨h1, h2⟩ := hc.home
    refine .inr ⟨fun hh => ht ?_, fun hh => ?_⟩
    · rw [h1] at hh; cases hh; rfl
    · rcases h2 with h2 | h2 <;> rw [h2] at hh
      · cases hh; exact ht rfl
      · cases hh

/-- Writing one connection keeps the fields of all connections in order. -/
theorem conn_update {f : ConnId → Conn n} (h : ∀ c, (f c).Ok) {c₀ : ConnId} {k : Conn n} (hk : k.Ok)
    (c : ConnId) : (Function.update f c₀ k c).Ok := by
  by_cases hc : c = c₀
  · subst hc; simpa using hk
  · simpa [hc] using h c

/-- The IO threads keep the fields of the connections in order. -/
theorem IoStep.conn_ok (h : IoStep cfg s t s') (hi : Owned s) (c : ConnId) : (s'.conns c).Ok := by
  have hk := hi.conn
  have ho := hi.io t
  have hactive : ∀ {c₀ : ConnId}, (s.io t).pc.role = .active c₀ →
      (s.conns c₀).owner.loop ≠ none := by
    intro c₀ hr
    have howner : (s.conns c₀).owner = .registered t := ho.active c₀ hr
    rw [howner]
    nofun
  cases h with
  | @readConn c₀ rest hpc hp =>
    have howner : (s.conns c₀).owner = .pipe t := (ho.pipe c₀).mp (by simp [hp])
    refine conn_update hk ((hk c₀).setOwner (by rw [howner]; rfl) (fun t' ht' => ?_) ?_) c
    · cases ht'
      exact (hk c₀).thread t (by rw [howner]; rfl)
    · rw [howner]; exact id
  | @adopt c₀ hpc =>
    have howner : (s.conns c₀).owner = .adopter t := (ho.adopting c₀).mp (congrArg IoPc.role hpc)
    exact conn_update hk ((hk c₀).adopt (by rw [howner]; rfl)) c
  | @register c₀ k hpc hk' =>
    have howner : (s.conns c₀).owner = .adopter t := (ho.adopting c₀).mp (congrArg IoPc.role hpc)
    refine conn_update hk ((hk c₀).setOwner (by rw [howner]; rfl) (fun t' ht' => ?_) ?_) c
    · cases ht'
      exact (hk c₀).thread t (by rw [howner]; rfl)
    · nofun
  | @reject c₀ hpc =>
    have howner : (s.conns c₀).owner = .adopter t := (ho.adopting c₀).mp (congrArg IoPc.role hpc)
    rw [rejectConnection_conns]
    refine conn_update hk ((hk c₀).release.setOwner ?_ (fun t' ht' => ?_) ?_) c
    · rw [Conn.release_owner, howner]; rfl
    · cases ht'
    · rw [Conn.release_owner, howner]; exact id
  | @closeMark k x hpc =>
    have howner : (s.conns x.conn).owner = .registered t :=
      ho.active x.conn (congrArg IoPc.role hpc)
    rw [markClosing_conns]
    exact conn_update hk ((hk x.conn).markClosing (by rw [howner]; rfl)) c
  | @closeRelease k x hpc =>
    have howner : (s.conns x.conn).owner = .closing t :=
      (ho.closing x.conn).mp (congrArg IoPc.role hpc)
    rw [releaseOwner_conns]
    refine conn_update hk ((hk x.conn).release.setOwner ?_ (fun t' ht' => ?_) ?_) c
    · rw [Conn.release_owner, howner]; rfl
    · cases ht'
      exact (hk x.conn).thread t (by rw [howner]; rfl)
    · nofun
  | msgRelease => exact conn_update hk (hk _).release c
  | readData => exact conn_update hk (hk _).setReading c
  | createTask hpc =>
    exact conn_update hk ((hk _).acquire.addChunk _ (hactive (congrArg IoPc.role hpc))) c
  | createLeak hpc =>
    exact conn_update hk ((hk _).acquire.leak (hactive (congrArg IoPc.role hpc))) c
  | submitLeak hpc =>
    exact conn_update hk
      ((hk _).leak (hactive (hi.submitting t _ (congrArg IoPc.task? hpc)).2)) c
  | backToRead => exact conn_update hk (hk _).setReading c
  | wrote hpc =>
    exact conn_update hk ((hk _).advance _ (hactive (congrArg IoPc.role hpc))) c
  | reset hpc => exact conn_update hk ((hk _).resetWrite (hactive (congrArg IoPc.role hpc))) c
  | _ => exact hk c

/-- A connection that an event loop has accepted stays with it. -/
theorem IoStep.loop_mono (h : IoStep cfg s t s') (hi : Owned s) {c : ConnId} {t' : Fin n}
    (hc : (s.owner c).loop = some t') : (s'.owner c).loop = some t' := by
  rcases h.owner (hi.io t) c with ho | ho
  · rwa [ho]
  · exact (Owner.Step.io t ho).loop_mono hc

/-- What an IO thread puts into the task queue. -/
theorem IoStep.mem_queue (h : IoStep cfg s t s') {task : Task} (ht : task ∈ s'.queue) :
    task ∈ s.queue ∨ (s.io t).pc.task? = some task := by
  cases h with
  | submit hpc hq =>
    rcases List.mem_append.mp ht with ht | ht
    · exact .inl ht
    · cases List.mem_singleton.mp ht
      exact .inr (congrArg IoPc.task? hpc)
  | _ => exact .inl ht

@[simp] theorem task?_afterRead (x : EventContext) : (afterRead x).task? = none := by
  unfold afterRead; split <;> rfl

@[simp] theorem task?_afterFd (x : EventContext) : (afterFd x).task? = none := by
  unfold afterFd; split
  · rfl
  · exact task?_afterRead x

@[simp] theorem task?_afterCheck (k : CloseSite) (x : EventContext) :
    (afterCheck k x).task? = none := by
  unfold afterCheck; split
  · exact task?_afterRead x
  · rfl

/-- A thread does not come to or leave the submission of a task by moving. -/
theorem IoMove.task? {pc pc' : IoPc} (h : IoMove s t pc pc') :
    pc.task? = none ∧ pc'.task? = none := by
  cases h with
  | fdLoaded x => exact ⟨rfl, task?_afterFd _⟩
  | stillValid k x => exact ⟨rfl, task?_afterCheck k x⟩
  | _ => exact ⟨rfl, rfl⟩

/-- The task an IO thread submits is one to process, for the connection it treats. -/
theorem IoStep.submitting (h : IoStep cfg s t s') (hi : Owned s) {t' : Fin n} {task : Task}
    (ht : (s'.io t').pc.task? = some task) :
    task.type = .process ∧ (s'.io t').pc.role = .active task.conn := by
  by_cases htt : t' = t
  · subst htt
    cases h with
    | move hm =>
      simp only [setIoPc_io, Function.update_self] at ht
      rw [hm.task?.2] at ht
      cases ht
    | createTask hpc =>
      simp only [setIoPc_io, Function.update_self] at ht ⊢
      cases ht
      exact ⟨rfl, rfl⟩
    | collectPipe hpc | collectMsg hpc | collectFd hpc =>
      simp only [setIo_io, Function.update_self] at ht
      rw [hpc] at ht
      cases ht
    | reject | closeMark | backToRead =>
      simp only [rejectConnection, State.markClosing, State.backToRead, setIoPc_io,
        Function.update_self] at ht
      cases ht
    | closeRelease =>
      simp only [releaseOwner, setIoPc_io, Function.update_self] at ht
      split at ht <;> cases ht
    | _ =>
      simp only [State.readData, wroteData, setIo_io, setIoPc_io, Function.update_self] at ht
      cases ht
  · rw [h.io_ne htt] at ht ⊢
    exact hi.submitting t' task ht

@[simp] theorem message?_afterRead (x : EventContext) : (afterRead x).message? = none := by
  unfold afterRead; split <;> rfl

@[simp] theorem message?_afterFd (x : EventContext) : (afterFd x).message? = none := by
  unfold afterFd; split
  · rfl
  · exact message?_afterRead x

@[simp] theorem message?_afterCheck (k : CloseSite) (x : EventContext) :
    (afterCheck k x).message? = none := by
  unfold afterCheck; split
  · exact message?_afterRead x
  · rfl

/-- A thread that only moves keeps its message. -/
theorem IoMove.message? {pc pc' : IoPc} (h : IoMove s t pc pc') :
    pc'.message? = pc.message? := by
  cases h with
  | fdLoaded x => exact message?_afterFd _
  | stillValid k x => exact message?_afterCheck k x
  | _ => rfl

/-- An IO thread makes no messages. -/
theorem IoStep.message (h : IoStep cfg s t s') {t' : Fin n} {msg : IoMessage}
    (hm : msg ∈ (s'.io t').msgQueue ∨ (s'.io t').pc.message? = some msg) :
    msg ∈ (s.io t').msgQueue ∨ (s.io t').pc.message? = some msg := by
  by_cases htt : t' = t
  · subst htt
    cases h with
    | move hmv =>
      simp only [setIoPc_io, Function.update_self] at hm
      rwa [hmv.message?] at hm
    | collectPipe | collectMsg | collectFd =>
      simpa only [setIo_io, Function.update_self] using hm
    | drain hpc hq =>
      simp only [setIo_io, Function.update_self] at hm
      rcases hm with hm | hm
      · rw [hq]; exact .inl (.tail _ hm)
      · cases hm; rw [hq]; exact .inl (.head _)
    | msgMod hpc =>
      simp only [setIoPc_io, Function.update_self] at hm
      rcases hm with hm | hm
      · exact .inl hm
      · cases hm; exact .inr (congrArg IoPc.message? hpc)
    | closeRelease =>
      simp only [releaseOwner, setIoPc_io, Function.update_self] at hm
      rcases hm with hm | hm
      · exact .inl hm
      · split at hm <;> cases hm
    | reject | closeMark | backToRead =>
      simp only [rejectConnection, State.markClosing, State.backToRead, setIoPc_io,
        Function.update_self] at hm
      exact .inl (hm.resolve_right (by rintro ⟨⟩))
    | _ =>
      simp only [State.readData, wroteData, setIo_io, setIoPc_io, Function.update_self] at hm
      exact .inl (hm.resolve_right (by rintro ⟨⟩))
  · rwa [h.io_ne htt] at hm

/-- The entries of the interest lists name connections of the thread that wrote them. -/
theorem IoStep.listed (h : IoStep cfg s t s') (hi : Owned s) {t' : Fin n} {f : Fd}
    {r : Registration} (hr : s'.kernel.reg t' f = some r) : (s'.owner r.data).loop = some t' := by
  have hmono : ∀ c, (s.owner c).loop = some t' → (s'.owner c).loop = some t' := fun c hc =>
    h.loop_mono hi hc
  have hold : ∀ r, s.kernel.reg t' f = some r → (s'.owner r.data).loop = some t' := fun r hr =>
    hmono _ (hi.listed t' f r hr)
  cases h with
  | @collectFd f₀ ev r₀ hpc hr₀ =>
    rcases Kernel.reg_of_setReg hr with hr | ⟨rfl, rfl, rfl⟩
    · exact hold _ hr
    · exact hold r₀ hr₀
  | @register c k hpc hk =>
    obtain ⟨f₀, hf₀, hopen, hnone, rfl⟩ := Kernel.eventLoopAdd_eq hk
    rcases Kernel.reg_of_setReg hr with hr | ⟨rfl, rfl, rfl⟩
    · exact hold _ hr
    · simp [Kernel.arm, Owner.loop]
  | @msgMod msg hpc =>
    rcases Kernel.reg_of_eventLoopMod hr with hr | ⟨rfl, hf, hsome, rfl⟩
    · exact hold _ hr
    · exact hmono _ (hi.message t' msg (.inr (congrArg IoPc.message? hpc))).2
  | @backToRead x hpc =>
    rcases Kernel.reg_of_eventLoopMod hr with hr | ⟨rfl, hf, hsome, rfl⟩
    · exact hold _ hr
    · refine hmono _ (Owner.loop_of_known (.inl ((hi.io t').active x.conn ?_)))
      rcases hpc with hpc | hpc <;> exact congrArg IoPc.role hpc
  | closeDel => exact hold _ (Kernel.reg_of_eventLoopDel hr)
  | msgRelease | reject | closeRelease => exact hold _ (reg_of_connRelease hr)
  | closeMark => exact hold _ (reg_of_connMarkClosing hr)
  | readData hpc hk =>
    obtain ⟨sk, -, -, -, -, -, rfl⟩ := Kernel.readBytes_eq hk
    exact hold _ hr
  | wrote hpc hlt hk =>
    obtain ⟨sk, -, -, -, -, rfl⟩ := Kernel.writeBytes_eq hk
    exact hold _ hr
  | _ => exact hold _ hr

/-- No IO thread changes the thread a connection is assigned to: adopting only confirms it. -/
theorem IoStep.ioThread_eq (h : IoStep cfg s t s') (hi : Owned s) (c : ConnId) :
    (s'.conns c).ioThread = (s.conns c).ioThread := by
  have hupdate : ∀ {c₀ : ConnId} {k : Conn n}, k.ioThread = (s.conns c₀).ioThread →
      (Function.update s.conns c₀ k c).ioThread = (s.conns c).ioThread := by
    intro c₀ k hk
    by_cases hc : c = c₀
    · subst hc; simpa using hk
    · simp [hc]
  cases h with
  | readConn | register | readData | createTask | createLeak | submitLeak | backToRead | wrote
  | reset | msgRelease => exact hupdate rfl
  | @adopt c₀ hpc =>
    have howner : s.owner c₀ = .adopter t := ((hi.io t).adopting c₀).mp (congrArg IoPc.role hpc)
    refine hupdate ((hi.conn c₀).thread t ?_).symm
    change (s.owner c₀).home = some t
    rw [howner]; rfl
  | reject => rw [rejectConnection_conns]; exact hupdate rfl
  | closeMark => rw [markClosing_conns]; exact hupdate rfl
  | closeRelease => rw [releaseOwner_conns]; exact hupdate rfl
  | _ => rfl

/-- An IO thread writes no connection that was not created. -/
theorem IoStep.fresh (h : IoStep cfg s t s') (hi : Owned s) {c : ConnId}
    (hc : s.owner c = .unborn) :
    s'.conns c = s.conns c := by
  have ho := hi.io t
  have hne : ∀ {c₀ : ConnId}, s.owner c₀ ≠ .unborn → c ≠ c₀ := by
    rintro c₀ h₀ rfl
    exact h₀ hc
  have hloop : ∀ {c₀ : ConnId} {t₀ : Fin n}, (s.owner c₀).loop = some t₀ → c ≠ c₀ := by
    intro c₀ t₀ hl
    refine hne fun hu => ?_
    rw [hu] at hl
    cases hl
  have hactive : ∀ {c₀ : ConnId}, (s.io t).pc.role = .active c₀ → c ≠ c₀ := fun hr =>
    hloop (Owner.loop_of_known (.inl (ho.active _ hr)))
  cases h with
  | @readConn c₀ rest hpc hp =>
    have howner : s.owner c₀ = .pipe t := (ho.pipe c₀).mp (by simp [hp])
    exact Function.update_of_ne (hne (by rw [howner]; nofun)) _ _
  | adopt hpc | register hpc =>
    have howner := (ho.adopting _).mp (congrArg IoPc.role hpc)
    exact Function.update_of_ne (hne (by rw [howner]; nofun)) _ _
  | reject hpc =>
    have howner := (ho.adopting _).mp (congrArg IoPc.role hpc)
    rw [rejectConnection_conns]
    exact Function.update_of_ne (hne (by rw [howner]; nofun)) _ _
  | msgRelease hpc =>
    exact Function.update_of_ne
      (hloop (hi.message t _ (.inr (congrArg IoPc.message? hpc))).2) _ _
  | readData hpc | createTask hpc | createLeak hpc | wrote hpc | reset hpc =>
    exact Function.update_of_ne (hactive (congrArg IoPc.role hpc)) _ _
  | backToRead hpc =>
    refine Function.update_of_ne (hactive ?_) _ _
    rcases hpc with hpc | hpc <;> exact congrArg IoPc.role hpc
  | submitLeak hpc =>
    exact Function.update_of_ne (hactive (hi.submitting t _ (congrArg IoPc.task? hpc)).2) _ _
  | closeMark hpc =>
    rw [markClosing_conns]
    exact Function.update_of_ne (hactive (congrArg IoPc.role hpc)) _ _
  | closeRelease hpc =>
    have howner := (ho.closing _).mp (congrArg IoPc.role hpc)
    rw [releaseOwner_conns]
    exact Function.update_of_ne (hne (by rw [howner]; nofun)) _ _
  | _ => rfl

/-- The IO threads keep the invariant. -/
theorem IoStep.owned (h : IoStep cfg s t s') (hi : Owned s) : Owned s' := by
  have howner : ∀ c, s'.owner c = s.owner c ∨ Owner.ByIo t (s.owner c) (s'.owner c) :=
    h.owner (hi.io t)
  have hmono : ∀ c, s.Adopted c → s'.Adopted c := fun c ⟨t', ht'⟩ => ⟨t', h.loop_mono hi ht'⟩
  have hunborn : ∀ c, s'.owner c = .unborn ↔ s.owner c = .unborn := by
    intro c
    rcases howner c with ho | ho
    · rw [ho]
    · generalize s.owner c = o, s'.owner c = o' at ho
      cases ho <;> simp
  refine ⟨fun c => ?_, fun c hc => ?_, fun c => ?_, h.conn_ok hi, fun t' c f sk hm => ?_,
    fun t' => ?_, fun task ht => ?_, fun t' task ht => h.submitting hi ht, fun w task ht => ?_,
    fun w => ?_, fun w task t' h1 h2 => ?_, fun t' msg hm => ?_, fun t' f r hr => h.listed hi hr⟩
  · rw [h.nextConn_eq, ← hi.unborn c]
    exact hunborn c
  · have hold := (hunborn c).mp hc
    rw [h.fresh hi hold, hi.fresh c hold]
  · rw [h.main_eq, ← hi.creator c]
    rcases howner c with ho | ho
    · rw [ho]
    · generalize s.owner c = o, s'.owner c = o' at ho
      cases ho <;> simp
  · rw [h.main_eq] at hm
    rw [h.ioThread_eq hi, hi.handoff t' c f sk hm]
  · by_cases ht : t' = t
    · rw [ht]; exact h.io_self hi
    · exact h.io_other hi ht
  · rcases h.mem_queue ht with ht | ht
    · exact (hi.queued task ht).imp_right (hmono _)
    · obtain ⟨h1, h2⟩ := hi.submitting t task ht
      exact ⟨h1, hmono _ ⟨t, Owner.loop_of_known (.inl ((hi.io t).active _ h2))⟩⟩
  · rw [h.worker_eq] at ht
    exact (hi.held w task ht).imp_right (hmono _)
  · rw [h.worker_eq]; exact hi.never_closes w
  · rw [h.worker_eq] at h1 h2
    exact h.loop_mono hi (hi.sending w task t' h1 h2)
  · exact (hi.message t' msg (h.message hm)).imp_right (h.loop_mono hi)

end ioThread

/-! ### The invariant is kept by the workers -/

section worker

variable {cfg : Config n} {s s' : State n m} {w : Fin m}

/-- A worker that only moves keeps its task. -/
theorem WorkerMove.task? {pc pc' : WorkerPc n} (h : WorkerMove cfg s pc pc') :
    pc'.task? = pc.task? := by
  cases h <;> rfl

/-- A worker changes neither the pipe, nor the program point, nor the events of an IO thread. -/
theorem WorkerStep.io_eq (h : WorkerStep cfg s w s') (t : Fin n) :
    (s'.io t).pipe = (s.io t).pipe ∧ (s'.io t).pc = (s.io t).pc ∧
      (s'.io t).batch = (s.io t).batch := by
  cases h with
  | @link task t₀ hpc =>
    by_cases ht : t = t₀
    · subst ht; simp [linkMessage]
    · simp [linkMessage, ht]
  | @notify task t₀ hpc =>
    by_cases ht : t = t₀
    · subst ht; simp
    · simp [ht]
  | _ => exact ⟨rfl, rfl, rfl⟩

/-- The workers keep the fields of the connections in order. -/
theorem WorkerStep.conn_ok (h : WorkerStep cfg s w s') (hi : Owned s) (c : ConnId) :
    (s'.conns c).Ok := by
  have hk := hi.conn
  cases h with
  | @install task hpc hf =>
    obtain ⟨t, hl⟩ := (hi.held w task (congrArg WorkerPc.task? hpc)).2
    refine conn_update hk ((hk task.conn).install task.data ?_) c
    change (s.owner task.conn).loop ≠ none
    rw [hl]
    nofun
  | acquire => exact conn_update hk (hk _).acquire c
  | destroy => exact conn_update hk (hk _).release c
  | closeMark hpc =>
    have := hi.never_closes w
    rw [hpc] at this
    cases this
  | closeRelease => exact conn_update hk (hk _).release c
  | _ => exact hk c

/-- A worker does not change the thread a connection is assigned to. -/
theorem WorkerStep.ioThread_eq (h : WorkerStep cfg s w s') (c : ConnId) :
    (s'.conns c).ioThread = (s.conns c).ioThread := by
  have hupdate : ∀ {c₀ : ConnId} {k : Conn n}, k.ioThread = (s.conns c₀).ioThread →
      (Function.update s.conns c₀ k c).ioThread = (s.conns c).ioThread := by
    intro c₀ k hk
    by_cases hc : c = c₀
    · subst hc; simpa using hk
    · simp [hc]
  cases h with
  | install | acquire | closeMark | closeRelease | destroy => exact hupdate rfl
  | _ => rfl

/-- A worker only takes tasks out of the queue. -/
theorem WorkerStep.mem_queue (h : WorkerStep cfg s w s') {task : Task} (ht : task ∈ s'.queue) :
    task ∈ s.queue := by
  cases h with
  | pop hpc hq => rw [hq]; exact .tail _ ht
  | _ => exact ht

/-- The task a worker holds is one it held before, or the first of the queue. -/
theorem WorkerStep.held (h : WorkerStep cfg s w s') {w' : Fin m} {task : Task}
    (ht : (s'.worker w').task? = some task) :
    (s.worker w').task? = some task ∨ task ∈ s.queue := by
  by_cases hw : w' = w
  · subst hw
    cases h with
    | move hm =>
      simp only [setWorker_worker, Function.update_self] at ht
      rw [hm.task?] at ht
      exact .inl ht
    | pop hpc hq =>
      simp only [setWorker_worker, Function.update_self] at ht
      cases ht
      rw [hq]
      exact .inr (.head _)
    | destroy => simp [WorkerPc.task?] at ht
    | install hpc | acquire hpc | link hpc | notify hpc | closeMark hpc | closeRelease hpc
    | stats hpc =>
      simp only [linkMessage, setWorker_worker, Function.update_self] at ht
      cases ht
      exact .inl (congrArg WorkerPc.task? hpc)
  · rw [h.worker_ne hw] at ht
    exact .inl ht

/-- No worker comes to the branch of `TASK_TYPE_CLOSE`. -/
theorem WorkerStep.never_closes (h : WorkerStep cfg s w s') (hi : Owned s) (w' : Fin m) :
    (s'.worker w').closes = false := by
  by_cases hw : w' = w
  · subst hw
    cases h with
    | @move pc' hm =>
      simp only [setWorker_worker, Function.update_self]
      have hheld := hi.held w'
      generalize s.worker w' = pc at hm hheld
      cases hm with
      | close task ht =>
        have := (hheld task rfl).1
        rw [ht] at this
        cases this
      | _ => rfl
    | closeMark hpc =>
      have := hi.never_closes w'
      rw [hpc] at this
      cases this
    | _ => simp [linkMessage, WorkerPc.closes]
  · rw [h.worker_ne hw]
    exact hi.never_closes w'

/-- A worker sends its message to the thread whose event loop has the connection. -/
theorem WorkerStep.sending (h : WorkerStep cfg s w s') (hi : Owned s) {w' : Fin m} {task : Task}
    {t : Fin n} (h1 : (s'.worker w').task? = some task) (h2 : (s'.worker w').target? = some t) :
    (s.owner task.conn).loop = some t := by
  by_cases hw : w' = w
  · subst hw
    have hold := hi.sending w' task t
    cases h with
    | @move pc' hm =>
      simp only [setWorker_worker, Function.update_self] at h1 h2
      have hheld := hi.held w'
      generalize s.worker w' = pc at hm hheld hold
      cases hm with
      | send task' t' ht hv =>
        cases h1
        cases h2
        obtain ⟨t'', hl⟩ := (hheld task rfl).2
        have hthread := (hi.conn task.conn).thread t'' (Owner.home_of_loop hl)
        rw [ht] at hthread
        cases hthread
        exact hl
      | allocated task' t' => exact hold h1 h2
      | _ => cases h2
    | acquire hpc | link hpc =>
      rw [hpc] at hold
      simp only [linkMessage, setWorker_worker, Function.update_self] at h1 h2
      exact hold h1 h2
    | _ =>
      simp only [setWorker_worker, Function.update_self] at h2
      cases h2
  · rw [h.worker_ne hw] at h1 h2
    exact hi.sending w' task t h1 h2

/-- The messages a worker makes are for the thread it sends them to. -/
theorem WorkerStep.message (h : WorkerStep cfg s w s') (hi : Owned s) {t : Fin n} {msg : IoMessage}
    (hm : msg ∈ (s'.io t).msgQueue ∨ (s'.io t).pc.message? = some msg) :
    msg.type = .responseReady ∧ (s.owner msg.conn).loop = some t := by
  cases h with
  | @link task t₀ hpc =>
    have hsend := hi.sending w task t₀ (congrArg WorkerPc.task? hpc) (congrArg WorkerPc.target? hpc)
    by_cases ht : t = t₀
    · subst ht
      simp only [linkMessage, setWorker_io, setIo_io, Function.update_self, List.mem_append,
        List.mem_singleton] at hm
      rcases hm with (hm | rfl) | hm
      · exact hi.message t msg (.inl hm)
      · exact ⟨rfl, hsend⟩
      · exact hi.message t msg (.inr hm)
    · simp only [linkMessage, setWorker_io, setIo_io, Function.update_of_ne ht] at hm
      exact hi.message t msg hm
  | @notify task t₀ hpc =>
    by_cases ht : t = t₀
    · subst ht
      simp only [setWorker_io, setIo_io, Function.update_self] at hm
      exact hi.message t msg hm
    · simp only [setWorker_io, setIo_io, Function.update_of_ne ht] at hm
      exact hi.message t msg hm
  | _ => exact hi.message t msg hm

/-- A worker only removes entries of the interest lists. -/
theorem WorkerStep.listed (h : WorkerStep cfg s w s') {t : Fin n} {f : Fd} {r : Registration}
    (hr : s'.kernel.reg t f = some r) : s.kernel.reg t f = some r := by
  cases h with
  | closeMark => exact reg_of_connMarkClosing hr
  | closeRelease | destroy => exact reg_of_connRelease hr
  | _ => exact hr

/-- A worker writes no connection that was not created. -/
theorem WorkerStep.fresh (h : WorkerStep cfg s w s') (hi : Owned s) {c : ConnId}
    (hc : s.owner c = .unborn) : s'.conns c = s.conns c := by
  have hne : ∀ {task : Task}, (s.worker w).task? = some task → c ≠ task.conn := by
    rintro task ht rfl
    obtain ⟨t, hl⟩ := (hi.held w task ht).2
    rw [hc] at hl
    cases hl
  cases h with
  | install hpc | acquire hpc | closeMark hpc | closeRelease hpc | destroy hpc =>
    exact Function.update_of_ne (hne (congrArg WorkerPc.task? hpc)) _ _
  | _ => rfl

/-- The workers keep the invariant. -/
theorem WorkerStep.owned (h : WorkerStep cfg s w s') (hi : Owned s) : Owned s' := by
  have howner := h.owner
  have hadopted : ∀ c, s.Adopted c → s'.Adopted c := fun c hc => by
    rwa [State.Adopted, howner]
  refine ⟨fun c => ?_, fun c hc => ?_, fun c => ?_, h.conn_ok hi, fun t c f sk hm => ?_,
    fun t => ?_, fun task ht => ?_, fun t task ht => ?_, fun w' task ht => ?_, h.never_closes hi,
    fun w' task t h1 h2 => ?_, fun t msg hm => ?_, fun t f r hr => ?_⟩
  · rw [howner, h.nextConn_eq]; exact hi.unborn c
  · rw [howner] at hc
    rw [h.fresh hi hc, hi.fresh c hc]
  · rw [howner, h.main_eq]; exact hi.creator c
  · rw [h.main_eq] at hm
    rw [h.ioThread_eq]
    exact hi.handoff t c f sk hm
  · obtain ⟨hp, hpc, hb⟩ := h.io_eq t
    rw [howner]
    exact (hi.io t).congr hp (by rw [hpc]) hb
  · exact (hi.queued task (h.mem_queue ht)).imp_right (hadopted _)
  · rw [(h.io_eq t).2.1] at ht ⊢
    exact hi.submitting t task ht
  · rcases h.held ht with ht | ht
    · exact (hi.held w' task ht).imp_right (hadopted _)
    · exact (hi.queued task ht).imp_right (hadopted _)
  · rw [howner]
    exact h.sending hi h1 h2
  · rw [howner]
    exact h.message hi hm
  · rw [howner]
    exact hi.listed t f r (h.listed hr)

end worker

/-! ### The invariant is kept by the main thread -/

section main

variable {cfg : Config n} {s s' : State n m}

@[simp] theorem creating_nextDestroy (i : ℕ) : (nextDestroy n i).creating = none := by
  unfold nextDestroy; split <;> rfl

/-- The main thread keeps the fields of the connections in order. -/
theorem MainStep.conn_ok (h : MainStep cfg s s') (hi : Owned s) (c : ConnId) : (s'.conns c).Ok := by
  have hk := hi.conn
  cases h with
  | @create t f sk hpc => exact conn_update hk (Conn.Ok.create f sk t) c
  | @handOff t c₀ f sk hpc hlt =>
    have howner : (s.conns c₀).owner = .creator :=
      (hi.creator c₀).mpr (congrArg MainPc.creating hpc)
    refine conn_update hk ((hk c₀).setOwner (by rw [howner]; rfl) (fun t' ht' => ?_) ?_) c
    · cases ht'
      exact hi.handoff t c₀ f sk hpc
    · rw [howner]; exact id
  | @drop c₀ f sk hpc =>
    have howner : (s.conns c₀).owner = .creator :=
      (hi.creator c₀).mpr (congrArg MainPc.creating hpc)
    rw [dropConnection_conns]
    refine conn_update hk ((hk c₀).release.setOwner ?_ (fun t' ht' => ?_) ?_) c
    · rw [Conn.release_owner, howner]; rfl
    · cases ht'
    · rw [Conn.release_owner, howner]; exact id
  | destroyTask => exact conn_update hk (hk _).release c
  | _ => exact hk c

/-- Neither the program points nor the events nor the messages of an IO thread are the main
thread's. -/
theorem MainStep.io_eq (h : MainStep cfg s s') (t : Fin n) :
    (s'.io t).pc = (s.io t).pc ∧ (s'.io t).batch = (s.io t).batch ∧
      (s'.io t).msgQueue = (s.io t).msgQueue := by
  cases h with
  | @handOff t₀ =>
    by_cases ht : t = t₀
    · subst ht; simp
    · simp [ht]
  | @ioFlag t₀ | @ioWake t₀ | @ioFree t₀ =>
    by_cases ht : t = t₀
    · subst ht; simp
    · simp [ht]
  | _ => exact ⟨rfl, rfl, rfl⟩

/-- The IO threads stay in their places while the main thread proceeds. -/
theorem MainStep.io (h : MainStep cfg s s') (hi : Owned s) (t : Fin n) :
    IoOwned s'.owner t (s'.io t) := by
  cases h with
  | @create t₀ f sk hpc =>
    have ho : s.owner s.nextConn = .unborn := (hi.unborn _).mpr le_rfl
    have howner : (s.createConnection t₀ f sk).owner =
        Function.update s.owner s.nextConn .creator :=
      owner_setConn s s.nextConn (Conn.create f sk t₀)
    rw [howner]
    exact (hi.io t).rely_update (by rw [ho]; rintro ⟨⟩) (by rintro ⟨⟩)
  | @handOff t₀ c f sk hpc hlt =>
    have ho : s.owner c = .creator := (hi.creator c).mpr (congrArg MainPc.creating hpc)
    have howner : (s.handOff t₀ c).owner = Function.update s.owner c (.pipe t₀) :=
      owner_setConn s c ((s.conns c).setOwner (.pipe t₀))
    rw [howner, handOff_io]
    by_cases ht : t = t₀
    · subst ht
      rw [Function.update_self]
      exact (hi.io t).handOff ho rfl rfl rfl
    · rw [Function.update_of_ne ht]
      refine (hi.io t).rely_update (by rw [ho]; rintro ⟨⟩) fun hh => ?_
      cases hh
      exact ht rfl
  | @drop c f sk hpc =>
    have ho : s.owner c = .creator := (hi.creator c).mpr (congrArg MainPc.creating hpc)
    rw [dropConnection, owner_setMain, owner_setConn, owner_connRelease]
    exact (hi.io t).rely_update (by rw [ho]; rintro ⟨⟩) (by rintro ⟨⟩)
  | @ioFlag t₀ | @ioFree t₀ =>
    by_cases ht : t = t₀
    · subst ht
      simp only [owner_setMain, owner_setIo, setMain_io, setIo_io, Function.update_self]
      exact (hi.io t).congr rfl rfl rfl
    · simp only [owner_setMain, owner_setIo, setMain_io, setIo_io, Function.update_of_ne ht]
      exact hi.io t
  | @ioWake t₀ =>
    by_cases ht : t = t₀
    · subst ht
      simp only [owner_setMain, owner_setIo, setMain_io, setIo_io, Function.update_self]
      exact (hi.io t).wake (by simp) rfl rfl
    · simp only [owner_setMain, owner_setIo, setMain_io, setIo_io, Function.update_of_ne ht]
      exact hi.io t
  | destroyTask =>
    rw [owner_setQueue, owner_connRelease]
    exact hi.io t
  | _ => exact hi.io t

/-- A connection that an event loop has accepted stays with it. -/
theorem MainStep.loop_mono (h : MainStep cfg s s') (hi : Owned s) {c : ConnId} {t : Fin n}
    (hc : (s.owner c).loop = some t) : (s'.owner c).loop = some t := by
  rcases h.owner hi c with ho | ho
  · rwa [ho]
  · exact (Owner.Step.main ho).loop_mono hc

/-- The main thread owns what it creates, and nothing else. -/
theorem MainStep.creator (h : MainStep cfg s s') (hi : Owned s) (c : ConnId) :
    s'.owner c = .creator ↔ s'.main.creating = some c := by
  have hold := hi.creator c
  cases h with
  | @create t₀ f sk hpc =>
    have howner : (s.createConnection t₀ f sk).owner =
        Function.update s.owner s.nextConn .creator :=
      owner_setConn s s.nextConn (Conn.create f sk t₀)
    rw [howner, createConnection_main]
    by_cases hc : c = s.nextConn
    · subst hc; simp [MainPc.creating]
    · rw [Function.update_of_ne hc, hold, hpc]
      simp [MainPc.creating, Ne.symm hc]
  | @handOff t₀ c₀ f sk hpc hlt =>
    have howner : (s.handOff t₀ c₀).owner = Function.update s.owner c₀ (.pipe t₀) :=
      owner_setConn s c₀ ((s.conns c₀).setOwner (.pipe t₀))
    rw [howner, handOff_main]
    by_cases hc : c = c₀
    · subst hc; simp [MainPc.creating]
    · rw [Function.update_of_ne hc, hold, hpc]
      simp [MainPc.creating, Ne.symm hc]
  | @drop c₀ f sk hpc =>
    rw [dropConnection, owner_setMain, owner_setConn, owner_connRelease, setMain_main]
    by_cases hc : c = c₀
    · subst hc; simp [MainPc.creating]
    · rw [Function.update_of_ne hc, hold, hpc]
      simp [MainPc.creating, Ne.symm hc]
  | handOffFailed hpc => rw [owner_setMain, hold, hpc]; rfl
  | getThread hpc | poolShutdown hpc | queueShutdown hpc =>
    change s.owner c = _ ↔ _
    rw [hold, hpc]; rfl
  | acceptIntr => exact hold
  | destroyTask =>
    rw [owner_setQueue, owner_connRelease]
    exact hold
  | destroyLoop hpc | ioFree hpc =>
    simp only [owner_setMain, owner_setKernel, owner_setIo, setMain_main, creating_nextDestroy]
    rw [hold, hpc]; rfl
  | woken hpc | stop hpc | accept hpc | acceptAgain hpc | acceptFailed hpc | noThread hpc
  | createFailed hpc | closeClient hpc | closeListen hpc | ioFlag hpc | ioWake hpc
  | ioWakeFailed hpc | ioJoin hpc | ioLoop hpc | ioClose0 hpc | ioClose1 hpc | joinWorkers hpc
  | destroyed hpc =>
    simp only [owner_setMain, owner_setKernel, owner_setIo, setMain_main]
    rw [hold, hpc]; rfl

/-- What the main thread still has to hand over is assigned to the thread it hands it to. -/
theorem MainStep.handoff (h : MainStep cfg s s') (hi : Owned s) {t : Fin n} {c : ConnId} {f : Fd}
    {sk : SockId} (hm : s'.main = .handoff t c f sk) : (s'.conns c).ioThread = some t := by
  cases h with
  | create hpc =>
    cases hm
    simp [Conn.create]
  | destroyLoop | ioFree =>
    simp only [setMain_main] at hm
    rw [nextDestroy] at hm
    split at hm <;> cases hm
  | acceptIntr => exact hi.handoff t c f sk hm
  | destroyTask hpc =>
    change s.main = _ at hm
    rw [hpc] at hm
    cases hm
  | _ => cases hm

/-- The main thread adds no tasks. -/
theorem MainStep.mem_queue (h : MainStep cfg s s') {task : Task} (ht : task ∈ s'.queue) :
    task ∈ s.queue := by
  cases h with
  | destroyTask hpc hq => rw [hq]; exact .tail _ ht
  | _ => exact ht

/-- The main thread only removes entries of the interest lists. -/
theorem MainStep.listed (h : MainStep cfg s s') {t : Fin n} {f : Fd} {r : Registration}
    (hr : s'.kernel.reg t f = some r) : s.kernel.reg t f = some r := by
  cases h with
  | drop | destroyTask => exact reg_of_connRelease hr
  | closeClient | closeListen | destroyLoop | ioClose0 | ioClose1 => exact Kernel.reg_of_close hr
  | @ioLoop t₀ hpc =>
    simp only [setMain_kernel, setKernel_kernel, Kernel.dropLoop_reg] at hr
    by_cases ht : t = t₀
    · subst ht; simp at hr
    · rw [Function.update_of_ne ht] at hr
      exact Kernel.reg_of_close hr
  | _ => exact hr

/-- The connections that were not created stay as they are. -/
theorem MainStep.unborn (h : MainStep cfg s s') (hi : Owned s) (c : ConnId) :
    (s'.owner c = .unborn ↔ s'.nextConn ≤ c) ∧ (s'.owner c = .unborn → s'.conns c = s.conns c) := by
  have hold := hi.unborn c
  have hmoved : ∀ {c₀ : ConnId} {k : Conn n}, s.owner c₀ ≠ .unborn → k.owner ≠ .unborn →
      ((s.setConn c₀ k).owner c = .unborn ↔ s.nextConn ≤ c) ∧
        ((s.setConn c₀ k).owner c = .unborn → (s.setConn c₀ k).conns c = s.conns c) := by
    intro c₀ k h₀ hk
    rw [owner_setConn, ← hold]
    by_cases hc : c = c₀
    · subst hc; simp [h₀, hk]
    · simp [hc]
  cases h with
  | @create t₀ f sk hpc =>
    have howner : (s.createConnection t₀ f sk).owner =
        Function.update s.owner s.nextConn .creator :=
      owner_setConn s s.nextConn (Conn.create f sk t₀)
    rw [howner, createConnection_nextConn]
    by_cases hc : c = s.nextConn
    · subst hc; simp
    · rw [Function.update_of_ne hc, hold]
      exact ⟨(Nat.lt_iff_le_and_ne.trans (and_iff_left (Ne.symm hc))).symm, fun _ =>
        Function.update_of_ne hc _ _⟩
  | @handOff t₀ c₀ f sk hpc hlt =>
    have ho : s.owner c₀ = .creator := (hi.creator c₀).mpr (congrArg MainPc.creating hpc)
    exact hmoved (k := (s.conns c₀).setOwner (.pipe t₀)) (by rw [ho]; nofun) nofun
  | @drop c₀ f sk hpc =>
    have ho : s.owner c₀ = .creator := (hi.creator c₀).mpr (congrArg MainPc.creating hpc)
    have hm := hmoved (k := (s.conns c₀).release.setOwner .dropped) (by rw [ho]; nofun) nofun
    rwa [State.owner, setConn_conns, ← dropConnection_conns s c₀ f sk] at hm
  | @destroyTask task rest hpc hq =>
    obtain ⟨t, hl⟩ := (hi.queued task (by simp [hq])).2
    have hne : s.owner task.conn ≠ .unborn := by
      intro hu
      rw [hu] at hl
      cases hl
    exact hmoved (k := (s.conns task.conn).release) hne hne
  | _ => exact ⟨hold, fun _ => rfl⟩

/-- The main thread keeps the invariant. -/
theorem MainStep.owned (h : MainStep cfg s s') (hi : Owned s) : Owned s' := by
  have hadopted : ∀ c, s.Adopted c → s'.Adopted c := fun c ⟨t, ht⟩ => ⟨t, h.loop_mono hi ht⟩
  refine ⟨fun c => (h.unborn hi c).1, fun c hc => ?_, h.creator hi, h.conn_ok hi,
    fun t c f sk hm => h.handoff hi hm, h.io hi, fun task ht => ?_, fun t task ht => ?_,
    fun w task ht => ?_, fun w => ?_, fun w task t h1 h2 => ?_, fun t msg hm => ?_,
    fun t f r hr => ?_⟩
  · have hold : s.owner c = .unborn := by
      rcases h.owner hi c with ho | ho
      · rw [← ho, hc]
      · exact absurd hc (Owner.Step.main ho).held_or_unborn.2
    rw [(h.unborn hi c).2 hc, hi.fresh c hold]
  · exact (hi.queued task (h.mem_queue ht)).imp_right (hadopted _)
  · rw [(h.io_eq t).1] at ht ⊢
    exact hi.submitting t task ht
  · rw [h.worker_eq] at ht
    exact (hi.held w task ht).imp_right (hadopted _)
  · rw [h.worker_eq]; exact hi.never_closes w
  · rw [h.worker_eq] at h1 h2
    exact h.loop_mono hi (hi.sending w task t h1 h2)
  · obtain ⟨hpc, -, hq⟩ := h.io_eq t
    rw [hpc, hq] at hm
    exact (hi.message t msg hm).imp_right (h.loop_mono hi)
  · exact h.loop_mono hi (hi.listed t f r (h.listed hr))

end main

/-! ### The invariant holds in every run -/

section run

variable {cfg : Config n} {s s' : State n m}

/-- The clients move no entry of an interest list to another connection. -/
theorem EnvStep.listed (h : EnvStep s s') {t : Fin n} {f : Fd} {r' : Registration}
    (hr : s'.kernel.reg t f = some r') :
    ∃ r, s.kernel.reg t f = some r ∧ r.data = r'.data ∧ r.mask = r'.mask := by
  cases h with
  | arrive => exact ⟨r', hr, rfl, rfl⟩
  | @sock f₀ sk v rd wr =>
    simp only [setKernel_kernel, Kernel.signal, Kernel.setSock_reg] at hr
    by_cases hf : f = f₀
    · subst hf
      rw [Function.update_self] at hr
      obtain ⟨r, hold, rfl⟩ := Option.map_eq_some_iff.mp hr
      exact ⟨r, hold, rfl, rfl⟩
    · rw [Function.update_of_ne hf] at hr
      exact ⟨r', hr, rfl, rfl⟩

/-- The clients keep the invariant. -/
theorem EnvStep.owned (h : EnvStep s s') (hi : Owned s) : Owned s' := by
  have hlisted : ∀ t f r, s'.kernel.reg t f = some r → (s.owner r.data).loop = some t := by
    intro t f r hr
    obtain ⟨r₀, hr₀, hd, -⟩ := h.listed hr
    rw [← hd]
    exact hi.listed t f r₀ hr₀
  cases h <;> exact ⟨hi.unborn, hi.fresh, hi.creator, hi.conn, hi.handoff, hi.io, hi.queued,
    hi.submitting, hi.held, hi.never_closes, hi.sending, hi.message, hlisted⟩

/-- The server starts without connections. -/
theorem owned_start (cfg : Config n) : Owned (State.start cfg : State n m) := by
  refine ⟨fun c => ?_, fun c _ => rfl, fun c => ?_, fun c => Conn.Ok.unborn,
    by intros; contradiction, fun t => ?_, by rintro _ ⟨⟩, by rintro _ _ ⟨⟩, by rintro _ _ ⟨⟩,
    fun w => rfl, by rintro _ _ _ ⟨⟩, fun t msg hm => ?_, by rintro _ _ _ ⟨⟩⟩
  · simp [State.owner, State.start, Conn.unborn]
  · simp [State.owner, State.start, Conn.unborn, MainPc.creating]
  · refine ⟨fun c => ?_, fun c => ?_, fun c => ?_, fun c => ?_, by rintro _ ⟨⟩, by rintro _ ⟨⟩,
      by rintro _ _ ⟨⟩⟩ <;>
      simp [State.owner, State.start, Conn.unborn, IoThread.start, IoPc.role]
  · rcases hm with hm | hm <;> cases hm

/-- Every step of the server keeps the invariant. -/
theorem ServerStep.owned (h : ServerStep cfg s s') (hi : Owned s) : Owned s' := by
  cases h with
  | main h => exact h.owned hi
  | io t h => exact h.owned hi
  | worker w h => exact h.owned hi
  | env h => exact h.owned hi

/-- The ownership invariant holds in every reachable state. -/
theorem reachable_owned (h : (server m cfg).Reachable s) : Owned s :=
  TransitionSystem.Reachable.invariant (fun _ h => h ▸ owned_start cfg)
    (fun _ _ _ _ hi hs => (step_spec hs).owned hi) h

/-- Every step of the server moves an owner along the life cycle, or leaves it. -/
theorem ServerStep.owner (h : ServerStep cfg s s') (hi : Owned s) (c : ConnId) :
    s'.owner c = s.owner c ∨ Owner.Step (s.owner c) (s'.owner c) := by
  cases h with
  | main h => exact (h.owner hi c).imp_right .main
  | io t h => exact (h.owner (hi.io t) c).imp_right (.io t)
  | worker w h => rw [h.owner]; exact .inl rfl
  | env h => cases h <;> exact .inl rfl

/-- What the others do leaves an IO thread where it is, with the events and the connections it
has. -/
theorem ServerStep.own_or_other (h : ServerStep cfg s s') (hi : Owned s) (t : Fin n) :
    IoStep cfg s t s' ∨ ((s'.io t).pc = (s.io t).pc ∧ (s'.io t).batch = (s.io t).batch ∧
      ∀ c, s'.owner c = .registered t ↔ s.owner c = .registered t) := by
  cases h with
  | main h =>
    obtain ⟨hpc, hb, -⟩ := h.io_eq t
    refine .inr ⟨hpc, hb, fun c => ?_⟩
    rcases h.owner hi c with ho | ho
    · rw [ho]
    · generalize s.owner c = o, s'.owner c = o' at ho
      cases ho <;> simp
  | io t₀ h =>
    by_cases ht : t = t₀
    · subst ht
      exact .inl h
    · refine .inr ⟨by rw [h.io_ne ht], by rw [h.io_ne ht], fun c => ?_⟩
      rcases h.owner (hi.io t₀) c with ho | ho
      · rw [ho]
      · generalize s.owner c = o, s'.owner c = o' at ho
        cases ho <;> simp [Ne.symm ht]
  | worker w h =>
    obtain ⟨-, hpc, hb⟩ := h.io_eq t
    exact .inr ⟨hpc, hb, fun c => by rw [h.owner]⟩
  | env h => cases h <;> exact .inr ⟨rfl, rfl, fun c => Iff.rfl⟩

/-- In every run each connection follows the life cycle. -/
theorem reachable_owner (h : (server m cfg).Reachable s) (c : ConnId) :
    Relation.ReflTransGen Owner.Step .unborn (s.owner c) := by
  refine TransitionSystem.ReachableUnder.simulation (f := fun s => s.owner c) ?_ ?_ h
  · rintro _ rfl
    rfl
  · intro s a s' hr _ hs
    rcases (step_spec hs).owner (reachable_owned hr) c with ho | ho
    · rw [ho]
    · exact .single ho

end run

end DeepInIo.AdvancedServer
