import DeepInIo.AdvancedServer.Invariant
import DeepInIo.Foundation.ThreadSum

/-!
# Reference counting

A reference to a connection is held by its owner, by a task or by a message, or it was leaked.  The
file counts the holders and proves that `ref_count` is their number in every reachable state
(`reachable_counted`), whatever the interleaving of the threads.  What follows about `conn_acquire`,
`conn_release` and `free` is `refCount_accounting`.
-/

namespace DeepInIo.AdvancedServer

open State

variable {n m : ℕ}

/-! ### Holders -/

/-- Whether an optional connection is `c`, as a number. -/
def named (o : Option ConnId) (c : ConnId) : ℕ :=
  if o = some c then 1 else 0

@[simp] theorem named_none (c : ConnId) : named none c = 0 := rfl

@[simp] theorem named_self (c : ConnId) : named (some c) c = 1 := by
  simp [named]

/-- The connection of the message a worker has acquired a reference for and not appended yet. -/
def WorkerPc.linking? : WorkerPc n → Option ConnId
  | .sendLink task _ => some task.conn
  | _ => none

/-- The references an owner holds. -/
def Owner.refs (o : Owner n) : ℕ :=
  o.held.toNat

/-- The tasks of a list that name `c`. -/
def taskRefs (q : List Task) (c : ConnId) : ℕ :=
  q.countP fun task => task.conn = c

/-- The messages of a list that name `c`. -/
def messageRefs (q : List IoMessage) (c : ConnId) : ℕ :=
  q.countP fun msg => msg.conn = c

namespace State

variable (s : State n m) (c : ConnId)

/-- The owner reference, when it has not been released. -/
def ownerRefs : ℕ :=
  (s.owner c).refs

/-- The tasks for a connection that are being submitted, queued or held by a worker. -/
def taskRefs : ℕ :=
  AdvancedServer.taskRefs s.queue c + ∑ w, named ((s.worker w).task?.map (·.conn)) c +
    ∑ t, named ((s.io t).pc.task?.map (·.conn)) c

/-- The messages for a connection that are being linked, queued or being handled. -/
def messageRefs : ℕ :=
  ∑ w, named (s.worker w).linking? c +
    ∑ t, (AdvancedServer.messageRefs (s.io t).msgQueue c +
      named ((s.io t).pc.message?.map (·.conn)) c)

/-- All references to a connection, the leaked ones included. -/
def refs : ℕ :=
  s.ownerRefs c + s.taskRefs c + s.messageRefs c + (s.conns c).leaked

end State

/-! ### One connection -/

namespace Conn

/-- The references of a connection that neither its owner nor a leak accounts for. -/
def surplus (k : Conn n) : ℤ :=
  k.refCount - k.owner.refs - k.leaked

/-- The count is not negative, and the object has been freed once exactly if it is zero. -/
structure Counted (k : Conn n) : Prop where
  nonneg : 0 ≤ k.refCount
  frees : k.frees = if k.owner ≠ .unborn ∧ k.refCount = 0 then 1 else 0

variable {k : Conn n}

@[simp] theorem surplus_acquire : k.acquire.surplus = k.surplus + 1 := by
  simp only [surplus, acquire_refCount, acquire_owner, acquire_leaked]; omega

@[simp] theorem surplus_release : k.release.surplus = k.surplus - 1 := by
  simp only [surplus, release_refCount, release_owner, release_leaked]; omega

@[simp] theorem surplus_leak : k.leak.surplus = k.surplus - 1 := by
  simp only [surplus, leak_refCount, leak_owner, leak_leaked]; omega

@[simp] theorem surplus_setOwner (o : Owner n) :
    (k.setOwner o).surplus = k.surplus + k.owner.refs - o.refs := by
  simp only [surplus, setOwner_refCount, setOwner_owner, setOwner_leaked]; omega

/-- The owner reference moves between places that hold it. -/
theorem surplus_move {o : Owner n} (h : o.held = k.owner.held) :
    (k.setOwner o).surplus = k.surplus := by
  rw [surplus_setOwner, Owner.refs, Owner.refs, h]
  omega

/-- The owner reference is released. -/
theorem surplus_giveUp {o : Owner n} (h : k.owner.held = true) (ho : o.held = false) :
    (k.release.setOwner o).surplus = k.surplus := by
  rw [surplus_setOwner, surplus_release, release_owner, Owner.refs, Owner.refs, h, ho]
  simp

namespace Counted

theorem unborn : (Conn.unborn n).Counted := ⟨le_rfl, rfl⟩

theorem create (f : Fd) (s : SockId) (t : Fin n) : (Conn.create f s t).Counted :=
  ⟨Int.zero_le_ofNat 1, rfl⟩

/-- `conn_acquire` of a connection that is not freed. -/
theorem acquire (h : k.Counted) (hpos : 0 < k.refCount) : k.acquire.Counted := by
  refine ⟨by simp; omega, ?_⟩
  have hf := h.frees
  rw [if_neg (by omega)] at hf
  rw [acquire_frees, hf, acquire_refCount, if_neg (by omega)]

/-- `conn_release` frees the connection when it takes away the last reference. -/
theorem release (h : k.Counted) (hpos : 0 < k.refCount) (hborn : k.owner ≠ .unborn) :
    k.release.Counted := by
  refine ⟨by simp; omega, ?_⟩
  have hf := h.frees
  rw [if_neg (by omega)] at hf
  rw [release_frees, hf, release_refCount, release_owner]
  by_cases hlast : k.refCount = 1
  · simp [lastRelease, hlast, hborn]
  · have hmore : ¬k.refCount - 1 ≤ 0 := by omega
    rw [lastRelease, if_neg (by simpa using hmore), if_neg (by omega)]

/-- A change that keeps the count, the place of the owner in life and the number of frees. -/
theorem congr {k' : Conn n} (h : k.Counted) (hc : k'.refCount = k.refCount)
    (ho : k'.owner = .unborn ↔ k.owner = .unborn) (hf : k'.frees = k.frees) : k'.Counted := by
  refine ⟨hc ▸ h.nonneg, ?_⟩
  rw [hf, hc, h.frees]
  simp [ho]

theorem setOwner (h : k.Counted) (o : Owner n) (hb : k.owner ≠ .unborn) (ho : o ≠ .unborn) :
    (k.setOwner o).Counted :=
  h.congr rfl (iff_of_false ho hb) rfl

end Counted

end Conn

/-! ### The references held by threads -/

/-- The references a worker holds. -/
def WorkerPc.refs (pc : WorkerPc n) (c : ConnId) : ℕ :=
  named (pc.task?.map (·.conn)) c + named pc.linking? c

/-- The references an IO thread holds in its hands and in its message list. -/
def IoThread.refs (th : IoThread) (c : ConnId) : ℕ :=
  named (th.pc.task?.map (·.conn)) c +
    (messageRefs th.msgQueue c + named (th.pc.message?.map (·.conn)) c)

namespace State

variable (s : State n m) (c : ConnId)

/-- The counted references that are neither the owner's, nor leaked, nor in the task queue. -/
def credit : ℤ :=
  (s.conns c).surplus - AdvancedServer.taskRefs s.queue c

/-- The references are those of the queue and of the threads, besides the owner's and the leaked
ones. -/
theorem refs_eq :
    s.refs c = s.ownerRefs c + (s.conns c).leaked + AdvancedServer.taskRefs s.queue c +
      ∑ w, (s.worker w).refs c + ∑ t, (s.io t).refs c := by
  simp only [refs, taskRefs, messageRefs, WorkerPc.refs, IoThread.refs, Finset.sum_add_distrib]
  omega

/-- The count is right exactly when the threads hold what is credited to them. -/
theorem refCount_eq_refs_iff :
    (s.conns c).refCount = s.refs c ↔
      s.credit c = (∑ w, (s.worker w).refs c : ℕ) + (∑ t, (s.io t).refs c : ℕ) := by
  rw [refs_eq, credit, Conn.surplus, ownerRefs, State.owner]
  omega

@[simp] theorem credit_setIo (t : Fin n) (th : IoThread) :
    (s.setIo t th).credit c = s.credit c := rfl

@[simp] theorem credit_setIoPc (t : Fin n) (pc : IoPc) :
    (s.setIoPc t pc).credit c = s.credit c := rfl

@[simp] theorem credit_setWorker (w : Fin m) (pc : WorkerPc n) :
    (s.setWorker w pc).credit c = s.credit c := rfl

@[simp] theorem credit_setMain (pc : MainPc n) : (s.setMain pc).credit c = s.credit c := rfl

@[simp] theorem credit_setKernel (k : Kernel n) : (s.setKernel k).credit c = s.credit c := rfl

theorem credit_setQueue (q : List Task) :
    (s.setQueue q).credit c =
      s.credit c + AdvancedServer.taskRefs s.queue c - AdvancedServer.taskRefs q c := by
  simp only [credit, setQueue_conns, setQueue_queue]
  omega

variable {s c}
variable {s' : State n m} {c₀ : ConnId} {k : Conn n} {o : Owner n}

/-- Writing a connection changes its own credit by the change of its surplus. -/
theorem credit_update (d : ℤ) (hs : s'.conns = Function.update s.conns c₀ k)
    (hq : s'.queue = s.queue) (hk : k.surplus = (s.conns c₀).surplus + d) :
    s'.credit c = s.credit c + d * named (some c₀) c := by
  simp only [credit, hs, hq]
  by_cases hc : c = c₀
  · subst hc
    rw [Function.update_self, hk, named_self]
    omega
  · rw [Function.update_of_ne hc, named, if_neg (by simpa using Ne.symm hc)]
    omega

/-- Writing a connection without touching its references changes no credit. -/
theorem credit_same (hs : s'.conns = Function.update s.conns c₀ k) (hq : s'.queue = s.queue)
    (hk : k.surplus = (s.conns c₀).surplus) : s'.credit c = s.credit c := by
  rw [credit_update 0 hs hq (hk.trans (add_zero _).symm)]
  omega

/-- Moving the owner reference between places that hold it changes no credit. -/
theorem credit_move (hs : s'.conns = Function.update s.conns c₀ (k.setOwner o))
    (hq : s'.queue = s.queue) (hk : k.surplus = (s.conns c₀).surplus)
    (ho : o.held = k.owner.held) : s'.credit c = s.credit c :=
  credit_same hs hq ((Conn.surplus_move ho).trans hk)

/-- Giving up the owner reference changes no credit. -/
theorem credit_giveUp (hs : s'.conns = Function.update s.conns c₀ ((s.conns c₀).release.setOwner o))
    (hq : s'.queue = s.queue) (hheld : (s.owner c₀).held = true) (ho : o.held = false) :
    s'.credit c = s.credit c :=
  credit_same hs hq (Conn.surplus_giveUp hheld ho)

end State

section steps

variable {cfg : Config n} {s s' : State n m} {t : Fin n} {w : Fin m}

/-- A step of an IO thread changes the credit as it changes the references the thread holds. -/
theorem IoStep.credit (h : IoStep cfg s t s') (hi : Owned s) (c : ConnId) :
    s'.credit c = s.credit c + (s'.io t).refs c - (s.io t).refs c := by
  have ho := hi.io t
  cases h with
  | move hm =>
    obtain ⟨h1, h2⟩ := hm.task?
    simp [IoThread.refs, h1, h2, hm.message?]
  | collectPipe hpc | collectMsg hpc | collectFd hpc => simp [IoThread.refs]
  | nextPipe hpc | nextMsg hpc | nextConn hpc | readWake hpc | msgRead hpc | msgMod hpc
  | closeDel hpc => simp [IoThread.refs, hpc, IoPc.task?, IoPc.message?]
  | @readConn c₀ rest hpc hp =>
    have howner : (s.conns c₀).owner = .pipe t := (ho.pipe c₀).mp (by simp [hp])
    refine Eq.trans (State.credit_move rfl rfl rfl (by rw [howner]; rfl)) ?_
    simp [IoThread.refs, hpc, IoPc.task?, IoPc.message?]
  | adopt hpc =>
    refine Eq.trans (State.credit_same rfl rfl rfl) ?_
    simp [IoThread.refs, hpc, IoPc.task?, IoPc.message?]
  | readData hpc | wrote hpc | reset hpc =>
    refine Eq.trans (State.credit_same rfl rfl rfl) ?_
    simp [IoThread.refs, hpc, IoPc.task?, IoPc.message?, State.readData, wroteData]
  | backToRead hpc =>
    refine Eq.trans (State.credit_same rfl rfl rfl) ?_
    rcases hpc with hpc | hpc <;>
      simp [IoThread.refs, hpc, IoPc.task?, IoPc.message?, State.backToRead]
  | @register c₀ k hpc hk =>
    have howner : (s.conns c₀).owner = .adopter t := (ho.adopting c₀).mp (congrArg IoPc.role hpc)
    refine Eq.trans (State.credit_move rfl rfl rfl (by rw [howner]; rfl)) ?_
    simp [IoThread.refs, hpc, IoPc.task?, IoPc.message?]
  | @reject c₀ hpc =>
    have howner : s.owner c₀ = .adopter t := (ho.adopting c₀).mp (congrArg IoPc.role hpc)
    refine Eq.trans (State.credit_giveUp (rejectConnection_conns s t c₀) rfl
      (by rw [howner]; rfl) rfl) ?_
    simp [IoThread.refs, hpc, IoPc.task?, IoPc.message?, rejectConnection]
  | drain hpc hq =>
    simp [IoThread.refs, hpc, hq, IoPc.task?, IoPc.message?, messageRefs, named,
      List.countP_cons]
  | @msgRelease msg hpc =>
    refine Eq.trans (State.credit_update (-1) rfl rfl Conn.surplus_release) ?_
    simp [IoThread.refs, hpc, IoPc.task?, IoPc.message?]
    omega
  | @createTask x data hpc =>
    refine Eq.trans (State.credit_update 1 rfl rfl Conn.surplus_acquire) ?_
    simp [IoThread.refs, hpc, IoPc.task?, IoPc.message?]
    omega
  | @createLeak x data hpc =>
    have hk : (s.conns x.conn).acquire.leak.surplus = (s.conns x.conn).surplus := by
      rw [Conn.surplus_leak, Conn.surplus_acquire]
      omega
    refine Eq.trans (State.credit_same rfl rfl hk) ?_
    simp [IoThread.refs, hpc, IoPc.task?, IoPc.message?]
  | @submitLeak x task hpc hs =>
    refine Eq.trans (State.credit_update (-1) rfl rfl Conn.surplus_leak) ?_
    simp [IoThread.refs, hpc, IoPc.task?, IoPc.message?]
    omega
  | @submit x task hpc hq =>
    rw [credit_setIoPc, credit_setQueue]
    simp [IoThread.refs, hpc, IoPc.task?, IoPc.message?, taskRefs, named, List.countP_append]
    omega
  | @closeMark k x hpc =>
    have howner : (s.conns x.conn).owner = .registered t :=
      ho.active x.conn (congrArg IoPc.role hpc)
    refine Eq.trans (State.credit_move (markClosing_conns s t k x) rfl rfl
      (by rw [Conn.markClosing_owner, howner]; rfl)) ?_
    simp [IoThread.refs, hpc, IoPc.task?, IoPc.message?, State.markClosing]
  | @closeRelease k x hpc =>
    have howner : s.owner x.conn = .closing t := (ho.closing x.conn).mp (congrArg IoPc.role hpc)
    refine Eq.trans (State.credit_giveUp (releaseOwner_conns s t k x) rfl
      (by rw [howner]; rfl) rfl) ?_
    simp only [IoThread.refs, hpc, releaseOwner, setIoPc_io, Function.update_self]
    split <;> simp [IoPc.task?, IoPc.message?]

/-- A step of a worker changes the credit as it changes the references held by it and by the IO
threads, to which it passes messages. -/
theorem WorkerStep.credit (h : WorkerStep cfg s w s') (hi : Owned s) (c : ConnId) :
    s'.credit c = s.credit c + (s'.worker w).refs c - (s.worker w).refs c +
      (∑ t, (s'.io t).refs c : ℕ) - (∑ t, (s.io t).refs c : ℕ) := by
  cases h with
  | @move pc' hm =>
    have hlink : ∀ {pc pc' : WorkerPc n}, WorkerMove cfg s pc pc' →
        pc'.linking? = none ∧ pc.linking? = none := by
      rintro _ _ (_ | _) <;> exact ⟨rfl, rfl⟩
    obtain ⟨h1, h2⟩ := hlink hm
    simp [WorkerPc.refs, hm.task?, h1, h2]
  | @pop task rest hpc hq =>
    rw [credit_setWorker, credit_setQueue, hq]
    simp [WorkerPc.refs, hpc, WorkerPc.task?, WorkerPc.linking?, taskRefs, named, List.countP_cons]
    omega
  | install hpc hf =>
    refine Eq.trans (State.credit_same rfl rfl rfl) ?_
    simp [WorkerPc.refs, hpc, WorkerPc.task?, WorkerPc.linking?]
  | acquire hpc =>
    refine Eq.trans (State.credit_update 1 rfl rfl Conn.surplus_acquire) ?_
    simp [WorkerPc.refs, hpc, WorkerPc.task?, WorkerPc.linking?]
    omega
  | @link task t hpc =>
    have hsum := threadSum_update s.io t { s.io t with
      msgQueue := (s.io t).msgQueue ++ [{ type := .responseReady, conn := task.conn }] }
      fun th => th.refs c
    have hrefs : IoThread.refs { s.io t with
        msgQueue := (s.io t).msgQueue ++ [{ type := .responseReady, conn := task.conn }] } c =
          (s.io t).refs c + named (some task.conn) c := by
      simp [IoThread.refs, messageRefs, named, List.countP_append]
      omega
    dsimp only at hsum
    rw [hrefs] at hsum
    simp only [linkMessage, credit_setWorker, credit_setIo, setWorker_worker, setWorker_io,
      setIo_io, Function.update_self, WorkerPc.refs, hpc, WorkerPc.task?, WorkerPc.linking?,
      Option.map_some, named_none]
    omega
  | @notify task t hpc =>
    have hsum := threadSum_update_eq s.io t
      { s.io t with msgPipe := (s.io t).msgPipe + 1, msgEdge := true } (fun th => th.refs c) rfl
    dsimp only at hsum
    simp only [credit_setWorker, credit_setIo, setWorker_worker, setWorker_io, setIo_io,
      Function.update_self, WorkerPc.refs, hpc, WorkerPc.task?, WorkerPc.linking?,
      Option.map_some, named_none]
    omega
  | closeMark hpc | closeRelease hpc =>
    have := hi.never_closes w
    rw [hpc] at this
    cases this
  | stats hpc =>
    change s.credit c = _
    simp [WorkerPc.refs, hpc, WorkerPc.task?, WorkerPc.linking?]
  | destroy hpc =>
    refine Eq.trans (State.credit_update (-1) rfl rfl Conn.surplus_release) ?_
    simp [WorkerPc.refs, hpc, WorkerPc.task?, WorkerPc.linking?]
    omega

/-- The main thread moves references between the owner and the queue only. -/
theorem MainStep.credit (h : MainStep cfg s s') (hi : Owned s) (c : ConnId) :
    s'.credit c = s.credit c := by
  cases h with
  | @create t f sk hpc =>
    have hfresh := hi.fresh s.nextConn ((hi.unborn _).mpr le_rfl)
    exact State.credit_same rfl rfl (by rw [hfresh]; rfl)
  | @handOff t c₀ f sk hpc hlt =>
    have howner : (s.conns c₀).owner = .creator :=
      (hi.creator c₀).mpr (congrArg MainPc.creating hpc)
    exact State.credit_move rfl rfl rfl (by rw [howner]; rfl)
  | @drop c₀ f sk hpc =>
    have howner : s.owner c₀ = .creator := (hi.creator c₀).mpr (congrArg MainPc.creating hpc)
    exact State.credit_giveUp (dropConnection_conns s c₀ f sk) rfl (by rw [howner]; rfl) rfl
  | @destroyTask task rest hpc hq =>
    have hrel : (s.connRelease task.conn).credit c = s.credit c + -1 * named (some task.conn) c :=
      State.credit_update (-1) rfl rfl Conn.surplus_release
    rw [credit_setQueue, hrel]
    simp only [connRelease_queue, hq, taskRefs, named, List.countP_cons, decide_eq_true_eq,
      Option.some.injEq]
    split <;> omega
  | _ => rfl

theorem MainStep.refs_io (h : MainStep cfg s s') (t : Fin n) (c : ConnId) :
    (s'.io t).refs c = (s.io t).refs c := by
  obtain ⟨hpc, -, hq⟩ := h.io_eq t
  rw [IoThread.refs, IoThread.refs, hpc, hq]

end steps

/-! ### The invariant -/

/-- The count of every connection is the number of its references, and it is freed when there is
none. -/
structure Counts (s : State n m) : Prop where
  refs : ∀ c, (s.conns c).refCount = s.refs c
  conn : ∀ c, (s.conns c).Counted

section run

variable {cfg : Config n} {s s' : State n m} {t : Fin n} {w : Fin m}

namespace Counts

/-- A connection whose owner reference is held has a positive count. -/
theorem pos_of_held (h : Counts s) {c : ConnId} (ho : (s.owner c).held = true) :
    0 < (s.conns c).refCount := by
  have hrefs : s.ownerRefs c = 1 := by rw [ownerRefs, Owner.refs, ho]; rfl
  rw [h.refs, State.refs]
  omega

/-- A worker that holds a task holds a reference besides the owner's. -/
theorem lt_of_worker (h : Counts s) {task : Task} (ht : (s.worker w).task? = some task) :
    s.ownerRefs task.conn < (s.conns task.conn).refCount := by
  have hle := le_threadSum (fun w => (s.worker w).refs task.conn) w
  have hone : 1 ≤ (s.worker w).refs task.conn := by
    rw [WorkerPc.refs, ht, Option.map_some, named_self]
    omega
  rw [h.refs, refs_eq]
  omega

/-- An IO thread that handles a message holds a reference besides the owner's. -/
theorem lt_of_message (h : Counts s) {msg : IoMessage} (hm : (s.io t).pc.message? = some msg) :
    s.ownerRefs msg.conn < (s.conns msg.conn).refCount := by
  have hle := le_threadSum (fun t => (s.io t).refs msg.conn) t
  have hone : 1 ≤ (s.io t).refs msg.conn := by
    rw [IoThread.refs, hm, Option.map_some, named_self]
    omega
  rw [h.refs, refs_eq]
  omega

/-- A queued task holds a reference besides the owner's. -/
theorem lt_of_queue (h : Counts s) {task : Task} (ht : task ∈ s.queue) :
    s.ownerRefs task.conn < (s.conns task.conn).refCount := by
  have hone : 0 < taskRefs s.queue task.conn :=
    List.countP_pos_iff.mpr ⟨task, ht, by simp⟩
  rw [h.refs, refs_eq]
  omega

theorem pos_of_worker (h : Counts s) {task : Task} (ht : (s.worker w).task? = some task) :
    0 < (s.conns task.conn).refCount :=
  (Int.natCast_nonneg _).trans_lt (h.lt_of_worker ht)

theorem pos_of_message (h : Counts s) {msg : IoMessage} (hm : (s.io t).pc.message? = some msg) :
    0 < (s.conns msg.conn).refCount :=
  (Int.natCast_nonneg _).trans_lt (h.lt_of_message hm)

theorem pos_of_queue (h : Counts s) {task : Task} (ht : task ∈ s.queue) :
    0 < (s.conns task.conn).refCount :=
  (Int.natCast_nonneg _).trans_lt (h.lt_of_queue ht)

/-- Before an event loop has accepted a connection, there is no reference besides the owner's. -/
theorem eq_of_loop_none (h : Counts s) (hi : Owned s) {c : ConnId} (hl : (s.owner c).loop = none) :
    (s.conns c).refCount = s.ownerRefs c := by
  have hne : ∀ {c' : ConnId}, s.Adopted c' → c' ≠ c := by
    rintro c' ⟨t, ht⟩ rfl
    rw [hl] at ht
    cases ht
  have hnamed : ∀ {o : Option ConnId}, (∀ c', o = some c' → s.Adopted c') → named o c = 0 := by
    intro o ho
    refine if_neg fun hoc => hne (ho c hoc) rfl
  have hqueue : AdvancedServer.taskRefs s.queue c = 0 :=
    List.countP_eq_zero.mpr fun task ht => by simpa using hne (hi.queued task ht).2
  have hworker : ∑ w, (s.worker w).refs c = 0 := by
    refine Finset.sum_eq_zero fun w _ => ?_
    have hheld := hi.held w
    have htask : named ((s.worker w).task?.map (·.conn)) c = 0 := by
      refine hnamed fun c' hc' => ?_
      obtain ⟨task, htask, rfl⟩ := Option.map_eq_some_iff.mp hc'
      exact (hheld task htask).2
    have hlink : named (s.worker w).linking? c = 0 := by
      refine hnamed fun c' hc' => ?_
      cases hpc : s.worker w with
      | sendLink task t =>
        rw [hpc] at hc' hheld
        cases hc'
        exact (hheld task rfl).2
      | _ => rw [hpc] at hc'; cases hc'
    simp only [WorkerPc.refs, htask, hlink, add_zero]
  have hio : ∑ t, (s.io t).refs c = 0 := by
    refine Finset.sum_eq_zero fun t _ => ?_
    have htask : named ((s.io t).pc.task?.map (·.conn)) c = 0 := by
      refine hnamed fun c' hc' => ?_
      obtain ⟨task, htask, rfl⟩ := Option.map_eq_some_iff.mp hc'
      exact ⟨t, Owner.loop_of_known (.inl ((hi.io t).active _ (hi.submitting t task htask).2))⟩
    have hmsg : named ((s.io t).pc.message?.map (·.conn)) c = 0 := by
      refine hnamed fun c' hc' => ?_
      obtain ⟨msg, hmsg, rfl⟩ := Option.map_eq_some_iff.mp hc'
      exact ⟨t, (hi.message t msg (.inr hmsg)).2⟩
    have hlist : messageRefs (s.io t).msgQueue c = 0 :=
      List.countP_eq_zero.mpr fun msg hm => by
        simpa using hne ⟨t, (hi.message t msg (.inl hm)).2⟩
    simp only [IoThread.refs, htask, hmsg, hlist, add_zero]
  have hleaked := ((hi.conn c).untouched hl).1
  rw [h.refs, refs_eq, hqueue, hworker, hio, hleaked]
  rfl

end Counts

/-- Writing one connection keeps all connections counted. -/
theorem counted_update {f : ConnId → Conn n} (h : ∀ c, (f c).Counted) {c₀ : ConnId} {k : Conn n}
    (hk : k.Counted) (c : ConnId) : (Function.update f c₀ k c).Counted := by
  by_cases hc : c = c₀
  · subst hc; simpa using hk
  · simpa [hc] using h c

/-- The IO threads keep every connection counted. -/
theorem IoStep.counted (h : IoStep cfg s t s') (hi : Owned s) (hc : Counts s) (c : ConnId) :
    (s'.conns c).Counted := by
  have ho := hi.io t
  have hk := hc.conn
  have hactive : ∀ {c₀ : ConnId}, (s.io t).pc.role = .active c₀ → 0 < (s.conns c₀).refCount :=
    fun hr => hc.pos_of_held (by rw [ho.active _ hr]; rfl)
  cases h with
  | @readConn c₀ rest hpc hp =>
    have howner : (s.conns c₀).owner = .pipe t := (ho.pipe c₀).mp (by simp [hp])
    exact counted_update hk
      ((hk c₀).setOwner (.adopter t) (by rw [howner]; rintro ⟨⟩) (by rintro ⟨⟩)) c
  | @register c₀ k hpc hk' =>
    have howner : (s.conns c₀).owner = .adopter t := (ho.adopting c₀).mp (congrArg IoPc.role hpc)
    exact counted_update hk
      ((hk c₀).setOwner (.registered t) (by rw [howner]; rintro ⟨⟩) (by rintro ⟨⟩)) c
  | @reject c₀ hpc =>
    have howner : (s.conns c₀).owner = .adopter t := (ho.adopting c₀).mp (congrArg IoPc.role hpc)
    have hpos := hc.pos_of_held (c := c₀) (by rw [State.owner, howner]; rfl)
    have hrel := (hk c₀).release hpos (by rw [howner]; rintro ⟨⟩)
    rw [rejectConnection_conns]
    refine counted_update hk (hrel.setOwner .dropped ?_ (by rintro ⟨⟩)) c
    rw [Conn.release_owner, howner]
    rintro ⟨⟩
  | @closeMark k x hpc =>
    have howner : (s.conns x.conn).owner = .registered t :=
      ho.active x.conn (congrArg IoPc.role hpc)
    have hmark : (s.conns x.conn).markClosing.Counted := (hk x.conn).congr rfl Iff.rfl rfl
    rw [markClosing_conns]
    refine counted_update hk (hmark.setOwner (.closing t) ?_ (by rintro ⟨⟩)) c
    rw [Conn.markClosing_owner, howner]
    rintro ⟨⟩
  | @closeRelease k x hpc =>
    have howner : (s.conns x.conn).owner = .closing t :=
      (ho.closing x.conn).mp (congrArg IoPc.role hpc)
    have hpos := hc.pos_of_held (c := x.conn) (by rw [State.owner, howner]; rfl)
    have hrel := (hk x.conn).release hpos (by rw [howner]; rintro ⟨⟩)
    rw [releaseOwner_conns]
    refine counted_update hk (hrel.setOwner (.released t) ?_ (by rintro ⟨⟩)) c
    rw [Conn.release_owner, howner]
    rintro ⟨⟩
  | @msgRelease msg hpc =>
    have hmsg : (s.io t).pc.message? = some msg := congrArg IoPc.message? hpc
    have hl := (hi.message t msg (.inr hmsg)).2
    refine counted_update hk ((hk msg.conn).release (hc.pos_of_message hmsg) fun hu => ?_) c
    rw [State.owner, hu] at hl
    cases hl
  | createTask hpc =>
    have hpos := hactive (congrArg IoPc.role hpc)
    refine counted_update hk ?_ c
    exact ((hk _).acquire hpos).congr rfl Iff.rfl rfl
  | createLeak hpc =>
    have hpos := hactive (congrArg IoPc.role hpc)
    refine counted_update hk ?_ c
    exact ((hk _).acquire hpos).congr rfl Iff.rfl rfl
  | adopt | readData | backToRead | wrote | reset | submitLeak =>
    refine counted_update hk ?_ c
    exact (hk _).congr rfl Iff.rfl rfl
  | _ => exact hk c

/-- The workers keep every connection counted. -/
theorem WorkerStep.counted (h : WorkerStep cfg s w s') (hi : Owned s) (hc : Counts s) (c : ConnId) :
    (s'.conns c).Counted := by
  have hk := hc.conn
  cases h with
  | install =>
    refine counted_update hk ?_ c
    exact (hk _).congr rfl Iff.rfl rfl
  | acquire hpc =>
    exact counted_update hk ((hk _).acquire (hc.pos_of_worker (congrArg WorkerPc.task? hpc))) c
  | closeMark hpc | closeRelease hpc =>
    have := hi.never_closes w
    rw [hpc] at this
    cases this
  | @destroy task hpc =>
    have ht : (s.worker w).task? = some task := congrArg WorkerPc.task? hpc
    obtain ⟨t, hl⟩ := (hi.held w task ht).2
    refine counted_update hk ((hk _).release (hc.pos_of_worker ht) fun hu => ?_) c
    rw [State.owner, hu] at hl
    cases hl
  | _ => exact hk c

/-- The main thread keeps every connection counted. -/
theorem MainStep.counted (h : MainStep cfg s s') (hi : Owned s) (hc : Counts s) (c : ConnId) :
    (s'.conns c).Counted := by
  have hk := hc.conn
  cases h with
  | create => exact counted_update hk (Conn.Counted.create _ _ _) c
  | @handOff t c₀ f sk hpc hlt =>
    have howner : (s.conns c₀).owner = .creator :=
      (hi.creator c₀).mpr (congrArg MainPc.creating hpc)
    exact counted_update hk
      ((hk c₀).setOwner (.pipe t) (by rw [howner]; rintro ⟨⟩) (by rintro ⟨⟩)) c
  | @drop c₀ f sk hpc =>
    have howner : (s.conns c₀).owner = .creator :=
      (hi.creator c₀).mpr (congrArg MainPc.creating hpc)
    have hpos := hc.pos_of_held (c := c₀) (by rw [State.owner, howner]; rfl)
    have hrel := (hk c₀).release hpos (by rw [howner]; rintro ⟨⟩)
    rw [dropConnection_conns]
    refine counted_update hk (hrel.setOwner .dropped ?_ (by rintro ⟨⟩)) c
    rw [Conn.release_owner, howner]
    rintro ⟨⟩
  | @destroyTask task rest hpc hq =>
    have ht : task ∈ s.queue := by simp [hq]
    obtain ⟨t, hl⟩ := (hi.queued task ht).2
    refine counted_update hk ((hk _).release (hc.pos_of_queue ht) fun hu => ?_) c
    rw [State.owner, hu] at hl
    cases hl
  | _ => exact hk c

/-- Every step of the server keeps the counts. -/
theorem ServerStep.counts (h : ServerStep cfg s s') (hi : Owned s) (hc : Counts s) : Counts s' := by
  have hold := fun c => (refCount_eq_refs_iff s c).mp (hc.refs c)
  cases h with
  | main h =>
    refine ⟨fun c => (refCount_eq_refs_iff s' c).mpr ?_, h.counted hi hc⟩
    simp only [h.credit hi, hold c, h.worker_eq, h.refs_io]
  | io t h =>
    refine ⟨fun c => (refCount_eq_refs_iff s' c).mpr ?_, h.counted hi hc⟩
    have hio : s'.io = Function.update s.io t (s'.io t) := by
      funext t'
      by_cases ht : t' = t
      · subst ht; simp
      · rw [Function.update_of_ne ht, h.io_ne ht]
    have hsum := threadSum_update s.io t (s'.io t) fun th => th.refs c
    rw [← hio] at hsum
    rw [h.credit hi, hold c, h.worker_eq]
    omega
  | worker w h =>
    refine ⟨fun c => (refCount_eq_refs_iff s' c).mpr ?_, h.counted hi hc⟩
    have hworker : s'.worker = Function.update s.worker w (s'.worker w) := by
      funext w'
      by_cases hw : w' = w
      · subst hw; simp
      · rw [Function.update_of_ne hw, h.worker_ne hw]
    have hsum := threadSum_update s.worker w (s'.worker w) fun pc => pc.refs c
    rw [← hworker] at hsum
    rw [h.credit hi, hold c]
    omega
  | env h => cases h <;> exact ⟨hc.refs, hc.conn⟩

/-- In every reachable state the count of a connection is the number of its references. -/
theorem reachable_counts (h : (server m cfg).Reachable s) : Counts s := by
  refine TransitionSystem.Reachable.invariant ?_ ?_ h
  · rintro _ rfl
    refine ⟨fun c => ?_, fun c => Conn.Counted.unborn⟩
    simp [State.start, Conn.unborn, State.refs, ownerRefs, State.taskRefs, State.messageRefs,
      taskRefs, messageRefs, IoThread.start, IoPc.task?, IoPc.message?, WorkerPc.task?,
      WorkerPc.linking?, State.owner, Owner.refs, Owner.held]
  · intro s a s' hr hc hs
    exact (step_spec hs).counts (reachable_owned hr) hc

end run

/-! ### Accounting without leaks -/

namespace State

variable (s : State n m)

/-- The step loses a reference: the second allocation of `task_create` fails, or the submission of
the task is rejected. -/
def leaks : Action n m → Bool
  | .io t r =>
    match (s.io t).pc with
    | .rdCreate .. => r = .failData
    | .rdSubmit .. => s.poolShutdown || s.queueShutdown
    | _ => false
  | _ => false

/-- The step is a `conn_acquire` of the connection. -/
def acquires (c : ConnId) : Action n m → Prop
  | .io t r => ∃ x data, (s.io t).pc = .rdCreate x data ∧ x.conn = c ∧ (r = .ok ∨ r = .failData)
  | .worker w _ => ∃ task t, s.worker w = .sendAcquire task t ∧ task.conn = c
  | _ => False

/-- The step is a `conn_release` of the owner reference. -/
def releasesOwner (c : ConnId) : Action n m → Prop
  | .io t _ => (s.io t).pc = .pipeRelease c ∨ ∃ k x, (s.io t).pc = .closeRelease k x ∧ x.conn = c
  | .main _ => ∃ f sk, s.main = .drop c f sk
  | _ => False

end State

section accounting

variable {cfg : Config n} {s s' : State n m}

/-- What `leaked` counts are the references taken before the second allocation of `task_create`
failed, and those of rejected tasks. -/
theorem leaked_step {a : Action n m} (hi : Owned s) (hs : (server m cfg).step s a = some s')
    (c : ConnId) :
    (s'.conns c).leaked = (s.conns c).leaked ∨ ∃ t r, a = .io t r ∧
      ((∃ x data, (s.io t).pc = .rdCreate x data ∧ x.conn = c ∧ r = .failData) ∨
        ∃ x task, (s.io t).pc = .rdSubmit x task ∧ task.conn = c ∧
          (s.poolShutdown = true ∨ s.queueShutdown = true)) := by
  have hupdate : ∀ {c₀ : ConnId} {k : Conn n}, k.leaked = (s.conns c₀).leaked →
      (Function.update s.conns c₀ k c).leaked = (s.conns c).leaked := by
    intro c₀ k hk
    by_cases hc : c = c₀
    · subst hc; simpa using hk
    · simp [hc]
  cases a with
  | main r =>
    left
    cases mainStep_spec hs with
    | create hpc => exact hupdate (by rw [hi.fresh _ ((hi.unborn _).mpr le_rfl)]; rfl)
    | handOff => exact hupdate rfl
    | drop => rw [dropConnection_conns]; exact hupdate rfl
    | destroyTask => exact hupdate rfl
    | _ => rfl
  | worker w ok =>
    left
    cases workerStep_spec hs with
    | install | acquire | closeMark | closeRelease | destroy => exact hupdate rfl
    | _ => rfl
  | env e =>
    left
    cases envStep_spec hs <;> rfl
  | io t r =>
    have hstep : s.ioStep cfg t r = some s' := hs
    cases ioStep_spec hstep with
    | @createLeak x data hpc =>
      simp only [ioStep, hpc, State.createTask] at hstep
      -- The results other than the failing second allocation keep `leaked`.
      cases r with
      | ok => rw [← Option.some.inj hstep]; exact .inl (hupdate rfl)
      | fail => rw [← Option.some.inj hstep]; exact .inl rfl
      | failData =>
        by_cases hc : x.conn = c
        · exact .inr ⟨t, _, rfl, .inl ⟨x, data, hpc, hc, rfl⟩⟩
        · left
          rw [setIoPc_conns, setConn_conns, Function.update_of_ne (Ne.symm hc)]
      | _ => cases hstep
    | @submitLeak x task hpc hrej =>
      by_cases hc : task.conn = c
      · exact .inr ⟨t, r, rfl, .inr ⟨x, task, hpc, hc, hrej⟩⟩
      · left
        rw [setIoPc_conns, setConn_conns, Function.update_of_ne (Ne.symm hc)]
    | reject => rw [rejectConnection_conns]; exact .inl (hupdate rfl)
    | closeMark => rw [markClosing_conns]; exact .inl (hupdate rfl)
    | closeRelease => rw [releaseOwner_conns]; exact .inl (hupdate rfl)
    | readConn | adopt | register | msgRelease | readData | createTask | backToRead | wrote
    | reset =>
      exact .inl (hupdate rfl)
    | _ => exact .inl rfl

/-- Other steps leak nothing. -/
theorem leaked_eq {a : Action n m} (hi : Owned s) (hs : (server m cfg).step s a = some s')
    (hl : s.leaks a = false) (c : ConnId) : (s'.conns c).leaked = (s.conns c).leaked := by
  rcases leaked_step hi hs c with hsame | ⟨t, r, rfl,
      ⟨x, data, hpc, -, rfl⟩ | ⟨x, task, hpc, -, hrej⟩⟩
  · exact hsame
  · simp [State.leaks, hpc] at hl
  · simp only [State.leaks, hpc] at hl
    rcases hrej with hrej | hrej <;> simp [hrej] at hl

/-- Without such steps nothing is leaked. -/
theorem leaked_eq_zero (h : (server m cfg).ReachableUnder (fun s a => s.leaks a = false) s)
    (c : ConnId) : (s.conns c).leaked = 0 := by
  revert c
  refine h.invariant (I := fun s => ∀ c, (s.conns c).leaked = 0) ?_ ?_
  · rintro _ rfl c
    rfl
  · intro s a s' hr ih hl hs c
    rw [leaked_eq (reachable_owned hr.reachable) hs hl, ih]

/-- A connection whose owner reference is gone has none in any later state. -/
theorem ownerRefs_of_steps (hr : (server m cfg).Reachable s) {c : ConnId}
    (hborn : s.owner c ≠ .unborn) (hc : s.ownerRefs c = 0)
    (h : Relation.ReflTransGen (fun s s' => ∃ a, (server m cfg).step s a = some s') s s') :
    (server m cfg).Reachable s' ∧ s'.owner c = s.owner c := by
  have hheld : (s.owner c).held = false := by
    cases hh : (s.owner c).held
    · rfl
    · rw [ownerRefs, Owner.refs, hh] at hc; cases hc
  induction h with
  | refl => exact ⟨hr, rfl⟩
  | tail _ hs ih =>
    obtain ⟨hr', ho⟩ := ih
    obtain ⟨a, hs⟩ := hs
    refine ⟨hr'.next hs, ?_⟩
    rcases (step_spec hs).owner (reachable_owned hr') c with h | h
    · rw [h, ho]
    · rcases h.held_or_unborn.1 with hx | hx
      · rw [ho, hheld] at hx; cases hx
      · rw [ho] at hx; exact absurd hx hborn

/-- A step that releases the owner reference finds it held, and takes it. -/
theorem releasesOwner_spec (hi : Owned s) {a : Action n m} {c : ConnId}
    (hs : (server m cfg).step s a = some s') (ha : s.releasesOwner c a) :
    s.ownerRefs c = 1 ∧ s'.ownerRefs c = 0 ∧ s'.owner c ≠ .unborn := by
  cases a with
  | main r =>
    obtain ⟨f, sk, hpc⟩ := ha
    have howner : s.owner c = .creator := (hi.creator c).mpr (congrArg MainPc.creating hpc)
    have hstep : s.mainStep cfg r = some s' := hs
    simp only [mainStep, hpc, Option.some.injEq] at hstep
    subst hstep
    have hnew : (s.dropConnection c f sk).owner c = .dropped := by
      rw [State.owner, dropConnection_conns, Function.update_self]; rfl
    rw [ownerRefs, ownerRefs, howner, hnew]
    exact ⟨rfl, rfl, by rintro ⟨⟩⟩
  | io t r =>
    have hstep : s.ioStep cfg t r = some s' := hs
    rcases ha with hpc | ⟨k, x, hpc, rfl⟩
    · have howner : s.owner c = .adopter t := ((hi.io t).adopting c).mp (congrArg IoPc.role hpc)
      simp only [ioStep, hpc, Option.some.injEq] at hstep
      subst hstep
      have hnew : (s.rejectConnection t c).owner c = .dropped := by
        rw [State.owner, rejectConnection_conns, Function.update_self]; rfl
      rw [ownerRefs, ownerRefs, howner, hnew]
      exact ⟨rfl, rfl, by rintro ⟨⟩⟩
    · have howner : s.owner x.conn = .closing t :=
        ((hi.io t).closing x.conn).mp (congrArg IoPc.role hpc)
      simp only [ioStep, hpc, Option.some.injEq] at hstep
      subst hstep
      have hnew : (s.releaseOwner t k x).owner x.conn = .released t := by
        rw [State.owner, releaseOwner_conns, Function.update_self]; rfl
      rw [ownerRefs, ownerRefs, howner, hnew]
      exact ⟨rfl, rfl, by rintro ⟨⟩⟩
  | worker w ok => cases ha
  | env e => cases ha

/-- `conn_acquire` is called on a connection that has a reference. -/
theorem pos_of_acquires (hi : Owned s) (hc : Counts s) {a : Action n m} {c : ConnId}
    (ha : s.acquires c a) : 0 < (s.conns c).refCount := by
  cases a with
  | main r => cases ha
  | io t r =>
    obtain ⟨x, data, hpc, rfl, -⟩ := ha
    refine hc.pos_of_held ?_
    rw [(hi.io t).active x.conn (congrArg IoPc.role hpc)]
    rfl
  | worker w ok =>
    obtain ⟨task, t, hpc, rfl⟩ := ha
    exact hc.pos_of_worker (congrArg WorkerPc.task? hpc)
  | env e => cases ha

/-- In every run in which no step loses a reference, and in each of its states: `ref_count` of a
connection that was not freed is the number of the owner, task and message references; it is never
negative; the object was freed once if it was created and no reference is left, and was not freed
otherwise; `conn_acquire` finds a positive count; and a step that releases the owner reference finds
it held and is the last such step of the run. -/
theorem refCount_accounting
    (h : (server m cfg).ReachableUnder (fun s a => s.leaks a = false) s) (c : ConnId) :
    (¬(s.conns c).Freed →
      (s.conns c).refCount = (s.ownerRefs c + s.taskRefs c + s.messageRefs c : ℕ)) ∧
    0 ≤ (s.conns c).refCount ∧
    (s.conns c).frees =
      (if c < s.nextConn ∧ s.ownerRefs c + s.taskRefs c + s.messageRefs c = 0 then 1 else 0) ∧
    (∀ a, s.acquires c a → 0 < (s.conns c).refCount) ∧
    (∀ a s', (server m cfg).step s a = some s' → s.releasesOwner c a → s.ownerRefs c = 1 ∧
      ∀ s₂, Relation.ReflTransGen (fun s s' => ∃ a, (server m cfg).step s a = some s') s' s₂ →
        s₂.ownerRefs c = 0 ∧ ∀ a₂ s₃, (server m cfg).step s₂ a₂ = some s₃ →
        ¬s₂.releasesOwner c a₂) := by
  have hr := h.reachable
  have hi := reachable_owned hr
  have hc := reachable_counts hr
  have hrefs : (s.conns c).refCount = (s.ownerRefs c + s.taskRefs c + s.messageRefs c : ℕ) := by
    rw [hc.refs, State.refs, leaked_eq_zero h c]
    rfl
  refine ⟨fun _ => hrefs, (hc.conn c).nonneg, ?_, fun a ha => pos_of_acquires hi hc ha,
    fun a s' hs ha => ?_⟩
  · have hborn : c < s.nextConn ↔ (s.conns c).owner ≠ .unborn :=
      (not_le.symm).trans (not_congr (hi.unborn c)).symm
    simp only [(hc.conn c).frees, hrefs, hborn, Int.natCast_eq_zero]
  · obtain ⟨hone, hzero, hb⟩ := releasesOwner_spec hi hs ha
    refine ⟨hone, fun s₂ hsteps => ?_⟩
    obtain ⟨hr₂, ho⟩ := ownerRefs_of_steps (hr.next hs) hb hzero hsteps
    have hzero₂ : s₂.ownerRefs c = 0 := by rw [ownerRefs, ho]; exact hzero
    refine ⟨hzero₂, fun a₂ s₃ hs₂ ha₂ => ?_⟩
    have := (releasesOwner_spec (reachable_owned hr₂) hs₂ ha₂).1
    omega

/-- After one chunk was read and submitted, the connection has its owner's and the task's
reference. -/
theorem refCount_accounting_submitted :
    ∃ s : State 1 1, (server 1 (Config.fresh 1)).Reachable s ∧
      (s.conns 0).refCount = (s.ownerRefs 0 + s.taskRefs 0 + s.messageRefs 0 : ℕ) ∧
      (s.conns 0).refCount = 2 := by
  obtain ⟨s, hs, hp⟩ := (server 1 (Config.fresh 1)).exists_of_execUnder
    (fun s a => s.leaks a = false)
    (List.flatten [Action.connect 10, Action.adopt 0, [.env (.data 10 [65])],
      Action.deliver 0 10 { read := true }, Action.readOne 0 1])
    (fun s => decide ((s.conns 0).refCount = 2 ∧ ¬(s.conns 0).Freed)) rfl (by decide)
  obtain ⟨h2, hfreed⟩ := of_decide_eq_true hp
  exact ⟨s, hs.reachable, (refCount_accounting hs 0).1 hfreed, h2⟩

end accounting

end DeepInIo.AdvancedServer
