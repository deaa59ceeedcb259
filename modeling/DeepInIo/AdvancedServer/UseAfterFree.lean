import DeepInIo.AdvancedServer.InterestLists

/-!
# Uses of connections

`State.access` names the connection a step inspects or changes.  Most accesses are covered by a
reference: the owner's while the event loop owns the connection, or that of a task or a message.
Two are not, the `conn_is_valid` at the start of an event and the one behind `handle_read` and
`handle_write` (`IoThread.checks`), and they are harmless only as long as the connection is not
freed before them.
-/

namespace DeepInIo.AdvancedServer

open State

variable {n m : ℕ}

/-! ### Accesses -/

/-- The connection an IO thread inspects or changes at a program point. -/
def IoPc.access? : IoPc → Option ConnId
  | .pipeAdopt c | .pipeAdd c | .pipeRelease c => some c
  | .msgCheck msg | .msgMod msg | .msgRelease msg => some msg.conn
  | .evCheck x | .evFd x | .rdRead x | .rdCreate x _ | .rdSubmit x _ | .wrEntry x | .wrIdle x
  | .wrLoop x | .wrFinal x | .wrReset x | .wrMod x | .closeMark _ x | .closeRelease _ x
  | .recheck _ x => some x.conn
  | _ => none

/-- The connection a worker inspects or changes at a program point. -/
def WorkerPc.access? : WorkerPc n → Option ConnId
  | .check k | .install k | .sendTest k | .sendAcquire k _ | .closeMark k | .closeRelease k
  | .destroy k => some k.conn
  | _ => none

/-- The connection an IO thread may free at a program point. -/
def IoPc.release? : IoPc → Option ConnId
  | .pipeRelease c => some c
  | .msgRelease msg => some msg.conn
  | .closeRelease _ x => some x.conn
  | _ => none

/-- The connection a worker may free at a program point. -/
def WorkerPc.release? : WorkerPc n → Option ConnId
  | .closeRelease k | .destroy k => some k.conn
  | _ => none

namespace State

variable (s : State n m)

/-- The connection the main thread inspects or changes. -/
def mainAccess : Option ConnId :=
  match s.main with
  | .handoff _ c _ _ | .drop c _ _ => some c
  | .queueDestroy => s.queue.head?.map Task.conn
  | _ => none

/-- The connection an IO thread inspects or changes; an event that is collected uses its data
pointer. -/
def ioAccess (t : Fin n) (r : IoResult) : Option ConnId :=
  match (s.io t).pc, r with
  | .wait, .event (.fd f _) => s.kernel.entry t f
  | pc, _ => pc.access?

/-- The connection a step inspects or changes. -/
def access : Action n m → Option ConnId
  | .main _ => s.mainAccess
  | .io t r => s.ioAccess t r
  | .worker w _ => (s.worker w).access?
  | .env _ => none

/-- The connection whose reference a step gives up. -/
def release : Action n m → Option ConnId
  | .main _ =>
    match s.main with
    | .drop c _ _ => some c
    | .queueDestroy => s.queue.head?.map Task.conn
    | _ => none
  | .io t _ => (s.io t).pc.release?
  | .worker w _ => (s.worker w).release?
  | .env _ => none

/-- The step is the `conn_release` that frees the connection. -/
def frees (a : Action n m) (c : ConnId) : Bool :=
  s.release a = some c && (s.conns c).lastRelease

end State

/-- An IO thread at this program point will call `conn_is_valid` without knowing that the connection
exists. -/
def IoPc.checks (c : ConnId) : IoPc → Bool
  | .evCheck x | .recheck _ x => x.conn = c
  | .closeRelease k x => k ≠ .hangup && x.conn = c
  | _ => false

/-- The event is one of the connection. -/
def Event.ofConn (c : ConnId) : Event → Bool
  | .conn c' _ => c' = c
  | _ => false

/-- An IO thread will call `conn_is_valid` for the connection, in the event it treats or in one of
its batch. -/
def IoThread.checks (th : IoThread) (c : ConnId) : Bool :=
  th.pc.checks c || th.batch.any (Event.ofConn c)

/-- The step frees a connection that an IO thread is still to check. -/
def State.freesChecked (s : State n m) (a : Action n m) : Bool :=
  (s.release a).any fun c => s.frees a c && decide (∃ t, (s.io t).checks c = true)

/-! ### What keeps a connection alive -/

section alive

variable {cfg : Config n} {s s' : State n m} {t : Fin n}

/-- A connection with a reference is not freed. -/
theorem Counts.not_freed (h : Counts s) {c : ConnId} (hpos : 0 < (s.conns c).refCount) :
    ¬(s.conns c).Freed := by
  have hf := (h.conn c).frees
  rw [if_neg (by omega)] at hf
  rw [Conn.Freed, hf]
  exact lt_irrefl 0

/-- A connection is freed by the `conn_release` that gives up its last reference. -/
theorem freed_of_step {a : Action n m} (hi : Owned s) (hs : (server m cfg).step s a = some s')
    {c : ConnId} (hf : (s'.conns c).Freed) : (s.conns c).Freed ∨ s.frees a c = true := by
  have hupdate : ∀ {c₀ : ConnId} {k : Conn n}, (Function.update s.conns c₀ k c).Freed →
      k.frees = (s.conns c₀).frees → (s.conns c).Freed := by
    intro c₀ k hfreed hk
    by_cases hc : c = c₀
    · subst hc
      rw [Function.update_self] at hfreed
      rwa [Conn.Freed, ← hk]
    · rwa [Function.update_of_ne hc] at hfreed
  have hrelease : ∀ {c₀ : ConnId} {k : Conn n}, (Function.update s.conns c₀ k c).Freed →
      k.frees = (s.conns c₀).release.frees → s.release a = some c₀ →
      (s.conns c).Freed ∨ s.frees a c = true := by
    intro c₀ k hfreed hk hrel
    by_cases hc : c = c₀
    · subst hc
      rw [Function.update_self, Conn.Freed, hk, Conn.release_frees] at hfreed
      split at hfreed
      · next hlast => exact .inr (by simp [State.frees, hrel, hlast])
      · exact .inl hfreed
    · rw [Function.update_of_ne hc] at hfreed
      exact .inl hfreed
  cases a with
  | main r =>
    cases mainStep_spec hs with
    | create hpc => exact .inl (hupdate hf (by rw [hi.fresh _ ((hi.unborn _).mpr le_rfl)]; rfl))
    | handOff => exact .inl (hupdate hf rfl)
    | drop hpc =>
      rw [dropConnection_conns] at hf
      exact hrelease hf rfl (by simp [State.release, hpc])
    | destroyTask hpc hq => exact hrelease hf rfl (by simp [State.release, hpc, hq])
    | _ => exact .inl hf
  | io t r =>
    cases ioStep_spec hs with
    | reject hpc =>
      rw [rejectConnection_conns] at hf
      exact hrelease hf rfl (congrArg IoPc.release? hpc)
    | closeMark hpc =>
      rw [markClosing_conns] at hf
      exact .inl (hupdate hf rfl)
    | closeRelease hpc =>
      rw [releaseOwner_conns] at hf
      exact hrelease hf rfl (congrArg IoPc.release? hpc)
    | msgRelease hpc => exact hrelease hf rfl (congrArg IoPc.release? hpc)
    | readConn | adopt | register | readData | createTask | createLeak | submitLeak
    | backToRead | wrote | reset => exact .inl (hupdate hf rfl)
    | _ => exact .inl hf
  | worker w ok =>
    cases workerStep_spec hs with
    | install | acquire | closeMark => exact .inl (hupdate hf rfl)
    | closeRelease hpc | destroy hpc => exact hrelease hf rfl (congrArg WorkerPc.release? hpc)
    | _ => exact .inl hf
  | env e => cases envStep_spec hs <;> exact .inl hf

/-- A thread that treats an event of a valid connection owns it. -/
theorem held_of_active (hi : Owned s) {c : ConnId} (hr : (s.io t).pc.role = .active c) :
    (s.owner c).held = true := by
  rw [(hi.io t).active c hr]
  rfl

@[simp] theorem checks_afterRead (x : EventContext) (c : ConnId) :
    (afterRead x).checks c = false := by
  unfold afterRead; split <;> rfl

@[simp] theorem checks_afterFd (x : EventContext) (c : ConnId) : (afterFd x).checks c = false := by
  unfold afterFd; split
  · rfl
  · exact checks_afterRead x c

@[simp] theorem checks_afterCheck (k : CloseSite) (x : EventContext) (c : ConnId) :
    (afterCheck k x).checks c = false := by
  unfold afterCheck; split
  · exact checks_afterRead x c
  · rfl

/-- A move brings a thread to a check only from the treatment of a valid connection. -/
theorem IoMove.checks {pc pc' : IoPc} (h : IoMove s t pc pc') {c : ConnId}
    (hc : pc'.checks c = true) : pc.role = .active c := by
  cases h with
  | fdLoaded x => rw [checks_afterFd] at hc; cases hc
  | stillValid k x => rw [checks_afterCheck] at hc; cases hc
  | readAgain x | finalMore x => rw [← of_decide_eq_true hc]; rfl
  | _ => cases hc

/-- What an IO thread checks after its step it either checked before, or its event loop still owned
the connection then. -/
theorem IoStep.checks (h : IoStep cfg s t s') (hi : Owned s) (hl : Listed s) {c : ConnId}
    (hc : (s'.io t).checks c = true) :
    (s.io t).checks c = true ∨ (s'.owner c).held = true := by
  have ho := hi.io t
  -- Outside the treatment of a valid event nothing new is checked.
  have hold : ∀ {th : IoThread}, th.checks c = true → th.pc.checks c = false →
      th.batch = (s.io t).batch → (s.io t).checks c = true := by
    intro th hth hpc hb
    rw [IoThread.checks, hpc, hb, Bool.false_or] at hth
    rw [IoThread.checks, hth, Bool.or_true]
  have hmem : (s.io t).batch.any (Event.ofConn c) = true → (s.io t).checks c = true := by
    intro hb
    rw [IoThread.checks, hb, Bool.or_true]
  cases h with
  | @move pc' hm =>
    simp only [setIoPc_io, Function.update_self, IoThread.checks, Bool.or_eq_true] at hc
    rcases hc with hc | hc
    · exact .inr (held_of_active hi (hm.checks hc))
    · exact .inl (hmem hc)
  | @collectFd f ev r hpc hr =>
    simp only [setIo_io, Function.update_self, IoThread.checks, List.any_append, Bool.or_eq_true,
      List.any_cons, List.any_nil, Bool.or_false] at hc ⊢
    rcases hc with hc | hc | hc
    · exact .inl (.inl hc)
    · exact .inl (.inr hc)
    · have hreg := (hl.sound t f r.data (Kernel.entry_eq_some.mpr ⟨r, hr, rfl⟩)).1
      right
      rw [← of_decide_eq_true hc]
      change (s.owner r.data).held = true
      rw [hreg]
      rfl
  | collectPipe hpc | collectMsg hpc =>
    simp only [setIo_io, Function.update_self, IoThread.checks, List.any_append] at hc ⊢
    simpa [Event.ofConn] using Or.inl hc
  | nextPipe hpc hb | nextMsg hpc hb =>
    simp only [setIo_io, Function.update_self] at hc
    left
    refine hmem ?_
    rw [hb, List.any_cons]
    simpa [IoThread.checks, IoPc.checks] using Or.inr hc
  | @nextConn c₀ ev rest hpc hb =>
    simp only [setIo_io, Function.update_self] at hc
    left
    refine hmem ?_
    rw [hb, List.any_cons]
    exact hc
  | @backToRead x hpc =>
    simp only [State.backToRead, setIoPc_io, Function.update_self, IoThread.checks,
      Bool.or_eq_true] at hc
    rcases hc with hc | hc
    · right
      have hr : (s.io t).pc.role = .active x.conn := by
        rcases hpc with hpc | hpc <;> rw [hpc] <;> rfl
      have hsame : (s.backToRead t x).owner = s.owner := by
        rw [State.backToRead, owner_setIoPc, owner_setConn_same]
        · rfl
        · rfl
      rw [hsame, ← of_decide_eq_true hc]
      exact held_of_active hi hr
    · exact .inl (hmem hc)
  | @closeDel k x fd hpc =>
    simp only [setIoPc_io, Function.update_self, IoThread.checks, Bool.or_eq_true] at hc
    rcases hc with hc | hc
    · right
      simp only [IoPc.checks, Bool.and_eq_true, decide_eq_true_eq] at hc
      change (s.owner c).held = true
      rw [← hc.2, (ho.closing x.conn).mp (congrArg IoPc.role hpc)]
      rfl
    · exact .inl (hmem hc)
  | @closeRelease k x hpc =>
    simp only [releaseOwner, setIoPc_io, Function.update_self] at hc
    left
    rw [IoThread.checks, hpc]
    split at hc
    · next hk => simpa [IoThread.checks, IoPc.checks, hk] using hc
    · next hk => simpa [IoThread.checks, IoPc.checks, hk] using hc
  | readWake | readConn | adopt | register | reject | msgRead | drain | msgMod | msgRelease
  | readData | createTask | createLeak | submitLeak | submit | wrote | reset | closeMark =>
    simp only [rejectConnection, State.readData, wroteData, State.markClosing, setIo_io, setIoPc_io,
      Function.update_self] at hc
    exact .inl (hold hc rfl rfl)

/-- What an IO thread checks after a step it either checked before, or its event loop still owned
the connection then. -/
theorem ServerStep.checks (h : ServerStep cfg s s') (hi : Owned s) (hl : Listed s) {c : ConnId}
    (hc : (s'.io t).checks c = true) :
    (s.io t).checks c = true ∨ (s'.owner c).held = true := by
  rcases h.own_or_other hi t with h | ⟨hpc, hb, -⟩
  · exact h.checks hi hl hc
  · left
    rwa [IoThread.checks, hpc, hb] at hc

/-- As long as no step frees a connection that is still to be checked, what is checked is not
freed. -/
theorem checked_not_freed
    (h : (server m cfg).ReachableUnder (fun s a => s.freesChecked a = false) s) {c : ConnId}
    (hc : (s.io t).checks c = true) : ¬(s.conns c).Freed := by
  revert hc
  refine h.invariant (I := fun s => (s.io t).checks c = true → ¬(s.conns c).Freed) ?_ ?_
  · rintro _ rfl hc
    cases hc
  · intro s a s' hr ih hok hs hc hfreed
    have hi := reachable_owned hr.reachable
    have hstep := step_spec hs
    rcases hstep.checks hi (reachable_listed hr.reachable).1 hc with hold | hheld
    · rcases freed_of_step hi hs hfreed with hf | hf
      · exact ih hold hf
      · have hrel : s.release a = some c := by
          simp only [State.frees, Bool.and_eq_true, decide_eq_true_eq] at hf
          exact hf.1
        have hbad : s.freesChecked a = true := by
          rw [State.freesChecked, hrel, Option.any_some, hf, Bool.true_and]
          exact decide_eq_true ⟨t, hold⟩
        rw [hok] at hbad
        cases hbad
    · have hc' := reachable_counts (hr.reachable.next hs)
      exact hc'.not_freed (hc'.pos_of_held hheld) hfreed

/-- An IO thread at an access either is to check the connection, or knows of a reference to it. -/
theorem IoPc.access_alive (hi : Owned s) (hc : Counts s) {c : ConnId}
    (ha : (s.io t).pc.access? = some c) :
    (s.io t).checks c = true ∨ 0 < (s.conns c).refCount := by
  have ho := hi.io t
  have hactive : (s.io t).pc.role = .active c → 0 < (s.conns c).refCount :=
    fun hr => hc.pos_of_held (held_of_active hi hr)
  have hadopting : (s.io t).pc.role = .adopting c → 0 < (s.conns c).refCount := by
    intro hr
    refine hc.pos_of_held ?_
    rw [(ho.adopting c).mp hr]
    rfl
  have hclosing : (s.io t).pc.role = .closing c → 0 < (s.conns c).refCount := by
    intro hr
    refine hc.pos_of_held ?_
    rw [(ho.closing c).mp hr]
    rfl
  have hmessage : ∀ msg, (s.io t).pc.message? = some msg → msg.conn = c →
      0 < (s.conns c).refCount := by
    rintro msg hm rfl
    exact hc.pos_of_message hm
  have hchecks : (s.io t).pc.checks c = true → (s.io t).checks c = true := by
    intro hk
    rw [IoThread.checks, hk, Bool.true_or]
  generalize (s.io t).pc = pc at *
  cases pc with
  | pipeAdopt c' | pipeAdd c' | pipeRelease c' =>
    cases ha
    exact .inr (hadopting rfl)
  | msgCheck msg | msgMod msg | msgRelease msg => exact .inr (hmessage msg rfl (Option.some.inj ha))
  | evCheck x | recheck k x => exact .inl (hchecks (decide_eq_true (Option.some.inj ha)))
  | closeRelease k x =>
    cases ha
    exact .inr (hclosing rfl)
  | evFd x | rdRead x | rdCreate x data | rdSubmit x task | wrEntry x | wrIdle x | wrLoop x
  | wrFinal x | wrReset x | wrMod x | closeMark k x =>
    cases ha
    exact .inr (hactive rfl)
  | _ => cases ha

/-- A worker inspects or changes the connection of its task. -/
theorem WorkerPc.task_of_access {pc : WorkerPc n} {c : ConnId} (ha : pc.access? = some c) :
    ∃ task, pc.task? = some task ∧ task.conn = c := by
  cases pc with
  | check k | install k | sendTest k | sendAcquire k t | closeMark k | closeRelease k | destroy k =>
    exact ⟨k, rfl, Option.some.inj ha⟩
  | _ => cases ha

/-- The main thread knows of a reference to the connection that it inspects or changes. -/
theorem pos_of_mainAccess (hi : Owned s) (hc : Counts s) {c : ConnId} (ha : s.mainAccess = some c) :
    0 < (s.conns c).refCount := by
  rw [State.mainAccess] at ha
  split at ha
  · next t c' f sk hpc =>
    cases ha
    refine hc.pos_of_held ?_
    rw [(hi.creator c).mpr (congrArg MainPc.creating hpc)]
    rfl
  · next c' f sk hpc =>
    cases ha
    refine hc.pos_of_held ?_
    rw [(hi.creator c).mpr (congrArg MainPc.creating hpc)]
    rfl
  · obtain ⟨task, htask, rfl⟩ := Option.map_eq_some_iff.mp ha
    exact hc.pos_of_queue (List.mem_of_mem_head? htask)
  · cases ha

/-- In every run in which no connection is freed that an IO thread is still to check, no step
inspects or changes a connection that has been freed. -/
theorem no_use_after_free
    (h : (server m cfg).ReachableUnder (fun s a => s.freesChecked a = false) s) (a : Action n m)
    (c : ConnId) (ha : s.access a = some c) : ¬(s.conns c).Freed := by
  have hr := h.reachable
  have hi := reachable_owned hr
  have hc := reachable_counts hr
  cases a with
  | main r =>
    exact hc.not_freed (pos_of_mainAccess hi hc ha)
  | io t r =>
    change s.ioAccess t r = some c at ha
    unfold State.ioAccess at ha
    split at ha
    · next f ev hpc =>
      have hreg := ((reachable_listed hr).1.sound t f c ha).1
      exact hc.not_freed (hc.pos_of_held (by rw [hreg]; rfl))
    · rcases IoPc.access_alive hi hc ha with hk | hpos
      · exact checked_not_freed h hk
      · exact hc.not_freed hpos
  | worker w ok =>
    obtain ⟨task, ht, rfl⟩ := WorkerPc.task_of_access ha
    exact hc.not_freed (hc.pos_of_worker ht)
  | env e => cases ha

/-- A task keeps the connection alive behind the close of its peer, so that the check finds it. -/
theorem no_use_after_free_submitted :
    ∃ s : State 1 1, s.access (.io 0 .ok) = some 0 ∧ s.owner 0 = .released 0 ∧
      (s.io 0).pc.checks 0 = true ∧ ¬(s.conns 0).Freed := by
  obtain ⟨s, hs, hp⟩ := (server 1 (Config.fresh 1)).exists_of_execUnder
    (fun s a => s.freesChecked a = false)
    (List.flatten [Action.connect 10, Action.adopt 0, [.env (.data 10 [65]), .env (.peerClose 10)],
      Action.deliver 0 10 { read := true }, Action.readOne 0 1,
      [.io 0 .eof, .io 0 .ok, .io 0 .ok, .io 0 .ok]])
    (fun s => decide (s.access (.io 0 .ok) = some 0 ∧ s.owner 0 = .released 0 ∧
      (s.io 0).pc.checks 0 = true)) rfl (by decide +kernel)
  obtain ⟨ha, ho, hk⟩ := of_decide_eq_true hp
  exact ⟨s, ha, ho, hk, no_use_after_free hs _ 0 ha⟩

/-- A client connects and closes while nothing else is going on: `handle_read` frees the connection,
and `io_thread_run` calls `conn_is_valid` for it. -/
theorem idle_close_uses_freed :
    ∃ s : State 1 1, (server 1 (Config.fresh 1)).Reachable s ∧
      s.access (.io 0 .ok) = some 0 ∧ (s.conns 0).Freed ∧
      ((server 1 (Config.fresh 1)).step s (.io 0 .ok)).isSome = true := by
  obtain ⟨s, hs, hp⟩ := (server 1 (Config.fresh 1)).exists_of_exec
    (List.flatten [Action.connect 10, Action.adopt 0, [.env (.peerClose 10)],
      Action.deliver 0 10 { read := true }, [.io 0 .eof, .io 0 .ok, .io 0 .ok, .io 0 .ok]])
    (fun s => decide (s.access (.io 0 .ok) = some 0 ∧ (s.conns 0).Freed ∧
      ((server 1 (Config.fresh 1)).step s (.io 0 .ok)).isSome = true)) rfl (by decide +kernel)
  exact ⟨s, hs, of_decide_eq_true hp⟩

end alive

end DeepInIo.AdvancedServer
