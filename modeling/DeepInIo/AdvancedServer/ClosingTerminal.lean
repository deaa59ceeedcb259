import DeepInIo.AdvancedServer.ResumableWrite

/-!
# What happens after a connection was marked

`process_request` tests a connection once and works on it later.  When an IO thread marks the
connection in between, the worker still installs its response, and the state leaves
`CONN_STATE_CLOSING`.  Nothing else touches a marked connection: in every run that marks connections
only while no worker is about to install a response for them, they stay as they are, and every other
run can go on to such an installation (`closing_terminal`).
-/

namespace DeepInIo.AdvancedServer

open State

variable {n m : ℕ}

/-- The worker is about to install a response for the connection. -/
def WorkerPc.installs (c : ConnId) : WorkerPc n → Bool
  | .install task => responseFits task.data && decide (task.conn = c)
  | _ => false

namespace State

/-- The connection that the step marks. -/
def marks (s : State n m) : Action n m → Option ConnId
  | .io t _ =>
    match (s.io t).pc with
    | .closeMark _ x => some x.conn
    | _ => none
  | .worker w _ =>
    match s.worker w with
    | .closeMark task => some task.conn
    | _ => none
  | _ => none

/-- Some worker is about to install a response for the connection. -/
def Installing (s : State n m) (c : ConnId) : Prop :=
  ∃ w, (s.worker w).installs c = true

instance (s : State n m) (c : ConnId) : Decidable (s.Installing c) :=
  inferInstanceAs (Decidable (∃ w, (s.worker w).installs c = true))

end State

/-- What a step does to the flag `closing` and the state of a connection. -/
inductive StatusChange (s s' : State n m) (c : ConnId) (a : Action n m) : Prop
  | same (hclosing : (s'.conns c).closing = (s.conns c).closing) (hstate : (s'.conns c).state =
    (s.conns c).state)
  /-- the connection is open, and stays so -/
  | opened (hold : (s.conns c).closing = false) (hnew : (s'.conns c).closing = false)
  | install (hinstalls : s.installs c a = true) (hclosing : (s'.conns c).closing =
    (s.conns c).closing)
  | mark (hold : (s.conns c).closing = false) (hmarks : s.marks a = some c)
      (hstate : (s'.conns c).state = .closing)

section steps

variable {cfg : Config n} {s s' : State n m} {c : ConnId}

/-- A connection that an IO thread treats is not marked. -/
theorem closing_of_active (hi : Owned s) {t : Fin n} (hrole : (s.io t).pc.role = .active c) :
    (s.conns c).closing = false := by
  have howner : (s.conns c).owner = .registered t := (hi.io t).active c hrole
  rw [(hi.conn c).flag, howner]
  rfl

/-- A step that changes one connection keeps the status of the others. -/
theorem StatusChange.of_ne {c₀ : ConnId} {k : Conn n} {a : Action n m}
    (hconns : s'.conns = Function.update s.conns c₀ k) (hc : c ≠ c₀) : StatusChange s s' c a := by
  refine .same ?_ ?_ <;> rw [hconns, Function.update_of_ne hc]

/-- A step that changes no flag and no state. -/
theorem StatusChange.update {c₀ : ConnId} {k : Conn n} {a : Action n m}
    (hconns : s'.conns = Function.update s.conns c₀ k) (hclosing : k.closing = (s.conns c₀).closing)
    (hstate : k.state = (s.conns c₀).state) : StatusChange s s' c a := by
  by_cases hc : c = c₀
  · subst hc
    refine .same ?_ ?_ <;> rw [hconns, Function.update_self]
    · exact hclosing
    · exact hstate
  · exact .of_ne hconns hc

/-- What an IO thread does to the status of a connection. -/
theorem ioStep_statusChange (hi : Owned s) {t : Fin n} {r : IoResult}
    (hs : s.ioStep cfg t r = some s') (c : ConnId) : StatusChange s s' c (.io t r) := by
  have hread : ∀ {c₀ : ConnId} {k : Conn n}, s'.conns = Function.update s.conns c₀ k →
      k.closing = (s.conns c₀).closing → (s.io t).pc.role = .active c₀ →
      StatusChange s s' c (.io t r) := by
    intro c₀ k hconns hclosing hrole
    by_cases hc : c = c₀
    · subst hc
      have hold := closing_of_active hi hrole
      refine .opened hold ?_
      rw [hconns, Function.update_self, hclosing, hold]
    · exact .of_ne hconns hc
  cases ioStep_spec hs with
  | @closeMark k x hpc =>
    by_cases hc : c = x.conn
    · subst hc
      have hold := closing_of_active hi (congrArg IoPc.role hpc : _ = Role.active x.conn)
      refine .mark hold (by simp only [marks, hpc]) ?_
      rw [markClosing_conns, Function.update_self]
      simp [hold]
    · exact .of_ne (markClosing_conns ..) hc
  | readData hpc => exact hread rfl rfl (congrArg IoPc.role hpc)
  | backToRead hpc =>
    rcases hpc with hpc | hpc
    · exact hread rfl rfl (congrArg IoPc.role hpc)
    · exact hread rfl rfl (congrArg IoPc.role hpc)
  | reject => exact .update (rejectConnection_conns ..) rfl rfl
  | closeRelease => exact .update (releaseOwner_conns ..) rfl rfl
  | readConn | adopt | register | msgRelease | createTask | createLeak | submitLeak | wrote
  | reset =>
    exact .update rfl rfl rfl
  | _ => exact .same rfl rfl

/-- What a step does to the status of a connection. -/
theorem step_statusChange (hi : Owned s) {a : Action n m} (hs : (server m cfg).step s a = some s')
    (c : ConnId) : StatusChange s s' c a := by
  cases a with
  | io t r => exact ioStep_statusChange hi hs c
  | main r =>
    cases mainStep_spec hs with
    | create hpc =>
      by_cases hc : c = s.nextConn
      · subst hc
        have hfresh := hi.fresh _ ((hi.unborn _).mpr le_rfl)
        refine .opened (by rw [hfresh]; rfl) ?_
        rw [createConnection_conns, Function.update_self]
        rfl
      · exact .of_ne (funext fun _ => createConnection_conns ..) hc
    | drop => exact .update (dropConnection_conns ..) rfl rfl
    | handOff | destroyTask => exact .update rfl rfl rfl
    | _ => exact .same rfl rfl
  | worker w ok =>
    cases workerStep_spec hs with
    | @install task hpc hf =>
      by_cases hc : c = task.conn
      · subst hc
        refine .install (by simp [State.installs, hpc, hf]) ?_
        rw [setWorker_conns, setConn_conns, Function.update_self]
        rfl
      · exact .of_ne rfl hc
    | closeMark hpc =>
      have hcloses := hi.never_closes w
      rw [hpc] at hcloses
      cases hcloses
    | acquire | closeRelease | destroy => exact .update rfl rfl rfl
    | _ => exact .same rfl rfl
  | env e => cases envStep_spec hs <;> exact .same rfl rfl

/-- A worker begins to work on a connection that is valid. -/
theorem installs_step {a : Action n m} (hs : (server m cfg).step s a = some s') {w : Fin m}
    (h : (s'.worker w).installs c = true) :
    (s.worker w).installs c = true ∨ (s.conns c).closing = false := by
  cases step_spec hs with
  | main h' =>
    rw [h'.worker_eq] at h
    exact .inl h
  | io t h' =>
    rw [h'.worker_eq] at h
    exact .inl h
  | env h' =>
    cases h' <;> exact .inl h
  | worker w₀ h' =>
    by_cases hw : w = w₀
    · subst hw
      cases h' with
      | move hm =>
        rw [setWorker_worker, Function.update_self] at h
        generalize s.worker w = pc at hm
        cases hm with
        | process task ht hv =>
          right
          simp only [WorkerPc.installs, Bool.and_eq_true, decide_eq_true_eq] at h
          rw [← h.2]
          simp only [Conn.isValid, Bool.and_eq_true, Bool.not_eq_true'] at hv
          exact hv.1
        | _ => cases h
      | _ => simp [WorkerPc.installs, linkMessage] at h
    · rw [h'.worker_ne hw] at h
      exact .inl h

/-- A step that marks a connection moves no worker. -/
theorem marks_step (hi : Owned s) {a : Action n m} (hs : (server m cfg).step s a = some s')
    (hmarks : s.marks a = some c) : s'.worker = s.worker ∧ (s'.conns c).closing = true := by
  cases a with
  | io t r =>
    refine ⟨(ioStep_spec hs).worker_eq, ?_⟩
    unfold State.marks at hmarks
    simp only at hmarks
    split at hmarks
    · next k x hpc =>
      cases hmarks
      have hs' : s.ioStep cfg t r = some s' := hs
      simp only [ioStep, hpc, Option.some.injEq] at hs'
      rw [← hs', markClosing_conns, Function.update_self]
      rfl
    · cases hmarks
  | worker w ok =>
    have hcloses := hi.never_closes w
    unfold State.marks at hmarks
    simp only at hmarks
    split at hmarks
    · next task hpc =>
      rw [hpc] at hcloses
      cases hcloses
    · cases hmarks
  | main r => cases hmarks
  | env e => cases hmarks

/-- An installation is one of a worker that is about to install. -/
theorem installing_of_installs {a : Action n m} (h : s.installs c a = true) : s.Installing c := by
  cases a with
  | worker w ok =>
    refine ⟨w, ?_⟩
    unfold State.installs at h
    unfold WorkerPc.installs
    exact h
  | _ => cases h

/-! ### Marked connections -/

/-- The connection is marked, and no worker is about to install a response for it. -/
structure Terminal (s : State n m) (c : ConnId) : Prop where
  closing : (s.conns c).closing = true
  state : (s.conns c).state = .closing
  quiet : ¬s.Installing c

/-- Every step leaves such a connection alone. -/
theorem Terminal.step (h : Terminal s c) (hi : Owned s) {a : Action n m}
    (hs : (server m cfg).step s a = some s') : s.installs c a = false ∧ Terminal s' c := by
  have hnot : s.installs c a = false := by
    rw [Bool.eq_false_iff]
    exact fun hinstalls => h.quiet (installing_of_installs hinstalls)
  have hquiet : ¬s'.Installing c := by
    rintro ⟨w, hw⟩
    rcases installs_step hs hw with hold | hopen
    · exact h.quiet ⟨w, hold⟩
    · rw [h.closing] at hopen
      cases hopen
  refine ⟨hnot, ?_⟩
  cases step_statusChange hi hs c with
  | same hclosing hstate => exact ⟨hclosing.trans h.closing, hstate.trans h.state, hquiet⟩
  | opened hold =>
    rw [h.closing] at hold
    cases hold
  | install hinstalls =>
    rw [hnot] at hinstalls
    cases hinstalls
  | mark hold =>
    rw [h.closing] at hold
    cases hold

/-- No worker is about to install a response for a connection that the step marks. -/
def State.MarksQuietly (s : State n m) (a : Action n m) : Prop :=
  ∀ c ∈ s.marks a, ¬s.Installing c

instance (s : State n m) (a : Action n m) : Decidable (s.MarksQuietly a) :=
  inferInstanceAs (Decidable (∀ c ∈ s.marks a, ¬s.Installing c))

/-- While connections are marked quietly, all marked ones are left alone. -/
theorem terminal_step (h : (s.conns c).closing = true → Terminal s c) (hi : Owned s)
    {a : Action n m} (hok : s.MarksQuietly a) (hs : (server m cfg).step s a = some s')
    (hclosing : (s'.conns c).closing = true) :
    Terminal s' c := by
  by_cases hold : (s.conns c).closing = true
  · exact ((h hold).step hi hs).2
  · cases step_statusChange hi hs c with
    | same hsame => exact absurd (hsame.symm.trans hclosing) hold
    | opened _ hnew =>
      rw [hclosing] at hnew
      cases hnew
    | install _ hsame => exact absurd (hsame.symm.trans hclosing) hold
    | mark hopen hmarks hstate =>
      refine ⟨hclosing, hstate, ?_⟩
      rintro ⟨w, hw⟩
      rw [(marks_step hi hs hmarks).1] at hw
      exact hok c (Option.mem_def.mpr hmarks) ⟨w, hw⟩

/-- A worker that is about to install a response for a marked connection can do so. -/
theorem install_marked (cfg : Config n) {w : Fin m} (h : (s.worker w).installs c = true)
    (hclosing : (s.conns c).closing = true) :
    ∃ s', (server m cfg).step s (.worker w true) = some s' ∧ s.installs c (.worker w true) = true ∧
      (s'.conns c).closing = true ∧ (s'.conns c).state = .writing := by
  unfold WorkerPc.installs at h
  split at h
  · next task hpc =>
    rw [Bool.and_eq_true, decide_eq_true_eq] at h
    obtain ⟨hfits, rfl⟩ := h
    refine ⟨s.installResponse w task, by simp [server, State.step, workerStep, hpc], ?_, ?_⟩
    · simp [State.installs, hpc, hfits]
    · simp [installResponse, hfits, hclosing]
  · cases h

/-- In every run that marks connections quietly, the marked ones stay in the state
`CONN_STATE_CLOSING` and get no response; when a connection is marked otherwise, the worker can
install its response next. -/
theorem closing_terminal {tr : List (State n m × Action n m)}
    (h : (server m cfg).Trace (fun s a => s.MarksQuietly a) (State.start cfg) tr s) (c : ConnId) :
    (∀ p ∈ tr, (p.1.conns c).closing = true → (p.1.conns c).state = .closing ∧
      p.1.installs c p.2 = false) ∧
    ((s.conns c).closing = true → (s.conns c).state = .closing) ∧
    ∀ a s₁, (server m cfg).step s a = some s₁ → s.marks a = some c → s.Installing c →
      ∃ w s₂, (server m cfg).step s₁ (.worker w true) = some s₂ ∧ (s₁.conns c).closing = true ∧
        s₁.installs c (.worker w true) = true ∧ (s₂.conns c).state ≠ .closing := by
  have hstart : (server m cfg).Reachable (State.start cfg) := .init rfl
  have hrun : (∀ p ∈ tr, (p.1.conns c).closing = true →
      (p.1.conns c).state = .closing ∧ p.1.installs c p.2 = false) ∧
      ((s.conns c).closing = true → Terminal s c) := by
    refine TransitionSystem.Trace.invariant hstart (P := fun tr s =>
      (∀ p ∈ tr, (p.1.conns c).closing = true → (p.1.conns c).state = .closing ∧
        p.1.installs c p.2 = false) ∧
      ((s.conns c).closing = true → Terminal s c)) ⟨by rintro _ ⟨⟩, by rintro ⟨⟩⟩ ?_ h
    rintro tr s₁ a s₂ hr ⟨hpast, hnow⟩ hok hs
    have hi := reachable_owned hr
    refine ⟨fun p hp hclosing => ?_, terminal_step hnow hi hok hs⟩
    rcases List.mem_append.mp hp with hp | hp
    · exact hpast p hp hclosing
    · rw [List.mem_singleton.mp hp] at hclosing ⊢
      exact ⟨(hnow hclosing).state, ((hnow hclosing).step hi hs).1⟩
  refine ⟨hrun.1, fun hclosing => (hrun.2 hclosing).state, ?_⟩
  rintro a s₁ hs hmarks ⟨w, hw⟩
  obtain ⟨hworker, hclosing⟩ := marks_step (reachable_owned (h.reachable hstart)) hs hmarks
  rw [← hworker] at hw
  obtain ⟨s₂, hs₂, hinstalls, -, hstate⟩ := install_marked cfg hw hclosing
  exact ⟨w, s₂, hs₂, hclosing, hinstalls, by rw [hstate]; rintro ⟨⟩⟩

end steps

/-- A client sends a byte and closes; the connection is marked while its task waits for a worker. -/
theorem closing_terminal_queued :
    ∃ s : State 1 1, (s.conns 0).closing = true ∧ s.tasksCompleted = 1 ∧
      (s.conns 0).state = .closing := by
  obtain ⟨s, htr, hp⟩ := (server 1 (Config.fresh 1)).exists_trace
    (s := State.start (Config.fresh 1)) (fun s a => s.MarksQuietly a)
    (List.flatten [Action.connect 10, Action.adopt 0, [.env (.data 10 [65]), .env (.peerClose 10)],
      Action.deliver 0 10 { read := true }, Action.readOne 0 1, Action.work 0 2,
      [.io 0 .eof, .io 0 .ok], Action.work 0 3])
    (fun s => decide ((s.conns 0).closing = true ∧ s.tasksCompleted = 1)) (by decide +kernel)
  obtain ⟨hclosing, htasks⟩ := of_decide_eq_true hp
  exact ⟨s, hclosing, htasks, (closing_terminal htr 0).2.1 hclosing⟩

/-- The connection is marked when the worker has just found it valid: the response is installed
afterwards, and the state is `CONN_STATE_WRITING`. -/
theorem not_closing_terminal :
    ¬∀ s : State 1 1, (server 1 (Config.fresh 1)).Reachable s → ∀ c, (s.conns c).closing = true →
      ∀ a s', (server 1 (Config.fresh 1)).step s a = some s' →
        (s'.conns c).state = .closing ∧ s.installs c a = false := by
  intro h
  obtain ⟨s, hs, hp⟩ := (server 1 (Config.fresh 1)).exists_of_exec
    (List.flatten [Action.connect 10, Action.adopt 0, [.env (.data 10 [65]), .env (.peerClose 10)],
      Action.deliver 0 10 { read := true }, Action.readOne 0 1, Action.work 0 3,
      [.io 0 .eof, .io 0 .ok]])
    (fun s => decide ((s.conns 0).closing = true ∧ s.installs 0 (.worker 0 true) = true) &&
      ((server 1 (Config.fresh 1)).step s (.worker 0 true)).isSome) rfl (by decide +kernel)
  rw [Bool.and_eq_true] at hp
  obtain ⟨hclosing, hinstalls⟩ := of_decide_eq_true hp.1
  obtain ⟨s', hs'⟩ := Option.isSome_iff_exists.mp hp.2
  have hnot := (h s hs 0 hclosing _ s' hs').2
  rw [hinstalls] at hnot
  cases hnot

end DeepInIo.AdvancedServer
