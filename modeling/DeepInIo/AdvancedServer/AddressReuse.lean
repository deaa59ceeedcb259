import DeepInIo.AdvancedServer.Stored

/-!
# Addresses that are used again

`server` takes a new number for every connection, and a freed connection keeps what it held.  In
`reusingServer` a `ConnId` is an address.  `malloc` hands the memory of a freed `connection_t` out
again: to `conn_create`, which puts another connection there, or to somebody else, who overwrites
it.  The event loop may still hold such an address, because it calls `conn_is_valid` without a
reference (`IoThread.checks`), and finds there whatever the memory holds by then.

As long as `malloc` hands out no memory that is still to be checked, nothing refers to the
connection that was there, and the server does the same as with new numbers (`exists_numbered`).
That is so, in particular, when no connection is freed that is still to be checked
(`reusesChecked_of_freesChecked`).
-/

namespace DeepInIo.AdvancedServer

open State

variable {n m : ℕ}

/-! ### The server -/

/-- A step of the server; `malloc` chooses which memory it hands out. -/
inductive ReuseAction (n m : ℕ)
  /-- `conn_create` gets the memory at the address -/
  | create (p : ConnId)
  /-- the memory of a freed connection is used for something else, and holds this afterwards -/
  | overwrite (p : ConnId) (k : Conn n)
  | other (a : Action n m)

namespace State

variable (s : State n m)

/-- The memory at the address is free: no connection was created there, or it was freed. -/
def Available (p : ConnId) : Prop :=
  s.owner p = .unborn ∨ (s.conns p).Freed

instance (p : ConnId) : Decidable (s.Available p) :=
  inferInstanceAs (Decidable (_ ∨ _))

/-- `conn_create` in `io_thread_add_connection` when `malloc` returns `p`. -/
def createAt (p : ConnId) (t : Fin n) (f : Fd) (sk : SockId) : State n m :=
  { s with nextConn := p }.createConnection t f sk

/-- One step of the server in which memory is used again. -/
def reuseStep (cfg : Config n) : ReuseAction n m → Option (State n m)
  | .create p =>
    match s.main with
    | .create t f sk => if s.Available p then some (s.createAt p t f sk) else none
    | _ => none
  | .overwrite p k => if (s.conns p).Freed ∧ k.Freed then some (s.setConn p k) else none
  | .other a => if s.creates a then none else s.step cfg a

/-- The memory is that of a connection that an IO thread is still to check. -/
def Checked (p : ConnId) : Prop :=
  ∃ t, (s.io t).checks p = true

instance (p : ConnId) : Decidable (s.Checked p) :=
  inferInstanceAs (Decidable (∃ _, _))

/-- `malloc` hands out the memory of a connection that an IO thread is still to check. -/
def reusesChecked : ReuseAction n m → Bool
  | .create p | .overwrite p _ => decide (s.Checked p)
  | .other _ => false

end State

/-- The server in which memory is used again. -/
def reusingServer (m : ℕ) (cfg : Config n) :
    TransitionSystem (State n m) (ReuseAction n m) where
  init s := s = State.start cfg
  step s a := s.reuseStep cfg a

/-! ### The addresses that a step uses -/

/-- The connection is freed, and no IO thread is still to check it. -/
def State.Gone (s : State n m) (c : ConnId) : Prop :=
  (s.conns c).Freed ∧ ∀ t, (s.io t).checks c = false

section gone

variable {cfg : Config n} {s s' : State n m} {t : Fin n} {w : Fin m} {c : ConnId}

/-- A freed connection stays freed. -/
theorem freed_step {a : Action n m} (hi : Owned s) (hs : (server m cfg).step s a = some s')
    (hf : (s.conns c).Freed) : (s'.conns c).Freed := by
  have hupdate : ∀ {c₀ : ConnId} {k : Conn n}, (s.conns c₀).frees ≤ k.frees →
      (Function.update s.conns c₀ k c).Freed := by
    intro c₀ k hk
    by_cases hc : c = c₀
    · subst hc
      rw [Function.update_self]
      exact Nat.lt_of_lt_of_le hf hk
    · rwa [Function.update_of_ne hc]
  have hrelease : ∀ k : Conn n, k.frees ≤ k.release.frees := by
    intro k
    rw [Conn.release_frees]
    split
    · exact Nat.le_succ _
    · exact Nat.le_refl _
  cases a with
  | main r =>
    cases mainStep_spec hs with
    | create hpc =>
      have hunborn := hi.fresh _ ((hi.unborn _).mpr le_rfl)
      exact hupdate (by rw [hunborn]; exact Nat.zero_le _)
    | handOff => exact hupdate le_rfl
    | drop =>
      rw [dropConnection_conns]
      exact hupdate (hrelease _)
    | destroyTask => exact hupdate (hrelease _)
    | _ => exact hf
  | io t r =>
    cases ioStep_spec hs with
    | reject =>
      rw [rejectConnection_conns]
      exact hupdate (hrelease _)
    | closeMark =>
      rw [markClosing_conns]
      exact hupdate le_rfl
    | closeRelease =>
      rw [releaseOwner_conns]
      exact hupdate (hrelease _)
    | msgRelease => exact hupdate (hrelease _)
    | readConn | adopt | register | readData | createTask | createLeak | submitLeak | backToRead
    | wrote | reset => exact hupdate le_rfl
    | _ => exact hf
  | worker w ok =>
    cases workerStep_spec hs with
    | install | acquire | closeMark => exact hupdate le_rfl
    | closeRelease | destroy => exact hupdate (hrelease _)
    | _ => exact hf
  | env e => cases envStep_spec hs <;> exact hf

/-- A connection that is gone stays gone. -/
theorem State.Gone.step (h : s.Gone c) (hr : (server m cfg).Reachable s) {a : Action n m}
    (hs : (server m cfg).step s a = some s') : s'.Gone c := by
  have hi := reachable_owned hr
  have hfreed := freed_step hi hs h.1
  refine ⟨hfreed, fun t => Bool.eq_false_iff.mpr fun hk => ?_⟩
  rcases (step_spec hs).checks hi (reachable_listed hr).1 hk with hold | hheld
  · rw [h.2 t] at hold
    cases hold
  · have hc := reachable_counts (hr.next hs)
    exact hc.not_freed (hc.pos_of_held hheld) hfreed

/-- A connection with a reference has been created, and is not gone. -/
theorem not_gone_of_pos (hi : Owned s) (hc : Counts s) (hpos : 0 < (s.conns c).refCount) :
    c < s.nextConn ∧ ¬s.Gone c := by
  refine ⟨not_le.mp fun hle => ?_, fun hgone => hc.not_freed hpos hgone.1⟩
  rw [hi.fresh c ((hi.unborn c).mpr hle)] at hpos
  exact lt_irrefl 0 hpos

/-- A connection that is still to be checked has been created, and is not gone. -/
theorem not_gone_of_checks (hi : Owned s) (hk : (s.io t).checks c = true) :
    c < s.nextConn ∧ ¬s.Gone c := by
  refine ⟨not_le.mp fun hle => ?_, fun hgone => ?_⟩
  · have hunborn := (hi.unborn c).mpr hle
    have ho := hi.io t
    rw [IoThread.checks, Bool.or_eq_true, List.any_eq_true] at hk
    rcases hk with hk | ⟨e, he, hk⟩
    · have hrole : (s.io t).pc.role = .known c ∨ (s.io t).pc.role = .closing c := by
        generalize (s.io t).pc = pc at hk
        cases pc with
        | evCheck x | recheck k x => exact .inl (congrArg Role.known (of_decide_eq_true hk))
        | closeRelease k x =>
          simp only [IoPc.checks, Bool.and_eq_true, decide_eq_true_eq] at hk
          exact .inr (congrArg Role.closing hk.2)
        | _ => cases hk
      rcases hrole with hrole | hrole
      · rcases ho.known c hrole with howner | howner
        all_goals rw [hunborn] at howner
        all_goals cases howner
      · have howner := (ho.closing c).mp hrole
        rw [hunborn] at howner
        cases howner
    · cases e with
      | conn c' ev =>
        obtain rfl : c' = c := of_decide_eq_true hk
        have hloop := ho.batch c' ev he
        rw [hunborn] at hloop
        cases hloop
      | _ => cases hk
  · rw [hgone.2 t] at hk
    cases hk

/-- The connections that an IO thread inspects or changes. -/
theorem not_gone_of_ioAccess (hi : Owned s) (hc : Counts s)
    (ha : (s.io t).pc.access? = some c) : c < s.nextConn ∧ ¬s.Gone c := by
  rcases IoPc.access_alive hi hc ha with hk | hpos
  · exact not_gone_of_checks hi hk
  · exact not_gone_of_pos hi hc hpos

/-- The next connection in a hand-off pipe. -/
theorem not_gone_of_pipe (hi : Owned s) (hc : Counts s)
    (ha : (s.io t).pipe.head? = some (.conn c)) : c < s.nextConn ∧ ¬s.Gone c := by
  refine not_gone_of_pos hi hc (hc.pos_of_held ?_)
  rw [((hi.io t).pipe c).mp (List.mem_of_mem_head? ha)]
  rfl

/-- The connections that a worker inspects or changes. -/
theorem not_gone_of_workerAccess (hi : Owned s) (hc : Counts s)
    (ha : (s.worker w).access? = some c) : c < s.nextConn ∧ ¬s.Gone c := by
  obtain ⟨task, htask, rfl⟩ := WorkerPc.task_of_access ha
  exact not_gone_of_pos hi hc (hc.pos_of_worker htask)

/-- The connection that the main thread inspects or changes. -/
theorem not_gone_of_mainAccess (hi : Owned s) (hc : Counts s) (ha : s.mainAccess = some c) :
    c < s.nextConn ∧ ¬s.Gone c :=
  not_gone_of_pos hi hc (pos_of_mainAccess hi hc ha)

/-- Only `conn_create` takes a new number. -/
theorem nextConn_step {a : Action n m} (hs : (server m cfg).step s a = some s')
    (hno : s.creates a = false) : s'.nextConn = s.nextConn := by
  cases a with
  | main r =>
    change s.mainStep cfg r = some s' at hs
    cases mainStep_spec hs with
    | create hpc =>
      simp only [State.mainStep, hpc] at hs
      cases r with
      | ok => simp [State.creates, hpc] at hno
      | fail => exact (congrArg State.nextConn (Option.some.inj hs)).symm
      | accepted | again | intr | stop => cases hs
    | _ => rfl
  | io t r => exact (ioStep_spec hs).nextConn_eq
  | worker w ok => exact (workerStep_spec hs).nextConn_eq
  | env e => cases envStep_spec hs <;> rfl

/-- A step takes no new number, or it is a `conn_create`. -/
theorem nextConn_cases {a : Action n m} (hs : (server m cfg).step s a = some s') :
    s'.nextConn = s.nextConn ∨
      ∃ t f sk, a = .main .ok ∧ s.main = .create t f sk ∧ s' = s.createConnection t f sk := by
  by_cases hno : s.creates a = false
  · exact .inl (nextConn_step hs hno)
  · refine .inr ?_
    rw [Bool.not_eq_false] at hno
    cases a with
    | main res =>
      cases res with
      | ok =>
        simp only [State.creates] at hno
        split at hno
        · next t f sk hpc =>
          change s.mainStep cfg .ok = some s' at hs
          rw [State.mainStep, hpc] at hs
          exact ⟨t, f, sk, rfl, hpc, (Option.some.inj hs).symm⟩
        · cases hno
      | _ => cases hno
    | _ => cases hno

end gone

/-! ### Runs -/

/-- What `server` does in a step. -/
def ReuseAction.base : ReuseAction n m → Option (Action n m)
  | .create _ => some (.main .ok)
  | .overwrite .. => none
  | .other a => some a

/-- The run of `server` has come to `s` where that with the addresses `α` has come to `r`; the
connections that are not live any more are gone. -/
structure AtAddresses (cfg : Config n) (α : ConnId → ConnId) (live : ConnId → Prop)
    (s r : State n m) : Prop where
  reachable : (server m cfg).Reachable s
  created : ∀ c, live c → c < s.nextConn
  gone : ∀ c < s.nextConn, ¬live c → s.Gone c
  stored : ∀ α', (∀ c < s.nextConn, α' c = α c) → Stored α' live s r

section placed

variable {cfg : Config n} {s s' r r' : State n m} {α α' : ConnId → ConnId} {live : ConnId → Prop}
  {c : ConnId}

/-- A thread that checks a connection checks its address. -/
theorem checks_readdress {th : IoThread} (h : th.checks c = true) :
    (th.readdress α).checks (α c) = true := by
  rw [IoThread.checks, Bool.or_eq_true] at h ⊢
  refine h.imp (fun hpc => ?_) fun hb => ?_
  · rw [IoThread.readdress_pc]
    generalize th.pc = pc at hpc
    cases pc with
    | evCheck x | recheck k x => exact decide_eq_true (congrArg α (of_decide_eq_true hpc))
    | closeRelease k x =>
      simp only [IoPc.checks, Bool.and_eq_true, decide_eq_true_eq] at hpc
      simp [IoPc.readdress, IoPc.checks, hpc.1, hpc.2]
    | _ => cases hpc
  · obtain ⟨e, he, hk⟩ := List.any_eq_true.mp hb
    refine List.any_eq_true.mpr ⟨e.readdress α, List.mem_map_of_mem he, ?_⟩
    cases e with
    | conn c' ev => exact decide_eq_true (congrArg α (of_decide_eq_true hk))
    | _ => cases hk

/-- The state in which no connection lies at the address any more. -/
theorem Stored.clear (h : Stored α live s r) {p : ConnId} {k : Conn n} :
    Stored α (fun c => live c ∧ α c ≠ p) s (r.setConn p k) where
  __ := h
  conns c hc := by
    rw [setConn_conns, Function.update_of_ne hc.2]
    exact h.conns c hc.1
  apart c c' hc hc' := h.apart c c' hc.1 hc'.1

namespace AtAddresses

/-- The state is that of `server` at the addresses. -/
theorem self (h : AtAddresses cfg α live s r) : Stored α live s r :=
  h.stored α fun _ _ => rfl

/-- A connection that is not gone is live. -/
theorem live_of_not_gone (h : AtAddresses cfg α live s r) (hc : c < s.nextConn ∧ ¬s.Gone c) :
    live c :=
  not_imp_comm.mp (h.gone c hc.1) hc.2

/-- A connection whose memory is handed out again is gone, unless it is still to be checked. -/
theorem gone_of_freed (h : AtAddresses cfg α live s r) (hc : live c) (hf : (r.conns (α c)).Freed)
    (hno : ¬r.Checked (α c)) : s.Gone c := by
  rw [h.self.conns c hc] at hf
  refine ⟨hf, fun t => Bool.eq_false_iff.mpr fun hk => hno ⟨t, ?_⟩⟩
  rw [h.self.io]
  exact checks_readdress hk

/-- Both servers are at the same program point of the main thread. -/
theorem creates_eq (h : AtAddresses cfg α live s r) (a : Action n m) :
    r.creates a = s.creates a := by
  cases a with
  | main res =>
    cases res with
    | ok =>
      rw [State.creates, State.creates, h.self.main]
      cases s.main <;> rfl
    | _ => rfl
  | _ => rfl

/-- Both servers take the same step when no connection is created. -/
theorem other (h : AtAddresses cfg α live s r) {a : Action n m} (hno : r.creates a = false)
    (hs : r.step cfg a = some r') :
    ∃ s', (server m cfg).step s a = some s' ∧ AtAddresses cfg α live s' r' ∧
      s'.nextConn = s.nextConn := by
  have hi := reachable_owned h.reachable
  have hc := reachable_counts h.reachable
  rw [h.creates_eq] at hno
  have hrel : ∀ α', (∀ c < s.nextConn, α' c = α c) →
      Option.Rel (Stored α' live) (s.step cfg a) (r.step cfg a) := by
    intro α' hα
    have hst := h.stored α' hα
    have hlive := fun c => h.live_of_not_gone (c := c)
    cases a with
    | main res =>
      exact hst.mainStep (fun c ha => hlive c (not_gone_of_mainAccess hi hc ha)) res hno
    | io t res =>
      refine hst.ioStep (fun c ha => hlive c (not_gone_of_ioAccess hi hc ha))
        (fun c ha => hlive c (not_gone_of_pipe hi hc ha)) (fun x task hpc => ?_) res
      have hrole := (hi.submitting t task (by rw [hpc]; rfl)).2
      rw [hpc] at hrole
      exact (Role.active.inj hrole).symm
    | worker w ok =>
      exact hst.workerStep (fun c ha => hlive c (not_gone_of_workerAccess hi hc ha)) ok
    | env e => exact hst.envStep e
  have hself := hrel α fun _ _ => rfl
  rw [hs] at hself
  cases hstep : s.step cfg a with
  | none =>
    rw [hstep] at hself
    cases hself
  | some s' =>
    have hs' : (server m cfg).step s a = some s' := hstep
    have hnext := nextConn_step hs' hno
    refine ⟨s', hs', ⟨h.reachable.next hs', ?_, ?_, fun α' hα => ?_⟩, hnext⟩
    · rw [hnext]
      exact h.created
    · rw [hnext]
      exact fun c hc hdead => (h.gone c hc hdead).step h.reachable hs'
    · rw [hnext] at hα
      have hboth := hrel α' hα
      rw [hs, hstep] at hboth
      cases hboth with
      | some hst => exact hst

/-- A new connection gets memory that no IO thread is still to check. -/
theorem create (h : AtAddresses cfg α live s r) {p : ConnId} {t : Fin n} {f : Fd} {sk : SockId}
    (hpc : r.main = .create t f sk) (hfree : r.Available p) (hno : ¬r.Checked p) :
    (server m cfg).step s (.main .ok) = some (s.createConnection t f sk) ∧
      AtAddresses cfg (Function.update α s.nextConn p)
        (fun c => c = s.nextConn ∨ live c ∧ α c ≠ p) (s.createConnection t f sk)
        (r.createAt p t f sk) := by
  have hi := reachable_owned h.reachable
  have hpc' : s.main = .create t f sk := by
    have hmain := h.self.main
    rw [hpc] at hmain
    cases hs : s.main <;> rw [hs] at hmain <;> cases hmain
    rfl
  have hstep : (server m cfg).step s (.main .ok) = some (s.createConnection t f sk) := by
    change s.mainStep cfg .ok = _
    rw [State.mainStep, hpc']
  refine ⟨hstep, h.reachable.next hstep, ?_, fun c hc hdead => ?_, fun α' hα => ?_⟩
  · rintro c (rfl | ⟨hc, -⟩)
    · exact Nat.lt_succ_self _
    · exact Nat.lt_succ_of_lt (h.created c hc)
  · obtain ⟨hnew, hold⟩ := not_or.mp hdead
    have hlt : c < s.nextConn := lt_of_le_of_ne (Nat.lt_succ_iff.mp hc) hnew
    refine State.Gone.step ?_ h.reachable hstep
    by_cases hl : live c
    · -- the new connection lies on it, so that it was freed
      obtain rfl : α c = p := not_not.mp fun hne => hold ⟨hl, hne⟩
      refine h.gone_of_freed hl (hfree.resolve_left fun hu => ?_) hno
      rw [State.owner, h.self.conns c hl] at hu
      exact absurd ((hi.unborn c).mp hu) (not_le.mpr hlt)
    · exact h.gone c hlt hl
  · rw [createConnection_nextConn] at hα
    have hnew : α' s.nextConn = p := by
      rw [hα _ (Nat.lt_succ_self _), Function.update_self]
    have hsame : ∀ c < s.nextConn, α' c = α c := by
      intro c hc
      rw [hα c (Nat.lt_succ_of_lt hc), Function.update_of_ne (Nat.ne_of_lt hc)]
    have hst := h.stored α' hsame
    have hne : ∀ c, live c ∧ α c ≠ p → α' c ≠ p := by
      intro c hc
      rw [hsame c (h.created c hc.1)]
      exact hc.2
    refine { hst with main := ?_, conns := fun c hc => ?_, apart := fun c c' hc hc' heq => ?_ }
    · rw [createConnection_main, MainPc.readdress, hnew]
      rfl
    · change Function.update r.conns p _ (α' c) = Function.update s.conns s.nextConn _ c
      rcases hc with rfl | hc
      · rw [hnew, Function.update_self, Function.update_self]
      · rw [Function.update_of_ne (hne c hc), Function.update_of_ne (h.created c hc.1).ne]
        exact hst.conns c hc.1
    · rcases hc with rfl | hc <;> rcases hc' with rfl | hc'
      · rfl
      · exact (hne c' hc' (heq.symm.trans hnew)).elim
      · exact (hne c hc (heq.trans hnew)).elim
      · exact hst.apart c c' hc.1 hc'.1 heq

/-- The memory of a freed connection that no IO thread is still to check is used for something
else. -/
theorem overwrite (h : AtAddresses cfg α live s r) {p : ConnId} (k : Conn n)
    (hf : (r.conns p).Freed) (hno : ¬r.Checked p) :
    AtAddresses cfg α (fun c => live c ∧ α c ≠ p) s (r.setConn p k) where
  reachable := h.reachable
  created c hc := h.created c hc.1
  gone c hc hdead := by
    by_cases hl : live c
    · obtain rfl : α c = p := not_not.mp fun hne => hdead ⟨hl, hne⟩
      exact h.gone_of_freed hl hf hno
    · exact h.gone c hc hl
  stored α' hα := by
    have hlive : (fun c => live c ∧ α c ≠ p) = fun c => live c ∧ α' c ≠ p := by
      funext c
      refine propext (and_congr_right fun hc => ?_)
      rw [hα c (h.created c hc)]
    rw [hlive]
    exact (h.stored α' hα).clear

/-- At the start nothing has been created. -/
theorem start (cfg : Config n) :
    AtAddresses cfg id (fun _ => False) (State.start cfg : State n m) (.start cfg) where
  reachable := .init rfl
  created _ hc := hc.elim
  gone c hc := absurd hc (Nat.not_lt_zero c)
  stored _ _ :=
    { kernel := rfl
      main := rfl
      nextThread := rfl
      totalConnections := rfl
      io := rfl
      queue := rfl
      queueShutdown := rfl
      poolShutdown := rfl
      tasksCompleted := rfl
      worker := rfl
      conns := fun _ hc => hc.elim
      apart := fun _ _ hc => hc.elim }

/-- When no memory is handed out that is still to be checked, `server` follows. -/
theorem step (h : AtAddresses cfg α live s r) {a : ReuseAction n m}
    (hno : r.reusesChecked a = false) (hs : (reusingServer m cfg).step r a = some r') :
    ∃ α' live' s', AtAddresses cfg α' live' s' r' ∧
      (∀ b ∈ a.base, (server m cfg).step s b = some s') ∧ (a.base = none → s' = s) := by
  change r.reuseStep cfg a = some r' at hs
  cases a with
  | create p =>
    have hp : ¬r.Checked p := of_decide_eq_false hno
    simp only [State.reuseStep] at hs
    split at hs
    · next t f sk hpc =>
      split at hs
      · next hfree =>
        cases hs
        obtain ⟨hstep, hnext⟩ := h.create hpc hfree hp
        refine ⟨_, _, _, hnext, fun b hb => ?_, nofun⟩
        obtain rfl := Option.some.inj hb
        exact hstep
      · cases hs
    · cases hs
  | overwrite p k =>
    have hp : ¬r.Checked p := of_decide_eq_false hno
    simp only [State.reuseStep] at hs
    split at hs
    · next hfreed =>
      cases hs
      exact ⟨_, _, s, h.overwrite k hfreed.1 hp, nofun, fun _ => rfl⟩
    · cases hs
  | other a =>
    simp only [State.reuseStep] at hs
    split at hs
    · cases hs
    · next hcreates =>
      obtain ⟨s', hs', hnext, -⟩ := h.other (Bool.eq_false_iff.mpr hcreates) hs
      refine ⟨α, live, s', hnext, fun b hb => ?_, nofun⟩
      obtain rfl := Option.some.inj hb
      exact hs'

end AtAddresses

/-- When `malloc` hands out no memory that is still to be checked, `server` has a run to the same
state with new numbers. -/
theorem exists_numbered
    (h : (reusingServer m cfg).ReachableUnder (fun r a => r.reusesChecked a = false) r) :
    ∃ α live s, AtAddresses cfg α live s r := by
  induction h with
  | init h =>
    cases h
    exact ⟨_, _, _, .start cfg⟩
  | step _ hok hs ih =>
    obtain ⟨α, live, s, hplaced⟩ := ih
    obtain ⟨α', live', s', hnext, -⟩ := hplaced.step hok hs
    exact ⟨α', live', s', hnext⟩

/-! ### Runs in which no thread looks at a freed connection -/

/-- The step frees a connection that an IO thread is still to check. -/
def State.reuseFreesChecked (r : State n m) (a : ReuseAction n m) : Bool :=
  a.base.any r.freesChecked

/-- Both servers give up the same reference. -/
theorem Stored.release_eq (h : Stored α live s r) (a : Action n m) :
    r.release a = (s.release a).map α := by
  cases a with
  | main res =>
    simp only [State.release]
    rw [h.main, h.queue]
    cases s.main with
    | queueDestroy => cases s.queue <;> rfl
    | _ => rfl
  | io t res =>
    simp only [State.release]
    rw [h.io]
    simp only [IoThread.readdress_pc]
    cases (s.io t).pc <;> rfl
  | worker w ok =>
    simp only [State.release]
    rw [h.worker]
    dsimp only
    cases s.worker w <;> rfl
  | env e => rfl

/-- A step that frees a connection still to be checked frees its address. -/
theorem AtAddresses.freesChecked (h : AtAddresses cfg α live s r) {a : Action n m}
    (hfrees : s.freesChecked a = true) : r.freesChecked a = true := by
  have hi := reachable_owned h.reachable
  have hc := reachable_counts h.reachable
  obtain ⟨c, hrelease, hboth⟩ := (Option.any_eq_true ..).mp hfrees
  simp only [State.frees, Bool.and_eq_true, decide_eq_true_eq] at hboth
  obtain ⟨⟨-, hlast⟩, t, hk⟩ := hboth
  have hconn := h.self.conns c (h.live_of_not_gone (not_gone_of_checks hi hk))
  have hrelease' : r.release a = some (α c) := by rw [h.self.release_eq, hrelease, Option.map_some]
  refine (Option.any_eq_true ..).mpr ⟨α c, hrelease', ?_⟩
  simp only [State.frees, Bool.and_eq_true, decide_eq_true_eq]
  refine ⟨⟨hrelease', hconn ▸ hlast⟩, t, ?_⟩
  rw [h.self.io]
  exact checks_readdress hk

/-- What an IO thread checks at an address is a connection. -/
theorem checks_of_readdress {th : IoThread} {p : ConnId} (h : (th.readdress α).checks p = true) :
    ∃ c, α c = p ∧ th.checks c = true := by
  rw [IoThread.checks, Bool.or_eq_true] at h
  rcases h with hpc | hb
  · rw [IoThread.readdress_pc] at hpc
    cases hth : th.pc <;> rw [hth] at hpc <;> try cases hpc
    case evCheck x | recheck k x =>
      refine ⟨x.conn, of_decide_eq_true hpc, ?_⟩
      rw [IoThread.checks, hth, IoPc.checks, decide_eq_true rfl, Bool.true_or]
    case closeRelease k x =>
      simp only [IoPc.readdress, IoPc.checks, Bool.and_eq_true, decide_eq_true_eq,
        EventContext.readdress_conn] at hpc
      refine ⟨x.conn, hpc.2, ?_⟩
      simp [IoThread.checks, hth, IoPc.checks, hpc.1]
  · obtain ⟨e, he, hk⟩ := List.any_eq_true.mp hb
    obtain ⟨e₀, he₀, rfl⟩ := List.mem_map.mp he
    cases e₀ with
    | conn c ev =>
      refine ⟨c, of_decide_eq_true hk, ?_⟩
      rw [IoThread.checks, Bool.or_eq_true, List.any_eq_true]
      exact .inr ⟨.conn c ev, he₀, decide_eq_true rfl⟩
    | _ => cases hk

/-- What is handed out is not still to be checked when no connection is freed that is. -/
theorem AtAddresses.not_reusesChecked (h : AtAddresses cfg α live s r)
    (hs : (server m cfg).ReachableUnder (fun s a => s.freesChecked a = false) s)
    {a : ReuseAction n m} (hr : (reusingServer m cfg).step r a = some r') :
    r.reusesChecked a = false := by
  have hi := reachable_owned h.reachable
  have havailable : ∀ p, r.Available p → ¬r.Checked p := by
    rintro p hfree ⟨t, hk⟩
    rw [h.self.io] at hk
    obtain ⟨c, rfl, hchecks⟩ := checks_of_readdress hk
    have hnot := not_gone_of_checks hi hchecks
    rw [State.Available, State.owner, h.self.conns c (h.live_of_not_gone hnot)] at hfree
    rcases hfree with hunborn | hfreed
    · exact absurd ((hi.unborn c).mp hunborn) (not_le.mpr hnot.1)
    · exact checked_not_freed hs hchecks hfreed
  change r.reuseStep cfg a = some r' at hr
  cases a with
  | create p =>
    refine decide_eq_false (havailable p ?_)
    simp only [State.reuseStep] at hr
    split at hr
    · split at hr
      · assumption
      · cases hr
    · cases hr
  | overwrite p k =>
    refine decide_eq_false (havailable p (.inr ?_))
    simp only [State.reuseStep] at hr
    split at hr
    · next hfreed => exact hfreed.1
    · cases hr
  | other a => rfl

/-- When no connection is freed that an IO thread is still to check, `malloc` cannot hand out memory
that an IO thread is still to check. -/
theorem reusesChecked_of_freesChecked
    (h : (reusingServer m cfg).ReachableUnder (fun r a => r.reuseFreesChecked a = false) r) :
    (reusingServer m cfg).ReachableUnder (fun r a => r.reusesChecked a = false) r := by
  suffices hboth : (reusingServer m cfg).ReachableUnder (fun r a => r.reusesChecked a = false) r ∧
      ∃ α live s, AtAddresses cfg α live s r ∧
        (server m cfg).ReachableUnder (fun s a => s.freesChecked a = false) s from hboth.1
  induction h with
  | init h =>
    cases h
    exact ⟨.init rfl, _, _, _, .start cfg, .init rfl⟩
  | @step r r' a _ hok hs ih =>
    obtain ⟨hr, α, live, s, hplaced, hbase⟩ := ih
    have hno := hplaced.not_reusesChecked hbase hs
    obtain ⟨α', live', s', hnext, hstep, hstay⟩ := hplaced.step hno hs
    refine ⟨hr.step hno hs, α', live', s', hnext, ?_⟩
    have hbase' : ∀ b ∈ a.base, s.freesChecked b = false := by
      intro b hb
      refine Bool.eq_false_iff.mpr fun hfrees => ?_
      have hyes : r.reuseFreesChecked a = true :=
        (Option.any_eq_true ..).mpr ⟨b, hb, hplaced.freesChecked hfrees⟩
      rw [hok] at hyes
      cases hyes
    cases hb : a.base with
    | none => rwa [hstay hb]
    | some b => exact hbase.step (hbase' b hb) (hstep b hb)

end placed

end DeepInIo.AdvancedServer
