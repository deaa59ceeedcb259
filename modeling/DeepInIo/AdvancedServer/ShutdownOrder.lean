import DeepInIo.AdvancedServer.Invariant

/-!
# Workers and the end of the IO threads

`server_destroy` tears the IO threads down before it stops the workers, which send their messages to
the IO threads.  A worker is bound to an IO thread (`State.Bound`) when the task it holds will make
it send a message there, or when it is sending one.  A message goes to a freed thread exactly along
such a bond, so that it matters whether a worker is bound when the thread is freed, and whether one
becomes bound later by taking a task out of the queue.
-/

namespace DeepInIo.AdvancedServer

open State

variable {n m : ℕ}

namespace State

variable (s : State n m)

/-- A message about the connection would go to the IO thread `t`: the test in `process_request`. -/
def Sends (c : ConnId) (t : Fin n) : Prop :=
  (s.conns c).ioThread = some t ∧ (s.conns c).isValid = true

instance (c : ConnId) (t : Fin n) : Decidable (s.Sends c t) :=
  inferInstanceAs (Decidable (_ ∧ _))

/-- A worker at the program point has still to send a message to the IO thread `t`, or is sending
one. -/
def Bound (t : Fin n) : WorkerPc n → Prop
  | .check k | .install k | .sendTest k => s.Sends k.conn t
  | .sendAlloc _ t' | .sendAcquire _ t' | .sendLink _ t' | .sendNotify _ t' => t' = t
  | _ => False

instance (t : Fin n) (pc : WorkerPc n) : Decidable (s.Bound t pc) := by
  cases pc <;> unfold Bound <;> infer_instance

/-- The step frees an IO thread to which a worker is bound, or takes a task out of the queue whose
message would go to a freed thread. -/
def strandsWorker : Action n m → Bool
  | .main _ =>
    match s.main with
    | .ioDestroy t .free => decide (∃ w, s.Bound t (s.worker w))
    | _ => false
  | .worker w _ =>
    match s.worker w, s.queue with
    | .pop, task :: _ => decide (∃ t, s.Sends task.conn t ∧ (s.io t).freed = true)
    | _, _ => false
  | _ => false

end State

section order

variable {cfg : Config n} {s s' : State n m} {t : Fin n} {w : Fin m}

/-- A marked connection stays marked. -/
theorem Owner.Step.marked_mono {o o' : Owner n} (h : Owner.Step o o') (ho : o.marked = true) :
    o'.marked = true := by
  rcases h with h | ⟨t, h⟩ <;> cases h <;> simp_all [Owner.marked]

/-- A connection that sends its messages to a thread has always done so since it was adopted. -/
theorem ServerStep.sends_mono (h : ServerStep cfg s s') (hi : Owned s) {c : ConnId}
    (hc : s.Adopted c) (hs : s'.Sends c t) : s.Sends c t := by
  obtain ⟨t₀, ht₀⟩ := hc
  have ho := h.owner hi c
  have hi' := h.owned hi
  have ht₀' : (s'.owner c).loop = some t₀ := by
    rcases ho with ho | ho
    · rw [ho, ht₀]
    · exact ho.loop_mono ht₀
  have hthread := (hi.conn c).thread t₀ (Owner.home_of_loop ht₀)
  have hthread' := (hi'.conn c).thread t₀ (Owner.home_of_loop ht₀')
  obtain ⟨ht, hv⟩ := hs
  rw [hthread'] at ht
  refine ⟨hthread.trans ht, (hi.conn c).isValid_iff.mpr ?_⟩
  have hm' : (s'.owner c).marked = false := (hi'.conn c).isValid_iff.mp hv
  change (s.owner c).marked = false
  rcases ho with ho | ho
  · rw [← ho, hm']
  · cases hm : (s.owner c).marked with
    | false => rfl
    | true => rw [ho.marked_mono hm] at hm'; cases hm'

/-- A worker that stays where it is gets no new bond. -/
theorem ServerStep.bound_mono (h : ServerStep cfg s s') (hi : Owned s) {pc : WorkerPc n}
    (hpc : s.worker w = pc) (hb : s'.Bound t pc) : s.Bound t pc := by
  have hheld := hi.held w
  rw [hpc] at hheld
  cases pc with
  | check k | install k | sendTest k => exact h.sends_mono hi (hheld k rfl).2 hb
  | _ => exact hb

/-- A worker gets a bond by taking a task out of the queue. -/
theorem WorkerStep.bound (h : WorkerStep cfg s w s') (hi : Owned s)
    (hb : s'.Bound t (s'.worker w)) :
    s.Bound t (s.worker w) ∨
      ∃ task rest, s.worker w = .pop ∧ s.queue = task :: rest ∧ s.Sends task.conn t := by
  have hmono : ∀ {c : ConnId}, s.Adopted c → s'.Sends c t → s.Sends c t :=
    fun hc hs => (ServerStep.worker w h).sends_mono hi hc hs
  have hheld := hi.held w
  cases h with
  | @move pc' hm =>
    simp only [setWorker_worker, Function.update_self] at hb
    left
    generalize s.worker w = pc at hm hheld
    cases hm with
    | process task ht hv => exact hmono (hheld task rfl).2 hb
    | noInstall task hf => exact hmono (hheld task rfl).2 hb
    | send task t' ht hv =>
      cases hb
      exact ⟨ht, hv⟩
    | allocated task t' => exact hb
    | _ => cases hb
  | @pop task rest hpc hq =>
    simp only [setWorker_worker, Function.update_self] at hb
    have hadopted := (hi.queued task (by rw [hq]; exact .head _)).2
    exact .inr ⟨task, rest, hpc, hq, hmono hadopted hb⟩
  | @install task hpc hf =>
    simp only [setWorker_worker, Function.update_self] at hb
    rw [hpc] at hheld ⊢
    exact .inl (hmono (hheld task rfl).2 hb)
  | acquire hpc | link hpc =>
    simp only [linkMessage, setWorker_worker, Function.update_self] at hb
    rw [hpc]
    exact .inl hb
  | _ =>
    simp only [setWorker_worker, Function.update_self] at hb
    cases hb

/-- An IO thread is freed by the last stage of `io_thread_destroy`. -/
theorem freed_eq {a : Action n m} (hs : (server m cfg).step s a = some s') (t : Fin n) :
    (s'.io t).freed = (s.io t).freed ∨ ((∃ r, a = .main r) ∧ s.main = .ioDestroy t .free) := by
  have hupdate : ∀ {t₀ : Fin n} {th : IoThread}, th.freed = (s.io t₀).freed →
      (Function.update s.io t₀ th t).freed = (s.io t).freed := by
    intro t₀ th hth
    by_cases ht : t = t₀
    · subst ht; simpa using hth
    · simp [ht]
  cases a with
  | main r =>
    cases mainStep_spec hs with
    | @ioFree t₀ hpc =>
      by_cases ht : t = t₀
      · subst ht; exact .inr ⟨⟨r, rfl⟩, hpc⟩
      · left
        rw [setMain_io, setIo_io, Function.update_of_ne ht]
    | handOff | ioFlag | ioWake => exact .inl (hupdate rfl)
    | _ => exact .inl rfl
  | io t₀ r =>
    left
    cases ioStep_spec hs with
    | _ => exact hupdate rfl
  | worker w ok =>
    left
    cases workerStep_spec hs with
    | link | notify => exact hupdate rfl
    | _ => rfl
  | env e => cases envStep_spec hs <;> exact .inl rfl

/-- As long as no step strands a worker, no worker is bound to a freed IO thread. -/
theorem not_bound_of_freed
    (h : (server m cfg).ReachableUnder (fun s a => s.strandsWorker a = false) s)
    (hf : (s.io t).freed = true) (w : Fin m) : ¬s.Bound t (s.worker w) := by
  revert hf
  refine h.invariant (I := fun s => (s.io t).freed = true → ¬s.Bound t (s.worker w)) ?_ ?_
  · rintro _ rfl hf
    cases hf
  · intro s a s' hr ih hok hs hf hb
    have hi := reachable_owned hr.reachable
    have hstep := step_spec hs
    -- the bond is as old as the step, unless the worker has just taken a task
    have hold : s.Bound t (s.worker w) ∨ ∃ w' ok, a = .worker w' ok ∧
        ∃ task rest, s.worker w' = .pop ∧ s.queue = task :: rest ∧ s.Sends task.conn t := by
      cases a with
      | worker w' ok =>
        by_cases hw : w = w'
        · subst hw
          exact ((workerStep_spec hs).bound hi hb).imp_right fun h => ⟨w, ok, rfl, h⟩
        · rw [(workerStep_spec hs).worker_ne hw] at hb
          exact .inl (hstep.bound_mono hi rfl hb)
      | main r =>
        rw [(mainStep_spec hs).worker_eq] at hb
        exact .inl (hstep.bound_mono hi rfl hb)
      | io t₀ r =>
        rw [(ioStep_spec hs).worker_eq] at hb
        exact .inl (hstep.bound_mono hi rfl hb)
      | env e =>
        have hw : s'.worker = s.worker := by cases envStep_spec hs <;> rfl
        rw [hw] at hb
        exact .inl (hstep.bound_mono hi rfl hb)
    rcases freed_eq hs t with hfreed | ⟨⟨r, rfl⟩, hpc⟩
    · rw [hfreed] at hf
      rcases hold with hb | ⟨w', ok, rfl, task, rest, hpop, hq, hsends⟩
      · exact ih hf hb
      · simp only [State.strandsWorker, hpop, hq, decide_eq_false_iff_not] at hok
        exact hok ⟨t, hsends, hf⟩
    · simp only [State.strandsWorker, hpc, decide_eq_false_iff_not] at hok
      rcases hold with hb | ⟨w', ok, ha, -⟩
      · exact hok ⟨w, hb⟩
      · cases ha

/-- In every run in which no IO thread is freed while a worker is bound to it, and no worker takes a
task whose message would go to a freed thread, no worker sends a message to a freed IO thread. -/
theorem no_send_to_freed
    (h : (server m cfg).ReachableUnder (fun s a => s.strandsWorker a = false) s) (w : Fin m)
    (t : Fin n) (ht : (s.worker w).target? = some t) : (s.io t).freed = false := by
  cases hf : (s.io t).freed with
  | false => rfl
  | true =>
    refine absurd ?_ (not_bound_of_freed h hf w)
    generalize s.worker w = pc at ht
    cases pc with
    | sendAlloc k t' | sendAcquire k t' | sendLink k t' | sendNotify k t' =>
      exact Option.some.inj ht
    | _ => cases ht

/-- `server_destroy` has freed the first IO thread and goes on with the second, to which a worker
sends a message. -/
theorem no_send_to_freed_linked :
    ∃ s : State 2 1, s.main = .ioDestroy 1 .flag ∧ (s.io 0).freed = true ∧
      (s.worker 0).target? = some 1 ∧ (s.io 1).freed = false := by
  obtain ⟨s, hs, hp⟩ := (server 1 (Config.fresh 2)).exists_of_execUnder
    (fun s a => s.strandsWorker a = false)
    (List.flatten [Action.connect 20, Action.connect 21, Action.adopt 0, Action.adopt 1,
      [.env (.data 21 [65])], Action.deliver 1 21 { read := true }, Action.readOne 1 1,
      Action.work 0 2, [.main .stop], List.replicate 4 (.main .ok), [.io 0 .ok],
      List.replicate 5 (.main .ok), Action.work 0 5])
    (fun s => decide (s.main = .ioDestroy 1 .flag ∧ (s.io 0).freed = true ∧
      (s.worker 0).target? = some 1)) rfl (by decide +kernel)
  obtain ⟨hmain, hfreed, ht⟩ := of_decide_eq_true hp
  exact ⟨s, hmain, hfreed, ht, no_send_to_freed hs 0 1 ht⟩

/-- A worker has taken a task when the server is stopped.  It calls `io_thread_send_message` after
the IO thread was freed. -/
theorem stop_sends_to_freed :
    ∃ s : State 1 1, (server 1 (Config.fresh 1)).Reachable s ∧
      (s.worker 0).target? = some 0 ∧ (s.io 0).freed = true := by
  obtain ⟨s, hs, hp⟩ := (server 1 (Config.fresh 1)).exists_of_exec
    (List.flatten [Action.connect 10, Action.adopt 0, [.env (.data 10 [65])],
      Action.deliver 0 10 { read := true }, Action.readOne 0 1, Action.work 0 2,
      [.main .stop, .main .ok, .main .ok, .main .ok, .main .ok, .io 0 .again, .io 0 .ok, .io 0 .ok,
        .io 0 .ok, .io 0 .ok, .main .ok, .main .ok, .main .ok, .main .ok, .main .ok],
          Action.work 0 3])
    (fun s => decide ((s.worker 0).target? = some 0 ∧ (s.io 0).freed = true)) rfl
      (by decide +kernel)
  exact ⟨s, hs, of_decide_eq_true hp⟩

end order

end DeepInIo.AdvancedServer
