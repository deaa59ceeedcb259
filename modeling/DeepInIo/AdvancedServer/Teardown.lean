import DeepInIo.AdvancedServer.Responsiveness

/-!
# What `server_destroy` has done

`server_destroy` joins every IO thread before it destroys the thread's event loop, and shuts the
task queue down only when all threads are joined.  So no IO thread ever finds the queue shut down
(`TornDown.no_shutdown`), and no connection is registered any more when the remaining tasks are
destroyed (`TornDown.unlisted`).
-/

namespace DeepInIo.AdvancedServer

open State

variable {n m : ℕ}

/-- `server_destroy` has joined the IO thread `t`. -/
def MainPc.joined (t : Fin n) : MainPc n → Bool
  | .ioDestroy t' .flag | .ioDestroy t' .wake | .ioDestroy t' .join => t < t'
  | .ioDestroy t' .loop | .ioDestroy t' .close0 | .ioDestroy t' .close1
  | .ioDestroy t' .free => t ≤ t'
  | .poolShutdown | .queueShutdown | .joinWorkers | .queueDestroy | .done => true
  | _ => false

/-- `server_destroy` has destroyed the event loop of the IO thread `t`. -/
def MainPc.unlooped (t : Fin n) : MainPc n → Bool
  | .ioDestroy t' .flag | .ioDestroy t' .wake | .ioDestroy t' .join | .ioDestroy t' .loop => t < t'
  | .ioDestroy t' .close0 | .ioDestroy t' .close1 | .ioDestroy t' .free => t ≤ t'
  | .poolShutdown | .queueShutdown | .joinWorkers | .queueDestroy | .done => true
  | _ => false

/-- What holds of the threads and event loops that `server_destroy` is done with. -/
structure TornDown (s : State n m) : Prop where
  stopped : ∀ t, s.main.joined t = true → (s.io t).pc = .stopped
  unlisted : ∀ t f, s.main.unlooped t = true → s.kernel.reg t f = none
  flags : s.poolShutdown = true ∨ s.queueShutdown = true → ∀ t, s.main.joined t = true

section steps

variable {cfg : Config n} {s s' : State n m} {t t₀ : Fin n}

/-- An event loop is destroyed after its thread was joined. -/
theorem MainPc.joined_of_unlooped {pc : MainPc n} (h : pc.unlooped t = true) :
    pc.joined t = true := by
  cases pc with
  | ioDestroy t' stage =>
    cases stage <;> simp only [unlooped, joined, decide_eq_true_eq] at h ⊢
    case loop => exact h.le
    all_goals exact h
  | _ => exact h

/-- What is so for the IO threads already destroyed is so, before the thread with the number `k` is
destroyed, for those before it. -/
theorem passed_nextDestroy {p : MainPc n → Bool} (hflag : ∀ t' : Fin n,
    p (.ioDestroy t' .flag) = decide (t.1 < t'.1)) (hpool : p .poolShutdown = true) (k : ℕ) :
    p (nextDestroy n k) = decide (t.1 < k) := by
  unfold nextDestroy
  split
  · exact hflag _
  · next hk =>
    have hlt : t.1 < k := t.2.trans_le (not_lt.mp hk)
    rw [hpool, decide_eq_true hlt]

theorem joined_nextDestroy (k : ℕ) : (nextDestroy n k).joined t = decide (t.1 < k) :=
  passed_nextDestroy (p := fun pc => pc.joined t) (fun _ => rfl) rfl k

theorem unlooped_nextDestroy (k : ℕ) : (nextDestroy n k).unlooped t = decide (t.1 < k) :=
  passed_nextDestroy (p := fun pc => pc.unlooped t) (fun _ => rfl) rfl k

/-- The main thread joins a thread that has returned. -/
theorem MainStep.joined (h : MainStep cfg s s') (hj : s'.main.joined t = true) :
    s.main.joined t = true ∨ (s.io t).pc = .stopped := by
  cases h with
  | acceptIntr hpc => exact .inl hj
  | destroyLoop hpc =>
    rw [setMain_main, joined_nextDestroy, decide_eq_true_eq] at hj
    omega
  | @ioFree t₀ hpc =>
    rw [setMain_main, joined_nextDestroy, decide_eq_true_eq] at hj
    left
    rw [hpc]
    exact decide_eq_true (Nat.lt_succ_iff.mp hj)
  | @ioJoin t₀ hpc hs =>
    have hle : t ≤ t₀ := of_decide_eq_true hj
    rcases hle.lt_or_eq with hlt | rfl
    · left
      rw [hpc]
      exact decide_eq_true hlt
    · exact .inr hs
  | ioFlag hpc | ioWake hpc | ioWakeFailed hpc | ioLoop hpc | ioClose0 hpc | ioClose1 hpc
  | poolShutdown hpc | queueShutdown hpc | joinWorkers hpc | destroyTask hpc | destroyed hpc =>
    left
    rw [hpc]
    first
      | exact hj
      | rfl
  | _ => cases hj

/-- A thread that was joined stays so. -/
theorem MainStep.joined_mono (h : MainStep cfg s s') (hj : s.main.joined t = true) :
    s'.main.joined t = true := by
  cases h with
  | acceptIntr hpc => exact hj
  | @ioFree t₀ hpc =>
    rw [hpc] at hj
    have hle : t ≤ t₀ := of_decide_eq_true hj
    rw [setMain_main, joined_nextDestroy, decide_eq_true_eq]
    exact Nat.lt_succ_iff.mpr hle
  | @ioJoin t₀ hpc hs =>
    rw [hpc] at hj
    have hlt : t < t₀ := of_decide_eq_true hj
    exact decide_eq_true hlt.le
  | ioFlag hpc | ioWake hpc | ioWakeFailed hpc | ioLoop hpc | ioClose0 hpc | ioClose1 hpc =>
    rw [hpc] at hj
    exact hj
  | poolShutdown hpc | queueShutdown hpc | joinWorkers hpc | destroyed hpc => rfl
  | destroyTask hpc => exact hj
  | woken hpc | stop hpc | accept hpc | acceptAgain hpc | acceptFailed hpc | getThread hpc
  | noThread hpc | create hpc | createFailed hpc | handOff hpc | handOffFailed hpc | drop hpc
  | closeClient hpc | closeListen hpc | destroyLoop hpc =>
    rw [hpc] at hj
    cases hj

/-- The main thread is done with an event loop when it has dropped the interest list. -/
theorem MainStep.unlooped (h : MainStep cfg s s') (hu : s'.main.unlooped t = true) (f : Fd) :
    s.main.unlooped t = true ∨ s'.kernel.reg t f = none := by
  cases h with
  | acceptIntr hpc => exact .inl hu
  | destroyLoop hpc =>
    rw [setMain_main, unlooped_nextDestroy, decide_eq_true_eq] at hu
    omega
  | @ioFree t₀ hpc =>
    rw [setMain_main, unlooped_nextDestroy, decide_eq_true_eq] at hu
    left
    rw [hpc]
    exact decide_eq_true (Nat.lt_succ_iff.mp hu)
  | @ioLoop t₀ hpc =>
    have hle : t ≤ t₀ := of_decide_eq_true hu
    rcases hle.lt_or_eq with hlt | rfl
    · left
      rw [hpc]
      exact decide_eq_true hlt
    · right
      rw [setMain_kernel, setKernel_kernel, Kernel.dropLoop_reg, Function.update_self]
  | ioFlag hpc | ioWake hpc | ioWakeFailed hpc | ioJoin hpc | ioClose0 hpc | ioClose1 hpc
  | poolShutdown hpc | queueShutdown hpc | joinWorkers hpc | destroyTask hpc | destroyed hpc =>
    left
    rw [hpc]
    first
      | exact hu
      | rfl
  | _ => cases hu

/-- A thread that has returned takes no step. -/
theorem IoStep.not_stopped (h : IoStep cfg s t s') : (s.io t).pc ≠ .stopped := by
  intro hstopped
  cases h with
  | move hm =>
    rw [hstopped] at hm
    cases hm
  | backToRead hpc =>
    rw [hstopped] at hpc
    rcases hpc with hpc | hpc <;> cases hpc
  | collectPipe hpc | collectMsg hpc | collectFd hpc | nextPipe hpc | nextMsg hpc | nextConn hpc
  | readWake hpc | readConn hpc | adopt hpc | register hpc | reject hpc | msgRead hpc | drain hpc
  | msgMod hpc | msgRelease hpc | readData hpc | createTask hpc | createLeak hpc | submitLeak hpc
  | submit hpc | wrote hpc | reset hpc | closeMark hpc | closeDel hpc | closeRelease hpc =>
    rw [hstopped] at hpc
    cases hpc

/-- A step keeps what is torn down. -/
theorem TornDown.step (h : TornDown s) {a : Action n m} (hs : (server m cfg).step s a = some s') :
    TornDown s' := by
  -- a step that leaves the main thread alone and only removes or keeps entries of event loops that
  -- are gone
  have hkeep : s'.main = s.main → s'.poolShutdown = s.poolShutdown →
      s'.queueShutdown = s.queueShutdown → (∀ t, (s.io t).pc = .stopped → (s'.io t).pc = .stopped) →
      (∀ t f r', (s.io t).pc = .stopped → s'.kernel.reg t f = some r' →
        ∃ r, s.kernel.reg t f = some r) →
      TornDown s' := by
    intro hmain hpool hqueue hpc hreg
    refine ⟨fun t hj => ?_, fun t f hu => ?_, fun hf t => ?_⟩
    · rw [hmain] at hj
      exact hpc t (h.stopped t hj)
    · rw [hmain] at hu
      by_contra hne
      obtain ⟨r', hr'⟩ := Option.ne_none_iff_exists'.mp hne
      obtain ⟨r, hr⟩ := hreg t f r' (h.stopped t (MainPc.joined_of_unlooped hu)) hr'
      rw [h.unlisted t f hu] at hr
      cases hr
    · rw [hpool, hqueue] at hf
      rw [hmain]
      exact h.flags hf t
  cases step_spec hs with
  | main hstep =>
    have hmain : MainStep cfg s s' := hstep
    refine ⟨fun t hj => ?_, fun t f hu => ?_, fun hf t => ?_⟩
    · rw [(hstep.io_eq t).1]
      exact (hstep.joined hj).elim (h.stopped t) id
    · rcases hstep.unlooped hu f with hold | hnew
      · by_contra hne
        obtain ⟨r', hr'⟩ := Option.ne_none_iff_exists'.mp hne
        have hr := hstep.listed hr'
        rw [h.unlisted t f hold] at hr
        cases hr
      · exact hnew
    · cases hstep with
      | poolShutdown hpc => rfl
      | queueShutdown hpc => rfl
      | _ => exact hmain.joined_mono (h.flags hf t)
  | io t₀ hstep =>
    obtain ⟨hpool, hqueue⟩ := hstep.flags
    have hne : ∀ {t}, (s.io t).pc = .stopped → t ≠ t₀ := by
      rintro t hpc rfl
      exact hstep.not_stopped hpc
    refine hkeep hstep.main_eq hpool hqueue (fun t hpc => ?_) fun t f r' hpc hr' => ?_
    · rw [hstep.io_ne (hne hpc)]
      exact hpc
    · exact ⟨r', hstep.reg_other (hne hpc) hr'⟩
  | worker w hstep =>
    obtain ⟨hpool, hqueue⟩ := hstep.flags
    refine hkeep hstep.main_eq hpool hqueue (fun t hpc => ?_) fun t f r' _ hr' =>
      ⟨r', hstep.listed hr'⟩
    rw [(hstep.io_eq t).2.1]
    exact hpc
  | env hstep =>
    have hreg : ∀ t f r', (s.io t).pc = .stopped → s'.kernel.reg t f = some r' →
        ∃ r, s.kernel.reg t f = some r := by
      intro t f r' _ hr'
      obtain ⟨r, hr, -, -⟩ := hstep.listed hr'
      exact ⟨r, hr⟩
    cases hstep with
    | arrive => exact hkeep rfl rfl rfl (fun t hpc => hpc) hreg
    | sock => exact hkeep rfl rfl rfl (fun t hpc => hpc) hreg

theorem reachable_tornDown (h : (server m cfg).Reachable s) : TornDown s := by
  refine TransitionSystem.Reachable.invariant ?_ ?_ h
  · rintro _ rfl
    exact ⟨nofun, nofun, fun hf => (nomatch hf)⟩
  · intro s a s' _ htorn hs
    exact htorn.step hs

/-- No IO thread finds the queue shut down. -/
theorem TornDown.no_shutdown (h : TornDown s) (hpc : (s.io t).pc ≠ .stopped) :
    s.poolShutdown = false ∧ s.queueShutdown = false := by
  have hno : ¬(s.poolShutdown = true ∨ s.queueShutdown = true) :=
    fun hf => hpc (h.stopped t (h.flags hf t))
  rw [not_or, Bool.not_eq_true, Bool.not_eq_true] at hno
  exact hno

end steps

end DeepInIo.AdvancedServer
