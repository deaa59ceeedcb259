import DeepInIo.AdvancedServer.Descriptors

/-!
# What `server_destroy` releases

`State.Released` collects what should be gone when `server_destroy` has returned.  The descriptors
of the message pipes are never closed (`msgPipe_open`), so that a server with an IO thread does not
get there.
-/

namespace DeepInIo.AdvancedServer

open State

variable {n m : ℕ}

/-- Everything has been released: no client descriptor is open, nor an end of a pipe of an IO
thread; every connection that was created has no reference left and was freed; and no message is
left in a list. -/
structure State.Released (cfg : Config n) (s : State n m) : Prop where
  clients : ∀ f sk, s.kernel.fds f ≠ some (.client sk)
  pipes : ∀ t e, s.kernel.fds (cfg.sysFd (.pipe t e)) ≠ some (.sys (.pipe t e))
  msgPipes : ∀ t e, s.kernel.fds (cfg.sysFd (.msgPipe t e)) ≠ some (.sys (.msgPipe t e))
  conns : ∀ c, c < s.nextConn → (s.conns c).refCount = 0 ∧ (s.conns c).Freed
  messages : ∀ t, (s.io t).msgQueue = []

section release

variable {cfg : Config n} {s s' : State n m}

/-- The message pipes stay open, also when their thread has been destroyed. -/
theorem msgPipe_open (h : (server m cfg).Reachable s) (t : Fin n) (e : PipeEnd) :
    s.kernel.fds (cfg.sysFd (.msgPipe t e)) = some (.sys (.msgPipe t e)) := by
  rcases (reachable_descriptors h).main.sys (.msgPipe t e) with hopen | ⟨⟨-, hdestroyed⟩, -⟩
  · exact hopen
  · cases hdestroyed

/-! ### A server without IO threads -/

/-- A client descriptor is open only as long as the main thread has it in hand. -/
def State.ClientsInHand (s : State n m) : Prop :=
  ∀ f sk, s.kernel.fds f = some (.client sk) →
    s.main.socket? = some (f, sk) ∨ s.main.refused? = some (f, sk)

/-- Without IO threads the main thread closes what it accepts. -/
theorem MainStep.clientsInHand (h : MainStep cfg s s') (hn : n = 0) (hi : Owned s)
    (hd : Descriptors cfg s) (hc : s.ClientsInHand) : s'.ClientsInHand := by
  subst hn
  -- the main thread had nothing in hand, so that no client descriptor is open
  have hnone : s.main.socket? = none → s.main.refused? = none →
      (∀ f sk, s'.kernel.fds f = some (.client sk) → s.kernel.fds f = some (.client sk)) →
      s'.ClientsInHand := by
    intro h1 h2 hf f sk hopen
    have hin := hc f sk (hf f sk hopen)
    rw [h1, h2] at hin
    rcases hin with hin | hin <;> cases hin
  have hclose : ∀ {o : Option Fd} {f : Fd} {sk : SockId},
      (s.kernel.close o).fds f = some (.client sk) → s.kernel.fds f = some (.client sk) := by
    intro o f sk hopen
    cases o with
    | none => exact hopen
    | some f₀ =>
      rw [Kernel.close_fds] at hopen
      split at hopen
      · cases hopen
      · exact hopen
  cases h with
  | woken hpc | stop hpc | acceptAgain hpc | acceptFailed hpc | poolShutdown hpc | queueShutdown hpc
  | joinWorkers hpc | destroyed hpc =>
    exact hnone (by rw [hpc]; rfl) (by rw [hpc]; rfl) fun f sk hopen => hopen
  | acceptIntr => exact hc
  | @accept f₀ hpc hfree hb =>
    intro f sk hopen
    by_cases hf : f = f₀
    · subst hf
      left
      change Function.update s.kernel.fds f _ f = _ at hopen
      rw [Function.update_self] at hopen
      cases hopen
      rfl
    · change Function.update s.kernel.fds f₀ _ f = _ at hopen
      rw [Function.update_of_ne hf] at hopen
      have hin := hc f sk hopen
      rw [hpc] at hin
      rcases hin with hin | hin <;> cases hin
  | getThread hpc hlt => exact absurd hlt (Nat.not_lt_zero _)
  | @noThread f₀ sk₀ hpc hle =>
    intro f sk hopen
    have hin := hc f sk hopen
    rw [hpc] at hin
    exact .inr (hin.resolve_right nofun)
  | @create t | @createFailed t | @handOff t | @handOffFailed t | @ioFlag t | @ioWake t
  | @ioWakeFailed t | @ioJoin t | @ioLoop t | @ioClose0 t | @ioClose1 t | @ioFree t => exact t.elim0
  | @drop c f₀ sk₀ hpc =>
    have howner : s.owner c = .creator := (hi.creator c).mpr (congrArg MainPc.creating hpc)
    obtain ⟨f, hf, hopen⟩ := hd.conn.live c (by rw [howner]; rfl)
    have hin := hc f _ hopen
    rw [hpc] at hin
    rcases hin with hin | hin <;> cases hin
  | @closeClient f₀ sk₀ hpc =>
    intro f sk hopen
    change (s.kernel.close (some f₀)).fds f = _ at hopen
    have hin := hc f sk (hclose hopen)
    rw [hpc] at hin
    rw [Kernel.close_fds] at hopen
    split at hopen
    · cases hopen
    · next hne =>
      rcases hin with hin | hin
      · cases hin
      · cases hin
        exact absurd rfl hne
  | closeListen hpc | destroyLoop hpc =>
    exact hnone (by rw [hpc]; rfl) (by rw [hpc]; rfl) fun f sk hopen => hclose hopen
  | @destroyTask task rest hpc hq =>
    refine hnone (by rw [hpc]; rfl) (by rw [hpc]; rfl) fun f sk hopen => ?_
    change (s.connRelease task.conn).kernel.fds f = _ at hopen
    rw [connRelease_kernel] at hopen
    split at hopen
    · exact hclose hopen
    · exact hopen

/-- Without IO threads no client descriptor is open that the main thread does not have in hand. -/
theorem reachable_clientsInHand (h : (server m cfg).Reachable s) (hn : n = 0) :
    s.ClientsInHand := by
  refine TransitionSystem.Reachable.invariant ?_ ?_ h
  · rintro _ rfl f sk hopen
    exact absurd hopen (cfg.fds_ne_client f sk)
  · intro s a s' hr hc hs
    have hi := reachable_owned hr
    have hd := reachable_descriptors hr
    cases a with
    | main r => exact (mainStep_spec hs).clientsInHand hn hi hd hc
    | io t r => exact (hn ▸ t).elim0
    | worker w ok =>
      have hstep := workerStep_spec hs
      have hmain := hstep.main_eq
      have hfds : s'.kernel.fds = s.kernel.fds := by
        cases hstep with
        | closeMark hpc | closeRelease hpc | destroy hpc =>
          obtain ⟨-, t, -⟩ := hi.held w _ (congrArg WorkerPc.task? hpc)
          exact (hn ▸ t).elim0
        | _ => rfl
      intro f sk hopen
      rw [hfds] at hopen
      rw [hmain]
      exact hc f sk hopen
    | env e =>
      have hfds : s'.kernel.fds = s.kernel.fds ∧ s'.main = s.main := by
        cases envStep_spec hs <;> exact ⟨rfl, rfl⟩
      intro f sk hopen
      rw [hfds.1] at hopen
      rw [hfds.2]
      exact hc f sk hopen

/-- When `server_destroy` has returned, everything has been released exactly if the server had no IO
thread. -/
theorem released_iff (h : (server m cfg).Reachable s) (hdone : s.main = .done) :
    s.Released cfg ↔ n = 0 := by
  refine ⟨fun hrel => ?_, fun hn => ?_⟩
  · by_contra hn
    exact hrel.msgPipes ⟨0, Nat.pos_of_ne_zero hn⟩ .read (msgPipe_open h _ _)
  · have hi := reachable_owned h
    have hc := reachable_counts h
    have hin := reachable_clientsInHand h hn
    subst hn
    refine ⟨fun f sk hopen => ?_, fun t => t.elim0, fun t => t.elim0, fun c hlt => ?_,
      fun t => t.elim0⟩
    · have := hin f sk hopen
      rw [hdone] at this
      rcases this with h | h <;> cases h
    · have hborn : s.owner c ≠ .unborn := fun hu => absurd ((hi.unborn c).mp hu) (not_le.mpr hlt)
      have hdropped : s.owner c = .dropped := by
        cases ho : s.owner c with
        | unborn => exact absurd ho hborn
        | creator =>
          have hmain := (hi.creator c).mp ho
          rw [hdone] at hmain
          cases hmain
        | pipe t | adopter t | registered t | closing t | released t => exact t.elim0
        | dropped => rfl
      have hzero : (s.conns c).refCount = 0 := by
        rw [hc.eq_of_loop_none hi (by rw [hdropped]; rfl), ownerRefs, hdropped]
        rfl
      have hfrees := (hc.conn c).frees
      rw [if_pos ⟨hborn, hzero⟩] at hfrees
      exact ⟨hzero, by rw [Conn.Freed, hfrees]; exact Nat.one_pos⟩

/-- A server without IO threads turns a client away and is then stopped. -/
theorem released_iff_turnedAway :
    ∃ s : State 0 1, s.main = .done ∧ s.kernel.nextSock = 1 ∧ s.Released (Config.fresh 0) := by
  obtain ⟨s, hs, hp⟩ := (server 1 (Config.fresh 0)).exists_of_exec
    ([.env .arrive, .main .ok, .main (.accepted 10), .main .ok, .main .ok, .main .again,
      .main .stop, .main .ok, .main .ok, .main .ok, .main .ok, .worker 0 true, .main .ok,
      .main .ok])
    (fun s => decide (s.main = .done ∧ s.kernel.nextSock = 1)) rfl (by decide +kernel)
  obtain ⟨hdone, hone⟩ := of_decide_eq_true hp
  exact ⟨s, hdone, hone, (released_iff hs hdone).mpr rfl⟩

/-- A server with one IO thread is stopped while a client is connected: the message pipe and the
client's socket stay open, and the connection is not freed. -/
theorem stop_leaves_open :
    ∃ s : State 1 1, (server 1 (Config.fresh 1)).Reachable s ∧ s.main = .done ∧
      ¬s.Released (Config.fresh 1) ∧ s.kernel.fds 10 = some (.client 0) ∧ ¬(s.conns 0).Freed ∧
      s.kernel.fds ((Config.fresh 1).sysFd (.msgPipe 0 .read)) =
        some (.sys (.msgPipe 0 .read)) := by
  obtain ⟨s, hs, hp⟩ := (server 1 (Config.fresh 1)).exists_of_exec
    (List.flatten [Action.connect 10, Action.adopt 0,
      [.main .stop, .main .ok, .main .ok, .main .ok, .main .ok, .io 0 .ok, .main .ok, .main .ok,
        .main .ok, .main .ok, .main .ok, .main .ok, .main .ok, .worker 0 true, .main .ok,
        .main .ok]])
    (fun s => decide (s.main = .done ∧ s.kernel.fds 10 = some (.client 0) ∧ ¬(s.conns 0).Freed ∧
      s.kernel.fds ((Config.fresh 1).sysFd (.msgPipe 0 .read)) = some (.sys (.msgPipe 0 .read))))
        rfl
    (by decide +kernel)
  obtain ⟨hdone, hopen, hfreed, hmsg⟩ := of_decide_eq_true hp
  exact ⟨s, hs, hdone, fun hrel => hrel.msgPipes 0 .read hmsg, hopen, hfreed, hmsg⟩

end release

end DeepInIo.AdvancedServer
