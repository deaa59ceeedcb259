import DeepInIo.AdvancedServer.Invariant

/-!
# The backlog of the listening socket

The loops of `server_start` and `accept_connections` over the backlog of the listening socket, which
is watched edge-triggered.  `accept_connections` returns on every error but `EINTR`, and clients are
stranded exactly by those returns that leave clients in the backlog without an edge
(`not_stranded_iff`).  The main thread of the server takes the steps of this model
(`server_acceptLoop`).
-/

namespace DeepInIo.AdvancedServer

open State

variable {n m : ℕ}

/-- The program points of `server_start` and `accept_connections`. -/
inductive AcceptPc
  /-- inside `event_loop_wait` -/
  | wait
  /-- `accept` -/
  | accept
  /-- the body of the loop for an accepted socket -/
  | serve
  /-- `server_start` has returned -/
  | stopped
  deriving DecidableEq

/-- The backlog, the edge of `listen_fd`, and the main thread. -/
structure AcceptLoop where
  backlog : ℕ
  edge : Bool
  pc : AcceptPc
  deriving DecidableEq

/-- What a client or the main thread does. -/
inductive AcceptAction
  /-- a client connects -/
  | arrive
  /-- `event_loop_wait` returns nothing, or is interrupted -/
  | timeout
  /-- `event_loop_wait` returns the event of `listen_fd` -/
  | wake
  /-- `accept` returns a socket -/
  | accepted
  /-- the accepted socket was handed over, or closed -/
  | served
  /-- `EAGAIN` or `EWOULDBLOCK` -/
  | again
  /-- `EINTR` -/
  | intr
  /-- any other error, with which an aborted connection may leave the backlog -/
  | failed (aborted : Bool)
  /-- the loop of `server_start` ends -/
  | stop
  deriving DecidableEq

namespace AcceptLoop

/-- One step. -/
def step (s : AcceptLoop) : AcceptAction → Option AcceptLoop
  | .arrive => some { s with backlog := s.backlog + 1, edge := true }
  | .timeout => if s.pc = .wait then some s else none
  | .wake =>
    if s.pc = .wait ∧ s.edge = true then some { s with edge := false, pc := .accept } else none
  | .accepted =>
    if s.pc = .accept ∧ 0 < s.backlog then some { s with backlog := s.backlog - 1, pc := .serve }
      else none
  | .served => if s.pc = .serve then some { s with pc := .accept } else none
  | .again => if s.pc = .accept ∧ s.backlog = 0 then some { s with pc := .wait } else none
  | .intr => if s.pc = .accept then some s else none
  | .failed aborted =>
    if s.pc = .accept ∧ (aborted = true → 0 < s.backlog) then
      some { s with backlog := s.backlog - aborted.toNat, pc := .wait }
    else none
  | .stop => if s.pc = .wait then some { s with pc := .stopped } else none

/-- `server_start` is waiting, no edge is undelivered, and there are clients in the backlog. -/
def Stranded (s : AcceptLoop) : Prop :=
  s.pc = .wait ∧ s.edge = false ∧ s.backlog ≠ 0

/-- `accept` fails while no edge is undelivered and other clients are in the backlog. -/
def strands (s : AcceptLoop) : AcceptAction → Bool
  | .failed aborted => s.pc = .accept && !s.edge && decide (s.backlog ≠ aborted.toNat)
  | _ => false

/-- The main thread waits with an empty backlog, or with an edge for the clients that connected
before `event_loop_add`. -/
def Fresh (s : AcceptLoop) : Prop :=
  s.pc = .wait ∧ (s.backlog ≠ 0 → s.edge = true)

end AcceptLoop

/-- The loops over the backlog. -/
def acceptLoop : TransitionSystem AcceptLoop AcceptAction where
  init := AcceptLoop.Fresh
  step s a := s.step a

namespace AcceptLoop

variable {s s' : AcceptLoop}

/-- A step strands clients exactly if `accept` fails while there are others and no edge. -/
theorem step_stranded_iff {a : AcceptAction} (hs : s.step a = some s') (h : ¬s.Stranded) :
    s'.Stranded ↔ s.strands a = true := by
  cases a with
  | failed aborted =>
    simp only [step] at hs
    split at hs <;> cases hs
    next hpc =>
    simp only [Stranded, strands, hpc.1, decide_true, Bool.true_and, Bool.and_eq_true,
      Bool.not_eq_true', decide_eq_true_eq, true_and]
    refine and_congr_right fun _ => ?_
    -- an aborted connection is one of the backlog
    cases aborted with
    | true =>
      have hpos := hpc.2 rfl
      simp only [Bool.toNat_true]
      omega
    | false => rfl
  | arrive =>
    cases hs
    refine iff_of_false (fun hst => ?_) (by rintro ⟨⟩)
    cases hst.2.1
  | timeout | intr =>
    simp only [step] at hs
    split at hs <;> cases hs
    exact iff_of_false h (by rintro ⟨⟩)
  | wake | accepted | served | stop =>
    simp only [step] at hs
    split at hs <;> cases hs
    refine iff_of_false (fun hst => ?_) (by rintro ⟨⟩)
    cases hst.1
  | again =>
    simp only [step] at hs
    split at hs <;> cases hs
    next hpc => exact iff_of_false (fun hst => hst.2.2 hpc.2) (by rintro ⟨⟩)

/-- Nobody is stranded at the start. -/
theorem Fresh.not_stranded (h : s.Fresh) : ¬s.Stranded := by
  rintro ⟨-, hedge, hbacklog⟩
  rw [h.2 hbacklog] at hedge
  cases hedge

end AcceptLoop

/-- In every run, with every order of arrivals and every sequence of results of `accept`: in all its
states in which the main thread waits without an undelivered edge the backlog is empty, exactly if
every failure of `accept` that ends the loop found no other client in the backlog or an undelivered
edge. -/
theorem not_stranded_iff {s s' : AcceptLoop} (hs : s.Fresh) {tr : List (AcceptLoop × AcceptAction)}
    (htr : acceptLoop.Trace (fun _ _ => True) s tr s') :
    ((∀ p ∈ tr, ¬p.1.Stranded) ∧ ¬s'.Stranded) ↔ ∀ p ∈ tr, p.1.strands p.2 = false := by
  induction htr with
  | nil =>
    refine iff_of_true ⟨?_, hs.not_stranded⟩ ?_
    · intro p hp
      cases hp
    · intro p hp
      cases hp
  | @snoc tr s₁ s₂ a _ _ hstep ih =>
    simp only [List.forall_mem_append, List.forall_mem_singleton]
    rw [← ih, and_assoc, and_assoc]
    refine and_congr_right fun _ => and_congr_right fun hnot => ?_
    rw [AcceptLoop.step_stranded_iff hstep hnot, Bool.not_eq_true]

/-- Descriptors run out while two clients are in the backlog, of which the second has connected
during the loop. -/
theorem not_stranded_signalled :
    ∃ s : AcceptLoop, s.backlog = 2 ∧ s.pc = .wait ∧ ¬s.Stranded := by
  let s₀ : AcceptLoop := ⟨0, false, .wait⟩
  obtain ⟨s, htr, hp⟩ := acceptLoop.exists_trace (s := s₀) (fun _ _ => True)
    [.arrive, .wake, .arrive, .failed false] (fun s => decide (s.backlog = 2 ∧ s.pc = .wait))
    (by decide)
  obtain ⟨hbacklog, hwait⟩ := of_decide_eq_true hp
  exact ⟨s, hbacklog, hwait,
    ((not_stranded_iff ⟨rfl, fun h => absurd rfl h⟩ htr).mpr (by decide)).2⟩

/-- Two clients connect, and descriptors run out at the first `accept`: both wait, and no edge will
come. -/
theorem exists_stranded :
    ∃ s : AcceptLoop, acceptLoop.Reachable s ∧ s.pc = .wait ∧ s.edge = false ∧ s.backlog = 2 := by
  obtain ⟨s, hs, hp⟩ := acceptLoop.exists_of_exec (s := ⟨0, false, .wait⟩)
    [.arrive, .arrive, .wake, .failed false]
    (fun s => decide (s.pc = .wait ∧ s.edge = false ∧ s.backlog = 2)) ⟨rfl, fun h => absurd rfl h⟩
      (by decide)
  exact ⟨s, hs, of_decide_eq_true hp⟩

/-! ### The server -/

/-- The program point of the main thread in the loops over the backlog. -/
def MainPc.acceptPc : MainPc n → AcceptPc
  | .wait => .wait
  | .accept => .accept
  | .getThread .. | .create .. | .handoff .. | .drop .. | .closeClient .. => .serve
  | _ => .stopped

/-- The backlog of the server, its edge, and its main thread. -/
def State.acceptLoop (s : State n m) : AcceptLoop where
  backlog := s.kernel.backlog
  edge := s.kernel.listenEdge
  pc := s.main.acceptPc

/-- What a call does to the backlog: nothing. -/
structure Kernel.SameBacklog (k k' : Kernel n) : Prop where
  backlog : k'.backlog = k.backlog
  edge : k'.listenEdge = k.listenEdge

theorem Kernel.sameBacklog_close (k : Kernel n) (o : Option Fd) : k.SameBacklog (k.close o) := by
  cases o with
  | none => exact ⟨rfl, rfl⟩
  | some f =>
    rw [Kernel.close]
    split
    · exact ⟨rfl, rfl⟩
    · exact ⟨rfl, rfl⟩

theorem Kernel.sameBacklog_eventLoopMod (k : Kernel n) (t : Fin n) (o : Option Fd)
    (mask : EventMask) (c : ConnId) :
    k.SameBacklog (k.eventLoopMod t o mask c) := by
  cases o with
  | none => exact ⟨rfl, rfl⟩
  | some f =>
    rw [Kernel.eventLoopMod]
    split
    · exact ⟨rfl, rfl⟩
    · exact ⟨rfl, rfl⟩

theorem sameBacklog_connRelease (s : State n m) (c : ConnId) :
    s.kernel.SameBacklog (s.connRelease c).kernel := by
  rw [connRelease_kernel]
  split
  · exact Kernel.sameBacklog_close ..
  · exact ⟨rfl, rfl⟩

theorem sameBacklog_connMarkClosing (s : State n m) (c : ConnId) :
    s.kernel.SameBacklog (s.connMarkClosing c).kernel := by
  rw [connMarkClosing_kernel]
  split
  · exact ⟨rfl, rfl⟩
  · exact Kernel.sameBacklog_close ..

section server

variable {cfg : Config n} {s s' : State n m} {t : Fin n} {w : Fin m}

/-- The IO threads leave the backlog alone. -/
theorem IoStep.sameBacklog (h : IoStep cfg s t s') : s.kernel.SameBacklog s'.kernel := by
  cases h with
  | wrote hpc hlt hk =>
    obtain ⟨sk, -, -, -, -, rfl⟩ := Kernel.writeBytes_eq hk
    exact ⟨rfl, rfl⟩
  | readData hpc hk =>
    obtain ⟨sk, -, -, -, -, -, rfl⟩ := Kernel.readBytes_eq hk
    exact ⟨rfl, rfl⟩
  | register hpc hk =>
    obtain ⟨f, -, -, -, rfl⟩ := Kernel.eventLoopAdd_eq hk
    exact ⟨rfl, rfl⟩
  | reject | closeRelease | msgRelease => exact sameBacklog_connRelease s _
  | closeMark => exact sameBacklog_connMarkClosing s _
  | backToRead | msgMod => exact Kernel.sameBacklog_eventLoopMod ..
  | @closeDel k x fd hpc => cases fd <;> exact ⟨rfl, rfl⟩
  | _ => exact ⟨rfl, rfl⟩

/-- The workers leave the backlog alone. -/
theorem WorkerStep.sameBacklog (h : WorkerStep cfg s w s') : s.kernel.SameBacklog s'.kernel := by
  cases h with
  | closeMark => exact sameBacklog_connMarkClosing s _
  | closeRelease | destroy => exact sameBacklog_connRelease s _
  | _ => exact ⟨rfl, rfl⟩

/-- Steps that concern neither the backlog nor the loops over it. -/
theorem acceptLoop_eq (hk : s.kernel.SameBacklog s'.kernel)
    (hmain : s'.main.acceptPc = s.main.acceptPc) :
    s'.acceptLoop = s.acceptLoop := by
  rw [State.acceptLoop, State.acceptLoop, hk.backlog, hk.edge, hmain]

/-- The main thread takes the steps of the loops over the backlog, or none of them. -/
theorem MainStep.acceptLoop (h : MainStep cfg s s') :
    s'.acceptLoop = s.acceptLoop ∨ ∃ a, s.acceptLoop.step a = some s'.acceptLoop := by
  cases h with
  | woken hpc he =>
    exact .inr ⟨.wake, by simp [AcceptLoop.step, State.acceptLoop, MainPc.acceptPc, hpc, he]⟩
  | stop hpc =>
    exact .inr ⟨.stop, by simp [AcceptLoop.step, State.acceptLoop, MainPc.acceptPc, hpc]⟩
  | accept hpc hf hb =>
    exact .inr ⟨.accepted, by simp [AcceptLoop.step, State.acceptLoop, MainPc.acceptPc, hpc, hb]⟩
  | acceptAgain hpc hb =>
    exact .inr ⟨.again, by simp [AcceptLoop.step, State.acceptLoop, MainPc.acceptPc, hpc, hb]⟩
  | acceptIntr => exact .inl rfl
  | acceptFailed hpc =>
    exact .inr ⟨.failed false, by simp [AcceptLoop.step, State.acceptLoop, MainPc.acceptPc, hpc]⟩
  | handOff hpc =>
    exact .inr ⟨.served, by simp [AcceptLoop.step, State.acceptLoop, MainPc.acceptPc, hpc]⟩
  | @closeClient f sk hpc =>
    obtain ⟨hb, he⟩ := s.kernel.sameBacklog_close (some f)
    exact .inr ⟨.served, by simp [AcceptLoop.step, State.acceptLoop, MainPc.acceptPc, hpc, hb, he]⟩
  | getThread hpc | noThread hpc | create hpc | createFailed hpc | handOffFailed hpc =>
    exact .inl (acceptLoop_eq ⟨rfl, rfl⟩ (by rw [hpc]; rfl))
  | @drop c f sk hpc => exact .inl (acceptLoop_eq (sameBacklog_connRelease s c) (by rw [hpc]; rfl))
  | destroyTask hpc hq => exact .inl (acceptLoop_eq (sameBacklog_connRelease s _) rfl)
  | closeListen hpc =>
    exact .inl
      (acceptLoop_eq (s.kernel.sameBacklog_close (some (cfg.sysFd .listen))) (by rw [hpc]; rfl))
  | @ioClose0 t hpc =>
    exact .inl (acceptLoop_eq (s.kernel.sameBacklog_close (some (cfg.sysFd (.pipe t .read))))
      (by rw [hpc]; rfl))
  | @ioClose1 t hpc =>
    exact .inl (acceptLoop_eq (s.kernel.sameBacklog_close (some (cfg.sysFd (.pipe t .write))))
      (by rw [hpc]; rfl))
  | destroyLoop hpc =>
    refine .inl (acceptLoop_eq (s.kernel.sameBacklog_close (some (cfg.sysFd .mainEpoll))) ?_)
    rw [hpc, setMain_main, nextDestroy]
    split <;> rfl
  | ioLoop hpc =>
    obtain ⟨hb, he⟩ := s.kernel.sameBacklog_close (some (cfg.sysFd (.epoll _)))
    exact .inl (acceptLoop_eq ⟨hb, he⟩ (by rw [hpc]; rfl))
  | ioFree hpc =>
    refine .inl (acceptLoop_eq ⟨rfl, rfl⟩ ?_)
    rw [hpc, setMain_main, nextDestroy]
    split <;> rfl
  | ioFlag hpc | ioWake hpc | ioWakeFailed hpc | ioJoin hpc | poolShutdown hpc | queueShutdown hpc
  | joinWorkers hpc | destroyed hpc =>
    exact .inl (acceptLoop_eq ⟨rfl, rfl⟩ (by rw [hpc]; rfl))

/-- Every step of the server is at most one step of the loops over the backlog. -/
theorem server_acceptLoop {a : Action n m} (hs : (server m cfg).step s a = some s') :
    s'.acceptLoop = s.acceptLoop ∨ ∃ b, s.acceptLoop.step b = some s'.acceptLoop := by
  cases a with
  | io t r =>
    exact .inl (acceptLoop_eq (ioStep_spec hs).sameBacklog (by rw [(ioStep_spec hs).main_eq]))
  | worker w ok =>
    exact .inl
      (acceptLoop_eq (workerStep_spec hs).sameBacklog (by rw [(workerStep_spec hs).main_eq]))
  | main r => exact (mainStep_spec hs).acceptLoop
  | env e =>
    cases envStep_spec hs with
    | arrive => exact .inr ⟨.arrive, rfl⟩
    | sock => exact .inl rfl

end server

end DeepInIo.AdvancedServer
