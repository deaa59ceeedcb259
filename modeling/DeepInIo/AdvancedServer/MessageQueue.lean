import DeepInIo.AdvancedServer.Invariant
import DeepInIo.Foundation.Mailbox
import DeepInIo.Foundation.ThreadSum

/-!
# The message list of an IO thread

`io_thread_send_message` and the message branch of `io_thread_run` implement a `Mailbox`: the
abstraction `State.mailbox` reads one off the IO thread and the workers, and every step of the
server is at most one step of every mailbox (`ServerStep.mailbox`).  The wake-up guarantee of
mailboxes then holds for the server (`messageQueue_no_lost_wakeup`).
-/

namespace DeepInIo.AdvancedServer

open State

variable {n m : ℕ}

/-! ### The abstraction -/

/-- What a program point means for the message list. -/
def IoPc.phase : IoPc → Mailbox.Phase
  | .msgRead => .reading
  | .msgDrain | .msgCheck _ | .msgMod _ | .msgRelease _ => .draining
  | _ => .idle

/-- The worker has linked a message for the thread `t` and not written its byte. -/
def WorkerPc.notifies (t : Fin n) : WorkerPc n → Bool
  | .sendNotify _ t' => t' = t
  | _ => false

/-- The mailbox of an IO thread, given the number of senders that are still to write their byte. -/
def IoThread.mailbox (th : IoThread) (linked : ℕ) : Mailbox where
  items := th.msgQueue.length
  linked := linked
  bytes := th.msgPipe
  edge := th.msgEdge
  events := th.batch.count .msgPipe
  phase := th.pc.phase

/-- The senders that have linked a message for the thread `t` and not written their byte. -/
def State.linked (s : State n m) (t : Fin n) : ℕ :=
  ∑ w, ((s.worker w).notifies t).toNat

/-- The mailbox of the IO thread `t`. -/
def State.mailbox (s : State n m) (t : Fin n) : Mailbox :=
  (s.io t).mailbox (s.linked t)

/-! ### The steps of the server are steps of the mailboxes -/

@[simp] theorem phase_afterRead (x : EventContext) : (afterRead x).phase = .idle := by
  unfold afterRead; split <;> rfl

@[simp] theorem phase_afterFd (x : EventContext) : (afterFd x).phase = .idle := by
  unfold afterFd; split
  · rfl
  · exact phase_afterRead x

@[simp] theorem phase_afterCheck (k : CloseSite) (x : EventContext) :
    (afterCheck k x).phase = .idle := by
  unfold afterCheck; split
  · exact phase_afterRead x
  · rfl

section steps

variable {cfg : Config n} {s s' : State n m} {t : Fin n} {w : Fin m}

/-- A move keeps the phase, except for the one that finds the list empty. -/
theorem IoMove.phase {pc pc' : IoPc} (h : IoMove s t pc pc') :
    pc'.phase = pc.phase ∨
      (pc.phase = .draining ∧ pc'.phase = .idle ∧ (s.io t).msgQueue = []) := by
  cases h with
  | drained h => exact .inr ⟨rfl, rfl, h⟩
  | fdLoaded x => left; rw [phase_afterFd]; rfl
  | stillValid k x => left; rw [phase_afterCheck]; rfl
  | _ => exact .inl rfl

/-- A step of the IO thread is at most one step of its mailbox. -/
theorem IoStep.mailbox (h : IoStep cfg s t s') (l : ℕ) :
    Relation.ReflTransGen (Mailbox.Step cfg.msgPipeCap) ((s.io t).mailbox l)
      ((s'.io t).mailbox l) := by
  have hsame : ∀ {th : IoThread}, th.msgQueue = (s.io t).msgQueue → th.msgPipe = (s.io t).msgPipe →
      th.msgEdge = (s.io t).msgEdge → th.batch.count .msgPipe = (s.io t).batch.count .msgPipe →
      th.pc.phase = (s.io t).pc.phase →
      Relation.ReflTransGen (Mailbox.Step cfg.msgPipeCap) ((s.io t).mailbox l) (th.mailbox l) := by
    intro th h1 h2 h3 h4 h5
    rw [IoThread.mailbox, IoThread.mailbox, h1, h2, h3, h4, h5]
  cases h with
  | @move pc' hm =>
    rcases hm.phase with hp | ⟨h1, h2, hq⟩
    · simp only [setIoPc_io, Function.update_self]
      exact hsame rfl rfl rfl rfl hp
    · have hstep : Mailbox.Step cfg.msgPipeCap _ _ :=
        .finish ((s.io t).mailbox l) h1 (by simp [IoThread.mailbox, hq])
      refine .single ?_
      simpa [IoThread.mailbox, h2] using hstep
  | collectMsg hpc he =>
    have hstep : Mailbox.Step cfg.msgPipeCap _ _ := .deliver ((s.io t).mailbox l) he
    refine .single ?_
    simpa [IoThread.mailbox, he] using hstep
  | nextMsg hpc hb =>
    have hstep : Mailbox.Step cfg.msgPipeCap _ _ :=
      .begin ((s.io t).mailbox l) (congrArg IoPc.phase hpc) (by simp [IoThread.mailbox, hb])
    refine .single ?_
    simpa [IoThread.mailbox, hb, IoPc.phase] using hstep
  | msgRead hpc =>
    have hstep : Mailbox.Step cfg.msgPipeCap _ _ :=
      .read ((s.io t).mailbox l) (congrArg IoPc.phase hpc)
    refine .single ?_
    simpa [IoThread.mailbox, IoPc.phase] using hstep
  | drain hpc hq =>
    have hstep : Mailbox.Step cfg.msgPipeCap _ _ :=
      .take ((s.io t).mailbox l) (congrArg IoPc.phase hpc) (by simp [IoThread.mailbox, hq])
    refine .single ?_
    simpa [IoThread.mailbox, IoPc.phase, hq, hpc] using hstep
  | collectPipe hpc | collectFd hpc =>
    simp only [setIo_io, Function.update_self]
    exact hsame rfl rfl rfl (by simp) rfl
  | nextPipe hpc hb | nextConn hpc hb =>
    simp only [setIo_io, Function.update_self]
    exact hsame rfl rfl rfl (by simp [hb]) (congrArg IoPc.phase hpc).symm
  | @closeRelease k x hpc =>
    simp only [releaseOwner, setIoPc_io, Function.update_self]
    refine hsame rfl rfl rfl rfl ?_
    rw [hpc]
    split <;> rfl
  | backToRead hpc =>
    simp only [State.backToRead, setIoPc_io, Function.update_self]
    refine hsame rfl rfl rfl rfl ?_
    rcases hpc with hpc | hpc <;> rw [hpc] <;> rfl
  | readWake hpc | readConn hpc | adopt hpc | register hpc | reject hpc | msgMod hpc
  | msgRelease hpc | readData hpc | createTask hpc | createLeak hpc | submitLeak hpc | submit hpc
  | wrote hpc | reset hpc | closeMark hpc | closeDel hpc =>
    simp only [rejectConnection, State.readData, wroteData, State.markClosing, setIo_io, setIoPc_io,
      Function.update_self]
    exact hsame rfl rfl rfl rfl (congrArg IoPc.phase hpc).symm

/-- The number of senders changes as the contribution of the stepping worker does. -/
theorem linked_update {pc : WorkerPc n} (h : s'.worker = Function.update s.worker w pc)
    (t : Fin n) :
    s'.linked t + ((s.worker w).notifies t).toNat = s.linked t + (pc.notifies t).toNat := by
  rw [linked, h]
  exact threadSum_update s.worker w pc fun pc => (pc.notifies t).toNat

/-- A worker that notifies is one of the senders. -/
theorem linked_pos (h : (s.worker w).notifies t = true) : 0 < s.linked t := by
  have hle := le_threadSum (fun w => ((s.worker w).notifies t).toNat) w
  rw [h] at hle
  exact hle

/-- A step of a worker is at most one step of every mailbox. -/
theorem WorkerStep.mailbox (h : WorkerStep cfg s w s') (t : Fin n) :
    Relation.ReflTransGen (Mailbox.Step cfg.msgPipeCap) (s.mailbox t) (s'.mailbox t) := by
  -- Most steps touch neither the list nor the pipe nor the number of senders.
  have hsame : ∀ {pc : WorkerPc n}, s'.worker = Function.update s.worker w pc →
      pc.notifies t = (s.worker w).notifies t → s'.io t = s.io t →
      Relation.ReflTransGen (Mailbox.Step cfg.msgPipeCap) (s.mailbox t) (s'.mailbox t) := by
    intro pc hw hn hio
    have hl := linked_update hw t
    rw [hn] at hl
    rw [State.mailbox, State.mailbox, hio, Nat.add_right_cancel hl]
  cases h with
  | @move pc' hm =>
    have hw : (s.setWorker w pc').worker = Function.update s.worker w pc' := rfl
    generalize hpc : s.worker w = pc at hm
    cases hm with
    | pipeFull task t₀ hfull =>
      by_cases ht : t₀ = t
      · subst ht
        have hn : (s.worker w).notifies t₀ = true := by rw [hpc]; exact decide_eq_true rfl
        have hl := linked_update hw t₀
        rw [hn] at hl
        have hstep : Mailbox.Step cfg.msgPipeCap _ _ := .refuse (s.mailbox t₀) hfull (linked_pos hn)
        have hlinked : (s.setWorker w (.stats task)).linked t₀ = s.linked t₀ - 1 :=
          Nat.eq_sub_of_add_eq hl
        refine .single ?_
        simpa [State.mailbox, IoThread.mailbox, hlinked] using hstep
      · refine hsame hw ?_ rfl
        rw [hpc]
        simp [WorkerPc.notifies, ht]
    | _ => exact hsame hw (by rw [hpc]; rfl) rfl
  | @link task t₀ hpc =>
    have hw : (s.linkMessage w task t₀).worker =
        Function.update s.worker w (.sendNotify task t₀) := rfl
    by_cases ht : t₀ = t
    · subst ht
      have hl := linked_update hw t₀
      have hstep : Mailbox.Step cfg.msgPipeCap _ _ := .link (s.mailbox t₀)
      have hlinked : (s.linkMessage w task t₀).linked t₀ = s.linked t₀ + 1 := by
        simpa [hpc, WorkerPc.notifies] using hl
      refine .single ?_
      change Mailbox.Step _ _ (IoThread.mailbox _ (State.linked _ t₀))
      rw [hlinked]
      simpa [State.mailbox, IoThread.mailbox, linkMessage] using hstep
    · refine hsame hw ?_ (Function.update_of_ne (Ne.symm ht) _ _)
      rw [hpc]
      simp [WorkerPc.notifies, ht]
  | @notify task t₀ hpc hlt =>
    have hw :
        ((s.setIo t₀ { s.io t₀ with msgPipe := (s.io t₀).msgPipe + 1, msgEdge := true }).setWorker w
          (.stats task)).worker = Function.update s.worker w (.stats task) := rfl
    by_cases ht : t₀ = t
    · subst ht
      have hn : (s.worker w).notifies t₀ = true := by rw [hpc]; exact decide_eq_true rfl
      have hl := linked_update hw t₀
      rw [hn] at hl
      have hstep : Mailbox.Step cfg.msgPipeCap _ _ := .notify (s.mailbox t₀) hlt (linked_pos hn)
      simp only [WorkerPc.notifies, Bool.toNat_false, Bool.toNat_true, add_zero] at hl
      have hlinked := Nat.eq_sub_of_add_eq hl
      refine .single ?_
      change Mailbox.Step _ _ (IoThread.mailbox _ (State.linked _ t₀))
      rw [hlinked]
      simpa [State.mailbox, IoThread.mailbox] using hstep
    · refine hsame hw ?_ (Function.update_of_ne (Ne.symm ht) _ _)
      rw [hpc]
      simp [WorkerPc.notifies, ht]
  | pop hpc | install hpc | acquire hpc | closeMark hpc | closeRelease hpc | stats hpc
  | destroy hpc => exact hsame rfl (by rw [hpc]; rfl) rfl

/-- The main thread does not concern the mailboxes. -/
theorem MainStep.mailbox (h : MainStep cfg s s') (t : Fin n) : s'.mailbox t = s.mailbox t := by
  cases h with
  | @handOff t₀ | @ioFlag t₀ | @ioWake t₀ | @ioFree t₀ =>
    by_cases ht : t = t₀
    · subst ht; simp [State.mailbox, IoThread.mailbox, State.linked]
    · simp [State.mailbox, State.linked, ht]
  | _ => rfl

/-- Every step of the server is at most one step of every mailbox. -/
theorem ServerStep.mailbox (h : ServerStep cfg s s') (t : Fin n) :
    Relation.ReflTransGen (Mailbox.Step cfg.msgPipeCap) (s.mailbox t) (s'.mailbox t) := by
  cases h with
  | main h => rw [h.mailbox t]
  | io t₀ h =>
    have hl : s'.linked t = s.linked t := by rw [linked, linked, h.worker_eq]
    rw [State.mailbox, State.mailbox, hl]
    by_cases ht : t = t₀
    · subst ht; exact h.mailbox _
    · rw [h.io_ne ht]
  | worker w h => exact h.mailbox t
  | env h => cases h <;> exact .refl

/-- In every run each IO thread and its senders run a mailbox. -/
theorem reachable_mailbox (h : (server m cfg).Reachable s) (t : Fin n) :
    Relation.ReflTransGen (Mailbox.Step cfg.msgPipeCap) Mailbox.empty (s.mailbox t) := by
  refine h.simulation (f := fun s => s.mailbox t) ?_ ?_
  · rintro _ rfl
    simp [State.mailbox, IoThread.mailbox, State.start, IoThread.start, IoPc.phase, State.linked,
      WorkerPc.notifies, Mailbox.empty]
  · intro s a s' _ _ hs
    exact (step_spec hs).mailbox t

end steps

/-! ### No lost wake-up -/

/-- In every reachable state with a message in the list of an IO thread, readiness of its message
pipe is signalled and not delivered, or the event is in the thread's batch, or it is being treated
and the list has not been seen empty since, or some worker has linked its message and not written
its byte yet. -/
theorem messageQueue_no_lost_wakeup {cfg : Config n} {s : State n m}
    (h : (server m cfg).Reachable s) (t : Fin n) (hq : (s.io t).msgQueue ≠ []) :
    (s.io t).msgEdge = true ∨ .msgPipe ∈ (s.io t).batch ∨ (s.io t).pc.phase ≠ .idle ∨
      ∃ w task, s.worker w = .sendNotify task t := by
  have hpos : 0 < (s.io t).msgQueue.length := List.length_pos_iff.mpr hq
  rcases Mailbox.Run.awake cfg.msgPipeCap_pos (reachable_mailbox h t) hpos with he | he | he | he
  · exact .inl he
  · exact .inr (.inl (List.count_pos_iff.mp he))
  · exact .inr (.inr (.inl he))
  · refine .inr (.inr (.inr ?_))
    have hsum : ∑ w, ((s.worker w).notifies t).toNat ≠ 0 := Nat.pos_iff_ne_zero.mp he
    obtain ⟨w, -, hw⟩ := Finset.exists_ne_zero_of_sum_ne_zero hsum
    refine ⟨w, ?_⟩
    cases hpc : s.worker w with
    | sendNotify task t' =>
      rw [hpc] at hw
      by_cases ht : t' = t
      · exact ⟨task, by rw [ht]⟩
      · simp [WorkerPc.notifies, ht] at hw
    | _ => rw [hpc] at hw; exact absurd rfl hw

/-- The worker that linked the first response has not written its byte yet. -/
theorem messageQueue_no_lost_wakeup_linked :
    ∃ s : State 1 1, (s.io 0).msgQueue ≠ [] ∧
      ((s.io 0).msgEdge = true ∨ .msgPipe ∈ (s.io 0).batch ∨ (s.io 0).pc.phase ≠ .idle ∨
        ∃ w task, s.worker w = .sendNotify task 0) := by
  obtain ⟨s, hs, hp⟩ := (server 1 (Config.fresh 1)).exists_of_exec
    (List.flatten [Action.connect 10, Action.adopt 0, [.env (.data 10 [65])],
      Action.deliver 0 10 { read := true }, Action.readOne 0 1, Action.work 0 8])
    (fun s => decide ((s.io 0).msgQueue ≠ [])) rfl (by decide +kernel)
  have hq := of_decide_eq_true hp
  exact ⟨s, hq, messageQueue_no_lost_wakeup hs 0 hq⟩

end DeepInIo.AdvancedServer
