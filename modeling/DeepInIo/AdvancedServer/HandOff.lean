import DeepInIo.AdvancedServer.Invariant
import DeepInIo.Foundation.EdgeTriggered

/-!
# The hand-off pipe

The hand-off pipe of an IO thread is an edge-triggered `Channel`, and `io_thread_run` takes one
pointer for each event.  A hand-off written while the readiness of an earlier one is undelivered
arms no edge of its own, so its connection stays in the pipe until another hand-off comes.  The file
proves that without such hand-offs no connection is stranded (`handOff_delivered`), that while the
server runs they are exactly what is stranded (`stranded_iff_coalesced`), and that a burst of two
connections is enough (`handOff_burst_stranded`).
-/

namespace DeepInIo.AdvancedServer

open State

variable {n m : ℕ}

/-! ### The pipe as a channel -/

/-- The item is the pointer of a connection. -/
def PipeItem.isConn : PipeItem → Bool
  | .conn _ => true
  | .wake => false

/-- The thread is about to answer an event of the hand-off pipe. -/
def IoPc.fetching : IoPc → Bool
  | .pipeRead => true
  | _ => false

/-- The channel of the hand-off pipe: the pointers in it, and the events that are still to be
answered by a `read`. -/
def IoThread.channel (th : IoThread) : Channel where
  items := th.pipe.countP PipeItem.isConn
  edge := th.pipeEdge
  events := th.batch.count .pipe + th.pc.fetching.toNat
  coalesced := th.coalesced

/-- The bytes that wake a thread for its shutdown come after all pointers, and not while the server
runs. -/
structure WakeLast (s : State n m) : Prop where
  last : ∀ t, (s.io t).pipe.Pairwise fun a b => a = .wake → b = .wake
  running : s.Running → ∀ t, .wake ∉ (s.io t).pipe

section steps

variable {cfg : Config n} {s s' : State n m} {t : Fin n} {w : Fin m}

/-! ### Wake-up bytes -/

/-- What a step of the server can do to the pipe of an IO thread. -/
inductive PipeChange (s : State n m) (p : List PipeItem) : List PipeItem → Prop
  | same : PipeChange s p p
  | pop (a : PipeItem) (rest : List PipeItem) (h : p = a :: rest) : PipeChange s p rest
  | conn (c : ConnId) (hr : s.Running) : PipeChange s p (p ++ [.conn c])
  | wake (hr : ¬s.Running) : PipeChange s p (p ++ [.wake])

theorem ServerStep.pipe (h : ServerStep cfg s s') (t : Fin n) :
    PipeChange s (s.io t).pipe (s'.io t).pipe := by
  cases h with
  | main h =>
    cases h with
    | @handOff t₀ c f sk hpc hlt =>
      by_cases ht : t = t₀
      · subst ht
        simp only [handOff_io, Function.update_self]
        exact .conn c (by simp [State.Running, hpc])
      · simp only [handOff_io, Function.update_of_ne ht]
        exact .same
    | @ioWake t₀ hpc =>
      by_cases ht : t = t₀
      · subst ht
        simp only [setMain_io, setIo_io, Function.update_self]
        exact .wake (by simp [State.Running, hpc])
      · simp only [setMain_io, setIo_io, Function.update_of_ne ht]
        exact .same
    | @ioFlag t₀ | @ioFree t₀ =>
      by_cases ht : t = t₀
      · subst ht
        simp only [setMain_io, setIo_io, Function.update_self]
        exact .same
      · simp only [setMain_io, setIo_io, Function.update_of_ne ht]
        exact .same
    | _ => exact .same
  | io t₀ h =>
    by_cases ht : t = t₀
    · subst ht
      cases h with
      | readWake hpc hp | readConn hpc hp =>
        simp only [setIo_io, Function.update_self]
        exact .pop _ _ hp
      | _ =>
        simp only [rejectConnection, State.readData, State.backToRead, wroteData, State.markClosing,
          releaseOwner, setIo_io, setIoPc_io, Function.update_self]
        exact .same
    · rw [h.io_ne ht]
      exact .same
  | worker w h =>
    rw [(h.io_eq t).1]
    exact .same
  | env h => cases h <;> exact .same

/-- The order of the items of the pipes is kept. -/
theorem ServerStep.wakeLast (h : ServerStep cfg s s') (hw : WakeLast s) : WakeLast s' := by
  refine ⟨fun t => ?_, fun hr t => ?_⟩
  · have hold := hw.last t
    have hrun := fun hr => hw.running hr t
    generalize hp' : (s'.io t).pipe = p'
    have hch := hp' ▸ h.pipe t
    cases hch with
    | same => exact hold
    | pop a rest hp => exact (List.pairwise_cons.mp (hp ▸ hold)).2
    | conn c hr =>
      refine List.pairwise_append.mpr ⟨hold, List.pairwise_singleton .., fun a ha b hb hwake => ?_⟩
      exact absurd (hwake ▸ ha) (hrun hr)
    | wake hr =>
      exact List.pairwise_append.mpr ⟨hold, List.pairwise_singleton .., fun a ha b hb _ =>
        List.mem_singleton.mp hb⟩
  · have hrun := hw.running (h.running hr) t
    generalize hp' : (s'.io t).pipe = p'
    have hch := hp' ▸ h.pipe t
    cases hch with
    | same => exact hrun
    | pop a rest hp => exact fun hmem => hrun (hp ▸ .tail _ hmem)
    | conn c _ => simpa using hrun
    | wake hnr => exact absurd (h.running hr) hnr

/-- The order of the items of the pipes holds in every reachable state. -/
theorem reachable_wakeLast (h : (server m cfg).Reachable s) : WakeLast s := by
  refine TransitionSystem.Reachable.invariant ?_ ?_ h
  · rintro _ rfl
    exact ⟨fun t => .nil, fun _ t => by simp [State.start, IoThread.start]⟩
  · intro s a s' _ hw hs
    exact (step_spec hs).wakeLast hw

end steps

/-! ### The steps of the server are steps of the channels -/

@[simp] theorem fetching_afterRead (x : EventContext) : (afterRead x).fetching = false := by
  unfold afterRead; split <;> rfl

@[simp] theorem fetching_afterFd (x : EventContext) : (afterFd x).fetching = false := by
  unfold afterFd; split
  · rfl
  · exact fetching_afterRead x

@[simp] theorem fetching_afterCheck (k : CloseSite) (x : EventContext) :
    (afterCheck k x).fetching = false := by
  unfold afterCheck; split
  · exact fetching_afterRead x
  · rfl

section channel

variable {cfg : Config n} {s s' : State n m} {t : Fin n}

/-- A thread does not come to its hand-off pipe by moving, and leaves it only when it is empty. -/
theorem IoMove.fetching {pc pc' : IoPc} (h : IoMove s t pc pc') :
    pc'.fetching = false ∧ (pc.fetching = true → (s.io t).pipe = []) := by
  cases h with
  | pipeEmpty h => exact ⟨rfl, fun _ => h⟩
  | fdLoaded x => exact ⟨fetching_afterFd _, nofun⟩
  | stillValid k x => exact ⟨fetching_afterCheck k x, nofun⟩
  | _ => exact ⟨rfl, nofun⟩

/-- A step of the IO thread is at most one step of its channel. -/
theorem IoStep.channel (h : IoStep cfg s t s') (hw : WakeLast s) :
    (s'.io t).channel = (s.io t).channel ∨ Channel.Step (s.io t).channel (s'.io t).channel := by
  have hsame : ∀ {th : IoThread}, th.pipe = (s.io t).pipe → th.pipeEdge = (s.io t).pipeEdge →
      th.batch.count .pipe = (s.io t).batch.count .pipe → th.coalesced = (s.io t).coalesced →
      th.pc.fetching = (s.io t).pc.fetching → th.channel = (s.io t).channel := by
    intro th h1 h2 h3 h4 h5
    rw [IoThread.channel, IoThread.channel, h1, h2, h3, h4, h5]
  cases h with
  | @move pc' hm =>
    obtain ⟨h1, h2⟩ := hm.fetching
    simp only [setIoPc_io, Function.update_self]
    cases hf : (s.io t).pc.fetching with
    | false => exact .inl (hsame rfl rfl rfl rfl (h1.trans hf.symm))
    | true =>
      have hstep := Channel.Step.take (s.io t).channel (by simp [IoThread.channel, hf])
      right
      simpa [IoThread.channel, h1, hf, h2 hf] using hstep
  | collectPipe hpc he =>
    have hstep := Channel.Step.deliver (s.io t).channel he
    right
    simpa [IoThread.channel, hpc, IoPc.fetching] using hstep
  | nextPipe hpc hb =>
    left
    simp [IoThread.channel, hb, hpc, IoPc.fetching]
  | @readWake rest hpc hp =>
    -- Behind the byte of `io_thread_destroy` there is no pointer.
    have hrest : rest.countP PipeItem.isConn = 0 := by
      refine List.countP_eq_zero.mpr fun a ha => ?_
      have hlast := hw.last t
      rw [hp, List.pairwise_cons] at hlast
      rw [hlast.1 a ha rfl]
      nofun
    have hstep :=
      Channel.Step.take (s.io t).channel (by simp [IoThread.channel, hpc, IoPc.fetching])
    right
    simpa [IoThread.channel, hpc, IoPc.fetching, hp, hrest, PipeItem.isConn] using hstep
  | readConn hpc hp =>
    have hstep :=
      Channel.Step.take (s.io t).channel (by simp [IoThread.channel, hpc, IoPc.fetching])
    right
    simpa [IoThread.channel, hpc, IoPc.fetching, hp, PipeItem.isConn, List.countP_cons] using hstep
  | collectMsg hpc | collectFd hpc =>
    left
    simp only [setIo_io, Function.update_self]
    exact hsame rfl rfl (by simp) rfl rfl
  | nextMsg hpc hb | nextConn hpc hb =>
    left
    simp only [setIo_io, Function.update_self]
    exact hsame rfl rfl (by simp [hb]) rfl (congrArg IoPc.fetching hpc).symm
  | @closeRelease k x hpc =>
    left
    simp only [releaseOwner, setIoPc_io, Function.update_self]
    refine hsame rfl rfl rfl rfl ?_
    rw [hpc]
    split <;> rfl
  | backToRead hpc =>
    left
    simp only [State.backToRead, setIoPc_io, Function.update_self]
    refine hsame rfl rfl rfl rfl ?_
    rcases hpc with hpc | hpc <;> rw [hpc] <;> rfl
  | adopt hpc | register hpc | reject hpc | msgRead hpc | drain hpc | msgMod hpc | msgRelease hpc
  | readData hpc | createTask hpc | createLeak hpc | submitLeak hpc | submit hpc | wrote hpc
  | reset hpc | closeMark hpc | closeDel hpc =>
    left
    simp only [rejectConnection, State.readData, wroteData, State.markClosing, setIo_io, setIoPc_io,
      Function.update_self]
    exact hsame rfl rfl rfl rfl (congrArg IoPc.fetching hpc).symm

/-- Every step of the server is at most one step of every channel, except that `server_destroy` also
arms the edge. -/
theorem ServerStep.channel (h : ServerStep cfg s s') (hw : WakeLast s) (t : Fin n) :
    (s'.io t).channel = (s.io t).channel ∨ Channel.Step (s.io t).channel (s'.io t).channel ∨
      (¬s.Running ∧ (s'.io t).channel = (s.io t).channel.nudge) := by
  cases h with
  | main h =>
    cases h with
    | @handOff t₀ c f sk hpc hlt =>
      by_cases ht : t = t₀
      · subst ht
        have hstep := Channel.Step.arrive (s.io t).channel
        right; left
        simpa [IoThread.channel, PipeItem.isConn] using hstep
      · left; simp [ht]
    | @ioWake t₀ hpc =>
      by_cases ht : t = t₀
      · subst ht
        right; right
        exact ⟨by simp [State.Running, hpc],
          by simp [IoThread.channel, Channel.nudge, PipeItem.isConn]⟩
      · left; simp [ht]
    | @ioFlag t₀ | @ioFree t₀ =>
      left
      by_cases ht : t = t₀
      · subst ht; simp [IoThread.channel]
      · simp [ht]
    | _ => exact .inl rfl
  | io t₀ h =>
    by_cases ht : t = t₀
    · subst ht
      rcases h.channel hw with h | h
      · exact .inl h
      · exact .inr (.inl h)
    · rw [h.io_ne ht]
      exact .inl rfl
  | worker w h =>
    left
    cases h with
    | @link task t₀ | @notify task t₀ =>
      by_cases ht : t = t₀
      · subst ht; simp [IoThread.channel, linkMessage]
      · simp [linkMessage, ht]
    | _ => rfl
  | env h => cases h <;> exact .inl rfl

/-- In every run the pointers in the pipe are covered by edges, events and coalesced hand-offs. -/
theorem reachable_covered (h : (server m cfg).Reachable s) (t : Fin n) :
    (s.io t).channel.Covered := by
  refine TransitionSystem.Reachable.invariant (I := fun s => (s.io t).channel.Covered) ?_ ?_ h
  · rintro _ rfl
    exact Channel.balanced_empty.covered
  · intro s a s' hr hc hs
    rcases (step_spec hs).channel (reachable_wakeLast hr) t with h | h | ⟨-, h⟩
    · rwa [h]
    · exact h.covered hc
    · rw [h]; exact hc.nudge

/-- While the server runs, they are balanced. -/
theorem reachable_balanced (h : (server m cfg).Reachable s) (hrun : s.Running) (t : Fin n) :
    (s.io t).channel.Balanced := by
  revert hrun
  refine TransitionSystem.Reachable.invariant
    (I := fun s => s.Running → (s.io t).channel.Balanced) ?_ ?_ h
  · rintro _ rfl _
    exact Channel.balanced_empty
  · intro s a s' hr hc hs hrun
    have hrun₀ := (step_spec hs).running hrun
    rcases (step_spec hs).channel (reachable_wakeLast hr) t with h | h | ⟨hnr, -⟩
    · rw [h]; exact hc hrun₀
    · exact h.balanced (hc hrun₀)
    · exact absurd hrun₀ hnr

end channel

/-! ### Stranded connections -/

namespace State

variable (s : State n m)

/-- The IO thread is in `event_loop_wait` and has no event of its hand-off pipe, delivered or
not. -/
def AtRest (t : Fin n) : Prop :=
  (s.io t).pc = .wait ∧ (s.io t).batch = [] ∧ (s.io t).pipeEdge = false

instance (t : Fin n) : Decidable (s.AtRest t) :=
  inferInstanceAs (Decidable (_ ∧ _ ∧ _))

/-- The step hands a connection to an IO thread while the readiness of an earlier hand-off to it is
not delivered. -/
def coalesces : Action n m → Bool
  | .main r =>
    match s.main with
    | .handoff t .. => r = .ok && (s.io t).pipeEdge
    | _ => false
  | _ => false

end State

section stranded

variable {cfg : Config n} {s s' : State n m} {t : Fin n}

/-- The number of coalesced hand-offs grows in such steps only. -/
theorem coalesced_eq {a : Action n m} (hs : (server m cfg).step s a = some s')
    (hc : s.coalesces a = false) (t : Fin n) : (s'.io t).coalesced = (s.io t).coalesced := by
  have hupdate : ∀ {t₀ : Fin n} {th : IoThread}, th.coalesced = (s.io t₀).coalesced →
      (Function.update s.io t₀ th t).coalesced = (s.io t).coalesced := by
    intro t₀ th hth
    by_cases ht : t = t₀
    · subst ht; simpa using hth
    · simp [ht]
  cases a with
  | main r =>
    have hstep : s.mainStep cfg r = some s' := hs
    cases mainStep_spec hstep with
    | handOff hpc hlt =>
      simp only [mainStep, hpc] at hstep
      simp only [State.coalesces, hpc] at hc
      cases r with
      | ok =>
        simp only [decide_true, Bool.true_and] at hc
        exact hupdate (by rw [hc]; rfl)
      | fail => rw [← Option.some.inj hstep]; rfl
      | _ => cases hstep
    | ioFlag | ioWake | ioFree => exact hupdate rfl
    | _ => rfl
  | io t₀ r =>
    cases ioStep_spec hs with
    | _ => exact hupdate rfl
  | worker w ok =>
    cases workerStep_spec hs with
    | link | notify => exact hupdate rfl
    | _ => rfl
  | env e => cases envStep_spec hs <;> rfl

/-- In runs without such steps no hand-off is coalesced. -/
theorem coalesced_eq_zero (h : (server m cfg).ReachableUnder (fun s a => s.coalesces a = false) s)
    (t : Fin n) : (s.io t).coalesced = 0 := by
  refine h.invariant (I := fun s => (s.io t).coalesced = 0) ?_ ?_
  · rintro _ rfl
    rfl
  · intro s a s' _ ih hc hs
    rw [coalesced_eq hs hc, ih]

/-- A thread at rest has no event of its hand-off pipe in hand. -/
theorem State.AtRest.events (h : s.AtRest t) : (s.io t).channel.events = 0 := by
  obtain ⟨hpc, hb, -⟩ := h
  simp [IoThread.channel, hpc, hb, IoPc.fetching]

/-- The pipe holds no pointer exactly when the channel is empty. -/
theorem items_eq_zero_iff : (s.io t).channel.items = 0 ↔ ∀ c, .conn c ∉ (s.io t).pipe := by
  refine List.countP_eq_zero.trans ⟨fun h c hc => h _ hc rfl, fun h a ha => ?_⟩
  cases a with
  | conn c => exact absurd ha (h c)
  | wake => nofun

/-- While the server runs, an IO thread that waits with no undelivered edge has an empty hand-off
pipe exactly when none of its hand-offs was coalesced. -/
theorem stranded_iff_coalesced (h : (server m cfg).Reachable s) (hrun : s.Running)
    (hrest : s.AtRest t) : (∀ c, .conn c ∉ (s.io t).pipe) ↔ (s.io t).coalesced = 0 := by
  rw [← items_eq_zero_iff,
    (reachable_balanced h hrun t).items_at_rest hrest.2.2 hrest.events]
  rfl

/-- In every run in which no connection is handed to an IO thread while the readiness of an earlier
hand-off to it is undelivered: when a thread waits and no edge of its hand-off pipe is undelivered,
the pipe holds no pointer, and every connection handed to the thread has been given to
`event_loop_add`. -/
theorem handOff_delivered
    (h : (server m cfg).ReachableUnder (fun s a => s.coalesces a = false) s) (t : Fin n)
    (hrest : s.AtRest t) (c : ConnId) :
    .conn c ∉ (s.io t).pipe ∧ s.owner c ≠ .pipe t ∧ s.owner c ≠ .adopter t := by
  have hi := (reachable_owned h.reachable).io t
  have hle := (reachable_covered h.reachable t).items_at_rest hrest.2.2 hrest.events
  have hzero : (s.io t).channel.items = 0 := by
    have hco : (s.io t).channel.coalesced = 0 := coalesced_eq_zero h t
    omega
  have hempty := items_eq_zero_iff.mp hzero c
  refine ⟨hempty, fun ho => hempty ((hi.pipe c).mpr ho), fun ho => ?_⟩
  have hrole := (hi.adopting c).mpr ho
  rw [hrest.1] at hrole
  cases hrole

/-- One connection that came alone has been taken over. -/
theorem handOff_delivered_single :
    ∃ s : State 1 1, s.AtRest 0 ∧ (s.io 0).connectionsHandled = 1 ∧
      .conn 0 ∉ (s.io 0).pipe ∧ s.owner 0 ≠ .pipe 0 ∧ s.owner 0 ≠ .adopter 0 := by
  obtain ⟨s, hs, hp⟩ := (server 1 (Config.fresh 1)).exists_of_execUnder
    (fun s a => s.coalesces a = false)
    (List.flatten [Action.connect 10, Action.adopt 0, [.io 0 .ok]])
      (fun s => decide (s.AtRest 0 ∧ (s.io 0).connectionsHandled = 1)) rfl (by decide +kernel)
  obtain ⟨hrest, hone⟩ := of_decide_eq_true hp
  exact ⟨s, hrest, hone, handOff_delivered hs 0 hrest 0⟩

/-- Two connections that arrive before the IO thread wakes up: it waits again, no edge is
undelivered, and the second connection is in the pipe. -/
theorem handOff_burst_stranded :
    ∃ s : State 1 1, (server 1 (Config.fresh 1)).Reachable s ∧ s.AtRest 0 ∧
      .conn 1 ∈ (s.io 0).pipe ∧ s.owner 1 = .pipe 0 := by
  obtain ⟨s, hs, hp⟩ := (server 1 (Config.fresh 1)).exists_of_exec
    (List.flatten
      [[.env .arrive, .env .arrive, .main .ok], Action.acceptOne 10, Action.acceptOne 11,
        [.main .again], Action.adopt 0, [.io 0 .ok]])
    (fun s => decide (s.AtRest 0 ∧ .conn 1 ∈ (s.io 0).pipe ∧ s.owner 1 = .pipe 0)) rfl
    (by decide +kernel)
  exact ⟨s, hs, of_decide_eq_true hp⟩

end stranded

end DeepInIo.AdvancedServer
