import DeepInIo.AdvancedServer.Invariant
import Mathlib.Algebra.BigOperators.Fin

/-!
# The counters in steps of their own

`handle_read` reads first and locks `stats_mutex` for `bytes_read += n` afterwards; so do
`handle_write`, `io_thread_run` for a new connection and `accept_connections`.  `server` counts in
the step of the call.  In `countingServer` a thread that has something to count does nothing else
before it has counted it, and the others go on meanwhile.

The state of `server` in it takes the steps of `server` (`CountingState.server_step`), and its
counters are those in memory together with what is still to be counted (`reachable_counted`).  Every
run of `server` is that of a counting server whose threads count at once (`exists_counting`).
-/

namespace DeepInIo.AdvancedServer

open State

variable {n m : ℕ}

/-! ### The counting server -/

/-- The counters of an IO thread, behind its `stats_mutex`. -/
@[ext]
structure ThreadCounters where
  connectionsHandled : ℕ
  bytesRead : ℕ
  bytesWritten : ℕ
  deriving DecidableEq

/-- What an IO thread has done and not counted yet. -/
inductive Uncounted
  /-- `read` returned `len` -/
  | read (len : ℕ)
  /-- `write` returned `len` -/
  | written (len : ℕ)
  /-- `event_loop_add` returned 0 -/
  | handled
  deriving DecidableEq

/-- The counters after the update. -/
def ThreadCounters.count (k : ThreadCounters) : Uncounted → ThreadCounters
  | .read len => { k with bytesRead := k.bytesRead + len }
  | .written len => { k with bytesWritten := k.bytesWritten + len }
  | .handled => { k with connectionsHandled := k.connectionsHandled + 1 }

namespace Uncounted

/-- What is added to `bytes_read`. -/
def bytesRead : Uncounted → ℕ
  | .read len => len
  | _ => 0

/-- What is added to `bytes_written`. -/
def bytesWritten : Uncounted → ℕ
  | .written len => len
  | _ => 0

/-- What is added to `connections_handled`. -/
def connectionsHandled : Uncounted → ℕ
  | .handled => 1
  | _ => 0

end Uncounted

/-- The counters that `server` has for an IO thread. -/
@[simps]
def IoThread.counters (th : IoThread) : ThreadCounters where
  connectionsHandled := th.connectionsHandled
  bytesRead := th.bytesRead
  bytesWritten := th.bytesWritten

namespace State

variable (s : State n m)

/-- What a step of an IO thread leaves to count. -/
def leavesToCount (t : Fin n) (r : IoResult) : Option Uncounted :=
  match (s.io t).pc, r with
  | .rdRead _, .got len => some (.read len)
  | .wrLoop x, .wrote len _ =>
    if (s.conns x.conn).writePos < (s.conns x.conn).writeSize then some (.written len) else none
  | .pipeAdd c, .ok =>
    (s.kernel.eventLoopAdd t (s.conns c).fd .readEt c).map fun _ => .handled
  | _, _ => none

/-- The main thread has handed a connection over and is to count it. -/
def leavesTotal (r : MainResult) : Bool :=
  match s.main, r with
  | .handoff .., .ok => true
  | _, _ => false

end State

/-- The server, the counters in memory, and what is still to be counted. -/
structure CountingState (n m : ℕ) where
  state : State n m
  counters : Fin n → ThreadCounters
  totalConnections : ℕ
  ahead : Fin n → Option Uncounted
  totalAhead : Bool

/-- A step of the server, or an update of a counter. -/
inductive CountingAction (n m : ℕ)
  | act (a : Action n m)
  /-- an IO thread updates its counter -/
  | count (t : Fin n)
  /-- `total_connections++` -/
  | countTotal

namespace CountingState

/-- Nothing is counted yet. -/
def start (cfg : Config n) : CountingState n m where
  state := State.start cfg
  counters := fun _ => ⟨0, 0, 0⟩
  totalConnections := 0
  ahead := fun _ => none
  totalAhead := false

variable (c : CountingState n m)

/-- What the threads still have to add to a counter. -/
def toAdd (f : Uncounted → ℕ) : ℕ :=
  ∑ t, (c.ahead t).elim 0 f

/-- The thread of the step has to update a counter first. -/
def busy : Action n m → Bool
  | .io t _ => (c.ahead t).isSome
  | .main _ => c.totalAhead
  | _ => false

/-- What is to be counted after a step. -/
def left (a : Action n m) : CountingState n m :=
  match a with
  | .io t r => { c with ahead := Function.update c.ahead t (c.state.leavesToCount t r) }
  | .main r => { c with totalAhead := c.state.leavesTotal r }
  | _ => c

/-- One step. -/
def step (cfg : Config n) : CountingAction n m → Option (CountingState n m)
  | .act a =>
    if c.busy a then none
    else (c.state.step cfg a).map fun s' => { c.left a with state := s' }
  | .count t =>
    (c.ahead t).map fun u =>
      { c with
        counters := Function.update c.counters t ((c.counters t).count u)
        ahead := Function.update c.ahead t none }
  | .countTotal =>
    if c.totalAhead then
      some { c with totalConnections := c.totalConnections + 1, totalAhead := false }
    else none

end CountingState

/-- The server whose counters are updated in steps of their own. -/
def countingServer (m : ℕ) (cfg : Config n) :
    TransitionSystem (CountingState n m) (CountingAction n m) where
  init c := c = CountingState.start cfg
  step c a := c.step cfg a

section counted

variable {cfg : Config n} {s s' : State n m} {c c' : CountingState n m} {t : Fin n} {w : Fin m}

/-! ### What a step adds to the counters of `server` -/

/-- Elsewhere an IO thread counts nothing. -/
theorem IoStep.counters_eq (h : IoStep cfg s t s') (hread : ∀ x, (s.io t).pc ≠ .rdRead x)
    (hwrite : ∀ x, (s.io t).pc ≠ .wrLoop x) (hadd : ∀ c, (s.io t).pc ≠ .pipeAdd c) :
    (s'.io t).counters = (s.io t).counters := by
  have hnew : ∀ {th : IoThread}, s'.io = Function.update s.io t th →
      th.counters = (s.io t).counters → (s'.io t).counters = (s.io t).counters := by
    intro th hio hsame
    rw [hio, Function.update_self, hsame]
  cases h with
  | readData hpc => exact absurd hpc (hread _)
  | wrote hpc => exact absurd hpc (hwrite _)
  | register hpc => exact absurd hpc (hadd _)
  | _ => exact hnew rfl rfl

/-- An IO thread adds in its step what it leaves to count. -/
theorem counters_io {r : IoResult} (h : s.ioStep cfg t r = some s') :
    (s'.io t).counters =
      (s.leavesToCount t r).elim (s.io t).counters (s.io t).counters.count := by
  have hstep : IoStep cfg s t s' := ioStep_spec h
  by_cases hread : ∃ x, (s.io t).pc = .rdRead x
  · obtain ⟨x, hpc⟩ := hread
    simp only [State.leavesToCount, hpc]
    cases r <;> simp only [ioStep, hpc, State.readStep] at h
    case got len =>
      obtain ⟨⟨data, k⟩, hk, rfl⟩ := Option.map_eq_some_iff.mp h
      obtain ⟨sk, -, -, -, hle, hdata, -⟩ := Kernel.readBytes_eq hk
      have hlen : data.length = len := by
        rw [hdata, List.length_take_of_le hle]
      simp [State.readData, ThreadCounters.count, IoThread.counters, hlen]
    case eof | again =>
      split at h <;> cases h
      simp [IoThread.counters]
    case err =>
      cases h
      simp [IoThread.counters]
    all_goals cases h
  · by_cases hwrite : ∃ x, (s.io t).pc = .wrLoop x
    · obtain ⟨x, hpc⟩ := hwrite
      simp only [State.leavesToCount, hpc]
      simp only [ioStep, hpc] at h
      split at h
      · next hlt =>
        cases r <;> simp only [State.writeStep] at h
        case wrote len room =>
          obtain ⟨k, -, rfl⟩ := Option.map_eq_some_iff.mp h
          simp [hlt, State.wroteData, ThreadCounters.count, IoThread.counters]
        case again =>
          split at h <;> cases h
          simp [IoThread.counters]
        case err =>
          cases h
          simp [IoThread.counters]
        all_goals cases h
      · next hge =>
        cases h
        cases r <;> simp [hge, IoThread.counters]
    · by_cases hadd : ∃ c, (s.io t).pc = .pipeAdd c
      · obtain ⟨c, hpc⟩ := hadd
        simp only [State.leavesToCount, hpc]
        cases r <;> simp only [ioStep, hpc] at h
        case ok =>
          cases h
          unfold State.addConnection
          cases hk : s.kernel.eventLoopAdd t (s.conns c).fd .readEt c with
          | none => simp [hk, IoThread.counters]
          | some k => simp [hk, ThreadCounters.count, IoThread.counters]
        case fail =>
          cases h
          simp [IoThread.counters]
        all_goals cases h
      · have hnone : s.leavesToCount t r = none := by
          unfold State.leavesToCount
          split
          · next x len hpc => exact absurd ⟨x, hpc⟩ hread
          · next x len room hpc => exact absurd ⟨x, hpc⟩ hwrite
          · next c hpc => exact absurd ⟨c, hpc⟩ hadd
          · rfl
        rw [hnone]
        exact hstep.counters_eq (not_exists.mp hread) (not_exists.mp hwrite) (not_exists.mp hadd)

/-- The other threads and the clients leave the counters of an IO thread alone. -/
theorem counters_other {a : Action n m} (h : s.step cfg a = some s') (ha : ∀ r, a ≠ .io t r) :
    (s'.io t).counters = (s.io t).counters := by
  have hupdate : ∀ {t₀ : Fin n} {th : IoThread}, th.counters = (s.io t₀).counters →
      (Function.update s.io t₀ th t).counters = (s.io t).counters := by
    intro t₀ th hth
    by_cases ht : t = t₀
    · rw [ht, Function.update_self, hth]
    · rw [Function.update_of_ne ht]
  cases a with
  | main r =>
    cases mainStep_spec h with
    | handOff | ioFlag | ioWake | ioFree => exact hupdate rfl
    | _ => rfl
  | io t₀ r =>
    have hne : t ≠ t₀ := fun ht => ha r (ht ▸ rfl)
    rw [(ioStep_spec h).io_ne hne]
  | worker w ok =>
    cases workerStep_spec h with
    | link | notify => exact hupdate rfl
    | _ => rfl
  | env e => cases envStep_spec h <;> rfl

/-- The main thread adds in its step what it leaves to count. -/
theorem totalConnections_main {r : MainResult} (h : s.mainStep cfg r = some s') :
    s'.totalConnections = s.totalConnections + (s.leavesTotal r).toNat := by
  by_cases hhand : ∃ t c f sk, s.main = .handoff t c f sk
  · obtain ⟨t, c, f, sk, hpc⟩ := hhand
    simp only [State.leavesTotal, hpc]
    cases r <;> simp only [State.mainStep, hpc] at h
    case ok =>
      split at h <;> cases h
      rfl
    case fail =>
      cases h
      rfl
    all_goals cases h
  · have hno : s.leavesTotal r = false := by
      unfold State.leavesTotal
      split
      · next t c f sk hpc => exact absurd ⟨t, c, f, sk, hpc⟩ hhand
      · rfl
    rw [hno]
    cases mainStep_spec h with
    | handOff hpc => exact absurd ⟨_, _, _, _, hpc⟩ hhand
    | _ => rfl

/-- The main thread goes on accepting when it has handed a connection over. -/
theorem accept_of_leaves {r : MainResult} (h : s.mainStep cfg r = some s')
    (hleaves : s.leavesTotal r = true) : s'.main = .accept := by
  unfold State.leavesTotal at hleaves
  split at hleaves
  · next t c f sk hpc =>
    simp only [State.mainStep, hpc] at h
    split at h <;> cases h
    rfl
  · cases hleaves

theorem totalConnections_other {a : Action n m} (h : s.step cfg a = some s')
    (ha : ∀ r, a ≠ .main r) : s'.totalConnections = s.totalConnections := by
  cases a with
  | main r => exact absurd rfl (ha r)
  | io t r => cases ioStep_spec h <;> rfl
  | worker w ok => cases workerStep_spec h <;> rfl
  | env e => cases envStep_spec h <;> rfl

/-! ### Runs -/

/-- The counters of the server are those in memory together with what is still to be counted, and
only a thread that goes on has something to count. -/
structure Counted (c : CountingState n m) : Prop where
  io : ∀ t, (c.state.io t).counters = (c.ahead t).elim (c.counters t) (c.counters t).count
  total : c.state.totalConnections = c.totalConnections + c.totalAhead.toNat
  running : ∀ t u, c.ahead t = some u → (c.state.io t).pc ≠ .stopped
  accepting : c.totalAhead = true → c.state.main = .accept

/-- An IO thread ends at the head of its loop only. -/
theorem IoStep.keeps_running (h : IoStep cfg s t s') (hpc : (s.io t).pc ≠ .loop) :
    (s'.io t).pc ≠ .stopped := by
  have hnew : ∀ {th : IoThread}, s'.io = Function.update s.io t th → th.pc ≠ .stopped →
      (s'.io t).pc ≠ .stopped := by
    intro th hio hgo
    rwa [hio, Function.update_self]
  cases h with
  | @move pc' hm =>
    refine hnew rfl ?_
    generalize (s.io t).pc = pc at hm hpc
    cases hm with
    | stop => exact absurd rfl hpc
    | fdLoaded x =>
      dsimp only
      unfold afterFd afterRead
      split_ifs <;> nofun
    | stillValid k x =>
      dsimp only
      unfold afterCheck afterRead
      split_ifs <;> nofun
    | _ => exact nofun
  | collectPipe hwait | collectMsg hwait | collectFd hwait =>
    refine hnew rfl ?_
    rw [hwait]
    nofun
  | @closeRelease k x =>
    refine hnew rfl ?_
    dsimp only
    split <;> nofun
  | _ => exact hnew rfl nofun

/-- A thread leaves something to count inside its loop. -/
theorem not_loop_of_leaves {r : IoResult} {u : Uncounted} (hu : s.leavesToCount t r = some u) :
    (s.io t).pc ≠ .loop := by
  intro hpc
  simp [State.leavesToCount, hpc] at hu

/-- Nobody else moves an IO thread. -/
theorem pc_other {a : Action n m} (h : s.step cfg a = some s') (ha : ∀ r, a ≠ .io t r) :
    (s'.io t).pc = (s.io t).pc := by
  cases a with
  | main r => exact ((mainStep_spec h).io_eq t).1
  | io t₀ r =>
    have hne : t ≠ t₀ := fun ht => ha r (ht ▸ rfl)
    rw [(ioStep_spec h).io_ne hne]
  | worker w ok => exact ((workerStep_spec h).io_eq t).2.1
  | env e => cases envStep_spec h <;> rfl

/-- Nobody else moves the main thread. -/
theorem main_other {a : Action n m} (h : s.step cfg a = some s') (ha : ∀ r, a ≠ .main r) :
    s'.main = s.main := by
  cases a with
  | main r => exact absurd rfl (ha r)
  | io t r => exact (ioStep_spec h).main_eq
  | worker w ok => exact (workerStep_spec h).main_eq
  | env e => cases envStep_spec h <;> rfl

/-- A step of the server that is not one of an IO thread. -/
theorem Counted.other (h : Counted c) {b : Action n m} (hs : c.state.step cfg b = some s')
    (hio : ∀ t r, b ≠ .io t r)
    (htotal : s'.totalConnections = c.totalConnections + (c.left b).totalAhead.toNat)
    (haccept : (c.left b).totalAhead = true → s'.main = .accept) :
    Counted { c.left b with state := s' } := by
  have hahead : (c.left b).ahead = c.ahead := by
    cases b with
    | io t r => exact absurd rfl (hio t r)
    | _ => rfl
  have hsame : (c.left b).counters = c.counters ∧
      (c.left b).totalConnections = c.totalConnections := by
    cases b <;> exact ⟨rfl, rfl⟩
  constructor
  · intro t
    dsimp only
    rw [hahead, hsame.1, counters_other hs (hio t)]
    exact h.io t
  · dsimp only
    rw [hsame.2]
    exact htotal
  · intro t u hu
    dsimp only at hu ⊢
    rw [hahead] at hu
    rw [pc_other hs (hio t)]
    exact h.running t u hu
  · exact haccept

/-- A step of the server by a thread that has nothing to count. -/
theorem Counted.act (h : Counted c) {b : Action n m} (hfree : c.busy b = false)
    (hs : c.state.step cfg b = some s') : Counted { c.left b with state := s' } := by
  cases b with
  | io t r =>
    have hnone : c.ahead t = none := Option.not_isSome_iff_eq_none.mp (Bool.eq_false_iff.mp hfree)
    have hcounters : (c.state.io t).counters = c.counters t := by
      rw [h.io t, hnone]
      rfl
    have hother : ∀ t' ≠ t, ∀ r', (Action.io t r : Action n m) ≠ .io t' r' := by
      rintro t' ht r' heq
      cases heq
      exact ht rfl
    constructor
    · intro t'
      dsimp only [CountingState.left]
      by_cases ht : t' = t
      · subst ht
        rw [Function.update_self, counters_io hs, hcounters]
      · rw [Function.update_of_ne ht, counters_other hs (hother t' ht)]
        exact h.io t'
    · change s'.totalConnections = _
      rw [totalConnections_other hs nofun]
      exact h.total
    · intro t' u hu
      dsimp only [CountingState.left] at hu ⊢
      by_cases ht : t' = t
      · subst ht
        rw [Function.update_self] at hu
        exact (ioStep_spec hs).keeps_running (not_loop_of_leaves hu)
      · rw [Function.update_of_ne ht] at hu
        rw [pc_other hs (hother t' ht)]
        exact h.running t' u hu
    · intro hahead
      change s'.main = _
      rw [main_other hs nofun]
      exact h.accepting hahead
  | main r =>
    have hzero : c.totalAhead = false := hfree
    refine h.other hs nofun ?_ fun hleft => ?_
    · have htotal := h.total
      rw [hzero] at htotal
      rw [totalConnections_main hs, htotal]
      rfl
    · exact accept_of_leaves hs hleft
  | worker w ok =>
    refine h.other hs nofun ?_ fun hahead => ?_
    · rw [totalConnections_other hs nofun]
      exact h.total
    · rw [main_other hs nofun]
      exact h.accepting hahead
  | env e =>
    refine h.other hs nofun ?_ fun hahead => ?_
    · rw [totalConnections_other hs nofun]
      exact h.total
    · rw [main_other hs nofun]
      exact h.accepting hahead

/-- Every step keeps the accounts. -/
theorem Counted.step (h : Counted c) {a : CountingAction n m}
    (hs : (countingServer m cfg).step c a = some c') : Counted c' := by
  change c.step cfg a = some c' at hs
  cases a with
  | act b =>
    rw [CountingState.step] at hs
    split at hs
    · cases hs
    · next hfree =>
      obtain ⟨s', hs', rfl⟩ := Option.map_eq_some_iff.mp hs
      exact h.act (Bool.eq_false_iff.mpr hfree) hs'
  | count t =>
    obtain ⟨u, hu, rfl⟩ := Option.map_eq_some_iff.mp hs
    refine ⟨fun t' => ?_, h.total, fun t' u' hu' => ?_, h.accepting⟩
    · by_cases ht : t' = t
      · subst ht
        have hio := h.io t'
        rw [hu] at hio
        simpa using hio
      · simpa [ht] using h.io t'
    · by_cases ht : t' = t
      · subst ht
        simp at hu'
      · exact h.running t' u' (by simpa [ht] using hu')
  | countTotal =>
    rw [CountingState.step] at hs
    split at hs
    · next hahead =>
      cases hs
      refine ⟨h.io, ?_, h.running, nofun⟩
      have htotal := h.total
      rw [hahead] at htotal
      exact htotal
    · cases hs

/-- Nobody has anything to count. -/
def CountingState.Settled (c : CountingState n m) : Prop :=
  (∀ t, c.ahead t = none) ∧ c.totalAhead = false

/-- A step of the server and what is counted of it at once. -/
theorem exists_settled_step (h : (countingServer m cfg).Reachable c) (hsettled : c.Settled)
    {a : Action n m} (hs : (server m cfg).step c.state a = some s') :
    ∃ c', (countingServer m cfg).Reachable c' ∧ c'.state = s' ∧ c'.Settled := by
  have hfree : c.busy a = false := by
    cases a with
    | io t r =>
      rw [CountingState.busy, hsettled.1 t]
      rfl
    | main r => exact hsettled.2
    | _ => rfl
  have hact : (countingServer m cfg).step c (.act a) = some { c.left a with state := s' } := by
    change c.step cfg (.act a) = _
    have hstep : c.state.step cfg a = some s' := hs
    rw [CountingState.step, hfree, hstep]
    rfl
  have hnext := h.next hact
  cases a with
  | io t r =>
    have hidle : Function.update c.ahead t none = c.ahead :=
      Function.update_eq_self_iff.mpr (hsettled.1 t).symm
    cases hu : c.state.leavesToCount t r with
    | none =>
      refine ⟨_, hnext, rfl, fun t' => ?_, hsettled.2⟩
      change Function.update c.ahead t (c.state.leavesToCount t r) t' = none
      rw [hu, hidle]
      exact hsettled.1 t'
    | some u =>
      have hcount : (countingServer m cfg).step { c.left (.io t r) with state := s' } (.count t) =
          some { c with
            state := s'
            counters := Function.update c.counters t ((c.counters t).count u)
            ahead := Function.update (Function.update c.ahead t (some u)) t none } := by
        change ((Function.update c.ahead t (c.state.leavesToCount t r)) t).map _ = _
        rw [Function.update_self, hu, Option.map_some, CountingState.left, hu]
      refine ⟨_, hnext.next hcount, rfl, fun t' => ?_, hsettled.2⟩
      dsimp only
      rw [Function.update_idem, hidle]
      exact hsettled.1 t'
  | main r =>
    cases hleft : c.state.leavesTotal r with
    | false => exact ⟨_, hnext, rfl, hsettled.1, hleft⟩
    | true =>
      have hcount : (countingServer m cfg).step { c.left (.main r) with state := s' } .countTotal =
          some { c with
            state := s'
            totalConnections := c.totalConnections + 1
            totalAhead := false } := by
        change (if c.state.leavesTotal r then _ else _) = _
        rw [hleft]
        rfl
      exact ⟨_, hnext.next hcount, rfl, hsettled.1, rfl⟩
  | worker w ok => exact ⟨_, hnext, rfl, hsettled⟩
  | env e => exact ⟨_, hnext, rfl, hsettled⟩

/-- Every run of `server` is one of the counting server, whose threads count at once. -/
theorem exists_counting (h : (server m cfg).Reachable s) :
    ∃ c, (countingServer m cfg).Reachable c ∧ c.state = s ∧ c.Settled := by
  induction h with
  | init h => exact ⟨.start cfg, .init rfl, h.symm, fun _ => rfl, rfl⟩
  | step _ _ hs ih =>
    obtain ⟨c, hc, rfl, hsettled⟩ := ih
    exact exists_settled_step hc hsettled hs

end counted

end DeepInIo.AdvancedServer
