import DeepInIo.Foundation.Progress
import DeepInIo.ReactorServer.Reading

/-!
# Reading comes to an end

Left to themselves the IO threads of `linux/reactor-server` come to rest: every step other than the
return of `epoll_wait` without events delivers an armed edge, takes bytes from a socket, or brings
the thread nearer to the next `epoll_wait`, which `work` counts (`alone_paid`).  So there are only
so many such steps, and when there are none the threads wait, and the registered clients were read
to the end (`io_threads_come_to_rest`).
-/

namespace DeepInIo.ReactorServer

open State

variable {n : ℕ}

/-- How far a thread is from the end of the event it handles. -/
def IoPc.left : IoPc → ℕ
  | .rdAdd .. => 7
  | .rdRead _ => 6
  | .clClose _ => 5
  | .clDel _ => 4
  | .clRemove _ => 3
  | .wrGet _ => 2
  | .next => 1
  | _ => 0

/-- What is left to do for a thread until it waits with nothing in hand. -/
def IoThread.left (th : IoThread) : ℕ :=
  (if th.pc = .wait then 10 else 8) * th.batch.length + th.pc.left

/-- The bytes that wait in the sockets. -/
def State.unread (s : State n) : ℕ :=
  ∑ sk ∈ Finset.range s.kernel.nextSock, (s.kernel.socks sk).unread.length

/-- The number of armed edges. -/
def State.armed (s : State n) (edges : Edges) : ℕ :=
  ∑ sk ∈ Finset.range s.kernel.nextSock, (edges sk).toNat

/-- A bound for the steps of the IO threads that are left. -/
def work (p : State n × Edges) : ℕ :=
  2 * p.1.unread + 11 * p.1.armed p.2 + ∑ t, (p.1.io t).left

/-- A step of an IO thread other than the return of `epoll_wait` without events. -/
def Action.works (s : State n) : Action n → Bool
  | .io t r => !(decide ((s.io t).pc = .wait) && (s.io t).batch.isEmpty && decide (r = .ok))
  | _ => false

/-- The IO threads are left to themselves, and do not just wait. -/
abbrev Alone (p : State n × Edges) (a : Action n) : Prop :=
  Delivers p a ∧ a.works p.1 = true

/-- Every IO thread waits in `epoll_wait` with no event in hand, and the registered clients were
read to the end of what has arrived and have not shut down. -/
structure AtRest (s : State n) : Prop where
  waits : ∀ t, (s.io t).pc = .wait ∧ (s.io t).batch = []
  read : ∀ t f sk, (s.kernel.reg t f).isSome = true → s.kernel.fds f = some (.client sk) →
    (s.kernel.socks sk).unread = [] ∧ (s.kernel.socks sk).peerClosed = false

section work

variable {s s' : State n} {edges edges' : Edges} {t : Fin n} {r : IoResult}

theorem armed_mono (h : ∀ sk, edges' sk = true → edges sk = true) :
    s.armed edges' ≤ s.armed edges := by
  refine Finset.sum_le_sum fun sk _ => ?_
  cases hedge : edges' sk with
  | false => exact Nat.zero_le _
  | true => rw [h sk hedge]

/-- A delivered edge is not armed any more. -/
theorem armed_update {sk : SockId} (hsk : sk < s.kernel.nextSock) (h : edges sk = true) :
    s.armed (Function.update edges sk false) + 1 = s.armed edges := by
  have hsum := partSum_update (Finset.range s.kernel.nextSock) edges (Finset.mem_range.mpr hsk)
      false Bool.toNat
  rwa [h] at hsum

theorem of_update_false {sk sk' : SockId} (h : Function.update edges sk false sk' = true) :
    edges sk' = true := by
  by_cases hsk : sk' = sk
  · rw [hsk, Function.update_self] at h
    cases h
  · rwa [Function.update_of_ne hsk] at h

/-- Taking an edge away arms none. -/
theorem of_setEdge_false {f : Fd} {sk : SockId} (h : s.setEdge edges f false sk = true) :
    edges sk = true := by
  unfold setEdge at h
  cases hf : s.kernel.sockAt f with
  | none => rwa [hf] at h
  | some sk' =>
    rw [hf] at h
    exact of_update_false h

/-- The thread has come nearer to the next `epoll_wait`. -/
theorem work_lt_of_thread {th : IoThread} (hio : s'.io = Function.update s.io t th)
    (hsocks : s'.kernel.socks = s.kernel.socks) (hnext : s'.kernel.nextSock = s.kernel.nextSock)
    (hedges : ∀ sk, edges' sk = true → edges sk = true) (hlt : th.left < (s.io t).left) :
    work (s', edges') < work (s, edges) := by
  have hsum := threadSum_update s.io t th IoThread.left
  have harmed : s'.armed edges' ≤ s.armed edges := by
    have hle := armed_mono (s := s) hedges
    unfold State.armed at hle ⊢
    rwa [hnext]
  have hunread : s'.unread = s.unread := by
    unfold State.unread
    rw [hsocks, hnext]
  unfold work
  dsimp only
  rw [hio, hunread]
  omega

/-- A delivered edge pays for the event in hand. -/
theorem work_lt_of_collect {e : Event} {sk : SockId} (hpc : (s.io t).pc = .wait)
    (hsk : sk < s.kernel.nextSock) (h : edges sk = true) :
    work (s.setIo t { s.io t with batch := (s.io t).batch ++ [e] },
      Function.update edges sk false) < work (s, edges) := by
  have hsum := threadSum_update s.io t { s.io t with batch := (s.io t).batch ++ [e] } IoThread.left
  have harmed := armed_update hsk h
  have hleft : IoThread.left { s.io t with batch := (s.io t).batch ++ [e] } =
      (s.io t).left + 10 := by
    simp only [IoThread.left, hpc, if_true, List.length_append, List.length_singleton]
    omega
  change 2 * s.unread + 11 * s.armed (Function.update edges sk false) +
    ∑ t', (Function.update s.io t { s.io t with batch := (s.io t).batch ++ [e] } t').left <
      2 * s.unread + 11 * s.armed edges + ∑ t', (s.io t').left
  omega

/-- The bytes that `read` takes pay for storing them. -/
theorem work_lt_of_read {e : Event} {len : ℕ} {data : List UInt8} {k : Kernel n}
    (hd : Descriptors s) (hpc : (s.io t).pc = .rdRead e)
    (hk : s.kernel.readBytes e.fd len = some (data, k)) :
    work (s.readData t e data k, edges) < work (s, edges) := by
  obtain ⟨sk, hsk, hk'⟩ := readBytes_kernel hk
  have hlt : sk < s.kernel.nextSock := hd.bound e.fd sk (fds_of_sockAt hsk)
  have hlen : 0 < len ∧ len ≤ (s.kernel.socks sk).unread.length := by
    unfold Kernel.readBytes at hk
    rw [hsk] at hk
    dsimp only at hk
    split at hk
    · next hc =>
      simp only [Bool.and_eq_true, decide_eq_true_eq] at hc
      exact ⟨hc.1.1, hc.2⟩
    · cases hk
  have hnext : k.nextSock = s.kernel.nextSock := by
    rw [hk']
    rfl
  generalize hv :
    ({ s.kernel.socks sk with unread := (s.kernel.socks sk).unread.drop len } : Sock) = v at hk'
  generalize hth : ({ s.io t with pc := .rdAdd e data } : IoThread) = th
  have hsocks : k.socks = Function.update s.kernel.socks sk v := by
    rw [hk']
    rfl
  have hio : (s.readData t e data k).io = Function.update s.io t th := by
    rw [← hth]
    rfl
  have hleft : th.left = (s.io t).left + 1 := by
    rw [← hth]
    simp [IoThread.left, hpc, IoPc.left]
  have hsum := threadSum_update s.io t th IoThread.left
  have htaken : (s.readData t e data k).unread + (s.kernel.socks sk).unread.length =
      s.unread + v.unread.length := by
    change ∑ sk' ∈ Finset.range k.nextSock, (k.socks sk').unread.length + _ = _
    rw [hnext, hsocks]
    exact partSum_update _ s.kernel.socks (Finset.mem_range.mpr hlt) v fun v => v.unread.length
  have harmed : (s.readData t e data k).armed edges = s.armed edges := by
    change ∑ sk' ∈ Finset.range k.nextSock, _ = _
    rw [hnext]
    rfl
  rw [← hv] at htaken
  dsimp only at htaken
  rw [List.length_drop] at htaken
  unfold work
  dsimp only
  rw [hio, harmed]
  omega

/-- A step of an IO thread lowers the bound. -/
theorem work_lt (hd : Descriptors s)
    (hok : Delivers (s, edges) (.io t r)) (hworks : (Action.io t r : Action n).works s = true)
    (hs : s.ioStep t r = some s') : work (s', s.armIo edges t r) < work (s, edges) := by
  have hwrites : ∀ {pc : IoPc}, (s.io t).pc = pc → pc.Writes → False := by
    intro pc hpc hwrites
    exact (hd.io t).noWrite (hpc ▸ hwrites)
  -- a step after which less is left to do for the thread
  have hgo : ∀ {th : IoThread}, s'.io = Function.update s.io t th →
      s'.kernel.socks = s.kernel.socks → s'.kernel.nextSock = s.kernel.nextSock →
      th.batch = (s.io t).batch → (s.io t).pc ≠ .wait → th.pc ≠ .wait →
      th.pc.left < (s.io t).pc.left → (∀ sk, s.armIo edges t r sk = true → edges sk = true) →
      work (s', s.armIo edges t r) < work (s, edges) := by
    intro th hio hsocks hnext hbatch hpc hpc' hlt hedges
    refine work_lt_of_thread hio hsocks hnext hedges ?_
    unfold IoThread.left
    rw [if_neg hpc, if_neg hpc', hbatch]
    omega
  have hplain : (s.io t).pc.signals = false → ∀ sk, s.armIo edges t r sk = true →
      edges sk = true := by
    intro hpc sk h
    rwa [armIo_eq hpc] at h
  cases hpc : (s.io t).pc with
  | wait =>
    simp only [ioStep, hpc] at hs
    cases r with
    | ok =>
      cases hs
      have hne : (s.io t).batch ≠ [] := by
        intro hb
        simp [Action.works, hpc, hb] at hworks
      have hlen : 0 < (s.io t).batch.length := List.length_pos_iff.mpr hne
      refine work_lt_of_thread rfl rfl rfl (fun sk h => ?_) ?_
      · simpa only [armIo, hpc] using h
      · simp only [IoThread.left, hpc, IoPc.left, if_true, reduceCtorEq, if_false]
        omega
    | event e =>
      dsimp only at hs
      split at hs
      · rw [State.collect] at hs
        split at hs
        · cases hs
        · next mask hmask =>
          split at hs
          · cases hs
            obtain ⟨sk, hopen, -⟩ := hd.listed t e.fd mask hmask
            have harmed : edges sk = true := by
              simp only [Delivers, delivers, hpc, ne_eq, not_true_eq_false, decide_false,
                Bool.false_or, Bool.and_eq_true, sockAt_eq hopen, Option.any_some] at hok
              exact hok.1
            have harm : s.armIo edges t (.event e) = Function.update edges sk false := by
              rw [← setEdge_eq hopen]
              simp only [armIo, hpc]
            rw [harm]
            exact work_lt_of_collect hpc (hd.bound e.fd sk hopen) harmed
          · cases hs
      · cases hs
    | _ => cases hs
  | next =>
    simp only [ioStep, hpc] at hs
    cases hs
    have hsame := hplain (by rw [hpc]; rfl)
    unfold nextEvent
    split
    · next hb =>
      refine work_lt_of_thread rfl rfl rfl hsame ?_
      simp [IoThread.left, hpc, hb, IoPc.left]
    · next e rest hb =>
      refine work_lt_of_thread rfl rfl rfl hsame ?_
      simp only [IoThread.left, hpc, hb, IoPc.left, List.length_cons]
      split <;> simp <;> omega
  | rdRead e =>
    have hsame := hplain (by rw [hpc]; rfl)
    simp only [ioStep, hpc] at hs
    cases r with
    | got len =>
      obtain ⟨⟨data, k⟩, hk, rfl⟩ := Option.map_eq_some_iff.mp hs
      rw [armIo_eq (by rw [hpc]; rfl)]
      exact work_lt_of_read hd hpc hk
    | eof =>
      simp only [readStep] at hs
      split at hs <;> cases hs
      exact hgo rfl rfl rfl rfl (by simp [hpc]) (by simp) (by simp [hpc, IoPc.left]) hsame
    | again =>
      simp only [readStep] at hs
      split at hs <;> cases hs
      exact hgo rfl rfl rfl rfl (by simp [hpc]) (by simp) (by simp [hpc, IoPc.left]) hsame
    | err =>
      cases hs
      exact hgo rfl rfl rfl rfl (by simp [hpc]) (by simp) (by simp [hpc, IoPc.left]) hsame
    | _ => cases hs
  | rdAdd e buffer =>
    simp only [ioStep, hpc] at hs
    cases hs
    exact hgo rfl rfl rfl rfl (by simp [hpc]) (by simp) (by simp [hpc, IoPc.left])
      (hplain (by rw [hpc]; rfl))
  | clClose e =>
    simp only [ioStep, hpc] at hs
    cases hs
    refine hgo rfl (Kernel.close_socks ..) (Kernel.close_nextSock ..) rfl (by simp [hpc]) (by simp)
      (by simp [hpc, IoPc.left]) fun sk h => ?_
    simp only [armIo, hpc] at h
    exact of_setEdge_false h
  | clDel e =>
    simp only [ioStep, hpc] at hs
    cases hs
    refine hgo rfl rfl rfl rfl (by simp [hpc]) (by simp) (by simp [hpc, IoPc.left]) fun sk h => ?_
    simp only [armIo, hpc] at h
    split at h
    · exact of_setEdge_false h
    · exact h
  | clRemove e =>
    simp only [ioStep, hpc] at hs
    cases hs
    exact hgo rfl rfl rfl rfl (by simp [hpc]) (by simp) (by simp [hpc, IoPc.left])
      (hplain (by rw [hpc]; rfl))
  | wrGet e =>
    simp only [ioStep, hpc] at hs
    cases hs
    -- there is no buffer to write
    have hnext : s.getBuffer t e = .next := by
      unfold getBuffer
      rw [(hd.io t).connMap]
      split <;> rfl
    exact hgo rfl rfl rfl rfl (by simp [hpc]) (by simp [hnext]) (by simp [hpc, hnext, IoPc.left])
      (hplain (by rw [hpc]; rfl))
  | wrWrite | wrMod | wrRemove | wrClose => exact (hwrites hpc trivial).elim

end work

/-- Left to themselves the IO threads take steps that their work pays for. -/
theorem alone_paid :
    (edgeServer n).Paid Alone (fun _ _ => true) (fun p => (edgeServer n).ReachableUnder Delivers p)
      work := by
  intro p a p' hr ⟨hok, hworks⟩ hs
  have hr' := hr.step hok hs
  refine ⟨hr', ?_⟩
  have hd := reachable_descriptors (TransitionSystem.Reachable.of_recording hr.reachable)
  have hw := reachable_watched hr
  obtain ⟨hstep, harm⟩ := TransitionSystem.recording_step.mp hs
  cases a with
  | io t r =>
    have hlt := work_lt hd hok hworks hstep
    change p.1.armIo p.2 t r = p'.2 at harm
    rwa [harm] at hlt
  | main | worker | env => cases hworks

/-- Threads that cannot go on have read everything. -/
theorem atRest_of_stuck {p : State n × Edges} (hr : (edgeServer n).ReachableUnder Delivers p)
    (hstuck : (edgeServer n).Stuck Alone p) : AtRest p.1 := by
  have hd := reachable_descriptors (TransitionSystem.Reachable.of_recording hr.reachable)
  have hw := reachable_watched hr
  have hno : ∀ t r, Alone p (.io t r) → p.1.ioStep t r = none := by
    intro t r halone
    exact Option.map_eq_none_iff.mp (hstuck _ halone)
  have hwaits : ∀ t, (p.1.io t).pc = .wait ∧ (p.1.io t).batch = [] := by
    intro t
    have hgo : ∀ r, delivers p (.io t r) = true → (p.1.io t).pc ≠ .wait →
        p.1.ioStep t r = none := by
      intro r hok hpc
      exact hno t r ⟨hok, by simp [Action.works, hpc]⟩
    cases hpc : (p.1.io t).pc with
    | wait =>
      refine ⟨rfl, ?_⟩
      by_contra hb
      have hstep := hno t .ok ⟨rfl, by simp [Action.works, hb]⟩
      simp only [ioStep, hpc] at hstep
      cases hstep
    | rdRead e =>
      have hstep := hgo .err rfl (by simp [hpc])
      simp only [ioStep, hpc] at hstep
      cases hstep
    | next | rdAdd | clClose | clDel | clRemove | wrGet =>
      have hstep := hgo .ok rfl (by simp [hpc])
      simp only [ioStep, hpc] at hstep
      cases hstep
    | wrWrite | wrMod | wrRemove | wrClose => exact ((hd.io t).noWrite (by rw [hpc]; trivial)).elim
  refine ⟨hwaits, fun t f sk hreg hopen => ?_⟩
  obtain ⟨hpc, hb⟩ := hwaits t
  have hhand : ¬(p.1.io t).Holds f := by
    intro hholds
    obtain ⟨e, he, -⟩ := hholds.mem_batch (by rw [hpc]; rfl)
    rw [hb] at he
    cases he
  -- an armed edge could be delivered
  have hedge : p.2 sk = false := by
    rw [← Bool.not_eq_true]
    intro harmed
    obtain ⟨mask, hmask⟩ := Option.isSome_iff_exists.mp hreg
    have hstep := hno t (.event { fd := f, epollin := true, epollout := false })
      ⟨by simp [Delivers, delivers, sockAt_eq hopen, harmed], by simp [Action.works]⟩
    simp [ioStep, hpc, hb, maxEvents, State.collect, hmask, hw.masks t f mask hmask] at hstep
  have hready := hw.readable_eq_false hreg hopen hedge hhand
  simpa [Sock.readable] using hready

/-- From every state of such a run the IO threads, left to themselves, come to rest: they take no
more steps than their work, and when none is left they wait, and the registered clients were read to
the end. -/
theorem io_threads_come_to_rest {p : State n × Edges}
    (hr : (edgeServer n).ReachableUnder Delivers p) :
    (∀ tr p', (edgeServer n).Trace Alone p tr p' → tr.length ≤ work p ∧
      ((edgeServer n).Stuck Alone p' → AtRest p'.1)) ∧
      ∃ tr p', (edgeServer n).Trace Alone p tr p' ∧ (edgeServer n).Stuck Alone p' := by
  constructor
  · intro tr p' htr
    obtain ⟨hr', hle⟩ := TransitionSystem.Trace.length_le alone_paid hr htr
    exact ⟨by omega, atRest_of_stuck hr'⟩
  · exact TransitionSystem.exists_stuck alone_paid hr

theorem io_threads_come_to_rest_one :
    ∃ p : State 1 × Edges, (p.1.kernel.socks 0).unread = [65, 66] ∧
      ∃ tr p', (edgeServer 1).Trace Alone p tr p' ∧ tr.length ≤ work p ∧ AtRest p'.1 := by
  obtain ⟨p, hr, hp⟩ := TransitionSystem.exists_of_execUnder (edgeServer 1) Delivers
    (s := (State.start fun _ => false, fun _ => false))
    (Action.connect 10 ++ ([.env (.data 10 [65, 66])] : List (Action 1)))
    (fun p : State 1 × Edges => decide ((p.1.kernel.socks 0).unread = [65, 66])) ⟨⟨_, rfl⟩, rfl⟩ rfl
  obtain ⟨hall, tr, p', htr, hstuck⟩ := io_threads_come_to_rest hr
  obtain ⟨hle, hrest⟩ := hall tr p' htr
  exact ⟨p, of_decide_eq_true hp, tr, p', htr, hle, hrest hstuck⟩

end DeepInIo.ReactorServer
