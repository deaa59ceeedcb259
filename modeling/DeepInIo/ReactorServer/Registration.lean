import DeepInIo.ReactorServer.Descriptors

/-!
# The registrations of the reactor server

`EPOLL_CTL_DEL` comes after `close`, when the kernel may already have returned the number from
another `accept`.  `State.strikes` is the step that goes wrong: the number is registered in the
instance of the thread that closed it and has not yet issued its `EPOLL_CTL_DEL`.  In the runs
without this step `EPOLL_CTL_DEL` finds nothing, and every connection stays registered until its
thread closes it (`registered_until_close`).
-/

namespace DeepInIo.ReactorServer

open State

variable {n : ℕ}

/-- The next `EPOLL_CTL_ADD` is in the instance of a thread that has closed an earlier connection of
this number and not yet issued its `EPOLL_CTL_DEL`. -/
def State.strikes (s : State n) : Bool :=
  match s.main with
  | .add t f _ =>
    match (s.io t).pc with
    | .clDel e => e.fd == f
    | _ => false
  | _ => false

/-- The main thread does not register a number that its thread is about to remove. -/
def State.Apart (s : State n) (a : Action n) : Prop :=
  a = .main .ok → s.strikes = false

instance (s : State n) (a : Action n) : Decidable (s.Apart a) :=
  inferInstanceAs (Decidable (_ → _))

/-- Every open connection whose `EPOLL_CTL_ADD` succeeded is registered, and a number whose
`EPOLL_CTL_DEL` is due is not. -/
structure Registered (s : State n) : Prop where
  served : ∀ t f, s.Served t f → (s.kernel.reg t f).isSome
  due : ∀ t e, (s.io t).pc = .clDel e → s.kernel.reg t e.fd = none

section registration

variable {s s' : State n} {t : Fin n}

/-- The registrations are right after a step that leaves them and the table of descriptors alone, if
no `EPOLL_CTL_DEL` becomes due. -/
theorem Registered.of_same (hr : Registered s) (hfds : s'.kernel.fds = s.kernel.fds)
    (hadded : s'.added = s.added) (hreg : s'.kernel.reg = s.kernel.reg)
    (hpc : ∀ t e, (s'.io t).pc = .clDel e → (s.io t).pc = .clDel e) : Registered s' where
  served t f h := by
    rw [hreg]
    exact hr.served t f ((served_congr hfds hadded t f).mp h)
  due t e h := by
    rw [hreg]
    exact hr.due t e (hpc t e h)

/-- A thread that does not close leaves no `EPOLL_CTL_DEL` due that was not. -/
theorem clDel_of_update {th : IoThread} (hth : ∀ e, th.pc ≠ .clDel e) (t' : Fin n) (e : Event)
    (h : (Function.update s.io t th t').pc = .clDel e) : (s.io t').pc = .clDel e := by
  by_cases ht : t' = t
  · subst ht
    rw [Function.update_self] at h
    exact absurd h (hth e)
  · rwa [Function.update_of_ne ht] at h

/-- `close` by the IO thread `t` takes the registrations of the number with it. -/
theorem Registered.close (hr : Registered s) (hd : Descriptors s) {e : Event}
    (hpc : (s.io t).pc = .clClose e) :
    Registered ((s.setKernel (s.kernel.close e.fd)).setIoPc t (.clDel e)) := by
  obtain ⟨hserved, -⟩ := (hd.io t).reading e (by rw [hpc]; rfl)
  refine ⟨?_, fun t' e' h => ?_⟩
  · rintro t' f ⟨sk, hopen, ha⟩
    change (s.kernel.close e.fd).fds f = _ at hopen
    rw [Kernel.close_fds] at hopen
    have hf : f ≠ e.fd := by
      rintro rfl
      rw [Function.update_self] at hopen
      cases hopen
    rw [Function.update_of_ne hf] at hopen
    change ((s.kernel.close e.fd).reg t' f).isSome
    rw [Kernel.close_reg_of_ne _ hf]
    exact hr.served t' f ⟨sk, hopen, ha⟩
  · change (s.kernel.close e.fd).reg t' e'.fd = none
    by_contra hsome
    obtain ⟨mask, hsome⟩ := Option.ne_none_iff_exists'.mp hsome
    obtain ⟨hsome, hne⟩ := s.kernel.close_reg_some hsome
    by_cases ht : t' = t
    · subst ht
      simp only [setIoPc_io, Function.update_self, IoPc.clDel.injEq] at h
      exact hne hserved.isSome (congrArg Event.fd h.symm)
    · simp only [setIoPc_io, Function.update_of_ne ht] at h
      rw [hr.due t' e' h] at hsome
      cases hsome

/-- `EPOLL_CTL_DEL` finds nothing to remove. -/
theorem Registered.epollDel (hr : Registered s) {e : Event} (hpc : (s.io t).pc = .clDel e) :
    s.kernel.epollDel t e.fd = s.kernel := by
  have hreg : Function.update s.kernel.reg t (Function.update (s.kernel.reg t) e.fd none) =
      s.kernel.reg := by
    rw [← hr.due t e hpc, Function.update_eq_self, Function.update_eq_self]
  rw [Kernel.epollDel, Kernel.setReg, hreg]

/-- An IO thread keeps the registrations right. -/
theorem IoStep.registered (h : IoStep s t s') (hd : Descriptors s) (hr : Registered s) :
    Registered s' := by
  cases h with
  | @move pc' hm =>
    refine hr.of_same rfl rfl rfl (clDel_of_update fun e => ?_)
    generalize (s.io t).pc = pc at hm
    cases hm <;> rintro ⟨⟩
  | collect hpc => exact hr.of_same rfl rfl rfl (clDel_of_update (by rw [hpc]; rintro _ ⟨⟩))
  | nextRead | nextWrite | store => exact hr.of_same rfl rfl rfl (clDel_of_update (by rintro _ ⟨⟩))
  | @readData e len data k hpc hk =>
    have hsame : k.fds = s.kernel.fds ∧ k.reg = s.kernel.reg := by
      simp only [Kernel.readBytes] at hk
      split at hk
      · cases hk
      · split at hk <;> cases hk
        exact ⟨rfl, rfl⟩
    exact hr.of_same hsame.1 rfl hsame.2 (clDel_of_update (by rintro _ ⟨⟩))
  | close hpc => exact hr.close hd hpc
  | del hpc =>
    rw [hr.epollDel hpc]
    exact hr.of_same rfl rfl rfl (clDel_of_update (by rintro _ ⟨⟩))
  | remove => exact hr.of_same rfl rfl rfl (clDel_of_update (by rintro _ ⟨⟩))
  | wrote hpc | mod hpc | wrRemove hpc | wrClose hpc =>
    have hno := (hd.io t).noWrite
    rw [hpc] at hno
    exact absurd trivial hno

/-- The main thread registers a number whose `EPOLL_CTL_DEL` is not due. -/
theorem Registered.add (hr : Registered s) (hd : Descriptors s) {f : Fd} {sk : SockId}
    (hpc : s.main = .add t f sk) (hclear : s.strikes = false) (mask : EpollMask) :
    Registered { s with
      kernel := s.kernel.setReg t f (some mask)
      main := .accept
      added := Function.update s.added sk (some t) } := by
  obtain ⟨hopen, -⟩ := hd.pending f sk (by rw [hpc]; rfl)
  refine ⟨?_, fun t' e h => ?_⟩
  · rintro t' f' ⟨sk', hopen', ha⟩
    simp only [Kernel.setReg_fds, Kernel.setReg_reg] at hopen' ha ⊢
    by_cases hcase : t' = t ∧ f' = f
    · obtain ⟨rfl, rfl⟩ := hcase
      simp
    · have hold : (s.kernel.reg t' f').isSome := by
        refine hr.served t' f' ⟨sk', hopen', ?_⟩
        by_cases hsk : sk' = sk
        · subst hsk
          rw [Function.update_self] at ha
          cases ha
          exact absurd ⟨rfl, hd.inj f' f sk' hopen' hopen⟩ hcase
        · rwa [Function.update_of_ne hsk] at ha
      by_cases ht : t' = t
      · subst ht
        rwa [Function.update_self, Function.update_of_ne fun hf => hcase ⟨rfl, hf⟩]
      · rwa [Function.update_of_ne ht]
  · simp only [Kernel.setReg_reg]
    by_cases ht : t' = t
    · subst ht
      have hf : e.fd ≠ f := by
        have h : (s.io t').pc = .clDel e := h
        simpa [State.strikes, hpc, h] using hclear
      rw [Function.update_self, Function.update_of_ne hf]
      exact hr.due t' e h
    · rw [Function.update_of_ne ht]
      exact hr.due t' e h

/-- The main thread keeps the registrations right, unless it strikes. -/
theorem MainStep.registered (h : MainStep s s') (hd : Descriptors s) (hr : Registered s)
    (hclear : ∀ t f sk, s.main = .add t f sk → s'.main = .accept → s.strikes = false) :
    Registered s' := by
  cases h with
  | @accept f hpc hf =>
    refine ⟨?_, hr.due⟩
    rintro t f' ⟨sk, hopen, ha⟩
    refine hr.served t f' ⟨sk, ?_, ha⟩
    by_cases hf' : f' = f
    · subst hf'
      have hopen : Function.update s.kernel.fds f' _ f' = some (.client sk) := hopen
      rw [Function.update_self] at hopen
      cases hopen
      have ha : s.added s.kernel.nextSock = some t := ha
      rw [hd.fresh _ le_rfl] at ha
      cases ha
    · exact (Function.update_of_ne hf' ..).symm.trans hopen
  | acceptFailed => exact hr
  | dispatch | addFailed => exact hr.of_same rfl rfl rfl fun _ _ h => h
  | add hpc => exact hr.add hd hpc (hclear _ _ _ hpc rfl) _
  | @close f sk hpc =>
    refine ⟨?_, fun t e h => ?_⟩
    · rintro t f' ⟨sk', hopen, ha⟩
      change (s.kernel.close f).fds f' = _ at hopen
      rw [Kernel.close_fds] at hopen
      have hf : f' ≠ f := by
        rintro rfl
        rw [Function.update_self] at hopen
        cases hopen
      rw [Function.update_of_ne hf] at hopen
      change ((s.kernel.close f).reg t f').isSome
      rw [Kernel.close_reg_of_ne _ hf]
      exact hr.served t f' ⟨sk', hopen, ha⟩
    · change (s.kernel.close f).reg t e.fd = none
      by_contra hsome
      obtain ⟨mask, hsome⟩ := Option.ne_none_iff_exists'.mp hsome
      have hold := (s.kernel.close_reg_some hsome).1
      rw [hr.due t e h] at hold
      cases hold

/-- The main thread proceeds from `EPOLL_CTL_ADD` to `accept` only when the call succeeds. -/
theorem eq_ok_of_added {r : MainResult} {f : Fd} {sk : SockId} (h : s.mainStep r = some s')
    (hpc : s.main = .add t f sk) (hpc' : s'.main = .accept) : r = .ok := by
  cases r with
  | ok => rfl
  | fail =>
    simp only [mainStep, hpc, Option.some.injEq] at h
    subst h
    cases hpc'
  | accepted f' =>
    simp only [mainStep, hpc, reduceCtorEq] at h

/-- The registrations are right in every state of a run in which the main thread does not strike. -/
theorem reachable_registered (h : (server n).ReachableUnder State.Apart s) : Registered s := by
  refine h.invariant ?_ ?_
  · rintro _ ⟨sys, rfl⟩
    refine ⟨fun t f hs => ?_, nofun⟩
    obtain ⟨sk, -, ha⟩ := hs
    cases ha
  · intro s a s' hreach hr hok hs
    have hd := reachable_descriptors hreach.reachable
    cases a with
    | main r =>
      refine (mainStep_spec hs).registered hd hr fun t f sk hpc hpc' => hok ?_
      rw [eq_ok_of_added hs hpc hpc']
    | io t r => exact (ioStep_spec hs).registered hd hr
    | worker =>
      cases hs
      exact hr.of_same rfl rfl rfl fun _ _ h => h
    | env e =>
      cases envStep_spec hs
      exact hr.of_same rfl rfl rfl fun _ _ h => h

/-- In every run in which no number is registered in the instance of a thread that has closed it and
not yet issued its `EPOLL_CTL_DEL`: an open connection whose `EPOLL_CTL_ADD` succeeded is
registered; an `EPOLL_CTL_DEL` that is issued leaves every registration as it is; and the connection
that a thread is about to close is its own. -/
theorem registered_until_close (h : (server n).ReachableUnder State.Apart s) :
    (∀ t f sk, s.kernel.fds f = some (.client sk) → s.added sk = some t →
      (s.kernel.reg t f).isSome) ∧
    (∀ t e, (s.io t).pc = .clDel e → s.kernel.epollDel t e.fd = s.kernel) ∧
    ∀ t e, (s.io t).pc = .clClose e →
      ∃ sk, s.kernel.fds e.fd = some (.client sk) ∧ s.added sk = some t := by
  have hr := reachable_registered h
  refine ⟨fun t f sk hopen ha => hr.served t f ⟨sk, hopen, ha⟩, fun t e hpc => hr.epollDel hpc,
    fun t e hpc => ?_⟩
  exact (((reachable_descriptors h.reachable).io t).reading e (by rw [hpc]; rfl)).1

/-- The number 10 is closed, removed, and used again in the same thread. -/
theorem registered_until_close_reused :
    ∃ s : State 4, s.kernel.fds 10 = some (.client 4) ∧ s.added 4 = some 0 ∧
      (s.kernel.reg 0 10).isSome ∧ ∀ t e, (s.io t).pc = .clDel e →
        s.kernel.epollDel t e.fd = s.kernel := by
  obtain ⟨s, hs, hp⟩ := (server 4).exists_of_execUnder State.Apart
    (List.flatten [Action.connect 10, [.env (.peerClose 10)], Action.deliver 0 10,
      [.io 0 .eof, .io 0 .ok], Action.connect 11, Action.connect 12, Action.connect 13,
      [.main (.accepted 10), .main .ok, .io 0 .ok, .main .ok]])
    (fun s => decide (s.kernel.fds 10 = some (.client 4) ∧ s.added 4 = some 0))
    ⟨fun _ => false, rfl⟩ (by decide +kernel)
  obtain ⟨hopen, ha⟩ := of_decide_eq_true hp
  obtain ⟨hreg, hdel, -⟩ := registered_until_close hs
  exact ⟨s, hopen, ha, hreg 0 10 4 hopen ha, hdel⟩

/-- The number 10 is closed and used again in the same thread before its `EPOLL_CTL_DEL`, which
removes the registration of the new connection. -/
theorem registration_removed :
    ∃ s : State 4, (server 4).Reachable s ∧ s.kernel.fds 10 = some (.client 4) ∧
      s.added 4 = some 0 ∧ s.kernel.reg 0 10 = none := by
  obtain ⟨s, hs, hp⟩ := (server 4).exists_of_exec
    (List.flatten [Action.connect 10, [.env (.peerClose 10)], Action.deliver 0 10,
      [.io 0 .eof, .io 0 .ok], Action.connect 11, Action.connect 12, Action.connect 13,
      Action.connect 10, [.io 0 .ok]])
    (fun s => decide (s.kernel.fds 10 = some (.client 4) ∧ s.added 4 = some 0 ∧
      s.kernel.reg 0 10 = none))
    ⟨fun _ => false, rfl⟩ (by decide +kernel)
  exact ⟨s, hs, of_decide_eq_true hp⟩

end registration

end DeepInIo.ReactorServer
