import DeepInIo.AdvancedServer.InterestLists

/-!
# Reused descriptor numbers

A descriptor is closed before it is deregistered by its number, some numbers are closed twice, and
the kernel gives closed numbers to new connections at any time.  `State.call` names the call on a
descriptor number that a step makes for a connection, and `FdCall.Safe` says that it cannot hit
another connection.
-/

namespace DeepInIo.AdvancedServer

open State

variable {n m : ℕ}

/-! ### Calls -/

/-- A call on a descriptor number that is made for a connection or for an accepted socket. -/
inductive FdCall (n : ℕ)
  /-- `event_loop_add` in the loop of the thread `t` -/
  | add (t : Fin n) (fd : Option Fd) (c : ConnId)
  /-- `event_loop_mod` in the loop of the thread `t` -/
  | mod (t : Fin n) (fd : Option Fd) (c : ConnId)
  /-- `event_loop_del` in the loop of the thread `t` -/
  | del (t : Fin n) (fd : Option Fd)
  /-- `close`, meant for the socket `sk` -/
  | close (fd : Fd) (sk : SockId)
  deriving DecidableEq

namespace State

variable (s : State n m)

/-- The `close` in `conn_release`. -/
def releaseCall (c : ConnId) : Option (FdCall n) :=
  if (s.conns c).lastRelease then (s.conns c).fd.map fun f => .close f (s.conns c).sock else none

/-- The `close` in `conn_mark_closing`. -/
def markCall (c : ConnId) : Option (FdCall n) :=
  if (s.conns c).closing then none else (s.conns c).fd.map fun f => .close f (s.conns c).sock

/-- The call the main thread makes next. -/
def mainCall : Option (FdCall n) :=
  match s.main with
  | .drop c _ _ => s.releaseCall c
  | .closeClient f sk => some (.close f sk)
  | _ => none

/-- The call the IO thread `t` makes next. -/
def ioCall (t : Fin n) (r : IoResult) : Option (FdCall n) :=
  match (s.io t).pc with
  | .pipeAdd c => if r = .ok then some (.add t (s.conns c).fd c) else none
  | .pipeRelease c => s.releaseCall c
  | .msgMod msg => some (.mod t (s.conns msg.conn).fd msg.conn)
  | .msgRelease msg => s.releaseCall msg.conn
  | .wrIdle x | .wrMod x => some (.mod t (s.conns x.conn).fd x.conn)
  | .closeMark _ x => s.markCall x.conn
  | .closeDel _ _ fd => some (.del t fd)
  | .closeRelease _ x => s.releaseCall x.conn
  | _ => none

/-- The call the worker `w` makes next. -/
def workerCall (w : Fin m) : Option (FdCall n) :=
  match s.worker w with
  | .closeMark task => s.markCall task.conn
  | .closeRelease task | .destroy task => s.releaseCall task.conn
  | _ => none

/-- The call a step makes. -/
def call : Action n m → Option (FdCall n)
  | .main _ => s.mainCall
  | .io t r => s.ioCall t r
  | .worker w _ => s.workerCall w
  | .env _ => none

end State

/-- A call that concerns its own connection only.  `event_loop_add` and `event_loop_mod` are made in
the loop of the thread the connection is assigned to, for the socket accepted for it, which is still
open; `event_loop_del` removes nothing; and `close` closes the socket it is meant for or nothing. -/
def FdCall.Safe (s : State n m) : FdCall n → Prop
  | .add t fd c | .mod t fd c => (s.conns c).ioThread = some t ∧
      ∃ f, fd = some f ∧ s.kernel.fds f = some (.client (s.conns c).sock)
  | .del t fd => (s.kernel.eventLoopDel t fd).reg = s.kernel.reg
  | .close f sk => s.kernel.fds f = none ∨ s.kernel.fds f = some (.client sk)

section safe

variable {cfg : Config n} {s s' : State n m}

/-- `conn_release` and `conn_mark_closing` close the socket of their connection. -/
theorem ConnFiles.close_safe (hd : ConnFiles s) {c : ConnId} {call : FdCall n}
    (h : ((s.conns c).fd.map fun f => FdCall.close f (s.conns c).sock) = some call) :
    call.Safe s := by
  obtain ⟨f, hf, rfl⟩ := Option.map_eq_some_iff.mp h
  cases hl : (s.owner c).live with
  | true =>
    obtain ⟨f', hf', hopen⟩ := hd.live c hl
    rw [hf] at hf'
    cases hf'
    exact .inr hopen
  | false =>
    rw [hd.dead c hl] at hf
    cases hf

theorem ConnFiles.releaseCall_safe (hd : ConnFiles s) {c : ConnId} {call : FdCall n}
    (h : s.releaseCall c = some call) : call.Safe s := by
  rw [State.releaseCall] at h
  split at h
  · exact hd.close_safe h
  · cases h

theorem ConnFiles.markCall_safe (hd : ConnFiles s) {c : ConnId} {call : FdCall n}
    (h : s.markCall c = some call) : call.Safe s := by
  rw [State.markCall] at h
  split at h
  · cases h
  · exact hd.close_safe h

/-- A connection with its descriptor is open, and belongs to the thread it was handed to. -/
theorem open_of_home (hi : Owned s) (hd : ConnFiles s) {c : ConnId} {t : Fin n}
    (hl : (s.owner c).live = true) (ht : (s.owner c).home = some t) :
    (s.conns c).ioThread = some t ∧
      ∃ f, (s.conns c).fd = some f ∧ s.kernel.fds f = some (.client (s.conns c).sock) :=
  ⟨(hi.conn c).thread t ht, hd.live c hl⟩

/-- The calls of the IO threads concern their own connections only. -/
theorem ioCall_safe (hi : Owned s) (hd : ConnFiles s) {t : Fin n} (hf : LoopFds s t) {r : IoResult}
    {call : FdCall n} (h : s.ioCall t r = some call) : call.Safe s := by
  have ho := hi.io t
  unfold State.ioCall at h
  split at h
  · next c hpc =>
    split at h <;> cases h
    have howner : s.owner c = .adopter t := (ho.adopting c).mp (congrArg IoPc.role hpc)
    exact open_of_home hi hd (by rw [howner]; rfl) (by rw [howner]; rfl)
  · exact hd.releaseCall_safe h
  · next msg hpc =>
    cases h
    have howner := hf.message msg hpc
    exact open_of_home hi hd (by rw [howner]; rfl) (by rw [howner]; rfl)
  · exact hd.releaseCall_safe h
  · next x hpc =>
    cases h
    have howner : s.owner x.conn = .registered t := ho.active x.conn (congrArg IoPc.role hpc)
    exact open_of_home hi hd (by rw [howner]; rfl) (by rw [howner]; rfl)
  · next x hpc =>
    cases h
    have howner : s.owner x.conn = .registered t := ho.active x.conn (congrArg IoPc.role hpc)
    exact open_of_home hi hd (by rw [howner]; rfl) (by rw [howner]; rfl)
  · exact hd.markCall_safe h
  · next k x fd hpc =>
    cases h
    exact Kernel.eventLoopDel_unlisted fun f hfd => hf.deleted k x f (hpc.trans (by rw [hfd]))
  · exact hd.releaseCall_safe h
  · cases h

/-- Every call concerns its own connection only. -/
theorem call_safe (h : (server m cfg).Reachable s) {a : Action n m} {call : FdCall n}
    (hc : s.call a = some call) : call.Safe s := by
  have hi := reachable_owned h
  have hd := reachable_descriptors h
  cases a with
  | main r =>
    change s.mainCall = some call at hc
    unfold State.mainCall at hc
    split at hc
    · exact hd.conn.releaseCall_safe hc
    · next f sk hpc =>
      cases hc
      exact (hd.main.refused f sk (congrArg MainPc.refused? hpc)).1
    · cases hc
  | io t r => exact ioCall_safe hi hd.conn ((reachable_listed h).2 t) hc
  | worker w ok =>
    change s.workerCall w = some call at hc
    unfold State.workerCall at hc
    split at hc
    · exact hd.conn.markCall_safe hc
    · exact hd.conn.releaseCall_safe hc
    · exact hd.conn.releaseCall_safe hc
    · cases hc
  | env e => cases hc

/-! ### Registrations last -/

/-- A connection whose event loop owns it is open and registered with that loop. -/
theorem registered_entry (h : (server m cfg).Reachable s) (hrun : s.Running) {c : ConnId}
    {t : Fin n} (ho : s.owner c = .registered t) :
    ∃ f, (s.conns c).fd = some f ∧ s.kernel.fds f = some (.client (s.conns c).sock) ∧
      s.kernel.entry t f = some c := by
  obtain ⟨f, hf, hopen⟩ := (reachable_descriptors h).conn.live c (by rw [ho]; rfl)
  exact ⟨f, hf, hopen, (reachable_listed h).1.complete hrun t f c ⟨ho, hf⟩⟩

/-- An IO thread that closes a descriptor calls `close` for it. -/
theorem call_closeMark (hi : Owned s) {t : Fin n} {k : CloseSite} {x : EventContext} {f : Fd}
    (hpc : (s.io t).pc = .closeMark k x) (hf : (s.conns x.conn).fd = some f) (r : IoResult) :
    s.call (.io t r) = some (.close f (s.conns x.conn).sock) := by
  have howner : s.owner x.conn = .registered t := (hi.io t).active x.conn (congrArg IoPc.role hpc)
  have hflag : (s.conns x.conn).closing = false := by
    have hm := (hi.conn x.conn).flag
    change _ = (s.owner x.conn).marked at hm
    rw [hm, howner]
    rfl
  simp [State.call, State.ioCall, hpc, State.markCall, hflag, hf]

/-- An entry stays until the socket of its connection is closed. -/
theorem entry_until_close (h : (server m cfg).Reachable s) {a : Action n m}
    (hs : (server m cfg).step s a = some s') (hrun : s'.Running) {t : Fin n} {f : Fd} {c : ConnId}
    (he : s.kernel.entry t f = some c) :
    s'.kernel.entry t f = some c ∨ s.call a = some (.close f (s.conns c).sock) := by
  have hi := reachable_owned h
  have hc := reachable_counts h
  have hd := reachable_descriptors h
  obtain ⟨hl, hf⟩ := reachable_listed h
  have hquiet : ListChange none s s' → s'.kernel.entry t f = some c := by
    intro hch
    cases hch with
    | same he' _ => rw [he', he]
    | added _ _ _ ho => cases ho
    | removed _ _ _ _ ho => cases ho
    | dropped hnr => exact absurd hrun hnr
  cases a with
  | main r => exact .inl (hquiet ((mainStep_spec hs).listChange hi hc hd hl))
  | worker w ok => exact .inl (hquiet ((workerStep_spec hs).listChange hi hc hd))
  | env e => exact .inl (hquiet (envStep_spec hs).listChange)
  | io t₀ r =>
    cases (ioStep_spec hs).listChange hi hc hd hl (hf t₀) with
    | same he' _ => left; rw [he', he]
    | added t₁ f₁ c₁ _ _ hnone he' _ =>
      left
      rw [he', if_neg, he]
      rintro ⟨rfl, rfl⟩
      rw [hnone] at he
      cases he
    | removed t₁ k x f₁ ho hpc hfd he' _ =>
      by_cases hff : f = f₁
      · subst hff
        cases ho
        have hcx : c = x.conn := hd.conn.eq_of_fd (hl.sound t f c he).2 hfd
        rw [hcx]
        exact .inr (call_closeMark hi hpc hfd r)
      · left
        rw [he', if_neg hff, he]
    | dropped hnr => exact absurd hrun hnr

/-! ### Open files stay open -/

/-- `conn_release` closes nothing but what its call names. -/
theorem connRelease_fds (s : State n m) (c : ConnId) (f : Fd) :
    (s.connRelease c).kernel.fds f = s.kernel.fds f ∨
      s.releaseCall c = some (.close f (s.conns c).sock) := by
  rw [connRelease_kernel, State.releaseCall]
  split
  · cases (s.conns c).fd with
    | none => exact .inl rfl
    | some f₀ =>
      by_cases hf : f = f₀
      · subst hf; exact .inr rfl
      · left; rw [Kernel.close_fds, if_neg hf]
  · exact .inl rfl

/-- `conn_mark_closing` closes nothing but what its call names. -/
theorem connMarkClosing_fds (s : State n m) (c : ConnId) (f : Fd) :
    (s.connMarkClosing c).kernel.fds f = s.kernel.fds f ∨
      s.markCall c = some (.close f (s.conns c).sock) := by
  rw [connMarkClosing_kernel, State.markCall]
  split
  · exact .inl rfl
  · cases (s.conns c).fd with
    | none => exact .inl rfl
    | some f₀ =>
      by_cases hf : f = f₀
      · subst hf; exact .inr rfl
      · left; rw [Kernel.close_fds, if_neg hf]

/-- A file stays open until a step calls `close` for its number. -/
theorem fds_until_close {a : Action n m} (hs : (server m cfg).step s a = some s')
    (hrun : s'.Running) {f : Fd} {file : File n} (hf : s.kernel.fds f = some file) :
    s'.kernel.fds f = some file ∨ ∃ sk, s.call a = some (.close f sk) := by
  have hkeep : ∀ {k : Kernel n}, s.kernel.SameFiles k → k.fds f = some file := by
    intro k hk
    rw [hk.fds, hf]
  have hcall : ∀ {k : Kernel n} {o : Option (FdCall n)} {sk : SockId},
      k.fds f = s.kernel.fds f ∨ o = some (.close f sk) →
      k.fds f = some file ∨ ∃ sk, o = some (.close f sk) := by
    intro k o sk h
    exact h.imp (fun h => h.trans hf) fun h => ⟨sk, h⟩
  cases a with
  | main r =>
    have hc : s.call (.main r) = s.mainCall := rfl
    have hstep := mainStep_spec hs
    have hrun₀ := hstep.running hrun
    rw [hc, State.mainCall]
    cases hstep with
    | @accept f₀ hpc hfree _ =>
      have hne : f ≠ f₀ := by
        rintro rfl
        rw [hf] at hfree
        cases hfree
      exact .inl ((Function.update_of_ne hne _ _).trans hf)
    | drop hpc =>
      rw [hpc]
      exact hcall (connRelease_fds s _ f)
    | @closeClient f₀ sk hpc =>
      rw [hpc]
      by_cases hff : f = f₀
      · subst hff; exact .inr ⟨sk, rfl⟩
      · exact .inl ((Kernel.close_fds ..).trans (by rw [if_neg hff, hf]))
    | closeListen hpc | destroyLoop hpc | ioLoop hpc | ioClose0 hpc | ioClose1 hpc
    | destroyTask hpc =>
      rw [State.Running, hpc] at hrun₀
      exact hrun₀.elim
    | _ => exact .inl hf
  | worker w ok =>
    have hc : s.call (.worker w ok) = s.workerCall w := rfl
    rw [hc, State.workerCall]
    cases workerStep_spec hs with
    | closeMark hpc =>
      rw [hpc]
      exact hcall (connMarkClosing_fds s _ f)
    | closeRelease hpc | destroy hpc =>
      rw [hpc]
      exact hcall (connRelease_fds s _ f)
    | _ => exact .inl hf
  | io t r =>
    have hc : s.call (.io t r) = s.ioCall t r := rfl
    rw [hc, State.ioCall]
    cases ioStep_spec hs with
    | register hpc hk =>
      obtain ⟨f₀, -, -, -, rfl⟩ := Kernel.eventLoopAdd_eq hk
      exact .inl hf
    | reject hpc | closeRelease hpc | msgRelease hpc =>
      rw [hpc]
      exact hcall (connRelease_fds s _ f)
    | closeMark hpc =>
      rw [hpc]
      exact hcall (connMarkClosing_fds s _ f)
    | msgMod hpc => exact .inl (hkeep (Kernel.sameFiles_eventLoopMod ..))
    | backToRead hpc => exact .inl (hkeep (Kernel.sameFiles_eventLoopMod ..))
    | closeDel hpc => exact .inl (hkeep (Kernel.sameFiles_eventLoopDel ..))
    | readData hpc hk =>
      obtain ⟨sk, -, -, -, -, -, rfl⟩ := Kernel.readBytes_eq hk
      exact .inl hf
    | wrote hpc hlt hk =>
      obtain ⟨sk, -, -, -, -, rfl⟩ := Kernel.writeBytes_eq hk
      exact .inl hf
    | _ => exact .inl hf
  | env e => cases envStep_spec hs <;> exact .inl hf

/-! ### The server and reused numbers -/

/-- While the server runs, descriptor numbers are safe from reuse.  Every call on a number concerns
its own connection only; every connection owned by an event loop is open and registered there; an
entry stays until the socket of its connection is closed; and a file is closed only by a call for
its number. -/
theorem descriptor_reuse_safe (h : (server m cfg).Reachable s) (hrun : s.Running) :
    (∀ a call, s.call a = some call → call.Safe s) ∧
    (∀ c t, s.owner c = .registered t → ∃ f, (s.conns c).fd = some f ∧
      s.kernel.fds f = some (.client (s.conns c).sock) ∧ s.kernel.entry t f = some c) ∧
    (∀ t f c, s.kernel.entry t f = some c → ∀ a s', (server m cfg).step s a = some s' → s'.Running →
      s'.kernel.entry t f = some c ∨ s.call a = some (.close f (s.conns c).sock)) ∧
    ∀ f file, s.kernel.fds f = some file → ∀ a s', (server m cfg).step s a = some s' → s'.Running →
      s'.kernel.fds f = some file ∨ ∃ sk, s.call a = some (.close f sk) := by
  refine ⟨fun a call hc => call_safe h hc, fun c t ho => registered_entry h hrun ho,
    fun t f c he a s' hs hr => entry_until_close h hs hr he,
    fun f file hf a s' hs hr => fds_until_close hs hr hf⟩

/-- The number 10 is closed, given to the next connection, and then deregistered. -/
theorem descriptor_reuse_safe_reused :
    ∃ s : State 1 1, s.call (.io 0 .ok) = some (.del 0 (some 10)) ∧
      s.kernel.fds 10 = some (.client 1) ∧
      (s.kernel.eventLoopDel 0 (some 10)).reg = s.kernel.reg := by
  obtain ⟨s, hs, hp⟩ := (server 1 (Config.fresh 1)).exists_of_exec
    (List.flatten [Action.connect 10, Action.adopt 0, [.env (.peerClose 10)],
      Action.deliver 0 10 { read := true }, [.io 0 .eof, .io 0 .ok], Action.connect 10])
    (fun s => decide (s.main = .wait ∧ s.call (.io 0 .ok) = some (.del 0 (some 10)) ∧
      s.kernel.fds 10 = some (.client 1))) rfl (by decide +kernel)
  obtain ⟨hmain, hcall, hopen⟩ := of_decide_eq_true hp
  have hrun : s.Running := by simp [State.Running, hmain]
  exact ⟨s, hcall, hopen, (descriptor_reuse_safe hs hrun).1 _ _ hcall⟩

end safe

end DeepInIo.AdvancedServer
