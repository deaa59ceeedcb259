import DeepInIo.AdvancedServer.Descriptors

/-!
# The interest lists of the event loops

While the server runs, the interest list of an IO thread has an entry for a descriptor exactly when
the thread's event loop owns the connection with that descriptor (`Listed`).  A step of the server
changes the lists in one of four ways (`ListChange`), and only two of them occur while the server
runs: a thread registers a connection it has adopted, and a thread closes a connection of its own.
-/

namespace DeepInIo.AdvancedServer

open State

variable {n m : ℕ}

/-! ### Entries -/

namespace Kernel

variable (k : Kernel n) (t t' : Fin n) (f f' : Fd)

/-- The connection an interest list has for a number. -/
def entry : Option ConnId :=
  (k.reg t f).map Registration.data

variable {k t f}

theorem entry_eq_none : k.entry t f = none ↔ k.reg t f = none :=
  Option.map_eq_none_iff

theorem entry_eq_some {c : ConnId} :
    k.entry t f = some c ↔ ∃ r, k.reg t f = some r ∧ r.data = c :=
  Option.map_eq_some_iff

theorem entry_setReg (r : Option Registration) :
    (k.setReg t f r).entry t' f' = if t' = t ∧ f' = f then r.map Registration.data
      else k.entry t' f' := by
  by_cases ht : t' = t
  · subst ht
    by_cases hf : f' = f
    · subst hf; simp [entry]
    · simp [entry, hf]
  · simp [entry, ht]

/-- Writing an entry without changing its connection. -/
theorem entry_setReg_same {r : Registration} (h : k.entry t f = some r.data) :
    (k.setReg t f (some r)).entry = k.entry := by
  funext t' f'
  rw [entry_setReg]
  split
  · next heq => rw [heq.1, heq.2, h]; rfl
  · rfl

/-- `event_loop_mod` for the connection that is registered. -/
theorem entry_eventLoopMod {o : Option Fd} {mask : EventMask} {c : ConnId}
    (h : ∀ f c', o = some f → k.entry t f = some c' → c' = c) :
    (k.eventLoopMod t o mask c).entry = k.entry := by
  cases o with
  | none => rfl
  | some f =>
    simp only [eventLoopMod]
    split
    · next hr =>
      obtain ⟨r, hr⟩ := Option.isSome_iff_exists.mp hr
      have hc := entry_eq_some.mpr ⟨r, hr, rfl⟩
      exact entry_setReg_same (by rw [hc, h f r.data rfl hc]; rfl)
    · rfl

/-- `event_loop_del` of a number that is not registered. -/
theorem eventLoopDel_unlisted {o : Option Fd} (h : ∀ f, o = some f → k.entry t f = none) :
    (k.eventLoopDel t o).reg = k.reg := by
  cases o with
  | none => rfl
  | some f =>
    have hnone := entry_eq_none.mp (h f rfl)
    funext t' f'
    rw [eventLoopDel, setReg_reg]
    by_cases ht : t' = t
    · subst ht
      by_cases hf : f' = f
      · subst hf; simp [hnone]
      · simp [hf]
    · simp [ht]

theorem entry_close (h : (k.fds f).isSome = true) :
    (k.close (some f)).entry t' f' = if f' = f then none else k.entry t' f' := by
  rw [entry, close_reg k h]
  split <;> rfl

/-- `close` of a number that is not registered anywhere. -/
theorem entry_close_unlisted {o : Option Fd} (h : ∀ f t, o = some f → k.entry t f = none) :
    (k.close o).entry = k.entry := by
  cases o with
  | none => rfl
  | some f =>
    by_cases hopen : (k.fds f).isSome = true
    · funext t' f'
      rw [entry_close t' f' hopen]
      split
      · next hf => rw [hf, h f t' rfl]
      · rfl
    · rw [close, if_neg hopen]

/-- `close` only removes entries. -/
theorem entry_of_close {o : Option Fd} {c : ConnId} (h : (k.close o).entry t f = some c) :
    k.entry t f = some c := by
  obtain ⟨r, hr, hc⟩ := entry_eq_some.mp h
  exact entry_eq_some.mpr ⟨r, reg_of_close hr, hc⟩

@[simp] theorem entry_signal (rd wr : Bool) : (k.signal f rd wr).entry = k.entry := by
  funext t' f'
  simp only [entry, signal]
  by_cases hf : f' = f
  · subst hf
    rw [Function.update_self]
    cases k.reg t' f' <;> rfl
  · rw [Function.update_of_ne hf]

end Kernel

/-! ### The invariant -/

/-- The event loop of the thread `t` owns the connection `c`, and its descriptor is `f`. -/
def State.RegisteredAs (s : State n m) (t : Fin n) (f : Fd) (c : ConnId) : Prop :=
  s.owner c = .registered t ∧ (s.conns c).fd = some f

/-- The entries of the interest lists. -/
structure Listed (s : State n m) : Prop where
  sound : ∀ t f c, s.kernel.entry t f = some c → s.RegisteredAs t f c
  complete : s.Running → ∀ t f c, s.RegisteredAs t f c → s.kernel.entry t f = some c

/-- The event whose descriptor an IO thread has loaded. -/
def IoPc.loaded? : IoPc → Option EventContext
  | .rdRead x | .rdCreate x _ | .rdSubmit x _ | .wrEntry x | .wrIdle x | .wrLoop x | .wrFinal x
  | .wrReset x | .wrMod x | .closeMark _ x | .recheck _ x | .erTest x => some x
  | _ => none

/-- What an IO thread knows about the descriptors it is about to use: the connection of a message
that passed `conn_is_valid` is registered, a loaded descriptor is that of the connection, and a
descriptor to deregister has no entry any more. -/
structure LoopFds (s : State n m) (t : Fin n) : Prop where
  message : ∀ msg, (s.io t).pc = .msgMod msg → s.owner msg.conn = .registered t
  loaded : ∀ x, (s.io t).pc.loaded? = some x → s.owner x.conn = .registered t →
    x.fd = (s.conns x.conn).fd
  deleted : ∀ k x f, (s.io t).pc = .closeDel k x (some f) → s.kernel.entry t f = none

/-- How a step changes the interest lists; `o` is the IO thread that takes it, if one does. -/
inductive ListChange (o : Option (Fin n)) (s s' : State n m) : Prop
  | same (he : s'.kernel.entry = s.kernel.entry)
      (hr : ∀ t f c, s'.RegisteredAs t f c ↔ s.RegisteredAs t f c)
  | added (t : Fin n) (f : Fd) (c : ConnId) (ho : o = some t) (hpc : (s.io t).pc = .pipeAdd c)
      (hnone : s.kernel.entry t f = none)
      (he : ∀ t' f', s'.kernel.entry t' f' = if t' = t ∧ f' = f then some c
        else s.kernel.entry t' f')
      (hr : ∀ t' f' c', s'.RegisteredAs t' f' c' ↔
        (t' = t ∧ f' = f ∧ c' = c) ∨ s.RegisteredAs t' f' c')
  | removed (t : Fin n) (k : CloseSite) (x : EventContext) (f : Fd) (ho : o = some t)
      (hpc : (s.io t).pc = .closeMark k x) (hfd : (s.conns x.conn).fd = some f)
      (he : ∀ t' f', s'.kernel.entry t' f' = if f' = f then none else s.kernel.entry t' f')
      (hr : ∀ t' f' c', s'.RegisteredAs t' f' c' ↔ s.RegisteredAs t' f' c' ∧ f' ≠ f)
  | dropped (hrun : ¬s'.Running)
      (he : ∀ t f c, s'.kernel.entry t f = some c → s.kernel.entry t f = some c)
      (hr : ∀ t f c, s'.RegisteredAs t f c ↔ s.RegisteredAs t f c)

section change

variable {o : Option (Fin n)} {s s' : State n m}

/-- Every such change keeps the entries in order. -/
theorem Listed.change (h : Listed s) (hch : ListChange o s s') (hrun : s'.Running → s.Running) :
    Listed s' := by
  cases hch with
  | same he hr =>
    refine ⟨fun t f c hc => ?_, fun hrun' t f c hc => ?_⟩
    · rw [he] at hc
      exact (hr t f c).mpr (h.sound t f c hc)
    · rw [he]
      exact h.complete (hrun hrun') t f c ((hr t f c).mp hc)
  | added t₀ f₀ c₀ _ hpc hnone he hr =>
    refine ⟨fun t f c hc => ?_, fun hrun' t f c hc => ?_⟩
    · rw [he] at hc
      rw [hr]
      split at hc
      · next heq => exact .inl ⟨heq.1, heq.2, (Option.some.inj hc).symm⟩
      · exact .inr (h.sound t f c hc)
    · rw [he]
      rcases (hr t f c).mp hc with ⟨rfl, rfl, rfl⟩ | hc
      · rw [if_pos ⟨rfl, rfl⟩]
      · have hold := h.complete (hrun hrun') t f c hc
        rw [if_neg, hold]
        rintro ⟨rfl, rfl⟩
        rw [hnone] at hold
        cases hold
  | removed t₀ k x f₀ _ hpc hfd he hr =>
    refine ⟨fun t f c hc => ?_, fun hrun' t f c hc => ?_⟩
    · rw [he] at hc
      split at hc
      · cases hc
      · next hne => exact (hr t f c).mpr ⟨h.sound t f c hc, hne⟩
    · obtain ⟨hc, hne⟩ := (hr t f c).mp hc
      rw [he, if_neg hne]
      exact h.complete (hrun hrun') t f c hc
  | dropped hnr he hr =>
    exact ⟨fun t f c hc => (hr t f c).mpr (h.sound t f c (he t f c hc)),
      fun hrun' => absurd hrun' hnr⟩

/-- Writing a connection that is registered neither before nor after, or without touching its owner
and its descriptor. -/
theorem registeredAs_update {c₀ : ConnId} {k : Conn n}
    (hs : s'.conns = Function.update s.conns c₀ k)
    (h : (k.owner = (s.conns c₀).owner ∧ k.fd = (s.conns c₀).fd) ∨
      ((∀ t, (s.conns c₀).owner ≠ .registered t) ∧ ∀ t, k.owner ≠ .registered t))
    (t : Fin n) (f : Fd) (c : ConnId) : s'.RegisteredAs t f c ↔ s.RegisteredAs t f c := by
  rw [RegisteredAs, RegisteredAs, State.owner, State.owner, hs]
  by_cases hc : c = c₀
  · subst hc
    rw [Function.update_self]
    rcases h with ⟨ho, hf⟩ | ⟨h1, h2⟩
    · rw [ho, hf]
    · exact iff_of_false (fun hr => h2 t hr.1) (fun hr => h1 t hr.1)
  · rw [Function.update_of_ne hc]

/-- A number that a connection has belongs to no other connection. -/
theorem ConnFiles.eq_of_fd (hd : ConnFiles s) {c c' : ConnId} {f : Fd}
    (hc : (s.conns c).fd = some f) (hc' : (s.conns c').fd = some f) : c = c' := by
  have hlive : ∀ {c}, (s.conns c).fd = some f → (s.owner c).live = true := by
    intro c hc
    cases hl : (s.owner c).live with
    | true => rfl
    | false => rw [hd.dead c hl] at hc; cases hc
  have hopen : ∀ {c}, (s.conns c).fd = some f → s.owner c ≠ .unborn ∧
      s.kernel.fds f = some (.client (s.conns c).sock) := by
    intro c hc
    obtain ⟨f', hf', hopen⟩ := hd.live c (hlive hc)
    rw [hc] at hf'
    cases hf'
    refine ⟨fun hu => ?_, hopen⟩
    have hl := hlive hc
    rw [hu] at hl
    cases hl
  obtain ⟨hb, ho⟩ := hopen hc
  obtain ⟨hb', ho'⟩ := hopen hc'
  rw [ho] at ho'
  injection ho' with ho'
  injection ho' with ho'
  exact hd.sock_inj c c' hb hb' ho'

/-- The descriptor of a connection that no event loop owns has no entry. -/
theorem Listed.unlisted (h : Listed s) (hd : ConnFiles s) {c : ConnId} {f : Fd}
    (hf : (s.conns c).fd = some f) (hno : ∀ t, s.owner c ≠ .registered t) (t : Fin n) :
    s.kernel.entry t f = none := by
  cases he : s.kernel.entry t f with
  | none => rfl
  | some c' =>
    obtain ⟨ho, hf'⟩ := h.sound t f c' he
    rw [hd.eq_of_fd hf' hf] at ho
    exact absurd ho (hno t)

/-- `event_loop_mod` for a connection does not touch the entry of another. -/
theorem Listed.entry_mod (h : Listed s) (hd : ConnFiles s) (t : Fin n) (c : ConnId)
    (mask : EventMask) :
    (s.kernel.eventLoopMod t (s.conns c).fd mask c).entry = s.kernel.entry :=
  Kernel.entry_eventLoopMod fun f c' hf he => hd.eq_of_fd (h.sound t f c' he).2 hf

end change

/-! ### The steps of the server -/

section steps

variable {cfg : Config n} {o : Option (Fin n)} {s s' : State n m} {t : Fin n} {w : Fin m}

/-- A thread whose message passed `conn_is_valid` owns the connection. -/
theorem registered_of_valid (hi : Owned s) {c : ConnId} (hl : (s.owner c).loop = some t)
    (hv : (s.conns c).isValid = true) : s.owner c = .registered t := by
  have hm := (hi.conn c).isValid_iff.mp hv
  change (s.owner c).marked = false at hm
  generalize s.owner c = o at hl hm
  cases o <;> simp_all [Owner.loop, Owner.marked]

/-- A connection gives up a descriptor that is in no interest list. -/
theorem ClosesOwn.listChange {c : ConnId} {k : Conn n} (h : ClosesOwn s s' c k) (hd : ConnFiles s)
    (hl : Listed s) (hno : ∀ t, s.owner c ≠ .registered t) : ListChange o s s' := by
  refine .same ?_ (registeredAs_update h.conns (.inr ⟨hno, fun t ht => ?_⟩))
  · rw [h.kernel]
    exact Kernel.entry_close_unlisted fun f t hf => hl.unlisted hd hf hno t
  · have hdead := h.dead
    rw [ht] at hdead
    cases hdead

/-- A thread registers the connection it has adopted. -/
theorem listChange_register {c : ConnId} {k : Kernel n}
    (hpc : (s.io t).pc = .pipeAdd c) (ho : s.owner c = .adopter t)
    (hk : s.kernel.eventLoopAdd t (s.conns c).fd .readEt c = some k) (hk' : s'.kernel = k)
    (hs : s'.conns = Function.update s.conns c ((s.conns c).setOwner (.registered t))) :
    ListChange (some t) s s' := by
  obtain ⟨f, hf, hopen, hnone, rfl⟩ := Kernel.eventLoopAdd_eq hk
  refine .added t f c rfl hpc (Kernel.entry_eq_none.mpr hnone) (fun t' f' => ?_) fun t' f' c' => ?_
  · rw [hk', Kernel.entry_setReg]
    rfl
  · rw [RegisteredAs, RegisteredAs, State.owner, hs]
    by_cases hc : c' = c
    · subst hc
      rw [Function.update_self, Conn.setOwner_owner, Conn.setOwner_fd, hf, ho]
      simp [eq_comm]
    · rw [Function.update_of_ne hc]
      simp only [hc, and_false, false_or]
      rfl

/-- Closing the descriptor of a connection removes the entries of its number. -/
theorem entry_markClosing (hi : Owned s) (hd : ConnFiles s) {k : CloseSite} {x : EventContext}
    {f : Fd} (hpc : (s.io t).pc = .closeMark k x) (hf : (s.conns x.conn).fd = some f) (t' : Fin n)
    (f' : Fd) :
    (s.markClosing t k x).kernel.entry t' f' = if f' = f then none else s.kernel.entry t' f' := by
  have howner : s.owner x.conn = .registered t := (hi.io t).active x.conn (congrArg IoPc.role hpc)
  have hflag : (s.conns x.conn).closing = false := by
    have hm := (hi.conn x.conn).flag
    change _ = (s.owner x.conn).marked at hm
    rw [hm, howner]
    rfl
  have hopen : (s.kernel.fds f).isSome = true := by
    obtain ⟨f₀, hf₀, hopen⟩ := hd.live x.conn (by rw [howner]; rfl)
    rw [hf] at hf₀
    cases hf₀
    rw [hopen]
    rfl
  have hk : (s.markClosing t k x).kernel = s.kernel.close (some f) := by
    simp [State.markClosing, hflag, hf]
  rw [hk]
  exact Kernel.entry_close t' f' hopen

/-- A thread closes the descriptor of a connection of its own. -/
theorem listChange_closeMark (hi : Owned s) (hd : ConnFiles s) {k : CloseSite} {x : EventContext}
    (hpc : (s.io t).pc = .closeMark k x) : ListChange (some t) s (s.markClosing t k x) := by
  have howner : s.owner x.conn = .registered t := (hi.io t).active x.conn (congrArg IoPc.role hpc)
  obtain ⟨f, hf, -⟩ := hd.live x.conn (by rw [howner]; rfl)
  refine .removed t k x f rfl hpc hf (entry_markClosing hi hd hpc hf) fun t' f' c' => ?_
  rw [RegisteredAs, RegisteredAs, State.owner, markClosing_conns]
  by_cases hc : c' = x.conn
  · subst hc
    rw [Function.update_self, hf]
    exact iff_of_false (fun h => by cases h.1) fun h => h.2 (Option.some.inj h.1.2).symm
  · rw [Function.update_of_ne hc]
    refine (and_iff_left_of_imp fun hr hff => hc ?_).symm
    subst hff
    exact hd.eq_of_fd hr.2 hf

/-- How the steps of an IO thread change the interest lists. -/
theorem IoStep.listChange (h : IoStep cfg s t s') (hi : Owned s) (hc : Counts s)
    (hd : Descriptors cfg s) (hl : Listed s) (hf : LoopFds s t) : ListChange (some t) s s' := by
  have ho := hi.io t
  have hmove : s'.kernel.entry = s.kernel.entry → s'.conns = s.conns →
      ListChange (some t) s s' := by
    intro he hs
    refine .same he fun t' f c => ?_
    rw [RegisteredAs, RegisteredAs, State.owner, State.owner, hs]
  have hsame : ∀ {c : ConnId} {k : Conn n}, s'.kernel.entry = s.kernel.entry →
      s'.conns = Function.update s.conns c k → k.owner = (s.conns c).owner →
      k.fd = (s.conns c).fd → ListChange (some t) s s' := by
    intro c k he hs howner hfd
    exact .same he (registeredAs_update hs (.inl ⟨howner, hfd⟩))
  cases h with
  | @collectFd f ev r hpc hr =>
    exact hmove (Kernel.entry_setReg_same (Kernel.entry_eq_some.mpr ⟨r, hr, rfl⟩)) rfl
  | @readConn c rest hpc hp =>
    have howner : (s.conns c).owner = .pipe t := (ho.pipe c).mp (by simp [hp])
    exact .same rfl (registeredAs_update rfl (.inr ⟨by rw [howner]; rintro _ ⟨⟩, by rintro _ ⟨⟩⟩))
  | @register c k hpc hk =>
    have howner : s.owner c = .adopter t := (ho.adopting c).mp (congrArg IoPc.role hpc)
    exact listChange_register hpc howner hk rfl rfl
  | @reject c hpc =>
    have howner : s.owner c = .adopter t := (ho.adopting c).mp (congrArg IoPc.role hpc)
    have hown : ClosesOwn s (s.rejectConnection t c) c ((s.conns c).release.setOwner .dropped) :=
      closesOwn_drop hi hc (by rw [howner]; rfl) (by rw [howner]; rfl) rfl
        (rejectConnection_conns s t c)
    exact hown.listChange hd.conn hl (by rw [howner]; rintro _ ⟨⟩)
  | closeMark hpc => exact listChange_closeMark hi hd.conn hpc
  | @closeRelease k x hpc =>
    have howner : s.owner x.conn = .closing t := (ho.closing x.conn).mp (congrArg IoPc.role hpc)
    have hfd := hd.conn.dead x.conn (by rw [howner]; rfl)
    refine .same ?_ (registeredAs_update (releaseOwner_conns s t k x) (.inr ⟨?_, by rintro _ ⟨⟩⟩))
    · simp [releaseOwner, hfd]
    · intro t' ht'
      rw [State.owner, ht'] at howner
      cases howner
  | @msgRelease msg hpc =>
    obtain ⟨hk, hfd⟩ := release_quiet hd.conn (hc.lt_of_message (congrArg IoPc.message? hpc))
    exact hsame (congrArg Kernel.entry hk) rfl rfl hfd.fd
  | @closeDel k x fd hpc =>
    refine hmove ?_ rfl
    have hreg := Kernel.eventLoopDel_unlisted (k := s.kernel) (t := t) (o := fd) fun f hfd =>
      hf.deleted k x f (hpc.trans (by rw [hfd]))
    funext t' f
    exact congrArg (Option.map Registration.data) (congrFun (congrFun hreg t') f)
  | @msgMod msg hpc => exact hmove (hl.entry_mod hd.conn t msg.conn .writeEt) rfl
  | @backToRead x hpc => exact hsame (hl.entry_mod hd.conn t x.conn .readEt) rfl rfl rfl
  | readData hpc hk =>
    obtain ⟨sk, -, -, -, -, -, rfl⟩ := Kernel.readBytes_eq hk
    exact hsame rfl rfl rfl rfl
  | wrote hpc hlt hk =>
    obtain ⟨sk, -, -, -, -, rfl⟩ := Kernel.writeBytes_eq hk
    exact hsame rfl rfl rfl rfl
  | adopt | createTask | createLeak | submitLeak | reset => exact hsame rfl rfl rfl rfl
  | _ => exact hmove rfl rfl

/-- The workers do not change the interest lists. -/
theorem WorkerStep.listChange (h : WorkerStep cfg s w s') (hi : Owned s) (hc : Counts s)
    (hd : Descriptors cfg s) : ListChange none s s' := by
  have hsame : ∀ {c : ConnId} {k : Conn n}, s'.kernel.entry = s.kernel.entry →
      s'.conns = Function.update s.conns c k → k.owner = (s.conns c).owner →
      k.fd = (s.conns c).fd → ListChange none s s' := by
    intro c k he hs howner hfd
    exact .same he (registeredAs_update hs (.inl ⟨howner, hfd⟩))
  cases h with
  | install | acquire => exact hsame rfl rfl rfl rfl
  | closeMark hpc | closeRelease hpc =>
    have hno := hi.never_closes w
    rw [hpc] at hno
    cases hno
  | @destroy task hpc =>
    obtain ⟨hk, hfd⟩ := release_quiet hd.conn (hc.lt_of_worker (congrArg WorkerPc.task? hpc))
    exact hsame (congrArg Kernel.entry hk) rfl rfl hfd.fd
  | _ => exact .same rfl fun t f c => Iff.rfl

/-- How the steps of the main thread change the interest lists. -/
theorem MainStep.listChange (h : MainStep cfg s s') (hi : Owned s) (hc : Counts s)
    (hd : Descriptors cfg s) (hl : Listed s) : ListChange none s s' := by
  cases h with
  | @create t f sk hpc =>
    have howner : (s.conns s.nextConn).owner = .unborn := (hi.unborn _).mpr le_rfl
    exact .same rfl (registeredAs_update rfl (.inr ⟨by rw [howner]; rintro _ ⟨⟩, by rintro _ ⟨⟩⟩))
  | @handOff t c f sk hpc hlt =>
    have howner : (s.conns c).owner = .creator := (hi.creator c).mpr (congrArg MainPc.creating hpc)
    exact .same rfl (registeredAs_update rfl (.inr ⟨by rw [howner]; rintro _ ⟨⟩, by rintro _ ⟨⟩⟩))
  | @drop c f sk hpc =>
    have howner : s.owner c = .creator := (hi.creator c).mpr (congrArg MainPc.creating hpc)
    have hown : ClosesOwn s (s.dropConnection c f sk) c ((s.conns c).release.setOwner .dropped) :=
      closesOwn_drop hi hc (by rw [howner]; rfl) (by rw [howner]; rfl) rfl
        (dropConnection_conns s c f sk)
    exact hown.listChange hd.conn hl (by rw [howner]; rintro _ ⟨⟩)
  | @closeClient f sk hpc =>
    obtain ⟨hopen, hother⟩ := hd.main.refused f sk (congrArg MainPc.refused? hpc)
    refine .same (Kernel.entry_close_unlisted fun f' t hf' => ?_) fun t f c => Iff.rfl
    cases hf'
    cases he : s.kernel.entry t f with
    | none => rfl
    | some c =>
      obtain ⟨ho, hf⟩ := hl.sound t f c he
      have hlive : (s.owner c).live = true := by rw [ho]; rfl
      obtain ⟨f', hf', hopen'⟩ := hd.conn.live c hlive
      rw [hf] at hf'
      cases hf'
      rcases hopen with hn | hs
      · rw [hn] at hopen'; cases hopen'
      · rw [hs] at hopen'
        cases hopen'
        exact absurd rfl (hother c hlive)
  | closeListen | ioClose0 | ioClose1 =>
    exact .dropped (by rintro ⟨⟩) (fun t f c hc => Kernel.entry_of_close hc) fun t f c => Iff.rfl
  | destroyLoop =>
    refine .dropped (fun hr => ?_) (fun t f c hc => Kernel.entry_of_close hc) fun t f c => Iff.rfl
    simp only [State.Running, setMain_main, nextDestroy] at hr
    split_ifs at hr <;> exact hr.elim
  | @ioLoop t hpc =>
    refine .dropped (by rintro ⟨⟩) (fun t' f c hc => ?_) fun t f c => Iff.rfl
    obtain ⟨r, hr, hdata⟩ := Kernel.entry_eq_some.mp hc
    simp only [setMain_kernel, setKernel_kernel, Kernel.dropLoop_reg] at hr
    by_cases ht : t' = t
    · subst ht
      rw [Function.update_self] at hr
      cases hr
    · rw [Function.update_of_ne ht] at hr
      exact Kernel.entry_eq_some.mpr ⟨r, Kernel.reg_of_close hr, hdata⟩
  | @destroyTask task rest hpc hq =>
    obtain ⟨hk, hfd⟩ := release_quiet hd.conn (hc.lt_of_queue (by rw [hq]; exact .head _))
    exact .same (congrArg Kernel.entry hk) (registeredAs_update rfl (.inl ⟨rfl, hfd.fd⟩))
  | _ => exact .same rfl fun t f c => Iff.rfl

/-- The clients do not change the interest lists. -/
theorem EnvStep.listChange (h : EnvStep s s') : ListChange none s s' := by
  cases h with
  | arrive => exact .same rfl fun t f c => Iff.rfl
  | sock => exact .same (Kernel.entry_signal ..) fun t f c => Iff.rfl

/-- How the steps of the server change the interest lists. -/
theorem ServerStep.listChange (h : ServerStep cfg s s') (hi : Owned s) (hc : Counts s)
    (hd : Descriptors cfg s) (hl : Listed s) (hf : ∀ t, LoopFds s t) : ∃ o, ListChange o s s' := by
  cases h with
  | main h => exact ⟨none, h.listChange hi hc hd hl⟩
  | io t h => exact ⟨some t, h.listChange hi hc hd hl (hf t)⟩
  | worker w h => exact ⟨none, h.listChange hi hc hd⟩
  | env h => exact ⟨none, h.listChange⟩

/-! ### What the threads know -/

/-- A connection that stays registered keeps its descriptor. -/
theorem ListChange.fd_eq (h : ListChange o s s') (hi : Owned s) (hd : ConnFiles s') {c : ConnId}
    (ho : s.owner c = .registered t) (ho' : s'.owner c = .registered t) :
    (s'.conns c).fd = (s.conns c).fd := by
  obtain ⟨f, hf, -⟩ := hd.live c (by rw [ho']; rfl)
  have hreg : s'.RegisteredAs t f c := ⟨ho', hf⟩
  have hold : s.RegisteredAs t f c := by
    cases h with
    | same _ hr => exact (hr t f c).mp hreg
    | added t₀ f₀ c₀ _ hpc _ _ hr =>
      rcases (hr t f c).mp hreg with ⟨rfl, rfl, rfl⟩ | h
      · have hadopt := ((hi.io t).adopting c).mp (congrArg IoPc.role hpc)
        rw [ho] at hadopt
        cases hadopt
      · exact h
    | removed _ _ _ _ _ _ _ _ hr => exact ((hr t f c).mp hreg).1
    | dropped _ _ hr => exact (hr t f c).mp hreg
  rw [hf, hold.2]

@[simp] theorem loaded?_afterRead (x : EventContext) : (afterRead x).loaded? = some x := by
  unfold afterRead; split <;> rfl

@[simp] theorem loaded?_afterFd (x : EventContext) : (afterFd x).loaded? = some x := by
  unfold afterFd; split
  · rfl
  · exact loaded?_afterRead x

@[simp] theorem loaded?_afterCheck (k : CloseSite) (x : EventContext) :
    (afterCheck k x).loaded? = some x := by
  unfold afterCheck; split
  · exact loaded?_afterRead x
  · rfl

/-- A thread gets a descriptor by loading it, and keeps it until the event is done. -/
theorem IoMove.loaded {pc pc' : IoPc} (h : IoMove s t pc pc') {x : EventContext}
    (hx : pc'.loaded? = some x) : pc.loaded? = some x ∨ x.fd = (s.conns x.conn).fd := by
  cases h with
  | fdLoaded x₀ =>
    rw [loaded?_afterFd] at hx
    cases hx
    exact .inr rfl
  | stillValid k x₀ =>
    rw [loaded?_afterCheck] at hx
    exact .inl hx
  | stop | wait | returned | batchDone | pipeEmpty | addFailed | drained | msgValid | msgSkip
  | evValid | evInvalid | nowInvalid | noHangup => cases hx
  | _ => exact .inl hx

/-- A thread gets a descriptor by loading it, and keeps it until the event is done. -/
theorem IoStep.loaded (h : IoStep cfg s t s') {x : EventContext}
    (hx : (s'.io t).pc.loaded? = some x) (ho : s'.owner x.conn = .registered t) :
    (s.io t).pc.loaded? = some x ∨ (x.fd = (s.conns x.conn).fd ∧ s'.conns = s.conns) := by
  cases h with
  | move hm =>
    simp only [setIoPc_io, Function.update_self] at hx
    exact (hm.loaded hx).imp_right fun hfd => ⟨hfd, rfl⟩
  | @closeRelease k x₀ hpc =>
    simp only [releaseOwner, setIoPc_io, Function.update_self] at hx
    split at hx
    · cases hx
    · cases hx
      rw [State.owner, releaseOwner_conns, Function.update_self] at ho
      cases ho
  | @backToRead x₀ hpc =>
    simp only [State.backToRead, setIoPc_io, Function.update_self] at hx
    cases hx
    left
    rcases hpc with hpc | hpc <;> rw [hpc] <;> rfl
  | collectPipe hpc | collectMsg hpc | collectFd hpc =>
    simp only [setIo_io, Function.update_self] at hx
    rw [hpc] at hx
    cases hx
  | readData hpc | createTask hpc | createLeak hpc | submitLeak hpc | submit hpc | wrote hpc
  | reset hpc =>
    simp only [State.readData, wroteData, setIo_io, setIoPc_io, Function.update_self] at hx
    cases hx
    exact .inl (congrArg IoPc.loaded? hpc)
  | nextPipe | nextMsg | nextConn | readWake | readConn | adopt | register | reject
  | msgRead | drain | msgMod | msgRelease | closeMark | closeDel =>
    simp only [rejectConnection, State.markClosing, setIo_io, setIoPc_io,
      Function.update_self] at hx
    cases hx

/-- A thread gets to `event_loop_mod` for a message by finding its connection valid. -/
theorem IoStep.modding (h : IoStep cfg s t s') {msg : IoMessage}
    (hpc' : (s'.io t).pc = .msgMod msg) :
    (s.io t).pc = .msgCheck msg ∧ (s.conns msg.conn).isValid = true ∧ s'.conns = s.conns := by
  cases h with
  | move hm =>
    simp only [setIoPc_io, Function.update_self] at hpc'
    generalize hpc : (s.io t).pc = pc at hm
    subst hpc'
    generalize hpc' : IoPc.msgMod msg = pc' at hm
    cases hm with
    | msgValid msg' hv => cases hpc'; exact ⟨rfl, hv, rfl⟩
    | fdLoaded x =>
      have hx := congrArg IoPc.loaded? hpc'
      rw [loaded?_afterFd] at hx
      cases hx
    | stillValid k x =>
      have hx := congrArg IoPc.loaded? hpc'
      rw [loaded?_afterCheck] at hx
      cases hx
    | _ => cases hpc'
  | @closeRelease k x₀ hpc =>
    simp only [releaseOwner, setIoPc_io, Function.update_self] at hpc'
    split at hpc' <;> cases hpc'
  | collectPipe hpc | collectMsg hpc | collectFd hpc =>
    simp only [setIo_io, Function.update_self] at hpc'
    rw [hpc] at hpc'
    cases hpc'
  | _ =>
    simp only [rejectConnection, State.markClosing, State.backToRead, State.readData, wroteData,
      setIo_io, setIoPc_io, Function.update_self] at hpc'
    cases hpc'

/-- A thread gets to `event_loop_del` by closing the descriptor. -/
theorem IoStep.deleting (h : IoStep cfg s t s') {k : CloseSite} {x : EventContext} {fd : Option Fd}
    (hpc' : (s'.io t).pc = .closeDel k x fd) :
    (s.io t).pc = .closeMark k x ∧ s' = s.markClosing t k x ∧
      fd = if k = .hangup then x.fd else (s.conns x.conn).fd := by
  cases h with
  | move hm =>
    simp only [setIoPc_io, Function.update_self] at hpc'
    subst hpc'
    generalize hpc' : IoPc.closeDel k x fd = pc' at hm
    generalize (s.io t).pc = pc at hm
    cases hm with
    | fdLoaded x =>
      have hx := congrArg IoPc.loaded? hpc'
      rw [loaded?_afterFd] at hx
      cases hx
    | stillValid k x =>
      have hx := congrArg IoPc.loaded? hpc'
      rw [loaded?_afterCheck] at hx
      cases hx
    | _ => cases hpc'
  | @closeRelease k x₀ hpc =>
    simp only [releaseOwner, setIoPc_io, Function.update_self] at hpc'
    split at hpc' <;> cases hpc'
  | @closeMark k₀ x₀ hpc =>
    simp only [State.markClosing, setIoPc_io, Function.update_self] at hpc'
    cases hpc'
    exact ⟨hpc, rfl, rfl⟩
  | collectPipe hpc | collectMsg hpc | collectFd hpc =>
    simp only [setIo_io, Function.update_self] at hpc'
    rw [hpc] at hpc'
    cases hpc'
  | _ =>
    simp only [rejectConnection, State.backToRead, State.readData, wroteData, setIo_io, setIoPc_io,
      Function.update_self] at hpc'
    cases hpc'

/-- A thread's own steps keep what it knows about its descriptors. -/
theorem IoStep.loopFds (h : IoStep cfg s t s') (hi : Owned s) (hd : Descriptors cfg s)
    (hd' : Descriptors cfg s') (hch : ListChange o s s') (hf : LoopFds s t) : LoopFds s' t := by
  refine ⟨fun msg hpc' => ?_, fun x hx ho' => ?_, fun k x f hpc' => ?_⟩
  · obtain ⟨hpc, hv, hs⟩ := h.modding hpc'
    have hl := (hi.message t msg (.inr (congrArg IoPc.message? hpc))).2
    rw [State.owner, hs]
    exact registered_of_valid hi hl hv
  · rcases h.loaded hx ho' with hx | ⟨hfd, hs⟩
    · have ho : s.owner x.conn = .registered t := by
        rcases h.owner (hi.io t) x.conn with ho | ho
        · rw [← ho, ho']
        · -- the thread cannot have adopted the connection whose event it treats
          rw [ho'] at ho
          generalize heq : s.owner x.conn = o at ho
          cases ho
          rw [← (hi.io t).adopting] at heq
          generalize (s.io t).pc = pc at hx heq
          cases pc <;> cases hx <;> cases heq
      rw [hch.fd_eq hi hd'.conn ho ho']
      exact hf.loaded x hx ho
    · rw [hs, hfd]
  · obtain ⟨hpc, rfl, hfd⟩ := h.deleting hpc'
    have howner : s.owner x.conn = .registered t := (hi.io t).active x.conn (congrArg IoPc.role hpc)
    have hx := hf.loaded x (congrArg IoPc.loaded? hpc) howner
    have hown : (s.conns x.conn).fd = some f := by
      rw [hfd]
      split
      · exact hx.symm
      · rfl
    rw [entry_markClosing hi hd.conn hpc hown, if_pos rfl]

/-- The others do not disturb what a thread knows about its descriptors. -/
theorem LoopFds.other (hf : LoopFds s t) (hi : Owned s) (hd' : ConnFiles s')
    (hch : ListChange o s s') (hpc : (s'.io t).pc = (s.io t).pc)
    (ho : ∀ c, s'.owner c = .registered t ↔ s.owner c = .registered t) : LoopFds s' t := by
  refine ⟨fun msg hpc' => ?_, fun x hx ho' => ?_, fun k x f hpc' => ?_⟩
  · rw [hpc] at hpc'
    exact (ho msg.conn).mpr (hf.message msg hpc')
  · rw [hpc] at hx
    have ho₀ := (ho x.conn).mp ho'
    rw [hch.fd_eq hi hd' ho₀ ho']
    exact hf.loaded x hx ho₀
  · rw [hpc] at hpc'
    have hnone := hf.deleted k x f hpc'
    cases hch with
    | same he hr => rw [he, hnone]
    | added t₀ f₀ c₀ _ hpc₀ _ he _ =>
      -- a thread that registers a connection is not about to deregister one
      have ht : t ≠ t₀ := by
        rintro rfl
        rw [hpc₀] at hpc'
        cases hpc'
      rw [he, if_neg fun h => ht h.1, hnone]
    | removed _ _ _ _ _ _ _ he _ => rw [he, hnone, ite_self]
    | dropped _ he _ =>
      cases hc : s'.kernel.entry t f with
      | none => rfl
      | some c => rw [he t f c hc] at hnone; cases hnone

/-- The interest lists are in order in every reachable state. -/
theorem reachable_listed (h : (server m cfg).Reachable s) : Listed s ∧ ∀ t, LoopFds s t := by
  refine TransitionSystem.Reachable.invariant (I := fun s => Listed s ∧ ∀ t, LoopFds s t) ?_ ?_ h
  · rintro _ rfl
    exact ⟨⟨nofun, fun _ t f c hc => by cases hc.1⟩, fun t => ⟨nofun, nofun, nofun⟩⟩
  · intro s a s' hr ⟨hl, hf⟩ hs
    have hstep := step_spec hs
    have hi := reachable_owned hr
    have hd := reachable_descriptors hr
    have hd' := reachable_descriptors (hr.next hs)
    obtain ⟨o, hch⟩ := hstep.listChange hi (reachable_counts hr) hd hl hf
    refine ⟨hl.change hch hstep.running, fun t => ?_⟩
    rcases hstep.own_or_other hi t with h | ⟨hpc, -, ho⟩
    · exact h.loopFds hi hd hd' hch (hf t)
    · exact (hf t).other hi hd'.conn hch hpc ho

end steps

end DeepInIo.AdvancedServer
