import DeepInIo.AdvancedServer.Responsiveness
import DeepInIo.AdvancedServer.WriteBuffer

/-!
# Short writes are resumed

After a response was installed, the calls of `handle_write` send it, whatever `write` returns to
them.  As long as no other response is installed, the send buffer carries the response (`Sending`),
and during a call the thread's counter and the stream of the connection grow together (`WriteCall`).
A call ends in one of three ways (`WriteOutcome`).
-/

namespace DeepInIo.AdvancedServer

open State

variable {n m : ℕ}

/-- The thread is in a call of `handle_write` for the connection. -/
def IoPc.inWrite (c : ConnId) : IoPc → Bool
  | .wrEntry x | .wrIdle x | .wrLoop x | .wrFinal x | .wrReset x | .wrMod x
  | .closeMark .write x | .closeDel .write x _ | .closeRelease .write x => x.conn = c
  | _ => false

namespace State

/-- The step installs a response for the connection. -/
def installs (s : State n m) (c : ConnId) : Action n m → Bool
  | .worker w _ =>
    match s.worker w with
    | .install task => responseFits task.data && decide (task.conn = c)
    | _ => false
  | _ => false

/-- The entries of the connection in the interest list of `t` have the mask; while the server runs,
there is one. -/
def HasInterest (s : State n m) (t : Fin n) (c : ConnId) (mask : EventMask) : Prop :=
  (∀ f r, s.kernel.reg t f = some r → r.data = c → r.mask = mask) ∧
    (s.Running → ∃ f r, s.kernel.reg t f = some r ∧ r.data = c)

/-- The entries of the connection in the interest list of `t` have kept their masks. -/
def SameInterest (s s' : State n m) (t : Fin n) (c : ConnId) : Prop :=
  ∀ f r', s'.kernel.reg t f = some r' → r'.data = c →
    ∃ r, s.kernel.reg t f = some r ∧ r.data = c ∧ r.mask = r'.mask

end State

/-- In the step, `write` returns `r` to `handle_write`. -/
def WriteReturns (t : Fin n) (x : EventContext) (r : IoResult) (p : State n m × Action n m) :
    Prop :=
  (p.1.io t).pc = .wrLoop x ∧ p.2 = .io t r

/-- How a call of `handle_write` with the steps `tr` from `s` to `s'` ends, when `len` is the length
of the response and `k` the number of its bytes that were written. -/
inductive WriteOutcome (s s' : State n m) (t : Fin n) (x : EventContext)
    (tr : List (State n m × Action n m)) (len k : ℕ) : Prop
  | complete (hk : k = len) (hpos : (s'.conns x.conn).writePos = 0)
      (hsize : (s'.conns x.conn).writeSize = 0) (hmask : s'.HasInterest t x.conn .readEt)
  | blocked (hagain : ∃ p ∈ tr, WriteReturns t x .again p) (hlt : k < len)
      (hpos : (s'.conns x.conn).writePos = k) (hsize : (s'.conns x.conn).writeSize = len)
      (hmask : SameInterest s s' t x.conn)
  | closed (herr : ∃ p ∈ tr, WriteReturns t x .err p) (hflag : (s'.conns x.conn).closing = true)
      (hrel : TransitionSystem.OnceIn (fun s a => State.releasesOwner s x.conn a) tr)
      (howner : s'.owner x.conn = .released t)

/-! ### The response in the buffer -/

/-- The buffer of the connection carries the response since the stream was `base`, and nobody
empties it too early. -/
structure Sending (c : ConnId) (msg base : List UInt8) (s : State n m) : Prop where
  carries : OutBuffer.Carries msg base (s.sendBuffer c)
  emptied : ∀ t x, (s.io t).pc = .wrReset x → x.conn = c →
    (s.conns c).writeSize ≤ (s.conns c).writePos

section sending

variable {cfg : Config n} {s s' : State n m} {c : ConnId} {msg base : List UInt8}

/-- A step that installs nothing for the connection does at most a write or the reset to its
buffer. -/
theorem Sending.step (h : Sending c msg base s) (hi : Owned s) (hd : ConnFiles s) {a : Action n m}
    (hs : (server m cfg).step s a = some s') (hb : s.owner c ≠ .unborn)
    (ha : s.installs c a = false) :
    Sending c msg base s' := by
  have hch := step_bufferChange hi hd hs hb
  refine ⟨?_, fun t x hpc hc => ?_⟩
  · cases hch with
    | same hbuf hw =>
      rw [sendBuffer_eq hbuf hw]
      exact h.carries
    | install w ok task hpc hf hc hs' => simp [State.installs, hpc, hf, hc] at ha
    | wrote t r x len room hpc hc hlen hs' =>
      subst hc hs'
      rw [sendBuffer_wrote]
      exact h.carries.write (hlen.trans (Conn.length_unsent_le _))
    | reset t r x hpc hc hs' =>
      subst hc hs'
      rw [sendBuffer_reset]
      exact h.carries.reset (h.emptied t x hpc rfl)
  · -- A thread about to empty the buffer has just looked at it, or was there before.
    subst hc
    rcases (step_spec hs).own_or_other hi t with hown | ⟨hsame, -, -⟩
    · obtain ⟨-, hle, hconns⟩ := hown.resetting hpc
      rw [hconns]
      exact hle
    · rw [hsame] at hpc
      have howner := (hi.io t).active x.conn (congrArg IoPc.role hpc)
      have hle := h.emptied t x hpc rfl
      cases hch with
      | same hbuf _ =>
        rw [hbuf.size, hbuf.pos]
        exact hle
      | install w ok task hpcw hf hc hs' => simp [State.installs, hpcw, hf, hc] at ha
      | wrote t₀ r x₀ len room hpc₀ hc₀ hlen hs' =>
        have howner₀ := (hi.io t₀).active x₀.conn (congrArg IoPc.role hpc₀)
        rw [hc₀, howner] at howner₀
        cases howner₀
        rw [hpc] at hpc₀
        cases hpc₀
      | reset t₀ r x₀ hpc₀ hc₀ hs' =>
        subst hs'
        rw [setIoPc_conns, setConn_conns, hc₀, Function.update_self]
        exact le_rfl

/-- Installing a response while nobody is about to empty the buffer starts its sending. -/
theorem sending_install {task : Task} {w : Fin m} (hf : responseFits task.data = true)
    (hidle : ∀ t, (s.io t).pc.resetting task.conn = false) :
    Sending task.conn (response task.data) (s.sendBuffer task.conn).sent
      ((s.setConn task.conn ((s.conns task.conn).install task.data)).setWorker w
        (.sendTest task)) := by
  refine ⟨?_, fun t x hpc hc => ?_⟩
  · rw [sendBuffer_install w hf]
    exact OutBuffer.carries_put (s.sendBuffer task.conn) (response task.data)
  · have hno := hidle t
    have hpc₀ : (s.io t).pc = .wrReset x := hpc
    rw [hpc₀] at hno
    simp [IoPc.resetting, hc] at hno

end sending

/-! ### What the others do during a call -/

/-- Everything of a connection that a call of `handle_write` works on is as it was. -/
structure Undisturbed (s s' : State n m) (t : Fin n) (c : ConnId) : Prop where
  pc : (s'.io t).pc = (s.io t).pc
  bytesWritten : (s'.io t).bytesWritten = (s.io t).bytesWritten
  buffer : s'.sendBuffer c = s.sendBuffer c
  interest : SameInterest s s' t c

section others

variable {cfg : Config n} {s s' : State n m} {t : Fin n} {c : ConnId}

/-- Masks that were kept twice. -/
theorem State.SameInterest.trans {s'' : State n m} (h : SameInterest s s' t c)
    (h' : SameInterest s' s'' t c) :
    SameInterest s s'' t c := by
  intro f r'' hr'' hc
  obtain ⟨r', hr', hd, hm⟩ := h' f r'' hr'' hc
  obtain ⟨r, hr, hd', hm'⟩ := h f r' hr' hd
  exact ⟨r, hr, hd', hm'.trans hm⟩

/-- Entries that were there before. -/
theorem sameInterest_of_reg (h : ∀ f r, s'.kernel.reg t f = some r → s.kernel.reg t f = some r) :
    SameInterest s s' t c :=
  fun f r hr hc => ⟨r, h f r hr, hc, rfl⟩

/-- An IO thread counts its own bytes only, and nobody else counts them. -/
theorem bytesWritten_eq {a : Action n m} (hs : (server m cfg).step s a = some s')
    (ha : ∀ r, a ≠ .io t r) : (s'.io t).bytesWritten = (s.io t).bytesWritten := by
  have hupdate : ∀ {t₀ : Fin n} {th : IoThread}, th.bytesWritten = (s.io t₀).bytesWritten →
      (Function.update s.io t₀ th t).bytesWritten = (s.io t).bytesWritten := by
    intro t₀ th hth
    by_cases ht : t = t₀
    · subst ht
      simpa using hth
    · simp [ht]
  cases a with
  | io t₀ r =>
    have ht : t ≠ t₀ := by
      rintro rfl
      exact ha r rfl
    rw [(ioStep_spec hs).io_ne ht]
  | main r =>
    cases mainStep_spec hs with
    | handOff | ioFlag | ioWake | ioFree => exact hupdate rfl
    | _ => rfl
  | worker w ok =>
    cases workerStep_spec hs with
    | link | notify => exact hupdate rfl
    | _ => rfl
  | env e => cases envStep_spec hs <;> rfl

/-- The other threads and the clients leave alone what a call works on, unless a worker installs a
response. -/
theorem undisturbed (hi : Owned s) (hd : ConnFiles s) {a : Action n m}
    (hs : (server m cfg).step s a = some s') (ha : ∀ r, a ≠ .io t r) (hno : s.installs c a = false)
    (howner : s.owner c = .registered t ∨ s.owner c = .closing t) : Undisturbed s s' t c := by
  have hb : s.owner c ≠ .unborn := by
    rcases howner with h | h <;> rw [h] <;> rintro ⟨⟩
  have hbuffer : s'.sendBuffer c = s.sendBuffer c := by
    -- only the thread that owns the connection writes from its buffer
    have hactive : ∀ {t₀ : Fin n} {r : IoResult} {x : EventContext}, a = .io t₀ r →
        (s.io t₀).pc.role = .active x.conn → x.conn ≠ c := by
      intro t₀ r x h₀ hrole hc
      have howner₀ := (hi.io t₀).active x.conn hrole
      rw [hc] at howner₀
      rcases howner with h | h <;> rw [h] at howner₀ <;> cases howner₀
      exact ha r h₀
    generalize heq : a = a₀ at hs
    cases step_bufferChange hi hd hs hb with
    | same hbuf hw => exact sendBuffer_eq hbuf hw
    | install w ok task hpc hf hc hs' => simp [State.installs, heq, hpc, hf, hc] at hno
    | wrote t₀ r x len room hpc hc hlen hs' =>
      exact absurd hc (hactive heq (congrArg IoPc.role hpc))
    | reset t₀ r x hpc hc hs' => exact absurd hc (hactive heq (congrArg IoPc.role hpc))
  refine ⟨?_, bytesWritten_eq hs ha, hbuffer, ?_⟩
  · cases a with
    | io t₀ r =>
      have ht : t ≠ t₀ := by
        rintro rfl
        exact ha r rfl
      rw [(ioStep_spec hs).io_ne ht]
    | main r => exact ((mainStep_spec hs).io_eq t).1
    | worker w ok => exact ((workerStep_spec hs).io_eq t).2.1
    | env e => cases envStep_spec hs <;> rfl
  · cases a with
    | io t₀ r =>
      have ht : t ≠ t₀ := by
        rintro rfl
        exact ha r rfl
      exact sameInterest_of_reg fun f r hr => (ioStep_spec hs).reg_other ht hr
    | main r => exact sameInterest_of_reg fun f r hr => (mainStep_spec hs).listed hr
    | worker w ok => exact sameInterest_of_reg fun f r hr => (workerStep_spec hs).listed hr
    | env e =>
      intro f r' hr' hc
      obtain ⟨r, hr, hdata, hmask⟩ := (envStep_spec hs).listed hr'
      exact ⟨r, hr, hdata.trans hc, hmask⟩

end others

/-! ### One call -/

/-- What a call of `handle_write` that began in `s` has found out at its program point in `s'`. -/
inductive CallStage (s s' : State n m) (t : Fin n) (x : EventContext)
    (tr : List (State n m × Action n m)) :
    IoPc → Prop
  | entry (hmask : SameInterest s s' t x.conn) : CallStage s s' t x tr (.wrEntry x)
  | idle (hsize : (s'.sendBuffer x.conn).size = 0) : CallStage s s' t x tr (.wrIdle x)
  | loop (hmask : SameInterest s s' t x.conn) : CallStage s s' t x tr (.wrLoop x)
  | final (hmask : SameInterest s s' t x.conn)
      (hend : (s'.sendBuffer x.conn).pos < (s'.sendBuffer x.conn).size →
        ∃ p ∈ tr, WriteReturns t x .again p) :
      CallStage s s' t x tr (.wrFinal x)
  | reset : CallStage s s' t x tr (.wrReset x)
  | mod (hsize : (s'.sendBuffer x.conn).size = 0) : CallStage s s' t x tr (.wrMod x)
  | mark (herr : ∃ p ∈ tr, WriteReturns t x .err p) : CallStage s s' t x tr (.closeMark .write x)
  | del (fd : Option Fd) (herr : ∃ p ∈ tr, WriteReturns t x .err p) :
      CallStage s s' t x tr (.closeDel .write x fd)
  | release (herr : ∃ p ∈ tr, WriteReturns t x .err p) :
      CallStage s s' t x tr (.closeRelease .write x)
  | complete (hsize : (s'.sendBuffer x.conn).size = 0) (hmask : s'.HasInterest t x.conn .readEt) :
      CallStage s s' t x tr (.recheck .write x)
  | blocked (hagain : ∃ p ∈ tr, WriteReturns t x .again p)
      (hlt : (s'.sendBuffer x.conn).pos < (s'.sendBuffer x.conn).size)
      (hmask : SameInterest s s' t x.conn) :
      CallStage s s' t x tr (.recheck .write x)
  | closed (herr : ∃ p ∈ tr, WriteReturns t x .err p) (hflag : (s'.conns x.conn).closing = true)
      (hrel : TransitionSystem.OnceIn (fun s a => State.releasesOwner s x.conn a) tr)
      (howner : s'.owner x.conn = .released t) : CallStage s s' t x tr (.recheck .write x)

/-- Every byte that the socket of the connection has taken since `s` was counted by the thread. -/
def CountedSince (s s' : State n m) (t : Fin n) (c : ConnId) : Prop :=
  ∃ bytes, (s'.sendBuffer c).sent = (s.sendBuffer c).sent ++ bytes ∧
    (s'.io t).bytesWritten = (s.io t).bytesWritten + bytes.length

/-- A call of `handle_write` that began in `s`, after the steps `tr`: every byte that the socket
took was counted, and the owner reference is held while the call goes on. -/
structure WriteCall (s : State n m) (t : Fin n) (x : EventContext)
    (tr : List (State n m × Action n m)) (s' : State n m) : Prop where
  counted : CountedSince s s' t x.conn
  held : (s'.io t).pc.inWrite x.conn = true → ∀ p ∈ tr, ¬State.releasesOwner p.1 x.conn p.2
  stage : CallStage s s' t x tr (s'.io t).pc

section call

variable {cfg : Config n} {s₀ s s' : State n m} {t : Fin n} {x : EventContext}
  {tr : List (State n m × Action n m)}

/-- A thread in a call holds the owner reference. -/
theorem owner_of_inWrite (hi : Owned s) {c : ConnId} (h : (s.io t).pc.inWrite c = true) :
    s.owner c = .registered t ∨ s.owner c = .closing t := by
  have hactive : ∀ c', (s.io t).pc.role = .active c' → c' = c → s.owner c = .registered t := by
    rintro c' hr rfl
    exact (hi.io t).active c' hr
  have hclosing : ∀ c', (s.io t).pc.role = .closing c' → c' = c → s.owner c = .closing t := by
    rintro c' hr rfl
    exact ((hi.io t).closing c').mp hr
  cases hpc : (s.io t).pc with
  | wrEntry x | wrIdle x | wrLoop x | wrFinal x | wrReset x | wrMod x =>
    rw [hpc] at h
    exact .inl (hactive x.conn (congrArg IoPc.role hpc) (of_decide_eq_true h))
  | closeMark k x =>
    rw [hpc] at h
    cases k with
    | write => exact .inl (hactive x.conn (congrArg IoPc.role hpc) (of_decide_eq_true h))
    | _ => cases h
  | closeDel k x | closeRelease k x =>
    rw [hpc] at h
    cases k with
    | write => exact .inr (hclosing x.conn (congrArg IoPc.role hpc) (of_decide_eq_true h))
    | _ => cases h
  | _ =>
    rw [hpc] at h
    cases h

/-- A step after which a thread is in a call does not release the owner reference. -/
theorem not_releasesOwner (hi : Owned s) (hi' : Owned s') {a : Action n m}
    (hs : (server m cfg).step s a = some s') {c : ConnId} (h : (s'.io t).pc.inWrite c = true) :
    ¬s.releasesOwner c a := by
  intro hrel
  obtain ⟨-, hzero, -⟩ := releasesOwner_spec hi hs hrel
  rcases owner_of_inWrite hi' h with ho | ho <;> rw [ownerRefs, ho] at hzero <;> cases hzero

/-- A call that has just begun. -/
theorem writeCall_entry (hpc : (s.io t).pc = .wrEntry x) : WriteCall s t x [] s := by
  refine ⟨⟨[], (List.append_nil _).symm, rfl⟩, fun _ _ hp => absurd hp List.not_mem_nil, ?_⟩
  rw [hpc]
  exact .entry (sameInterest_of_reg fun _ _ h => h)

/-- A return of `write` stays in the trace. -/
theorem writeReturns_snoc {r : IoResult} (p : State n m × Action n m)
    (h : ∃ p ∈ tr, WriteReturns t x r p) : ∃ q ∈ tr ++ [p], WriteReturns t x r q := by
  obtain ⟨q, hq, hr⟩ := h
  exact ⟨q, List.mem_append_left _ hq, hr⟩

/-- A return of `write` in the last step. -/
theorem writeReturns_last {r : IoResult} (hpc : (s.io t).pc = .wrLoop x) :
    ∃ q ∈ tr ++ [(s, .io t r)], WriteReturns t x r q :=
  ⟨(s, .io t r), List.mem_append_right _ (List.mem_singleton.mpr rfl), hpc, rfl⟩

/-- What the others do leaves a call at its stage. -/
theorem CallStage.other (h : CallStage s₀ s t x tr (s.io t).pc) (hu : Undisturbed s s' t x.conn)
    (hin : (s.io t).pc.inWrite x.conn = true) (p : State n m × Action n m) :
    CallStage s₀ s' t x (tr ++ [p]) (s'.io t).pc := by
  rw [hu.pc]
  generalize (s.io t).pc = pc at h hin
  cases h with
  | entry hmask => exact .entry (hmask.trans hu.interest)
  | idle hsize => exact .idle (by rw [hu.buffer, hsize])
  | loop hmask => exact .loop (hmask.trans hu.interest)
  | final hmask hend =>
    refine .final (hmask.trans hu.interest) fun hlt => ?_
    rw [hu.buffer] at hlt
    exact writeReturns_snoc p (hend hlt)
  | reset => exact .reset
  | mod hsize => exact .mod (by rw [hu.buffer, hsize])
  | mark herr => exact .mark (writeReturns_snoc p herr)
  | del fd herr => exact .del fd (writeReturns_snoc p herr)
  | release herr => exact .release (writeReturns_snoc p herr)
  | complete | blocked | closed => cases hin

/-- A step without `write`. -/
theorem CountedSince.congr {c : ConnId} (h : CountedSince s₀ s t c)
    (hsent : (s'.sendBuffer c).sent = (s.sendBuffer c).sent)
    (hbytes : (s'.io t).bytesWritten = (s.io t).bytesWritten) : CountedSince s₀ s' t c := by
  rw [CountedSince, hsent, hbytes]
  exact h

/-- The move of a thread within a call. -/
theorem CountedSince.setIoPc {c : ConnId} (h : CountedSince s₀ s t c) (pc : IoPc) :
    CountedSince s₀ (s.setIoPc t pc) t c :=
  h.congr rfl (by rw [setIoPc_io, Function.update_self])

/-- Back to read mode, the entries of the connection have the mask for reading. -/
theorem hasInterest_backToRead (hd : ConnFiles s) (hl : Listed s) (hd' : ConnFiles s')
    (hl' : Listed s') (hs : s' = s.backToRead t x) (ho : s'.owner x.conn = .registered t) :
    s'.HasInterest t x.conn .readEt := by
  refine ⟨fun f r hr hc => ?_, fun hrun => ?_⟩
  · have hmod : (s.kernel.eventLoopMod t (s.conns x.conn).fd .readEt x.conn).reg t f = some r := by
      rw [hs] at hr
      exact hr
    rcases hl.reg_mod hd hmod with ⟨-, hne⟩ | ⟨r₀, -, -, rfl⟩
    · exact absurd hc hne
    · rfl
  · obtain ⟨f, hf, -⟩ := hd'.live x.conn (by rw [ho]; rfl)
    obtain ⟨r, hr, hdata⟩ := Kernel.entry_eq_some.mp (hl'.complete hrun t f x.conn ⟨ho, hf⟩)
    exact ⟨f, r, hr, hdata⟩

/-- The step that ends a call by going back to read mode. -/
theorem backToRead_spec (hi : Owned s) (hd : ConnFiles s) (hl : Listed s) (hd' : ConnFiles s')
    (hl' : Listed s') (hcount : CountedSince s₀ s t x.conn) (hs : s' = s.backToRead t x)
    (hrole : (s.io t).pc.role = .active x.conn) (hsize : (s.sendBuffer x.conn).size = 0)
    (p : State n m × Action n m) :
    CountedSince s₀ s' t x.conn ∧ CallStage s₀ s' t x (tr ++ [p]) (s'.io t).pc := by
  have howner : s'.owner x.conn = .registered t := by
    rw [hs, State.owner, backToRead, setIoPc_conns, setConn_conns, Function.update_self]
    exact (hi.io t).active x.conn hrole
  have hbuf : s'.sendBuffer x.conn = s.sendBuffer x.conn := by
    refine sendBuffer_eq ?_ ?_
    · rw [hs, backToRead, setIoPc_conns, setConn_conns, Function.update_self]
      exact ⟨rfl, rfl, rfl, rfl, rfl⟩
    · rw [hs]
      exact congrArg (fun f => (f (s.conns x.conn).sock).written) (socks_eventLoopMod ..)
  have hpc : (s'.io t).pc = .recheck .write x := by
    rw [hs, backToRead, setIoPc_io, Function.update_self]
  have hbytes : (s'.io t).bytesWritten = (s.io t).bytesWritten := by
    rw [hs, backToRead, setIoPc_io, Function.update_self]
    rfl
  refine ⟨hcount.congr (by rw [hbuf]) hbytes, ?_⟩
  rw [hpc]
  exact .complete (by rw [hbuf, hsize]) (hasInterest_backToRead hd hl hd' hl' hs howner)

/-- The steps of the calling thread. -/
theorem WriteCall.own (h : WriteCall s₀ t x tr s) (hi : Owned s) (hd : ConnFiles s) (hl : Listed s)
    (hi' : Owned s') (hd' : ConnFiles s') (hl' : Listed s') {r : IoResult}
    (hs : s.ioStep cfg t r = some s') (hin : (s.io t).pc.inWrite x.conn = true) :
    CountedSince s₀ s' t x.conn ∧ CallStage s₀ s' t x (tr ++ [(s, .io t r)]) (s'.io t).pc := by
  have hcount := h.counted
  have hstage := h.stage
  generalize hpc : (s.io t).pc = pc at hstage
  have hmove : ∀ pc' : IoPc, ((s.setIoPc t pc').io t).pc = pc' := fun pc' => by
    rw [setIoPc_io, Function.update_self]
  let written (sk : SockId) (socks : SockId → Sock) : List UInt8 := (socks sk).written
  cases hstage with
  | entry hmask =>
    simp only [ioStep, hpc, Option.some.injEq] at hs
    subst hs
    refine ⟨hcount.setIoPc _, ?_⟩
    rw [hmove]
    split
    · next hsize => exact .idle hsize
    · exact .loop hmask
  | idle hsize =>
    simp only [ioStep, hpc, Option.some.injEq] at hs
    exact backToRead_spec hi hd hl hd' hl' hcount hs.symm (congrArg IoPc.role hpc) hsize _
  | loop hmask =>
    simp only [ioStep, hpc] at hs
    split at hs
    · next hlt =>
      cases r <;> simp only [writeStep, reduceCtorEq] at hs
      case wrote len room =>
        obtain ⟨k, hk, rfl⟩ := Option.map_eq_some_iff.mp hs
        obtain ⟨sk, hsk, -, hlen, -, rfl⟩ := Kernel.writeBytes_eq hk
        rw [sockAt_active hi hd (congrArg IoPc.role hpc)] at hsk
        cases hsk
        obtain ⟨bytes, hsent, hbytes⟩ := hcount
        refine ⟨⟨bytes ++ (s.conns x.conn).unsent.take len, ?_, ?_⟩, ?_⟩
        · rw [sendBuffer_wrote, hsent, List.append_assoc]
          rfl
        · rw [wroteData, setIo_io, Function.update_self, List.length_append, List.length_take,
            Nat.min_eq_left hlen, ← Nat.add_assoc, ← hbytes]
        · rw [wroteData, setIo_io, Function.update_self]
          exact .loop hmask
      case again =>
        split at hs <;> cases hs
        refine ⟨hcount.setIoPc _, ?_⟩
        rw [hmove]
        exact .final hmask fun _ => writeReturns_last hpc
      case err =>
        cases hs
        refine ⟨hcount.setIoPc _, ?_⟩
        rw [hmove]
        exact .mark (writeReturns_last hpc)
    · next hlt =>
      cases hs
      refine ⟨hcount.setIoPc _, ?_⟩
      rw [hmove]
      exact .final hmask fun hlt' => absurd hlt' hlt
  | final hmask hend =>
    simp only [ioStep, hpc, Option.some.injEq] at hs
    subst hs
    refine ⟨hcount.setIoPc _, ?_⟩
    rw [hmove]
    split
    · exact .reset
    · next hlt =>
      have hlt' : (s.sendBuffer x.conn).pos < (s.sendBuffer x.conn).size := not_le.mp hlt
      exact .blocked (writeReturns_snoc _ (hend hlt')) hlt' hmask
  | reset =>
    simp only [ioStep, hpc, Option.some.injEq] at hs
    subst hs
    have hbuf := sendBuffer_reset (s := s) t x
    refine ⟨hcount.congr (by rw [hbuf]) (by rw [setIoPc_io, Function.update_self]; rfl), ?_⟩
    rw [setIoPc_io, Function.update_self]
    exact .mod (by rw [hbuf])
  | mod hsize =>
    simp only [ioStep, hpc, Option.some.injEq] at hs
    exact backToRead_spec hi hd hl hd' hl' hcount hs.symm (congrArg IoPc.role hpc) hsize _
  | mark herr =>
    simp only [ioStep, hpc, Option.some.injEq] at hs
    subst hs
    have hbuf : (s.markClosing t .write x).sendBuffer x.conn = s.sendBuffer x.conn := by
      refine sendBuffer_eq ?_
        (congrArg (written (s.conns x.conn).sock) (socks_connMarkClosing s x.conn))
      rw [markClosing_conns, Function.update_self]
      exact ⟨rfl, rfl, rfl, rfl, rfl⟩
    refine ⟨hcount.congr (by rw [hbuf]) ?_, ?_⟩
    · rw [State.markClosing, setIoPc_io, Function.update_self]
      rfl
    · rw [State.markClosing, setIoPc_io, Function.update_self]
      exact .del _ (writeReturns_snoc _ herr)
  | del fd herr =>
    simp only [ioStep, hpc, Option.some.injEq] at hs
    subst hs
    refine ⟨hcount.congr ?_ ?_, ?_⟩
    · exact congrArg (fun f => (f (s.conns x.conn).sock).written) (socks_eventLoopDel ..)
    · rw [setIoPc_io, Function.update_self]
      rfl
    · rw [setIoPc_io, Function.update_self]
      exact .release (writeReturns_snoc _ herr)
  | release herr =>
    simp only [ioStep, hpc, Option.some.injEq] at hs
    subst hs
    have hbuf : (s.releaseOwner t .write x).sendBuffer x.conn = s.sendBuffer x.conn := by
      refine sendBuffer_eq ?_
        (congrArg (written (s.conns x.conn).sock) (socks_connRelease s x.conn))
      rw [releaseOwner_conns, Function.update_self]
      exact ⟨rfl, rfl, rfl, rfl, rfl⟩
    have howner : (s.releaseOwner t .write x).owner x.conn = .released t := by
      rw [State.owner, releaseOwner_conns, Function.update_self]
      rfl
    refine ⟨hcount.congr (by rw [hbuf]) ?_, ?_⟩
    · rw [releaseOwner, setIoPc_io, Function.update_self]
      rfl
    · have hflag := (hi'.conn x.conn).flag
      rw [State.owner] at howner
      rw [howner] at hflag
      rw [releaseOwner, setIoPc_io, Function.update_self]
      refine .closed (writeReturns_snoc _ herr) hflag ?_ howner
      exact TransitionSystem.onceIn_snoc (h.held hin) (.inr ⟨.write, x, hpc, rfl⟩)
  | complete | blocked | closed =>
    rw [hpc] at hin
    cases hin

/-- Every step that installs nothing for the connection goes on with the call. -/
theorem WriteCall.step (h : WriteCall s₀ t x tr s) (hr : (server m cfg).Reachable s)
    {a : Action n m} (hs : (server m cfg).step s a = some s') (hno : s.installs x.conn a = false)
    (hin : (s.io t).pc.inWrite x.conn = true) : WriteCall s₀ t x (tr ++ [(s, a)]) s' := by
  have hi := reachable_owned hr
  have hd := (reachable_descriptors hr).conn
  have hi' := reachable_owned (hr.next hs)
  have hheld : (s'.io t).pc.inWrite x.conn = true →
      ∀ p ∈ tr ++ [(s, a)], ¬State.releasesOwner p.1 x.conn p.2 := by
    intro hin' p hp
    rcases List.mem_append.mp hp with hp | hp
    · exact h.held hin p hp
    · rw [List.mem_singleton.mp hp]
      exact not_releasesOwner hi hi' hs hin'
  by_cases hown : ∃ r, a = .io t r
  · obtain ⟨r, rfl⟩ := hown
    obtain ⟨hcount, hstage⟩ :=
      h.own hi hd (reachable_listed hr).1 hi' (reachable_descriptors (hr.next hs)).conn
        (reachable_listed (hr.next hs)).1 hs hin
    exact ⟨hcount, hheld, hstage⟩
  · have hu := undisturbed hi hd hs (fun r hr => hown ⟨r, hr⟩) hno (owner_of_inWrite hi hin)
    exact ⟨h.counted.congr (by rw [hu.buffer]) hu.bytesWritten, hheld, h.stage.other hu hin _⟩

end call

/-! ### All calls -/

section calls

variable {cfg : Config n} {s₀ s₁ s s' : State n m} {c : ConnId} {msg base : List UInt8}

/-- An accepted connection is not unborn. -/
theorem State.Adopted.ne_unborn (h : s.Adopted c) : s.owner c ≠ .unborn := by
  obtain ⟨t, ht⟩ := h
  intro hu
  rw [hu] at ht
  cases ht

/-- A connection stays accepted. -/
theorem State.Adopted.step (h : s.Adopted c) (hi : Owned s) {a : Action n m}
    (hs : (server m cfg).step s a = some s') : s'.Adopted c := by
  obtain ⟨t, ht⟩ := h
  rcases (step_spec hs).owner hi c with ho | ho
  · exact ⟨t, by rw [ho, ht]⟩
  · exact ⟨t, ho.loop_mono ht⟩

/-- A run that installs nothing for a connection goes on sending its response. -/
theorem Sending.trace {tr : List (State n m × Action n m)} (h : Sending c msg base s)
    (hr : (server m cfg).Reachable s) (hc : s.Adopted c)
    (htr : (server m cfg).Trace (fun u a => u.installs c a = false) s tr s') :
    s'.Adopted c ∧ Sending c msg base s' := by
  refine htr.invariant hr (P := fun _ u => u.Adopted c ∧ Sending c msg base u) ⟨hc, h⟩ ?_
  rintro - u a u' hu ⟨hcu, hsend⟩ hno hs
  have hi := reachable_owned hu
  exact ⟨hcu.step hi hs, hsend.step hi (reachable_descriptors hu).conn hs hcu.ne_unborn hno⟩

/-- A call goes on, and sends the response of the buffer. -/
theorem WriteCall.trace {t : Fin n} {x : EventContext} {tr : List (State n m × Action n m)}
    (hpc : (s.io t).pc = .wrEntry x) (hr : (server m cfg).Reachable s)
    (htr : (server m cfg).Trace
      (fun u a => u.installs x.conn a = false ∧ (u.io t).pc.inWrite x.conn = true) s tr s') :
    WriteCall s t x tr s' := by
  refine htr.invariant hr (P := fun tr u => WriteCall s t x tr u) (writeCall_entry hpc) ?_
  rintro tr u a u' hu hcall ⟨hno, hin⟩ hs
  exact hcall.step hu hs hno hin

/-- What a finished call leaves. -/
theorem WriteCall.outcome {t : Fin n} {x : EventContext} {tr : List (State n m × Action n m)}
    (h : WriteCall s t x tr s') (hout : (s'.io t).pc.inWrite x.conn = false)
    (hsend : Sending x.conn msg base s') (hne : msg ≠ []) :
    WriteOutcome s s' t x tr msg.length (OutBuffer.sentOf msg (s'.sendBuffer x.conn)) := by
  have hstage := h.stage
  have hlen : msg.length ≠ 0 := fun h0 => hne (List.length_eq_zero_iff.mp h0)
  generalize (s'.io t).pc = pc at hstage hout
  cases hstage with
  | complete hsize hmask =>
    cases hsend.carries with
    | pending hpos hsize' => exact absurd (hsize'.symm.trans hsize) hlen
    | empty hpos => exact .complete (if_pos hsize) hpos hsize hmask
  | blocked hagain hlt hmask =>
    cases hsend.carries with
    | pending hpos hsize =>
      have hk : OutBuffer.sentOf msg (s'.sendBuffer x.conn) = (s'.sendBuffer x.conn).pos :=
        if_neg (by rw [hsize]; exact hlen)
      rw [hk]
      exact .blocked hagain (hlt.trans_eq hsize) rfl hsize hmask
    | empty hpos hsize =>
      rw [hsize] at hlt
      exact absurd hlt (Nat.not_lt_zero _)
  | closed herr hflag hrel howner => exact .closed herr hflag hrel howner
  | _ => simp [IoPc.inWrite] at hout

/-- After a response was installed while nobody was about to empty the buffer, and as long as no
other response is installed: the socket has taken the first `k` bytes of the response; and from any
state in which the IO thread enters `handle_write` to any state in which it has left it, it has
taken the bytes from `k` to some `k'`, the thread has counted them, and the call has ended in one of
the ways of `WriteOutcome`. -/
theorem resumable_write (h₀ : (server m cfg).Reachable s₀) {w : Fin m} {ok : Bool} {task : Task}
    (hpc : s₀.worker w = .install task) (hfits : responseFits task.data = true)
    (hidle : ∀ t, (s₀.io t).pc.resetting task.conn = false)
    (hs : (server m cfg).step s₀ (.worker w ok) = some s₁) {tr : List (State n m × Action n m)}
    (hrun : (server m cfg).Trace (fun u a => u.installs task.conn a = false) s₁ tr s) :
    ∃ k ≤ (s₁.conns task.conn).writeSize,
      (s.sendBuffer task.conn).sent =
        (s₁.sendBuffer task.conn).sent ++ (s₁.conns task.conn).writeBuf.take k ∧
      ∀ t x, (s.io t).pc = .wrEntry x → x.conn = task.conn → ∀ tr' s',
        (server m cfg).Trace
          (fun u a => u.installs task.conn a = false ∧ (u.io t).pc.inWrite task.conn = true) s
          tr' s' →
        (s'.io t).pc.inWrite task.conn = false →
        ∃ k', k ≤ k' ∧ k' ≤ (s₁.conns task.conn).writeSize ∧
          (s'.sendBuffer task.conn).sent =
            (s₁.sendBuffer task.conn).sent ++ (s₁.conns task.conn).writeBuf.take k' ∧
          (s'.io t).bytesWritten = (s.io t).bytesWritten + (k' - k) ∧
          WriteOutcome s s' t x tr' (s₁.conns task.conn).writeSize k' := by
  have hr₁ := h₀.next hs
  have hs₁ : (s₀.setConn task.conn ((s₀.conns task.conn).install task.data)).setWorker w
      (.sendTest task) = s₁ := by
    have hstep : s₀.workerStep cfg w ok = some s₁ := hs
    simpa only [workerStep, hpc, installResponse, hfits, if_true, Option.some.injEq] using hstep
  have hne := (response_bounds hfits).1
  have hsend₁ : Sending task.conn (response task.data) (s₀.sendBuffer task.conn).sent s₁ := by
    rw [← hs₁]
    exact sending_install hfits hidle
  have hsent₁ : (s₁.sendBuffer task.conn).sent = (s₀.sendBuffer task.conn).sent := by
    rw [← hs₁, sendBuffer_install w hfits]
  have hsize : (s₁.conns task.conn).writeSize = (response task.data).length := by
    rw [← hs₁, setWorker_conns, setConn_conns, Function.update_self, Conn.install_writeSize,
      length_response_of_fits hfits]
  have htake : ∀ k ≤ (response task.data).length,
      (s₁.conns task.conn).writeBuf.take k = (response task.data).take k := by
    intro k hk
    rw [← hs₁, setWorker_conns, setConn_conns, Function.update_self, Conn.install_writeBuf,
      List.take_append_of_le_length hk]
  have hadopted₁ : s₁.Adopted task.conn :=
    ((reachable_owned h₀).held w task (by rw [hpc]; rfl)).2.step (reachable_owned h₀) hs
  rw [hsize, hsent₁]
  obtain ⟨hadopted, hsend⟩ := hsend₁.trace hr₁ hadopted₁ hrun
  obtain ⟨hle, hsent⟩ := hsend.carries.sent_eq hne
  refine ⟨_, hle, by rw [htake _ hle, hsent], ?_⟩
  rintro t x hentry hc tr' s' hcalls hout
  have hrs := hrun.reachable hr₁
  -- the call and the sending of the response run over the same steps
  obtain ⟨-, hsend'⟩ := hsend.trace hrs hadopted (hcalls.mono fun _ _ h => h.1)
  obtain ⟨hle', hsent'⟩ := hsend'.carries.sent_eq hne
  rw [← hc] at hcalls hout hsend' hsent hsent' hle hle' ⊢
  have hcall := WriteCall.trace hentry hrs hcalls
  obtain ⟨bytes, hbytes, hcount⟩ := hcall.counted
  have hlen := congrArg List.length hbytes
  rw [hsent, hsent'] at hlen
  simp only [List.length_append, List.length_take, Nat.min_eq_left hle,
    Nat.min_eq_left hle'] at hlen
  refine ⟨_, by omega, hle', ?_, by omega, hcall.outcome hout hsend' hne⟩
  rw [hc, htake _ (hc ▸ hle'), ← hc, hsent']

/-- A call that goes on with a response of which 50 bytes were written, to its end. -/
theorem resumable_write_second :
    ∃ s₁ s s' : State 1 1, (s.conns 0).writePos = 50 ∧
      (s'.sendBuffer 0).sent =
        (s₁.sendBuffer 0).sent ++ (s₁.conns 0).writeBuf.take (s₁.conns 0).writeSize ∧
      s'.HasInterest 0 0 .readEt := by
  let S := server 1 (Config.fresh 1)
  let task : Task := { type := .process, conn := 0, data := [65] }
  let x : EventContext := { conn := 0, events := { write := true }, fd := some 10 }
  obtain ⟨s₀, h₀, hp⟩ := S.exists_of_exec
    (List.flatten [Action.connect 10, Action.adopt 0, [.env (.data 10 [65])],
      Action.deliver 0 10 { read := true }, Action.readOne 0 1,
      [.io 0 .again, .io 0 .ok, .io 0 .ok, .io 0 .ok], Action.work 0 3])
    (fun s => decide (s.worker 0 = .install task ∧ (s.io 0).pc.resetting 0 = false) &&
      (S.step s (.worker 0 true)).any fun (s₁ : State 1 1) =>
        decide ((s₁.conns 0).writeSize ≠ 0) && (S.execUnder (fun u a => u.installs 0 a = false) s₁
          (List.flatten
            [Action.work 0 7, Action.drainMessages 0 1, Action.deliver 0 10 { write := true },
              [.io 0 .ok, .io 0 (.wrote 50 false), .io 0 .again, .io 0 .ok, .io 0 .ok, .io 0 .ok,
                .io 0 .ok,
              .env (.drain 10)], Action.deliver 0 10 { write := true }])).any fun (s : State 1 1) =>
          decide ((s.io 0).pc = .wrEntry x ∧ (s.conns 0).writePos = 50) &&
            (S.execUnder (fun u a => u.installs 0 a = false ∧ (u.io 0).pc.inWrite 0 = true) s
              [.io 0 .ok, .io 0 (.wrote 45 true), .io 0 .ok, .io 0 .ok, .io 0 .ok, .io 0 .ok]).any
              fun (s' : State 1 1) =>
              decide ((s'.io 0).pc.inWrite 0 = false ∧ (s'.conns 0).writeSize = 0 ∧
                (s'.conns 0).closing = false)) rfl (by decide +kernel)
  rw [Bool.and_eq_true] at hp
  obtain ⟨hinstall, hp⟩ := hp
  obtain ⟨hpc, hreset⟩ := of_decide_eq_true hinstall
  obtain ⟨s₁, hs₁, hp⟩ := (Option.any_eq_true ..).mp hp
  rw [Bool.and_eq_true] at hp
  obtain ⟨hlen, hp⟩ := hp
  obtain ⟨s, htr, hp⟩ := S.exists_trace _ _ _ hp
  rw [Bool.and_eq_true] at hp
  obtain ⟨hentry, hp⟩ := hp
  obtain ⟨hentry, hpos⟩ := of_decide_eq_true hentry
  obtain ⟨s', htr', hp⟩ := S.exists_trace _ _ _ hp
  obtain ⟨hout, hsize, hclosing⟩ := of_decide_eq_true hp
  obtain ⟨k, -, -, hcalls⟩ :=
    resumable_write h₀ hpc (by decide) (fun t => by rw [Subsingleton.elim t 0, hreset]) hs₁ htr
  obtain ⟨k', -, -, hsent, -, hend⟩ := hcalls 0 x hentry rfl _ s' htr' hout
  cases hend with
  | complete hk _ _ hmask =>
    rw [hk] at hsent
    exact ⟨s₁, s, s', hpos, hsent, hmask⟩
  | blocked _ _ _ hsize' _ => exact absurd (hsize'.symm.trans hsize) (of_decide_eq_true hlen)
  | closed _ hflag =>
    rw [hclosing] at hflag
    cases hflag

end calls

end DeepInIo.AdvancedServer
