import DeepInIo.AdvancedServer.InterestSwitching

/-!
# No response and no request is left behind

Every step of the server is a run of the interests of the registered connections (`Follows`), so
that the invariant of `Interest` holds for each of them in every run that loses no message and does
not interrupt `handle_write` between its loop and its final test.
-/

namespace DeepInIo.AdvancedServer

open State

variable {n m : ℕ}

/-- The mask asks for reading or for writing, not for both. -/
def EventMask.Single (mask : EventMask) : Prop :=
  mask.read = !mask.write

/-- An entry of an interest list after a step: its interest comes from that of the entry before the
step, or is that of a connection just registered. -/
inductive Follows (s s' : State n m) (t : Fin n) (f : Fd) (r' : Registration) : Prop
  | old (r : Registration) (hr : s.kernel.reg t f = some r) (hm : r.mask.Single → r'.mask.Single)
      (h : Relation.ReflTransGen Interest.Step (s.interest t r) (s'.interest t r'))
  | new (hm : r'.mask.Single) (h : (s'.interest t r').Inv)

/-- Every interest is in order. -/
def State.Switched (s : State n m) : Prop :=
  ∀ t f r, s.kernel.reg t f = some r → r.mask.Single ∧ (s.interest t r).Inv

section own

variable {cfg : Config n} {s s' : State n m} {t : Fin n} {f : Fd} {r r' : Registration}

/-- An entry belongs to a connection of the thread. -/
theorem Listed.registered (hl : Listed s) (hr : s.kernel.reg t f = some r) :
    s.RegisteredAs t f r.data :=
  hl.sound t f r.data (Kernel.entry_eq_some.mpr ⟨r, hr, rfl⟩)

/-- An interest list has one entry for a connection. -/
theorem Listed.fd_inj (hl : Listed s) {f' : Fd} (hr : s.kernel.reg t f = some r)
    (hr' : s.kernel.reg t f' = some r') (hc : r.data = r'.data) : f = f' := by
  have h := (hl.registered hr).2
  rw [hc, (hl.registered hr').2] at h
  exact (Option.some.inj h).symm

/-- The entries after `event_loop_mod` for a connection. -/
theorem Listed.reg_mod (hl : Listed s) (hd : ConnFiles s) {c : ConnId} {mask : EventMask}
    (hr' : (s.kernel.eventLoopMod t (s.conns c).fd mask c).reg t f = some r') :
    (s.kernel.reg t f = some r' ∧ r'.data ≠ c) ∨
      ∃ r, s.kernel.reg t f = some r ∧ r.data = c ∧ r' = s.kernel.arm f mask c := by
  rcases Kernel.reg_of_eventLoopMod hr' with hr | ⟨-, hf, hsome, rfl⟩
  · by_cases hc : r'.data = c
    · right
      have hf := (hl.registered hr).2
      rw [hc] at hf
      rw [hf] at hr'
      simp only [Kernel.eventLoopMod, hr, Option.isSome_some, if_pos, Kernel.setReg_reg,
        Function.update_self, Option.some.injEq] at hr'
      exact ⟨r', hr, hc, hr'.symm⟩
    · exact .inl ⟨hr, hc⟩
  · obtain ⟨r, hr⟩ := Option.isSome_iff_exists.mp hsome
    exact .inr ⟨r, hr, hd.eq_of_fd (hl.registered hr).2 hf, rfl⟩

/-- What the armed entry of an open connection signals. -/
theorem arm_pending (hd : ConnFiles s) {c : ConnId} (ho : (s.owner c).live = true)
    (hf : (s.conns c).fd = some f) (mask : EventMask) :
    (s.kernel.arm f mask c).pendWrite =
        (mask.write && (s.kernel.socks (s.conns c).sock).writable) ∧
      (s.kernel.arm f mask c).pendRead =
        (mask.read && (!(s.kernel.socks (s.conns c).sock).unread.isEmpty ||
          (s.kernel.socks (s.conns c).sock).peerClosed)) := by
  obtain ⟨f', hf', hopen⟩ := hd.live c ho
  rw [hf] at hf'
  cases hf'
  simp [Kernel.arm, Kernel.readable, Kernel.writable, Kernel.sockAt, hopen]

/-- The interest of a connection that is registered. -/
theorem interest_registered (hi : Owned s) (hd : ConnFiles s) {c : ConnId}
    (ho : s.owner c = .adopter t) (hf : (s.conns c).fd = some f)
    (hk : (s.conns c).SameBuffer (s'.conns c)) (hv : s'.kernel.socks = s.kernel.socks)
    (hp : (s'.io t).pc.atRestore c = false) :
    (s'.interest t (s.kernel.arm f .readEt c)).Inv := by
  obtain ⟨-, -, -, hpos, hsize⟩ := (hi.conn c).untouched (by
    change (s.owner c).loop = none
    rw [ho]
    rfl)
  have hunsent : (s'.interest t (s.kernel.arm f .readEt c)).unsent = false := by
    change decide ((s'.conns c).writePos < (s'.conns c).writeSize) = false
    rw [hk.pos, hk.size, hpos, hsize]
    rfl
  have hpend := (arm_pending hd (c := c) (by rw [ho]; rfl) hf .readEt).2
  refine ⟨fun hm => (nomatch hm), fun _ hin => .inl ?_, fun hs => ?_, fun _ _ hm => (nomatch hm),
    fun hr => ?_⟩
  · change (!(s'.kernel.socks (s'.conns c).sock).unread.isEmpty) = true at hin
    rw [hv, hk.sock] at hin
    change (s.kernel.arm f .readEt c).pendRead = true
    rw [hpend, hin]
    rfl
  · rw [hunsent] at hs
    cases hs
  · change (s'.io t).pc.atRestore c = true at hr
    rw [hp] at hr
    cases hr

/-- Collecting an event delivers it to its connection. -/
theorem follows_collect (hl : Listed s) {f₀ : Fd} {ev : EventMask} {r₀ : Registration}
    (hpc : (s.io t).pc = .wait) (hr₀ : s.kernel.reg t f₀ = some r₀) (hf : s'.conns = s.conns)
    (hw : s'.worker = s.worker)
    (hk : s'.kernel = s.kernel.setReg t f₀ (some { r₀ with
      pendRead := r₀.pendRead && !ev.read
      pendWrite := r₀.pendWrite && !ev.write }))
    (hio : s'.io t = { s.io t with batch := (s.io t).batch ++ [.conn r₀.data ev] })
    (hr' : s'.kernel.reg t f = some r') : Follows s s' t f r' := by
  rw [hk] at hr'
  have hm : ∀ {c}, s'.Announced t c ↔ s.Announced t c := by
    intro c
    rw [Announced, Announced, hw, hio]
  by_cases hff : f = f₀
  · subst hff
    simp only [Kernel.setReg_reg, Function.update_self, Option.some.injEq] at hr'
    subst hr'
    refine .old r₀ hr₀ id (.single ?_)
    have hstep := Interest.Step.deliver (s.interest t r₀) ev.read ev.write
      (by simp [State.interest, interestOf, hpc])
    convert hstep using 1
    simp [State.interest, interestOf, IoThread.readAhead, IoThread.writeAhead, hm, hio, hf, hk,
      Bool.or_assoc]
  · have hr : s.kernel.reg t f = some r' := by
      simpa [hff] using hr'
    have hne : r₀.data ≠ r'.data := fun hc => hff (hl.fd_inj hr hr₀ hc.symm)
    refine .old r' hr id (interest_quiet ⟨?_, ?_, ?_, ?_⟩ ?_ ?_ hm.mpr)
    · simp [IoThread.readAhead, hio, hne]
    · simp [IoThread.writeAhead, hio, hne]
    · rw [hio]
    · rw [hio]
    · rw [hf]
      exact .refl _
    · rw [hk]
      rfl

/-- Switching a connection to writing for a message. -/
theorem follows_msgMod (hd : ConnFiles s) (hl : Listed s) {msg : IoMessage}
    (hpc : (s.io t).pc = .msgMod msg)
    (hr' : (s.kernel.eventLoopMod t (s.conns msg.conn).fd .writeEt msg.conn).reg t f = some r') :
    Follows s
      ((s.setKernel (s.kernel.eventLoopMod t (s.conns msg.conn).fd .writeEt msg.conn)).setIoPc t
        (.msgRelease msg)) t f r' := by
  rcases hl.reg_mod hd hr' with ⟨hr, hne⟩ | ⟨r, hr, hc, rfl⟩
  · refine .old r' hr id (interest_quiet (IoThread.sameStage_of_pc (by simp) ?_) (.refl _) ?_ ?_)
    · simp [hpc, hne.symm]
    · exact congrFun (socks_eventLoopMod ..) _
    · exact announced_mono rfl (by simp) (by simp [hpc, hne.symm])
  · obtain ⟨ho, hf⟩ := hl.registered hr
    have hpend := arm_pending hd (c := r.data) (by rw [ho]; rfl) hf .writeEt
    rw [← hc]
    refine .old r hr (fun _ => rfl) (.single ?_)
    have hstep := Interest.Step.toWrite (s.interest t r) (decide (State.Announced ((s.setKernel
      (s.kernel.eventLoopMod t (s.conns r.data).fd .writeEt r.data)).setIoPc t (.msgRelease msg)) t
        r.data))
      (by simp [State.interest, interestOf, hpc]) (by simp [State.interest, interestOf, hpc])
    convert hstep using 1
    simp [State.interest, interestOf, hpend, socks_eventLoopMod, IoThread.readAhead,
      IoThread.writeAhead, hpc]
    rfl

/-- Switching a connection back to reading. -/
theorem follows_backToRead (hd : ConnFiles s) (hl : Listed s) {x : EventContext}
    (hpc : (s.io t).pc = .wrIdle x ∨ (s.io t).pc = .wrMod x)
    (hr' : (s.backToRead t x).kernel.reg t f = some r') : Follows s (s.backToRead t x) t f r' := by
  have hk : (s.conns x.conn).SameBuffer (s.conns x.conn).setReading := ⟨rfl, rfl, rfl, rfl, rfl⟩
  have hbuffer : ∀ c, (s.conns c).SameBuffer ((s.backToRead t x).conns c) := sameBuffer_update hk
  have hsocks : (s.backToRead t x).kernel.socks = s.kernel.socks := socks_eventLoopMod ..
  have hpc' : (s.backToRead t x).io t = { s.io t with pc := .recheck .write x } := by
    simp [State.backToRead]
  rcases hl.reg_mod hd hr' with ⟨hr, hne⟩ | ⟨r, hr, hc, rfl⟩
  · have hp : ((s.backToRead t x).io t).pc.stage r'.data = (s.io t).pc.stage r'.data := by
      rw [hpc']
      rcases hpc with hpc | hpc <;> simp [hpc, hne.symm]
    refine .old r' hr id (interest_quiet (IoThread.sameStage_of_pc (by rw [hpc']) hp) (hbuffer _)
      (by rw [hsocks]) ?_)
    exact announced_mono rfl (by rw [hpc']) (congrArg Stage.announced hp)
  · obtain ⟨ho, hf⟩ := hl.registered hr
    rw [← hc]
    have hpend := arm_pending hd (c := r.data) (by rw [ho]; rfl) hf .readEt
    refine .old r hr (fun _ => rfl) (.single ?_)
    have hstep := Interest.Step.toRead (s.interest t r)
      (s.kernel.arm f .readEt r.data).pendRead ((s.io t).batch.any (Event.writes r.data))
      (by rcases hpc with hpc | hpc <;> simp [State.interest, interestOf, hpc, hc])
      (by
        intro hin
        change (!(s.kernel.socks (s.conns r.data).sock).unread.isEmpty) = true at hin
        rw [hpend.2, hin]
        rfl)
    have hm : (s.backToRead t x).Announced t r.data ↔ s.Announced t r.data := by
      rw [Announced, Announced, hpc']
      rcases hpc with hpc | hpc <;> simp [State.backToRead, hpc]
    convert hstep using 1
    have hbuf := hbuffer r.data
    rcases hpc with hpc | hpc <;>
      simp [State.interest, interestOf, hpend, hsocks, IoThread.readAhead, IoThread.writeAhead,
        hpc', hpc, hm, hbuf.pos, hbuf.size, hbuf.sock]

/-- The socket of another connection is not touched. -/
theorem socks_setSock_ne (hd : ConnFiles s) {c c' : ConnId} (hc : c ≠ c') (hb : s.owner c ≠ .unborn)
    (hb' : s.owner c' ≠ .unborn) (v : Sock) :
    (s.kernel.setSock (s.conns c).sock v).socks (s.conns c').sock =
      s.kernel.socks (s.conns c').sock := by
  have hne : (s.conns c').sock ≠ (s.conns c).sock :=
    fun heq => hc (hd.sock_inj c' c hb' hb heq).symm
  rw [Kernel.setSock_socks, Function.update_of_ne hne]

/-- Reading from the socket of a connection. -/
theorem follows_readData (hi : Owned s) (hd : ConnFiles s) (hl : Listed s) {x : EventContext}
    {len : ℕ} {data : List UInt8} {k : Kernel n} (hpc : (s.io t).pc = .rdRead x)
    (hk : s.kernel.readBytes (s.conns x.conn).fd len = some (data, k))
    (hr' : (s.readData t x data k).kernel.reg t f = some r') :
    Follows s (s.readData t x data k) t f r' := by
  have hactive : (s.io t).pc.role = .active x.conn := congrArg IoPc.role hpc
  have hborn : s.owner x.conn ≠ .unborn := by rw [(hi.io t).active x.conn hactive]; nofun
  obtain ⟨sk, hsk, -, -, -, -, rfl⟩ := Kernel.readBytes_eq hk
  rw [sockAt_active hi hd hactive] at hsk
  cases hsk
  have hr : s.kernel.reg t f = some r' := hr'
  have hborn' : s.owner r'.data ≠ .unborn := by rw [(hl.registered hr).1]; nofun
  have hk : (s.conns x.conn).SameBuffer (s.conns x.conn).setReading := ⟨rfl, rfl, rfl, rfl, rfl⟩
  have hbuf := sameBuffer_update hk r'.data
  by_cases hc : x.conn = r'.data
  · refine .old r' hr id (.single ?_)
    have hstep := Interest.Step.read (s.interest t r')
      (!((s.kernel.socks (s.conns x.conn).sock).unread.drop len).isEmpty)
      (by
        intro hin
        rw [hc] at hin
        have hne : (s.kernel.socks (s.conns r'.data).sock).unread ≠ [] := by
          rintro heq
          rw [heq] at hin
          simp at hin
        simpa [State.interest, interestOf] using hne)
    convert hstep using 1
    simp [State.interest, interestOf, State.readData, IoThread.readAhead, IoThread.writeAhead,
      hpc, hc, Announced]
  · refine .old r' hr id
      (interest_quiet ⟨?_, ?_, ?_, ?_⟩ hbuf (socks_setSock_ne hd hc hborn hborn' _) ?_)
    · simp [State.readData, IoThread.readAhead, hpc]
    · simp [State.readData, IoThread.writeAhead, hpc]
    · simp [State.readData, hpc]
    · simp [State.readData, hpc]
    · exact announced_mono rfl (by simp [State.readData]) (by simp [State.readData, hpc])

/-- Writing to the socket of a connection. -/
theorem follows_wrote (hi : Owned s) (hd : ConnFiles s) (hl : Listed s) {x : EventContext}
    {len : ℕ} {room : Bool} {k : Kernel n} (hpc : (s.io t).pc = .wrLoop x)
    (hlt : (s.conns x.conn).writePos < (s.conns x.conn).writeSize)
    (hk : s.kernel.writeBytes (s.conns x.conn).fd (s.conns x.conn).unsent len room = some k)
    (hr' : (s.wroteData t x len k).kernel.reg t f = some r') :
    Follows s (s.wroteData t x len k) t f r' := by
  have hactive : (s.io t).pc.role = .active x.conn := congrArg IoPc.role hpc
  have hborn : s.owner x.conn ≠ .unborn := by rw [(hi.io t).active x.conn hactive]; nofun
  obtain ⟨sk, hsk, -, -, -, rfl⟩ := Kernel.writeBytes_eq hk
  rw [sockAt_active hi hd hactive] at hsk
  cases hsk
  have hr : s.kernel.reg t f = some r' := hr'
  have hborn' : s.owner r'.data ≠ .unborn := by rw [(hl.registered hr).1]; nofun
  by_cases hc : x.conn = r'.data
  · refine .old r' hr id (.single ?_)
    rw [hc] at hlt
    have hstep := Interest.Step.write (s.interest t r') room
      (decide ((s.conns r'.data).writePos + len < (s.conns r'.data).writeSize))
      (by simp [State.interest, interestOf, IoThread.writeAhead, hpc, hc])
      (by simp [State.interest, interestOf, hpc])
      (fun _ => decide_eq_true hlt)
    convert hstep using 1
    simp [State.interest, interestOf, wroteData, IoThread.readAhead, IoThread.writeAhead, hpc, hc,
      Announced]
  · have hbuf : ∀ k, (s.conns r'.data).SameBuffer ((s.wroteData t x len k).conns r'.data) := by
      intro k
      rw [wroteData, setIo_conns, setConn_conns, Function.update_of_ne (Ne.symm hc)]
      exact .refl _
    refine .old r' hr id (interest_quiet ⟨?_, ?_, ?_, ?_⟩ (hbuf _)
      (socks_setSock_ne hd hc hborn hborn' _) ?_)
    · simp [wroteData, IoThread.readAhead, hpc]
    · simp [wroteData, IoThread.writeAhead, hpc]
    · simp [wroteData, hpc]
    · simp [wroteData, hpc]
    · exact announced_mono rfl (by simp [wroteData]) (by simp [wroteData, hpc])

/-- Emptying the buffer of a connection. -/
theorem follows_reset {x : EventContext} (hpc : (s.io t).pc = .wrReset x)
    (hr : s.kernel.reg t f = some r') :
    Follows s ((s.setConn x.conn (s.conns x.conn).resetWrite).setIoPc t (.wrMod x)) t f r' := by
  by_cases hc : x.conn = r'.data
  · refine .old r' hr id (.single ?_)
    have hstep := Interest.Step.reset (s.interest t r')
    convert hstep using 1
    simp [State.interest, interestOf, IoThread.readAhead, IoThread.writeAhead, hpc, hc, Announced]
  · have hp : (IoPc.wrMod x).stage r'.data = (s.io t).pc.stage r'.data := by
      simp [hpc, hc]
    refine .old r' hr id
      (interest_quiet (IoThread.sameStage_of_pc (by simp) (by simpa using hp)) ?_ rfl ?_)
    · rw [setIoPc_conns, setConn_conns, Function.update_of_ne (Ne.symm hc)]
      exact .refl _
    · exact announced_mono rfl (by simp) (by simpa using congrArg Stage.announced hp)

/-- The entries after a step of the thread that owns them. -/
theorem IoStep.follows (h : IoStep cfg s t s') (hi : Owned s) (hd : ConnFiles s) (hl : Listed s)
    (hl' : Listed s') (hr' : s'.kernel.reg t f = some r') :
    Follows s s' t f r' := by
  -- the step concerns neither the entry, nor the socket, nor the buffer of the connection
  have hquiet : s.kernel.reg t f = some r' → (s.io t).SameStage r'.data (s'.io t) →
      (s.conns r'.data).SameBuffer (s'.conns r'.data) →
      s'.kernel.socks (s.conns r'.data).sock = s.kernel.socks (s.conns r'.data).sock →
      (s.Announced t r'.data → s'.Announced t r'.data) → Follows s s' t f r' :=
    fun hr hth hk hv hm => .old r' hr id (interest_quiet hth hk hv hm)
  have hpass : s.kernel.reg t f = some r' → (s'.io t).batch = (s.io t).batch →
      (s'.io t).msgQueue = (s.io t).msgQueue →
      (s'.io t).pc.stage r'.data = (s.io t).pc.stage r'.data →
      (s.conns r'.data).SameBuffer (s'.conns r'.data) → s'.kernel.socks = s.kernel.socks →
      Follows s s' t f r' := by
    intro hr hb hq hp hk hv
    exact hquiet hr (IoThread.sameStage_of_pc hb hp) hk (by rw [hv])
      (announced_mono h.worker_eq hq (congrArg Stage.announced hp))
  have hbuffer : ∀ {c : ConnId} {k : Conn n}, s'.conns = Function.update s.conns c k →
      (s.conns c).SameBuffer k → (s.conns r'.data).SameBuffer (s'.conns r'.data) := by
    intro c k hs hk
    rw [hs]
    exact sameBuffer_update hk _
  have howner := (hl'.registered hr').1
  cases h with
  | move hm => exact .old r' hr' id (hm.interest rfl hi hd (hl.registered hr').1)
  | collectPipe hpc he | collectMsg hpc he =>
    refine hquiet hr' ⟨?_, ?_, by simp, by simp⟩ (.refl _) rfl ?_
    · simp [IoThread.readAhead]
    · simp [IoThread.writeAhead]
    · exact announced_mono rfl (by simp) (by simp)
  | collectFd hpc hr => exact follows_collect hl hpc hr rfl rfl rfl (by simp) hr'
  | nextPipe hpc hb | nextMsg hpc hb | nextConn hpc hb =>
    refine hquiet hr' ⟨?_, ?_, by simp [hpc], by simp [hpc]⟩ (.refl _) rfl ?_
    · simp [IoThread.readAhead, hpc, hb]
    · simp [IoThread.writeAhead, hpc, hb]
    · exact announced_mono rfl (by simp) (by simp [hpc])
  | readWake hpc | msgRead hpc => exact hpass hr' (by simp) (by simp) (by simp [hpc]) (.refl _) rfl
  | readConn hpc | adopt hpc | createTask hpc | createLeak hpc | submitLeak hpc =>
    exact hpass hr' (by simp) (by simp) (by simp [hpc]) (hbuffer rfl ⟨rfl, rfl, rfl, rfl, rfl⟩) rfl
  | @register c k hpc hk =>
    have hbuf := hbuffer rfl ⟨rfl, rfl, rfl, rfl, rfl⟩
    obtain ⟨f₀, hfd, hopen, hnone, rfl⟩ := Kernel.eventLoopAdd_eq hk
    rcases Kernel.reg_of_setReg hr' with hr | ⟨-, rfl, rfl⟩
    · exact hpass hr (by simp) (by simp) (by simp [hpc]) hbuf rfl
    · have hadopt := ((hi.io t).adopting c).mp (congrArg IoPc.role hpc)
      exact .new rfl (interest_registered hi hd hadopt hfd hbuf rfl (by simp))
  | @reject c hpc =>
    refine hpass (reg_of_connRelease hr') ?_ ?_ ?_ ?_ (socks_connRelease s c)
    · simp [rejectConnection]
    · simp [rejectConnection]
    · simp [rejectConnection, hpc]
    · exact hbuffer (rejectConnection_conns ..) ⟨rfl, rfl, rfl, rfl, rfl⟩
  | drain hpc hq =>
    refine hquiet hr' ⟨?_, ?_, by simp [hpc], by simp [hpc]⟩ (.refl _) rfl fun hm => ?_
    · simp [IoThread.readAhead, hpc]
    · simp [IoThread.writeAhead, hpc]
    · rcases hm with hw | ⟨msg', hmem, hc⟩ | hp
      · exact .inl hw
      · rw [hq] at hmem
        rcases List.mem_cons.mp hmem with rfl | hmem
        · exact .inr (.inr (by simpa using hc))
        · exact .inr (.inl ⟨msg', by simpa using hmem, hc⟩)
      · rw [hpc] at hp
        cases hp
  | msgMod hpc => exact follows_msgMod hd hl hpc hr'
  | @msgRelease msg hpc =>
    exact hpass (reg_of_connRelease hr') (by simp) (by simp) (by simp [hpc])
      (hbuffer rfl ⟨rfl, rfl, rfl, rfl, rfl⟩) (socks_connRelease s msg.conn)
  | readData hpc hk => exact follows_readData hi hd hl hpc hk hr'
  | submit hpc hq => exact hpass hr' (by simp) (by simp) (by simp [hpc]) (.refl _) rfl
  | backToRead hpc => exact follows_backToRead hd hl hpc hr'
  | wrote hpc hlt hk => exact follows_wrote hi hd hl hpc hlt hk hr'
  | reset hpc => exact follows_reset hpc hr'
  | @closeMark k x hpc =>
    have hne : x.conn ≠ r'.data := by
      intro hc
      rw [State.owner, ← hc, markClosing_conns, Function.update_self] at howner
      cases howner
    refine hpass (reg_of_connMarkClosing hr') ?_ ?_ ?_ ?_ (socks_connMarkClosing s x.conn)
    · simp [State.markClosing]
    · simp [State.markClosing]
    · simp only [State.markClosing, setIoPc_io, Function.update_self, hpc]
      cases k <;> simp [hne]
    · exact hbuffer (markClosing_conns ..) ⟨rfl, rfl, rfl, rfl, rfl⟩
  | @closeDel k x fd hpc =>
    exact hpass (Kernel.reg_of_eventLoopDel hr') (by simp) (by simp) (by simp [hpc]) (.refl _)
      (socks_eventLoopDel ..)
  | @closeRelease k x hpc =>
    have hne : x.conn ≠ r'.data := by
      intro hc
      rw [State.owner, ← hc, releaseOwner_conns, Function.update_self] at howner
      cases howner
    refine hpass (reg_of_connRelease hr') ?_ ?_ ?_ ?_ (socks_connRelease s x.conn)
    · simp [releaseOwner]
    · simp [releaseOwner]
    · simp only [releaseOwner, setIoPc_io, Function.update_self, hpc]
      cases k <;> simp [hne]
    · exact hbuffer (releaseOwner_conns ..) ⟨rfl, rfl, rfl, rfl, rfl⟩

end own

section other

variable {cfg : Config n} {s s' : State n m} {t t₀ : Fin n} {w : Fin m} {f : Fd} {r' : Registration}

/-- An IO thread only removes entries of the interest lists of the others. -/
theorem IoStep.reg_other (h : IoStep cfg s t₀ s') (ht : t ≠ t₀)
    (hr' : s'.kernel.reg t f = some r') :
    s.kernel.reg t f = some r' := by
  cases h with
  | collectFd => exact (Kernel.reg_of_setReg hr').resolve_right fun h => ht h.1
  | register hpc hk =>
    obtain ⟨f₀, hfd, hopen, hnone, rfl⟩ := Kernel.eventLoopAdd_eq hk
    exact (Kernel.reg_of_setReg hr').resolve_right fun h => ht h.1
  | msgMod | backToRead => exact (Kernel.reg_of_eventLoopMod hr').resolve_right fun h => ht h.1
  | closeDel => exact Kernel.reg_of_eventLoopDel hr'
  | msgRelease | reject | closeRelease => exact reg_of_connRelease hr'
  | closeMark => exact reg_of_connMarkClosing hr'
  | readData hpc hk =>
    obtain ⟨sk, -, -, -, -, -, rfl⟩ := Kernel.readBytes_eq hk
    exact hr'
  | wrote hpc hlt hk =>
    obtain ⟨sk, -, -, -, -, rfl⟩ := Kernel.writeBytes_eq hk
    exact hr'
  | _ => exact hr'

/-- An entry after a step of another IO thread. -/
theorem follows_other (hi : Owned s) (hd : ConnFiles s) (hl : Listed s) {res : IoResult}
    (hs : s.ioStep cfg t₀ res = some s') (ht : t ≠ t₀) (hr' : s'.kernel.reg t f = some r') :
    Follows s s' t f r' := by
  have hstep := ioStep_spec hs
  have hr := hstep.reg_other ht hr'
  have ho := (hl.registered hr).1
  have hborn : s.owner r'.data ≠ .unborn := by
    rw [ho]
    nofun
  have hio := hstep.io_ne ht
  have hsocks : s'.kernel.socks (s.conns r'.data).sock = s.kernel.socks (s.conns r'.data).sock := by
    refine hstep.socks_eq hi hd fun c hc heq => ?_
    rw [hd.sock_inj c r'.data (by rw [hc]; nofun) hborn heq, ho] at hc
    exact ht (Owner.registered.inj hc)
  refine .old r' hr id
    (interest_quiet (IoThread.sameStage_of_pc (by rw [hio]) (by rw [hio])) ?_ hsocks
      (announced_mono hstep.worker_eq (by rw [hio]) (by rw [hio])))
  -- the other thread writes to and empties the buffers of its own connections only
  have hown : ∀ {x : EventContext}, (s.io t₀).pc.role = .active x.conn → x.conn ≠ r'.data := by
    intro x hrole hc
    have hx := (hi.io t₀).active x.conn hrole
    rw [hc, ho] at hx
    exact ht (Owner.registered.inj hx)
  cases ioStep_bufferChange hi hd hs hborn with
  | same hk _ => exact hk
  | wrote t₁ r x len room hpc hc hlen hs' => exact absurd hc (hown (congrArg IoPc.role hpc))
  | reset t₁ r x hpc hc hs' => exact absurd hc (hown (congrArg IoPc.role hpc))

/-- An entry after a step of the main thread. -/
theorem follows_main (hi : Owned s) (hd : ConnFiles s) (hl : Listed s) {res : MainResult}
    (hs : (server m cfg).step s (.main res) = some s') (hr' : s'.kernel.reg t f = some r') :
    Follows s s' t f r' := by
  have hstep := mainStep_spec hs
  have hr := hstep.listed hr'
  have hborn : s.owner r'.data ≠ .unborn := by
    rw [(hl.registered hr).1]
    nofun
  obtain ⟨hpc, hb, hq⟩ := hstep.io_eq t
  have hsocks := hstep.socks_eq (Nat.ne_of_lt (hd.sock_lt r'.data hborn))
  have hbuf : (s.conns r'.data).SameBuffer (s'.conns r'.data) := by
    cases step_bufferChange hi hd hs hborn with
    | same hk _ => exact hk
  exact .old r' hr id (interest_quiet (IoThread.sameStage_of_pc hb (by rw [hpc])) hbuf hsocks
    (announced_mono hstep.worker_eq hq (by rw [hpc])))

/-- A worker takes no message out of a queue. -/
theorem WorkerStep.queue_mono (h : WorkerStep cfg s w s') {msg : IoMessage}
    (hm : msg ∈ (s.io t).msgQueue) : msg ∈ (s'.io t).msgQueue := by
  cases h with
  | @link task t₁ hpc =>
    by_cases ht : t = t₁
    · subst ht
      simp [linkMessage, hm]
    · simpa [linkMessage, ht] using hm
  | @notify task t₁ hpc =>
    by_cases ht : t = t₁
    · subst ht
      simpa using hm
    · simpa [ht] using hm
  | _ => exact hm

/-- A worker that is still to link its message about a registered connection goes on with it. -/
theorem announces_or_linked (hi : Owned s) {ok : Bool} (hs : s.workerStep cfg w ok = some s')
    (hok : s.interrupts (.worker w ok) = false) {c : ConnId} (ho : s.owner c = .registered t)
    (hw : (s.worker w).announces c = true) :
    (s'.worker w).announces c = true ∨ ∃ msg ∈ (s'.io t).msgQueue, msg.conn = c := by
  cases hpc : s.worker w with
  | sendTest task =>
    rw [hpc] at hw
    have hc : task.conn = c := of_decide_eq_true hw
    have hvalid : (s.conns task.conn).isValid = true := by
      by_contra hv
      exact ne_of_invalid hi ho (Bool.eq_false_iff.mpr hv) hc
    have hthread : (s.conns task.conn).ioThread = some t := by
      refine (hi.conn task.conn).thread t ?_
      change (s.owner task.conn).home = some t
      rw [hc, ho]
      rfl
    simp only [workerStep, hpc, testSend, hthread, hvalid, if_pos] at hs
    cases hs
    left
    simpa [WorkerPc.announces] using hc
  | sendAlloc task t₁ =>
    rw [hpc] at hw
    simp only [State.interrupts, hpc, Bool.not_eq_false'] at hok
    simp only [workerStep, hpc, hok, if_pos] at hs
    cases hs
    left
    simpa [WorkerPc.announces] using hw
  | sendAcquire task t₁ =>
    rw [hpc] at hw
    simp only [workerStep, hpc] at hs
    cases hs
    left
    simpa [WorkerPc.announces] using hw
  | sendLink task t₁ =>
    -- the message goes to the thread that owns the connection
    have hhome := hi.sending w task t₁ (by rw [hpc]; rfl) (by rw [hpc]; rfl)
    rw [hpc] at hw
    have hc : task.conn = c := of_decide_eq_true hw
    rw [hc, ho] at hhome
    cases hhome
    simp only [workerStep, hpc] at hs
    cases hs
    exact .inr ⟨⟨.responseReady, task.conn⟩, by simp [linkMessage], hc⟩
  | _ =>
    rw [hpc] at hw
    cases hw

/-- A worker loses no message about a registered connection. -/
theorem announced_worker (hi : Owned s) {ok : Bool} (hs : s.workerStep cfg w ok = some s')
    (hok : s.interrupts (.worker w ok) = false) {c : ConnId} (ho : s.owner c = .registered t)
    (h : s.Announced t c) : s'.Announced t c := by
  have hstep := workerStep_spec hs
  rcases h with ⟨w', hw⟩ | ⟨msg, hmem, hc⟩ | hp
  · by_cases hww : w' = w
    · subst hww
      rcases announces_or_linked hi hs hok ho hw with h | h
      · exact .inl ⟨w', h⟩
      · exact .inr (.inl h)
    · exact .inl ⟨w', by rw [hstep.worker_ne hww]; exact hw⟩
  · exact .inr (.inl ⟨msg, hstep.queue_mono hmem, hc⟩)
  · obtain ⟨-, hpc, -⟩ := hstep.io_eq t
    exact .inr (.inr (by rw [hpc]; exact hp))

/-- An entry after a step of a worker. -/
theorem follows_worker (hi : Owned s) (hd : ConnFiles s) (hl : Listed s) {ok : Bool}
    (hs : (server m cfg).step s (.worker w ok) = some s')
    (hok : s.interrupts (.worker w ok) = false) (hr' : s'.kernel.reg t f = some r') :
    Follows s s' t f r' := by
  have hstep := workerStep_spec hs
  have hr := hstep.listed hr'
  have ho := (hl.registered hr).1
  have hborn : s.owner r'.data ≠ .unborn := by
    rw [ho]
    nofun
  obtain ⟨-, hpc, hb⟩ := hstep.io_eq t
  have hm := announced_worker hi hs hok ho
  cases step_bufferChange hi hd hs hborn with
  | same hk _ =>
    exact .old r' hr id (interest_quiet (IoThread.sameStage_of_pc hb (by rw [hpc])) hk
      (by rw [hstep.socks_eq]) hm)
  | install _ _ task hpcw hfit hc hs' =>
    subst hs'
    refine .old r' hr id (.single ?_)
    simp only [State.interrupts, hpcw, decide_eq_false_iff_not, not_exists] at hok
    have hstep := Interest.Step.put (s.interest t r')
      (by simpa [State.interest, interestOf, hc] using hok t)
    have hlen : 0 < (httpResponse task.data).2 := by
      simp only [responseFits, Bool.and_eq_true, decide_eq_true_eq] at hfit
      exact hfit.1
    have hann : ((s.setConn task.conn ((s.conns task.conn).install task.data)).setWorker w
        (.sendTest task)).Announced t r'.data := by
      refine .inl ⟨w, ?_⟩
      simp [WorkerPc.announces, hc]
    convert hstep using 1
    rw [hc] at hann
    simp [State.interest, interestOf, hann, hlen, hc]

/-- An accepted socket behind a number. -/
theorem Kernel.fds_of_sockAt {k : Kernel n} {sk : SockId} (h : k.sockAt (some f) = some sk) :
    k.fds f = some (.client sk) := by
  simp only [Kernel.sockAt] at h
  split at h
  · next sk' hf =>
    cases h
    exact hf
  · cases h

/-- An entry after a step of the clients. -/
theorem EnvStep.follows (h : EnvStep s s') (hd : ConnFiles s) (hl : Listed s) (hsw : s.Switched)
    (hr' : s'.kernel.reg t f = some r') : Follows s s' t f r' := by
  cases h with
  | arrive =>
    refine .old r' hr' id (interest_quiet (IoThread.sameStage_of_pc rfl rfl) (.refl _) rfl id)
  | @sock f₀ sk v rd wr hs hw hrd hwr =>
    have hfds := Kernel.fds_of_sockAt hs
    simp only [setKernel_kernel, Kernel.signal, Kernel.setSock_reg] at hr'
    by_cases hf : f = f₀
    · subst hf
      rw [Function.update_self] at hr'
      obtain ⟨r, hr, rfl⟩ := Option.map_eq_some_iff.mp hr'
      obtain ⟨ho, hfd⟩ := hl.registered hr
      obtain ⟨f', hf', hopen⟩ := hd.live r.data (by rw [ho]; rfl)
      rw [hfd] at hf'
      cases hf'
      rw [hfds] at hopen
      cases hopen
      obtain ⟨hmask, -⟩ := hsw t f r hr
      refine .old r hr id (.single ?_)
      have hstep := Interest.Step.notify (s.interest t r) rd wr (!v.unread.isEmpty) v.writable
        (fun h => by rw [hrd h]; rfl) (fun h => by rw [hwr h]; rfl)
      have hm : (s.setKernel ((s.kernel.setSock (s.conns r.data).sock v).signal f rd wr)).Announced
          t r.data ↔ s.Announced t r.data := Iff.rfl
      rw [EventMask.Single] at hmask
      convert hstep using 1
      simp [State.interest, interestOf, hmask, hm]
    · rw [Function.update_of_ne hf] at hr'
      obtain ⟨ho, hfd⟩ := hl.registered hr'
      have hne : (s.conns r'.data).sock ≠ sk := by
        rintro rfl
        obtain ⟨f', hf', hopen⟩ := hd.live r'.data (by rw [ho]; rfl)
        rw [hfd] at hf'
        cases hf'
        exact hf (hd.inj f f₀ _ hopen hfds)
      refine .old r' hr' id (interest_quiet (IoThread.sameStage_of_pc rfl rfl) (.refl _) ?_ id)
      exact Function.update_of_ne hne _ _

/-- An entry after a step of the server. -/
theorem step_follows (hi : Owned s) (hd : ConnFiles s) (hl : Listed s) (hl' : Listed s')
    (hsw : s.Switched) {a : Action n m} (hs : (server m cfg).step s a = some s')
    (hok : s.interrupts a = false) (hr' : s'.kernel.reg t f = some r') : Follows s s' t f r' := by
  cases a with
  | main res => exact follows_main hi hd hl hs hr'
  | io t₀ res =>
    by_cases ht : t = t₀
    · subst ht
      exact (ioStep_spec hs).follows hi hd hl hl' hr'
    · exact follows_other hi hd hl hs ht hr'
  | worker w ok => exact follows_worker hi hd hl hs hok hr'
  | env e => exact (envStep_spec hs).follows hd hl hsw hr'

/-- Every interest is in order in every run that is not interrupted. -/
theorem reachable_switched
    (h : (server m cfg).ReachableUnder (fun s a => s.interrupts a = false) s) : s.Switched := by
  refine h.invariant ?_ ?_
  · rintro _ rfl
    exact nofun
  · intro s a s' hr hsw hok hs t f r' hr'
    have hl := (reachable_listed hr.reachable).1
    have hl' := (reachable_listed (hr.reachable.next hs)).1
    have hd := (reachable_descriptors hr.reachable).conn
    cases step_follows (reachable_owned hr.reachable) hd hl hl' hsw hs hok hr' with
    | old r hr hm hsteps =>
      obtain ⟨hmask, hinv⟩ := hsw t f r hr
      exact ⟨hm hmask, hinv.steps hsteps⟩
    | new hm hinv => exact ⟨hm, hinv⟩

/-- In every run in which no allocation of a message fails and no response is installed between the
loop and the final test of `handle_write`, nothing is stranded at an entry `r` of an interest list.
A response that is not sent has a message on its way, or the mask asks for writing, and there is no
room or a write event undelivered or being handled.  Bytes that are not read have an event
undelivered or being handled, or the mask asks for writing and there is no room. -/
theorem nothing_stranded (h : (server m cfg).ReachableUnder (fun s a => s.interrupts a = false) s)
    {r : Registration} (hr : s.kernel.reg t f = some r) :
    ((s.conns r.data).writePos < (s.conns r.data).writeSize →
      s.Announced t r.data ∨
        (r.mask.write = true ∧
          ((s.kernel.socks (s.conns r.data).sock).writable = false ∨ r.pendWrite = true ∨
            (s.io t).writeAhead r.data = true))) ∧
      ((s.kernel.socks (s.conns r.data).sock).unread ≠ [] →
        (r.pendRead = true ∨ r.pendWrite = true ∨ (s.io t).readAhead r.data = true ∨
          (s.io t).writeAhead r.data = true) ∨
        (r.mask.write = true ∧ (s.kernel.socks (s.conns r.data).sock).writable = false)) := by
  obtain ⟨-, hinv⟩ := reachable_switched h t f r hr
  constructor
  · intro hlt
    exact (hinv.output (decide_eq_true hlt)).imp_left of_decide_eq_true
  · intro hne
    refine hinv.input ?_
    change (!(s.kernel.socks (s.conns r.data).sock).unread.isEmpty) = true
    rw [Bool.not_eq_true', List.isEmpty_eq_false_iff]
    exact hne

/-- A response is installed and its message handled while another request arrives: the mask asks for
writing, and a write event is undelivered. -/
theorem nothing_stranded_pending :
    ∃ s : State 1 1, ∃ r, s.kernel.reg 0 10 = some r ∧ r.pendRead = false ∧
      (s.Announced 0 r.data ∨
        (r.mask.write = true ∧
          ((s.kernel.socks (s.conns r.data).sock).writable = false ∨ r.pendWrite = true ∨
            (s.io 0).writeAhead r.data = true))) ∧
      ((r.pendRead = true ∨ r.pendWrite = true ∨ (s.io 0).readAhead r.data = true ∨
          (s.io 0).writeAhead r.data = true) ∨
        (r.mask.write = true ∧ (s.kernel.socks (s.conns r.data).sock).writable = false)) := by
  obtain ⟨s, hs, hp⟩ := (server 1 (Config.fresh 1)).exists_of_execUnder
    (fun s a => s.interrupts a = false)
    (List.flatten [Action.connect 10, Action.adopt 0, [.env (.data 10 [65])],
      Action.deliver 0 10 { read := true }, Action.readOne 0 1,
      [.io 0 .again, .io 0 .ok, .io 0 .ok, .io 0 .ok], Action.work 0 11, Action.drainMessages 0 1,
      [.env (.data 10 [66])]])
    (fun s => (s.kernel.reg 0 10).any fun r => decide (r.pendRead = false ∧
      (s.conns r.data).writePos < (s.conns r.data).writeSize ∧
      (s.kernel.socks (s.conns r.data).sock).unread ≠ [])) rfl (by decide +kernel)
  obtain ⟨r, hr, hp⟩ := (Option.any_eq_true ..).mp hp
  obtain ⟨hpend, hlt, hne⟩ := of_decide_eq_true hp
  obtain ⟨hout, hin⟩ := nothing_stranded hs hr
  exact ⟨s, r, hr, hpend, hout hlt, hin hne⟩

end other

end DeepInIo.AdvancedServer
