import DeepInIo.AdvancedServer.Exchange

/-!
# The request/response cycle of a connection

The steps of the IO thread that serves a connection, and all steps of the server (`step_exchanges`):
seen from the entry of a connection in an interest list, they are steps of its request/response
cycle.
-/

namespace DeepInIo.AdvancedServer

open State

variable {n m : ℕ}

section own

variable {cfg : Config n} {s s' : State n m} {t : Fin n} {f : Fd} {r r' : Registration}

/-! ### Moves of the thread -/

@[simp] theorem duty_afterRead (c : ConnId) (x : EventContext) :
    (afterRead x).duty c = ⟨[], 0, false, false, x.conn = c && x.events.write, false, .away⟩ := by
  unfold afterRead
  cases hw : x.events.write <;> simp [IoPc.chunk?]

@[simp] theorem duty_afterFd (c : ConnId) (x : EventContext) :
    (afterFd x).duty c = (IoPc.evFd x).duty c := by
  unfold afterFd
  split
  · next hr => simp [hr, IoPc.chunk?]
  · next hr =>
    rw [duty_afterRead]
    simp [hr, IoPc.chunk?]

@[simp] theorem duty_afterCheck (c : ConnId) (k : CloseSite) (x : EventContext) :
    (afterCheck k x).duty c = (IoPc.recheck k x).duty c := by
  cases k with
  | read => exact duty_afterRead c x
  | write => rfl
  | hangup => rfl

/-- A thread that proceeds to another program point without a message or a chunk. -/
theorem cycle_setIoPc {pc' : IoPc} (ha : pc'.announced r.data = (s.io t).pc.announced r.data)
    (hr : pc'.reading r.data = (s.io t).pc.reading r.data)
    (hk : chunkFor r.data pc'.chunk? = chunkFor r.data (s.io t).pc.chunk?) :
    (s.setIoPc t pc').cycle t r = { s.cycle t r with
      readAhead := pc'.readAhead r.data || (s.io t).batch.any (Event.reads r.data)
      writeAhead := pc'.writeAhead r.data || (s.io t).batch.any (Event.writes r.data)
      waiting := pc'.waits
      stage := pc'.writeStage r.data } := by
  have hasked : (s.setIoPc t pc').asked t r.data = s.asked t r.data := by
    rw [State.asked, State.asked, setIoPc_io, Function.update_self, hk]
    rfl
  have htold : (s.setIoPc t pc').told t r.data = s.told t r.data := by
    rw [State.told, State.told, setIoPc_io, Function.update_self, ha]
    rfl
  simp only [State.cycle, IoThread.readAhead, IoThread.writeAhead, hasked, htold, setIoPc_io,
    setIoPc_conns, setIoPc_kernel, Function.update_self, hr]

/-- The moves of the thread are runs of the exchanges with its connections. -/
theorem IoMove.exchange {pc pc' : IoPc} (h : IoMove s t pc pc') (hpc : (s.io t).pc = pc)
    (hi : Owned s) (ho : s.owner r.data = .registered t)
    (hcreate : ∀ x data, pc = .rdCreate x data → x.conn = r.data → pc' ≠ .rdRead x) :
    Relation.ReflTransGen (RequestCycle.Step Fits response) (s.cycle t r)
      ((s.setIoPc t pc').cycle t r) := by
  have hsame : pc'.duty r.data = pc.duty r.data →
      Relation.ReflTransGen (RequestCycle.Step Fits response) (s.cycle t r)
        ((s.setIoPc t pc').cycle t r) := by
    intro hduty
    have hp : ((s.setIoPc t pc').io t).pc.duty r.data = (s.io t).pc.duty r.data := by
      rw [setIoPc_io, Function.update_self, hpc]
      exact hduty
    have hasked : chunkFor r.data pc'.chunk? = chunkFor r.data pc.chunk? :=
      congrArg Duty.asked hduty
    have hann : pc'.announced r.data = pc.announced r.data := congrArg Duty.announced hduty
    rw [cycle_eq rfl rfl (by simp) hp ?_ ?_ (.refl _) rfl rfl]
    · rw [State.asked, State.asked, setIoPc_io, Function.update_self, hpc, hasked]
      rfl
    · rw [State.told, State.told, setIoPc_io, Function.update_self, hpc, hann]
      rfl
  -- the thread gives up what it was to do, or begins to wait without any event
  have hproceed : ∀ {wt : Bool}, pc'.announced r.data = pc.announced r.data →
      pc'.reading r.data = pc.reading r.data →
      chunkFor r.data pc'.chunk? = chunkFor r.data pc.chunk? →
      pc'.writeStage r.data = pc.writeStage r.data → pc'.readAhead r.data = false →
      (pc'.writeAhead r.data = true → pc.writeAhead r.data = true) → pc'.waits = wt →
      (wt = true → pc'.writeAhead r.data = false ∧ (s.io t).batch = []) →
      Relation.ReflTransGen (RequestCycle.Step Fits response) (s.cycle t r)
        ((s.setIoPc t pc').cycle t r) := by
    intro wt ha hreading hchunk hstage hread hwrite hwaits hwt
    have hstep : RequestCycle.Step Fits response (s.cycle t r) _ := .proceed (s.cycle t r)
      ((s.io t).batch.any (Event.reads r.data))
      (pc'.writeAhead r.data || (s.io t).batch.any (Event.writes r.data)) wt
      (fun hrd => Bool.or_eq_true_iff.mpr (.inr hrd)) ?_ ?_
    · rw [cycle_setIoPc (by rw [hpc, ha]) (by rw [hpc, hreading]) (by rw [hpc, hchunk]),
        hread, hwaits, hstage, Bool.false_or]
      convert Relation.ReflTransGen.single hstep using 1
      simp only [State.cycle, hpc]
    · intro hwr
      change ((s.io t).pc.writeAhead r.data || _) = true
      rw [hpc]
      rcases Bool.or_eq_true_iff.mp hwr with hold | hold
      · rw [hwrite hold, Bool.true_or]
      · rw [hold, Bool.or_true]
    · intro htrue
      obtain ⟨hno, hempty⟩ := hwt htrue
      right
      rw [hno, hempty]
      exact ⟨rfl, rfl⟩
  cases h with
  | msgSkip msg hskip =>
    have htype := (hi.message t msg (.inr (congrArg IoPc.message? hpc))).1
    have hne := ne_of_invalid hi ho (hskip htype)
    exact hsame (by simp [hne, IoPc.chunk?])
  | evInvalid x hv =>
    have hne := ne_of_invalid hi ho hv
    exact hsame (by simp [hne, IoPc.chunk?])
  | nowInvalid k x hv =>
    have hne := ne_of_invalid hi ho hv
    refine hsame ?_
    cases k <;> simp [hne, IoPc.chunk?]
  | fdLoaded x => exact hsame (duty_afterFd ..)
  | stillValid k x hv => exact hsame (duty_afterCheck ..)
  | createFailed x data =>
    have hne : x.conn ≠ r.data := fun hc => hcreate x data rfl hc rfl
    exact hsame (by simp [hne, IoPc.chunk?])
  | stop hs => exact hproceed rfl rfl rfl rfl rfl id rfl (by rintro ⟨⟩)
  | returned => exact hproceed rfl rfl rfl rfl rfl id rfl (by rintro ⟨⟩)
  | batchDone hb => exact hproceed rfl rfl rfl rfl rfl id rfl fun _ => ⟨rfl, hb⟩
  | readAgain x hv => exact hproceed rfl rfl rfl rfl rfl id rfl (by rintro ⟨⟩)
  | writeNothing x hv =>
    by_cases hx : x.conn = r.data
    · have hstep : RequestCycle.Step Fits response (s.cycle t r) _ := .nothing (s.cycle t r)
        (by simp [State.cycle, hpc]) (by rw [hx] at hv; exact hv)
      rw [cycle_setIoPc (by simp [hpc]) (by simp [hpc]) (by simp [hpc, IoPc.chunk?])]
      convert Relation.ReflTransGen.single hstep using 1
      simp [State.cycle, IoThread.readAhead, IoThread.writeAhead, hpc, hx]
    · exact hsame (by simp [hx, IoPc.chunk?])
  | writeSome x hv =>
    by_cases hx : x.conn = r.data
    · have hstep : RequestCycle.Step Fits response (s.cycle t r) _ := .enter (s.cycle t r)
        (by simp [State.cycle, IoThread.writeAhead, hpc, hx]) (by simp [State.cycle, hpc])
        (by rw [hx] at hv; exact hv)
      rw [cycle_setIoPc (by simp [hpc]) (by simp [hpc]) (by simp [hpc, IoPc.chunk?])]
      convert Relation.ReflTransGen.single hstep using 1
      simp [State.cycle, IoThread.readAhead, IoThread.writeAhead, hpc, hx]
    · exact hsame (by simp [hx, IoPc.chunk?])
  | finalDone x hv =>
    by_cases hx : x.conn = r.data
    · have hstep : RequestCycle.Step Fits response (s.cycle t r) _ := .done (s.cycle t r)
        (by simp [State.cycle, hpc, hx]) (by rw [hx] at hv; exact hv)
      rw [cycle_setIoPc (by simp [hpc]) (by simp [hpc]) (by simp [hpc, IoPc.chunk?])]
      convert Relation.ReflTransGen.single hstep using 1
      simp [State.cycle, IoThread.readAhead, IoThread.writeAhead, hpc, hx]
    · exact hsame (by simp [hx, IoPc.chunk?])
  | finalMore x hv =>
    by_cases hx : x.conn = r.data
    · have hstep : RequestCycle.Step Fits response (s.cycle t r) _ := .leave (s.cycle t r)
        ((s.io t).batch.any (Event.writes r.data))
        (by simp [State.cycle, IoThread.writeAhead, hpc, hx]) (by simp [State.cycle, hpc, hx])
          (by rw [hx] at hv; exact hv)
      rw [cycle_setIoPc (by simp [hpc]) (by simp [hpc]) (by simp [hpc, IoPc.chunk?])]
      convert Relation.ReflTransGen.single hstep using 1
      simp [State.cycle, IoThread.readAhead, hpc]
    · exact hsame (by simp [hx, IoPc.chunk?])
  | _ => exact hsame rfl

/-! ### The other steps of the thread -/

/-- Collecting an event. -/
theorem exchanges_collect (hl : Listed s) {f₀ : Fd} {ev : EventMask} {r₀ : Registration}
    (hpc : (s.io t).pc = .wait) (hr₀ : s.kernel.reg t f₀ = some r₀)
    (hmask : r₀.data = r'.data → r₀.mask = .readEt ∨ r₀.mask = .writeEt)
    (hread : r₀.data = r'.data → ev.read = true → r₀.mask.read = true)
    (hwrite : r₀.data = r'.data → ev.write = true → r₀.mask.write = true)
    (hf : s'.conns = s.conns) (hw : s'.worker = s.worker) (hq : s'.queue = s.queue)
    (hk : s'.kernel = s.kernel.setReg t f₀ (some { r₀ with
      pendRead := r₀.pendRead && !ev.read
      pendWrite := r₀.pendWrite && !ev.write }))
    (hio : s'.io t = { s.io t with batch := (s.io t).batch ++ [.conn r₀.data ev] })
    (hr' : s'.kernel.reg t f = some r') : Exchanges s s' t f r' := by
  have hasked : ∀ c, s'.asked t c = s.asked t c := by
    intro c
    rw [State.asked, State.asked, hw, hq, hio]
  have htold : ∀ c, s'.told t c = s.told t c := by
    intro c
    rw [State.told, State.told, hw, hio]
  have hsocks : s'.kernel.socks = s.kernel.socks := by
    rw [hk]
    rfl
  rw [hk] at hr'
  by_cases hff : f = f₀
  · subst hff
    simp only [Kernel.setReg_reg, Function.update_self, Option.some.injEq] at hr'
    subst hr'
    refine .old r₀ hr₀ rfl id (.single ?_)
    have hone : r₀.mask.read = true → r₀.mask.write = false := by
      rcases hmask rfl with hm | hm <;> simp [hm]
    have hstep : RequestCycle.Step Fits response (s.cycle t r₀) _ :=
      .collect (s.cycle t r₀) ev.read ev.write (by simp [State.cycle, hpc])
        (fun hrd => hone (hread rfl hrd)) (fun hwr => hwrite rfl hwr)
    convert hstep using 1
    simp [State.cycle, IoThread.readAhead, IoThread.writeAhead, hasked, htold, hio, hf, hsocks,
      Bool.or_assoc]
  · have hr : s.kernel.reg t f = some r' := by
      simpa [hff] using hr'
    have hne : r₀.data ≠ r'.data := fun hc => hff (hl.fd_inj hr hr₀ hc.symm)
    have hsame : s'.cycle t r' = s.cycle t r' := by
      simp [State.cycle, IoThread.readAhead, IoThread.writeAhead, hasked, htold, hio, hf,
        hsocks, hne]
    refine .old r' hr rfl id ?_
    rw [hsame]

/-- Switching a connection to writing for a message. -/
theorem exchanges_msgMod (hd : ConnFiles s) (hl : Listed s) {msg : IoMessage}
    (hpc : (s.io t).pc = .msgMod msg)
    (hr' : (s.kernel.eventLoopMod t (s.conns msg.conn).fd .writeEt msg.conn).reg t f = some r') :
    Exchanges s
      ((s.setKernel (s.kernel.eventLoopMod t (s.conns msg.conn).fd .writeEt msg.conn)).setIoPc t
        (.msgRelease msg)) t f r' := by
  rcases hl.reg_mod hd hr' with ⟨hr, hne⟩ | ⟨r, hr, hc, rfl⟩
  · refine exchanges_quiet hr rfl rfl ?_ (by simp) (by simp) rfl rfl (.refl _) rfl ?_
    · simp [hpc, hne.symm, IoPc.chunk?]
    · exact congrArg Sock.written (congrFun (socks_eventLoopMod ..) _)
  · rw [← hc]
    refine .old r hr rfl (fun _ => .inr rfl) (.single ?_)
    have htold : s.told t r.data = ∑ w, ((s.worker w).announces r.data).toNat +
        AdvancedServer.messageRefs (s.io t).msgQueue r.data + 1 := by
      rw [State.told, hpc]
      simp [hc]
    have hasked :
        ((s.setKernel (s.kernel.eventLoopMod t (s.conns r.data).fd .writeEt r.data)).setIoPc t
          (.msgRelease msg)).asked t r.data = s.asked t r.data := by
      rw [State.asked, State.asked, setIoPc_io, Function.update_self, hpc]
      rfl
    have hstep : RequestCycle.Step Fits response (s.cycle t r) _ := .toWrite (s.cycle t r) _ htold
      (by simp [State.cycle, hpc]) (by simp [State.cycle, hpc])
    convert hstep using 1
    simp [State.cycle, hasked, State.told, socks_eventLoopMod, IoThread.readAhead,
      IoThread.writeAhead, hpc]

/-- Switching a connection back to reading. -/
theorem exchanges_backToRead (hd : ConnFiles s) (hl : Listed s) {x : EventContext}
    (hpc : (s.io t).pc = .wrIdle x ∨ (s.io t).pc = .wrMod x)
    (hr' : (s.backToRead t x).kernel.reg t f = some r') :
    Exchanges s (s.backToRead t x) t f r' := by
  have hk : (s.conns x.conn).SameBuffer (s.conns x.conn).setReading := ⟨rfl, rfl, rfl, rfl, rfl⟩
  have hbuffer : ∀ c, (s.conns c).SameBuffer ((s.backToRead t x).conns c) := sameBuffer_update hk
  have hsocks : (s.backToRead t x).kernel.socks = s.kernel.socks := socks_eventLoopMod ..
  have hio : (s.backToRead t x).io t = { s.io t with pc := .recheck .write x } := by
    simp [State.backToRead]
  have hchunks : ∀ c, ((s.backToRead t x).conns c).chunks = (s.conns c).chunks := by
    intro c
    by_cases hc : c = x.conn
    · subst hc; simp [State.backToRead]
    · simp [State.backToRead, hc]
  rcases hl.reg_mod hd hr' with ⟨hr, hne⟩ | ⟨r, hr, hc, rfl⟩
  · refine exchanges_quiet hr rfl rfl ?_ (by rw [hio]) (by rw [hio]) rfl rfl (hbuffer _) (hchunks _)
      (by rw [hsocks])
    rw [hio]
    rcases hpc with hpc | hpc <;> simp [hpc, hne.symm, IoPc.chunk?]
  · rw [← hc]
    refine .old r hr rfl (fun _ => .inl rfl) (.single ?_)
    have hasked : (s.backToRead t x).asked t r.data = s.asked t r.data := by
      rw [State.asked, State.asked, hio]
      rcases hpc with hpc | hpc <;> simp [State.backToRead, hpc, IoPc.chunk?]
    have htold : (s.backToRead t x).told t r.data = s.told t r.data := by
      rw [State.told, State.told, hio]
      rcases hpc with hpc | hpc <;> simp [State.backToRead, hpc]
    have hstep : RequestCycle.Step Fits response (s.cycle t r) _ := .toRead (s.cycle t r)
      ((s.io t).batch.any (Event.writes r.data)) (fun hwr => Bool.or_eq_true_iff.mpr (.inr hwr))
      (by rcases hpc with hpc | hpc <;> simp [State.cycle, hpc, hc])
      (by rcases hpc with hpc | hpc <;> simp [State.cycle, hpc])
    have hbuf := hbuffer r.data
    convert hstep using 1
    rcases hpc with hpc | hpc <;>
      simp [State.cycle, IoThread.readAhead, IoThread.writeAhead, hasked, htold, hio, hpc, hsocks,
        hchunks, hbuf.buf, hbuf.pos, hbuf.size, hbuf.sock]

/-- Reading a chunk from the socket of a connection. -/
theorem exchanges_readData (hi : Owned s) (hd : ConnFiles s) {x : EventContext} {len : ℕ}
    {data : List UInt8} {k : Kernel n} (hpc : (s.io t).pc = .rdRead x)
    (hk : s.kernel.readBytes (s.conns x.conn).fd len = some (data, k)) (hpaced : s.Paced r'.data)
    (hr' : (s.readData t x data k).kernel.reg t f = some r') :
    Exchanges s (s.readData t x data k) t f r' := by
  have hactive : (s.io t).pc.role = .active x.conn := congrArg IoPc.role hpc
  obtain ⟨sk, hsk, hpos, hmax, hlen, hdata, rfl⟩ := Kernel.readBytes_eq hk
  rw [sockAt_active hi hd hactive] at hsk
  cases hsk
  have hr : s.kernel.reg t f = some r' := hr'
  have hsame : (s.conns x.conn).SameBuffer (s.conns x.conn).setReading := ⟨rfl, rfl, rfl, rfl, rfl⟩
  have hbuf := sameBuffer_update hsame r'.data
  have hwritten :
      ((s.kernel.setSock (s.conns x.conn).sock { s.kernel.socks (s.conns x.conn).sock with
      unread := (s.kernel.socks (s.conns x.conn).sock).unread.drop len }).socks
        (s.conns r'.data).sock).written = (s.kernel.socks (s.conns r'.data).sock).written := by
    refine written_setSock ?_ _
    rfl
  have hchunks : (Function.update s.conns x.conn (s.conns x.conn).setReading r'.data).chunks =
      (s.conns r'.data).chunks := by
    by_cases hc : r'.data = x.conn
    · rw [hc, Function.update_self]
      rfl
    · rw [Function.update_of_ne hc]
  by_cases hc : x.conn = r'.data
  · have hunread : (s.kernel.socks (s.conns r'.data).sock).unread ≠ [] := by
      rintro hnil
      rw [hc, hnil, List.length_nil] at hlen
      omega
    have hfits : Fits data := by
      refine responseFits_of_length_le ?_
      rw [hdata, List.length_take]
      omega
    have hanswered : (s.cycle t r').Answered response := by
      have hbytes := hpaced hunread
      have hheard : (s.cycle t r').heard = (s.conns r'.data).chunks := by
        simp [State.cycle, hpc]
      rw [RequestCycle.Answered, hheard]
      exact hbytes
    refine .old r' hr rfl id (.single ?_)
    have hstep : RequestCycle.Step Fits response (s.cycle t r') _ := .read (s.cycle t r') data hfits
      (by simp [State.cycle, IoThread.readAhead, hpc, hc]) (by simp [State.cycle, hpc]) hanswered
    have hasked : ∀ k, (s.readData t x data k).asked t r'.data = data ::ₘ s.asked t r'.data := by
      intro k
      rw [State.asked, State.asked, hpc]
      simp only [State.readData, setIo_io, Function.update_self, setIo_queue, setConn_queue,
        setKernel_queue, setIo_worker, setConn_worker, setKernel_worker, IoPc.chunk?, chunkFor_some,
        chunkFor_none, if_pos hc, zero_add, Multiset.singleton_add, Multiset.cons_add]
    have htold : ∀ k, (s.readData t x data k).told t r'.data = s.told t r'.data := by
      intro k
      rw [State.told, State.told, hpc]
      simp [State.readData]
    convert hstep using 1
    simp only [State.cycle, hasked, htold]
    simp [State.readData, IoThread.readAhead, IoThread.writeAhead, hpc, hc]
  · refine exchanges_quiet hr rfl rfl ?_ (by simp [State.readData]) (by simp [State.readData]) rfl
      rfl hbuf hchunks hwritten
    simp [State.readData, hpc, hc, IoPc.chunk?]

/-- Making a task of a chunk. -/
theorem exchanges_createTask {x : EventContext} {data : List UInt8}
    (hpc : (s.io t).pc = .rdCreate x data) (hr : s.kernel.reg t f = some r') :
    Exchanges s ((s.setConn x.conn ((s.conns x.conn).acquire.addChunk data)).setIoPc t
      (.rdSubmit x { type := .process, conn := x.conn, data := data })) t f r' := by
  by_cases hc : x.conn = r'.data
  · refine .old r' hr rfl id ?_
    have hasked : ((s.setConn x.conn ((s.conns x.conn).acquire.addChunk data)).setIoPc t
        (.rdSubmit x { type := .process, conn := x.conn, data := data })).asked t r'.data =
          s.asked t r'.data := by
      rw [State.asked, State.asked, setIoPc_io, Function.update_self, hpc]
      rfl
    have htold : ((s.setConn x.conn ((s.conns x.conn).acquire.addChunk data)).setIoPc t
        (.rdSubmit x { type := .process, conn := x.conn, data := data })).told t r'.data =
          s.told t r'.data := by
      rw [State.told, State.told, setIoPc_io, Function.update_self, hpc]
      rfl
    have hsame : ((s.setConn x.conn ((s.conns x.conn).acquire.addChunk data)).setIoPc t
        (.rdSubmit x { type := .process, conn := x.conn, data := data })).cycle t r' =
          s.cycle t r' := by
      simp only [State.cycle, hasked, htold]
      simp [IoThread.readAhead, IoThread.writeAhead, hpc, hc]
    rw [hsame]
  · refine exchanges_quiet hr rfl rfl ?_ (by simp) (by simp) rfl rfl ?_ ?_ rfl
    · simp [hpc, hc, IoPc.chunk?]
    · rw [setIoPc_conns, setConn_conns, Function.update_of_ne (Ne.symm hc)]
      exact .refl _
    · rw [setIoPc_conns, setConn_conns, Function.update_of_ne (Ne.symm hc)]

/-- Submitting a task. -/
theorem exchanges_submit (hi : Owned s) {x : EventContext} {task : Task}
    (hpc : (s.io t).pc = .rdSubmit x task) (hr : s.kernel.reg t f = some r') :
    Exchanges s ((s.setQueue (s.queue ++ [task])).setIoPc t (.rdRead x)) t f r' := by
  have hconn : task.conn = x.conn := by
    have hrole := (hi.submitting t task (by rw [hpc]; rfl)).2
    rw [hpc] at hrole
    exact (Role.active.inj hrole).symm
  by_cases hc : task.conn = r'.data
  · refine .old r' hr rfl id ?_
    have hasked : ((s.setQueue (s.queue ++ [task])).setIoPc t (.rdRead x)).asked t r'.data =
        s.asked t r'.data := by
      rw [State.asked, State.asked, setIoPc_io, Function.update_self, hpc]
      have hqueue : (((s.queue ++ [task]).filter fun task => task.conn = r'.data).map Task.data :
          Multiset (List UInt8)) =
            ((s.queue.filter fun task => task.conn = r'.data).map Task.data : List _) +
              {task.data} := by
        rw [List.filter_append, List.filter_cons_of_pos (by simpa using hc), List.filter_nil,
          List.map_append]
        rfl
      change 0 + (((s.queue ++ [task]).filter fun task => task.conn = r'.data).map Task.data :
        Multiset (List UInt8)) + _ = chunkFor r'.data (some (task.conn, task.data)) + _ + _
      rw [hqueue, chunkFor_some, if_pos hc, zero_add,
        add_comm ({task.data} : Multiset (List UInt8))]
      rfl
    have htold : ((s.setQueue (s.queue ++ [task])).setIoPc t (.rdRead x)).told t r'.data =
        s.told t r'.data := by
      rw [State.told, State.told, setIoPc_io, Function.update_self, hpc]
      rfl
    have hsame : ((s.setQueue (s.queue ++ [task])).setIoPc t (.rdRead x)).cycle t r' =
        s.cycle t r' := by
      simp only [State.cycle, hasked, htold]
      simp [IoThread.readAhead, IoThread.writeAhead, hpc, hconn ▸ hc]
    rw [hsame]
  · refine exchanges_quiet hr rfl rfl ?_ (by simp) (by simp) rfl ?_ (.refl _) rfl rfl
    · simp [hpc, hc, hconn ▸ hc, IoPc.chunk?]
    · simp [hc]

/-- Writing to the socket of a connection. -/
theorem exchanges_wrote (hi : Owned s) (hd : ConnFiles s) (hl : Listed s) {x : EventContext}
    {len : ℕ} {room : Bool} {k : Kernel n} (hpc : (s.io t).pc = .wrLoop x)
    (hk : s.kernel.writeBytes (s.conns x.conn).fd (s.conns x.conn).unsent len room = some k)
    (hr' : (s.wroteData t x len k).kernel.reg t f = some r') :
    Exchanges s (s.wroteData t x len k) t f r' := by
  have hactive : (s.io t).pc.role = .active x.conn := congrArg IoPc.role hpc
  have hborn : s.owner x.conn ≠ .unborn := by rw [(hi.io t).active x.conn hactive]; nofun
  obtain ⟨sk, hsk, -, hlen, -, rfl⟩ := Kernel.writeBytes_eq hk
  rw [sockAt_active hi hd hactive] at hsk
  cases hsk
  have hr : s.kernel.reg t f = some r' := hr'
  have hborn' : s.owner r'.data ≠ .unborn := by rw [(hl.registered hr).1]; nofun
  by_cases hc : x.conn = r'.data
  · refine .old r' hr rfl id (.single ?_)
    rw [hc] at hlen
    have hstep : RequestCycle.Step Fits response (s.cycle t r') _ := .write (s.cycle t r') len
      (by simp [State.cycle, hpc, hc]) hlen
    have hunsent : (s.cycle t r').unsent = (s.conns r'.data).unsent := rfl
    have hasked : ∀ k, (s.wroteData t x len k).asked t r'.data = s.asked t r'.data := by
      intro k
      rw [State.asked, State.asked, hpc]
      simp [wroteData, IoPc.chunk?]
    have htold : ∀ k, (s.wroteData t x len k).told t r'.data = s.told t r'.data := by
      intro k
      rw [State.told, State.told, hpc]
      simp [wroteData]
    convert hstep using 1
    rw [hunsent]
    simp only [State.cycle, hasked, htold]
    simp [wroteData, IoThread.readAhead, IoThread.writeAhead, hpc, hc]
  · have hconns : (s.wroteData t x len (s.kernel.setSock (s.conns x.conn).sock
        { s.kernel.socks (s.conns x.conn).sock with
          writable := room
          written := (s.kernel.socks (s.conns x.conn).sock).written ++
            (s.conns x.conn).unsent.take len })).conns r'.data = s.conns r'.data := by
      rw [wroteData, setIo_conns, setConn_conns, Function.update_of_ne (Ne.symm hc),
        setKernel_conns]
    refine exchanges_quiet hr rfl rfl ?_ (by simp [wroteData]) (by simp [wroteData]) rfl rfl ?_ ?_
      (congrArg Sock.written (socks_setSock_ne hd hc hborn hborn' _))
    · simp [wroteData, hpc, hc, IoPc.chunk?]
    · rw [hconns]
      exact .refl _
    · rw [hconns]

/-- Emptying the buffer of a connection. -/
theorem exchanges_reset {x : EventContext} (hpc : (s.io t).pc = .wrReset x)
    (hr : s.kernel.reg t f = some r') :
    Exchanges s ((s.setConn x.conn (s.conns x.conn).resetWrite).setIoPc t (.wrMod x)) t f r' := by
  by_cases hc : x.conn = r'.data
  · refine .old r' hr rfl id (.single ?_)
    have hstep : RequestCycle.Step Fits response (s.cycle t r') _ := .reset (s.cycle t r')
      (by simp [State.cycle, hpc, hc])
    have hasked :
        ((s.setConn x.conn (s.conns x.conn).resetWrite).setIoPc t (.wrMod x)).asked t r'.data =
          s.asked t r'.data := by
      rw [State.asked, State.asked, setIoPc_io, Function.update_self, hpc]
      rfl
    have htold :
        ((s.setConn x.conn (s.conns x.conn).resetWrite).setIoPc t (.wrMod x)).told t r'.data =
          s.told t r'.data := by
      rw [State.told, State.told, setIoPc_io, Function.update_self, hpc]
      rfl
    convert hstep using 1
    simp only [State.cycle, hasked, htold]
    simp [IoThread.readAhead, IoThread.writeAhead, hpc, hc]
  · refine exchanges_quiet hr rfl rfl ?_ (by simp) (by simp) rfl rfl ?_ ?_ rfl
    · simp [hpc, hc, IoPc.chunk?]
    · rw [setIoPc_conns, setConn_conns, Function.update_of_ne (Ne.symm hc)]
      exact .refl _
    · rw [setIoPc_conns, setConn_conns, Function.update_of_ne (Ne.symm hc)]

/-! ### A connection just registered -/

/-- Nothing is on its way for a connection that no event loop has accepted. -/
theorem asked_eq_zero (hi : Owned s) {c : ConnId} (hl : (s.owner c).loop = none) :
    s.asked t c = 0 := by
  have hne : ∀ {c' : ConnId}, s.Adopted c' → c' ≠ c := by
    rintro c' ⟨t', ht'⟩ rfl
    rw [hl] at ht'
    cases ht'
  have hchunk : ∀ {o : Option (ConnId × List UInt8)}, (∀ q, o = some q → s.Adopted q.1) →
      chunkFor c o = 0 := by
    intro o ho
    cases o with
    | none => rfl
    | some q => rw [chunkFor_some, if_neg (hne (ho q rfl))]
  have hio : chunkFor c (s.io t).pc.chunk? = 0 := by
    refine hchunk fun q hq => ?_
    cases hpc : (s.io t).pc with
    | rdCreate x data =>
      rw [hpc] at hq
      cases hq
      exact ⟨t, Owner.loop_of_known (.inl ((hi.io t).active _ (by rw [hpc]; rfl)))⟩
    | rdSubmit x task =>
      have hsub := (hi.submitting t task (by rw [hpc]; rfl)).2
      rw [hpc] at hq
      cases hq
      exact ⟨t, Owner.loop_of_known (.inl ((hi.io t).active _ hsub))⟩
    | _ => rw [hpc] at hq; cases hq
  have hqueue : (s.queue.filter fun task => task.conn = c) = [] :=
    List.filter_eq_nil_iff.mpr fun task htask => by simpa using hne (hi.queued task htask).2
  have hworker : ∑ w, chunkFor c (s.worker w).chunk? = 0 := by
    refine Finset.sum_eq_zero fun w _ => hchunk fun q hq => ?_
    cases hpc : s.worker w with
    | check task | install task =>
      rw [hpc] at hq
      cases hq
      exact (hi.held w task (by rw [hpc]; rfl)).2
    | _ => rw [hpc] at hq; cases hq
  rw [State.asked, hio, hqueue, hworker]
  rfl

theorem told_eq_zero (hi : Owned s) {c : ConnId} (hl : (s.owner c).loop = none) :
    s.told t c = 0 := by
  have hne : ∀ {c' : ConnId}, s.Adopted c' → c' ≠ c := by
    rintro c' ⟨t', ht'⟩ rfl
    rw [hl] at ht'
    cases ht'
  have hworker : ∑ w, ((s.worker w).announces c).toNat = 0 := by
    refine Finset.sum_eq_zero fun w _ => ?_
    cases hpc : s.worker w with
    | sendTest task | sendAlloc task t' | sendAcquire task t' | sendLink task t' =>
      have hconn := hne (hi.held w task (by rw [hpc]; rfl)).2
      simp [WorkerPc.announces, hconn]
    | _ => rfl
  have hqueue : AdvancedServer.messageRefs (s.io t).msgQueue c = 0 :=
    List.countP_eq_zero.mpr fun msg hmsg => by simpa using hne ⟨t, (hi.message t msg (.inl hmsg)).2⟩
  have hio : (s.io t).pc.announced c = false := by
    cases hpc : (s.io t).pc with
    | msgCheck msg | msgMod msg =>
      have hconn := hne ⟨t, (hi.message t msg (.inr (by rw [hpc]; rfl))).2⟩
      simp [hconn]
    | _ => rfl
  rw [State.told, hworker, hqueue, hio]
  rfl

/-- Nothing was written to the sockets whose connection is not registered yet. -/
structure Blank (s : State n m) : Prop where
  fresh : ∀ f sk, s.main.socket? = some (f, sk) → (s.kernel.socks sk).written = []
  unused : ∀ c, s.owner c ≠ .unborn → (s.owner c).loop = none →
    (s.kernel.socks (s.conns c).sock).written = []

theorem Blank.step (h : Blank s) (hi : Owned s) (hd : Descriptors cfg s) {a : Action n m}
    (hs : (server m cfg).step s a = some s') : Blank s' := by
  refine ⟨fun f sk hsk => fresh_step hi hd h.fresh hs hsk, fun c hb' hl' => ?_⟩
  have hl : (s.owner c).loop = none := by
    rcases (step_spec hs).owner hi c with heq | hmove
    · rw [← heq]
      exact hl'
    · by_contra hne
      obtain ⟨t', ht'⟩ := Option.ne_none_iff_exists'.mp hne
      rw [hmove.loop_mono ht'] at hl'
      cases hl'
  by_cases hb : s.owner c = .unborn
  · obtain ⟨t', f, sk, hpc, rfl, rfl⟩ := created_of_step hi hs hb hb'
    rw [createConnection_conns, Function.update_self]
    exact h.fresh f sk (congrArg MainPc.socket? hpc)
  · have hactive : ∀ {t' : Fin n} {x : EventContext}, (s.io t').pc.role = .active x.conn →
        x.conn ≠ c := by
      rintro t' x hrole rfl
      rw [(hi.io t').active x.conn hrole] at hl
      cases hl
    cases step_bufferChange hi hd.conn hs hb with
    | same hk hv =>
      rw [hk.sock, hv]
      exact h.unused c hb hl
    | install w ok task hpc hf hc hs' =>
      obtain ⟨t', ht'⟩ := (hi.held w task (by rw [hpc]; rfl)).2
      rw [hc, hl] at ht'
      cases ht'
    | wrote t' r x len room hpc hc hlen hs' => exact absurd hc (hactive (congrArg IoPc.role hpc))
    | reset t' r x hpc hc hs' => exact absurd hc (hactive (congrArg IoPc.role hpc))

theorem reachable_blank (h : (server m cfg).Reachable s) : Blank s := by
  refine TransitionSystem.Reachable.invariant ?_ ?_ h
  · rintro _ rfl
    exact ⟨nofun, fun c hb => absurd rfl hb⟩
  · intro s a s' hr hblank hs
    exact hblank.step (reachable_owned hr) (reachable_descriptors hr) hs

/-- The exchange with a connection that is registered begins. -/
theorem cycle_registered (hi : Owned s) (hblank : Blank s) {c : ConnId} {f₀ : Fd}
    (hpc : (s.io t).pc = .pipeAdd c) :
    ((((s.setKernel (s.kernel.setReg t f₀ (some (s.kernel.arm f₀ .readEt c)))).setConn c
      ((s.conns c).setOwner (.registered t))).setIo t
        { s.io t with pc := .next, connectionsHandled := (s.io t).connectionsHandled + 1 }).cycle t
          (s.kernel.arm f₀ .readEt c)).Inv Fits response := by
  have ho : s.owner c = .adopter t := ((hi.io t).adopting c).mp (congrArg IoPc.role hpc)
  have hloop : (s.owner c).loop = none := by rw [ho]; rfl
  have hborn : s.owner c ≠ .unborn := by rw [ho]; nofun
  obtain ⟨-, hchunks, -, hpos, hsize⟩ := (hi.conn c).untouched hloop
  have hwritten := hblank.unused c hborn hloop
  have hasked : s.asked t c = 0 := asked_eq_zero hi hloop
  have htold : s.told t c = 0 := told_eq_zero hi hloop
  have hread : (s.io t).batch.any (Event.reads c) = false := by
    rw [List.any_eq_false]
    rintro (_ | _ | ⟨c', ev⟩) hmem hev
    · cases hev
    · cases hev
    · simp only [Event.reads, Bool.and_eq_true, decide_eq_true_eq] at hev
      have hl := (hi.io t).batch c' ev hmem
      rw [hev.1, hloop] at hl
      cases hl
  have hwrite : (s.io t).batch.any (Event.writes c) = false := by
    rw [List.any_eq_false]
    rintro (_ | _ | ⟨c', ev⟩) hmem hev
    · cases hev
    · cases hev
    · simp only [Event.writes, Bool.and_eq_true, decide_eq_true_eq] at hev
      have hl := (hi.io t).batch c' ev hmem
      rw [hev.1, hloop] at hl
      cases hl
  have hasked' :
      ((((s.setKernel (s.kernel.setReg t f₀ (some (s.kernel.arm f₀ .readEt c)))).setConn c
        ((s.conns c).setOwner (.registered t))).setIo t { s.io t with
        pc := .next, connectionsHandled := (s.io t).connectionsHandled + 1 }).asked t c) = 0 := by
    rw [← hasked, State.asked, State.asked, setIo_io, Function.update_self, hpc]
    rfl
  have htold' : ((((s.setKernel (s.kernel.setReg t f₀ (some (s.kernel.arm f₀ .readEt c)))).setConn c
      ((s.conns c).setOwner (.registered t))).setIo t
        { s.io t with pc := .next, connectionsHandled := (s.io t).connectionsHandled + 1 }).told t
          c) =
        0 := by
    rw [← htold, State.told, State.told, setIo_io, Function.update_self, hpc]
    rfl
  have hinitial : (RequestCycle.initial (s.conns c).writeBuf).Inv Fits response :=
    RequestCycle.inv_initial _
  convert hinitial using 1
  simp only [State.cycle, Kernel.arm_data, hasked', htold']
  simp [RequestCycle.initial, IoThread.readAhead, IoThread.writeAhead, hread, hwrite, hchunks,
    hpos, hsize, hwritten]

/-! ### All steps -/

/-- Wherever the connection is registered, its mask asks for reading or for writing, and its
exchange is in order. -/
def State.Exchanging (s : State n m) (c : ConnId) : Prop :=
  ∀ t f r, s.kernel.reg t f = some r → r.data = c →
    (r.mask = .readEt ∨ r.mask = .writeEt) ∧ (s.cycle t r).Inv Fits response

theorem eq_ok_of_create {res : IoResult} {c : ConnId}
    (hok : s.impairs (s.conns c).sock (.io t res) = false) {x : EventContext} {data : List UInt8}
    (hpc : (s.io t).pc = .rdCreate x data) (hc : x.conn = c) : res = .ok := by
  simpa [State.impairs, hpc, hc] using hok

/-- `task_create` succeeds for a connection whose allocations do. -/
theorem create_succeeds {res : IoResult} {c : ConnId} (hs : s.ioStep cfg t res = some s')
    (hok : s.impairs (s.conns c).sock (.io t res) = false) {x : EventContext} {data : List UInt8}
    (hpc : (s.io t).pc = .rdCreate x data) (hc : x.conn = c) :
    (s'.io t).pc = .rdSubmit x { type := .process, conn := x.conn, data := data } := by
  obtain rfl := eq_ok_of_create hok hpc hc
  simp only [ioStep, hpc, State.createTask, Option.some.injEq] at hs
  rw [← hs, setIoPc_io, Function.update_self]

/-- A step of the thread while it collects events, seen from an entry of its interest list. -/
theorem exchanges_wait (hi : Owned s) (hl : Listed s) (hex : s.Exchanging r'.data) {res : IoResult}
    (hs : s.ioStep cfg t res = some s') (hpc : (s.io t).pc = .wait)
    (hok : s.impairs (s.conns r'.data).sock (.io t res) = false)
    (hr' : s'.kernel.reg t f = some r') :
    Exchanges s s' t f r' := by
  simp only [ioStep, hpc] at hs
  cases res with
  | ok =>
    cases hs
    have hmove : IoMove s t (s.io t).pc .next := hpc ▸ .returned
    refine .old r' hr' rfl id (hmove.exchange rfl hi (hl.registered hr').1 fun x data hcreate => ?_)
    rw [hpc] at hcreate
    cases hcreate
  | event e =>
    dsimp only at hs
    split at hs
    · cases e with
      | pipe =>
        rw [collect] at hs
        split at hs <;> cases hs
        refine .old r' hr' rfl id ?_
        have hsame : (s.setIo t
            { s.io t with pipeEdge := false, batch := (s.io t).batch ++ [.pipe] }).cycle t r' =
            s.cycle t r' := by
          simp [State.cycle, State.asked, State.told, IoThread.readAhead, IoThread.writeAhead]
        rw [hsame]
      | msgPipe =>
        rw [collect] at hs
        split at hs <;> cases hs
        refine .old r' hr' rfl id ?_
        have hsame : (s.setIo t
            { s.io t with msgEdge := false, batch := (s.io t).batch ++ [.msgPipe] }).cycle t r' =
            s.cycle t r' := by
          simp [State.cycle, State.asked, State.told, IoThread.readAhead, IoThread.writeAhead]
        rw [hsame]
      | fd f₀ ev =>
        rw [collect] at hs
        split at hs
        · cases hs
        · next r₀ hr₀ =>
          cases hs
          simp only [State.impairs, hpc, hr₀, Option.any_some, Bool.and_eq_false_imp,
            decide_eq_true_eq, Bool.or_eq_false_iff, Bool.not_eq_false'] at hok
          refine exchanges_collect hl hpc hr₀ (fun hc => (hex t f₀ r₀ hr₀ hc).1)
            (fun hc => (hok (hc ▸ rfl)).1) (fun hc => (hok (hc ▸ rfl)).2)
            rfl rfl rfl rfl ?_ hr'
          rw [setIo_io, Function.update_self]
    · cases hs
  | _ => cases hs

/-- A step of the thread, seen from an entry of its interest list. -/
theorem exchanges_own (hi : Owned s) (hd : ConnFiles s) (hl : Listed s) (hl' : Listed s')
    (htorn : TornDown s) (hblank : Blank s) (hex : s.Exchanging r'.data) (hpaced : s.Paced r'.data)
    {res : IoResult} (hs : s.ioStep cfg t res = some s')
    (hok : s.impairs (s.conns r'.data).sock (.io t res) = false)
    (hr' : s'.kernel.reg t f = some r') : Exchanges s s' t f r' := by
  by_cases hwait : (s.io t).pc = .wait
  · exact exchanges_wait hi hl hex hs hwait hok hr'
  have hstep : IoStep cfg s t s' := ioStep_spec hs
  have howner := (hl'.registered hr').1
  have hcreate : ∀ x data, (s.io t).pc = .rdCreate x data → x.conn = r'.data →
      (s'.io t).pc ≠ .rdRead x := by
    intro x data hpc hc hread
    rw [create_succeeds hs hok hpc hc] at hread
    cases hread
  -- the step changes neither the duty of the thread nor a task for the connection
  have hpass : s.kernel.reg t f = some r' → (s'.io t).pc.duty r'.data = (s.io t).pc.duty r'.data →
      (s'.io t).batch = (s.io t).batch → (s'.io t).msgQueue = (s.io t).msgQueue →
      s'.queue = s.queue → (s.conns r'.data).SameBuffer (s'.conns r'.data) →
      (s'.conns r'.data).chunks = (s.conns r'.data).chunks → s'.kernel.socks = s.kernel.socks →
      Exchanges s s' t f r' :=
    fun hr hp hb hmsg hq hk hc hv =>
      exchanges_quiet hr rfl rfl hp hb hmsg hstep.worker_eq (by rw [hq]) hk hc (by rw [hv])
  have hconn : ∀ {c : ConnId} {k : Conn n}, s'.conns = Function.update s.conns c k →
      (s.conns c).SameBuffer k → k.chunks = (s.conns c).chunks →
      (s.conns r'.data).SameBuffer (s'.conns r'.data) ∧
        (s'.conns r'.data).chunks = (s.conns r'.data).chunks := by
    intro c k hconns hk hchunks
    rw [hconns]
    refine ⟨sameBuffer_update hk _, ?_⟩
    by_cases hc : r'.data = c
    · rw [hc, Function.update_self, hchunks]
    · rw [Function.update_of_ne hc]
  cases hstep with
  | @move pc' hm =>
    rw [setIoPc_io, Function.update_self] at hcreate
    have ho := (hl.registered hr').1
    exact .old r' hr' rfl id (hm.exchange rfl hi ho hcreate)
  | collectPipe hpc | collectMsg hpc | collectFd hpc => exact absurd hpc hwait
  | @nextPipe rest hpc hb =>
    refine .old r' hr' rfl id ?_
    have hsame : (s.setIo t { s.io t with pc := .pipeRead, batch := rest }).cycle t r' =
        s.cycle t r' := by
      simp [State.cycle, State.asked, State.told, IoThread.readAhead, IoThread.writeAhead, hpc, hb,
        IoPc.chunk?]
    rw [hsame]
  | @nextMsg rest hpc hb =>
    refine .old r' hr' rfl id ?_
    have hsame : (s.setIo t { s.io t with pc := .msgRead, batch := rest }).cycle t r' =
        s.cycle t r' := by
      simp [State.cycle, State.asked, State.told, IoThread.readAhead, IoThread.writeAhead, hpc, hb,
        IoPc.chunk?]
    rw [hsame]
  | @nextConn c ev rest hpc hb =>
    refine .old r' hr' rfl id ?_
    have hsame :
        (s.setIo t { s.io t with pc := .evCheck ⟨c, ev, none⟩, batch := rest }).cycle t r' =
            s.cycle t r' := by
      simp [State.cycle, State.asked, State.told, IoThread.readAhead, IoThread.writeAhead, hpc, hb,
        IoPc.chunk?]
    rw [hsame]
  | @drain msg rest hpc hq =>
    refine .old r' hr' rfl id ?_
    have htold : (s.setIo t { s.io t with pc := .msgCheck msg, msgQueue := rest }).told t r'.data =
        s.told t r'.data := by
      rw [State.told, State.told, setIo_io, Function.update_self, hpc, hq]
      by_cases hc : msg.conn = r'.data
      · simp [AdvancedServer.messageRefs, hc, add_assoc]
      · simp [AdvancedServer.messageRefs, hc]
    have hsame : (s.setIo t { s.io t with pc := .msgCheck msg, msgQueue := rest }).cycle t r' =
        s.cycle t r' := by
      simp only [State.cycle, htold]
      simp [State.asked, IoThread.readAhead, IoThread.writeAhead, hpc, IoPc.chunk?]
    rw [hsame]
  | readWake hpc | msgRead hpc =>
    exact hpass hr' (by simp [hpc, IoPc.chunk?]) (by simp) (by simp) rfl (.refl _) rfl rfl
  | readConn hpc | adopt hpc =>
    obtain ⟨hk, hc⟩ := hconn rfl ⟨rfl, rfl, rfl, rfl, rfl⟩ rfl
    exact hpass hr' (by simp [hpc, IoPc.chunk?]) (by simp) (by simp) rfl hk hc rfl
  | @register c k hpc hk =>
    obtain ⟨hbuf, hchunks⟩ := hconn rfl ⟨rfl, rfl, rfl, rfl, rfl⟩ rfl
    obtain ⟨f₀, hfd, hopen, hnone, rfl⟩ := Kernel.eventLoopAdd_eq hk
    rcases Kernel.reg_of_setReg hr' with hr | ⟨-, rfl, rfl⟩
    · exact hpass hr (by simp [hpc, IoPc.chunk?]) (by simp) (by simp) rfl hbuf hchunks rfl
    · exact .new rfl (cycle_registered hi hblank hpc)
  | @reject c hpc =>
    obtain ⟨hk, hc⟩ := hconn (rejectConnection_conns ..) ⟨rfl, rfl, rfl, rfl, rfl⟩ rfl
    exact hpass (reg_of_connRelease hr') (by simp [rejectConnection, hpc, IoPc.chunk?])
      (by simp [rejectConnection]) (by simp [rejectConnection]) rfl hk hc (socks_connRelease s c)
  | msgMod hpc => exact exchanges_msgMod hd hl hpc hr'
  | @msgRelease msg hpc =>
    obtain ⟨hk, hc⟩ := hconn rfl ⟨rfl, rfl, rfl, rfl, rfl⟩ rfl
    exact hpass (reg_of_connRelease hr') (by simp [hpc, IoPc.chunk?]) (by simp) (by simp) rfl hk hc
      (socks_connRelease s msg.conn)
  | readData hpc hk => exact exchanges_readData hi hd hpc hk hpaced hr'
  | createTask hpc => exact exchanges_createTask hpc hr'
  | @createLeak x data hpc =>
    have hne : x.conn ≠ r'.data := fun hc => hcreate x data hpc hc (by simp)
    obtain ⟨hk, hc⟩ := hconn rfl ⟨rfl, rfl, rfl, rfl, rfl⟩ rfl
    exact hpass hr' (by simp [hpc, hne, IoPc.chunk?]) (by simp) (by simp) rfl hk hc rfl
  | submitLeak hpc hshut =>
    obtain ⟨hpool, hqueue⟩ := htorn.no_shutdown (t := t) (by rw [hpc]; rintro ⟨⟩)
    rw [hpool, hqueue] at hshut
    rcases hshut with hshut | hshut <;> cases hshut
  | submit hpc hq => exact exchanges_submit hi hpc hr'
  | backToRead hpc => exact exchanges_backToRead hd hl hpc hr'
  | wrote hpc hlt hk => exact exchanges_wrote hi hd hl hpc hk hr'
  | reset hpc => exact exchanges_reset hpc hr'
  | @closeMark k x hpc =>
    have hne : x.conn ≠ r'.data := by
      intro hc
      rw [State.owner, ← hc, markClosing_conns, Function.update_self] at howner
      cases howner
    obtain ⟨hk, hc⟩ := hconn (markClosing_conns ..) ⟨rfl, rfl, rfl, rfl, rfl⟩ rfl
    refine hpass (reg_of_connMarkClosing hr') ?_ (by simp [State.markClosing])
      (by simp [State.markClosing]) rfl
      hk hc (socks_connMarkClosing s x.conn)
    simp only [State.markClosing, setIoPc_io, Function.update_self, hpc]
    cases k <;> simp [hne, IoPc.chunk?]
  | @closeDel k x fd hpc =>
    exact hpass (Kernel.reg_of_eventLoopDel hr') (by simp [hpc, IoPc.chunk?]) (by simp)
      (by simp) rfl (.refl _)
      rfl (socks_eventLoopDel ..)
  | @closeRelease k x hpc =>
    have hne : x.conn ≠ r'.data := by
      intro hc
      rw [State.owner, ← hc, releaseOwner_conns, Function.update_self] at howner
      cases howner
    obtain ⟨hk, hc⟩ := hconn (releaseOwner_conns ..) ⟨rfl, rfl, rfl, rfl, rfl⟩ rfl
    refine hpass (reg_of_connRelease hr') ?_ (by simp [releaseOwner]) (by simp [releaseOwner])
      rfl hk hc (socks_connRelease s x.conn)
    simp only [releaseOwner, setIoPc_io, Function.update_self, hpc]
    cases k <;> simp [hne, IoPc.chunk?]

/-- A step of the server, seen from an entry of an interest list. -/
theorem step_exchanges (hi : Owned s) (hd : ConnFiles s) (hl : Listed s) (hl' : Listed s')
    (htorn : TornDown s) (hblank : Blank s) (hex : s.Exchanging r'.data) (hpaced : s.Paced r'.data)
    {a : Action n m} (hs : (server m cfg).step s a = some s')
    (hok : s.impairs (s.conns r'.data).sock a = false) (hr' : s'.kernel.reg t f = some r') :
    Exchanges s s' t f r' := by
  cases a with
  | main res => exact exchanges_main hi hd hl htorn hs hr'
  | io t₀ res =>
    by_cases ht : t = t₀
    · subst ht
      exact exchanges_own hi hd hl hl' htorn hblank hex hpaced hs hok hr'
    · exact exchanges_other hi hd hl hs ht hr'
  | worker w ok =>
    have hstep : WorkerStep cfg s w s' := workerStep_spec hs
    obtain ⟨-, hinv⟩ := hex t f r' (hstep.listed hr') rfl
    refine exchanges_worker hi hl hs hok hr' fun data hdata => ?_
    obtain ⟨front, hheard, -⟩ := hinv.sent.but data hdata
    refine hinv.sent.accepted data ?_
    rw [hheard]
    exact List.mem_append_right front (List.mem_singleton.mpr rfl)
  | env e => exact exchanges_env hi hd hl hs hr'

end own

end DeepInIo.AdvancedServer
