import DeepInIo.AdvancedServer.Descriptors
import DeepInIo.Foundation.Outbox

/-!
# The stream of responses

Seen from the outside, `write_buf`, `write_pos` and `write_size` of a connection are an `Outbox`,
and the stream is the connection's socket.  The workers put responses into it, and `handle_write`
writes them.  A worker does not look whether the buffer is empty and whether it is its turn; as long
as no response is put in at the wrong time (`State.clobbers`), every step of the server is at most
one step of every outbox (`outbox_step`).
-/

namespace DeepInIo.AdvancedServer

open State

variable {n m : ℕ}

/-! ### The abstraction -/

/-- The outbox of a connection. -/
def State.outbox (s : State n m) (c : ConnId) : Outbox UInt8 where
  sent := (s.kernel.socks (s.conns c).sock).written
  pending := (s.conns c).unsent
  accepted := (s.conns c).installed

/-- The thread has seen that everything was written, and is about to empty the buffer. -/
def IoPc.resetting (c : ConnId) : IoPc → Bool
  | .wrReset x => x.conn = c
  | _ => false

namespace State

variable (s : State n m)

/-- A response to `data` may be put into the buffer of the connection: everything in it was written,
no thread is about to empty it, and the response is the next one in the order of the chunks. -/
def Ready (c : ConnId) (data : List UInt8) : Prop :=
  (s.conns c).writeSize ≤ (s.conns c).writePos ∧ (∀ t, (s.io t).pc.resetting c = false) ∧
    (s.conns c).installed ++ [response data] <+: (s.conns c).chunks.map response

instance (c : ConnId) (data : List UInt8) : Decidable (s.Ready c data) :=
  inferInstanceAs (Decidable (_ ∧ _ ∧ _))

/-- The step puts a response into a buffer that is not ready for it. -/
def clobbers : Action n m → Bool
  | .worker w _ =>
    match s.worker w with
    | .install task => responseFits task.data && !decide (s.Ready task.conn task.data)
    | _ => false
  | _ => false

end State

/-! ### One buffer -/

/-- The fields of a connection that make up its outbox. -/
structure Conn.SameBuffer (k k' : Conn n) : Prop where
  buf : k'.writeBuf = k.writeBuf
  pos : k'.writePos = k.writePos
  size : k'.writeSize = k.writeSize
  installed : k'.installed = k.installed
  sock : k'.sock = k.sock

theorem Conn.SameBuffer.refl (k : Conn n) : k.SameBuffer k := ⟨rfl, rfl, rfl, rfl, rfl⟩

theorem Conn.SameBuffer.unsent {k k' : Conn n} (h : k.SameBuffer k') : k'.unsent = k.unsent := by
  rw [Conn.unsent, Conn.unsent, h.buf, h.pos, h.size]

/-- Writing one connection without touching its outbox fields. -/
theorem sameBuffer_update {f : ConnId → Conn n} {c₀ : ConnId} {k : Conn n}
    (h : (f c₀).SameBuffer k) (c : ConnId) : (f c).SameBuffer (Function.update f c₀ k c) := by
  by_cases hc : c = c₀
  · subst hc; simpa using h
  · simpa [hc] using Conn.SameBuffer.refl (f c)

/-- Nothing is left to send once the position has reached the size. -/
theorem Conn.unsent_eq_nil {k : Conn n} (h : k.writeSize ≤ k.writePos) : k.unsent = [] := by
  rw [Conn.unsent, Nat.sub_eq_zero_of_le h, List.take_zero]

/-- There is no more to send than the position is behind the size. -/
theorem Conn.length_unsent_le (k : Conn n) : k.unsent.length ≤ k.writeSize - k.writePos :=
  List.length_take_le ..

/-- A response that fits is the whole content of the buffer after its installation. -/
theorem Conn.unsent_install (k : Conn n) {data : List UInt8} (h : responseFits data = true) :
    (k.install data).unsent = response data := by
  rw [Conn.unsent, install_writeBuf, install_writePos, install_writeSize, List.drop_zero,
    Nat.sub_zero]
  exact List.take_left' (length_response_of_fits h)

/-- What `write` has accepted is no longer in the buffer. -/
theorem Conn.unsent_advance (k : Conn n) (len : ℕ) :
    (k.advance len).unsent = k.unsent.drop len := by
  rw [Conn.unsent, Conn.unsent, advance_writeBuf, advance_writePos, advance_writeSize,
    List.drop_take, List.drop_drop, Nat.sub_sub]

/-! ### What the steps do to a buffer -/

/-- What a step does to the buffer and the socket of a connection. -/
inductive BufferChange (s s' : State n m) (c : ConnId) : Action n m → Prop
  | same {a : Action n m} (h : (s.conns c).SameBuffer (s'.conns c))
      (hw : (s'.kernel.socks (s.conns c).sock).written =
        (s.kernel.socks (s.conns c).sock).written) :
      BufferChange s s' c a
  | install (w : Fin m) (ok : Bool) (task : Task) (hpc : s.worker w = .install task)
      (hf : responseFits task.data = true) (hc : task.conn = c)
      (hs : s' = (s.setConn task.conn ((s.conns task.conn).install task.data)).setWorker w
        (.sendTest task)) : BufferChange s s' c (.worker w ok)
  | wrote (t : Fin n) (r : IoResult) (x : EventContext) (len : ℕ) (room : Bool)
      (hpc : (s.io t).pc = .wrLoop x) (hc : x.conn = c) (hlen : len ≤ (s.conns c).unsent.length)
      (hs : s' = s.wroteData t x len (s.kernel.setSock (s.conns c).sock
        { s.kernel.socks (s.conns c).sock with
          writable := room
          written := (s.kernel.socks (s.conns c).sock).written ++ (s.conns c).unsent.take len })) :
      BufferChange s s' c (.io t r)
  | reset (t : Fin n) (r : IoResult) (x : EventContext) (hpc : (s.io t).pc = .wrReset x)
      (hc : x.conn = c)
      (hs : s' = (s.setConn x.conn (s.conns x.conn).resetWrite).setIoPc t (.wrMod x)) :
      BufferChange s s' c (.io t r)

section change

variable {cfg : Config n} {s s' : State n m} {t : Fin n}

/-- Changing a socket without writing to it. -/
theorem written_setSock {k : Kernel n} {sk : SockId} {v : Sock}
    (h : v.written = (k.socks sk).written) (sk' : SockId) :
    ((k.setSock sk v).socks sk').written = (k.socks sk').written := by
  rw [Kernel.setSock_socks]
  by_cases hsk : sk' = sk
  · subst hsk; rw [Function.update_self, h]
  · rw [Function.update_of_ne hsk]

theorem socks_eventLoopMod (k : Kernel n) (t : Fin n) (o : Option Fd) (mask : EventMask)
    (c : ConnId) : (k.eventLoopMod t o mask c).socks = k.socks := by
  cases o with
  | none => rfl
  | some f => simp only [Kernel.eventLoopMod]; split <;> rfl

theorem socks_eventLoopDel (k : Kernel n) (t : Fin n) (o : Option Fd) :
    (k.eventLoopDel t o).socks = k.socks := by
  cases o <;> rfl

theorem socks_connRelease (s : State n m) (c : ConnId) :
    (s.connRelease c).kernel.socks = s.kernel.socks := by
  rw [connRelease_kernel]
  split
  · exact Kernel.close_socks ..
  · rfl

theorem socks_connMarkClosing (s : State n m) (c : ConnId) :
    (s.connMarkClosing c).kernel.socks = s.kernel.socks := by
  rw [connMarkClosing_kernel]
  split
  · rfl
  · exact Kernel.close_socks ..

/-- `handle_read` and `handle_write` work on the socket of their connection. -/
theorem sockAt_active (hi : Owned s) (hd : ConnFiles s) {c : ConnId}
    (hr : (s.io t).pc.role = .active c) :
    s.kernel.sockAt (s.conns c).fd = some (s.conns c).sock := by
  have howner := (hi.io t).active c hr
  obtain ⟨f, hf, hopen⟩ := hd.live c (by rw [howner]; rfl)
  rw [hf, Kernel.sockAt, hopen]

/-- What an IO thread does to a buffer. -/
theorem ioStep_bufferChange (hi : Owned s) (hd : ConnFiles s) {r : IoResult}
    (hs : s.ioStep cfg t r = some s') {c : ConnId} (hb : s.owner c ≠ .unborn) :
    BufferChange s s' c (.io t r) := by
  have hupdate : ∀ {c₀ : ConnId} {k : Conn n}, s'.conns = Function.update s.conns c₀ k →
      (s.conns c₀).SameBuffer k → s'.kernel.socks = s.kernel.socks →
      BufferChange s s' c (.io t r) := by
    intro c₀ k hconns hk hsocks
    refine .same ?_ (by rw [hsocks])
    rw [hconns]
    exact sameBuffer_update hk c
  have hmove : s'.conns = s.conns → s'.kernel.socks = s.kernel.socks →
      BufferChange s s' c (.io t r) := by
    intro hconns hsocks
    refine .same ?_ (by rw [hsocks])
    rw [hconns]
    exact .refl _
  cases ioStep_spec hs with
  | @wrote x len room k hpc hlt hk =>
    have hrole : (s.io t).pc.role = .active x.conn := congrArg IoPc.role hpc
    obtain ⟨sk, hsk, -, hlen, -, rfl⟩ := Kernel.writeBytes_eq hk
    rw [sockAt_active hi hd hrole] at hsk
    cases hsk
    by_cases hc : c = x.conn
    · subst hc
      exact .wrote t r x len room hpc rfl hlen rfl
    · have hx : s.owner x.conn ≠ .unborn := by
        rw [(hi.io t).active x.conn hrole]
        nofun
      have hsock : (s.conns c).sock ≠ (s.conns x.conn).sock :=
        fun heq => hc (hd.sock_inj c x.conn hb hx heq)
      refine .same ?_ ?_
      · simp only [wroteData, setIo_conns, setConn_conns, setKernel_conns, Function.update_of_ne hc]
        exact .refl _
      · simp only [wroteData, setIo_kernel, setConn_kernel, setKernel_kernel, Kernel.setSock_socks,
          Function.update_of_ne hsock]
  | @reset x hpc =>
    by_cases hc : c = x.conn
    · exact .reset t r x hpc hc.symm rfl
    · refine .same ?_ rfl
      rw [setIoPc_conns, setConn_conns, Function.update_of_ne hc]
      exact .refl _
  | register hpc hk =>
    obtain ⟨f, -, -, -, rfl⟩ := Kernel.eventLoopAdd_eq hk
    exact hupdate rfl ⟨rfl, rfl, rfl, rfl, rfl⟩ rfl
  | @readData x len data k hpc hk =>
    obtain ⟨sk, -, -, -, -, -, rfl⟩ := Kernel.readBytes_eq hk
    have hk : (s.conns x.conn).SameBuffer (s.conns x.conn).setReading := ⟨rfl, rfl, rfl, rfl, rfl⟩
    refine .same (sameBuffer_update hk c) (written_setSock ?_ _)
    rfl
  | reject =>
    exact hupdate (rejectConnection_conns ..) ⟨rfl, rfl, rfl, rfl, rfl⟩ (socks_connRelease s _)
  | closeRelease =>
    exact hupdate (releaseOwner_conns ..) ⟨rfl, rfl, rfl, rfl, rfl⟩ (socks_connRelease s _)
  | closeMark =>
    exact hupdate (markClosing_conns ..) ⟨rfl, rfl, rfl, rfl, rfl⟩ (socks_connMarkClosing s _)
  | msgRelease => exact hupdate rfl ⟨rfl, rfl, rfl, rfl, rfl⟩ (socks_connRelease s _)
  | backToRead => exact hupdate rfl ⟨rfl, rfl, rfl, rfl, rfl⟩ (socks_eventLoopMod ..)
  | msgMod => exact hmove rfl (socks_eventLoopMod ..)
  | closeDel => exact hmove rfl (socks_eventLoopDel ..)
  | readConn | adopt | createTask | createLeak | submitLeak =>
    exact hupdate rfl ⟨rfl, rfl, rfl, rfl, rfl⟩ rfl
  | _ => exact hmove rfl rfl

/-- What a step does to a buffer. -/
theorem step_bufferChange (hi : Owned s) (hd : ConnFiles s) {a : Action n m}
    (hs : (server m cfg).step s a = some s') {c : ConnId} (hb : s.owner c ≠ .unborn) :
    BufferChange s s' c a := by
  have hupdate : ∀ {c₀ : ConnId} {k : Conn n}, s'.conns = Function.update s.conns c₀ k →
      (s.conns c₀).SameBuffer k → s'.kernel.socks = s.kernel.socks → BufferChange s s' c a := by
    intro c₀ k hconns hk hsocks
    refine .same ?_ (by rw [hsocks])
    rw [hconns]
    exact sameBuffer_update hk c
  cases a with
  | io t r => exact ioStep_bufferChange hi hd hs hb
  | main r =>
    cases mainStep_spec hs with
    | @accept f hpc hfree hlt =>
      have hsock : (s.conns c).sock ≠ s.kernel.nextSock := Nat.ne_of_lt (hd.sock_lt c hb)
      refine .same (.refl _) ?_
      change (Function.update s.kernel.socks s.kernel.nextSock Sock.fresh _).written = _
      rw [Function.update_of_ne hsock]
    | @create t f sk hpc =>
      have hc : c ≠ s.nextConn := by
        rintro rfl
        exact hb ((hi.unborn _).mpr le_rfl)
      refine .same ?_ rfl
      rw [createConnection_conns, Function.update_of_ne hc]
      exact .refl _
    | handOff => exact hupdate rfl ⟨rfl, rfl, rfl, rfl, rfl⟩ rfl
    | drop =>
      exact hupdate (dropConnection_conns ..) ⟨rfl, rfl, rfl, rfl, rfl⟩ (socks_connRelease s _)
    | destroyTask => exact hupdate rfl ⟨rfl, rfl, rfl, rfl, rfl⟩ (socks_connRelease s _)
    | closeClient | closeListen | destroyLoop | ioClose0 | ioClose1 | ioLoop =>
      exact .same (.refl _)
        (congrArg (fun f => (f (s.conns c).sock).written) (Kernel.close_socks ..))
    | _ => exact .same (.refl _) rfl
  | worker w ok =>
    cases workerStep_spec hs with
    | @install task hpc hf =>
      by_cases hc : c = task.conn
      · exact .install w ok task hpc hf hc.symm rfl
      · refine .same ?_ rfl
        rw [setWorker_conns, setConn_conns, Function.update_of_ne hc]
        exact .refl _
    | acquire => exact hupdate rfl ⟨rfl, rfl, rfl, rfl, rfl⟩ rfl
    | closeMark => exact hupdate rfl ⟨rfl, rfl, rfl, rfl, rfl⟩ (socks_connMarkClosing s _)
    | closeRelease | destroy => exact hupdate rfl ⟨rfl, rfl, rfl, rfl, rfl⟩ (socks_connRelease s _)
    | _ => exact .same (.refl _) rfl
  | env e =>
    cases envStep_spec hs with
    | arrive => exact .same (.refl _) rfl
    | sock _ hw => exact .same (.refl _) (written_setSock hw _)

/-! ### Steps of the outboxes -/

/-- A thread about to empty a buffer finds everything in it written. -/
def State.ResetsSent (s : State n m) : Prop :=
  ∀ t x, (s.io t).pc = .wrReset x → (s.conns x.conn).writeSize ≤ (s.conns x.conn).writePos

/-- Installing a response that does not clobber the buffer. -/
theorem ready_of_not_clobbers {w : Fin m} {ok : Bool} {task : Task}
    (hok : s.clobbers (.worker w ok) = false) (hpc : s.worker w = .install task)
    (hf : responseFits task.data = true) : s.Ready task.conn task.data := by
  simp only [State.clobbers, hpc, hf, Bool.true_and, Bool.not_eq_false', decide_eq_true_eq] at hok
  exact hok

/-- A step that does not clobber a buffer is at most one step of every outbox. -/
theorem outbox_step (hi : Owned s) (hd : ConnFiles s) (hreset : s.ResetsSent) {a : Action n m}
    (hs : (server m cfg).step s a = some s') (hok : s.clobbers a = false) {c : ConnId}
    (hb : s.owner c ≠ .unborn) :
    s'.outbox c = s.outbox c ∨ Outbox.Step (s.outbox c) (s'.outbox c) := by
  cases step_bufferChange hi hd hs hb with
  | same h hw =>
    left
    rw [State.outbox, State.outbox, h.unsent, h.installed, h.sock, hw]
  | install w ok task hpc hf hc hs' =>
    right
    subst hc hs'
    obtain ⟨hsent, -, -⟩ := ready_of_not_clobbers hok hpc hf
    have hput :=
      Outbox.Step.put (s.outbox task.conn) (response task.data) (Conn.unsent_eq_nil hsent)
    simpa [State.outbox, Conn.unsent_install _ hf] using hput
  | wrote t r x len room hpc hc hlen hs' =>
    right
    subst hc hs'
    have hwrite := Outbox.Step.write (s.outbox x.conn) len
    simpa [State.outbox, wroteData, Conn.unsent_advance] using hwrite
  | reset t r x hpc hc hs' =>
    left
    subst hc hs'
    have hempty : (s.conns x.conn).resetWrite.unsent = [] := Conn.unsent_eq_nil le_rfl
    simp [State.outbox, hempty, Conn.unsent_eq_nil (hreset t x hpc)]

/-- A thread gets to empty a buffer by finding everything in it written. -/
theorem IoStep.resetting (h : IoStep cfg s t s') {x : EventContext}
    (hpc' : (s'.io t).pc = .wrReset x) :
    (s.io t).pc = .wrFinal x ∧ (s.conns x.conn).writeSize ≤ (s.conns x.conn).writePos ∧
      s'.conns = s.conns := by
  cases h with
  | move hm =>
    simp only [setIoPc_io, Function.update_self] at hpc'
    generalize hpc : (s.io t).pc = pc at hm
    subst hpc'
    generalize hpc' : IoPc.wrReset x = pc' at hm
    cases hm with
    | finalDone x' hle => cases hpc'; exact ⟨rfl, hle, rfl⟩
    | fdLoaded x' =>
      unfold afterFd afterRead at hpc'
      split_ifs at hpc'
    | stillValid k x' =>
      unfold afterCheck afterRead at hpc'
      split_ifs at hpc'
    | _ => cases hpc'
  | @closeRelease k x₀ hpc =>
    simp only [releaseOwner, setIoPc_io, Function.update_self] at hpc'
    split at hpc' <;> cases hpc'
  | collectPipe hpc | collectMsg hpc | collectFd hpc =>
    simp only [setIo_io, Function.update_self] at hpc'
    rw [hpc] at hpc'
    cases hpc'
  | _ =>
    simp only [rejectConnection, State.markClosing, State.backToRead, State.readData, wroteData,
      setIo_io, setIoPc_io, Function.update_self] at hpc'
    cases hpc'

/-- A step that does not clobber a buffer keeps what the emptying threads know. -/
theorem resetsSent_step (hi : Owned s) (hd : ConnFiles s) (hreset : s.ResetsSent) {a : Action n m}
    (hs : (server m cfg).step s a = some s') (hok : s.clobbers a = false) : s'.ResetsSent := by
  intro t x hpc'
  rcases (step_spec hs).own_or_other hi t with h | ⟨hpc, -, -⟩
  · obtain ⟨-, hle, hconns⟩ := h.resetting hpc'
    rw [hconns]
    exact hle
  · rw [hpc] at hpc'
    have howner := (hi.io t).active x.conn (congrArg IoPc.role hpc')
    cases step_bufferChange hi hd hs (c := x.conn) (by rw [howner]; nofun) with
    | same h _ =>
      rw [h.pos, h.size]
      exact hreset t x hpc'
    | install w ok task hpcw hf hc _ =>
      have hnot := (ready_of_not_clobbers hok hpcw hf).2.1 t
      rw [hpc', hc] at hnot
      simp [IoPc.resetting] at hnot
    | wrote t₀ r x₀ len room hpc₀ hc _ hs' =>
      -- only one thread owns the connection
      have howner₀ := (hi.io t₀).active x₀.conn (congrArg IoPc.role hpc₀)
      rw [hc, howner] at howner₀
      cases howner₀
      rw [hpc'] at hpc₀
      cases hpc₀
    | reset t₀ r x₀ hpc₀ hc hs' =>
      subst hs'
      rw [setIoPc_conns, setConn_conns, hc, Function.update_self]
      exact le_rfl

/-! ### The run -/

/-- An IO thread touches the sockets of its own connections only. -/
theorem IoStep.socks_eq (h : IoStep cfg s t s') (hi : Owned s) (hd : ConnFiles s) {sk : SockId}
    (hsk : ∀ c, s.owner c = .registered t → (s.conns c).sock ≠ sk) :
    s'.kernel.socks sk = s.kernel.socks sk := by
  cases h with
  | @wrote x len room k hpc hlt hk =>
    have hrole : (s.io t).pc.role = .active x.conn := congrArg IoPc.role hpc
    obtain ⟨sk₀, hsk₀, -, -, -, rfl⟩ := Kernel.writeBytes_eq hk
    rw [sockAt_active hi hd hrole] at hsk₀
    cases hsk₀
    exact Function.update_of_ne (hsk x.conn ((hi.io t).active x.conn hrole)).symm _ _
  | @readData x len data k hpc hk =>
    have hrole : (s.io t).pc.role = .active x.conn := congrArg IoPc.role hpc
    obtain ⟨sk₀, hsk₀, -, -, -, -, rfl⟩ := Kernel.readBytes_eq hk
    rw [sockAt_active hi hd hrole] at hsk₀
    cases hsk₀
    exact Function.update_of_ne (hsk x.conn ((hi.io t).active x.conn hrole)).symm _ _
  | register hpc hk =>
    obtain ⟨f, -, -, -, rfl⟩ := Kernel.eventLoopAdd_eq hk
    rfl
  | reject | closeRelease | msgRelease => exact congrFun (socks_connRelease s _) sk
  | closeMark => exact congrFun (socks_connMarkClosing s _) sk
  | backToRead | msgMod => exact congrFun (socks_eventLoopMod ..) sk
  | closeDel => exact congrFun (socks_eventLoopDel ..) sk
  | _ => rfl

/-- A worker touches no socket. -/
theorem WorkerStep.socks_eq {w : Fin m} (h : WorkerStep cfg s w s') :
    s'.kernel.socks = s.kernel.socks := by
  cases h with
  | closeMark => exact socks_connMarkClosing s _
  | closeRelease | destroy => exact socks_connRelease s _
  | _ => rfl

/-- The main thread touches no socket that it has accepted. -/
theorem MainStep.socks_eq (h : MainStep cfg s s') {sk : SockId} (hsk : sk ≠ s.kernel.nextSock) :
    s'.kernel.socks sk = s.kernel.socks sk := by
  cases h with
  | accept => exact Function.update_of_ne hsk _ _
  | drop | destroyTask => exact congrFun (socks_connRelease s _) sk
  | closeClient | closeListen | destroyLoop | ioClose0 | ioClose1 | ioLoop =>
    exact congrFun (Kernel.close_socks ..) sk
  | _ => rfl

/-- The chunks of a connection only become more. -/
theorem chunks_grow (hi : Owned s) {a : Action n m} (hs : (server m cfg).step s a = some s')
    (c : ConnId) : (s.conns c).chunks <+: (s'.conns c).chunks := by
  have hupdate : ∀ {c₀ : ConnId} {k : Conn n}, (s.conns c₀).chunks <+: k.chunks →
      (s.conns c).chunks <+: (Function.update s.conns c₀ k c).chunks := by
    intro c₀ k hk
    by_cases hc : c = c₀
    · subst hc; simpa using hk
    · simp [hc]
  cases a with
  | main r =>
    cases mainStep_spec hs with
    | create =>
      refine hupdate ?_
      rw [hi.fresh _ ((hi.unborn _).mpr le_rfl)]
      exact List.prefix_rfl
    | drop =>
      rw [dropConnection_conns]
      exact hupdate List.prefix_rfl
    | handOff | destroyTask => exact hupdate List.prefix_rfl
    | _ => exact List.prefix_rfl
  | io t r =>
    cases ioStep_spec hs with
    | createTask => exact hupdate (List.prefix_append ..)
    | reject =>
      rw [rejectConnection_conns]
      exact hupdate List.prefix_rfl
    | closeMark =>
      rw [markClosing_conns]
      exact hupdate List.prefix_rfl
    | closeRelease =>
      rw [releaseOwner_conns]
      exact hupdate List.prefix_rfl
    | readConn | adopt | register | msgRelease | readData | createLeak | submitLeak
    | backToRead | wrote | reset => exact hupdate List.prefix_rfl
    | _ => exact List.prefix_rfl
  | worker w ok =>
    cases workerStep_spec hs with
    | install | acquire | closeMark | closeRelease | destroy => exact hupdate List.prefix_rfl
    | _ => exact List.prefix_rfl
  | env e => cases envStep_spec hs <;> exact List.prefix_rfl

/-- A connection is created for the socket the main thread has accepted. -/
theorem created_of_step (hi : Owned s) {a : Action n m} (hs : (server m cfg).step s a = some s')
    {c : ConnId} (hu : s.owner c = .unborn) (hb : s'.owner c ≠ .unborn) :
    ∃ t f sk, s.main = .create t f sk ∧ s' = s.createConnection t f sk ∧ c = s.nextConn := by
  have hold : s'.conns c = s.conns c → s'.owner c = s.owner c := congrArg Conn.owner
  cases a with
  | main r =>
    have hne : ∀ {c₀ : ConnId}, s.main.creating = some c₀ → c ≠ c₀ := by
      rintro c₀ hpc rfl
      rw [(hi.creator c).mpr hpc] at hu
      cases hu
    have h := mainStep_spec hs
    cases h with
    | @create t f sk hpc =>
      by_cases hc : c = s.nextConn
      · exact ⟨t, f, sk, hpc, rfl, hc⟩
      · refine absurd ((hold ?_).trans hu) hb
        rw [createConnection_conns, Function.update_of_ne hc]
    | @handOff t c₀ f sk hpc hlt =>
      refine absurd ((hold ?_).trans hu) hb
      rw [handOff_conns, Function.update_of_ne (hne (congrArg MainPc.creating hpc))]
    | @drop c₀ f sk hpc =>
      refine absurd ((hold ?_).trans hu) hb
      rw [dropConnection_conns, Function.update_of_ne (hne (congrArg MainPc.creating hpc))]
    | @destroyTask task rest hpc hq =>
      refine absurd ?_ hb
      rw [owner_setQueue, owner_connRelease, hu]
    | _ => exact absurd ((hold rfl).trans hu) hb
  | io t r => exact absurd ((hold ((ioStep_spec hs).fresh hi hu)).trans hu) hb
  | worker w ok => exact absurd ((hold ((workerStep_spec hs).fresh hi hu)).trans hu) hb
  | env e => cases envStep_spec hs <;> exact absurd hu hb

/-- Nothing was written to a socket that has no connection yet. -/
theorem fresh_step (hi : Owned s) (hd : Descriptors cfg s)
    (hfresh : ∀ f sk, s.main.socket? = some (f, sk) → (s.kernel.socks sk).written = [])
    {a : Action n m} (hs : (server m cfg).step s a = some s') {f : Fd} {sk : SockId}
    (hsk : s'.main.socket? = some (f, sk)) : (s'.kernel.socks sk).written = [] := by
  cases a with
  | main r =>
    cases mainStep_spec hs with
    | accept =>
      cases hsk
      change (Function.update s.kernel.socks s.kernel.nextSock Sock.fresh _).written = []
      rw [Function.update_self]
      rfl
    | @getThread f₀ sk₀ hpc hlt =>
      have hold : s.main.socket? = some (f₀, sk₀) := congrArg MainPc.socket? hpc
      exact hfresh f sk (hold.trans hsk)
    | acceptIntr => exact hfresh f sk hsk
    | destroyLoop | ioFree =>
      rw [setMain_main, socket?_nextDestroy] at hsk
      cases hsk
    | destroyTask hpc =>
      change s.main.socket? = _ at hsk
      rw [hpc] at hsk
      cases hsk
    | _ => cases hsk
  | io t r =>
    have hstep := ioStep_spec hs
    rw [hstep.main_eq] at hsk
    have hother := (hd.main.accepted f sk hsk).2
    rw [hstep.socks_eq hi hd.conn fun c ho => hother c (by rw [ho]; nofun)]
    exact hfresh f sk hsk
  | worker w ok =>
    have hstep := workerStep_spec hs
    rw [hstep.main_eq] at hsk
    rw [hstep.socks_eq]
    exact hfresh f sk hsk
  | env e =>
    cases envStep_spec hs with
    | arrive => exact hfresh f sk hsk
    | sock _ hw =>
      have hsame := written_setSock hw sk
      exact hsame.trans (hfresh f sk hsk)

/-- What is known of every buffer in a run in which none is clobbered. -/
structure Streams (s : State n m) : Prop where
  resets : s.ResetsSent
  inv : ∀ c, s.owner c ≠ .unborn → (s.outbox c).Inv
  ordered : ∀ c, (s.conns c).installed <+: (s.conns c).chunks.map response
  fresh : ∀ f sk, s.main.socket? = some (f, sk) → (s.kernel.socks sk).written = []

/-- A step that clobbers no buffer keeps the streams in order. -/
theorem Streams.step (h : Streams s) (hi : Owned s) (hd : Descriptors cfg s) {a : Action n m}
    (hs : (server m cfg).step s a = some s') (hok : s.clobbers a = false) : Streams s' := by
  have hi' := (step_spec hs).owned hi
  refine ⟨resetsSent_step hi hd.conn h.resets hs hok, fun c hb' => ?_, fun c => ?_,
    fun f sk hsk => ?_⟩
  · by_cases hb : s.owner c = .unborn
    · obtain ⟨t, f, sk, hpc, rfl, rfl⟩ := created_of_step hi hs hb hb'
      have hfresh := h.fresh f sk (congrArg MainPc.socket? hpc)
      have hnew : (s.createConnection t f sk).conns s.nextConn = Conn.create f sk t := by
        rw [createConnection_conns, Function.update_self]
      rw [State.outbox, hnew]
      change Outbox.Inv ⟨(s.kernel.socks sk).written, _, []⟩
      rw [hfresh]
      exact Outbox.inv_empty
    · rcases outbox_step hi hd.conn h.resets hs hok hb with heq | hstep
      · rw [heq]
        exact h.inv c hb
      · exact hstep.inv (h.inv c hb)
  · by_cases hb : s.owner c = .unborn
    · by_cases hb' : s'.owner c = .unborn
      · rw [hi'.fresh c hb']
        exact List.prefix_rfl
      · obtain ⟨t, f, sk, -, rfl, rfl⟩ := created_of_step hi hs hb hb'
        rw [createConnection_conns, Function.update_self]
        exact List.nil_prefix
    · have hchunks := (chunks_grow hi hs c).map response
      cases step_bufferChange hi hd.conn hs hb with
      | same hk _ =>
        rw [hk.installed]
        exact (h.ordered c).trans hchunks
      | install w ok task hpc hf hc hs' =>
        obtain ⟨-, -, hnext⟩ := ready_of_not_clobbers hok hpc hf
        subst hc hs'
        simpa using hnext
      | wrote t r x len room hpc hc hlen hs' =>
        subst hc hs'
        simpa [wroteData] using h.ordered x.conn
      | reset t r x hpc hc hs' =>
        subst hc hs'
        simpa using h.ordered x.conn
  · exact fresh_step hi hd h.fresh hs hsk

/-- In every run in which a response is only put into a connection's buffer when everything in it
was written, no thread is about to empty it, and it is the next response in the order of the chunks,
the bytes written to the socket are a prefix of the responses to the chunks. -/
theorem response_stream
    (h : (server m cfg).ReachableUnder (fun s a => s.clobbers a = false) s) (c : ConnId)
    (hc : c < s.nextConn) :
    (s.kernel.socks (s.conns c).sock).written <+: ((s.conns c).chunks.map response).flatten := by
  have hstreams : Streams s := by
    refine h.invariant ?_ ?_
    · rintro _ rfl
      exact ⟨nofun, fun c hb => absurd rfl hb, fun c => List.prefix_rfl, nofun⟩
    · intro s a s' hr hstreams hok hs
      exact hstreams.step (reachable_owned hr.reachable) (reachable_descriptors hr.reachable) hs hok
  have hborn : s.owner c ≠ .unborn := fun hu =>
    absurd (((reachable_owned h.reachable).unborn c).mp hu) (not_le.mpr hc)
  exact (hstreams.inv c hborn).sent_initial (hstreams.ordered c)

/-- One request, answered before the next one comes: the response arrives. -/
theorem response_stream_answered :
    ∃ s : State 1 1, (s.kernel.socks (s.conns 0).sock).written = response [65] ∧
      (s.kernel.socks (s.conns 0).sock).written <+: ((s.conns 0).chunks.map response).flatten := by
  obtain ⟨s, hs, hp⟩ := (server 1 (Config.fresh 1)).exists_of_execUnder
    (fun s a => s.clobbers a = false)
    (List.flatten [Action.connect 10, Action.adopt 0, [.env (.data 10 [65])],
      Action.deliver 0 10 { read := true }, Action.readOne 0 1,
      [.io 0 .again, .io 0 .ok, .io 0 .ok, .io 0 .ok], Action.work 0 11, Action.drainMessages 0 1,
      Action.deliver 0 10 { write := true }, [.io 0 .ok, .io 0 (.wrote 95 true)]])
    (fun s => decide ((s.kernel.socks (s.conns 0).sock).written = response [65] ∧ 0 < s.nextConn))
      rfl
    (by decide +kernel)
  obtain ⟨hw, hc⟩ := of_decide_eq_true hp
  exact ⟨s, hw, response_stream hs 0 hc⟩

/-- Two chunks are read before the first response is sent: the second response overwrites the first
one, and only the second one is sent. -/
theorem second_response_overwrites :
    ∃ s : State 1 1, (server 1 (Config.fresh 1)).Reachable s ∧ (s.conns 0).chunks = [[65], [66]] ∧
      (s.kernel.socks (s.conns 0).sock).written = response [66] ∧
      ¬(s.kernel.socks (s.conns 0).sock).written <+: ((s.conns 0).chunks.map response).flatten := by
  obtain ⟨s, hs, hp⟩ := (server 1 (Config.fresh 1)).exists_of_exec
    (List.flatten [Action.connect 10, Action.adopt 0, [.env (.data 10 [65])],
      Action.deliver 0 10 { read := true }, Action.readOne 0 1, [.env (.data 10 [66])],
      Action.readOne 0 1, [.io 0 .again, .io 0 .ok, .io 0 .ok, .io 0 .ok], Action.work 0 22,
      Action.drainMessages 0 2, Action.deliver 0 10 { write := true },
      [.io 0 .ok, .io 0 (.wrote 95 true)]])
    (fun s => decide ((s.conns 0).chunks = [[65], [66]] ∧
      (s.kernel.socks (s.conns 0).sock).written = response [66] ∧
      ¬(s.kernel.socks (s.conns 0).sock).written <+: ((s.conns 0).chunks.map response).flatten)) rfl
    (by decide +kernel)
  exact ⟨s, hs, of_decide_eq_true hp⟩

end change

end DeepInIo.AdvancedServer
