import DeepInIo.AdvancedServer.ClientView
import DeepInIo.AdvancedServer.ResponseStream

/-!
# The steps of the server for one client

`State.clientStep` tells which step the machine of a socket takes when the server takes a step, and
`Shows` what it means that the machine shows what the server has of that socket.  It is proved
thread by thread that the machine shows it in every state of a run (`Shows.step`).
-/

namespace DeepInIo.AdvancedServer

open State

variable {n m : ℕ}

/-! ### Which step is taken -/

/-- The chunk of which an IO thread makes a task, with its connection. -/
def IoPc.chunk? : IoPc → Option (ConnId × List UInt8)
  | .rdCreate x data => some (x.conn, data)
  | .rdSubmit _ task => some (task.conn, task.data)
  | _ => none

/-- The chunk that a worker is going to answer, with its connection. -/
def WorkerPc.chunk? : WorkerPc n → Option (ConnId × List UInt8)
  | .check task | .install task => some (task.conn, task.data)
  | _ => none

/-- The functions that move the data of a connection are at these points of an IO thread. -/
def IoPc.movesData : IoPc → Bool
  | .rdRead _ | .rdCreate .. | .rdSubmit .. | .wrLoop _ | .wrReset _ => true
  | _ => false

namespace State

variable (s : State n m) (sk : SockId)

/-- The step of an IO thread for the client behind the socket. -/
def ioClientStep (t : Fin n) (r : IoResult) : Option (ClientStep n m) :=
  match (s.io t).pc with
  | .rdRead x =>
    match r with
    | .got len => if (s.conns x.conn).sock = sk then some (.read t len) else none
    | _ => none
  | .rdCreate x _ =>
    match r with
    | .fail | .failData => if (s.conns x.conn).sock = sk then some (.drop t) else none
    | _ => none
  | .rdSubmit _ task =>
    if (s.conns task.conn).sock = sk then
      some (if s.poolShutdown || s.queueShutdown then .drop t else .submit t)
    else none
  | .wrLoop x =>
    match r with
    | .wrote len _ =>
      if (s.conns x.conn).sock = sk ∧ (s.conns x.conn).writePos < (s.conns x.conn).writeSize then
        some (.write len)
      else none
    | _ => none
  | .wrReset x => if (s.conns x.conn).sock = sk then some .reset else none
  | _ => none

/-- The step of a worker for the client behind the socket. -/
def workerClientStep (w : Fin m) : Option (ClientStep n m) :=
  match s.worker w with
  | .pop =>
    match s.queue with
    | task :: _ => if (s.conns task.conn).sock = sk then some (.pop w) else none
    | [] => none
  | .check task =>
    if (s.conns task.conn).sock = sk ∧ s.dispatchTask task ≠ .install task then some (.skip w)
      else none
  | .install task => if (s.conns task.conn).sock = sk then some (.install w) else none
  | _ => none

/-- The step of the main thread for the client behind the socket. -/
def mainClientStep : Option (ClientStep n m) :=
  match s.main, s.queue with
  | .queueDestroy, task :: _ => if (s.conns task.conn).sock = sk then some .destroy else none
  | _, _ => none

/-- The step of the server for the client behind the socket. -/
def clientStep : Action n m → Option (ClientStep n m)
  | .main _ => s.mainClientStep sk
  | .io t r => s.ioClientStep sk t r
  | .worker w _ => s.workerClientStep sk w
  | .env (.data f bytes) =>
    if s.kernel.sockAt (some f) = some sk then some (.arrive bytes) else none
  | .env _ => none

/-- The chunk, if it is one of the client behind the socket. -/
def chunkOf (p : Option (ConnId × List UInt8)) : Option (List UInt8) :=
  (p.filter fun q => (s.conns q.1).sock = sk).map Prod.snd

/-- The chunks of the client in the task queue. -/
def queueOf : List (List UInt8) :=
  (s.queue.filter fun task => (s.conns task.conn).sock = sk).map Task.data

end State

/-- The buffer of a connection. -/
@[simps]
def Conn.buffer (k : Conn n) : SendBuffer := ⟨k.writeBuf, k.writePos, k.writeSize⟩

/-- The machine shows what the server has of the client behind the socket. -/
structure Shows (s : State n m) (sk : SockId) (v : ClientView n m) : Prop where
  unread : (s.kernel.socks sk).unread = v.unread
  written : (s.kernel.socks sk).written = v.written
  reading : ∀ t, s.chunkOf sk (s.io t).pc.chunk? = v.reading t
  queue : s.queueOf sk = v.queue
  held : ∀ w, s.chunkOf sk (s.worker w).chunk? = v.held w
  buffer : ∀ c < s.nextConn, (s.conns c).sock = sk → (s.conns c).buffer = v.buffer
  unaccepted : s.kernel.nextSock ≤ sk → v.unread = [] ∧ v.written = []
  unassigned : (∀ c < s.nextConn, (s.conns c).sock ≠ sk) → v.buffer = .empty

section view

variable {cfg : Config n} {s s' : State n m} {sk : SockId} {v : ClientView n m} {t : Fin n}
  {w : Fin m} {c : ConnId}

/-! ### The connections whose data are on the way -/

theorem chunkOf_none : s.chunkOf sk none = none := rfl

theorem chunkOf_some (data : List UInt8) :
    s.chunkOf sk (some (c, data)) = if (s.conns c).sock = sk then some data else none := by
  by_cases hc : (s.conns c).sock = sk <;> simp [State.chunkOf, hc]

/-- A connection that is not unborn has been created. -/
theorem lt_nextConn (hi : Owned s) (hc : s.owner c ≠ .unborn) : c < s.nextConn :=
  not_le.mp fun hle => hc ((hi.unborn c).mpr hle)

/-- A created connection is not unborn. -/
theorem ne_unborn (hi : Owned s) (hc : c < s.nextConn) : s.owner c ≠ .unborn :=
  fun hu => absurd ((hi.unborn c).mp hu) (not_le.mpr hc)

/-- A connection that was taken into an event loop has been created. -/
theorem lt_nextConn_of_adopted (hi : Owned s) (hc : s.Adopted c) : c < s.nextConn := by
  obtain ⟨t, hloop⟩ := hc
  refine lt_nextConn hi fun hu => ?_
  rw [hu] at hloop
  cases hloop

/-- A connection with an event in treatment has been created. -/
theorem lt_nextConn_of_active (hi : Owned s) (hrole : (s.io t).pc.role = .active c) :
    c < s.nextConn := by
  refine lt_nextConn hi ?_
  rw [(hi.io t).active c hrole]
  nofun

/-- The chunk of an IO thread is one of a created connection. -/
theorem io_chunk_lt (hi : Owned s) {q : ConnId × List UInt8} (hq : (s.io t).pc.chunk? = some q) :
    q.1 < s.nextConn := by
  cases hpc : (s.io t).pc <;> rw [hpc] at hq <;> try cases hq
  case rdCreate x data => exact lt_nextConn_of_active hi (congrArg IoPc.role hpc)
  case rdSubmit x task => exact lt_nextConn_of_active hi (hi.submitting t task (by rw [hpc]; rfl)).2

/-- The chunk of a worker is one of a created connection. -/
theorem worker_chunk_lt (hi : Owned s) {q : ConnId × List UInt8}
    (hq : (s.worker w).chunk? = some q) :
    q.1 < s.nextConn := by
  cases hpc : s.worker w <;> rw [hpc] at hq <;> try cases hq
  case check task | install task =>
    exact lt_nextConn_of_adopted hi (hi.held w task (by rw [hpc]; rfl)).2

/-- No step gives a connection another socket. -/
theorem sock_step (hi : Owned s) (hd : ConnFiles s) {a : Action n m}
    (hs : (server m cfg).step s a = some s') (hc : c < s.nextConn) :
    (s'.conns c).sock = (s.conns c).sock := by
  cases step_bufferChange hi hd hs (ne_unborn hi hc) with
  | same h hw => exact h.sock
  | install w ok task hpc hf hc' hs' | wrote t r x len room hpc hc' hlen hs'
  | reset t r x hpc hc' hs' =>
    subst hc' hs'
    simp [wroteData]

/-- The chunk on the way in a thread belongs to the same client as before. -/
theorem chunkOf_step (hsock : ∀ c < s.nextConn, (s'.conns c).sock = (s.conns c).sock)
    {p : Option (ConnId × List UInt8)} (hp : ∀ q, p = some q → q.1 < s.nextConn) :
    s'.chunkOf sk p = s.chunkOf sk p := by
  cases p with
  | none => rfl
  | some q => rw [chunkOf_some, chunkOf_some, hsock q.1 (hp q rfl)]

/-- The chunks of the client in the task queue are the same as before. -/
theorem queueOf_step (hi : Owned s) (hsock : ∀ c < s.nextConn, (s'.conns c).sock = (s.conns c).sock)
    (hqueue : s'.queue = s.queue) : s'.queueOf sk = s.queueOf sk := by
  rw [State.queueOf, State.queueOf, hqueue]
  congr 1
  refine List.filter_congr fun task htask => ?_
  rw [hsock task.conn (lt_nextConn_of_adopted hi (hi.queued task htask).2)]

/-! ### Steps that move no data of the client -/

/-- A step that moves no data of the client. -/
theorem Shows.quiet (h : Shows s sk v)
    (hsock : ∀ c < s.nextConn, (s'.conns c).sock = (s.conns c).sock)
    (hunread : (s'.kernel.socks sk).unread = (s.kernel.socks sk).unread)
    (hwritten : (s'.kernel.socks sk).written = (s.kernel.socks sk).written)
    (hnextSock : s.kernel.nextSock ≤ s'.kernel.nextSock) (hnextConn : s'.nextConn = s.nextConn)
    (hbuffer : ∀ c < s.nextConn, (s.conns c).sock = sk → (s'.conns c).buffer = (s.conns c).buffer)
    (hqueue : s'.queueOf sk = s.queueOf sk)
    (hio : ∀ t, s'.chunkOf sk (s'.io t).pc.chunk? = s.chunkOf sk (s.io t).pc.chunk?)
    (hworker : ∀ w, s'.chunkOf sk (s'.worker w).chunk? = s.chunkOf sk (s.worker w).chunk?) :
    Shows s' sk v where
  unread := hunread.trans h.unread
  written := hwritten.trans h.written
  reading t := (hio t).trans (h.reading t)
  queue := hqueue.trans h.queue
  held w := (hworker w).trans (h.held w)
  buffer c hc hsk := by
    rw [hnextConn] at hc
    rw [hsock c hc] at hsk
    exact (hbuffer c hc hsk).trans (h.buffer c hc hsk)
  unaccepted hle := h.unaccepted (hnextSock.trans hle)
  unassigned hno := by
    refine h.unassigned fun c hc => ?_
    rw [← hsock c hc]
    exact hno c (by rwa [hnextConn])

theorem chunk?_afterFd (x : EventContext) : (afterFd x).chunk? = none := by
  unfold afterFd afterRead
  split_ifs <;> rfl

theorem chunk?_afterCheck (k : CloseSite) (x : EventContext) : (afterCheck k x).chunk? = none := by
  unfold afterCheck afterRead
  split_ifs <;> rfl

/-- A thread without a chunk gets none by a move. -/
theorem IoMove.chunk? {pc pc' : IoPc} (h : IoMove s t pc pc') : pc'.chunk? = none := by
  cases h with
  | fdLoaded => exact chunk?_afterFd _
  | stillValid => exact chunk?_afterCheck ..
  | _ => rfl

theorem connRelease_nextSock (s : State n m) (c : ConnId) :
    (s.connRelease c).kernel.nextSock = s.kernel.nextSock := by
  rw [connRelease_kernel]
  split
  · exact Kernel.close_nextSock ..
  · rfl

theorem connMarkClosing_nextSock (s : State n m) (c : ConnId) :
    (s.connMarkClosing c).kernel.nextSock = s.kernel.nextSock := by
  rw [connMarkClosing_kernel]
  split
  · rfl
  · exact Kernel.close_nextSock ..

/-- An IO thread accepts no socket. -/
theorem IoStep.nextSock_eq (h : IoStep cfg s t s') : s'.kernel.nextSock = s.kernel.nextSock := by
  cases h with
  | wrote hpc hlt hk =>
    obtain ⟨sk, -, -, -, -, rfl⟩ := Kernel.writeBytes_eq hk
    rfl
  | readData hpc hk =>
    obtain ⟨sk, -, -, -, -, -, rfl⟩ := Kernel.readBytes_eq hk
    rfl
  | register hpc hk =>
    obtain ⟨f, -, -, -, rfl⟩ := Kernel.eventLoopAdd_eq hk
    rfl
  | reject | closeRelease | msgRelease => exact connRelease_nextSock s _
  | closeMark => exact connMarkClosing_nextSock s _
  | backToRead | msgMod => exact (Kernel.sameFiles_eventLoopMod ..).nextSock
  | closeDel => exact (Kernel.sameFiles_eventLoopDel ..).nextSock
  | _ => rfl

/-- Writing one connection without touching its buffer. -/
theorem buffer_update {f : ConnId → Conn n} {c₀ : ConnId} {k : Conn n}
    (h : k.buffer = (f c₀).buffer) (c : ConnId) :
    (Function.update f c₀ k c).buffer = (f c).buffer := by
  by_cases hc : c = c₀
  · subst hc
    rw [Function.update_self, h]
  · rw [Function.update_of_ne hc]

/-- At the other points an IO thread moves no data. -/
theorem IoStep.moves_no_data (h : IoStep cfg s t s') (hpc : (s.io t).pc.movesData = false) :
    s'.kernel.socks = s.kernel.socks ∧ s'.queue = s.queue ∧
      (∀ c, (s'.conns c).buffer = (s.conns c).buffer) ∧ (s'.io t).pc.chunk? = none := by
  have hno : ∀ {pc : IoPc}, (s.io t).pc = pc → pc.movesData = true → False := by
    intro pc heq hmoves
    rw [heq, hmoves] at hpc
    cases hpc
  have hnew : ∀ {th : IoThread}, s'.io = Function.update s.io t th → th.pc.chunk? = none →
      (s'.io t).pc.chunk? = none := by
    intro th hio hchunk
    rw [hio, Function.update_self]
    exact hchunk
  cases h with
  | move hm => exact ⟨rfl, rfl, fun c => rfl, hnew rfl hm.chunk?⟩
  | readData h | createTask h | createLeak h | submitLeak h | submit h | wrote h | reset h =>
    exact (hno h rfl).elim
  | register h hk =>
    obtain ⟨f, -, -, -, rfl⟩ := Kernel.eventLoopAdd_eq hk
    exact ⟨rfl, rfl, buffer_update rfl, hnew rfl rfl⟩
  | reject =>
    refine ⟨socks_connRelease s _, rfl, fun c => ?_, hnew rfl rfl⟩
    rw [rejectConnection_conns]
    exact buffer_update (by rfl) c
  | @closeRelease k x =>
    refine ⟨socks_connRelease s _, rfl, fun c => ?_, hnew rfl ?_⟩
    · rw [releaseOwner_conns]
      exact buffer_update (by rfl) c
    · split <;> rfl
  | closeMark =>
    refine ⟨socks_connMarkClosing s _, rfl, fun c => ?_, hnew rfl rfl⟩
    rw [markClosing_conns]
    exact buffer_update (by rfl) c
  | msgRelease => exact ⟨socks_connRelease s _, rfl, buffer_update rfl, hnew rfl rfl⟩
  | backToRead => exact ⟨socks_eventLoopMod .., rfl, buffer_update rfl, hnew rfl rfl⟩
  | msgMod => exact ⟨socks_eventLoopMod .., rfl, fun c => rfl, hnew rfl rfl⟩
  | closeDel => exact ⟨socks_eventLoopDel .., rfl, fun c => rfl, hnew rfl rfl⟩
  | readConn | adopt => exact ⟨rfl, rfl, buffer_update rfl, hnew rfl rfl⟩
  | collectPipe h | collectMsg h | collectFd h =>
    exact ⟨rfl, rfl, fun c => rfl, hnew rfl (by rw [h]; rfl)⟩
  | _ => exact ⟨rfl, rfl, fun c => rfl, hnew rfl rfl⟩

/-- At the other points an IO thread takes no step for any client. -/
theorem ioClientStep_eq_none {r : IoResult} (hpc : (s.io t).pc.movesData = false) :
    s.ioClientStep sk t r = none := by
  unfold ioClientStep
  generalize (s.io t).pc = pc at hpc ⊢
  cases pc <;> first | rfl | cases hpc

/-! ### The steps of an IO thread -/

/-- A step of an IO thread, field by field. -/
theorem Shows.io (h : Shows s sk v) (hi : Owned s)
    (hsock : ∀ c < s.nextConn, (s'.conns c).sock = (s.conns c).sock) (hstep : IoStep cfg s t s')
    {v' : ClientView n m} (hunread : (s'.kernel.socks sk).unread = v'.unread)
    (hwritten : (s'.kernel.socks sk).written = v'.written)
    (hreading : v'.reading = Function.update v.reading t (s'.chunkOf sk (s'.io t).pc.chunk?))
    (hqueue : s'.queueOf sk = v'.queue) (hheld : v'.held = v.held)
    (hbuffer : ∀ c < s.nextConn, (s.conns c).sock = sk → (s'.conns c).buffer = v'.buffer)
    (haccepted : s.kernel.nextSock ≤ sk → v'.unread = [] ∧ v'.written = [])
    (hassigned : (∀ c < s.nextConn, (s.conns c).sock ≠ sk) → v'.buffer = .empty) :
    Shows s' sk v' where
  unread := hunread
  written := hwritten
  reading t' := by
    rw [hreading]
    by_cases ht : t' = t
    · subst ht
      rw [Function.update_self]
    · rw [Function.update_of_ne ht, hstep.io_ne ht, ← h.reading t']
      exact chunkOf_step hsock fun q hq => io_chunk_lt hi hq
  queue := hqueue
  held w := by
    rw [hheld, hstep.worker_eq, ← h.held w]
    exact chunkOf_step hsock fun q hq => worker_chunk_lt hi hq
  buffer c hc hsk := by
    rw [hstep.nextConn_eq] at hc
    rw [hsock c hc] at hsk
    exact hbuffer c hc hsk
  unaccepted hle := haccepted (hstep.nextSock_eq ▸ hle)
  unassigned hno := by
    refine hassigned fun c hc => ?_
    rw [← hsock c hc]
    exact hno c (by rwa [hstep.nextConn_eq])

/-- A step of an IO thread that moves no data of the client. -/
theorem Shows.io_quiet (h : Shows s sk v) (hi : Owned s)
    (hsock : ∀ c < s.nextConn, (s'.conns c).sock = (s.conns c).sock) (hstep : IoStep cfg s t s')
    (hunread : (s'.kernel.socks sk).unread = (s.kernel.socks sk).unread)
    (hwritten : (s'.kernel.socks sk).written = (s.kernel.socks sk).written)
    (hchunk : s'.chunkOf sk (s'.io t).pc.chunk? = s.chunkOf sk (s.io t).pc.chunk?)
    (hqueue : s'.queueOf sk = s.queueOf sk)
    (hbuffer : ∀ c < s.nextConn, (s.conns c).sock = sk → (s'.conns c).buffer = (s.conns c).buffer) :
    Shows s' sk v := by
  refine h.io hi hsock hstep (hunread.trans h.unread) (hwritten.trans h.written) ?_
    (hqueue.trans h.queue) rfl (fun c hc hsk => (hbuffer c hc hsk).trans (h.buffer c hc hsk))
    h.unaccepted h.unassigned
  rw [hchunk, h.reading t, Function.update_eq_self]

/-- An IO thread without a chunk moves to another point. -/
theorem Shows.io_move (h : Shows s sk v) {pc' : IoPc}
    (hchunk : s.chunkOf sk pc'.chunk? = s.chunkOf sk (s.io t).pc.chunk?) :
    Shows (s.setIoPc t pc') sk v := by
  refine h.quiet (fun c hc => rfl) rfl rfl le_rfl rfl (fun c hc hsk => rfl) rfl (fun t' => ?_)
    fun w => rfl
  by_cases ht : t' = t
  · subst ht
    rw [setIoPc_io, Function.update_self]
    exact hchunk
  · rw [setIoPc_io, Function.update_of_ne ht]
    rfl

/-- `read` in `handle_read`. -/
theorem Shows.readStep (h : Shows s sk v) (hi : Owned s) (hd : ConnFiles s) {x : EventContext}
    {r : IoResult} (hpc : (s.io t).pc = .rdRead x)
    (hs : (server m cfg).step s (.io t r) = some s') :
    Shows s' sk (v.after (s.ioClientStep sk t r).toList) := by
  have hsock : ∀ c < s.nextConn, (s'.conns c).sock = (s.conns c).sock :=
    fun c hc => sock_step hi hd hs hc
  have hstep : IoStep cfg s t s' := ioStep_spec hs
  have hlt := lt_nextConn_of_active hi (congrArg IoPc.role hpc)
  have hat := sockAt_active hi hd (congrArg IoPc.role hpc)
  have hmove : ∀ {pc' : IoPc}, pc'.chunk? = none → Shows (s.setIoPc t pc') sk v := by
    intro pc' hnone
    refine h.io_move ?_
    rw [hnone, hpc]
    rfl
  change s.ioStep cfg t r = some s' at hs
  simp only [State.ioClientStep, hpc]
  cases r <;> simp only [ioStep, hpc, State.readStep] at hs
  case got len =>
    obtain ⟨⟨data, k⟩, hk, rfl⟩ := Option.map_eq_some_iff.mp hs
    obtain ⟨sk₀, hsk₀, -, -, -, rfl, rfl⟩ := Kernel.readBytes_eq hk
    rw [hat] at hsk₀
    obtain rfl := Option.some.inj hsk₀
    dsimp only at hsock hstep ⊢
    have hbuffer : ∀ c, ((s.readData t x ((s.kernel.socks (s.conns x.conn).sock).unread.take len)
        (s.kernel.setSock (s.conns x.conn).sock { s.kernel.socks (s.conns x.conn).sock with
          unread := (s.kernel.socks (s.conns x.conn).sock).unread.drop len })).conns c).buffer =
        (s.conns c).buffer := buffer_update (by rfl)
    by_cases hsk : (s.conns x.conn).sock = sk
    · subst hsk
      rw [if_pos rfl]
      refine h.io hi hsock hstep ?_ ?_ ?_ ((queueOf_step hi hsock rfl).trans h.queue) rfl
        (fun c hc hsk => (hbuffer c).trans (h.buffer c hc hsk)) (fun hle => ?_) fun hno =>
          absurd rfl (hno _ hlt)
      · simp [readData, ClientView.after, ClientView.step, h.unread]
      · simp [readData, ClientView.after, ClientView.step, h.written]
      · simp [readData, ClientView.after, ClientView.step, h.unread, IoPc.chunk?, chunkOf_some]
      · exact absurd (hd.sock_lt _ (ne_unborn hi hlt)) (not_lt.mpr hle)
    · rw [if_neg hsk]
      have hother :
          (s.kernel.setSock (s.conns x.conn).sock { s.kernel.socks (s.conns x.conn).sock with
          unread := (s.kernel.socks (s.conns x.conn).sock).unread.drop len }).socks sk =
          s.kernel.socks sk := Function.update_of_ne (Ne.symm hsk) ..
      refine h.io_quiet hi hsock hstep (congrArg Sock.unread hother)
        (congrArg Sock.written hother) ?_ (queueOf_step hi hsock rfl) fun c hc _ => hbuffer c
      rw [hpc]
      simp [readData, IoPc.chunk?, chunkOf_some, hsk, chunkOf_none]
  case eof | again =>
    split at hs <;> cases hs
    exact hmove rfl
  case err =>
    cases hs
    exact hmove rfl
  all_goals cases hs

/-- A thread that gives a chunk of the client up. -/
theorem Shows.dropped (h : Shows s sk v) (hi : Owned s)
    (hsock : ∀ c < s.nextConn, (s'.conns c).sock = (s.conns c).sock) (hstep : IoStep cfg s t s')
    (hsocks : s'.kernel.socks = s.kernel.socks) (hqueue : s'.queue = s.queue)
    (hbuffer : ∀ c, (s'.conns c).buffer = (s.conns c).buffer) (hnone : (s'.io t).pc.chunk? = none) :
    Shows s' sk (v.step (.drop t)) := by
  refine h.io hi hsock hstep ?_ ?_ ?_ ((queueOf_step hi hsock hqueue).trans h.queue) rfl
    (fun c hc hsk => (hbuffer c).trans (h.buffer c hc hsk)) h.unaccepted h.unassigned
  · rw [hsocks]
    exact h.unread
  · rw [hsocks]
    exact h.written
  · rw [hnone]
    rfl

/-- `task_create` -/
theorem Shows.createStep (h : Shows s sk v) (hi : Owned s) (hd : ConnFiles s) {x : EventContext}
    {data : List UInt8} {r : IoResult} (hpc : (s.io t).pc = .rdCreate x data)
    (hs : (server m cfg).step s (.io t r) = some s') :
    Shows s' sk (v.after (s.ioClientStep sk t r).toList) := by
  have hsock : ∀ c < s.nextConn, (s'.conns c).sock = (s.conns c).sock :=
    fun c hc => sock_step hi hd hs hc
  have hstep : IoStep cfg s t s' := ioStep_spec hs
  have hlt := lt_nextConn_of_active hi (congrArg IoPc.role hpc)
  have hold : s.chunkOf sk (s.io t).pc.chunk? = if (s.conns x.conn).sock = sk then some data
      else none := by
    rw [hpc]
    exact chunkOf_some data
  change s.ioStep cfg t r = some s' at hs
  simp only [State.ioClientStep, hpc]
  -- both failures leave the chunk behind
  have hdrop : s'.kernel.socks = s.kernel.socks → s'.queue = s.queue →
      (∀ c, (s'.conns c).buffer = (s.conns c).buffer) → (s'.io t).pc.chunk? = none →
      Shows s' sk
        (v.after (if (s.conns x.conn).sock = sk then some (.drop t) else none).toList) := by
    intro hsocks hqueue hbuffer hnone
    by_cases hsk : (s.conns x.conn).sock = sk
    · rw [if_pos hsk]
      exact h.dropped hi hsock hstep hsocks hqueue hbuffer hnone
    · rw [if_neg hsk]
      refine h.io_quiet hi hsock hstep (by rw [hsocks]) (by rw [hsocks]) ?_
        (queueOf_step hi hsock hqueue) fun c hc _ => hbuffer c
      rw [hnone, hold, if_neg hsk]
      rfl
  cases r <;> simp only [ioStep, hpc, State.createTask] at hs
  case ok =>
    cases hs
    refine h.io_quiet hi hsock hstep rfl rfl ?_ (queueOf_step hi hsock rfl) fun c hc _ =>
      buffer_update (by rfl) c
    rw [setIoPc_io, Function.update_self, hpc]
    exact chunkOf_step hsock fun q hq => by cases hq; exact hlt
  case fail =>
    cases hs
    exact hdrop rfl rfl (fun c => rfl) (by simp [IoPc.chunk?])
  case failData =>
    cases hs
    exact hdrop rfl rfl (buffer_update (by rfl)) (by simp [IoPc.chunk?])
  all_goals cases hs

/-- `thread_pool_submit` -/
theorem Shows.submitStep (h : Shows s sk v) (hi : Owned s) (hd : ConnFiles s) {x : EventContext}
    {task : Task} {r : IoResult} (hpc : (s.io t).pc = .rdSubmit x task)
    (hs : (server m cfg).step s (.io t r) = some s') :
    Shows s' sk (v.after (s.ioClientStep sk t r).toList) := by
  have hsock : ∀ c < s.nextConn, (s'.conns c).sock = (s.conns c).sock :=
    fun c hc => sock_step hi hd hs hc
  have hstep : IoStep cfg s t s' := ioStep_spec hs
  have hold : s.chunkOf sk (s.io t).pc.chunk? =
      if (s.conns task.conn).sock = sk then some task.data else none := by
    rw [hpc]
    exact chunkOf_some task.data
  change s.ioStep cfg t r = some s' at hs
  simp only [ioStep, hpc, State.submit] at hs
  simp only [State.ioClientStep, hpc]
  split at hs
  · next hdown =>
    cases hs
    rw [if_pos hdown]
    by_cases hsk : (s.conns task.conn).sock = sk
    · rw [if_pos hsk]
      exact h.dropped hi hsock hstep rfl rfl (buffer_update (by rfl)) (by simp [IoPc.chunk?])
    · rw [if_neg hsk]
      refine h.io_quiet hi hsock hstep rfl rfl ?_ (queueOf_step hi hsock rfl)
        fun c hc _ => buffer_update (by rfl) c
      rw [hold, if_neg hsk, setIoPc_io, Function.update_self]
      rfl
  · next hup =>
    rw [if_neg hup]
    split at hs
    · cases hs
      by_cases hsk : (s.conns task.conn).sock = sk
      · rw [if_pos hsk]
        rw [if_pos hsk, h.reading t] at hold
        refine h.io hi hsock hstep h.unread h.written ?_ ?_ rfl h.buffer h.unaccepted h.unassigned
        · rw [setIoPc_io, Function.update_self]
          rfl
        · have hqueue := h.queue
          simp only [State.queueOf] at hqueue
          simp [State.queueOf, ClientView.after, ClientView.step, hold, hsk, hqueue]
      · rw [if_neg hsk]
        refine h.io_quiet hi hsock hstep rfl rfl ?_ ?_ fun c hc _ => rfl
        · rw [hold, if_neg hsk, setIoPc_io, Function.update_self]
          rfl
        · simp [State.queueOf, hsk]
    · cases hs

/-- `write` in `handle_write`. -/
theorem Shows.writeStep (h : Shows s sk v) (hi : Owned s) (hd : ConnFiles s) {x : EventContext}
    {r : IoResult} (hpc : (s.io t).pc = .wrLoop x)
    (hs : (server m cfg).step s (.io t r) = some s') :
    Shows s' sk (v.after (s.ioClientStep sk t r).toList) := by
  have hsock : ∀ c < s.nextConn, (s'.conns c).sock = (s.conns c).sock :=
    fun c hc => sock_step hi hd hs hc
  have hstep : IoStep cfg s t s' := ioStep_spec hs
  have hlt := lt_nextConn_of_active hi (congrArg IoPc.role hpc)
  have hat := sockAt_active hi hd (congrArg IoPc.role hpc)
  have hold : s.chunkOf sk (s.io t).pc.chunk? = none := by rw [hpc]; rfl
  have hmove : ∀ {pc' : IoPc}, pc'.chunk? = none → Shows (s.setIoPc t pc') sk v := by
    intro pc' hnone
    refine h.io_move ?_
    rw [hnone, hpc]
    rfl
  change s.ioStep cfg t r = some s' at hs
  simp only [ioStep, hpc] at hs
  simp only [State.ioClientStep, hpc]
  split at hs
  · next hmore =>
    cases r <;> simp only [State.writeStep] at hs
    case wrote len room =>
      obtain ⟨k, hk, rfl⟩ := Option.map_eq_some_iff.mp hs
      obtain ⟨sk₀, hsk₀, -, -, -, rfl⟩ := Kernel.writeBytes_eq hk
      rw [hat] at hsk₀
      obtain rfl := Option.some.inj hsk₀
      dsimp only at hsock hstep ⊢
      by_cases hsk : (s.conns x.conn).sock = sk
      · subst hsk
        have hunsent : (s.conns x.conn).unsent = v.buffer.unsent := by
          rw [← h.buffer x.conn hlt rfl]
          rfl
        rw [if_pos ⟨rfl, hmore⟩]
        refine h.io hi hsock hstep ?_ ?_ ?_ ((queueOf_step hi hsock rfl).trans h.queue) rfl
          (fun c hc hsk => ?_) (fun hle => ?_) fun hno => absurd rfl (hno _ hlt)
        · simp [wroteData, ClientView.after, ClientView.step, h.unread]
        · simp [wroteData, ClientView.after, ClientView.step, h.written, hunsent]
        · rw [wroteData, setIo_io, Function.update_self]
          change v.reading = Function.update v.reading t none
          rw [← (h.reading t).symm.trans hold, Function.update_eq_self]
        · obtain rfl := hd.sock_inj c x.conn (ne_unborn hi hc) (ne_unborn hi hlt) hsk
          rw [wroteData, setIo_conns, setConn_conns, Function.update_self]
          change (s.conns x.conn).buffer.advance len = _
          rw [h.buffer x.conn hlt rfl]
          rfl
        · exact absurd (hd.sock_lt _ (ne_unborn hi hlt)) (not_lt.mpr hle)
      · rw [if_neg fun hand => hsk hand.1]
        have hother : ∀ u, (s.kernel.setSock (s.conns x.conn).sock u).socks sk =
            s.kernel.socks sk :=
          fun u => Function.update_of_ne (Ne.symm hsk) ..
        refine h.io_quiet hi hsock hstep (congrArg Sock.unread (hother _))
          (congrArg Sock.written (hother _)) ?_ (queueOf_step hi hsock rfl) fun c hc hc' => ?_
        · rw [hold, wroteData, setIo_io, Function.update_self]
          rfl
        · have hne : c ≠ x.conn := fun heq => hsk (heq ▸ hc')
          rw [wroteData, setIo_conns, setConn_conns, Function.update_of_ne hne]
          rfl
    case again =>
      split at hs <;> cases hs
      exact hmove rfl
    case err =>
      cases hs
      exact hmove rfl
    all_goals cases hs
  · next hdone =>
    cases hs
    have hnone : (match r with
        | .wrote len _ => if (s.conns x.conn).sock = sk ∧
            (s.conns x.conn).writePos < (s.conns x.conn).writeSize then some (.write len) else none
        | _ => none) = (none : Option (ClientStep n m)) := by
      cases r <;> first | rfl | exact if_neg fun hand => hdone hand.2
    rw [hnone]
    exact hmove rfl

/-- The end of `handle_write`. -/
theorem Shows.resetStep (h : Shows s sk v) (hi : Owned s) (hd : ConnFiles s) {x : EventContext}
    {r : IoResult} (hpc : (s.io t).pc = .wrReset x)
    (hs : (server m cfg).step s (.io t r) = some s') :
    Shows s' sk (v.after (s.ioClientStep sk t r).toList) := by
  have hsock : ∀ c < s.nextConn, (s'.conns c).sock = (s.conns c).sock :=
    fun c hc => sock_step hi hd hs hc
  have hstep : IoStep cfg s t s' := ioStep_spec hs
  have hlt := lt_nextConn_of_active hi (congrArg IoPc.role hpc)
  have hold : s.chunkOf sk (s.io t).pc.chunk? = none := by rw [hpc]; rfl
  change s.ioStep cfg t r = some s' at hs
  simp only [ioStep, hpc] at hs
  simp only [State.ioClientStep, hpc]
  cases hs
  by_cases hsk : (s.conns x.conn).sock = sk
  · subst hsk
    rw [if_pos rfl]
    refine h.io hi hsock hstep h.unread h.written ?_ ((queueOf_step hi hsock rfl).trans h.queue) rfl
      (fun c hc hsk => ?_) h.unaccepted fun hno => absurd rfl (hno _ hlt)
    · rw [setIoPc_io, Function.update_self]
      change v.reading = Function.update v.reading t none
      rw [← (h.reading t).symm.trans hold, Function.update_eq_self]
    · obtain rfl := hd.sock_inj c x.conn (ne_unborn hi hc) (ne_unborn hi hlt) hsk
      rw [setIoPc_conns, setConn_conns, Function.update_self]
      change (s.conns x.conn).buffer.reset = _
      rw [h.buffer x.conn hlt rfl]
      rfl
  · rw [if_neg hsk]
    refine h.io_quiet hi hsock hstep rfl rfl ?_ (queueOf_step hi hsock rfl) fun c hc hc' => ?_
    · rw [hold, setIoPc_io, Function.update_self]
      rfl
    · have hne : c ≠ x.conn := fun heq => hsk (heq ▸ hc')
      rw [setIoPc_conns, setConn_conns, Function.update_of_ne hne]

/-- A step of an IO thread. -/
theorem Shows.ioStep (h : Shows s sk v) (hi : Owned s) (hd : ConnFiles s) {r : IoResult}
    (hs : (server m cfg).step s (.io t r) = some s') :
    Shows s' sk (v.after (s.ioClientStep sk t r).toList) := by
  have hsock : ∀ c < s.nextConn, (s'.conns c).sock = (s.conns c).sock :=
    fun c hc => sock_step hi hd hs hc
  have hstep : IoStep cfg s t s' := ioStep_spec hs
  cases hmoves : (s.io t).pc.movesData with
  | false =>
    obtain ⟨hsocks, hqueue, hbuffer, hnone⟩ := hstep.moves_no_data hmoves
    rw [ioClientStep_eq_none hmoves]
    refine h.io_quiet hi hsock hstep (by rw [hsocks]) (by rw [hsocks]) ?_
      (queueOf_step hi hsock hqueue) fun c hc _ => hbuffer c
    have hold : (s.io t).pc.chunk? = none := by
      generalize (s.io t).pc = pc at hmoves ⊢
      cases pc <;> first | rfl | cases hmoves
    rw [hnone, hold]
    rfl
  | true =>
    cases hpc : (s.io t).pc with
    | rdRead x => exact h.readStep hi hd hpc hs
    | rdCreate x data => exact h.createStep hi hd hpc hs
    | rdSubmit x task => exact h.submitStep hi hd hpc hs
    | wrLoop x => exact h.writeStep hi hd hpc hs
    | wrReset x => exact h.resetStep hi hd hpc hs
    | _ =>
      rw [hpc] at hmoves
      cases hmoves

/-! ### The steps of a worker -/

/-- A worker accepts no socket. -/
theorem WorkerStep.nextSock_eq (h : WorkerStep cfg s w s') :
    s'.kernel.nextSock = s.kernel.nextSock := by
  cases h with
  | closeMark => exact connMarkClosing_nextSock s _
  | closeRelease | destroy => exact connRelease_nextSock s _
  | _ => rfl

/-- A step of a worker, field by field. -/
theorem Shows.worker (h : Shows s sk v) (hi : Owned s)
    (hsock : ∀ c < s.nextConn, (s'.conns c).sock = (s.conns c).sock) (hstep : WorkerStep cfg s w s')
    {v' : ClientView n m} (hunread : v'.unread = v.unread) (hwritten : v'.written = v.written)
    (hreading : v'.reading = v.reading) (hqueue : s'.queueOf sk = v'.queue)
    (hheld : v'.held = Function.update v.held w (s'.chunkOf sk (s'.worker w).chunk?))
    (hbuffer : ∀ c < s.nextConn, (s.conns c).sock = sk → (s'.conns c).buffer = v'.buffer)
    (hassigned : (∀ c < s.nextConn, (s.conns c).sock ≠ sk) → v'.buffer = .empty) :
    Shows s' sk v' where
  unread := by rw [hstep.socks_eq, hunread, h.unread]
  written := by rw [hstep.socks_eq, hwritten, h.written]
  reading t := by
    rw [hreading, (hstep.io_eq t).2.1, ← h.reading t]
    exact chunkOf_step hsock fun q hq => io_chunk_lt hi hq
  queue := hqueue
  held w' := by
    rw [hheld]
    by_cases hw : w' = w
    · subst hw
      rw [Function.update_self]
    · rw [Function.update_of_ne hw, hstep.worker_ne hw, ← h.held w']
      exact chunkOf_step hsock fun q hq => worker_chunk_lt hi hq
  buffer c hc hsk := by
    rw [hstep.nextConn_eq] at hc
    rw [hsock c hc] at hsk
    exact hbuffer c hc hsk
  unaccepted hle := by
    rw [hunread, hwritten]
    exact h.unaccepted (hstep.nextSock_eq ▸ hle)
  unassigned hno := by
    refine hassigned fun c hc => ?_
    rw [← hsock c hc]
    exact hno c (by rwa [hstep.nextConn_eq])

/-- A step of a worker that moves no data of the client. -/
theorem Shows.worker_quiet (h : Shows s sk v) (hi : Owned s)
    (hsock : ∀ c < s.nextConn, (s'.conns c).sock = (s.conns c).sock) (hstep : WorkerStep cfg s w s')
    (hchunk : s'.chunkOf sk (s'.worker w).chunk? = s.chunkOf sk (s.worker w).chunk?)
    (hqueue : s'.queueOf sk = s.queueOf sk)
    (hbuffer : ∀ c < s.nextConn, (s.conns c).sock = sk → (s'.conns c).buffer = (s.conns c).buffer) :
    Shows s' sk v := by
  refine h.worker hi hsock hstep rfl rfl rfl (hqueue.trans h.queue) ?_
    (fun c hc hsk => (hbuffer c hc hsk).trans (h.buffer c hc hsk)) h.unassigned
  rw [hchunk, h.held w, Function.update_eq_self]

/-- `task_queue_pop` -/
theorem Shows.popStep (h : Shows s sk v) (hi : Owned s) (hd : ConnFiles s) {ok : Bool}
    (hpc : s.worker w = .pop) (hs : (server m cfg).step s (.worker w ok) = some s') :
    Shows s' sk (v.after (s.workerClientStep sk w).toList) := by
  have hsock : ∀ c < s.nextConn, (s'.conns c).sock = (s.conns c).sock :=
    fun c hc => sock_step hi hd hs hc
  have hstep : WorkerStep cfg s w s' := workerStep_spec hs
  have hold : s.chunkOf sk (s.worker w).chunk? = none := by rw [hpc]; rfl
  change s.workerStep cfg w ok = some s' at hs
  simp only [workerStep, hpc, popTask] at hs
  simp only [State.workerClientStep, hpc]
  cases hq : s.queue with
  | nil =>
    rw [hq] at hs
    simp only at hs
    split at hs <;> cases hs
    refine h.worker_quiet hi hsock hstep ?_ rfl fun c hc _ => rfl
    rw [hold, setWorker_worker, Function.update_self]
    rfl
  | cons task rest =>
    rw [hq] at hs
    cases hs
    have hqueue := h.queue
    simp only [State.queueOf, hq] at hqueue
    dsimp only
    by_cases hsk : (s.conns task.conn).sock = sk
    · simp only [hsk, decide_true, List.filter_cons_of_pos, List.map_cons] at hqueue
      rw [if_pos hsk]
      refine h.worker hi hsock hstep rfl rfl rfl ?_ ?_ h.buffer h.unassigned
      · simp [State.queueOf, ClientView.after, ClientView.step, ← hqueue]
      · rw [setWorker_worker, Function.update_self]
        have hchunk : s.chunkOf sk (some (task.conn, task.data)) = some task.data :=
          (chunkOf_some task.data).trans (if_pos hsk)
        change Function.update v.held w v.queue.head? = Function.update v.held w (s.chunkOf sk _)
        rw [← hqueue, WorkerPc.chunk?, hchunk]
        rfl
    · rw [if_neg hsk]
      refine h.worker_quiet hi hsock hstep ?_ ?_ fun c hc _ => rfl
      · rw [hold, setWorker_worker, Function.update_self]
        exact (chunkOf_some task.data).trans (if_neg hsk)
      · simp [State.queueOf, hq, hsk]

/-- The test of the connection of a task. -/
theorem Shows.checkStep (h : Shows s sk v) (hi : Owned s) (hd : ConnFiles s) {ok : Bool}
    {task : Task} (hpc : s.worker w = .check task)
    (hs : (server m cfg).step s (.worker w ok) = some s') :
    Shows s' sk (v.after (s.workerClientStep sk w).toList) := by
  have hsock : ∀ c < s.nextConn, (s'.conns c).sock = (s.conns c).sock :=
    fun c hc => sock_step hi hd hs hc
  have hstep : WorkerStep cfg s w s' := workerStep_spec hs
  have hold : s.chunkOf sk (s.worker w).chunk? =
      if (s.conns task.conn).sock = sk then some task.data else none := by
    rw [hpc]
    exact chunkOf_some task.data
  change s.workerStep cfg w ok = some s' at hs
  simp only [workerStep, hpc] at hs
  cases hs
  simp only [State.workerClientStep, hpc]
  by_cases hgo : s.dispatchTask task = .install task
  · rw [if_neg fun hand => hand.2 hgo]
    refine h.worker_quiet hi hsock hstep ?_ rfl fun c hc _ => rfl
    rw [setWorker_worker, Function.update_self, hgo, hpc]
    rfl
  · have hnone : (s.dispatchTask task).chunk? = none := by
      unfold dispatchTask at hgo ⊢
      split
      · next htype =>
        simp only [htype] at hgo
        split
        · next hvalid => exact absurd (if_pos hvalid) hgo
        · rfl
      · rfl
      · rfl
    by_cases hsk : (s.conns task.conn).sock = sk
    · rw [if_pos ⟨hsk, hgo⟩]
      refine h.worker hi hsock hstep rfl rfl rfl h.queue ?_ h.buffer h.unassigned
      rw [setWorker_worker, Function.update_self, hnone]
      rfl
    · rw [if_neg fun hand => hsk hand.1]
      refine h.worker_quiet hi hsock hstep ?_ rfl fun c hc _ => rfl
      rw [hold, if_neg hsk, setWorker_worker, Function.update_self, hnone]
      rfl

/-- `process_request` -/
theorem Shows.installStep (h : Shows s sk v) (hi : Owned s) (hd : ConnFiles s) {ok : Bool}
    {task : Task} (hpc : s.worker w = .install task)
    (hs : (server m cfg).step s (.worker w ok) = some s') :
    Shows s' sk (v.after (s.workerClientStep sk w).toList) := by
  have hsock : ∀ c < s.nextConn, (s'.conns c).sock = (s.conns c).sock :=
    fun c hc => sock_step hi hd hs hc
  have hstep : WorkerStep cfg s w s' := workerStep_spec hs
  have hlt : task.conn < s.nextConn :=
    lt_nextConn_of_adopted hi (hi.held w task (by rw [hpc]; rfl)).2
  have hold : s.chunkOf sk (s.worker w).chunk? =
      if (s.conns task.conn).sock = sk then some task.data else none := by
    rw [hpc]
    exact chunkOf_some task.data
  change s.workerStep cfg w ok = some s' at hs
  simp only [workerStep, hpc, installResponse] at hs
  cases hs
  simp only [State.workerClientStep, hpc]
  by_cases hsk : (s.conns task.conn).sock = sk
  · rw [if_pos hsk]
    rw [if_pos hsk, h.held w] at hold
    refine h.worker hi hsock hstep rfl rfl rfl ((queueOf_step hi hsock ?_).trans h.queue) ?_
      (fun c hc hc' => ?_) fun hno => absurd hsk (hno _ hlt)
    · split <;> rfl
    · split <;> rw [setWorker_worker, Function.update_self] <;> rfl
    · have heq := hd.sock_inj c task.conn (ne_unborn hi hc) (ne_unborn hi hlt) (hc'.trans hsk.symm)
      subst heq
      change _ = (v.held w).elim v.buffer v.buffer.install
      rw [hold, Option.elim_some, ← h.buffer _ hlt hsk, SendBuffer.install]
      split
      · rw [setWorker_conns, setConn_conns, Function.update_self]
        rfl
      · rfl
  · rw [if_neg hsk]
    refine h.worker_quiet hi hsock hstep ?_ ?_ fun c hc hc' => ?_
    · rw [hold, if_neg hsk]
      split <;> rw [setWorker_worker, Function.update_self] <;> rfl
    · refine queueOf_step hi hsock ?_
      split <;> rfl
    · have hne : c ≠ task.conn := fun heq => hsk (heq ▸ hc')
      split
      · rw [setWorker_conns, setConn_conns, Function.update_of_ne hne]
      · rfl

/-- A step of a worker. -/
theorem Shows.workerStep (h : Shows s sk v) (hi : Owned s) (hd : ConnFiles s) {ok : Bool}
    (hs : (server m cfg).step s (.worker w ok) = some s') :
    Shows s' sk (v.after (s.workerClientStep sk w).toList) := by
  have hsock : ∀ c < s.nextConn, (s'.conns c).sock = (s.conns c).sock :=
    fun c hc => sock_step hi hd hs hc
  have hstep : WorkerStep cfg s w s' := workerStep_spec hs
  by_cases hpop : s.worker w = .pop
  · exact h.popStep hi hd hpop hs
  by_cases hcheck : ∃ task, s.worker w = .check task
  · obtain ⟨task, hpc⟩ := hcheck
    exact h.checkStep hi hd hpc hs
  by_cases hinstall : ∃ task, s.worker w = .install task
  · obtain ⟨task, hpc⟩ := hinstall
    exact h.installStep hi hd hpc hs
  have hlabel : s.workerClientStep sk w = none := by
    unfold workerClientStep
    split
    · next hpc => exact absurd hpc hpop
    · next hpc => exact absurd ⟨_, hpc⟩ hcheck
    · next hpc => exact absurd ⟨_, hpc⟩ hinstall
    · rfl
  have hold : (s.worker w).chunk? = none := by
    unfold WorkerPc.chunk?
    split
    · next hpc => exact absurd ⟨_, hpc⟩ hcheck
    · next hpc => exact absurd ⟨_, hpc⟩ hinstall
    · rfl
  obtain ⟨hqueue, hbuffer, hnew⟩ : s'.queue = s.queue ∧
      (∀ c, (s'.conns c).buffer = (s.conns c).buffer) ∧ (s'.worker w).chunk? = none := by
    cases hstep with
    | move hm =>
      refine ⟨rfl, fun c => rfl, ?_⟩
      rw [setWorker_worker, Function.update_self]
      generalize hpc : s.worker w = pc at hm
      cases hm with
      | process task ht hvalid => exact absurd ⟨_, hpc⟩ hcheck
      | _ => rfl
    | pop hpc => exact absurd hpc hpop
    | install hpc => exact absurd ⟨_, hpc⟩ hinstall
    | acquire | closeMark | closeRelease | destroy =>
      exact ⟨rfl, buffer_update (by rfl), by simp [WorkerPc.chunk?]⟩
    | link | notify | stats => exact ⟨rfl, fun c => rfl, by simp [linkMessage, WorkerPc.chunk?]⟩
  rw [hlabel]
  refine h.worker_quiet hi hsock hstep ?_ (queueOf_step hi hsock hqueue) fun c hc _ => hbuffer c
  rw [hnew, hold]
  rfl

/-! ### The other steps -/

/-- A step of the main thread, field by field. -/
theorem Shows.main (h : Shows s sk v) (hi : Owned s)
    (hsock : ∀ c < s.nextConn, (s'.conns c).sock = (s.conns c).sock) (hstep : MainStep cfg s s')
    {v' : ClientView n m} (hunread : (s'.kernel.socks sk).unread = v.unread)
    (hwritten : (s'.kernel.socks sk).written = v.written) (hqueue : s'.queueOf sk = v'.queue)
    (hnextSock : s.kernel.nextSock ≤ s'.kernel.nextSock) (hsame : v' = { v with queue := v'.queue })
    (hbuffer : ∀ c < s'.nextConn, (s'.conns c).sock = sk → (s'.conns c).buffer = v.buffer)
    (hassigned : (∀ c < s'.nextConn, (s'.conns c).sock ≠ sk) →
      ∀ c < s.nextConn, (s.conns c).sock ≠ sk) :
    Shows s' sk v' := by
  rw [hsame]
  refine ⟨hunread, hwritten, fun t => ?_, hqueue, fun w => ?_, hbuffer,
    fun hle => h.unaccepted (hnextSock.trans hle), fun hno => h.unassigned (hassigned hno)⟩
  · change s'.chunkOf sk _ = v.reading t
    rw [(hstep.io_eq t).1, ← h.reading t]
    exact chunkOf_step hsock fun q hq => io_chunk_lt hi hq
  · change s'.chunkOf sk _ = v.held w
    rw [hstep.worker_eq, ← h.held w]
    exact chunkOf_step hsock fun q hq => worker_chunk_lt hi hq

/-- A step of the main thread. -/
theorem Shows.mainStep (h : Shows s sk v) (hi : Owned s) (hd : Descriptors cfg s) {r : MainResult}
    (hs : (server m cfg).step s (.main r) = some s') :
    Shows s' sk (v.after (s.mainClientStep sk).toList) := by
  have hsock : ∀ c < s.nextConn, (s'.conns c).sock = (s.conns c).sock :=
    fun c hc => sock_step hi hd.conn hs hc
  have hstep : MainStep cfg s s' := mainStep_spec hs
  -- all steps but those three leave the sockets, the connections and the queue as they are
  have hquiet : s'.kernel.socks = s.kernel.socks → s'.kernel.nextSock = s.kernel.nextSock →
      s'.nextConn = s.nextConn → s'.queue = s.queue →
      (∀ c, (s'.conns c).buffer = (s.conns c).buffer) → Shows s' sk v := by
    intro hsocks hnextSock hnextConn hqueue hbuffer
    refine h.main hi hsock hstep (by rw [hsocks, h.unread]) (by rw [hsocks, h.written])
      ((queueOf_step hi hsock hqueue).trans h.queue) hnextSock.ge rfl (fun c hc hsk => ?_)
      fun hno c hc => ?_
    · rw [hnextConn] at hc
      rw [hsock c hc] at hsk
      exact (hbuffer c).trans (h.buffer c hc hsk)
    · rw [← hsock c hc]
      exact hno c (by rwa [hnextConn])
  have hnone : s.main ≠ .queueDestroy → s.mainClientStep sk = none := by
    intro hne
    unfold mainClientStep
    split
    · next hpc _ => exact absurd hpc hne
    · rfl
  have hmain := hstep
  cases hstep with
  | @accept f hpc hfree hlt =>
    rw [hnone (by rw [hpc]; nofun)]
    by_cases hsk : sk = s.kernel.nextSock
    · subst hsk
      obtain ⟨hunread, hwritten⟩ := h.unaccepted le_rfl
      refine h.main hi hsock hmain ?_ ?_ ((queueOf_step hi hsock rfl).trans h.queue)
        (Nat.le_succ _) rfl h.buffer fun hno => hno
      · simp [hunread, Sock.fresh]
      · simp [hwritten, Sock.fresh]
    · have hsocks : (Function.update s.kernel.socks s.kernel.nextSock Sock.fresh sk) =
          s.kernel.socks sk :=
        Function.update_of_ne hsk ..
      exact h.main hi hsock hmain ((congrArg Sock.unread hsocks).trans h.unread)
        ((congrArg Sock.written hsocks).trans h.written) ((queueOf_step hi hsock rfl).trans h.queue)
        (Nat.le_succ _) rfl h.buffer fun hno => hno
  | @create t f sk₀ hpc =>
    rw [hnone (by rw [hpc]; nofun)]
    have hfree := (hd.main.accepted f sk₀ (congrArg MainPc.socket? hpc)).2
    refine h.main hi hsock hmain h.unread h.written ((queueOf_step hi hsock rfl).trans h.queue)
      le_rfl rfl (fun c hc hsk => ?_) fun hno c hc => ?_
    · by_cases hnew : c = s.nextConn
      · subst hnew
        rw [createConnection_conns, Function.update_self] at hsk ⊢
        refine (h.unassigned fun c hc => ?_).symm
        rw [← show sk₀ = sk from hsk]
        exact hfree c (ne_unborn hi hc)
      · have hold : c < s.nextConn := lt_of_le_of_ne (Nat.lt_succ_iff.mp hc) hnew
        rw [createConnection_conns, Function.update_of_ne hnew] at hsk ⊢
        exact h.buffer c hold hsk
    · rw [← hsock c hc]
      exact hno c (Nat.lt_succ_of_lt hc)
  | @destroyTask task rest hpc hq =>
    have hbuffer : ∀ c, (((s.connRelease task.conn).setQueue rest).conns c).buffer =
        (s.conns c).buffer :=
      buffer_update (by rfl)
    have hlabel : s.mainClientStep sk =
        if (s.conns task.conn).sock = sk then some .destroy else none := by
      unfold mainClientStep
      rw [hpc, hq]
    have hrest : ∀ task' ∈ rest, (((s.connRelease task.conn).setQueue rest).conns task'.conn).sock =
        (s.conns task'.conn).sock := fun task' htask' =>
      hsock _ (lt_nextConn_of_adopted hi (hi.queued task' (by rw [hq]; exact .tail _ htask')).2)
    have hfilter : ((s.connRelease task.conn).setQueue rest).queueOf sk =
        (rest.filter fun task' => (s.conns task'.conn).sock = sk).map Task.data := by
      change (rest.filter _).map Task.data = _
      congr 1
      exact List.filter_congr fun task' htask' => by rw [hrest task' htask']
    have hqueue := h.queue
    simp only [State.queueOf, hq] at hqueue
    rw [hlabel]
    by_cases hsk : (s.conns task.conn).sock = sk
    · rw [if_pos hsk]
      refine h.main hi hsock hmain ?_ ?_ (hfilter.trans ?_) (connRelease_nextSock s _).ge rfl
        (fun c hc hc' => ?_) fun hno c hc => ?_
      · rw [setQueue_kernel, socks_connRelease, h.unread]
      · rw [setQueue_kernel, socks_connRelease, h.written]
      · simp [ClientView.after, ClientView.step, ← hqueue, hsk]
      · rw [hsock c hc] at hc'
        exact (hbuffer c).trans (h.buffer c hc hc')
      · rw [← hsock c hc]
        exact hno c hc
    · rw [if_neg hsk]
      refine h.main hi hsock hmain ?_ ?_ (hfilter.trans ?_) (connRelease_nextSock s _).ge rfl
        (fun c hc hc' => ?_) fun hno c hc => ?_
      · rw [setQueue_kernel, socks_connRelease, h.unread]
      · rw [setQueue_kernel, socks_connRelease, h.written]
      · simp [ClientView.after, ← hqueue, hsk]
      · rw [hsock c hc] at hc'
        exact (hbuffer c).trans (h.buffer c hc hc')
      · rw [← hsock c hc]
        exact hno c hc
  | destroyed hpc hq =>
    have hlabel : s.mainClientStep sk = none := by
      unfold mainClientStep
      rw [hpc, hq]
    rw [hlabel]
    exact hquiet rfl rfl rfl rfl fun c => rfl
  | drop hpc =>
    rw [hnone (by rw [hpc]; nofun)]
    refine hquiet (socks_connRelease s _) (connRelease_nextSock s _) rfl rfl fun c => ?_
    rw [dropConnection_conns]
    exact buffer_update (by rfl) c
  | handOff hpc =>
    rw [hnone (by rw [hpc]; nofun)]
    exact hquiet rfl rfl rfl rfl (buffer_update (by rfl))
  | closeClient hpc | closeListen hpc | destroyLoop hpc | ioLoop hpc | ioClose0 hpc
  | ioClose1 hpc =>
    rw [hnone (by rw [hpc]; nofun)]
    exact hquiet (Kernel.close_socks ..) (Kernel.close_nextSock ..) rfl rfl fun c => rfl
  | woken hpc | stop hpc | acceptAgain hpc | acceptIntr hpc | acceptFailed hpc | getThread hpc
  | noThread hpc | createFailed hpc | handOffFailed hpc | ioFlag hpc | ioWake hpc | ioWakeFailed hpc
  | ioJoin hpc | ioFree hpc | poolShutdown hpc | queueShutdown hpc | joinWorkers hpc =>
    rw [hnone (by rw [hpc]; nofun)]
    exact hquiet rfl rfl rfl rfl fun c => rfl

/-- A step of the clients. -/
theorem Shows.envStep (h : Shows s sk v) (hd : ConnFiles s) {e : Environment}
    (hs : (server m cfg).step s (.env e) = some s') :
    Shows s' sk (v.after (s.clientStep sk (.env e)).toList) := by
  change s.envStep e = some s' at hs
  -- the sockets of the others and the bytes written stay as they are
  have hquiet : ∀ {k : Kernel n}, (k.socks sk).unread = (s.kernel.socks sk).unread →
      (k.socks sk).written = (s.kernel.socks sk).written → k.nextSock = s.kernel.nextSock →
      Shows (s.setKernel k) sk v := fun hunread hwritten hnext =>
    h.quiet (fun c hc => rfl) hunread hwritten hnext.ge rfl (fun c hc hsk => rfl) rfl (fun t => rfl)
      fun w => rfl
  have hsame : ∀ (sk₀ : SockId) (u : Sock), u.unread = (s.kernel.socks sk₀).unread →
      ((s.kernel.setSock sk₀ u).socks sk).unread = (s.kernel.socks sk).unread := by
    intro sk₀ u hu
    rw [Kernel.setSock_socks]
    by_cases hsk : sk = sk₀
    · subst hsk
      rw [Function.update_self, hu]
    · rw [Function.update_of_ne hsk]
  cases e <;> simp only [State.envStep] at hs
  case arrive =>
    cases hs
    exact hquiet rfl rfl rfl
  case data f bytes =>
    split at hs
    · cases hs
    · next sk₀ hsk₀ =>
      cases hs
      simp only [State.clientStep, hsk₀, Option.some.injEq]
      by_cases hsk : sk₀ = sk
      · subst hsk
        rw [if_pos rfl]
        have hbound : sk₀ < s.kernel.nextSock := by
          have hfile : s.kernel.fds f = some (.client sk₀) := by
            unfold Kernel.sockAt at hsk₀
            simp only at hsk₀
            split at hsk₀ <;> cases hsk₀
            assumption
          exact hd.bound f sk₀ hfile
        refine ⟨?_, ?_, h.reading, h.queue, h.held, h.buffer, fun hle => ?_, h.unassigned⟩
        · simp [ClientView.after, ClientView.step, h.unread]
        · simp [ClientView.after, ClientView.step, h.written]
        · exact absurd hbound (not_lt.mpr hle)
      · rw [if_neg hsk]
        have hother : ∀ u, ((s.kernel.setSock sk₀ u).socks sk) = s.kernel.socks sk :=
          fun u => Function.update_of_ne (Ne.symm hsk) ..
        exact hquiet (congrArg Sock.unread (hother _)) (congrArg Sock.written (hother _)) rfl
  case peerClose f | drain f =>
    split at hs
    · cases hs
    · next sk₀ hsk₀ =>
      cases hs
      exact hquiet (hsame sk₀ _ rfl) (written_setSock (by rfl) sk) rfl

/-- The machine of a client takes the steps that `clientStep` tells. -/
theorem Shows.step (h : Shows s sk v) (hi : Owned s) (hd : Descriptors cfg s) {a : Action n m}
    (hs : (server m cfg).step s a = some s') :
    Shows s' sk (v.after (s.clientStep sk a).toList) := by
  cases a with
  | main r => exact h.mainStep hi hd hs
  | io t r => exact h.ioStep hi hd.conn hs
  | worker w ok => exact h.workerStep hi hd.conn hs
  | env e => exact h.envStep hd.conn hs

/-- Nothing is to be seen at the start. -/
theorem shows_start (cfg : Config n) (sk : SockId) :
    Shows (State.start cfg : State n m) sk .initial where
  unread := rfl
  written := rfl
  reading _ := rfl
  queue := rfl
  held _ := rfl
  buffer c hc := absurd hc (Nat.not_lt_zero c)
  unaccepted _ := ⟨rfl, rfl⟩
  unassigned _ := rfl

end view

end DeepInIo.AdvancedServer
