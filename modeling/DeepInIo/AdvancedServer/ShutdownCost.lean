import DeepInIo.AdvancedServer.ClientSteps
import DeepInIo.AdvancedServer.Teardown
import DeepInIo.Foundation.ThreadSum

/-!
# The work that is left for `server_destroy`

Once `server_destroy` has been entered, every step of the main thread, of a worker, and of an IO
thread whose `shutdown` flag is set uses up some of the work that is left.  The work is a number,
`State.work`: each thread contributes the way it has still to go (`IoThread.rank`, `WorkerPc.rank`,
`MainPc.rank`), each task and each message what its treatment will take, each byte that was received
and not read what the task made of it will take, and each byte of a response its `write`.

An IO thread without the flag may run as long as it likes; its steps do not add to the work
(`IoStep.paid`).
-/

namespace DeepInIo.AdvancedServer

open State

variable {n m : ℕ}

/-! ### The way a thread has still to go -/

/-- What the treatment of a message takes. -/
def messageWork : ℕ := 4

/-- What the treatment of a task takes, with the message and the response it may lead to. -/
def taskWork : ℕ := 12 + messageWork + bufferSize

/-- What a byte takes that was not read. -/
def byteWork : ℕ := taskWork + 4

/-- What treating a returned event takes. -/
def eventWork : ℕ := 20

/-- The way from a program point back to the head of the loop over the returned events, and out of
the loop of `io_thread_run`.  A pass of an inner loop is paid by what it consumes. -/
def IoPc.rank : IoPc → ℕ
  | .stopped => 0
  | .loop => 1
  | .next => 2
  | .wait => 3
  | .pipeRelease _ => 3
  | .pipeAdd _ => 4
  | .pipeAdopt _ => 5
  | .pipeRead => 6
  | .msgDrain => 3
  | .msgRead => 4
  | .msgRelease _ => 4
  | .msgMod _ => 5
  | .msgCheck _ => 6
  | .closeRelease .hangup _ => 3
  | .closeDel .hangup _ _ => 4
  | .closeMark .hangup _ => 5
  | .erTest _ => 6
  | .recheck .write _ | .recheck .hangup _ => 7
  | .closeRelease .write _ => 8
  | .closeDel .write _ _ => 9
  | .closeMark .write _ => 10
  | .wrMod _ => 8
  | .wrReset _ => 9
  | .wrFinal _ => 10
  | .wrIdle _ | .wrLoop _ => 11
  | .wrEntry _ => 12
  | .recheck .read _ => 13
  | .closeRelease .read _ => 14
  | .closeDel .read _ _ => 15
  | .closeMark .read _ => 16
  | .rdRead _ => 17
  | .rdSubmit .. => 18
  | .rdCreate .. => 19
  | .evFd _ => 20
  | .evCheck _ => 21

/-- The thread is inside of `event_loop_wait`. -/
def IoPc.collects : IoPc → Bool
  | .wait => true
  | _ => false

namespace IoThread

variable (th : IoThread)

/-- The way an IO thread has still to go when it is told to stop: the events it has collected, those
`event_loop_wait` may still return, and the treatment of the current one. -/
def rank : ℕ :=
  eventWork * th.batch.length + th.pc.rank +
    if th.pc.collects then (eventWork + 1) * (maxEvents - th.batch.length) else 0

/-- What the chunk the thread makes a task of, and the messages for it, will take. -/
def load : ℕ :=
  (if th.pc.chunk?.isSome then taskWork else 0) + messageWork * th.msgQueue.length

/-- The work an IO thread contributes: the way it has to go counts once its flag is set. -/
def work : ℕ :=
  th.load + if th.shutdown then th.rank else 0

end IoThread

/-- The way of a worker to the end of its loop. -/
def WorkerPc.rank : WorkerPc n → ℕ
  | .exited => 0
  | .popNull => 1
  | .pop => 2
  | .loop => 3
  | .destroy _ => 4
  | .stats _ => 5
  | .closeRelease _ => 6
  | .closeMark _ => 7
  | .sendNotify .. => 6
  | .sendLink .. => 7 + messageWork
  | .sendAcquire .. => 8 + messageWork
  | .sendAlloc .. => 9 + messageWork
  | .sendTest _ => 10 + messageWork
  | .install _ => 11 + messageWork + bufferSize
  | .check _ => taskWork

/-- The longest way of an IO thread. -/
def ioWork : ℕ := (eventWork + 1) * maxEvents + 21

/-- The steps of `io_thread_destroy` that are left, and the way of the thread that has to stop for
it. -/
def DestroyStage.rank : DestroyStage → ℕ
  | .flag => ioWork + 7
  | .wake => 6
  | .join => 5
  | .loop => 4
  | .close0 => 3
  | .close1 => 2
  | .free => 1

/-- The steps of `server_destroy` that are left, with the ways of the IO threads that were not told
to stop. -/
def MainPc.rank : MainPc n → ℕ
  | .done => 0
  | .queueDestroy => 1
  | .joinWorkers => 2
  | .queueShutdown => 3
  | .poolShutdown => 4
  | .ioDestroy t stage => (n - (t + 1)) * (ioWork + 7) + stage.rank + 4
  | .destroyLoop => n * (ioWork + 7) + 5
  | .closeListen => n * (ioWork + 7) + 6
  | _ => 0

namespace State

variable (s : State n m)

/-- The bytes that were received and not read. -/
def unread : ℕ :=
  ∑ sk ∈ Finset.range s.kernel.nextSock, (s.kernel.socks sk).unread.length

/-- The bytes of responses that were not written. -/
def unsent : ℕ :=
  ∑ c ∈ Finset.range s.nextConn, ((s.conns c).buffer.size - (s.conns c).buffer.pos)

/-- What the data in the sockets, in the task queue and in the send buffers will take. -/
def dataWork : ℕ :=
  byteWork * s.unread + taskWork * s.queue.length + s.unsent

/-- The work that is left for `server_destroy`. -/
def work : ℕ :=
  s.dataWork + ∑ t, (s.io t).work + ∑ w, (s.worker w).rank + s.main.rank

end State

section steps

variable {cfg : Config n} {s s' : State n m} {t : Fin n} {w : Fin m}

/-! ### The data -/

theorem unread_congr (hsocks : s'.kernel.socks = s.kernel.socks)
    (hnext : s'.kernel.nextSock = s.kernel.nextSock) : s'.unread = s.unread := by
  unfold State.unread
  rw [hsocks, hnext]

theorem unsent_congr (hbuffer : ∀ c, (s'.conns c).buffer = (s.conns c).buffer)
    (hconn : s'.nextConn = s.nextConn) :
    s'.unsent = s.unsent := by
  unfold State.unsent
  rw [hconn]
  exact Finset.sum_congr rfl fun c _ => by rw [hbuffer c]

/-- A step that leaves the sockets, the queue and the send buffers alone. -/
theorem dataWork_congr (hsocks : s'.kernel.socks = s.kernel.socks)
    (hnext : s'.kernel.nextSock = s.kernel.nextSock) (hqueue : s'.queue = s.queue)
    (hbuffer : ∀ c, (s'.conns c).buffer = (s.conns c).buffer) (hconn : s'.nextConn = s.nextConn) :
    s'.dataWork = s.dataWork := by
  unfold dataWork
  rw [unread_congr hsocks hnext, unsent_congr hbuffer hconn, hqueue]

/-- What a task in the queue will take. -/
theorem dataWork_pop {task : Task} {rest : List Task} (hq : s.queue = task :: rest) :
    (s.setQueue rest).dataWork + taskWork = s.dataWork := by
  change byteWork * s.unread + taskWork * rest.length + s.unsent + taskWork = s.dataWork
  rw [dataWork, hq, List.length_cons, Nat.mul_succ]
  omega

/-- What a `read` takes out of a socket. -/
theorem unread_setSock {sk : SockId} (hsk : sk < s.kernel.nextSock) (v : Sock)
    (hio : s'.kernel.socks = Function.update s.kernel.socks sk v)
    (hnext : s'.kernel.nextSock = s.kernel.nextSock) :
    s'.unread + (s.kernel.socks sk).unread.length = s.unread + v.unread.length := by
  unfold State.unread
  rw [hio, hnext]
  exact partSum_update _ s.kernel.socks (Finset.mem_range.mpr hsk) v fun v => v.unread.length

/-- What a change of a send buffer does to the bytes that are left. -/
theorem unsent_setConn {c : ConnId} (hc : c < s.nextConn) (k : Conn n) (hconns : s'.conns =
    Function.update s.conns c k) (hnext : s'.nextConn = s.nextConn) :
    s'.unsent + ((s.conns c).buffer.size - (s.conns c).buffer.pos) =
      s.unsent + (k.buffer.size - k.buffer.pos) := by
  unfold State.unsent
  rw [hconns, hnext]
  exact partSum_update _ s.conns (Finset.mem_range.mpr hc) k fun k => k.buffer.size - k.buffer.pos

/-! ### The steps of an IO thread -/

theorem rank_afterFd (x : EventContext) : (afterFd x).rank ≤ 17 := by
  unfold afterFd afterRead
  split_ifs <;> simp [IoPc.rank]

theorem rank_afterCheck (k : CloseSite) (x : EventContext) :
    (afterCheck k x).rank < (IoPc.recheck k x).rank := by
  cases k <;> unfold afterCheck afterRead <;> simp only [reduceCtorEq, if_true, if_false]
    <;> try split_ifs
  all_goals simp [IoPc.rank]

/-- A thread comes to the point where it waits from the head of its loop only. -/
theorem IoMove.wait_inv {pc pc' : IoPc} (h : IoMove s t pc pc') (hwait : pc'.collects = true) :
    pc = .loop ∧ (s.io t).shutdown = false := by
  cases h with
  | wait hrun => exact ⟨rfl, hrun⟩
  | fdLoaded x =>
    unfold afterFd afterRead at hwait
    split_ifs at hwait <;> cases hwait
  | stillValid k x =>
    unfold afterCheck afterRead at hwait
    split_ifs at hwait <;> cases hwait
  | _ => cases hwait

/-- A move that does not begin to wait shortens the way of the thread. -/
theorem IoMove.rank_lt {pc pc' : IoPc} (h : IoMove s t pc pc') (hne : pc'.collects = false) :
    pc'.rank < pc.rank := by
  cases h with
  | wait => cases hne
  | fdLoaded x => exact (rank_afterFd _).trans_lt (by simp [IoPc.rank])
  | stillValid k x => exact rank_afterCheck k x
  | nowInvalid k x => cases k <;> simp [IoPc.rank]
  | _ => simp [IoPc.rank]

/-- The thread has come closer to its end. -/
def IoThread.Closer (th th' : IoThread) : Prop :=
  th'.load ≤ th.load ∧ (th.shutdown = true → th'.load + th'.rank < th.load + th.rank)

/-- Away from the point where it waits, and without a chunk to submit, a thread has still to go
through the events, the messages and the rest of the current event. -/
theorem IoThread.closer_of {th th' : IoThread} (hpc : th.pc.collects = false ∧ th.pc.chunk? = none)
    (hpc' : th'.pc.collects = false ∧ th'.pc.chunk? = none)
    (hmsgs : th'.msgQueue.length ≤ th.msgQueue.length)
    (hlt : messageWork * th'.msgQueue.length + (eventWork * th'.batch.length + th'.pc.rank) <
      messageWork * th.msgQueue.length + (eventWork * th.batch.length + th.pc.rank)) : th.Closer
    th' := by
  have hform : ∀ {x : IoThread}, x.pc.collects = false ∧ x.pc.chunk? = none →
      x.load = messageWork * x.msgQueue.length ∧
        x.rank = eventWork * x.batch.length + x.pc.rank := by
    intro x hx
    constructor
    · rw [load, hx.2, Option.isSome_none, if_neg Bool.false_ne_true, zero_add]
    · rw [rank, hx.1, if_neg Bool.false_ne_true, add_zero]
  obtain ⟨hload, hrank⟩ := hform hpc
  obtain ⟨hload', hrank'⟩ := hform hpc'
  rw [Closer, hload, hload', hrank, hrank']
  exact ⟨Nat.mul_le_mul_left _ hmsgs, fun _ => hlt⟩

/-- At the points where it moves no data, a thread that is told to stop comes closer to its end. -/
theorem IoStep.closer (h : IoStep cfg s t s') (hmoves : (s.io t).pc.movesData = false)
    (hbatch : (s'.io t).batch.length ≤ maxEvents) : (s.io t).Closer (s'.io t) := by
  have hno : ∀ {pc : IoPc}, (s.io t).pc = pc → pc.movesData = true → False := by
    intro pc heq hpc
    rw [heq, hpc] at hmoves
    cases hmoves
  -- a step that leaves the events and the messages alone
  have hgo : ∀ {th : IoThread} {pc : IoPc}, (s.io t).pc = pc → pc.collects = false ∧
      pc.chunk? = none → th.pc.collects = false ∧ th.pc.chunk? = none → th.batch = (s.io t).batch →
        th.msgQueue = (s.io t).msgQueue →
      th.pc.rank < pc.rank → (s.io t).Closer th := by
    intro th pc hpc hold hnew hb hq hlt
    refine IoThread.closer_of (hpc ▸ hold) hnew (by rw [hq]) ?_
    rw [hb, hq, hpc]
    omega
  cases h with
  | @move pc' hm =>
    rw [setIoPc_io, Function.update_self]
    have hload : IoThread.load { s.io t with pc := pc' } ≤ (s.io t).load := by
      simp only [IoThread.load, hm.chunk?, Option.isSome_none, Bool.false_eq_true, if_false]
      omega
    refine ⟨hload, fun hstop => ?_⟩
    have hrank : IoThread.rank { s.io t with pc := pc' } < (s.io t).rank := by
      have hne : pc'.collects = false := by
        rw [← Bool.not_eq_true]
        intro hwait
        rw [(hm.wait_inv hwait).2] at hstop
        cases hstop
      have hlt := hm.rank_lt hne
      simp only [IoThread.rank, hne, Bool.false_eq_true, if_false]
      omega
    omega
  | collectPipe hpc | collectMsg hpc | collectFd hpc =>
    -- the event was paid for in advance
    simp only [setIo_io, Function.update_self, List.length_append,
      List.length_singleton] at hbatch ⊢
    refine ⟨le_rfl, fun _ => ?_⟩
    simp only [IoThread.load, IoThread.rank, hpc, IoPc.collects, if_true, List.length_append,
      List.length_singleton, eventWork]
    omega
  | nextPipe hpc hb | nextMsg hpc hb | nextConn hpc hb =>
    rw [setIo_io, Function.update_self]
    refine IoThread.closer_of (by rw [hpc]; exact ⟨rfl, rfl⟩) ⟨rfl, rfl⟩ le_rfl ?_
    simp only [hpc, hb, List.length_cons, IoPc.rank, eventWork]
    omega
  | drain hpc hq =>
    rw [setIo_io, Function.update_self]
    refine IoThread.closer_of (by rw [hpc]; exact ⟨rfl, rfl⟩) ⟨rfl, rfl⟩ ?_ ?_
    · rw [hq, List.length_cons]
      exact Nat.le_succ _
    · simp only [hpc, hq, List.length_cons, IoPc.rank, messageWork]
      omega
  | backToRead hpc =>
    rw [State.backToRead, setIoPc_io, Function.update_self]
    rcases hpc with hpc | hpc
    · exact hgo hpc ⟨rfl, rfl⟩ ⟨rfl, rfl⟩ rfl rfl (by simp [IoPc.rank])
    · exact hgo hpc ⟨rfl, rfl⟩ ⟨rfl, rfl⟩ rfl rfl (by simp [IoPc.rank])
  | readData hpc | createTask hpc | createLeak hpc | submitLeak hpc | submit hpc | wrote hpc
  | reset hpc =>
    exact (hno hpc rfl).elim
  | @closeMark k x hpc | @closeDel k x fd hpc =>
    simp only [State.markClosing, setIoPc_io, Function.update_self]
    exact hgo hpc ⟨rfl, rfl⟩ ⟨rfl, rfl⟩ rfl rfl (by cases k <;> simp [IoPc.rank])
  | @closeRelease k x hpc =>
    simp only [releaseOwner, setIoPc_io, Function.update_self]
    cases k with
    | _ => exact hgo hpc ⟨rfl, rfl⟩ ⟨rfl, rfl⟩ rfl rfl (by simp [IoPc.rank])
  | readWake hpc | readConn hpc | adopt hpc | register hpc | reject hpc | msgRead hpc | msgMod hpc
  | msgRelease hpc =>
    simp only [rejectConnection, setIo_io, setIoPc_io, Function.update_self]
    exact hgo hpc ⟨rfl, rfl⟩ ⟨rfl, rfl⟩ rfl rfl (by simp [IoPc.rank])

theorem IoStep.shutdown_eq (h : IoStep cfg s t s') : (s'.io t).shutdown = (s.io t).shutdown := by
  have hupdate : ∀ {th : IoThread}, th.shutdown = (s.io t).shutdown →
      (Function.update s.io t th t).shutdown = (s.io t).shutdown := by
    intro th hth
    rw [Function.update_self, hth]
  cases h <;> exact hupdate rfl

/-- Only the thread that runs changes. -/
theorem IoStep.io_update (h : IoStep cfg s t s') : s'.io = Function.update s.io t (s'.io t) := by
  funext t'
  by_cases ht : t' = t
  · subst ht
    rw [Function.update_self]
  · rw [h.io_ne ht, Function.update_of_ne ht]

/-- The number of an accepted socket is one of those given out. -/
theorem ConnFiles.lt_nextSock (hd : ConnFiles s) {o : Option Fd} {sk : SockId}
    (h : s.kernel.sockAt o = some sk) :
    sk < s.kernel.nextSock := by
  unfold Kernel.sockAt at h
  split at h
  · cases h
  · next f =>
    split at h
    · next sk' hf =>
      cases h
      exact hd.bound f sk hf
    · cases h

/-- `read` takes bytes from a socket. -/
theorem dataWork_readData (hd : ConnFiles s) {x : EventContext} {o : Option Fd} {len : ℕ}
    {data : List UInt8} {k : Kernel n} (hk : s.kernel.readBytes o len = some (data, k)) :
    0 < len ∧ (s.readData t x data k).dataWork + byteWork * len = s.dataWork := by
  obtain ⟨sk, hsk, hlen, -, hle, -, hk'⟩ := Kernel.readBytes_eq hk
  generalize hs' : s.readData t x data k = s'
  have hsocks : s'.kernel.socks = Function.update s.kernel.socks sk
      { s.kernel.socks sk with unread := (s.kernel.socks sk).unread.drop len } := by
    rw [← hs', hk']
    rfl
  have hnext : s'.kernel.nextSock = s.kernel.nextSock := by
    rw [← hs', hk']
    rfl
  have hunread := unread_setSock (hd.lt_nextSock hsk) _ hsocks hnext
  have hunsent : s'.unsent = s.unsent := by
    rw [← hs']
    exact unsent_congr (buffer_update rfl) rfl
  have hqueue : s'.queue = s.queue := by
    rw [← hs']
    rfl
  have htotal : s'.unread + len = s.unread := by
    simp only [List.length_drop] at hunread
    omega
  rw [dataWork, dataWork, hunsent, hqueue, ← htotal, Nat.mul_add]
  omega

/-- `write` takes bytes from a send buffer. -/
theorem dataWork_wroteData {x : EventContext} {o : Option Fd} {len : ℕ} {room : Bool} {k : Kernel n}
    (hc : x.conn < s.nextConn)
    (hk : s.kernel.writeBytes o (s.conns x.conn).unsent len room = some k) :
    0 < len ∧ (s.wroteData t x len k).dataWork + len = s.dataWork := by
  obtain ⟨sk, -, hlen, hle, -, hk'⟩ := Kernel.writeBytes_eq hk
  have hleft : len ≤ (s.conns x.conn).writeSize - (s.conns x.conn).writePos :=
    hle.trans (List.length_take_le ..)
  generalize hs' : s.wroteData t x len k = s'
  have hconns : s'.conns = Function.update s.conns x.conn ((s.conns x.conn).advance len) := by
    rw [← hs']
    rfl
  have hnext : s'.nextConn = s.nextConn := by
    rw [← hs']
    rfl
  have hunsent := unsent_setConn hc _ hconns hnext
  have hunread : s'.unread = s.unread := by
    rw [← hs', hk']
    refine Finset.sum_congr rfl fun sk' _ => ?_
    rw [wroteData, setIo_kernel, setConn_kernel, setKernel_kernel, Kernel.setSock_socks]
    by_cases hsk : sk' = sk
    · rw [hsk, Function.update_self]
    · rw [Function.update_of_ne hsk]
  have hqueue : s'.queue = s.queue := by
    rw [← hs']
    rfl
  rw [dataWork, dataWork, hunread, hqueue]
  simp only [Conn.buffer_size, Conn.buffer_pos, Conn.advance_writeSize,
    Conn.advance_writePos] at hunsent
  omega

/-- Emptying a send buffer leaves less to send. -/
theorem dataWork_reset {x : EventContext} (hc : x.conn < s.nextConn) (pc : IoPc) :
    ((s.setConn x.conn (s.conns x.conn).resetWrite).setIoPc t pc).dataWork ≤ s.dataWork := by
  generalize hs' : (s.setConn x.conn (s.conns x.conn).resetWrite).setIoPc t pc = s'
  have hconns : s'.conns = Function.update s.conns x.conn (s.conns x.conn).resetWrite := by
    rw [← hs']
    rfl
  have hnext : s'.nextConn = s.nextConn := by
    rw [← hs']
    rfl
  have hunsent := unsent_setConn hc _ hconns hnext
  have hunread : s'.unread = s.unread := by
    rw [← hs']
    rfl
  have hqueue : s'.queue = s.queue := by
    rw [← hs']
    rfl
  rw [dataWork, dataWork, hunread, hqueue]
  simp only [Conn.buffer_size, Conn.buffer_pos, Conn.resetWrite_writeSize,
    Conn.resetWrite_writePos] at hunsent
  omega

/-- The data and the thread together have come closer to the end of the thread. -/
def IoThread.Spends (d : ℕ) (th : IoThread) (d' : ℕ) (th' : IoThread) : Prop :=
  d' + th'.load ≤ d + th.load ∧ d' + (th'.load + th'.rank) < d + (th.load + th.rank)

/-- A thread that goes on in the treatment of an event pays with data. -/
theorem IoThread.spends_of {d d' : ℕ} {th th' : IoThread} {pc pc' : IoPc} (hpc : th.pc = pc)
    (hpc' : th'.pc = pc') (hne : pc.collects = false) (hne' : pc'.collects = false)
    (hb : th'.batch = th.batch) (hq : th'.msgQueue = th.msgQueue)
    (hle : d' + (if pc'.chunk?.isSome then taskWork else 0) ≤ d + if pc.chunk?.isSome then taskWork
      else 0)
    (hlt : d' + (if pc'.chunk?.isSome then taskWork else 0) + pc'.rank <
      d + (if pc.chunk?.isSome then taskWork else 0) + pc.rank) : IoThread.Spends d th d' th' := by
  unfold Spends load rank
  rw [hpc, hpc', hne, hne', if_neg Bool.false_ne_true, hb, hq]
  omega

/-- A thread that reads, submits or writes pays with data. -/
theorem IoStep.spends (h : IoStep cfg s t s') (hi : Owned s) (hd : ConnFiles s)
    (hmoves : (s.io t).pc.movesData = true) :
    IoThread.Spends s.dataWork (s.io t) s'.dataWork (s'.io t) := by
  have hno : ∀ {pc : IoPc}, (s.io t).pc = pc → pc.movesData = false → False := by
    intro pc heq hpc
    rw [heq, hpc] at hmoves
    cases hmoves
  have hself : ∀ {d' : ℕ} {th' : IoThread}, IoThread.Spends s.dataWork (s.io t) d' th' →
      IoThread.Spends s.dataWork (s.io t) d' (Function.update s.io t th' t) := by
    intro d' th' hth
    rwa [Function.update_self]
  cases h with
  | @readData x len data k hpc hk =>
    obtain ⟨hlen, hdata⟩ := dataWork_readData (t := t) (x := x) hd hk
    have hbyte : taskWork + 4 ≤ byteWork * len := Nat.le_mul_of_pos_right byteWork hlen
    refine hself (IoThread.spends_of hpc rfl rfl rfl rfl rfl ?_ ?_)
    · simp only [IoPc.chunk?, Option.isSome_some, Option.isSome_none, Bool.false_eq_true, if_true,
        if_false]
      omega
    · simp only [IoPc.chunk?, Option.isSome_some, Option.isSome_none, Bool.false_eq_true, if_true,
        if_false, IoPc.rank]
      omega
  | @createTask x data hpc =>
    have hdata : ((s.setConn x.conn ((s.conns x.conn).acquire.addChunk data)).setIoPc t
        (.rdSubmit x { type := .process, conn := x.conn, data := data })).dataWork = s.dataWork :=
      dataWork_congr rfl rfl rfl (buffer_update rfl) rfl
    rw [hdata]
    exact hself
      (IoThread.spends_of hpc rfl rfl rfl rfl rfl le_rfl (by simp [IoPc.chunk?, IoPc.rank]))
  | @createLeak x data hpc =>
    have hdata : ((s.setConn x.conn (s.conns x.conn).acquire.leak).setIoPc t (.rdRead x)).dataWork =
        s.dataWork :=
      dataWork_congr rfl rfl rfl (buffer_update rfl) rfl
    rw [hdata]
    refine hself (IoThread.spends_of hpc rfl rfl rfl rfl rfl (by simp [IoPc.chunk?]) ?_)
    simp only [IoPc.chunk?, Option.isSome_some, Option.isSome_none, Bool.false_eq_true, if_true,
      if_false, IoPc.rank]
    omega
  | @submitLeak x task hpc =>
    have hdata : ((s.setConn task.conn (s.conns task.conn).leak).setIoPc t (.rdRead x)).dataWork =
        s.dataWork :=
      dataWork_congr rfl rfl rfl (buffer_update rfl) rfl
    rw [hdata]
    refine hself (IoThread.spends_of hpc rfl rfl rfl rfl rfl (by simp [IoPc.chunk?]) ?_)
    simp only [IoPc.chunk?, Option.isSome_some, Option.isSome_none, Bool.false_eq_true, if_true,
      if_false, IoPc.rank]
    omega
  | @submit x task hpc =>
    -- the chunk goes into the queue
    have hdata : ((s.setQueue (s.queue ++ [task])).setIoPc t (.rdRead x)).dataWork =
        s.dataWork + taskWork := by
      change byteWork * s.unread + taskWork * (s.queue ++ [task]).length + s.unsent =
          s.dataWork + taskWork
      rw [List.length_append, List.length_singleton, dataWork, Nat.mul_succ]
      omega
    rw [hdata]
    exact hself (IoThread.spends_of hpc rfl rfl rfl rfl rfl (by simp [IoPc.chunk?])
      (by simp [IoPc.chunk?, IoPc.rank]))
  | @wrote x len room k hpc _ hk =>
    obtain ⟨hlen, hdata⟩ :=
      dataWork_wroteData (t := t) (lt_nextConn_of_active hi (congrArg IoPc.role hpc)) hk
    have hlt : (s.wroteData t x len k).dataWork < s.dataWork := by omega
    exact hself (IoThread.spends_of hpc rfl rfl rfl rfl rfl (Nat.add_le_add_right hlt.le _)
      (Nat.add_lt_add_right (Nat.add_lt_add_right hlt _) _))
  | @reset x hpc =>
    have hc : x.conn < s.nextConn := lt_nextConn_of_active hi (congrArg IoPc.role hpc)
    have hdata := dataWork_reset (t := t) hc (.wrMod x)
    refine hself (IoThread.spends_of hpc rfl rfl rfl rfl rfl (Nat.add_le_add_right hdata _) ?_)
    simp only [IoPc.chunk?, Option.isSome_none, Bool.false_eq_true, if_false, IoPc.rank]
    omega
  | @move pc' hm =>
    have hdata : (s.setIoPc t pc').dataWork = s.dataWork := rfl
    have hne : pc'.collects = false := by
      rw [← Bool.not_eq_true]
      intro hwait
      exact hno (hm.wait_inv hwait).1 rfl
    have hlt := hm.rank_lt hne
    have hwait : (s.io t).pc.collects = false := by
      cases hpc : (s.io t).pc with
      | wait => exact (hno hpc rfl).elim
      | _ => rfl
    rw [hdata]
    refine hself (IoThread.spends_of rfl rfl hwait hne rfl rfl ?_ ?_)
    · rw [hm.chunk?]
      exact Nat.add_le_add_left (Nat.zero_le _) _
    · rw [hm.chunk?]
      exact Nat.add_lt_add_of_le_of_lt (Nat.add_le_add_left (Nat.zero_le _) _) hlt
  | backToRead hpc => rcases hpc with hpc | hpc <;> exact (hno hpc rfl).elim
  | collectPipe hpc | collectMsg hpc | collectFd hpc | nextPipe hpc | nextMsg hpc | nextConn hpc
  | readWake hpc | readConn hpc | adopt hpc | register hpc | reject hpc | msgRead hpc | drain hpc
  | msgMod hpc | msgRelease hpc | closeMark hpc | closeDel hpc | closeRelease hpc =>
    exact (hno hpc rfl).elim

/-- A step of an IO thread does not add to the work that is left, and takes some off when the thread
is told to stop. -/
theorem IoStep.paid (h : IoStep cfg s t s') (hi : Owned s) (hd : ConnFiles s)
    (hbatch : (s'.io t).batch.length ≤ maxEvents) : s'.work + (s.io t).shutdown.toNat ≤ s.work := by
  have hstop := h.shutdown_eq
  have hthread : s'.dataWork + (s'.io t).work + (s.io t).shutdown.toNat ≤
      s.dataWork + (s.io t).work := by
    unfold IoThread.work
    rw [hstop]
    cases hmoves : (s.io t).pc.movesData with
    | true =>
      obtain ⟨hle, hlt⟩ := h.spends hi hd hmoves
      cases hflag : (s.io t).shutdown
        <;> simp only [Bool.false_eq_true, if_true, if_false, Bool.toNat_true, Bool.toNat_false]
        <;> omega
    | false =>
      obtain ⟨hle, hlt⟩ := h.closer hmoves hbatch
      obtain ⟨hsocks, hqueue, hbuffer, -⟩ := h.moves_no_data hmoves
      rw [dataWork_congr hsocks h.nextSock_eq hqueue hbuffer h.nextConn_eq]
      cases hflag : (s.io t).shutdown with
      | true =>
        have hlt' := hlt hflag
        simp only [if_true, Bool.toNat_true]
        omega
      | false =>
        simp only [Bool.false_eq_true, if_false, Bool.toNat_false]
        omega
  have hio : ∑ t', (s'.io t').work + (s.io t).work = ∑ t', (s.io t').work + (s'.io t).work := by
    rw [h.io_update]
    have hsum := threadSum_update s.io t (s'.io t) IoThread.work
    rwa [Function.update_self]
  unfold State.work
  rw [h.worker_eq, h.main_eq]
  omega

/-! ### The steps of a worker -/

/-- A worker that finds no task because the pool is shut down does not go round its loop again. -/
theorem WorkerMove.rank_lt {pc pc' : WorkerPc n} (h : WorkerMove cfg s pc pc')
    (hstop : pc = .popNull → s.poolShutdown = true) : pc'.rank < pc.rank := by
  cases h with
  | noTaskLoop hrun =>
    rw [hstop rfl] at hrun
    cases hrun
  | _ =>
    simp only [WorkerPc.rank, taskWork]
    omega

/-- Only the worker that runs changes. -/
theorem WorkerStep.worker_update (h : WorkerStep cfg s w s') :
    s'.worker = Function.update s.worker w (s'.worker w) := by
  funext w'
  by_cases hw : w' = w
  · subst hw
    rw [Function.update_self]
  · rw [h.worker_ne hw, Function.update_of_ne hw]

/-- A connection object is written, and its buffer stays. -/
theorem dataWork_connRelease (s : State n m) (c : ConnId) :
    (s.connRelease c).dataWork = s.dataWork :=
  dataWork_congr (socks_connRelease s c) (connRelease_nextSock s c) rfl (buffer_update rfl) rfl

theorem dataWork_connMarkClosing (s : State n m) (c : ConnId) :
    (s.connMarkClosing c).dataWork = s.dataWork :=
  dataWork_congr (socks_connMarkClosing s c) (connMarkClosing_nextSock s c) rfl
    (buffer_update rfl) rfl

/-- A worker pays for each of its steps. -/
theorem WorkerStep.spends (h : WorkerStep cfg s w s') (hi : Owned s)
    (hstop : s.worker w = .popNull → s.poolShutdown = true) :
    s'.dataWork + ∑ t, (s'.io t).work + (s'.worker w).rank <
      s.dataWork + ∑ t, (s.io t).work + (s.worker w).rank := by
  -- a step that leaves the data and the IO threads alone
  have hgo : ∀ {pc : WorkerPc n}, s'.dataWork = s.dataWork → s'.io = s.io → s'.worker w = pc →
      pc.rank < (s.worker w).rank → s'.dataWork + ∑ t, (s'.io t).work + (s'.worker w).rank <
        s.dataWork + ∑ t, (s.io t).work + (s.worker w).rank := by
    intro pc hdata hio hpc hlt
    rw [hdata, hio, hpc]
    omega
  -- a step that writes to an IO thread
  have hwrite : ∀ {t : Fin n} {th : IoThread} {pc : WorkerPc n}, s'.dataWork = s.dataWork →
      s'.io = Function.update s.io t th → s'.worker w = pc →
      th.work + pc.rank < (s.io t).work + (s.worker w).rank →
      s'.dataWork + ∑ t, (s'.io t).work + (s'.worker w).rank <
        s.dataWork + ∑ t, (s.io t).work + (s.worker w).rank := by
    intro t th pc hdata hio hpc hlt
    have hsum := threadSum_update s.io t th IoThread.work
    rw [hdata, hio, hpc]
    omega
  cases h with
  | @move pc' hm => exact hgo rfl rfl (Function.update_self ..) (hm.rank_lt hstop)
  | @pop task rest hpc hq =>
    have hdata : ((s.setQueue rest).setWorker w (.check task)).dataWork + taskWork = s.dataWork :=
      dataWork_pop hq
    rw [setWorker_worker, Function.update_self, hpc]
    change _ + ∑ t, (s.io t).work + _ < _
    simp only [WorkerPc.rank]
    omega
  | @install task hpc hf =>
    have hc : task.conn < s.nextConn :=
      lt_nextConn_of_adopted hi (hi.held w task (by rw [hpc]; rfl)).2
    have hdata : ((s.setConn task.conn ((s.conns task.conn).install task.data)).setWorker w
        (.sendTest task)).dataWork ≤ s.dataWork + bufferSize := by
      generalize hs' : (s.setConn task.conn ((s.conns task.conn).install task.data)).setWorker w
        (.sendTest task) = s'
      have hconns : s'.conns =
          Function.update s.conns task.conn ((s.conns task.conn).install task.data) := by
        rw [← hs']
        rfl
      have hnext : s'.nextConn = s.nextConn := by
        rw [← hs']
        rfl
      have hunsent := unsent_setConn hc _ hconns hnext
      have hfits : (httpResponse task.data).2 < bufferSize := by
        simp only [responseFits, Bool.and_eq_true, decide_eq_true_eq] at hf
        exact hf.2
      have hunread : s'.unread = s.unread := by
        rw [← hs']
        rfl
      have hqueue : s'.queue = s.queue := by
        rw [← hs']
        rfl
      rw [dataWork, dataWork, hunread, hqueue]
      simp only [Conn.buffer_size, Conn.buffer_pos, Conn.install_writeSize,
        Conn.install_writePos] at hunsent
      omega
    rw [setWorker_worker, Function.update_self, hpc]
    change _ + ∑ t, (s.io t).work + _ < _
    simp only [WorkerPc.rank]
    omega
  | @acquire task t hpc =>
    refine hgo (dataWork_congr rfl rfl rfl (buffer_update rfl) rfl) rfl (Function.update_self ..) ?_
    simp [hpc, WorkerPc.rank]
  | @link task t hpc =>
    -- the message was paid for when the worker took its task
    refine hwrite rfl rfl (Function.update_self ..) ?_
    simp only [IoThread.work, IoThread.load, IoThread.rank, List.length_append,
      List.length_singleton, hpc, WorkerPc.rank, Nat.mul_succ]
    omega
  | @notify task t hpc hlt =>
    refine hwrite rfl rfl (Function.update_self ..) ?_
    rw [hpc]
    exact Nat.add_lt_add_left (Nat.lt_succ_self _) _
  | @closeMark task hpc =>
    refine hgo (dataWork_connMarkClosing s task.conn) rfl (Function.update_self ..) ?_
    simp [hpc, WorkerPc.rank]
  | @closeRelease task hpc =>
    refine hgo (dataWork_connRelease s task.conn) rfl (Function.update_self ..) ?_
    simp [hpc, WorkerPc.rank]
  | @stats task hpc =>
    refine hgo rfl rfl (Function.update_self ..) ?_
    simp [hpc, WorkerPc.rank]
  | @destroy task hpc =>
    refine hgo (dataWork_connRelease s task.conn) rfl (Function.update_self ..) ?_
    simp [hpc, WorkerPc.rank]

/-- A step of a worker takes some of the work off. -/
theorem WorkerStep.paid (h : WorkerStep cfg s w s') (hi : Owned s)
    (hstop : s.worker w = .popNull → s.poolShutdown = true) : s'.work < s.work := by
  have hspend := h.spends hi hstop
  have hworker : ∑ w', (s'.worker w').rank + (s.worker w).rank =
      ∑ w', (s.worker w').rank + (s'.worker w).rank := by
    rw [h.worker_update]
    have hsum := threadSum_update s.worker w (s'.worker w) WorkerPc.rank
    rwa [Function.update_self]
  unfold State.work
  rw [h.main_eq]
  omega

/-! ### The steps of the main thread -/

theorem IoPc.rank_le (pc : IoPc) : pc.rank ≤ 21 := by
  cases pc with
  | closeMark k | closeDel k | closeRelease k | recheck k => cases k <;> simp [rank]
  | _ => simp [rank]

/-- The way of a thread is bounded, since `event_loop_wait` returns no more events than there is
room for. -/
theorem IoThread.rank_le {th : IoThread} (hbatch : th.batch.length ≤ maxEvents) :
    th.rank ≤ ioWork := by
  have hpc := th.pc.rank_le
  unfold rank ioWork eventWork
  split_ifs <;> omega

/-- The way from `io_thread_destroy` of the thread with the number `k` on. -/
theorem rank_nextDestroy (k : ℕ) : (nextDestroy n k).rank = (n - k) * (ioWork + 7) + 4 := by
  unfold nextDestroy
  split
  · next hk =>
    have hsucc : n - k = n - (k + 1) + 1 := by omega
    simp only [MainPc.rank, DestroyStage.rank]
    rw [hsucc, Nat.succ_mul]
  · next hk =>
    have hzero : n - k = 0 := by omega
    rw [hzero, Nat.zero_mul, Nat.zero_add, MainPc.rank]

/-- `server_destroy` pays for each of its steps. -/
theorem MainStep.paid (h : MainStep cfg s s') (hrun : ¬s.Running)
    (hbatch : ∀ t, (s.io t).batch.length ≤ maxEvents) : s'.work < s.work := by
  -- a step that leaves the data and the threads alone
  have hgo : ∀ {pc pc' : MainPc n}, s'.dataWork = s.dataWork → s'.io = s.io → s'.worker = s.worker →
      s.main = pc → s'.main = pc' → pc'.rank < pc.rank → s'.work < s.work := by
    intro pc pc' hdata hio hworker hpc hpc' hlt
    unfold State.work
    rw [hdata, hio, hworker, hpc, hpc']
    omega
  -- a step that writes to an IO thread
  have hwrite : ∀ {pc pc' : MainPc n} {t : Fin n} {th : IoThread}, s'.dataWork = s.dataWork →
      s'.io = Function.update s.io t th → s'.worker = s.worker → s.main = pc → s'.main = pc' →
      th.work + pc'.rank < (s.io t).work + pc.rank → s'.work < s.work := by
    intro pc pc' t th hdata hio hworker hpc hpc' hlt
    have hsum := threadSum_update s.io t th IoThread.work
    unfold State.work
    rw [hdata, hio, hworker, hpc, hpc']
    omega
  have hclose : ∀ (o : Option Fd) (pc : MainPc n),
      ((s.setKernel (s.kernel.close o)).setMain pc).dataWork = s.dataWork :=
    fun o pc =>
      dataWork_congr (Kernel.close_socks ..) (Kernel.close_nextSock ..) rfl (fun _ => rfl) rfl
  cases h with
  | woken hpc | stop hpc | accept hpc | acceptAgain hpc | acceptIntr hpc | acceptFailed hpc
  | getThread hpc | noThread hpc | create hpc | createFailed hpc | handOff hpc | handOffFailed hpc
  | drop hpc | closeClient hpc =>
    refine (hrun ?_).elim
    rw [State.Running, hpc]
    trivial
  | closeListen hpc => exact hgo (hclose ..) rfl rfl hpc rfl (by simp [MainPc.rank])
  | destroyLoop hpc =>
    refine hgo (hclose ..) rfl rfl hpc rfl ?_
    rw [setMain_main, rank_nextDestroy, Nat.sub_zero]
    exact Nat.lt_succ_self _
  | @ioFlag t hpc =>
    -- from here on the way of the thread counts
    have hflag : IoThread.work { s.io t with shutdown := true } ≤ (s.io t).work + ioWork := by
      have hle := (s.io t).rank_le (hbatch t)
      exact Nat.add_le_add (Nat.le_add_right _ _) hle
    refine hwrite rfl rfl rfl hpc rfl ((Nat.add_le_add_right hflag _).trans_lt ?_)
    simp only [setMain_main, MainPc.rank, DestroyStage.rank]
    omega
  | @ioWake t hpc =>
    refine hwrite rfl rfl rfl hpc rfl (Nat.add_lt_add_left ?_ _)
    simp [MainPc.rank, DestroyStage.rank]
  | @ioFree t hpc =>
    refine hwrite rfl rfl rfl hpc rfl (Nat.add_lt_add_left ?_ _)
    rw [setMain_main, rank_nextDestroy]
    simp only [MainPc.rank, DestroyStage.rank]
    omega
  | ioWakeFailed hpc => exact hgo rfl rfl rfl hpc rfl (by simp [MainPc.rank, DestroyStage.rank])
  | ioJoin hpc => exact hgo rfl rfl rfl hpc rfl (by simp [MainPc.rank, DestroyStage.rank])
  | ioLoop hpc =>
    refine hgo ?_ rfl rfl hpc rfl (by simp [MainPc.rank, DestroyStage.rank])
    exact dataWork_congr (Kernel.close_socks ..) (Kernel.close_nextSock ..) rfl (fun _ => rfl) rfl
  | ioClose0 hpc => exact hgo (hclose ..) rfl rfl hpc rfl (by simp [MainPc.rank, DestroyStage.rank])
  | ioClose1 hpc => exact hgo (hclose ..) rfl rfl hpc rfl (by simp [MainPc.rank, DestroyStage.rank])
  | poolShutdown hpc => exact hgo rfl rfl rfl hpc rfl (by simp [MainPc.rank])
  | queueShutdown hpc => exact hgo rfl rfl rfl hpc rfl (by simp [MainPc.rank])
  | joinWorkers hpc => exact hgo rfl rfl rfl hpc rfl (by simp [MainPc.rank])
  | @destroyTask task rest hpc hq =>
    have hdata : ((s.setQueue rest).connRelease task.conn).dataWork < s.dataWork := by
      have hpop := dataWork_pop hq
      rw [dataWork_connRelease, ← hpop]
      exact Nat.lt_add_of_pos_right (by simp [taskWork])
    unfold State.work
    exact Nat.add_lt_add_right (Nat.add_lt_add_right (Nat.add_lt_add_right hdata _) _) _
  | destroyed hpc => exact hgo rfl rfl rfl hpc rfl (by simp [MainPc.rank])

end steps

end DeepInIo.AdvancedServer
