import DeepInIo.AdvancedServer.InterestLists
import DeepInIo.AdvancedServer.ResponseStream
import DeepInIo.Foundation.InterestSwitch

/-!
# Switching between reading and writing

For every entry of an interest list, `State.interest` reads an `Interest` off the server: the mask
and the pending readiness of the entry, the socket and the buffer of its connection, the messages
about the connection, and what the IO thread is still to do for the events it has.  Every step of
the server is a run of these (`step_follows`), as long as no message is lost for want of memory and
no response is installed between the loop and the final test of `handle_write`.
-/

namespace DeepInIo.AdvancedServer

open State

variable {n m : ℕ}

/-! ### What a thread is still to do -/

/-- The thread is still to read all input of the connection for the event it treats. -/
@[simp]
def IoPc.readAhead (c : ConnId) : IoPc → Bool
  | .evCheck x | .evFd x => x.conn = c && x.events.read
  | .rdRead x | .rdCreate x _ | .rdSubmit x _ | .closeMark .read x => x.conn = c
  | _ => false

/-- The thread is still to enter `handle_write` for the event it treats, or has not returned from
it. -/
@[simp]
def IoPc.writeAhead (c : ConnId) : IoPc → Bool
  | .evCheck x | .evFd x | .rdRead x | .rdCreate x _ | .rdSubmit x _ | .recheck .read x
  | .closeMark .read x => x.conn = c && x.events.write
  | .wrEntry x | .wrIdle x | .wrLoop x | .wrFinal x | .wrReset x | .wrMod x | .closeMark .write x =>
    x.conn = c
  | _ => false

/-- The thread is at the final test of `handle_write`. -/
@[simp]
def IoPc.atFinal (c : ConnId) : IoPc → Bool
  | .wrFinal x => x.conn = c
  | _ => false

/-- The thread is about to switch the connection back to reading. -/
@[simp]
def IoPc.atRestore (c : ConnId) : IoPc → Bool
  | .wrIdle x | .wrMod x => x.conn = c
  | _ => false

/-- An event with `EVENT_READ`. -/
@[simp]
def Event.reads (c : ConnId) : Event → Bool
  | .conn c' ev => c' = c && ev.read
  | _ => false

/-- An event with `EVENT_WRITE`. -/
@[simp]
def Event.writes (c : ConnId) : Event → Bool
  | .conn c' ev => c' = c && ev.write
  | _ => false

namespace IoThread

variable (th : IoThread) (c : ConnId)

/-- A read event of the connection is in the batch, or its input is still to be read. -/
def readAhead : Bool :=
  th.pc.readAhead c || th.batch.any (Event.reads c)

/-- A write event of the connection is in the batch, or is being handled. -/
def writeAhead : Bool :=
  th.pc.writeAhead c || th.batch.any (Event.writes c)

end IoThread

/-! ### Messages on their way -/

/-- The worker is still to link its message about the connection. -/
def WorkerPc.announces (c : ConnId) : WorkerPc n → Bool
  | .sendTest k | .sendAlloc k _ | .sendAcquire k _ | .sendLink k _ => k.conn = c
  | _ => false

/-- The IO thread is handling a message about the connection. -/
@[simp]
def IoPc.announced (c : ConnId) : IoPc → Bool
  | .msgCheck msg | .msgMod msg => msg.conn = c
  | _ => false

namespace State

variable (s : State n m)

/-- A `RESPONSE_READY` message about the connection is still to be sent, queued, or being
handled. -/
def Announced (t : Fin n) (c : ConnId) : Prop :=
  (∃ w, (s.worker w).announces c = true) ∨ (∃ msg ∈ (s.io t).msgQueue, msg.conn = c) ∨
    (s.io t).pc.announced c = true

instance (t : Fin n) (c : ConnId) : Decidable (s.Announced t c) :=
  inferInstanceAs (Decidable (_ ∨ _ ∨ _))

/-- The step loses a message for want of memory, or installs a response while `handle_write` is
between its loop and its final test. -/
def interrupts : Action n m → Bool
  | .worker w ok =>
    match s.worker w with
    | .sendAlloc .. => !ok
    | .install task => decide (∃ t, (s.io t).pc.atFinal task.conn = true)
    | _ => false
  | _ => false

end State

/-- What a thread is doing with a connection. -/
structure Stage where
  readAhead : Bool
  writeAhead : Bool
  final : Bool
  restore : Bool
  announced : Bool

/-- What a program point says about a connection. -/
@[simp]
def IoPc.stage (c : ConnId) (pc : IoPc) : Stage where
  readAhead := pc.readAhead c
  writeAhead := pc.writeAhead c
  final := pc.atFinal c
  restore := pc.atRestore c
  announced := pc.announced c

/-! ### The abstraction -/

/-- The interest of an entry, for the thread, the connection and the socket it belongs to. -/
def interestOf (th : IoThread) (k : Conn n) (v : Sock) (r : Registration) (msg : Bool) :
    Interest where
  writing := r.mask.write
  pendRead := r.pendRead
  pendWrite := r.pendWrite
  unread := !v.unread.isEmpty
  writable := v.writable
  unsent := k.writePos < k.writeSize
  message := msg
  readAhead := th.readAhead r.data
  writeAhead := th.writeAhead r.data
  final := th.pc.atFinal r.data
  restore := th.pc.atRestore r.data

/-- The interest of an entry of the interest list of the thread `t`. -/
def State.interest (s : State n m) (t : Fin n) (r : Registration) : Interest :=
  interestOf (s.io t) (s.conns r.data) (s.kernel.socks (s.conns r.data).sock) r
    (decide (s.Announced t r.data))

/-- The thread is at the same stage with respect to the connection. -/
structure IoThread.SameStage (c : ConnId) (th th' : IoThread) : Prop where
  read : th'.readAhead c = th.readAhead c
  write : th'.writeAhead c = th.writeAhead c
  final : th'.pc.atFinal c = th.pc.atFinal c
  restore : th'.pc.atRestore c = th.pc.atRestore c

/-- A thread that keeps its events and stays at the same stage. -/
theorem IoThread.sameStage_of_pc {c : ConnId} {th th' : IoThread} (hb : th'.batch = th.batch)
    (hp : th'.pc.stage c = th.pc.stage c) : th.SameStage c th' := by
  have hread : th'.pc.readAhead c = th.pc.readAhead c := congrArg Stage.readAhead hp
  have hwrite : th'.pc.writeAhead c = th.pc.writeAhead c := congrArg Stage.writeAhead hp
  refine ⟨?_, ?_, congrArg Stage.final hp, congrArg Stage.restore hp⟩
  · rw [IoThread.readAhead, IoThread.readAhead, hb, hread]
  · rw [IoThread.writeAhead, IoThread.writeAhead, hb, hwrite]

section quiet

variable {cfg : Config n} {s s' : State n m} {t : Fin n} {r : Registration}

/-- Whoever is announced stays announced. -/
theorem announced_mono {c : ConnId} (hw : s'.worker = s.worker)
    (hq : (s'.io t).msgQueue = (s.io t).msgQueue)
    (ha : (s'.io t).pc.announced c = (s.io t).pc.announced c) (h : s.Announced t c) :
    s'.Announced t c := by
  rw [Announced, hw, hq, ha]
  exact h

/-- A step that leaves an entry, its socket, its buffer and its stage alone and loses no message. -/
theorem interest_quiet (hth : (s.io t).SameStage r.data (s'.io t))
    (hk : (s.conns r.data).SameBuffer (s'.conns r.data))
    (hv : s'.kernel.socks (s.conns r.data).sock = s.kernel.socks (s.conns r.data).sock)
    (hm : s.Announced t r.data → s'.Announced t r.data) :
    Relation.ReflTransGen Interest.Step (s.interest t r) (s'.interest t r) := by
  have hraise := Interest.steps_message (s.interest t r) (decide (s'.Announced t r.data))
    fun h => decide_eq_true (hm (of_decide_eq_true h))
  convert hraise using 1
  rw [State.interest, State.interest, interestOf, interestOf, hth.read, hth.write, hth.final,
    hth.restore, hk.pos, hk.size, hk.sock, hv]

/-- A thread that proceeds to another program point. -/
theorem interest_setIoPc {pc' : IoPc} (ha : pc'.announced r.data = (s.io t).pc.announced r.data) :
    (s.setIoPc t pc').interest t r = { s.interest t r with
      readAhead := pc'.readAhead r.data || (s.io t).batch.any (Event.reads r.data)
      writeAhead := pc'.writeAhead r.data || (s.io t).batch.any (Event.writes r.data)
      final := pc'.atFinal r.data
      restore := pc'.atRestore r.data } := by
  have hm : (s.setIoPc t pc').Announced t r.data ↔ s.Announced t r.data := by
    rw [Announced, Announced, setIoPc_io, Function.update_self, ha]
    exact Iff.rfl
  simp only [State.interest, interestOf, IoThread.readAhead, IoThread.writeAhead, hm, setIoPc_io,
    setIoPc_conns, setIoPc_kernel, Function.update_self]

/-- Nothing is left to read when `read` would block. -/
theorem unread_of_readAgain (hi : Owned s) (hd : ConnFiles s) {x : EventContext}
    (hr : (s.io t).pc.role = .active x.conn)
    (h : s.kernel.readAgain (s.conns x.conn).fd = true) :
    (s.kernel.socks (s.conns x.conn).sock).unread.isEmpty = true := by
  rw [Kernel.readAgain, sockAt_active hi hd hr] at h
  simp only [Bool.and_eq_true] at h
  exact h.1

/-- There is no room when `write` would block. -/
theorem writable_of_writeAgain (hi : Owned s) (hd : ConnFiles s) {x : EventContext}
    (hr : (s.io t).pc.role = .active x.conn)
    (h : s.kernel.writeAgain (s.conns x.conn).fd = true) :
    (s.kernel.socks (s.conns x.conn).sock).writable = false := by
  rw [Kernel.writeAgain, sockAt_active hi hd hr] at h
  simpa using h

/-- A connection that is found invalid is not registered. -/
theorem ne_of_invalid (hi : Owned s) {c c' : ConnId} (ho : s.owner c' = .registered t)
    (hv : (s.conns c).isValid = false) : c ≠ c' := by
  rintro rfl
  have hvalid : (s.conns c).isValid = true := by
    refine (hi.conn c).isValid_iff.mpr ?_
    change (s.owner c).marked = false
    rw [ho]
    rfl
  rw [hvalid] at hv
  cases hv

@[simp] theorem stage_afterRead (c : ConnId) (x : EventContext) :
    (afterRead x).stage c = ⟨false, x.conn = c && x.events.write, false, false, false⟩ := by
  unfold afterRead
  cases hw : x.events.write <;> simp

@[simp] theorem stage_afterFd (c : ConnId) (x : EventContext) :
    (afterFd x).stage c = (IoPc.evFd x).stage c := by
  unfold afterFd
  split
  · next hr =>
    simp [hr]
  · next hr =>
    rw [stage_afterRead]
    simp [hr]

@[simp] theorem stage_afterCheck (c : ConnId) (k : CloseSite) (x : EventContext) :
    (afterCheck k x).stage c = (IoPc.recheck k x).stage c := by
  cases k with
  | read => exact stage_afterRead c x
  | write | hangup => rfl

/-- The moves of a thread are runs of the interests of its connections. -/
theorem IoMove.interest {pc pc' : IoPc} (h : IoMove s t pc pc') (hpc : (s.io t).pc = pc)
    (hi : Owned s) (hd : ConnFiles s) (ho : s.owner r.data = .registered t) :
    Relation.ReflTransGen Interest.Step (s.interest t r) ((s.setIoPc t pc').interest t r) := by
  have hsame : pc'.stage r.data = pc.stage r.data →
      Relation.ReflTransGen Interest.Step (s.interest t r) ((s.setIoPc t pc').interest t r) := by
    intro hstage
    have hp : ((s.setIoPc t pc').io t).pc.stage r.data = (s.io t).pc.stage r.data := by
      rw [setIoPc_io, Function.update_self, hpc]
      exact hstage
    refine interest_quiet (IoThread.sameStage_of_pc (by simp) hp) (.refl _) rfl ?_
    exact announced_mono rfl (by simp) (congrArg Stage.announced hp)
  cases h with
  | msgSkip msg hskip =>
    have htype := (hi.message t msg (.inr (congrArg IoPc.message? hpc))).1
    have hne := ne_of_invalid hi ho (hskip htype)
    exact hsame (by simp [hne])
  | evInvalid x hv =>
    have hne := ne_of_invalid hi ho hv
    exact hsame (by simp [hne])
  | nowInvalid k x hv =>
    have hne := ne_of_invalid hi ho hv
    refine hsame ?_
    cases k <;> simp [hne]
  | fdLoaded x => exact hsame (stage_afterFd ..)
  | stillValid k x hv => exact hsame (stage_afterCheck ..)
  | readAgain x hv =>
    by_cases hx : x.conn = r.data
    · have hunread := unread_of_readAgain hi hd (congrArg IoPc.role hpc) hv
      rw [hx] at hunread
      have hstep :=
        Interest.Step.readDone (s.interest t r) ((s.io t).batch.any (Event.reads r.data))
          (by simpa [State.interest, interestOf] using hunread)
      rw [interest_setIoPc (by simp [hpc])]
      convert Relation.ReflTransGen.single hstep using 1
      simp [State.interest, interestOf, IoThread.readAhead, IoThread.writeAhead, hpc]
    · exact hsame (by simp [hx])
  | writeNothing x hv =>
    by_cases hx : x.conn = r.data
    · have hstep := Interest.Step.nothing (s.interest t r)
        (by rw [hx] at hv; simp [State.interest, interestOf, hv])
      rw [interest_setIoPc (by simp [hpc])]
      convert Relation.ReflTransGen.single hstep using 1
      simp [State.interest, interestOf, IoThread.readAhead, IoThread.writeAhead, hpc, hx]
    · exact hsame (by simp [hx])
  | writeDone x hv =>
    by_cases hx : x.conn = r.data
    · have hstep := Interest.Step.blocked (s.interest t r)
        (by rw [hx] at hv; simp [State.interest, interestOf, hv])
      rw [interest_setIoPc (by simp [hpc])]
      convert Relation.ReflTransGen.single hstep using 1
      simp [State.interest, interestOf, IoThread.readAhead, IoThread.writeAhead, hpc, hx]
    · exact hsame (by simp [hx])
  | writeAgain x hv =>
    by_cases hx : x.conn = r.data
    · have hroom := writable_of_writeAgain hi hd (congrArg IoPc.role hpc) hv
      rw [hx] at hroom
      have hstep := Interest.Step.blocked (s.interest t r) fun _ => hroom
      rw [interest_setIoPc (by simp [hpc])]
      convert Relation.ReflTransGen.single hstep using 1
      simp [State.interest, interestOf, IoThread.readAhead, IoThread.writeAhead, hpc, hx]
    · exact hsame (by simp [hx])
  | finalDone x hv =>
    by_cases hx : x.conn = r.data
    · have hstep := Interest.Step.sent (s.interest t r)
      rw [interest_setIoPc (by simp [hpc])]
      convert Relation.ReflTransGen.single hstep using 1
      simp [State.interest, interestOf, IoThread.readAhead, IoThread.writeAhead, hpc, hx]
    · exact hsame (by simp [hx])
  | finalMore x hv =>
    by_cases hx : x.conn = r.data
    · have hstep := Interest.Step.leave (s.interest t r) ((s.io t).batch.any (Event.writes r.data))
        (by simp [State.interest, interestOf, hpc, hx])
        (by rw [hx] at hv; simp [State.interest, interestOf, hv])
      rw [interest_setIoPc (by simp [hpc])]
      convert Relation.ReflTransGen.single hstep using 1
      simp [State.interest, interestOf, IoThread.readAhead, IoThread.writeAhead, hpc]
    · exact hsame (by simp [hx])
  | _ => exact hsame rfl

end quiet

end DeepInIo.AdvancedServer
