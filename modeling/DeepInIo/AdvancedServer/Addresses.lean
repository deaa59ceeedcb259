import DeepInIo.AdvancedServer.Server

/-!
# Connections at addresses

A `ConnId` of the server numbers the connections in the order of their creation.  In memory a
connection is known by the address that `malloc` returned for it, and two connections of different
times may have the same one.  Here `α` gives the address of every connection, and `readdress α` puts
it in the place of the number, wherever a thread, a queue, a pipe or an interest list holds one.

No function of the server looks at the address itself: what a step does to the threads and to the
kernel is the same for the numbers and for the addresses (`Kernel.eventLoopMod_readdress` and the
others).
-/

namespace DeepInIo.AdvancedServer

open State

variable {n m : ℕ} (α : ConnId → ConnId)

/-! ### Pointers -/

/-- The task at its address. -/
@[simps]
def Task.readdress (task : Task) : Task :=
  { task with conn := α task.conn }

@[simps]
def IoMessage.readdress (msg : IoMessage) : IoMessage :=
  { msg with conn := α msg.conn }

@[simps]
def EventContext.readdress (x : EventContext) : EventContext :=
  { x with conn := α x.conn }

@[simps]
def Registration.readdress (r : Registration) : Registration :=
  { r with data := α r.data }

def PipeItem.readdress : PipeItem → PipeItem
  | .conn c => .conn (α c)
  | .wake => .wake

def Event.readdress : Event → Event
  | .pipe => .pipe
  | .msgPipe => .msgPipe
  | .conn c events => .conn (α c) events

def IoPc.readdress : IoPc → IoPc
  | .loop => .loop
  | .wait => .wait
  | .next => .next
  | .pipeRead => .pipeRead
  | .pipeAdopt c => .pipeAdopt (α c)
  | .pipeAdd c => .pipeAdd (α c)
  | .pipeRelease c => .pipeRelease (α c)
  | .msgRead => .msgRead
  | .msgDrain => .msgDrain
  | .msgCheck msg => .msgCheck (msg.readdress α)
  | .msgMod msg => .msgMod (msg.readdress α)
  | .msgRelease msg => .msgRelease (msg.readdress α)
  | .evCheck x => .evCheck (x.readdress α)
  | .evFd x => .evFd (x.readdress α)
  | .rdRead x => .rdRead (x.readdress α)
  | .rdCreate x data => .rdCreate (x.readdress α) data
  | .rdSubmit x task => .rdSubmit (x.readdress α) (task.readdress α)
  | .wrEntry x => .wrEntry (x.readdress α)
  | .wrIdle x => .wrIdle (x.readdress α)
  | .wrLoop x => .wrLoop (x.readdress α)
  | .wrFinal x => .wrFinal (x.readdress α)
  | .wrReset x => .wrReset (x.readdress α)
  | .wrMod x => .wrMod (x.readdress α)
  | .closeMark k x => .closeMark k (x.readdress α)
  | .closeDel k x fd => .closeDel k (x.readdress α) fd
  | .closeRelease k x => .closeRelease k (x.readdress α)
  | .recheck k x => .recheck k (x.readdress α)
  | .erTest x => .erTest (x.readdress α)
  | .stopped => .stopped

def WorkerPc.readdress : WorkerPc n → WorkerPc n
  | .loop => .loop
  | .pop => .pop
  | .popNull => .popNull
  | .check task => .check (task.readdress α)
  | .install task => .install (task.readdress α)
  | .sendTest task => .sendTest (task.readdress α)
  | .sendAlloc task t => .sendAlloc (task.readdress α) t
  | .sendAcquire task t => .sendAcquire (task.readdress α) t
  | .sendLink task t => .sendLink (task.readdress α) t
  | .sendNotify task t => .sendNotify (task.readdress α) t
  | .closeMark task => .closeMark (task.readdress α)
  | .closeRelease task => .closeRelease (task.readdress α)
  | .stats task => .stats (task.readdress α)
  | .destroy task => .destroy (task.readdress α)
  | .exited => .exited

def MainPc.readdress : MainPc n → MainPc n
  | .handoff t c f sk => .handoff t (α c) f sk
  | .drop c f sk => .drop (α c) f sk
  | pc => pc

@[simps]
def IoThread.readdress (th : IoThread) : IoThread :=
  { th with
    pc := th.pc.readdress α
    batch := th.batch.map (Event.readdress α)
    pipe := th.pipe.map (PipeItem.readdress α)
    msgQueue := th.msgQueue.map (IoMessage.readdress α) }

@[simps]
def Kernel.readdress (k : Kernel n) : Kernel n :=
  { k with reg := fun t f => (k.reg t f).map (Registration.readdress α) }

/-! ### The kernel -/

namespace Kernel

variable (k : Kernel n) (t : Fin n) (f : Fd) (o : Option Fd) (mask : EventMask) (c : ConnId)

@[simp] theorem sockAt_readdress : (k.readdress α).sockAt o = k.sockAt o := rfl

@[simp] theorem readable_readdress : (k.readdress α).readable f = k.readable f := rfl

@[simp] theorem writable_readdress : (k.readdress α).writable f = k.writable f := rfl

@[simp] theorem readEof_readdress : (k.readdress α).readEof o = k.readEof o := rfl

@[simp] theorem readAgain_readdress : (k.readdress α).readAgain o = k.readAgain o := rfl

@[simp] theorem writeAgain_readdress : (k.readdress α).writeAgain o = k.writeAgain o := rfl

/-- An interest list in which one entry has changed. -/
theorem readdress_setReg (r : Option Registration) :
    (k.setReg t f r).readdress α =
      (k.readdress α).setReg t f (r.map (Registration.readdress α)) := by
  unfold readdress setReg
  congr 1
  funext t' f'
  by_cases ht : t' = t
  · subst ht
    by_cases hf : f' = f
    · subst hf; simp
    · simp [hf]
  · simp [ht]

theorem readdress_setSock (sk : SockId) (v : Sock) :
    (k.setSock sk v).readdress α = (k.readdress α).setSock sk v := rfl

theorem readdress_close : (k.close o).readdress α = (k.readdress α).close o := by
  cases o with
  | none => rfl
  | some f =>
    simp only [close, readdress_fds]
    split
    · unfold readdress
      congr 1
      funext t f'
      by_cases hf : f' = f
      · subst hf; simp
      · simp [hf]
    · rfl

theorem readdress_dropLoop : (k.dropLoop t).readdress α = (k.readdress α).dropLoop t := by
  unfold readdress dropLoop
  congr 1
  funext t' f
  by_cases ht : t' = t
  · subst ht; simp
  · simp [ht]

theorem readdress_arm : (k.arm f mask c).readdress α = (k.readdress α).arm f mask (α c) := rfl

theorem eventLoopAdd_readdress :
    (k.readdress α).eventLoopAdd t o mask (α c) =
      (k.eventLoopAdd t o mask c).map (Kernel.readdress α) := by
  cases o with
  | none => rfl
  | some f =>
    simp only [eventLoopAdd, readdress_fds, readdress_reg, Option.isNone_map]
    split
    · rw [Option.map_some, readdress_setReg, Option.map_some, readdress_arm]
    · rfl

theorem eventLoopMod_readdress :
    (k.readdress α).eventLoopMod t o mask (α c) = (k.eventLoopMod t o mask c).readdress α := by
  cases o with
  | none => rfl
  | some f =>
    simp only [eventLoopMod, readdress_reg, Option.isSome_map]
    split
    · rw [readdress_setReg, Option.map_some, readdress_arm]
    · rfl

theorem eventLoopDel_readdress :
    (k.readdress α).eventLoopDel t o = (k.eventLoopDel t o).readdress α := by
  cases o with
  | none => rfl
  | some f => exact (k.readdress_setReg α t f none).symm

theorem signal_readdress (rd wr : Bool) :
    (k.readdress α).signal f rd wr = (k.signal f rd wr).readdress α := by
  unfold readdress signal
  congr 1
  funext t f'
  by_cases hf : f' = f
  · subst hf
    simp only [Function.update_self, Option.map_map]
    rfl
  · simp [hf]

theorem readBytes_readdress (len : ℕ) :
    (k.readdress α).readBytes o len =
      (k.readBytes o len).map fun p => (p.1, p.2.readdress α) := by
  simp only [readBytes, sockAt_readdress, readdress_socks]
  split
  · rfl
  · split <;> rfl

theorem writeBytes_readdress (bytes : List UInt8) (len : ℕ) (room : Bool) :
    (k.readdress α).writeBytes o bytes len room =
      (k.writeBytes o bytes len room).map (Kernel.readdress α) := by
  simp only [writeBytes, sockAt_readdress, readdress_socks]
  split
  · rfl
  · split <;> rfl

end Kernel

/-! ### Program points -/

theorem IoPc.readdress_eq_stopped {pc : IoPc} : pc.readdress α = .stopped ↔ pc = .stopped := by
  cases pc <;> simp [readdress]

theorem WorkerPc.readdress_eq_exited {pc : WorkerPc n} :
    pc.readdress α = .exited ↔ pc = .exited := by
  cases pc <;> simp [readdress]

theorem readdress_afterRead (x : EventContext) :
    (afterRead x).readdress α = afterRead (x.readdress α) := by
  unfold afterRead
  rw [EventContext.readdress_events]
  split <;> rfl

theorem readdress_afterFd (x : EventContext) :
    (afterFd x).readdress α = afterFd (x.readdress α) := by
  unfold afterFd
  rw [EventContext.readdress_events]
  split
  · rfl
  · exact readdress_afterRead α x

theorem readdress_afterCheck (k : CloseSite) (x : EventContext) :
    (afterCheck k x).readdress α = afterCheck k (x.readdress α) := by
  unfold afterCheck
  split
  · exact readdress_afterRead α x
  · rfl

end DeepInIo.AdvancedServer
