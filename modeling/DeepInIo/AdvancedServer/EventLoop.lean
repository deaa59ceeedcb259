import DeepInIo.AdvancedServer.Basic
import Mathlib.Logic.Function.Basic
import Mathlib.Tactic.Simps.Basic

/-!
# Descriptors, sockets and the epoll backend

`Kernel` is what the server shares with the operating system: the descriptor table, the accepted
sockets, the backlog of the listening socket, and the interest lists of the epoll instances of the
IO threads.  The functions are the system calls of `event_loop_epoll.c`, `handle_read` and
`handle_write`; one that fails leaves the kernel as it is.

A registration carries the readiness that was signalled for it and not yet delivered.
`EPOLL_CTL_ADD` and `EPOLL_CTL_MOD` signal the readiness that holds at that moment and the new mask
asks for, and drop the rest.
-/

namespace DeepInIo.AdvancedServer

/-- An accepted socket. -/
structure Sock where
  /-- The bytes that arrived and were not read. -/
  unread : List UInt8
  /-- The peer has shut down its side. -/
  peerClosed : Bool
  /-- There is room in the send buffer. -/
  writable : Bool
  /-- Every byte `write` accepted, in order. -/
  written : List UInt8

/-- A socket just accepted. -/
def Sock.fresh : Sock := ⟨[], false, true, []⟩

/-- An entry of an interest list. -/
structure Registration where
  data : ConnId
  mask : EventMask
  pendRead : Bool
  pendWrite : Bool

/-- The kernel's state; `reg t` is the interest list of the IO thread `t`. -/
structure Kernel (n : ℕ) where
  fds : Fd → Option (File n)
  socks : SockId → Sock
  nextSock : SockId
  backlog : ℕ
  listenEdge : Bool
  reg : Fin n → Fd → Option Registration

namespace Kernel

variable {n : ℕ} (k : Kernel n)

/-- The accepted socket behind a descriptor. -/
def sockAt (o : Option Fd) : Option SockId :=
  match o with
  | none => none
  | some f =>
    match k.fds f with
    | some (.client s) => some s
    | _ => none

/-- `EPOLLIN` holds for the descriptor. -/
def readable (f : Fd) : Bool :=
  match k.sockAt (some f) with
  | some s => !(k.socks s).unread.isEmpty || (k.socks s).peerClosed
  | none => false

/-- `EPOLLOUT` holds for the descriptor. -/
def writable (f : Fd) : Bool :=
  match k.sockAt (some f) with
  | some s => (k.socks s).writable
  | none => false

/-- `close`: the number becomes free and the registrations of the open file go; a number that is not
open (or is `-1`) is refused. -/
def close (o : Option Fd) : Kernel n :=
  match o with
  | none => k
  | some f =>
    if (k.fds f).isSome then
      { k with
        fds := Function.update k.fds f none
        reg := fun t => Function.update (k.reg t) f none }
    else k

/-- Replace an entry of an interest list. -/
@[simps]
def setReg (t : Fin n) (f : Fd) (r : Option Registration) : Kernel n :=
  { k with reg := Function.update k.reg t (Function.update (k.reg t) f r) }

/-- The entry that `EPOLL_CTL_ADD` and `EPOLL_CTL_MOD` leave. -/
def arm (f : Fd) (mask : EventMask) (data : ConnId) : Registration where
  data := data
  mask := mask
  pendRead := mask.read && k.readable f
  pendWrite := mask.write && k.writable f

@[simp] theorem arm_data (f : Fd) (mask : EventMask) (data : ConnId) :
    (k.arm f mask data).data = data := rfl

@[simp] theorem arm_mask (f : Fd) (mask : EventMask) (data : ConnId) :
    (k.arm f mask data).mask = mask := rfl

/-- `event_loop_add`: `none` when it fails, because the descriptor is not open or is already
registered. -/
def eventLoopAdd (t : Fin n) (o : Option Fd) (mask : EventMask) (data : ConnId) :
    Option (Kernel n) :=
  match o with
  | none => none
  | some f =>
    if (k.fds f).isSome && (k.reg t f).isNone then some (k.setReg t f (some (k.arm f mask data)))
    else none

/-- `event_loop_mod`, which fails when the descriptor is not registered. -/
def eventLoopMod (t : Fin n) (o : Option Fd) (mask : EventMask) (data : ConnId) : Kernel n :=
  match o with
  | none => k
  | some f => if (k.reg t f).isSome then k.setReg t f (some (k.arm f mask data)) else k

/-- `event_loop_del` -/
def eventLoopDel (t : Fin n) (o : Option Fd) : Kernel n :=
  match o with
  | none => k
  | some f => k.setReg t f none

/-- The interest list of an epoll instance goes with its descriptor. -/
@[simps]
def dropLoop (t : Fin n) : Kernel n :=
  { k with reg := Function.update k.reg t fun _ => none }

/-- Change an accepted socket. -/
@[simps]
def setSock (s : SockId) (v : Sock) : Kernel n :=
  { k with socks := Function.update k.socks s v }

/-- `read` of up to `bufferSize` bytes when it returns `len > 0`. -/
def readBytes (o : Option Fd) (len : ℕ) : Option (List UInt8 × Kernel n) :=
  match k.sockAt o with
  | none => none
  | some s =>
    let v := k.socks s
    if 0 < len && len ≤ bufferSize && len ≤ v.unread.length then
      some (v.unread.take len, k.setSock s { v with unread := v.unread.drop len })
    else none

/-- `read` returns 0 exactly when everything was read and the peer has shut down. -/
def readEof (o : Option Fd) : Bool :=
  match k.sockAt o with
  | none => false
  | some s => (k.socks s).unread.isEmpty && (k.socks s).peerClosed

/-- `read` would block. -/
def readAgain (o : Option Fd) : Bool :=
  match k.sockAt o with
  | none => false
  | some s => (k.socks s).unread.isEmpty && !(k.socks s).peerClosed

/-- `write` when it accepts the first `len > 0` of the offered bytes; `room` tells whether the send
buffer has room afterwards. -/
def writeBytes (o : Option Fd) (bytes : List UInt8) (len : ℕ) (room : Bool) : Option (Kernel n) :=
  match k.sockAt o with
  | none => none
  | some s =>
    let v := k.socks s
    if 0 < len && len ≤ bytes.length && v.writable then
      some (k.setSock s { v with writable := room, written := v.written ++ bytes.take len })
    else none

/-- `write` would block. -/
def writeAgain (o : Option Fd) : Bool :=
  match k.sockAt o with
  | none => false
  | some s => !(k.socks s).writable

/-- Signal readiness to the registrations of a descriptor whose mask asks for it. -/
def signal (f : Fd) (rd wr : Bool) : Kernel n :=
  { k with
    reg := fun t => Function.update (k.reg t) f <| (k.reg t f).map fun r =>
      { r with
        pendRead := r.pendRead || (rd && r.mask.read)
        pendWrite := r.pendWrite || (wr && r.mask.write) } }

/-! ### What the calls leave alone -/

@[simp] theorem signal_socks (f : Fd) (rd wr : Bool) : (k.signal f rd wr).socks = k.socks := rfl

@[simp] theorem close_none : k.close none = k := rfl

/-- `close` frees its number and no other. -/
theorem close_fds (f f' : Fd) : (k.close (some f)).fds f' = if f' = f then none else k.fds f' := by
  simp only [close]
  by_cases hf : f' = f
  · subst hf
    split
    · simp
    · next h => simpa using h
  · split <;> simp [hf]

/-- `close` of an open number removes its entries. -/
theorem close_reg {f : Fd} (h : (k.fds f).isSome = true) (t : Fin n) (f' : Fd) :
    (k.close (some f)).reg t f' = if f' = f then none else k.reg t f' := by
  simp only [close, if_pos h]
  by_cases hf : f' = f <;> simp [hf]

@[simp] theorem close_socks (o : Option Fd) : (k.close o).socks = k.socks := by
  cases o with
  | none => rfl
  | some f => simp only [close]; split <;> rfl

@[simp] theorem close_nextSock (o : Option Fd) : (k.close o).nextSock = k.nextSock := by
  cases o with
  | none => rfl
  | some f => simp only [close]; split <;> rfl

/-- The calls that only concern the interest lists. -/
structure SameFiles (k' : Kernel n) : Prop where
  fds : k'.fds = k.fds
  nextSock : k'.nextSock = k.nextSock

theorem sameFiles_eventLoopMod (t : Fin n) (o : Option Fd) (mask : EventMask) (c : ConnId) :
    k.SameFiles (k.eventLoopMod t o mask c) := by
  cases o with
  | none => exact ⟨rfl, rfl⟩
  | some f => simp only [eventLoopMod]; split <;> exact ⟨rfl, rfl⟩

theorem sameFiles_eventLoopDel (t : Fin n) (o : Option Fd) : k.SameFiles (k.eventLoopDel t o) := by
  cases o <;> exact ⟨rfl, rfl⟩

/-! ### Where the entries of the interest lists come from -/

variable {k} {t t' : Fin n} {o : Option Fd} {f : Fd} {r : Registration}

/-- `close` only removes entries. -/
theorem reg_of_close (h : (k.close o).reg t f = some r) : k.reg t f = some r := by
  cases o with
  | none => exact h
  | some f₀ =>
    simp only [close] at h
    split at h
    · by_cases hf : f = f₀
      · subst hf; simp at h
      · simpa [hf] using h
    · exact h

/-- `event_loop_del` only removes entries. -/
theorem reg_of_eventLoopDel (h : (k.eventLoopDel t' o).reg t f = some r) : k.reg t f = some r := by
  cases o with
  | none => exact h
  | some f₀ =>
    simp only [eventLoopDel, setReg_reg] at h
    by_cases ht : t = t'
    · subst ht
      by_cases hf : f = f₀
      · subst hf; simp at h
      · simpa [hf] using h
    · simpa [ht] using h

/-- Replacing an entry of an interest list. -/
theorem reg_of_setReg {f₀ : Fd} {r₀ : Registration}
    (h : (k.setReg t' f₀ (some r₀)).reg t f = some r) :
    k.reg t f = some r ∨ (t = t' ∧ f = f₀ ∧ r = r₀) := by
  simp only [setReg_reg] at h
  by_cases ht : t = t'
  · subst ht
    by_cases hf : f = f₀
    · subst hf
      simp only [Function.update_self, Option.some.injEq] at h
      exact .inr ⟨rfl, rfl, h.symm⟩
    · left; simpa [hf] using h
  · left; simpa [ht] using h

/-- `event_loop_mod` writes an entry that was there. -/
theorem reg_of_eventLoopMod {mask : EventMask} {c : ConnId}
    (h : (k.eventLoopMod t' o mask c).reg t f = some r) :
    k.reg t f = some r ∨ (t = t' ∧ o = some f ∧ (k.reg t f).isSome ∧ r = k.arm f mask c) := by
  cases o with
  | none => exact .inl h
  | some f₀ =>
    simp only [eventLoopMod] at h
    split at h
    · next hr =>
      rcases reg_of_setReg h with h | ⟨rfl, rfl, rfl⟩
      · exact .inl h
      · exact .inr ⟨rfl, rfl, hr, rfl⟩
    · exact .inl h

/-- `event_loop_add` writes an entry where there was none, for a descriptor that is open. -/
theorem eventLoopAdd_eq {mask : EventMask} {c : ConnId} {k' : Kernel n}
    (h : k.eventLoopAdd t o mask c = some k') :
    ∃ f, o = some f ∧ (k.fds f).isSome ∧ k.reg t f = none ∧
      k' = k.setReg t f (some (k.arm f mask c)) := by
  cases o with
  | none => cases h
  | some f =>
    simp only [eventLoopAdd] at h
    split at h
    · next hc =>
      cases h
      simp only [Bool.and_eq_true, Option.isNone_iff_eq_none] at hc
      exact ⟨f, rfl, hc.1, hc.2, rfl⟩
    · cases h

/-- `read` and `write` do not concern the interest lists. -/
theorem readBytes_eq {len : ℕ} {data : List UInt8} {k' : Kernel n}
    (h : k.readBytes o len = some (data, k')) :
    ∃ s, k.sockAt o = some s ∧ 0 < len ∧ len ≤ bufferSize ∧ len ≤ (k.socks s).unread.length ∧
      data = (k.socks s).unread.take len ∧
      k' = k.setSock s { k.socks s with unread := (k.socks s).unread.drop len } := by
  unfold readBytes at h
  split at h
  · cases h
  · next s hs =>
    dsimp only at h
    split at h
    · next hc =>
      cases h
      simp only [Bool.and_eq_true, decide_eq_true_eq] at hc
      exact ⟨s, hs, hc.1.1, hc.1.2, hc.2, rfl, rfl⟩
    · cases h

theorem writeBytes_eq {bytes : List UInt8} {len : ℕ} {room : Bool} {k' : Kernel n}
    (h : k.writeBytes o bytes len room = some k') :
    ∃ s, k.sockAt o = some s ∧ 0 < len ∧ len ≤ bytes.length ∧ (k.socks s).writable = true ∧
      k' = k.setSock s { k.socks s with
        writable := room, written := (k.socks s).written ++ bytes.take len } := by
  unfold writeBytes at h
  split at h
  · cases h
  · next s hs =>
    dsimp only at h
    split at h
    · next hc =>
      cases h
      simp only [Bool.and_eq_true, decide_eq_true_eq] at hc
      exact ⟨s, hs, hc.1.1, hc.1.2, hc.2, rfl⟩
    · cases h

end Kernel

end DeepInIo.AdvancedServer
