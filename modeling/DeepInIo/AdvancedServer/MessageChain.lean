import DeepInIo.AdvancedServer.IoThread
import DeepInIo.AdvancedServer.Worker
import DeepInIo.Foundation.LinkedChain
import DeepInIo.Foundation.Transition
import Mathlib.Data.List.Nodup

/-!
# The nodes of the message list

The message list of an IO thread with its nodes in a heap and its mutex, for any number of threads
that call `io_thread_send_message` and the loop of `io_thread_run` that takes the messages.  The
statements of a critical section are steps of their own, the address of a freed node is used again,
and memory that is not allocated may change at any time.

Whenever the mutex is free, `head` and `tail` are the ends of a chain of live nodes, and what was
linked is what was taken followed by the chain; the reference of a message is released once, after
the message was handled (`messageChain_in_order`).  The server keeps this list as a list of messages
(`server_linkMessage`, `server_drainMessage`).
-/

namespace DeepInIo.AdvancedServer

variable {n : ℕ} {ν θ : Type*}

/-! ### The list -/

/-- A message and the call that has sent it: the thread, and the number of messages that it had
linked before. -/
structure SentMessage (θ : Type*) where
  id : θ × ℕ
  msg : IoMessage
  deriving DecidableEq

/-- `io_message_t`; the call is specification. -/
structure MsgNode (ν θ : Type*) where
  sent : SentMessage θ
  next : Option ν
  deriving DecidableEq

/-- Who holds `msg_queue_mutex`. -/
inductive MsgHolder (θ : Type*)
  | io
  | sender (th : θ)
  deriving DecidableEq

/-- The program points of `io_thread_send_message`. -/
inductive SendPc (ν : Type*)
  /-- outside -/
  | idle
  /-- `malloc` -/
  | alloc (msg : IoMessage)
  /-- `pthread_mutex_lock` -/
  | lock (a : ν) (msg : IoMessage)
  /-- `conn_acquire` -/
  | acquire (a : ν) (msg : IoMessage)
  /-- the link from the tail, or from `head` -/
  | link (a : ν) (msg : IoMessage)
  /-- `io_thread->msg_queue_tail = msg` -/
  | setTail (a : ν)
  /-- `pthread_mutex_unlock` -/
  | unlock
  /-- `write` to the message pipe -/
  | notify
  deriving DecidableEq

/-- The node that the thread has allocated and not linked. -/
def SendPc.prepared : SendPc ν → Option (ν × IoMessage)
  | .lock a msg | .acquire a msg | .link a msg => some (a, msg)
  | _ => none

/-- The thread is in its critical section. -/
def SendPc.critical : SendPc ν → Bool
  | .acquire .. | .link .. | .setTail _ | .unlock => true
  | _ => false

/-- The program points of the message branch of `io_thread_run`. -/
inductive DrainPc (ν : Type*)
  /-- outside -/
  | idle
  /-- `pthread_mutex_lock` -/
  | lock
  /-- `while (io_thread->msg_queue_head)` -/
  | test
  /-- `io_thread->msg_queue_head = msg->next` -/
  | take (a : ν)
  /-- `if (!io_thread->msg_queue_head)` -/
  | fixTail (a : ν)
  /-- `pthread_mutex_unlock` in the loop -/
  | unlock (a : ν)
  /-- the type of the message, and `conn_is_valid` -/
  | check (a : ν)
  /-- `event_loop_mod` -/
  | mod (a : ν)
  /-- `conn_release(msg->conn)` -/
  | release (a : ν)
  /-- `free(msg)` -/
  | free (a : ν)
  /-- `pthread_mutex_unlock` behind the loop -/
  | finish
  deriving DecidableEq

/-- The node that the thread has taken and not freed. -/
def DrainPc.node : DrainPc ν → Option ν
  | .fixTail a | .unlock a | .check a | .mod a | .release a | .free a => some a
  | _ => none

/-- The thread is in its critical section. -/
def DrainPc.critical : DrainPc ν → Bool
  | .test | .take _ | .fixTail _ | .unlock _ | .finish => true
  | _ => false

/-- The node whose message has been taken and not handled. -/
def DrainPc.handling : DrainPc ν → Option ν
  | .fixTail a | .unlock a | .check a | .mod a => some a
  | _ => none

/-- The node whose message has been handled, and whose reference has not been released. -/
def DrainPc.releasing : DrainPc ν → Option ν
  | .release a => some a
  | _ => none

/-- The message list of an IO thread with the threads that use it. -/
structure MessageChain (n : ℕ) (ν θ : Type*) where
  heap : ν → MsgNode ν θ
  /-- The node is allocated. -/
  live : ν → Bool
  head : Option ν
  tail : Option ν
  mutex : Option (MsgHolder θ)
  conns : ConnId → Conn n
  sender : θ → SendPc ν
  io : DrainPc ν
  /-- Specification: how many messages a thread has linked. -/
  count : θ → ℕ
  /-- Specification: the messages whose reference was taken. -/
  acquired : List (SentMessage θ)
  /-- Specification: the messages that were linked, in this order. -/
  linked : List (SentMessage θ)
  /-- Specification: the messages that were taken from the list. -/
  taken : List (SentMessage θ)
  /-- Specification: the messages that were handled. -/
  handled : List (SentMessage θ)
  /-- Specification: the messages whose reference was released. -/
  released : List (SentMessage θ)
  /-- Specification: the references to a connection that other places hold. -/
  others : ConnId → ℤ

/-- What the threads do, and the rest of the program. -/
inductive ChainAction (ν θ : Type*)
  /-- a thread calls `io_thread_send_message` -/
  | call (th : θ) (msg : IoMessage)
  /-- `malloc` returns an address, or fails -/
  | alloc (th : θ) (a : Option ν)
  /-- a thread does its next statement -/
  | send (th : θ)
  /-- the IO thread has read from the message pipe -/
  | event
  /-- the IO thread does its next statement -/
  | drain
  /-- somebody takes a reference -/
  | acquire (c : ConnId)
  /-- somebody releases a reference -/
  | release (c : ConnId)
  /-- somebody closes a connection -/
  | markClosing (c : ConnId)
  /-- memory that is not allocated changes -/
  | scribble (a : ν) (nd : MsgNode ν θ)

namespace MessageChain

/-- The list after `io_thread_create`. -/
def start (heap : ν → MsgNode ν θ) (conns : ConnId → Conn n) : MessageChain n ν θ where
  heap := heap
  live := fun _ => false
  head := none
  tail := none
  mutex := none
  conns := conns
  sender := fun _ => .idle
  io := .idle
  count := fun _ => 0
  acquired := []
  linked := []
  taken := []
  handled := []
  released := []
  others := fun c => (conns c).refCount

variable [DecidableEq ν] [DecidableEq θ] (s : MessageChain n ν θ)

/-- A thread proceeds to another program point. -/
def setSender (th : θ) (pc : SendPc ν) : MessageChain n ν θ :=
  { s with sender := Function.update s.sender th pc }

/-- The message is linked behind `tail`, or as the first one. -/
def linkNode (a : ν) : MessageChain n ν θ :=
  { s with
    heap := match s.tail with
      | some t => Function.update s.heap t { s.heap t with next := some a }
      | none => s.heap
    head := match s.tail with
      | some _ => s.head
      | none => some a }

/-- A statement of `io_thread_send_message`. -/
def sendStep (th : θ) : Option (MessageChain n ν θ) :=
  match s.sender th with
  | .idle | .alloc _ => none
  | .lock a msg =>
    if s.mutex = none then
      some ({ s with mutex := some (.sender th) }.setSender th (.acquire a msg)) else none
  | .acquire a msg =>
    some ({ s with
      conns := Function.update s.conns msg.conn (s.conns msg.conn).acquire
      acquired := s.acquired ++ [SentMessage.mk (th, s.count th) msg] }.setSender th (.link a msg))
  | .link a msg =>
    some ({ s.linkNode a with
      linked := s.linked ++ [SentMessage.mk (th, s.count th) msg]
      count := Function.update s.count th (s.count th + 1) }.setSender th (.setTail a))
  | .setTail a => some ({ s with tail := some a }.setSender th .unlock)
  | .unlock => some ({ s with mutex := none }.setSender th .notify)
  | .notify => some (s.setSender th .idle)

/-- A statement of the message branch of `io_thread_run`. -/
def drainStep : Option (MessageChain n ν θ) :=
  match s.io with
  | .idle => none
  | .lock => if s.mutex = none then some { s with mutex := some .io, io := .test } else none
  | .test =>
    match s.head with
    | some a => some { s with io := .take a }
    | none => some { s with io := .finish }
  | .take a =>
    some { s with head := (s.heap a).next, taken := s.taken ++ [(s.heap a).sent], io := .fixTail a }
  | .fixTail a => some { s with tail := if s.head.isNone then none else s.tail, io := .unlock a }
  | .unlock a => some { s with mutex := none, io := .check a }
  | .check a =>
    if (s.heap a).sent.msg.type = .responseReady ∧
      (s.conns (s.heap a).sent.msg.conn).isValid = true then
      some { s with io := .mod a }
    else some { s with handled := s.handled ++ [(s.heap a).sent], io := .release a }
  | .mod a => some { s with handled := s.handled ++ [(s.heap a).sent], io := .release a }
  | .release a =>
    let c := (s.heap a).sent.msg.conn
    some { s with
      conns := Function.update s.conns c (s.conns c).release
      released := s.released ++ [(s.heap a).sent]
      io := .free a }
  | .free a => some { s with live := Function.update s.live a false, io := .lock }
  | .finish => some { s with mutex := none, io := .idle }

/-- One step. -/
def step : ChainAction ν θ → Option (MessageChain n ν θ)
  | .call th msg =>
    match s.sender th with
    | .idle => some (s.setSender th (.alloc msg))
    | _ => none
  | .alloc th none =>
    match s.sender th with
    | .alloc _ => some (s.setSender th .idle)
    | _ => none
  | .alloc th (some a) =>
    match s.sender th, s.live a with
    | .alloc msg, false =>
      some ({ s with
        heap := Function.update s.heap a ⟨⟨(th, s.count th), msg⟩, none⟩
        live := Function.update s.live a true }.setSender th (.lock a msg))
    | _, _ => none
  | .send th => s.sendStep th
  | .event =>
    match s.io with
    | .idle => some { s with io := .lock }
    | _ => none
  | .drain => s.drainStep
  | .acquire c =>
    some { s with
      conns := Function.update s.conns c (s.conns c).acquire
      others := Function.update s.others c (s.others c + 1) }
  | .release c =>
    some { s with
      conns := Function.update s.conns c (s.conns c).release
      others := Function.update s.others c (s.others c - 1) }
  | .markClosing c => some { s with conns := Function.update s.conns c (s.conns c).markClosing }
  | .scribble a nd => if s.live a then none else some { s with heap := Function.update s.heap a nd }

/-- The messages of the nodes. -/
def messages (l : List ν) : List (SentMessage θ) :=
  l.map fun a => (s.heap a).sent

end MessageChain

/-- The message list of an IO thread. -/
def messageChain (n : ℕ) (ν θ : Type*) [DecidableEq ν] [DecidableEq θ] :
    TransitionSystem (MessageChain n ν θ) (ChainAction ν θ) where
  init s := ∃ heap conns, s = .start heap conns
  step s a := s.step a

namespace MessageChain

variable {s s' : MessageChain n ν θ}

/-! ### The invariant -/

/-- What a thread has done that holds the mutex. -/
def Holding (s : MessageChain n ν θ) (l : List ν) (th : θ) : SendPc ν → Prop
  | .link _ msg => s.tail = l.getLast? ∧ s.acquired = s.linked ++ [⟨(th, s.count th), msg⟩]
  | .setTail a => l.getLast? = some a ∧ s.acquired = s.linked
  | _ => s.tail = l.getLast? ∧ s.acquired = s.linked

/-- The end of the list, and the references that were taken. -/
def Guarded (s : MessageChain n ν θ) (l : List ν) : Prop :=
  match s.mutex with
  | none => s.tail = l.getLast? ∧ s.acquired = s.linked
  | some .io => ((∀ a, s.io ≠ .fixTail a) ∨ l ≠ [] → s.tail = l.getLast?) ∧ s.acquired = s.linked
  | some (.sender th) => s.Holding l th (s.sender th)

/-- What holds of a thread at a program point of `io_thread_send_message`. -/
structure SenderOk (s : MessageChain n ν θ) (l : List ν) (th : θ) (pc : SendPc ν) : Prop where
  critical : pc.critical = true ↔ s.mutex = some (.sender th)
  prepared : ∀ a msg, pc.prepared = some (a, msg) →
    s.live a = true ∧ a ∉ l ∧ s.io.node ≠ some a ∧ s.heap a = ⟨⟨(th, s.count th), msg⟩, none⟩

/-- How many messages of a log are about a connection. -/
def about (c : ConnId) (es : List (SentMessage θ)) : ℤ :=
  es.countP fun e => e.msg.conn = c

theorem about_snoc (c : ConnId) (es : List (SentMessage θ)) (e : SentMessage θ) :
    about c (es ++ [e]) = about c es + if e.msg.conn = c then 1 else 0 := by
  unfold about
  rw [List.countP_append, List.countP_singleton]
  by_cases hc : e.msg.conn = c <;> simp [hc]

/-- The state with the chain `l`. -/
structure Inv (s : MessageChain n ν θ) (l : List ν) : Prop where
  chain : LinkedChain (fun a => (s.heap a).next) s.head l
  live : ∀ a ∈ l, s.live a = true
  guarded : s.Guarded l
  sender : ∀ th, s.SenderOk l th (s.sender th)
  critical : s.io.critical = true ↔ s.mutex = some .io
  take : ∀ a, s.io = .take a → s.head = some a
  node : ∀ a, s.io.node = some a → s.live a = true ∧ a ∉ l
  linked : s.linked = s.taken ++ s.messages l
  linked_lt : ∀ e ∈ s.linked, e.id.2 < s.count e.id.1
  nodup : (s.linked.map SentMessage.id).Nodup
  taken : s.taken = s.handled ++ s.messages s.io.handling.toList
  handled : s.handled = s.released ++ s.messages s.io.releasing.toList
  refs : ∀ c, (s.conns c).refCount + about c s.released = s.others c + about c s.acquired

variable {l : List ν} {th : θ} {pc : SendPc ν} {a : ν} {msg : IoMessage}

/-- A message that is not handled is that of the node in hand. -/
theorem node_of_handling {pc : DrainPc ν} (h : pc.handling = some a) : pc.node = some a := by
  cases pc with
  | fixTail | unlock | check | mod => exact h
  | _ => cases h

theorem node_of_releasing {pc : DrainPc ν} (h : pc.releasing = some a) : pc.node = some a := by
  cases pc with
  | release => exact h
  | _ => cases h

/-- The messages depend on their nodes. -/
theorem messages_congr (h : ∀ b ∈ l, (s'.heap b).sent = (s.heap b).sent) :
    s'.messages l = s.messages l :=
  List.map_congr_left h

/-- A step that the holder of the mutex does not take. -/
theorem Guarded.congr (h : s.Guarded l) (hmutex : s'.mutex = s.mutex) (htail : s'.tail = s.tail)
    (hacquired : s'.acquired = s.acquired) (hlinked : s'.linked = s.linked)
    (hio : s.mutex = some .io → s'.io = s.io)
    (hsender : ∀ th, s.mutex = some (.sender th) → s'.sender th = s.sender th ∧
      s'.count th = s.count th) :
    s'.Guarded l := by
  unfold Guarded at h ⊢
  rw [hmutex, htail, hacquired, hlinked]
  cases hholder : s.mutex with
  | none =>
    rw [hholder] at h
    exact h
  | some x =>
    rw [hholder] at h
    cases x with
    | io =>
      simp only at h ⊢
      rw [hio hholder]
      exact h
    | sender th =>
      simp only at h ⊢
      obtain ⟨hpc, hcount⟩ := hsender th hholder
      unfold Holding at h ⊢
      rw [hpc, htail, hacquired, hlinked, hcount]
      exact h

/-- A step of a thread that does not hold the mutex. -/
theorem Guarded.setSender [DecidableEq θ] (h : s.Guarded l) (hmutex : s.mutex ≠ some (.sender th))
    (pc : SendPc ν) : (s.setSender th pc).Guarded l := by
  refine h.congr rfl rfl rfl rfl (fun _ => rfl) fun th' hth' => ⟨?_, rfl⟩
  refine Function.update_of_ne ?_ _ _
  rintro rfl
  exact hmutex hth'

/-- A step of the IO thread that gets no other node into its hands. -/
theorem SenderOk.ioStep (h : s.SenderOk l th pc) (hlive : s'.live = s.live)
    (hheap : s'.heap = s.heap) (hcount : s'.count = s.count)
    (hmutex : s'.mutex = some (.sender th) ↔ s.mutex = some (.sender th))
    (hnode : ∀ a, s'.io.node = some a → s.io.node = some a) : s'.SenderOk l th pc where
  critical := h.critical.trans hmutex.symm
  prepared := by
    intro b msg hb
    obtain ⟨hblive, hmem, hio, hbheap⟩ := h.prepared b msg hb
    rw [hlive, hheap, hcount]
    exact ⟨hblive, hmem, fun hb' => hio (hnode b hb'), hbheap⟩

namespace Inv

/-- The thread in its critical section holds the mutex. -/
theorem holding (h : s.Inv l) (th : θ) (hpc : (s.sender th).critical = true) :
    s.mutex = some (.sender th) ∧ s.Holding l th (s.sender th) := by
  have hmutex := (h.sender th).critical.mp hpc
  have hguarded := h.guarded
  unfold Guarded at hguarded
  rw [hmutex] at hguarded
  exact ⟨hmutex, hguarded⟩

/-- The IO thread in its critical section holds the mutex. -/
theorem ioHolding (h : s.Inv l) (hpc : s.io.critical = true) :
    s.mutex = some .io ∧ ((∀ a, s.io ≠ .fixTail a) ∨ l ≠ [] → s.tail = l.getLast?) ∧
      s.acquired = s.linked := by
  have hmutex := h.critical.mp hpc
  have hguarded := h.guarded
  unfold Guarded at hguarded
  rw [hmutex] at hguarded
  exact ⟨hmutex, hguarded⟩

/-- A thread out of its critical section does not hold the mutex. -/
theorem mutex_ne_sender (h : s.Inv l) (hpc : (s.sender th).critical = false) :
    s.mutex ≠ some (.sender th) := by
  intro hmutex
  rw [(h.sender th).critical.mpr hmutex] at hpc
  cases hpc

/-- The IO thread out of its critical section does not hold the mutex. -/
theorem mutex_ne_io (h : s.Inv l) (hpc : s.io.critical = false) : s.mutex ≠ some .io := by
  intro hmutex
  rw [h.critical.mpr hmutex] at hpc
  cases hpc

/-- When the mutex is free, nothing is half done. -/
theorem idle (h : s.Inv l) (hfree : s.mutex = none) :
    s.tail = l.getLast? ∧ s.acquired = s.linked := by
  have hguarded := h.guarded
  unfold Guarded at hguarded
  rw [hfree] at hguarded
  exact hguarded

/-- At the start the list is empty. -/
theorem start (heap : ν → MsgNode ν θ) (conns : ConnId → Conn n) :
    (MessageChain.start heap conns).Inv [] where
  chain := .nil
  live := by rintro _ ⟨⟩
  guarded := ⟨rfl, rfl⟩
  sender th := ⟨by constructor <;> rintro ⟨⟩, by rintro _ _ ⟨⟩⟩
  critical := by constructor <;> rintro ⟨⟩
  take := by rintro _ ⟨⟩
  node := by rintro _ ⟨⟩
  linked := rfl
  linked_lt := by rintro _ ⟨⟩
  nodup := List.nodup_nil
  taken := rfl
  handled := rfl
  refs c := rfl

end Inv

variable [DecidableEq ν] [DecidableEq θ]

/-! ### What a step can do -/

/-- The steps. -/
inductive Step (s : MessageChain n ν θ) : MessageChain n ν θ → Prop
  /-- a thread proceeds outside of its critical section -/
  | outside (th : θ) (pc : SendPc ν) (hold : (s.sender th).critical = false)
      (hnew : pc.critical = false) (hprepared : pc.prepared = none) : Step s (s.setSender th pc)
  | alloc (th : θ) (msg : IoMessage) (a : ν) (hpc : s.sender th = .alloc msg)
      (ha : s.live a = false) :
      Step s ({ s with
        heap := Function.update s.heap a ⟨⟨(th, s.count th), msg⟩, none⟩
        live := Function.update s.live a true }.setSender th (.lock a msg))
  | lock (th : θ) (a : ν) (msg : IoMessage) (hpc : s.sender th = .lock a msg)
      (hfree : s.mutex = none) :
      Step s ({ s with mutex := some (.sender th) }.setSender th (.acquire a msg))
  | acquire (th : θ) (a : ν) (msg : IoMessage) (hpc : s.sender th = .acquire a msg) :
      Step s ({ s with
        conns := Function.update s.conns msg.conn (s.conns msg.conn).acquire
        acquired := s.acquired ++ [SentMessage.mk (th, s.count th) msg] }.setSender th
          (.link a msg))
  | link (th : θ) (a : ν) (msg : IoMessage) (hpc : s.sender th = .link a msg) :
      Step s ({ s.linkNode a with
        linked := s.linked ++ [SentMessage.mk (th, s.count th) msg]
        count := Function.update s.count th (s.count th + 1) }.setSender th (.setTail a))
  | setTail (th : θ) (a : ν) (hpc : s.sender th = .setTail a) :
      Step s ({ s with tail := some a }.setSender th .unlock)
  | unlock (th : θ) (hpc : s.sender th = .unlock) :
      Step s ({ s with mutex := none }.setSender th .notify)
  | event (hpc : s.io = .idle) : Step s { s with io := .lock }
  | ioLock (hpc : s.io = .lock) (hfree : s.mutex = none) :
      Step s { s with mutex := some .io, io := .test }
  | found (a : ν) (hpc : s.io = .test) (hhead : s.head = some a) : Step s { s with io := .take a }
  | empty (hpc : s.io = .test) : Step s { s with io := .finish }
  | take (a : ν) (hpc : s.io = .take a) :
      Step s { s with
        head := (s.heap a).next, taken := s.taken ++ [(s.heap a).sent], io := .fixTail a }
  | fixTail (a : ν) (hpc : s.io = .fixTail a) :
      Step s { s with tail := if s.head.isNone then none else s.tail, io := .unlock a }
  | ioUnlock (a : ν) (hpc : s.io = .unlock a) : Step s { s with mutex := none, io := .check a }
  | valid (a : ν) (hpc : s.io = .check a) : Step s { s with io := .mod a }
  | handle (a : ν) (hpc : s.io = .check a ∨ s.io = .mod a) :
      Step s { s with handled := s.handled ++ [(s.heap a).sent], io := .release a }
  | release (a : ν) (hpc : s.io = .release a) :
      Step s { s with
        conns := Function.update s.conns (s.heap a).sent.msg.conn
          (s.conns (s.heap a).sent.msg.conn).release
        released := s.released ++ [(s.heap a).sent]
        io := .free a }
  | free (a : ν) (hpc : s.io = .free a) :
      Step s { s with live := Function.update s.live a false, io := .lock }
  | finish (hpc : s.io = .finish) : Step s { s with mutex := none, io := .idle }
  /-- another place changes its number of references by `d` -/
  | others (c : ConnId) (k : Conn n) (d : ℤ) (hk : k.refCount = (s.conns c).refCount + d) :
      Step s { s with
        conns := Function.update s.conns c k
        others := Function.update s.others c (s.others c + d) }
  | scribble (a : ν) (nd : MsgNode ν θ) (ha : s.live a = false) :
      Step s { s with heap := Function.update s.heap a nd }

/-- Every step is one of `Step`. -/
theorem step_cases {x : ChainAction ν θ} (hs : s.step x = some s') : Step s s' := by
  cases x with
  | call th msg =>
    simp only [step] at hs
    split at hs <;> cases hs
    next hpc => exact .outside th _ (by rw [hpc]; rfl) rfl rfl
  | alloc th a =>
    cases a with
    | none =>
      simp only [step] at hs
      split at hs <;> cases hs
      next hpc => exact .outside th _ (by rw [hpc]; rfl) rfl rfl
    | some a =>
      simp only [step] at hs
      split at hs <;> cases hs
      next msg hpc ha => exact .alloc th msg a hpc ha
  | send th =>
    simp only [step, sendStep] at hs
    split at hs
    · cases hs
    · cases hs
    · next a msg hpc =>
      split at hs <;> cases hs
      next hfree => exact .lock th a msg hpc hfree
    · next a msg hpc =>
      cases hs
      exact .acquire th a msg hpc
    · next a msg hpc =>
      cases hs
      exact .link th a msg hpc
    · next a hpc =>
      cases hs
      exact .setTail th a hpc
    · next hpc =>
      cases hs
      exact .unlock th hpc
    · next hpc =>
      cases hs
      exact .outside th _ (by rw [hpc]; rfl) rfl rfl
  | event =>
    simp only [step] at hs
    split at hs <;> cases hs
    next hpc => exact .event hpc
  | drain =>
    simp only [step, drainStep] at hs
    split at hs
    · cases hs
    · next hpc =>
      split at hs <;> cases hs
      next hfree => exact .ioLock hpc hfree
    · next hpc =>
      split at hs <;> cases hs
      · next a hhead => exact .found a hpc hhead
      · exact .empty hpc
    · next a hpc =>
      cases hs
      exact .take a hpc
    · next a hpc =>
      cases hs
      exact .fixTail a hpc
    · next a hpc =>
      cases hs
      exact .ioUnlock a hpc
    · next a hpc =>
      split at hs <;> cases hs
      · exact .valid a hpc
      · exact .handle a (.inl hpc)
    · next a hpc =>
      cases hs
      exact .handle a (.inr hpc)
    · next a hpc =>
      cases hs
      exact .release a hpc
    · next a hpc =>
      cases hs
      exact .free a hpc
    · next hpc =>
      cases hs
      exact .finish hpc
  | acquire c =>
    cases hs
    exact .others c _ 1 rfl
  | release c =>
    cases hs
    exact .others c _ (-1) rfl
  | markClosing c =>
    cases hs
    have hstep := Step.others (s := s) c (s.conns c).markClosing 0 (Int.add_zero _).symm
    rwa [Int.add_zero, Function.update_eq_self] at hstep
  | scribble a nd =>
    simp only [step] at hs
    split at hs <;> cases hs
    next ha => exact .scribble a nd (Bool.eq_false_iff.mpr ha)

/-! ### Steps of the senders -/

omit [DecidableEq θ] in
/-- The chain goes on to the node. -/
theorem chain_linkNode (hchain : LinkedChain (fun b => (s.heap b).next) s.head l)
    (htail : s.tail = l.getLast?) (ha : a ∉ l) (hnext : (s.heap a).next = none) :
    LinkedChain (fun b => ((s.linkNode a).heap b).next) (s.linkNode a).head (l ++ [a]) := by
  unfold linkNode
  cases hlast : s.tail with
  | none =>
    rw [hlast, eq_comm, List.getLast?_eq_none_iff] at htail
    subst htail
    refine .cons ?_
    rw [hnext]
    exact .nil
  | some t =>
    rw [hlast] at htail
    refine (hchain.append htail.symm ha hnext).congr fun b _ => ?_
    by_cases hb : b = t
    · subst hb
      simp only [Function.update_self]
    · simp only [Function.update_of_ne hb]

omit [DecidableEq θ] in
/-- Linking changes a link, and nothing of nodes outside of the list. -/
theorem heap_linkNode (htail : s.tail = l.getLast?) (b : ν) :
    ((s.linkNode a).heap b).sent = (s.heap b).sent ∧
      (b ∉ l → (s.linkNode a).heap b = s.heap b) := by
  unfold linkNode
  cases hlast : s.tail with
  | none => exact ⟨rfl, fun _ => rfl⟩
  | some t =>
    rw [hlast] at htail
    simp only
    by_cases hb : b = t
    · subst hb
      rw [Function.update_self]
      exact ⟨rfl, fun hmem => absurd (List.mem_of_getLast? htail.symm) hmem⟩
    · rw [Function.update_of_ne hb]
      exact ⟨rfl, fun _ => rfl⟩

omit [DecidableEq ν] in
/-- What holds of all threads, when one proceeds. -/
theorem sender_update (hother : ∀ th', th' ≠ th → s'.SenderOk l th' (s.sender th'))
    (hth : s'.SenderOk l th pc) :
    ∀ th', s'.SenderOk l th' (Function.update s.sender th pc th') :=
  (Function.forall_update_iff s.sender (s'.SenderOk l)).mpr ⟨hth, hother⟩

namespace Inv

omit [DecidableEq ν] in
/-- A thread proceeds outside of its critical section. -/
theorem outside (h : s.Inv l) (hold : (s.sender th).critical = false) (hnew : pc.critical = false)
    (hprepared : pc.prepared = none) : (s.setSender th pc).Inv l := by
  have hmutex := h.mutex_ne_sender hold
  exact { h with
    guarded := h.guarded.setSender hmutex pc
    sender := sender_update (fun th' _ => { h.sender th' with })
      { critical := by
          rw [hnew]
          exact iff_of_false (by rintro ⟨⟩) hmutex
        prepared := fun b msg hb => by
          rw [hprepared] at hb
          cases hb } }

omit [DecidableEq θ] in
/-- The contents of memory that is not allocated do not matter. -/
theorem scribble (h : s.Inv l) (ha : s.live a = false) (nd : MsgNode ν θ) :
    ({ s with heap := Function.update s.heap a nd } : MessageChain n ν θ).Inv l := by
  have hne : ∀ b, s.live b = true → Function.update s.heap a nd b = s.heap b := by
    intro b hb
    refine Function.update_of_ne ?_ _ _
    rintro rfl
    rw [ha] at hb
    cases hb
  have hnode : ∀ b, s.io.node = some b →
      (Function.update s.heap a nd b).sent = (s.heap b).sent := by
    intro b hb
    rw [hne b (h.node b hb).1]
  exact { h with
    chain := h.chain.congr fun b hb => by
      show (Function.update s.heap a nd b).next = _
      rw [hne b (h.live b hb)]
    sender := fun th => { h.sender th with
      prepared := fun b msg hb => by
        obtain ⟨hlive, hmem, hio, hheap⟩ := (h.sender th).prepared b msg hb
        exact ⟨hlive, hmem, hio, (hne b hlive).trans hheap⟩ }
    linked := by
      refine h.linked.trans (congrArg _ (messages_congr fun b hb => ?_).symm)
      exact congrArg _ (hne b (h.live b hb))
    taken := by
      refine h.taken.trans (congrArg _ (messages_congr fun b hb => ?_).symm)
      exact hnode b (node_of_handling (Option.mem_toList.mp hb))
    handled := by
      refine h.handled.trans (congrArg _ (messages_congr fun b hb => ?_).symm)
      exact hnode b (node_of_releasing (Option.mem_toList.mp hb)) }

/-- `malloc` and the fields of the message. -/
theorem alloc (h : s.Inv l) (hpc : s.sender th = .alloc msg) (ha : s.live a = false) :
    ({ s with
        heap := Function.update s.heap a ⟨⟨(th, s.count th), msg⟩, none⟩
        live := Function.update s.live a true }.setSender th (.lock a msg) : MessageChain n ν θ).Inv
          l := by
  have hlive : ∀ b, s.live b = true → Function.update s.live a true b = true := by
    intro b hb
    by_cases hba : b = a
    · rw [hba, Function.update_self]
    · rw [Function.update_of_ne hba, hb]
  have hne : ∀ b, s.live b = true → b ≠ a := by
    rintro b hb rfl
    rw [ha] at hb
    cases hb
  have hmutex := h.mutex_ne_sender (by rw [hpc]; rfl)
  have h' := h.scribble ha ⟨⟨(th, s.count th), msg⟩, none⟩
  exact { h' with
    live := fun b hb => hlive b (h.live b hb)
    guarded :=
      (h'.guarded.congr rfl rfl rfl rfl (fun _ => rfl) fun _ _ => ⟨rfl, rfl⟩).setSender hmutex _
    sender := sender_update
      (fun th' _ => { h'.sender th' with
        prepared := fun b msg' hb => by
          obtain ⟨hblive, hb⟩ := (h'.sender th').prepared b msg' hb
          exact ⟨hlive b hblive, hb⟩ })
      ⟨iff_of_false (by rintro ⟨⟩) hmutex, by
        rintro _ _ ⟨⟩
        refine ⟨Function.update_self .., ?_, ?_, Function.update_self ..⟩
        · exact fun hmem => hne a (h.live a hmem) rfl
        · exact fun hnode => hne a (h.node a hnode).1 rfl⟩
    node := fun b hb => ⟨hlive b (h.node b hb).1, (h.node b hb).2⟩ }

omit [DecidableEq ν] in
/-- A thread gets the mutex. -/
theorem lock (h : s.Inv l) (hpc : s.sender th = .lock a msg) (hfree : s.mutex = none) :
    ({ s with mutex := some (.sender th) }.setSender th (.acquire a msg) : MessageChain n ν θ).Inv
      l := by
  exact { h with
    guarded := by
      unfold Guarded Holding
      simp only [setSender, Function.update_self]
      exact h.idle hfree
    sender := sender_update
      (fun th' hne => { h.sender th' with
        critical := by
          rw [(h.sender th').critical, hfree]
          refine iff_of_false (by rintro ⟨⟩) ?_
          rintro ⟨⟩
          exact hne rfl })
      ⟨iff_of_true rfl rfl, fun b msg' hb => (h.sender th).prepared b msg' (by rw [hpc]; exact hb)⟩
    critical := by
      refine h.critical.trans ?_
      rw [hfree]
      exact iff_of_false (by rintro ⟨⟩) (by rintro ⟨⟩) }

omit [DecidableEq ν] [DecidableEq θ] in
/-- While a thread holds the mutex, another one does not. -/
theorem ne_holder (h : s.Inv l) (hmutex : s.mutex = some (.sender th)) :
    s.io.critical = false ∧ ∀ th', th' ≠ th → (s.sender th').critical = false := by
  constructor
  · rw [Bool.eq_false_iff]
    intro hio
    rw [h.critical.mp hio] at hmutex
    cases hmutex
  · intro th' hne
    rw [Bool.eq_false_iff]
    intro hth'
    rw [(h.sender th').critical.mp hth'] at hmutex
    cases hmutex
    exact hne rfl

omit [DecidableEq ν] in
/-- `conn_acquire` -/
theorem acquire (h : s.Inv l) (hpc : s.sender th = .acquire a msg) :
    ({ s with
        conns := Function.update s.conns msg.conn (s.conns msg.conn).acquire
        acquired := s.acquired ++ [SentMessage.mk (th, s.count th) msg] }.setSender th
          (.link a msg) :
      MessageChain n ν θ).Inv l := by
  obtain ⟨hmutex, hheld⟩ := h.holding th (by rw [hpc]; rfl)
  rw [hpc] at hheld
  exact { h with
    guarded := by
      unfold Guarded
      simp only [setSender, hmutex, Function.update_self]
      exact ⟨hheld.1, congrArg (· ++ _) hheld.2⟩
    sender := sender_update (fun th' _ => { h.sender th' with })
      ⟨iff_of_true rfl hmutex,
        fun b msg' hb => (h.sender th).prepared b msg' (by rw [hpc]; exact hb)⟩
    refs := fun c => by
      have hrefs := h.refs c
      have habout : about c (s.acquired ++ [SentMessage.mk (th, s.count th) msg]) =
          about c s.acquired + if msg.conn = c then 1 else 0 := about_snoc ..
      simp only [setSender]
      rw [habout]
      by_cases hc : msg.conn = c
      · subst hc
        rw [Function.update_self, Conn.acquire_refCount, if_pos rfl]
        omega
      · rw [Function.update_of_ne (Ne.symm hc), if_neg hc]
        omega }

/-- The message is linked. -/
theorem link (h : s.Inv l) (hpc : s.sender th = .link a msg) :
    ({ s.linkNode a with
        linked := s.linked ++ [SentMessage.mk (th, s.count th) msg]
        count := Function.update s.count th (s.count th + 1) }.setSender th (.setTail a) :
      MessageChain n ν θ).Inv (l ++ [a]) := by
  obtain ⟨hmutex, hheld⟩ := h.holding th (by rw [hpc]; rfl)
  rw [hpc] at hheld
  obtain ⟨hio, -⟩ := h.ne_holder hmutex
  obtain ⟨hlive, hmem, hnode, hheap⟩ := (h.sender th).prepared a msg (by rw [hpc]; rfl)
  have hsent : ∀ l', (s.linkNode a).messages l' = s.messages l' := fun l' =>
    messages_congr fun b _ => (heap_linkNode hheld.1 b).1
  have hcount : ∀ th', s.count th' ≤ Function.update s.count th (s.count th + 1) th' := by
    intro th'
    by_cases hne : th' = th
    · subst hne
      rw [Function.update_self]
      exact Nat.le_succ _
    · rw [Function.update_of_ne hne]
  exact { h with
    chain := chain_linkNode h.chain hheld.1 hmem (by rw [hheap])
    live := fun b hb => by
      rcases List.mem_append.mp hb with hb | hb
      · exact h.live b hb
      · rw [List.mem_singleton.mp hb]
        exact hlive
    guarded := by
      unfold Guarded
      simp only [setSender, linkNode, hmutex, Function.update_self]
      exact ⟨List.getLast?_concat, hheld.2⟩
    sender := by
      refine sender_update (fun th' hne => ⟨(h.sender th').critical, fun b msg' hb => ?_⟩)
        ⟨iff_of_true rfl hmutex, by rintro _ _ ⟨⟩⟩
      obtain ⟨hblive, hbmem, hbnode, hbheap⟩ := (h.sender th').prepared b msg' hb
      refine ⟨hblive, fun hb' => ?_, hbnode, ?_⟩
      · -- the nodes of two threads differ in the call
        rcases List.mem_append.mp hb' with hb' | hb'
        · exact hbmem hb'
        · rw [List.mem_singleton.mp hb', hheap] at hbheap
          cases hbheap
          exact hne rfl
      · refine ((heap_linkNode hheld.1 b).2 hbmem).trans ?_
        rw [hbheap]
        simp only [setSender, Function.update_of_ne hne]
    take := fun b hb => by
      have hb' : s.io = .take b := hb
      rw [hb'] at hio
      cases hio
    node := fun b hb => by
      obtain ⟨hblive, hbmem⟩ := h.node b hb
      refine ⟨hblive, fun hb' => ?_⟩
      rcases List.mem_append.mp hb' with hb' | hb'
      · exact hbmem hb'
      · exact hnode (List.mem_singleton.mp hb' ▸ hb)
    linked := by
      show s.linked ++ _ = s.taken ++ (s.linkNode a).messages (l ++ [a])
      rw [hsent, h.linked, messages, messages, List.map_append, List.append_assoc,
        List.map_singleton, hheap]
    linked_lt := fun e he => by
      rcases List.mem_append.mp he with he | he
      · exact (h.linked_lt e he).trans_le (hcount _)
      · rw [List.mem_singleton.mp he]
        simp only [setSender, Function.update_self]
        exact Nat.lt_succ_self _
    nodup := by
      simp only [setSender, List.map_append]
      refine List.nodup_append.mpr ⟨h.nodup, List.pairwise_singleton .., fun i hi j hj => ?_⟩
      obtain ⟨e, he, rfl⟩ := List.mem_map.mp hi
      rw [List.mem_singleton.mp hj]
      intro heq
      have hlt := h.linked_lt e he
      rw [heq] at hlt
      exact hlt.false
    taken := h.taken.trans (congrArg _ (hsent _).symm)
    handled := h.handled.trans (congrArg _ (hsent _).symm) }

omit [DecidableEq ν] in
/-- `tail` follows. -/
theorem setTail (h : s.Inv l) (hpc : s.sender th = .setTail a) :
    ({ s with tail := some a }.setSender th .unlock : MessageChain n ν θ).Inv l := by
  obtain ⟨hmutex, hheld⟩ := h.holding th (by rw [hpc]; rfl)
  rw [hpc] at hheld
  exact { h with
    guarded := by
      unfold Guarded
      simp only [setSender, hmutex, Function.update_self]
      exact ⟨hheld.1.symm, hheld.2⟩
    sender := sender_update (fun th' _ => { h.sender th' with })
      ⟨iff_of_true rfl hmutex, by rintro _ _ ⟨⟩⟩ }

omit [DecidableEq ν] in
/-- A thread gives the mutex back. -/
theorem unlock (h : s.Inv l) (hpc : s.sender th = .unlock) :
    ({ s with mutex := none }.setSender th .notify : MessageChain n ν θ).Inv l := by
  obtain ⟨hmutex, hheld⟩ := h.holding th (by rw [hpc]; rfl)
  rw [hpc] at hheld
  obtain ⟨hio, hother⟩ := h.ne_holder hmutex
  exact { h with
    guarded := hheld
    sender := sender_update
      (fun th' hne => { h.sender th' with
        critical := iff_of_false (by rw [hother th' hne]; rintro ⟨⟩) (by rintro ⟨⟩) })
      ⟨iff_of_false (by rintro ⟨⟩) (by rintro ⟨⟩), by rintro _ _ ⟨⟩⟩
    critical := iff_of_false (Bool.eq_false_iff.mp hio) (by rintro ⟨⟩) }

/-! ### Steps of the IO thread -/

omit [DecidableEq ν] [DecidableEq θ] in
/-- The IO thread proceeds, with the same message in its hands and neither in nor out of its
critical section. -/
theorem proceed (h : s.Inv l) {pc pc' : DrainPc ν} (hpc : s.io = pc)
    (hcritical : pc'.critical = pc.critical) (htake : ∀ a, pc' = .take a → s.head = some a)
    (hfix : ∀ a, pc ≠ .fixTail a) (hnode : pc'.node = pc.node)
    (hhandling : pc'.handling = pc.handling) (hreleasing : pc'.releasing = pc.releasing) :
    ({ s with io := pc' } : MessageChain n ν θ).Inv l := by
  subst hpc
  exact { h with
    guarded := by
      have hguarded := h.guarded
      unfold Guarded at hguarded ⊢
      cases hholder : s.mutex with
      | none =>
        rw [hholder] at hguarded
        exact hguarded
      | some x =>
        rw [hholder] at hguarded
        cases x with
        | io => exact ⟨fun _ => hguarded.1 (.inl hfix), hguarded.2⟩
        | sender th => exact hguarded
    sender := fun th => (h.sender th).ioStep rfl rfl rfl Iff.rfl fun a ha => hnode.symm.trans ha
    critical := hcritical ▸ h.critical
    take := htake
    node := fun a ha => h.node a (hnode ▸ ha)
    taken := by rw [h.taken, hhandling]; rfl
    handled := by rw [h.handled, hreleasing]; rfl }

omit [DecidableEq ν] [DecidableEq θ] in
/-- The IO thread gets the mutex. -/
theorem ioLock (h : s.Inv l) (hpc : s.io = .lock) (hfree : s.mutex = none) :
    ({ s with mutex := some .io, io := .test } : MessageChain n ν θ).Inv l := by
  obtain ⟨htail, hacquired⟩ := h.idle hfree
  have htaken := h.taken
  have hhandled := h.handled
  rw [hpc] at htaken hhandled
  exact { h with
    guarded := ⟨fun _ => htail, hacquired⟩
    sender := fun th => by
      refine (h.sender th).ioStep rfl rfl rfl (iff_of_false (by rintro ⟨⟩) ?_) (by rintro _ ⟨⟩)
      rw [hfree]
      rintro ⟨⟩
    critical := iff_of_true rfl rfl
    take := by rintro _ ⟨⟩
    node := by rintro _ ⟨⟩
    taken := htaken
    handled := hhandled }

omit [DecidableEq ν] [DecidableEq θ] in
/-- The IO thread gives the mutex back. -/
theorem ioUnlock (h : s.Inv l) {pc pc' : DrainPc ν} (hpc : s.io = pc) (hold : pc.critical = true)
    (hfix : ∀ a, pc ≠ .fixTail a) (hnew : pc'.critical = false) (hnode : pc'.node = pc.node)
    (hhandling : pc'.handling = pc.handling) (hreleasing : pc'.releasing = pc.releasing) :
    ({ s with mutex := none, io := pc' } : MessageChain n ν θ).Inv l := by
  subst hpc
  obtain ⟨hmutex, htail, hacquired⟩ := h.ioHolding hold
  exact { h with
    guarded := ⟨htail (.inl hfix), hacquired⟩
    sender := fun th => by
      refine (h.sender th).ioStep rfl rfl rfl (iff_of_false (by rintro ⟨⟩) ?_) fun a ha =>
        hnode.symm.trans ha
      rw [hmutex]
      rintro ⟨⟩
    critical := iff_of_false (Bool.eq_false_iff.mp hnew) (by rintro ⟨⟩)
    take := by
      rintro a rfl
      cases hnew
    node := fun a ha => h.node a (hnode ▸ ha)
    taken := by rw [h.taken, hhandling]; rfl
    handled := by rw [h.handled, hreleasing]; rfl }

omit [DecidableEq ν] [DecidableEq θ] in
/-- The first node is taken from the list. -/
theorem take_head (h : s.Inv l) (hpc : s.io = .take a) :
    ∃ l', l = a :: l' ∧
      ({ s with head := (s.heap a).next, taken := s.taken ++ [(s.heap a).sent], io := .fixTail a } :
        MessageChain n ν θ).Inv l' := by
  obtain ⟨hmutex, htail, hacquired⟩ := h.ioHolding (by rw [hpc]; rfl)
  have htail' : s.tail = l.getLast? := htail (.inl (by rw [hpc]; rintro _ ⟨⟩))
  have hchain := h.chain
  rw [h.take a hpc] at hchain
  have htaken := h.taken
  have hhandled := h.handled
  rw [hpc] at htaken hhandled
  obtain ⟨l', rfl⟩ : ∃ l', l = a :: l' := by
    cases hchain with
    | cons => exact ⟨_, rfl⟩
  have hrest : LinkedChain (fun b => (s.heap b).next) (s.heap a).next l' := by
    cases hchain with
    | cons hrest => exact hrest
  obtain ⟨hnotmem, -⟩ := List.nodup_cons.mp hchain.nodup
  refine ⟨l', rfl, { h with
    chain := hrest
    live := fun b hb => h.live b (.tail _ hb)
    guarded := ?_
    sender := fun th => { h.sender th with
      prepared := fun b msg hb => ?_ }
    critical := iff_of_true rfl hmutex
    take := by rintro _ ⟨⟩
    node := ?_
    linked := ?_
    taken := ?_
    handled := hhandled }⟩
  · unfold Guarded
    simp only [hmutex]
    refine ⟨fun hor => ?_, hacquired⟩
    rcases hor with hfix | hne
    · exact absurd rfl (hfix a)
    · rw [htail']
      cases l' with
      | nil => exact absurd rfl hne
      | cons b l' => rfl
  · obtain ⟨hlive, hmem, -, hheap⟩ := (h.sender th).prepared b msg hb
    refine ⟨hlive, fun hb => hmem (.tail _ hb), ?_, hheap⟩
    rintro ⟨⟩
    exact hmem List.mem_cons_self
  · rintro _ ⟨⟩
    exact ⟨h.live a List.mem_cons_self, hnotmem⟩
  · show s.linked = s.taken ++ [(s.heap a).sent] ++ s.messages l'
    rw [h.linked, List.append_assoc]
    rfl
  · show s.taken ++ [(s.heap a).sent] = s.handled ++ [(s.heap a).sent]
    rw [htaken]
    exact congrArg (· ++ _) (List.append_nil _)

omit [DecidableEq ν] [DecidableEq θ] in
/-- `tail` is cleared when the list is empty. -/
theorem fixTail (h : s.Inv l) (hpc : s.io = .fixTail a) :
    ({ s with tail := if s.head.isNone then none else s.tail, io := .unlock a } : MessageChain n ν
      θ).Inv l := by
  obtain ⟨hmutex, htail, hacquired⟩ := h.ioHolding (by rw [hpc]; rfl)
  have hsender := h.sender
  have hnode := h.node
  have htaken := h.taken
  have hhandled := h.handled
  rw [hpc] at hnode htaken hhandled
  exact { h with
    guarded := by
      unfold Guarded
      simp only [hmutex]
      refine ⟨fun _ => ?_, hacquired⟩
      rw [← h.chain.head?_eq]
      cases l with
      | nil => rfl
      | cons b l => exact htail (.inr (by rintro ⟨⟩))
    sender := fun th => (h.sender th).ioStep rfl rfl rfl Iff.rfl (by rw [hpc]; exact fun _ => id)
    critical := iff_of_true rfl hmutex
    take := by rintro _ ⟨⟩
    node := hnode
    taken := htaken
    handled := hhandled }

omit [DecidableEq ν] [DecidableEq θ] in
/-- A message was handled. -/
theorem handle (h : s.Inv l) (hpc : s.io = .check a ∨ s.io = .mod a) :
    ({ s with handled := s.handled ++ [(s.heap a).sent], io := .release a } : MessageChain n ν
      θ).Inv l := by
  have hcritical : s.io.critical = false := by rcases hpc with hpc | hpc <;> rw [hpc] <;> rfl
  have hnode : s.io.node = some a := by rcases hpc with hpc | hpc <;> rw [hpc] <;> rfl
  have hhandling : s.io.handling = some a := by rcases hpc with hpc | hpc <;> rw [hpc] <;> rfl
  have hreleasing : s.io.releasing = none := by rcases hpc with hpc | hpc <;> rw [hpc] <;> rfl
  have hmutex := h.mutex_ne_io hcritical
  exact { h with
    guarded := h.guarded.congr rfl rfl rfl rfl (fun hio => absurd hio hmutex) fun _ _ => ⟨rfl, rfl⟩
    sender := fun th => (h.sender th).ioStep rfl rfl rfl Iff.rfl (by rw [hnode]; exact fun _ => id)
    critical := iff_of_false (by rintro ⟨⟩) hmutex
    take := by rintro _ ⟨⟩
    node := by
      rintro _ ⟨⟩
      exact h.node a hnode
    taken := by
      rw [h.taken, hhandling]
      exact (List.append_nil _).symm
    handled := by
      rw [h.handled, hreleasing]
      exact congrArg (· ++ _) (List.append_nil _) }

omit [DecidableEq ν] [DecidableEq θ] in
/-- The reference of a message is released. -/
theorem release (h : s.Inv l) (hpc : s.io = .release a) :
    ({ s with
        conns := Function.update s.conns (s.heap a).sent.msg.conn
          (s.conns (s.heap a).sent.msg.conn).release
        released := s.released ++ [(s.heap a).sent]
        io := .free a } : MessageChain n ν θ).Inv l := by
  have hmutex := h.mutex_ne_io (by rw [hpc]; rfl)
  have hnode := h.node
  have htaken := h.taken
  have hhandled := h.handled
  rw [hpc] at hnode htaken hhandled
  exact { h with
    guarded := h.guarded.congr rfl rfl rfl rfl (fun hio => absurd hio hmutex) fun _ _ => ⟨rfl, rfl⟩
    sender := fun th => (h.sender th).ioStep rfl rfl rfl Iff.rfl (by rw [hpc]; exact fun _ => id)
    critical := iff_of_false (by rintro ⟨⟩) hmutex
    take := by rintro _ ⟨⟩
    node := hnode
    taken := htaken
    handled := hhandled.trans (List.append_nil _).symm
    refs := fun c => by
      have hrefs := h.refs c
      simp only [about_snoc]
      by_cases hc : (s.heap a).sent.msg.conn = c
      · rw [hc, Function.update_self, Conn.release_refCount, if_pos rfl]
        omega
      · rw [Function.update_of_ne (Ne.symm hc), if_neg hc]
        omega }

omit [DecidableEq θ] in
/-- The node is freed. -/
theorem free (h : s.Inv l) (hpc : s.io = .free a) :
    ({ s with live := Function.update s.live a false, io := .lock } : MessageChain n ν θ).Inv
      l := by
  have hmutex := h.mutex_ne_io (by rw [hpc]; rfl)
  obtain ⟨-, hnotmem⟩ := h.node a (by rw [hpc]; rfl)
  have htaken := h.taken
  have hhandled := h.handled
  rw [hpc] at htaken hhandled
  exact { h with
    live := fun b hb => by
      have hne : b ≠ a := fun heq => hnotmem (heq ▸ hb)
      exact (Function.update_of_ne hne ..).trans (h.live b hb)
    guarded := h.guarded.congr rfl rfl rfl rfl (fun hio => absurd hio hmutex) fun _ _ => ⟨rfl, rfl⟩
    sender := fun th => { h.sender th with
      prepared := fun b msg hb => by
        obtain ⟨hlive, hmem, hio, hheap⟩ := (h.sender th).prepared b msg hb
        have hne : b ≠ a := by
          rintro rfl
          rw [hpc] at hio
          exact hio rfl
        exact ⟨(Function.update_of_ne hne ..).trans hlive, hmem, by rintro ⟨⟩, hheap⟩ }
    critical := iff_of_false (by rintro ⟨⟩) hmutex
    take := by rintro _ ⟨⟩
    node := by rintro _ ⟨⟩
    taken := htaken
    handled := hhandled }

omit [DecidableEq ν] [DecidableEq θ] in
/-- Other places take and release references. -/
theorem others (h : s.Inv l) {c : ConnId} {k : Conn n} {d : ℤ}
    (hk : k.refCount = (s.conns c).refCount + d) :
    ({ s with
        conns := Function.update s.conns c k
        others := Function.update s.others c (s.others c + d) } : MessageChain n ν θ).Inv l :=
  { h with
    guarded := h.guarded.congr rfl rfl rfl rfl (fun _ => rfl) fun _ _ => ⟨rfl, rfl⟩
    sender := fun th => { h.sender th with }
    refs := fun c' => by
      have hrefs := h.refs c'
      by_cases hc : c' = c
      · subst hc
        simp only [Function.update_self]
        rw [hk]
        omega
      · simp only [Function.update_of_ne hc]
        exact hrefs }

end Inv

/-! ### The list of the server -/

/-- Linking a node appends its message to the list of the server. -/
theorem server_linkMessage {m : ℕ} {srv : State n m} {t : Fin n} {l : List ν} {th : θ} {a : ν}
    {task : Task} (hinv : s.Inv l) (hpc : s.sender th = .link a ⟨.responseReady, task.conn⟩)
    (hlist : (srv.io t).msgQueue = (s.messages l).map SentMessage.msg) (w : Fin m) :
    ∃ s' l', s.step (.send th) = some s' ∧ s'.Inv l' ∧
      ((srv.linkMessage w task t).io t).msgQueue = (s'.messages l').map SentMessage.msg := by
  have h' := hinv.link hpc
  refine ⟨_, _, by simp only [step, sendStep, hpc], h', ?_⟩
  have hlinked := h'.linked
  have hmessages := List.append_cancel_left ((List.append_assoc ..).symm.trans
    ((congrArg (· ++ _) hinv.linked).symm.trans hlinked))
  rw [← hmessages, List.map_append, ← hlist]
  simp [State.linkMessage]

/-- Taking a node takes the first message from the list of the server. -/
theorem server_drainMessage {m : ℕ} {srv : State n m} {t : Fin n} {l : List ν} {a : ν}
    (hinv : s.Inv l) (hpc : s.io = .take a)
    (hlist : (srv.io t).msgQueue = (s.messages l).map SentMessage.msg) :
    ∃ s' l', s.step .drain = some s' ∧ s'.Inv l' ∧
      ((srv.drainMessage t).io t).msgQueue = (s'.messages l').map SentMessage.msg ∧
      ((srv.drainMessage t).io t).pc = .msgCheck (s.heap a).sent.msg := by
  obtain ⟨l', rfl, h'⟩ := hinv.take_head hpc
  refine ⟨_, l', by simp only [step, drainStep, hpc], h', ?_⟩
  have hcons : (srv.io t).msgQueue = (s.heap a).sent.msg :: (s.messages l').map SentMessage.msg :=
    hlist
  unfold State.drainMessage
  rw [hcons]
  simp only [State.setIo_io, Function.update_self, and_true]
  rfl

/-! ### Runs -/

/-- One step keeps the invariant. -/
theorem Step.inv (hs : Step s s') {l : List ν} (h : s.Inv l) : ∃ l', s'.Inv l' := by
  cases hs with
  | outside th pc hold hnew hprepared => exact ⟨l, h.outside hold hnew hprepared⟩
  | alloc th msg a hpc ha => exact ⟨l, h.alloc hpc ha⟩
  | lock th a msg hpc hfree => exact ⟨l, h.lock hpc hfree⟩
  | acquire th a msg hpc => exact ⟨l, h.acquire hpc⟩
  | link th a msg hpc => exact ⟨l ++ [a], h.link hpc⟩
  | setTail th a hpc => exact ⟨l, h.setTail hpc⟩
  | unlock th hpc => exact ⟨l, h.unlock hpc⟩
  | event hpc => exact ⟨l, h.proceed hpc rfl (by rintro _ ⟨⟩) (by rintro _ ⟨⟩) rfl rfl rfl⟩
  | found a hpc hhead =>
    exact ⟨l, h.proceed hpc rfl (by rintro _ ⟨⟩; exact hhead) (by rintro _ ⟨⟩) rfl rfl rfl⟩
  | empty hpc => exact ⟨l, h.proceed hpc rfl (by rintro _ ⟨⟩) (by rintro _ ⟨⟩) rfl rfl rfl⟩
  | ioLock hpc hfree => exact ⟨l, h.ioLock hpc hfree⟩
  | take a hpc =>
    obtain ⟨l', -, h'⟩ := h.take_head hpc
    exact ⟨l', h'⟩
  | fixTail a hpc => exact ⟨l, h.fixTail hpc⟩
  | ioUnlock a hpc => exact ⟨l, h.ioUnlock hpc rfl (by rintro _ ⟨⟩) rfl rfl rfl rfl⟩
  | valid a hpc => exact ⟨l, h.proceed hpc rfl (by rintro _ ⟨⟩) (by rintro _ ⟨⟩) rfl rfl rfl⟩
  | handle a hpc => exact ⟨l, h.handle hpc⟩
  | release a hpc => exact ⟨l, h.release hpc⟩
  | free a hpc => exact ⟨l, h.free hpc⟩
  | finish hpc => exact ⟨l, h.ioUnlock hpc rfl (by rintro _ ⟨⟩) rfl rfl rfl rfl⟩
  | others c k d hk => exact ⟨l, h.others hk⟩
  | scribble a nd ha => exact ⟨l, h.scribble ha nd⟩

/-- The invariant holds in every state of every run. -/
theorem exists_inv (h : (messageChain n ν θ).Reachable s) : ∃ l, s.Inv l := by
  refine TransitionSystem.Reachable.invariant (I := fun s => ∃ l, s.Inv l) ?_ ?_ h
  · rintro _ ⟨heap, conns, rfl⟩
    exact ⟨[], .start heap conns⟩
  · rintro s x s' - ⟨l, hinv⟩ hs
    exact (step_cases hs).inv hinv

end MessageChain

section results

variable [DecidableEq ν] [DecidableEq θ] {s : MessageChain n ν θ}

/-- While the mutex is free, `head` and `tail` are both `NULL` or the ends of a chain of live nodes,
and the messages linked so far are those taken so far followed by those of the chain.  What was
taken is handled in this order, and the reference of a message is released once, after that. -/
theorem messageChain_in_order (h : (messageChain n ν θ).Reachable s) :
    (s.mutex = none → ∃ l : List ν, LinkedChain (fun a => (s.heap a).next) s.head l ∧ l.Nodup ∧
      (s.head = none ∧ s.tail = none ∨ ∃ t, s.tail = some t ∧ l.getLast? = some t) ∧
      (∀ a ∈ l, s.live a = true) ∧ s.linked = s.taken ++ s.messages l ∧ s.acquired = s.linked) ∧
    (s.linked.map SentMessage.id).Nodup ∧
    s.taken = s.handled ++ s.messages s.io.handling.toList ∧
    s.handled = s.released ++ s.messages s.io.releasing.toList ∧
    ∀ c, (s.conns c).refCount + MessageChain.about c s.released =
      s.others c + MessageChain.about c s.acquired := by
  obtain ⟨l, hinv⟩ := MessageChain.exists_inv h
  refine ⟨fun hfree => ?_, hinv.nodup, hinv.taken, hinv.handled, hinv.refs⟩
  obtain ⟨htail, hacquired⟩ := hinv.idle hfree
  refine ⟨l, hinv.chain, hinv.chain.nodup, ?_, hinv.live, hinv.linked, hacquired⟩
  rw [← hinv.chain.head?_eq, htail]
  cases hlast : l.getLast? with
  | none =>
    left
    rw [List.getLast?_eq_none_iff] at hlast
    rw [hlast]
    exact ⟨rfl, rfl⟩
  | some t => exact .inr ⟨t, rfl, rfl⟩

/-- Two threads send two messages each while the IO thread is in its loop; a connection is closed
before its message is handled, and the node of the first message is used again for the last one. -/
theorem messageChain_in_order_reused :
    ∃ s : MessageChain 1 ℕ (Fin 2), s.mutex = none ∧ s.head = none ∧ s.tail = none ∧
      s.linked.map SentMessage.id = [(0, 0), (1, 0), (0, 1), (1, 1)] ∧ s.released = s.linked ∧
      s.taken = s.handled ++ s.messages s.io.handling.toList := by
  let msg : ConnId → IoMessage := fun c => ⟨.responseReady, c⟩
  let send : Fin 2 → ℕ → ConnId → List (ChainAction ℕ (Fin 2)) := fun th a c =>
    .call th (msg c) :: .alloc th (some a) :: List.replicate 6 (.send th)
  obtain ⟨s, hs, hp⟩ := (messageChain 1 ℕ (Fin 2)).exists_of_exec
    (s := .start (fun _ => ⟨⟨(0, 0), msg 0⟩, none⟩) fun _ => Conn.create 5 0 0)
    (List.flatten [send 0 16 7, [.event], List.replicate 5 .drain, send 1 32 8, [.markClosing 8],
      List.replicate 2 .drain, send 0 48 7, List.replicate 2 .drain, send 1 16 8,
      List.replicate 28 .drain])
    (fun s => decide (s.mutex = none ∧ s.head = none ∧ s.tail = none ∧
      s.linked.map SentMessage.id = [(0, 0), (1, 0), (0, 1), (1, 1)] ∧ s.released = s.linked))
    ⟨_, _, rfl⟩ (by decide +kernel)
  obtain ⟨hmutex, hhead, htail, hlinked, hreleased⟩ := of_decide_eq_true hp
  exact ⟨s, hmutex, hhead, htail, hlinked, hreleased, (messageChain_in_order hs).2.2.1⟩

end results

end DeepInIo.AdvancedServer
