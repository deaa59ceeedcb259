import DeepInIo.AdvancedServer.HandOff
import DeepInIo.Foundation.RecordStream
import Mathlib.Data.List.Nodup

/-!
# The bytes of the hand-off pipe

The hand-off pipe with the bytes that go through it: the pointers that `io_thread_add_connection`
writes, and the single byte of `io_thread_destroy`.  Connections live at addresses of a heap, and an
address is used again when its connection has been freed.  At every point of every run the stream is
framed, so `io_thread_run` adopts the connections whose pointers were written, in this order
(`handOff_in_order`).

The items in the pipe of the server stand for bytes: reading a pointer's size of them takes the
first item (`server_read_bytes`).
-/

namespace DeepInIo.AdvancedServer

/-! ### Pointers -/

/-- `sizeof(connection_t *)` -/
def sizeofPointer : ℕ := 8

/-- A byte of the pipe. -/
structure PipeByte where
  value : UInt8
  /-- Specification: the connection whose pointer was written, `none` for the byte of
  `io_thread_destroy`. -/
  source : Option ConnId
  deriving DecidableEq

/-- The pointer of a connection. -/
structure ConnPtr where
  /-- Specification: the connection that was at the address when `conn_create` returned. -/
  conn : ConnId
  addr : UInt64
  deriving DecidableEq

/-- The bytes that are written for a pointer. -/
def ConnPtr.bytes (p : ConnPtr) : List PipeByte :=
  (leBytes sizeofPointer p.addr.toNat).map (⟨·, some p.conn⟩)

/-- The value of `new_conn` after these bytes have been read. -/
def pointerOf (bs : List PipeByte) : UInt64 :=
  UInt64.ofNat (ofLeBytes (bs.map PipeByte.value))

/-- The byte that `io_thread_destroy` writes. -/
def wakeByte : PipeByte :=
  ⟨1, none⟩

/-- A pointer that `io_thread_run` has read, and the connection that it finds there. -/
structure Adoption where
  bytes : List PipeByte
  conn : Option ConnId
  deriving DecidableEq

/-- The adoption of the connection for which the pointer was written. -/
def ConnPtr.adoption (p : ConnPtr) : Adoption :=
  ⟨p.bytes, some p.conn⟩

@[simp] theorem ConnPtr.length_bytes (p : ConnPtr) : p.bytes.length = sizeofPointer := by
  simp [ConnPtr.bytes]

/-- Bytes of one pointer give the pointer. -/
@[simp] theorem ConnPtr.pointerOf_bytes (p : ConnPtr) : pointerOf p.bytes = p.addr := by
  have hvalues : p.bytes.map PipeByte.value = leBytes sizeofPointer p.addr.toNat := by
    simp [ConnPtr.bytes, Function.comp_def]
  have hlt : p.addr.toNat < 256 ^ sizeofPointer := p.addr.toNat_lt
  rw [pointerOf, hvalues, ofLeBytes_leBytes, Nat.mod_eq_of_lt hlt, UInt64.ofNat_toNat]

/-! ### The main thread and the IO thread -/

/-- The program points of `io_thread_add_connection` and `io_thread_destroy`. -/
inductive HandOffPc
  /-- between the calls -/
  | idle
  /-- `conn_create` -/
  | create
  /-- `write` of the pointer -/
  | write (p : ConnPtr)
  /-- `conn_release` after a failed `write` -/
  | release (p : ConnPtr)
  /-- `write` of the byte, in `io_thread_destroy` -/
  | wake
  /-- `pthread_join` -/
  | join
  /-- the thread has been joined -/
  | joined
  deriving DecidableEq

/-- The connection that the main thread owns. -/
def HandOffPc.owned : HandOffPc → Option ConnPtr
  | .write p | .release p => some p
  | _ => none

/-- `io_thread_destroy` has not written its byte. -/
def HandOffPc.beforeWake : HandOffPc → Bool
  | .join | .joined => false
  | _ => true

/-- The program points of `io_thread_run`, as far as it concerns the hand-off pipe. -/
inductive AdoptPc
  /-- `while (!io_thread->shutdown)` -/
  | loop
  /-- between the events that `event_loop_wait` has returned -/
  | events
  /-- `read` of a pointer -/
  | read
  /-- the assignments to the fields of `new_conn`, whose bytes have been read -/
  | adopt (bs : List PipeByte)
  /-- `event_loop_add` -/
  | add (addr : UInt64)
  /-- `conn_release` after a failed `event_loop_add` -/
  | drop (addr : UInt64)
  /-- the thread has returned -/
  | stopped
  deriving DecidableEq

/-- The bytes of the pointer that has been read last, before the connection is adopted. -/
def AdoptPc.inHand : AdoptPc → Option (List PipeByte)
  | .adopt bs => some bs
  | _ => none

/-- The connection that is adopted and not registered. -/
def AdoptPc.owned : AdoptPc → Option UInt64
  | .add a | .drop a => some a
  | _ => none

/-- The hand-off pipe, the heap of connections, the main thread and the IO thread. -/
structure HandOff (cap : ℕ) where
  pipe : ByteStream PipeByte cap
  /-- The connection object at an address. -/
  heap : UInt64 → Option ConnId
  /-- The connection at the address has been added to the event loop of the thread. -/
  registered : UInt64 → Bool
  nextConn : ConnId
  main : HandOffPc
  io : AdoptPc
  shutdown : Bool
  /-- Specification: the pointers whose `write` has succeeded. -/
  written : List ConnPtr
  /-- Specification: the connections whose `write` has failed. -/
  refused : List ConnId
  /-- Specification: what `io_thread_run` has adopted. -/
  adopted : List Adoption

/-- What the two threads do, and the other threads with connections that are registered. -/
inductive HandOffAction
  /-- `io_thread_add_connection` is called -/
  | call (clientFd : ℤ)
  /-- `conn_create` gets an object at the address, or none -/
  | create (addr : Option UInt64)
  /-- `write` of a pointer succeeds, or fails -/
  | write (ok : Bool)
  /-- `conn_release` after a failed `write` -/
  | release
  /-- `io_thread->shutdown = 1` -/
  | shutdown
  /-- `write` of the byte succeeds, or fails -/
  | wake (ok : Bool)
  /-- `pthread_join` returns -/
  | join
  /-- the condition of the loop of `io_thread_run`, and `event_loop_wait` -/
  | wait
  /-- the next event is that of the hand-off pipe -/
  | event
  /-- there are no more events -/
  | done
  /-- `read` returns what there is, or fails -/
  | read (ok : Bool)
  /-- the assignments to the fields of `new_conn` -/
  | adopt
  /-- `event_loop_add` succeeds, or fails -/
  | add (ok : Bool)
  /-- `conn_release` after a failed `event_loop_add` -/
  | drop
  /-- the last reference of a registered connection is released -/
  | free (addr : UInt64)
  deriving DecidableEq

namespace HandOff

variable {cap : ℕ}

/-- The thread has been created. -/
def start (cap : ℕ) : HandOff cap where
  pipe := .empty
  heap := fun _ => none
  registered := fun _ => false
  nextConn := 0
  main := .idle
  io := .loop
  shutdown := false
  written := []
  refused := []
  adopted := []

/-- One step. -/
def step (s : HandOff cap) : HandOffAction → Option (HandOff cap)
  | .call clientFd =>
    match s.main with
    | .idle => some (if clientFd < 0 then s else { s with main := .create })
    | _ => none
  | .create none =>
    match s.main with
    | .create => some { s with main := .idle }
    | _ => none
  | .create (some addr) =>
    match s.main, s.heap addr with
    | .create, none =>
      some { s with
        heap := Function.update s.heap addr (some s.nextConn)
        nextConn := s.nextConn + 1
        main := .write ⟨s.nextConn, addr⟩ }
    | _, _ => none
  | .write true =>
    match s.main with
    | .write p => (s.pipe.write p.bytes).map fun pipe =>
        { s with pipe := pipe, main := .idle, written := s.written ++ [p] }
    | _ => none
  | .write false =>
    match s.main with
    | .write p => some { s with main := .release p, refused := s.refused ++ [p.conn] }
    | _ => none
  | .release =>
    match s.main with
    | .release p => some { s with heap := Function.update s.heap p.addr none, main := .idle }
    | _ => none
  | .shutdown =>
    match s.main with
    | .idle => some { s with shutdown := true, main := .wake }
    | _ => none
  | .wake true =>
    match s.main with
    | .wake => (s.pipe.write [wakeByte]).map fun pipe => { s with pipe := pipe, main := .join }
    | _ => none
  | .wake false =>
    match s.main with
    | .wake => some { s with main := .join }
    | _ => none
  | .join =>
    match s.main, s.io with
    | .join, .stopped => some { s with main := .joined }
    | _, _ => none
  | .wait =>
    match s.io with
    | .loop => some { s with io := if s.shutdown then .stopped else .events }
    | _ => none
  | .event =>
    match s.io with
    | .events => some { s with io := .read }
    | _ => none
  | .done =>
    match s.io with
    | .events => some { s with io := .loop }
    | _ => none
  | .read ok =>
    match s.io with
    | .read =>
      if ok then
        let (bs, pipe) := s.pipe.read sizeofPointer
        some { s with pipe := pipe, io := if bs.length = sizeofPointer then .adopt bs else .events }
      else some { s with io := .events }
    | _ => none
  | .adopt =>
    match s.io with
    | .adopt bs =>
      some { s with
        io := .add (pointerOf bs)
        adopted := s.adopted ++ [⟨bs, s.heap (pointerOf bs)⟩] }
    | _ => none
  | .add ok =>
    match s.io with
    | .add a =>
      some (if ok then { s with io := .events, registered := Function.update s.registered a true }
        else { s with io := .drop a })
    | _ => none
  | .drop =>
    match s.io with
    | .drop a => some { s with io := .events, heap := Function.update s.heap a none }
    | _ => none
  | .free a =>
    if s.registered a then
      some { s with
        heap := Function.update s.heap a none
        registered := Function.update s.registered a false }
    else none

end HandOff

/-- The hand-off pipe of an IO thread with `cap` bytes. -/
def handOffBytes (cap : ℕ) : TransitionSystem (HandOff cap) HandOffAction where
  init s := s = .start cap
  step s a := s.step a

namespace HandOff

variable {cap : ℕ} {s s' : HandOff cap}

/-! ### What a step can do -/

/-- The steps. -/
inductive Step (s : HandOff cap) : HandOff cap → Prop
  /-- the main thread proceeds -/
  | main (pc : HandOffPc) (shutdown : Bool) (howned : pc.owned = none)
      (hwake : s.main.beforeWake = false → pc.beforeWake = false) :
      Step s { s with main := pc, shutdown := shutdown }
  /-- the IO thread proceeds -/
  | io (pc : AdoptPc) (hold : s.io.inHand = none) (hnew : pc.inHand = none)
      (howned : pc.owned = none) :
      Step s { s with io := pc }
  | create (addr : UInt64) (hfree : s.heap addr = none) (hmain : s.main = .create) :
      Step s { s with
        heap := Function.update s.heap addr (some s.nextConn)
        nextConn := s.nextConn + 1
        main := .write ⟨s.nextConn, addr⟩ }
  | write (p : ConnPtr) (pipe : ByteStream PipeByte cap) (hmain : s.main = .write p)
      (hpipe : s.pipe.write p.bytes = some pipe) :
      Step s { s with pipe := pipe, main := .idle, written := s.written ++ [p] }
  | refuse (p : ConnPtr) (hmain : s.main = .write p) :
      Step s { s with main := .release p, refused := s.refused ++ [p.conn] }
  | release (p : ConnPtr) (hmain : s.main = .release p) :
      Step s { s with heap := Function.update s.heap p.addr none, main := .idle }
  | wake (pipe : ByteStream PipeByte cap) (hmain : s.main = .wake)
      (hpipe : s.pipe.write [wakeByte] = some pipe) :
      Step s { s with pipe := pipe, main := .join }
  | read (hio : s.io = .read) :
      Step s { s with
        pipe := (s.pipe.read sizeofPointer).2
        io := if (s.pipe.read sizeofPointer).1.length = sizeofPointer then
          .adopt (s.pipe.read sizeofPointer).1 else .events }
  | adopt (bs : List PipeByte) (hio : s.io = .adopt bs) :
      Step s { s with
        io := .add (pointerOf bs)
        adopted := s.adopted ++ [⟨bs, s.heap (pointerOf bs)⟩] }
  | add (a : UInt64) (hio : s.io = .add a) :
      Step s { s with io := .events, registered := Function.update s.registered a true }
  | addFailed (a : UInt64) (hio : s.io = .add a) : Step s { s with io := .drop a }
  | drop (a : UInt64) (hio : s.io = .drop a) :
      Step s { s with io := .events, heap := Function.update s.heap a none }
  | free (a : UInt64) (hreg : s.registered a = true) :
      Step s { s with
        heap := Function.update s.heap a none
        registered := Function.update s.registered a false }

/-- Every step is one of `Step`. -/
theorem step_cases {a : HandOffAction} (hs : s.step a = some s') : Step s s' := by
  cases a with
  | call clientFd =>
    simp only [step] at hs
    split at hs <;> cases hs
    next hmain =>
    split
    · exact .main s.main s.shutdown (by rw [hmain]; rfl) id
    · exact .main .create s.shutdown rfl (by rw [hmain]; rintro ⟨⟩)
  | create addr =>
    cases addr with
    | none =>
      simp only [step] at hs
      split at hs <;> cases hs
      next hmain => exact .main .idle s.shutdown rfl (by rw [hmain]; rintro ⟨⟩)
    | some addr =>
      simp only [step] at hs
      split at hs <;> cases hs
      next hmain hfree => exact .create addr hfree hmain
  | write ok =>
    cases ok with
    | true =>
      simp only [step] at hs
      split at hs
      · next p hmain =>
        obtain ⟨pipe, hpipe, rfl⟩ := Option.map_eq_some_iff.mp hs
        exact .write p pipe hmain hpipe
      · cases hs
    | false =>
      simp only [step] at hs
      split at hs <;> cases hs
      next p hmain => exact .refuse p hmain
  | release =>
    simp only [step] at hs
    split at hs <;> cases hs
    next p hmain => exact .release p hmain
  | shutdown =>
    simp only [step] at hs
    split at hs <;> cases hs
    next hmain => exact .main .wake true rfl (by rw [hmain]; rintro ⟨⟩)
  | wake ok =>
    cases ok with
    | true =>
      simp only [step] at hs
      split at hs
      · next hmain =>
        obtain ⟨pipe, hpipe, rfl⟩ := Option.map_eq_some_iff.mp hs
        exact .wake pipe hmain hpipe
      · cases hs
    | false =>
      simp only [step] at hs
      split at hs <;> cases hs
      next hmain => exact .main .join s.shutdown rfl fun _ => rfl
  | join =>
    simp only [step] at hs
    split at hs <;> cases hs
    exact .main .joined s.shutdown rfl fun _ => rfl
  | wait =>
    simp only [step] at hs
    split at hs <;> cases hs
    next hio => exact .io _ (by rw [hio]; rfl) (by split <;> rfl) (by split <;> rfl)
  | event =>
    simp only [step] at hs
    split at hs <;> cases hs
    next hio => exact .io .read (by rw [hio]; rfl) rfl rfl
  | done =>
    simp only [step] at hs
    split at hs <;> cases hs
    next hio => exact .io .loop (by rw [hio]; rfl) rfl rfl
  | read ok =>
    simp only [step] at hs
    split at hs
    · next hio =>
      cases ok with
      | true =>
        cases hs
        exact .read hio
      | false =>
        cases hs
        exact .io .events (by rw [hio]; rfl) rfl rfl
    · cases hs
  | adopt =>
    simp only [step] at hs
    split at hs <;> cases hs
    next bs hio => exact .adopt bs hio
  | add ok =>
    simp only [step] at hs
    split at hs
    · next a hio =>
      cases ok with
      | true =>
        cases hs
        exact .add a hio
      | false =>
        cases hs
        exact .addFailed a hio
    · cases hs
  | drop =>
    simp only [step] at hs
    split at hs <;> cases hs
    next a hio => exact .drop a hio
  | free a =>
    simp only [step] at hs
    split at hs <;> cases hs
    next hreg => exact .free a hreg

/-! ### The invariant -/

/-- The state after adopting the connections `done`, with the pointers `inHand` read and not yet
used, the pointers `pending` in the pipe, and the bytes `tail` behind them. -/
structure Inv (s : HandOff cap) (done inHand pending : List ConnPtr) (tail : List PipeByte) :
    Prop where
  framed : RecordStream ConnPtr.bytes sizeofPointer pending tail s.pipe.bytes
  tail_eq : s.main.beforeWake = true → tail = []
  written_eq : s.written = done ++ inHand ++ pending
  adopted_eq : s.adopted = done.map ConnPtr.adoption
  inHand_eq : inHand.map ConnPtr.bytes = s.io.inHand.toList
  nodup : (s.written.map ConnPtr.conn).Nodup
  written_lt : ∀ p ∈ s.written, p.conn < s.nextConn
  refused_lt : ∀ c ∈ s.refused, c < s.nextConn
  ne_refused : ∀ p ∈ s.written, p.conn ∉ s.refused
  /-- the connections on their way to the thread are alive -/
  live : ∀ p ∈ inHand ++ pending, s.heap p.addr = some p.conn
  main : ∀ p, s.main.owned = some p →
    s.heap p.addr = some p.conn ∧ p.conn < s.nextConn ∧ ∀ q ∈ s.written, q.conn ≠ p.conn
  write : ∀ p, s.main = .write p → p.conn ∉ s.refused
  io : ∀ a, s.io.owned = some a → s.registered a = false ∧ ∃ p ∈ done, p.addr = a ∧
    s.heap a = some p.conn
  registered : ∀ a, s.registered a = true → ∃ p ∈ done, p.addr = a ∧ s.heap a = some p.conn

/-- A connection stays where it is when another address is used or freed. -/
theorem heap_update {heap : UInt64 → Option ConnId} {a b : UInt64} {c : ConnId} {x : Option ConnId}
    (h : heap b = some c) (hne : heap a ≠ some c) : Function.update heap a x b = some c := by
  rw [Function.update_of_ne, h]
  rintro rfl
  exact hne h

namespace Inv

variable {done inHand pending : List ConnPtr} {tail : List PipeByte}

/-- A connection that was adopted is not on its way to the thread. -/
theorem ne_of_done (h : s.Inv done inHand pending tail) {p q : ConnPtr} (hp : p ∈ done)
    (hq : q ∈ inHand ++ pending) : p.conn ≠ q.conn := by
  have hnodup := h.nodup
  rw [h.written_eq, List.append_assoc, List.map_append] at hnodup
  exact (List.nodup_append.mp hnodup).2.2 _ (List.mem_map_of_mem hp) _ (List.mem_map_of_mem hq)

/-- An adopted connection was written. -/
theorem mem_written_of_done (h : s.Inv done inHand pending tail) {p : ConnPtr} (hp : p ∈ done) :
    p ∈ s.written := by
  rw [h.written_eq, List.append_assoc]
  exact List.mem_append_left _ hp

/-- A connection on its way to the thread was written. -/
theorem mem_written_of_live (h : s.Inv done inHand pending tail) {p : ConnPtr}
    (hp : p ∈ inHand ++ pending) :
    p ∈ s.written := by
  rw [h.written_eq, List.append_assoc]
  exact List.mem_append_right _ hp

/-- At the start nothing was written. -/
theorem start : (HandOff.start cap).Inv [] [] [] [] where
  framed := .empty (by decide)
  tail_eq _ := rfl
  written_eq := rfl
  adopted_eq := rfl
  inHand_eq := rfl
  nodup := List.nodup_nil
  written_lt := by rintro _ ⟨⟩
  refused_lt := by rintro _ ⟨⟩
  ne_refused := by rintro _ ⟨⟩
  live := by rintro _ ⟨⟩
  main := by rintro _ ⟨⟩
  write := by rintro _ ⟨⟩
  io := by rintro _ ⟨⟩
  registered := by rintro _ ⟨⟩

/-- `conn_create` -/
theorem create (h : s.Inv done inHand pending tail) {addr : UInt64} (hfree : s.heap addr = none)
    (hmain : s.main = .create) :
    ({ s with
        heap := Function.update s.heap addr (some s.nextConn)
        nextConn := s.nextConn + 1
        main := .write ⟨s.nextConn, addr⟩ } : HandOff cap).Inv done inHand pending tail := by
  have hne : ∀ c, s.heap addr ≠ some c := by
    rw [hfree]
    rintro c ⟨⟩
  exact { h with
    tail_eq := fun _ => h.tail_eq (by rw [hmain]; rfl)
    written_lt := fun p hp => Nat.lt_succ_of_lt (h.written_lt p hp)
    refused_lt := fun c hc => Nat.lt_succ_of_lt (h.refused_lt c hc)
    live := fun p hp => heap_update (h.live p hp) (hne _)
    main := by
      rintro _ ⟨⟩
      exact ⟨Function.update_self .., Nat.lt_succ_self _, fun q hq => (h.written_lt q hq).ne⟩
    write := by
      rintro _ ⟨⟩ hc
      exact (h.refused_lt _ hc).false
    io := fun a ha => by
      obtain ⟨hreg, p, hp, hpa, hpc⟩ := h.io a ha
      exact ⟨hreg, p, hp, hpa, heap_update hpc (hne _)⟩
    registered := fun a ha => by
      obtain ⟨p, hp, hpa, hpc⟩ := h.registered a ha
      exact ⟨p, hp, hpa, heap_update hpc (hne _)⟩ }

/-- `write` of a pointer succeeds. -/
theorem wrote (h : s.Inv done inHand pending tail) {p : ConnPtr} {pipe : ByteStream PipeByte cap}
    (hmain : s.main = .write p) (hpipe : s.pipe.write p.bytes = some pipe) :
    ({ s with pipe := pipe, main := .idle, written := s.written ++ [p] } : HandOff cap).Inv
      done inHand (pending ++ [p]) [] := by
  have htail : tail = [] := h.tail_eq (by rw [hmain]; rfl)
  obtain ⟨hheap, hlt, hnew⟩ := h.main p (by rw [hmain]; rfl)
  have hcases : ∀ q, q ∈ s.written ++ [p] → q ∈ s.written ∨ q = p := fun q hq => by
    simpa using hq
  exact { h with
    framed := (htail ▸ h.framed).write hpipe
    tail_eq := fun _ => rfl
    written_eq := by rw [h.written_eq, List.append_assoc]
    nodup := by
      rw [List.map_append]
      refine List.nodup_append.mpr ⟨h.nodup, List.pairwise_singleton .., fun c hc d hd => ?_⟩
      obtain ⟨q, hq, rfl⟩ := List.mem_map.mp hc
      rw [List.mem_singleton.mp hd]
      exact hnew q hq
    written_lt := fun q hq => by
      rcases hcases q hq with hq | rfl
      · exact h.written_lt q hq
      · exact hlt
    ne_refused := fun q hq => by
      rcases hcases q hq with hq | rfl
      · exact h.ne_refused q hq
      · exact h.write q hmain
    live := fun q hq => by
      rw [← List.append_assoc] at hq
      rcases List.mem_append.mp hq with hq | hq
      · exact h.live q hq
      · rw [List.mem_singleton.mp hq]
        exact hheap
    main := by rintro _ ⟨⟩
    write := by rintro _ ⟨⟩ }

/-- `write` of a pointer fails. -/
theorem refuse (h : s.Inv done inHand pending tail) {p : ConnPtr} (hmain : s.main = .write p) :
    ({ s with main := .release p, refused := s.refused ++ [p.conn] } : HandOff cap).Inv done
      inHand pending tail := by
  obtain ⟨hheap, hlt, hnew⟩ := h.main p (by rw [hmain]; rfl)
  exact { h with
    tail_eq := fun _ => h.tail_eq (by rw [hmain]; rfl)
    refused_lt := fun c hc => by
      rcases List.mem_append.mp hc with hc | hc
      · exact h.refused_lt c hc
      · rw [List.mem_singleton.mp hc]
        exact hlt
    ne_refused := fun q hq hc => by
      rcases List.mem_append.mp hc with hc | hc
      · exact h.ne_refused q hq hc
      · exact hnew q hq (List.mem_singleton.mp hc)
    main := by
      rintro _ ⟨⟩
      exact ⟨hheap, hlt, hnew⟩
    write := by rintro _ ⟨⟩ }

/-- `conn_release` after a failed `write`. -/
theorem release (h : s.Inv done inHand pending tail) {p : ConnPtr} (hmain : s.main = .release p) :
    ({ s with heap := Function.update s.heap p.addr none, main := .idle } : HandOff cap).Inv done
      inHand pending tail := by
  obtain ⟨hheap, -, hnew⟩ := h.main p (by rw [hmain]; rfl)
  have hne : ∀ q ∈ s.written, s.heap p.addr ≠ some q.conn := fun q hq hc => by
    rw [hheap] at hc
    exact hnew q hq (Option.some.inj hc).symm
  exact { h with
    tail_eq := fun _ => h.tail_eq (by rw [hmain]; rfl)
    live := fun q hq => heap_update (h.live q hq) (hne q (h.mem_written_of_live hq))
    main := by rintro _ ⟨⟩
    write := by rintro _ ⟨⟩
    io := fun a ha => by
      obtain ⟨hreg, q, hq, hqa, hqc⟩ := h.io a ha
      exact ⟨hreg, q, hq, hqa, heap_update hqc (hne q (h.mem_written_of_done hq))⟩
    registered := fun a ha => by
      obtain ⟨q, hq, hqa, hqc⟩ := h.registered a ha
      exact ⟨q, hq, hqa, heap_update hqc (hne q (h.mem_written_of_done hq))⟩ }

/-- `write` of the byte of `io_thread_destroy`. -/
theorem wake (h : s.Inv done inHand pending tail) {pipe : ByteStream PipeByte cap}
    (hmain : s.main = .wake) (hpipe : s.pipe.write [wakeByte] = some pipe) :
    ({ s with pipe := pipe, main := .join } : HandOff cap).Inv done inHand pending [wakeByte] := by
  have htail : tail = [] := h.tail_eq (by rw [hmain]; rfl)
  exact { h with
    framed := (htail ▸ h.framed).write_short (by decide) hpipe
    tail_eq := by rintro ⟨⟩
    main := by rintro _ ⟨⟩
    write := by rintro _ ⟨⟩ }

/-- `read` when there is a pointer in the pipe. -/
theorem read_cons {p : ConnPtr} (h : s.Inv done [] (p :: pending) tail) :
    (s.pipe.read sizeofPointer).1 = p.bytes ∧
      ({ s with pipe := (s.pipe.read sizeofPointer).2, io := .adopt p.bytes } : HandOff cap).Inv
        done [p] pending tail := by
  obtain ⟨hbytes, hframed⟩ := h.framed.read_cons p.length_bytes
  exact ⟨hbytes, { h with
    framed := hframed
    written_eq := by rw [h.written_eq, List.append_nil, List.append_assoc, List.singleton_append]
    inHand_eq := rfl
    io := by rintro _ ⟨⟩ }⟩

/-- `read` when there is no pointer in the pipe. -/
theorem read_nil (h : s.Inv done [] [] tail) :
    (s.pipe.read sizeofPointer).1 = tail ∧
      ({ s with pipe := (s.pipe.read sizeofPointer).2, io := .events } : HandOff cap).Inv done [] []
        [] := by
  obtain ⟨hbytes, hframed⟩ := h.framed.read_nil
  exact ⟨hbytes, { h with
    framed := hframed
    tail_eq := fun _ => rfl
    inHand_eq := rfl
    io := by rintro _ ⟨⟩ }⟩

/-- The assignments to the fields of `new_conn`. -/
theorem adopt {p : ConnPtr} (h : s.Inv done [p] pending tail) :
    ({ s with
        io := .add (pointerOf p.bytes)
        adopted := s.adopted ++ [⟨p.bytes, s.heap (pointerOf p.bytes)⟩] } : HandOff cap).Inv
          (done ++ [p]) []
      pending tail := by
  have hmem : p ∈ [p] ++ pending := List.mem_cons_self
  have hheap : s.heap (pointerOf p.bytes) = some p.conn := by
    rw [p.pointerOf_bytes, h.live p hmem]
  exact { h with
    written_eq := by rw [h.written_eq, List.append_nil]
    adopted_eq := by rw [h.adopted_eq, List.map_append, hheap]; rfl
    inHand_eq := rfl
    live := fun q hq => h.live q (List.mem_append_right _ hq)
    io := by
      intro a ha
      obtain rfl : pointerOf p.bytes = a := Option.some.inj ha
      refine ⟨?_, p, List.mem_append_right _ (List.mem_singleton_self p),
        p.pointerOf_bytes.symm, hheap⟩
      -- a registered connection has been adopted before
      rw [Bool.eq_false_iff]
      intro hreg
      obtain ⟨q, hq, -, hqc⟩ := h.registered _ hreg
      exact h.ne_of_done hq hmem (Option.some.inj (hqc.symm.trans hheap))
    registered := fun a ha => by
      obtain ⟨q, hq, hqa, hqc⟩ := h.registered a ha
      exact ⟨q, List.mem_append_left _ hq, hqa, hqc⟩ }

/-- `event_loop_add` succeeds. -/
theorem add (h : s.Inv done inHand pending tail) {a : UInt64} (hio : s.io = .add a) :
    ({ s with io := .events, registered := Function.update s.registered a true } : HandOff cap).Inv
      done inHand pending tail := by
  have hhand := h.inHand_eq
  rw [hio] at hhand
  exact { h with
    inHand_eq := hhand
    io := by rintro _ ⟨⟩
    registered := fun b hb => by
      by_cases hba : b = a
      · rw [hba]
        exact (h.io a (by rw [hio]; rfl)).2
      · exact h.registered b ((Function.update_of_ne hba ..).symm.trans hb) }

/-- `event_loop_add` fails. -/
theorem addFailed (h : s.Inv done inHand pending tail) {a : UInt64} (hio : s.io = .add a) :
    ({ s with io := .drop a } : HandOff cap).Inv done inHand pending tail := by
  have hhand := h.inHand_eq
  rw [hio] at hhand
  exact { h with
    inHand_eq := hhand
    io := by
      rintro _ ⟨⟩
      exact h.io a (by rw [hio]; rfl) }

/-- `conn_release` after a failed `event_loop_add`. -/
theorem drop (h : s.Inv done inHand pending tail) {a : UInt64} (hio : s.io = .drop a) :
    ({ s with io := .events, heap := Function.update s.heap a none } : HandOff cap).Inv done
      inHand pending tail := by
  have hhand := h.inHand_eq
  rw [hio] at hhand
  obtain ⟨hreg, p, hp, rfl, hheap⟩ := h.io a (by rw [hio]; rfl)
  exact { h with
    inHand_eq := hhand
    live := fun q hq => heap_update (h.live q hq) fun hc =>
      h.ne_of_done hp hq (Option.some.inj (hheap.symm.trans hc))
    main := fun q hq => by
      obtain ⟨hqheap, hlt, hnew⟩ := h.main q hq
      refine ⟨heap_update hqheap fun hc => ?_, hlt, hnew⟩
      exact hnew p (h.mem_written_of_done hp) (Option.some.inj (hheap.symm.trans hc))
    io := by rintro _ ⟨⟩
    registered := fun b hb => by
      obtain ⟨q, hq, rfl, hqheap⟩ := h.registered b hb
      refine ⟨q, hq, rfl, (Function.update_of_ne ?_ ..).trans hqheap⟩
      intro heq
      rw [heq, hreg] at hb
      cases hb }

/-- A registered connection is freed. -/
theorem free (h : s.Inv done inHand pending tail) {a : UInt64} (hreg : s.registered a = true) :
    ({ s with
        heap := Function.update s.heap a none
        registered := Function.update s.registered a false } : HandOff cap).Inv done inHand pending
          tail := by
  obtain ⟨p, hp, rfl, hheap⟩ := h.registered a hreg
  exact { h with
    live := fun q hq => heap_update (h.live q hq) fun hc =>
      h.ne_of_done hp hq (Option.some.inj (hheap.symm.trans hc))
    main := fun q hq => by
      obtain ⟨hqheap, hlt, hnew⟩ := h.main q hq
      refine ⟨heap_update hqheap fun hc => ?_, hlt, hnew⟩
      exact hnew p (h.mem_written_of_done hp) (Option.some.inj (hheap.symm.trans hc))
    io := fun b hb => by
      obtain ⟨hbreg, q, hq, rfl, hqheap⟩ := h.io b hb
      have hne : q.addr ≠ p.addr := by
        intro heq
        rw [heq, hreg] at hbreg
        cases hbreg
      exact ⟨(Function.update_of_ne hne ..).trans hbreg, q, hq, rfl,
        (Function.update_of_ne hne ..).trans hqheap⟩
    registered := fun b hb => by
      have hne : b ≠ p.addr := by
        rintro rfl
        cases (Function.update_self ..).symm.trans hb
      obtain ⟨q, hq, rfl, hqheap⟩ := h.registered b ((Function.update_of_ne hne ..).symm.trans hb)
      exact ⟨q, hq, rfl, (Function.update_of_ne hne ..).trans hqheap⟩ }

end Inv

/-! ### Runs -/

/-- One step keeps the invariant. -/
theorem Step.inv (hs : Step s s') {done inHand pending : List ConnPtr} {tail : List PipeByte}
    (h : s.Inv done inHand pending tail) :
    ∃ done' inHand' pending' tail', s'.Inv done' inHand' pending' tail' := by
  cases hs with
  | main pc shutdown howned hwake =>
    exact ⟨done, inHand, pending, tail, { h with
      tail_eq := fun hpc => h.tail_eq (by
        cases hbefore : s.main.beforeWake with
        | true => rfl
        | false => exact absurd hpc (by rw [hwake hbefore]; rintro ⟨⟩))
      main := fun p hp => by
        rw [howned] at hp
        cases hp
      write := by
        rintro p rfl
        cases howned }⟩
  | io pc hold hnew howned =>
    refine ⟨done, inHand, pending, tail, { h with
      inHand_eq := by rw [h.inHand_eq, hold, hnew]
      io := fun a ha => ?_ }⟩
    rw [howned] at ha
    cases ha
  | create addr hfree hmain => exact ⟨_, _, _, _, h.create hfree hmain⟩
  | write p pipe hmain hpipe => exact ⟨_, _, _, _, h.wrote hmain hpipe⟩
  | refuse p hmain => exact ⟨_, _, _, _, h.refuse hmain⟩
  | release p hmain => exact ⟨_, _, _, _, h.release hmain⟩
  | wake pipe hmain hpipe => exact ⟨_, _, _, _, h.wake hmain hpipe⟩
  | read hio =>
    have hhand := h.inHand_eq
    rw [hio] at hhand
    obtain rfl := List.map_eq_nil_iff.mp hhand
    cases pending with
    | cons p pending =>
      obtain ⟨hbytes, hinv⟩ := h.read_cons
      rw [hbytes, if_pos p.length_bytes]
      exact ⟨_, _, _, _, hinv⟩
    | nil =>
      obtain ⟨hbytes, hinv⟩ := h.read_nil
      rw [hbytes, if_neg h.framed.short.ne]
      exact ⟨_, _, _, _, hinv⟩
  | adopt bs hio =>
    have hhand := h.inHand_eq
    rw [hio] at hhand
    obtain ⟨p, rfl, rfl⟩ := List.map_eq_singleton_iff.mp hhand
    exact ⟨_, _, _, _, h.adopt⟩
  | add a hio => exact ⟨_, _, _, _, h.add hio⟩
  | addFailed a hio => exact ⟨_, _, _, _, h.addFailed hio⟩
  | drop a hio => exact ⟨_, _, _, _, h.drop hio⟩
  | free a hreg => exact ⟨_, _, _, _, h.free hreg⟩

/-- The invariant holds in every state of every run. -/
theorem exists_inv (h : (handOffBytes cap).Reachable s) :
    ∃ done inHand pending tail, s.Inv done inHand pending tail := by
  refine TransitionSystem.Reachable.invariant
    (I := fun s => ∃ done inHand pending tail, s.Inv done inHand pending tail) ?_ ?_ h
  · rintro _ rfl
    exact ⟨_, _, _, _, .start⟩
  · rintro s a s' - ⟨done, inHand, pending, tail, hinv⟩ hs
    exact (step_cases hs).inv hinv

end HandOff

/-- `io_thread_run` adopts the connections whose pointers were written, in the order in which they
were written and none twice; what it adopts consists of the bytes of one pointer, and is no
connection whose `write` failed. -/
theorem handOff_in_order {cap : ℕ} {s : HandOff cap} (h : (handOffBytes cap).Reachable s) :
    (∃ k, s.adopted = (s.written.take k).map ConnPtr.adoption) ∧
    (s.adopted.map Adoption.conn).Nodup ∧
    (∀ a ∈ s.adopted, ∃ p ∈ s.written, a.bytes = p.bytes ∧ pointerOf a.bytes = p.addr ∧
      a.conn = some p.conn) ∧
    ∀ a ∈ s.adopted, ∀ c ∈ s.refused, a.conn ≠ some c ∧ ∀ b ∈ a.bytes, b.source ≠ some c := by
  obtain ⟨done, inHand, pending, tail, hinv⟩ := HandOff.exists_inv h
  have hadopted : ∀ a ∈ s.adopted, ∃ p ∈ s.written, p.adoption = a := by
    intro a ha
    rw [hinv.adopted_eq] at ha
    obtain ⟨p, hp, rfl⟩ := List.mem_map.mp ha
    exact ⟨p, hinv.mem_written_of_done hp, rfl⟩
  refine ⟨⟨done.length, ?_⟩, ?_, ?_, ?_⟩
  · rw [hinv.adopted_eq, hinv.written_eq, List.append_assoc, List.take_left]
  · have hnodup := hinv.nodup
    rw [hinv.written_eq, List.append_assoc, List.map_append] at hnodup
    rw [hinv.adopted_eq, List.map_map]
    have hdone := List.Nodup.map (Option.some_injective ConnId) (List.nodup_append.mp hnodup).1
    rwa [List.map_map] at hdone
  · intro a ha
    obtain ⟨p, hp, rfl⟩ := hadopted a ha
    exact ⟨p, hp, rfl, p.pointerOf_bytes, rfl⟩
  · intro a ha c hc
    obtain ⟨p, hp, rfl⟩ := hadopted a ha
    have hne : some p.conn ≠ some c := fun heq => hinv.ne_refused p hp (Option.some.inj heq ▸ hc)
    refine ⟨hne, fun b hb => ?_⟩
    obtain ⟨v, -, rfl⟩ := List.mem_map.mp hb
    exact hne

/-- A pipe with room for two pointers: the third connection is refused, the first one is freed and
its address used again, and the thread is woken when everything was adopted. -/
theorem handOff_in_order_reused :
    ∃ s : HandOff 20, s.main = .joined ∧ s.written.map ConnPtr.addr = [4096, 8192, 4096] ∧
      s.adopted.map Adoption.conn = [some 0, some 1, some 3] ∧ s.refused = [2] ∧
      ∀ a ∈ s.adopted, ∀ c ∈ s.refused, a.conn ≠ some c ∧ ∀ b ∈ a.bytes, b.source ≠ some c := by
  let adoptNext : List HandOffAction := [.event, .read true, .adopt, .add true]
  obtain ⟨s, hs, hp⟩ := (handOffBytes 20).exists_of_exec
    (List.flatten [
      [.call 5, .create (some 4096), .write true, .call 6, .create (some 8192), .write true],
      [.call 7, .create (some 12288), .write false, .release, .wait], adoptNext,
      [.free 4096, .call 8, .create (some 4096), .write true, .shutdown, .wake true], adoptNext,
      adoptNext, [.event, .read true, .done, .wait, .join]])
    (fun s => decide (s.main = .joined ∧ s.written.map ConnPtr.addr = [4096, 8192, 4096] ∧
      s.adopted.map Adoption.conn = [some 0, some 1, some 3] ∧ s.refused = [2]))
    rfl (by decide +kernel)
  obtain ⟨hmain, hwritten, hadopted, hrefused⟩ := of_decide_eq_true hp
  exact ⟨s, hmain, hwritten, hadopted, hrefused, (handOff_in_order hs).2.2.2⟩

/-! ### The pipe of the server -/

section server

open State

variable {n m : ℕ} {cfg : Config n} {s s' : State n m} {t : Fin n}

/-- `server_destroy` has not woken the IO thread `t`. -/
def MainPc.unwoken (t : Fin n) : MainPc n → Bool
  | .ioDestroy t' .flag | .ioDestroy t' .wake => t' ≤ t
  | .ioDestroy t' .join | .ioDestroy t' .loop | .ioDestroy t' .close0 | .ioDestroy t' .close1
  | .ioDestroy t' .free => t' < t
  | .poolShutdown | .queueShutdown | .joinWorkers | .queueDestroy | .done => false
  | _ => true

/-- Before the IO thread with the number `k` is destroyed, those from `k` on are not woken. -/
theorem unwoken_nextDestroy (k : ℕ) : (nextDestroy n k).unwoken t = decide (k ≤ t.1) := by
  unfold nextDestroy
  split
  · rfl
  · next hk =>
    have hlt : t.1 < k := t.2.trans_le (not_lt.mp hk)
    exact (decide_eq_false (not_le.mpr hlt)).symm

/-- The byte of a thread is written once: there are no more bytes after it. -/
theorem ServerStep.wake_le (h : ServerStep cfg s s') (t : Fin n) :
    (s'.io t).pipe.count .wake + (s'.main.unwoken t).toNat ≤
      (s.io t).pipe.count .wake + (s.main.unwoken t).toNat := by
  cases h with
  | main h =>
    cases h with
    | @handOff t₀ c f sk hpc hlt =>
      by_cases ht : t = t₀
      · subst ht
        simp [handOff_io, hpc, MainPc.unwoken]
      · simp [handOff_io, Function.update_of_ne ht, hpc, MainPc.unwoken]
    | @ioWake t₀ hpc =>
      by_cases ht : t = t₀
      · subst ht
        simp [hpc, MainPc.unwoken]
      · have hlt : t₀ < t ↔ t₀ ≤ t := by
          have hne : t.1 ≠ t₀.1 := Fin.val_ne_of_ne ht
          rw [Fin.lt_def, Fin.le_def]
          omega
        simp [Function.update_of_ne ht, hpc, MainPc.unwoken, hlt]
    | @ioFlag t₀ hpc =>
      by_cases ht : t = t₀
      · subst ht
        simp [hpc, MainPc.unwoken]
      · simp [Function.update_of_ne ht, hpc, MainPc.unwoken]
    | @ioFree t₀ hpc =>
      have hio : (((s.setIo t₀ { s.io t₀ with freed := true }).setMain (nextDestroy n (t₀ + 1))).io
          t).pipe = (s.io t).pipe := by
        by_cases ht : t = t₀
        · subst ht
          simp
        · simp [Function.update_of_ne ht]
      rw [hio, setMain_main, unwoken_nextDestroy, hpc]
      exact le_rfl
    | acceptIntr | destroyTask => exact le_rfl
    | destroyLoop hpc =>
      rw [setMain_main, unwoken_nextDestroy, hpc]
      exact Nat.add_le_add_left (Bool.toNat_le _) _
    | @ioWakeFailed t₀ hpc =>
      rw [hpc]
      refine Nat.add_le_add_left ?_ _
      by_cases hlt : t₀ < t
      · simp [MainPc.unwoken, hlt, Fin.le_of_lt hlt]
      · simp [MainPc.unwoken, hlt]
    | woken hpc | stop hpc | accept hpc | acceptAgain hpc | acceptFailed hpc | getThread hpc
    | noThread hpc | create hpc | createFailed hpc | handOffFailed hpc | drop hpc | closeClient hpc
    | closeListen hpc | ioJoin hpc | ioLoop hpc | ioClose0 hpc | ioClose1 hpc | poolShutdown hpc
    | queueShutdown hpc | joinWorkers hpc | destroyed hpc =>
      rw [hpc]
      exact le_rfl
  | io t₀ h =>
    rw [h.main_eq]
    refine Nat.add_le_add_right ?_ _
    by_cases ht : t = t₀
    · subst ht
      cases h with
      | readWake hpc hp | readConn hpc hp =>
        simp only [setIo_io, Function.update_self]
        rw [hp]
        exact List.count_le_count_cons ..
      | _ =>
        simp only [rejectConnection, State.readData, State.backToRead, wroteData, State.markClosing,
          releaseOwner, setIo_io, setIoPc_io, Function.update_self]
        exact le_rfl
    · rw [h.io_ne ht]
  | worker w h =>
    rw [(h.io_eq t).1, h.main_eq]
  | env h => cases h <;> exact le_rfl

/-- There is at most one byte that wakes a thread. -/
theorem reachable_count_wake (h : (server m cfg).Reachable s) (t : Fin n) :
    (s.io t).pipe.count .wake ≤ 1 := by
  have hsum : (s.io t).pipe.count .wake + (s.main.unwoken t).toNat ≤ 1 := by
    refine TransitionSystem.Reachable.invariant
      (I := fun s => (s.io t).pipe.count .wake + (s.main.unwoken t).toNat ≤ 1) ?_ ?_ h
    · rintro _ rfl
      exact le_rfl
    · intro s a s' _ hle hs
      exact ((step_spec hs).wake_le t).trans hle
  exact (Nat.le_add_right _ _).trans hsum

/-- The bytes of an item, where connections have the addresses `addr`. -/
def PipeItem.bytes (addr : ConnId → UInt64) : PipeItem → List PipeByte
  | .conn c => ConnPtr.bytes ⟨c, addr c⟩
  | .wake => [wakeByte]

/-- What the IO thread of the server does with the first item of its pipe is what `read` does with
the bytes. -/
theorem server_read_bytes (h : (server m cfg).Reachable s) (t : Fin n) {x : PipeItem}
    {rest : List PipeItem} (hitems : (s.io t).pipe = x :: rest) (addr : ConnId → UInt64) {cap : ℕ}
    (p : ByteStream PipeByte cap) (hbytes : p.bytes = (s.io t).pipe.flatMap (PipeItem.bytes addr)) :
    (p.read sizeofPointer).1 = x.bytes addr ∧
      (p.read sizeofPointer).2.bytes = rest.flatMap (PipeItem.bytes addr) ∧
      ((x.bytes addr).length = sizeofPointer ↔ x.isConn = true) := by
  rw [hitems, List.flatMap_cons] at hbytes
  rw [ByteStream.fst_read, ByteStream.bytes_read, hbytes]
  cases x with
  | conn c =>
    have hlength : (PipeItem.bytes addr (.conn c)).length = sizeofPointer := ConnPtr.length_bytes _
    refine ⟨?_, ?_, iff_of_true hlength rfl⟩
    · rw [← hlength, List.take_left]
    · rw [← hlength, List.drop_left]
  | wake =>
    -- the byte is the last one
    have hrest : rest = [] := by
      have hlast := (reachable_wakeLast h).last t
      have hcount := reachable_count_wake h t
      rw [hitems] at hlast hcount
      rw [List.count_cons_self] at hcount
      rw [List.eq_nil_iff_forall_not_mem]
      intro y hy
      obtain rfl := (List.pairwise_cons.mp hlast).1 y hy rfl
      have hpos := List.count_pos_iff.mpr hy
      omega
    rw [hrest]
    exact ⟨rfl, rfl, iff_of_false (show ¬1 = 8 by decide) (by rintro ⟨⟩)⟩

end server

end DeepInIo.AdvancedServer
