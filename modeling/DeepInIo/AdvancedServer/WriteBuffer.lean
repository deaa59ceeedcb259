import DeepInIo.AdvancedServer.Framing
import DeepInIo.AdvancedServer.ResponseStream
import DeepInIo.Foundation.OutBuffer

/-!
# The bounds of `write_buf`

The write buffer of a connection is a `OutBuffer` of capacity `BUFFER_SIZE`, for the calls of
`process_request` and the iterations of `handle_write` in any order, without regard to who makes
them (`writeBuffer`), and for the whole server (`bufferStep`).  So `write_pos` and `write_size`
never leave the buffer (`write_buffer_bounds`, `reachable_bounded`).
-/

namespace DeepInIo.AdvancedServer

open State

variable {n m : ℕ}

/-- The write buffer of a connection, with what was written to its socket. -/
def Conn.sendBuffer (k : Conn n) (written : List UInt8) : OutBuffer UInt8 :=
  ⟨k.writeBuf, k.writePos, k.writeSize, written⟩

/-- A response that passes the size guard is not empty and shorter than the buffer. -/
theorem response_bounds {data : List UInt8} (h : responseFits data = true) :
    response data ≠ [] ∧ (response data).length < bufferSize := by
  have hlen := length_response_of_fits h
  simp only [responseFits, Bool.and_eq_true, decide_eq_true_eq] at h
  refine ⟨fun hnil => ?_, by omega⟩
  rw [hnil, List.length_nil] at hlen
  omega

/-- Installing a response puts it into the send buffer. -/
theorem Conn.sendBuffer_install (k : Conn n) {data : List UInt8} (h : responseFits data = true)
    (written : List UInt8) :
    (k.install data).sendBuffer written = { k.sendBuffer written with
      content := response data ++ k.writeBuf.drop (response data).length
      pos := 0
      size := (response data).length } := by
  rw [length_response_of_fits h]
  rfl

/-! ### One connection -/

/-- The part of `process_request` before the message: the response is installed if it passes the
guard. -/
def Conn.processRequest (k : Conn n) (data : List UInt8) : Conn n :=
  if responseFits data then k.install data else k

/-- What happens to the buffer of one connection. -/
inductive BufferAction
  /-- a worker runs `process_request` for a chunk -/
  | process (data : List UInt8)
  /-- an iteration of the loop of `handle_write`, in which `write` accepts `len` bytes -/
  | iterate (len : ℕ)
  /-- `handle_write` empties the buffer -/
  | reset
  deriving DecidableEq

/-- One such step; `write` returns a positive count up to the one requested. -/
def Conn.bufferStep (k : Conn n) : BufferAction → Option (Conn n)
  | .process data =>
    if 0 < data.length ∧ data.length ≤ bufferSize then some (k.processRequest data) else none
  | .iterate len =>
    if k.writePos < k.writeSize ∧ 0 < len ∧ len ≤ k.writeSize - k.writePos then some (k.advance len)
    else none
  | .reset => some k.resetWrite

/-- A new connection, its buffer, and all that is done with it, in any order. -/
def writeBuffer (f : Fd) (sk : SockId) (t : Fin n) : TransitionSystem (Conn n) BufferAction where
  init k := k = Conn.create f sk t
  step k a := k.bufferStep a

section bounds

variable {k k' : Conn n} {f : Fd} {sk : SockId} {t : Fin n}

/-- Every chunk that `read` can return gets its response installed. -/
theorem Conn.processRequest_eq (k : Conn n) {data : List UInt8} (hlen : data.length ≤ bufferSize) :
    k.processRequest data = k.install data := by
  rw [processRequest, if_pos (responseFits_of_length_le hlen)]

/-- Every such step is one of the send buffer. -/
theorem sendBuffer_step {a : BufferAction} (h : k.bufferStep a = some k') (written : List UInt8) :
    ∃ written', OutBuffer.Step bufferSize (k.sendBuffer written) (k'.sendBuffer written') := by
  cases a with
  | process data =>
    simp only [Conn.bufferStep] at h
    split at h <;> cases h
    next hlen =>
    have hfits := responseFits_of_length_le hlen.2
    obtain ⟨hne, hlt⟩ := response_bounds hfits
    refine ⟨written, ?_⟩
    rw [k.processRequest_eq hlen.2, k.sendBuffer_install hfits]
    exact .put (k.sendBuffer written) (response data) hne hlt
  | iterate len =>
    simp only [Conn.bufferStep] at h
    split at h <;> cases h
    next hlen => exact ⟨_, .write (k.sendBuffer written) len hlen.2.2⟩
  | reset =>
    cases h
    exact ⟨_, .reset (k.sendBuffer written)⟩

/-- The buffer of the connection stays inside its bounds. -/
theorem bounded_of_writeBuffer (h : (writeBuffer f sk t).Reachable k) (written : List UInt8) :
    (k.sendBuffer written).Bounded bufferSize := by
  suffices hany : ∃ written, (k.sendBuffer written).Bounded bufferSize by
    obtain ⟨written', hb⟩ := hany
    exact ⟨hb.pos_le, hb.size_lt, hb.size_le⟩
  refine h.invariant (I := fun k => ∃ written, (k.sendBuffer written).Bounded bufferSize) ?_ ?_
  · rintro _ rfl
    exact ⟨[], OutBuffer.bounded_empty (by decide) ..⟩
  · rintro k a k' - ⟨written, hb⟩ hs
    obtain ⟨written', hstep⟩ := sendBuffer_step hs written
    exact ⟨written', hstep.bounded hb⟩

/-- For all chunks with 1 to `BUFFER_SIZE` bytes and all orders of the steps, `write_pos` is at most
`write_size`, which is less than `BUFFER_SIZE`, so that the bytes given to `write` were put into the
buffer, and every call of `process_request` installs a response that is not empty. -/
theorem write_buffer_bounds (h : (writeBuffer f sk t).Reachable k) :
    k.writePos ≤ k.writeSize ∧ k.writeSize < bufferSize ∧ k.writeSize ≤ k.writeBuf.length ∧
      ∀ data : List UInt8, 0 < data.length → data.length ≤ bufferSize →
        responseFits data = true ∧ k.bufferStep (.process data) = some (k.install data) ∧
          0 < (k.install data).writeSize ∧
          (k.install data).writeBuf.take (k.install data).writeSize = response data := by
  have hb := bounded_of_writeBuffer h []
  refine ⟨hb.pos_le, hb.size_lt, hb.size_le, fun data hpos hlen => ?_⟩
  have hfits := responseFits_of_length_le hlen
  refine ⟨hfits, ?_, ?_, k.take_install hfits⟩
  · rw [Conn.bufferStep, if_pos ⟨hpos, hlen⟩, k.processRequest_eq hlen]
  · rw [Conn.install_writeSize, ← length_response_of_fits hfits]
    exact List.length_pos_of_ne_nil (response_bounds hfits).1

/-- A second response is installed in the middle of the first one. -/
theorem write_buffer_bounds_overwritten :
    ∃ k : Conn 1, k.writePos = 0 ∧ k.installed = [response [65], response [66]] ∧
      k.writeSize < bufferSize := by
  obtain ⟨k, hk, hp⟩ := (writeBuffer 10 0 (0 : Fin 1)).exists_of_exec
    [.process [65], .iterate 50, .process [66]]
    (fun k => decide (k.writePos = 0 ∧ k.installed = [response [65], response [66]])) rfl
    (by decide +kernel)
  obtain ⟨hpos, hinstalled⟩ := of_decide_eq_true hp
  exact ⟨k, hpos, hinstalled, (write_buffer_bounds hk).2.1⟩

end bounds

/-! ### The whole server -/

section server

variable {cfg : Config n} {s s' : State n m}

/-- The send buffer of a connection of the server. -/
def State.sendBuffer (s : State n m) (c : ConnId) : OutBuffer UInt8 :=
  (s.conns c).sendBuffer (s.kernel.socks (s.conns c).sock).written

/-- A step that leaves a buffer alone. -/
theorem sendBuffer_eq {c : ConnId} (h : (s.conns c).SameBuffer (s'.conns c))
    (hw : (s'.kernel.socks (s.conns c).sock).written = (s.kernel.socks (s.conns c).sock).written) :
    s'.sendBuffer c = s.sendBuffer c := by
  rw [State.sendBuffer, State.sendBuffer, Conn.sendBuffer, Conn.sendBuffer, h.buf, h.pos, h.size,
    h.sock, hw]

/-- A worker puts a response into the send buffer. -/
theorem sendBuffer_install {task : Task} (w : Fin m) (hf : responseFits task.data = true) :
    ((s.setConn task.conn ((s.conns task.conn).install task.data)).setWorker w
        (.sendTest task)).sendBuffer task.conn = { s.sendBuffer task.conn with
      content := response task.data ++ (s.conns task.conn).writeBuf.drop (response task.data).length
      pos := 0
      size := (response task.data).length } := by
  simp only [State.sendBuffer, setWorker_conns, setConn_conns, Function.update_self,
    setWorker_kernel, setConn_kernel, Conn.sendBuffer_install _ hf, Conn.install_sock]

/-- `write` takes bytes from the send buffer. -/
theorem sendBuffer_wrote (t : Fin n) (x : EventContext) (len : ℕ) (room : Bool) :
    (s.wroteData t x len (s.kernel.setSock (s.conns x.conn).sock
      { s.kernel.socks (s.conns x.conn).sock with
        writable := room
        written := (s.kernel.socks (s.conns x.conn).sock).written ++
          (s.conns x.conn).unsent.take len })).sendBuffer x.conn = { s.sendBuffer x.conn with
      pos := (s.sendBuffer x.conn).pos + len
      sent := (s.sendBuffer x.conn).sent ++ (s.sendBuffer x.conn).unsent.take len } := by
  simp [State.sendBuffer, Conn.sendBuffer, wroteData, OutBuffer.unsent, Conn.unsent]

/-- `handle_write` empties the send buffer. -/
theorem sendBuffer_reset (t : Fin n) (x : EventContext) :
    ((s.setConn x.conn (s.conns x.conn).resetWrite).setIoPc t (.wrMod x)).sendBuffer x.conn =
      { s.sendBuffer x.conn with pos := 0, size := 0 } := by
  simp [State.sendBuffer, Conn.sendBuffer]

/-- Every step of the server is at most one of the send buffer of each connection. -/
theorem step_sendBuffer (hi : Owned s) (hd : ConnFiles s) {a : Action n m}
    (hs : (server m cfg).step s a = some s') {c : ConnId} (hb : s.owner c ≠ .unborn) :
    s'.sendBuffer c = s.sendBuffer c ∨
      OutBuffer.Step bufferSize (s.sendBuffer c) (s'.sendBuffer c) := by
  cases step_bufferChange hi hd hs hb with
  | same h hw => exact .inl (sendBuffer_eq h hw)
  | install w ok task hpc hf hc hs' =>
    right
    subst hc hs'
    obtain ⟨hne, hlt⟩ := response_bounds hf
    rw [sendBuffer_install w hf]
    exact .put (s.sendBuffer task.conn) (response task.data) hne hlt
  | wrote t r x len room hpc hc hlen hs' =>
    right
    subst hc hs'
    rw [sendBuffer_wrote]
    exact .write (s.sendBuffer x.conn) len (hlen.trans (Conn.length_unsent_le _))
  | reset t r x hpc hc hs' =>
    right
    subst hc hs'
    rw [sendBuffer_reset]
    exact .reset (s.sendBuffer x.conn)

/-- A connection that no event loop has accepted has an empty buffer. -/
theorem bounded_of_untouched (hi : Owned s) {c : ConnId} (hl : (s.owner c).loop = none) :
    (s.sendBuffer c).Bounded bufferSize := by
  obtain ⟨-, -, -, hpos, hsize⟩ := (hi.conn c).untouched hl
  refine ⟨?_, ?_, ?_⟩ <;> simp only [State.sendBuffer, Conn.sendBuffer, hpos, hsize]
  · exact le_rfl
  · decide
  · exact Nat.zero_le _

/-- A connection is created before an event loop accepts it. -/
theorem Owner.Step.loop_of_unborn {o : Owner n} (h : Owner.Step .unborn o) : o.loop = none := by
  rcases h with h | ⟨t, h⟩ <;> cases h
  rfl

/-- The buffers of all connections of the server stay inside their bounds. -/
theorem reachable_bounded (h : (server m cfg).Reachable s) (c : ConnId) :
    (s.sendBuffer c).Bounded bufferSize := by
  refine h.invariant (I := fun s => ∀ c, (s.sendBuffer c).Bounded bufferSize) ?_ ?_ c
  · rintro _ rfl c
    exact bounded_of_untouched (owned_start cfg) rfl
  · intro s a s' hr hb hs c
    have hi := reachable_owned hr
    by_cases hu : s.owner c = .unborn
    · refine bounded_of_untouched (reachable_owned (hr.next hs)) ?_
      rcases (step_spec hs).owner hi c with hsame | hstep
      · rw [hsame, hu]
        rfl
      · rw [hu] at hstep
        exact hstep.loop_of_unborn
    · rcases step_sendBuffer hi (reachable_descriptors hr).conn hs hu with heq | hstep
      · rw [heq]
        exact hb c
      · exact hstep.bounded (hb c)

end server

end DeepInIo.AdvancedServer
