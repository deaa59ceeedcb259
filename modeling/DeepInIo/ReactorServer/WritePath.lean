import DeepInIo.ReactorServer.Server
import DeepInIo.Foundation.KeyedList
import DeepInIo.Foundation.Outbox
import DeepInIo.Foundation.Transition

/-!
# Responses through the map of write buffers

The handlers of an IO thread that touch its map: `io_thread_handle_response` sets a buffer, and a
write event of `io_thread_loop` writes it once and removes it, however much was written.  Each
handler is one step here, whatever `write` returns.

As long as no response replaces another one that is still in the map, and every `write` takes the
whole buffer, each connection is an `Outbox`: what was written is a beginning of its responses, and
an entry leaves the map when all of it was written.  `responses_complete_iff` says that nothing less
will do.
-/

namespace DeepInIo.ReactorServer

/-! ### The map -/

/-- The list is a keyed list. -/
theorem connMapGet_eq (map : List ConnEntry) :
    connMapGet map = Option.map ConnEntry.buf ∘ KeyedList.lookup ConnEntry.fd map :=
  rfl

theorem connMapGet_set (map : List ConnEntry) (fd : Fd) (buf : List UInt8) :
    connMapGet (connMapSet map fd buf) =
      Function.update (connMapGet map) fd (some (cString buf)) := by
  have hput : connMapSet map fd buf = KeyedList.put ConnEntry.fd map ⟨fd, cString buf⟩ := rfl
  rw [connMapGet_eq, connMapGet_eq, hput, KeyedList.lookup_put, Function.comp_update]
  rfl

theorem connMapGet_remove {map : List ConnEntry} (h : (map.map ConnEntry.fd).Nodup) (fd : Fd) :
    connMapGet (connMapRemove map fd) = Function.update (connMapGet map) fd none := by
  have hremove : connMapRemove map fd = KeyedList.remove ConnEntry.fd map fd := rfl
  rw [connMapGet_eq, connMapGet_eq, hremove, KeyedList.lookup_remove h, Function.comp_update]
  rfl

/-! ### The handlers -/

/-- What the handlers of an IO thread work on. -/
structure WritePath where
  connMap : List ConnEntry
  /-- The interest list of the thread; a connection is registered while it is open. -/
  reg : Fd → Option EpollMask
  /-- The bytes `write` accepted for the connection. -/
  written : Fd → List UInt8
  /-- Specification: the responses for the connection, in the order of the calls. -/
  responses : Fd → List (List UInt8)
  /-- Specification: what had been written when the last response came. -/
  base : Fd → List UInt8

/-- What `write` returns. -/
inductive WriteResult
  | wrote (len : ℕ)
  /-- `EAGAIN` or `EWOULDBLOCK` -/
  | again
  /-- any other error -/
  | err
  deriving DecidableEq

/-- One handler, with the result of its system call. -/
inductive HandlerCall
  /-- `io_thread_add_conn` for a new connection -/
  | addConn (fd : Fd)
  /-- `io_thread_handle_response` -/
  | handleResponse (fd : Fd) (response : List UInt8)
  /-- the part of `io_thread_loop` for `EPOLLOUT` -/
  | writeEvent (fd : Fd) (r : WriteResult)
  /-- the part of `io_thread_loop` for a connection that ended or failed while it was read -/
  | disconnect (fd : Fd)
  deriving DecidableEq

namespace WritePath

/-- No connection is open. -/
def start : WritePath where
  connMap := []
  reg := fun _ => none
  written := fun _ => []
  responses := fun _ => []
  base := fun _ => []

variable (s : WritePath)

/-- The connection is open. -/
def isOpen (fd : Fd) : Bool :=
  (s.reg fd).isSome

/-- The buffer of a connection, empty when there is none. -/
def pending (fd : Fd) : List UInt8 :=
  (connMapGet s.connMap fd).getD []

/-- `EPOLL_CTL_ADD` for a connection under the number `fd`. -/
@[simps]
def addConn (fd : Fd) : WritePath where
  connMap := s.connMap
  reg := Function.update s.reg fd (some { epollin := true, epollout := false })
  written := Function.update s.written fd []
  responses := Function.update s.responses fd []
  base := Function.update s.base fd []

/-- `conn_map_set` and `EPOLL_CTL_MOD` with `EPOLLIN | EPOLLOUT | EPOLLET`. -/
@[simps]
def handleResponse (fd : Fd) (response : List UInt8) : WritePath where
  connMap := connMapSet s.connMap fd response
  reg := Function.update s.reg fd (some { epollin := true, epollout := true })
  written := s.written
  responses := Function.update s.responses fd (s.responses fd ++ [cString response])
  base := Function.update s.base fd (s.written fd)

/-- `write` returned `len`: `EPOLL_CTL_MOD` with `EPOLLIN | EPOLLET`, and `conn_map_remove`. -/
@[simps]
def wrote (fd : Fd) (out : List UInt8) (len : ℕ) : WritePath where
  connMap := connMapRemove s.connMap fd
  reg := Function.update s.reg fd (some { epollin := true, epollout := false })
  written := Function.update s.written fd (s.written fd ++ out.take len)
  responses := s.responses
  base := s.base

/-- `close`, which ends the registration, and `conn_map_remove`. -/
@[simps]
def closeConn (fd : Fd) : WritePath where
  connMap := connMapRemove s.connMap fd
  reg := Function.update s.reg fd none
  written := s.written
  responses := s.responses
  base := s.base

/-- The part of `io_thread_loop` for `EPOLLOUT`. -/
def writeEvent (fd : Fd) (r : WriteResult) : Option WritePath :=
  match connMapGet s.connMap fd with
  | none => some s
  | some out =>
    match r with
    | .wrote len => if len ≤ out.length then some (s.wrote fd out len) else none
    | .again => some s
    | .err => some (s.closeConn fd)

/-- One handler.  `EPOLLOUT` is reported only when it is registered. -/
def step : HandlerCall → Option WritePath
  | .addConn fd => if s.isOpen fd then none else some (s.addConn fd)
  | .handleResponse fd response => if s.isOpen fd then some (s.handleResponse fd response) else none
  | .writeEvent fd r =>
    match s.reg fd with
    | some mask => if mask.epollout then s.writeEvent fd r else none
    | none => none
  | .disconnect fd => if s.isOpen fd then some (s.closeConn fd) else none

end WritePath

/-- The handlers in any order. -/
def writePath : TransitionSystem WritePath HandlerCall where
  init s := s = WritePath.start
  step s a := s.step a

namespace WritePath

/-! ### Complete responses -/

/-- What was written to an open connection is a beginning of its responses. -/
def InOrder (s : WritePath) : Prop :=
  ∀ fd, s.isOpen fd = true → s.written fd <+: (s.responses fd).flatten

/-- The entry of a response that is not in the map any more, with the connection still open, was
written as a whole after the response came. -/
def LeavesComplete (s s' : WritePath) : Prop :=
  ∀ fd out, connMapGet s.connMap fd = some out → s'.isOpen fd = true →
    connMapGet s'.connMap fd = none ∨ s'.responses fd ≠ s.responses fd →
    s'.written fd = s.base fd ++ out

/-- No response comes while another one is in the map, and `write` takes the whole buffer. -/
def TakesWhole (s : WritePath) : HandlerCall → Prop
  | .handleResponse fd _ => s.pending fd = []
  | .writeEvent fd (.wrote len) => ∀ out, connMapGet s.connMap fd = some out → len = out.length
  | _ => True

variable {s s' : WritePath} {a : HandlerCall}

/-! ### What a handler does -/

/-- The effect of a handler. -/
inductive Effect (s : WritePath) : HandlerCall → WritePath → Prop
  | addConn (fd : Fd) (h : s.isOpen fd = false) : Effect s (.addConn fd) (s.addConn fd)
  | handleResponse (fd : Fd) (response : List UInt8) (h : s.isOpen fd = true) :
      Effect s (.handleResponse fd response) (s.handleResponse fd response)
  | wrote (fd : Fd) (out : List UInt8) (len : ℕ) (h : s.isOpen fd = true)
      (hout : connMapGet s.connMap fd = some out) (hlen : len ≤ out.length) :
      Effect s (.writeEvent fd (.wrote len)) (s.wrote fd out len)
  /-- there is no buffer, or `write` would block -/
  | nothing (fd : Fd) (r : WriteResult)
      (h : ∀ len, r = .wrote len → connMapGet s.connMap fd = none) :
      Effect s (.writeEvent fd r) s
  | closeConn {a : HandlerCall} (fd : Fd) (h : s.isOpen fd = true)
      (ha : a = .writeEvent fd .err ∨ a = .disconnect fd) : Effect s a (s.closeConn fd)

/-- Every handler has one of these effects. -/
theorem step_effect (hs : writePath.step s a = some s') : Effect s a s' := by
  change s.step a = some s' at hs
  cases a with
  | addConn fd =>
    rw [step] at hs
    split at hs
    · cases hs
    · next h =>
      cases hs
      exact .addConn fd (Bool.eq_false_iff.mpr h)
  | handleResponse fd response =>
    rw [step] at hs
    split at hs
    · next h =>
      cases hs
      exact .handleResponse fd response h
    · cases hs
  | disconnect fd =>
    rw [step] at hs
    split at hs
    · next h =>
      cases hs
      exact .closeConn fd h (.inr rfl)
    · cases hs
  | writeEvent fd r =>
    cases hreg : s.reg fd with
    | none =>
      rw [step, hreg] at hs
      cases hs
    | some mask =>
      have hopen : s.isOpen fd = true := by rw [isOpen, hreg]; rfl
      rw [step, hreg] at hs
      simp only at hs
      split at hs
      · cases hout : connMapGet s.connMap fd with
        | none =>
          rw [writeEvent, hout] at hs
          cases hs
          exact .nothing fd r fun _ _ => hout
        | some out =>
          rw [writeEvent, hout] at hs
          cases r with
          | wrote len =>
            simp only at hs
            split at hs
            · next hlen =>
              cases hs
              exact .wrote fd out len hopen hout hlen
            · cases hs
          | again =>
            cases hs
            exact .nothing fd .again (by rintro _ ⟨⟩)
          | err =>
            cases hs
            exact .closeConn fd hopen (.inl rfl)
      · cases hs

/-- Every buffer belongs to an open connection, to which nothing was written since it was set. -/
structure Consistent (s : WritePath) : Prop where
  keys : (s.connMap.map ConnEntry.fd).Nodup
  buffered : ∀ fd out, connMapGet s.connMap fd = some out → s.isOpen fd = true ∧
    s.base fd = s.written fd

theorem consistent_start : start.Consistent :=
  ⟨List.nodup_nil, by rintro _ _ ⟨⟩⟩

/-- A connection that is not open has no buffer. -/
theorem Consistent.get_of_closed (hc : s.Consistent) {fd : Fd} (h : s.isOpen fd = false) :
    connMapGet s.connMap fd = none := by
  cases hout : connMapGet s.connMap fd with
  | none => rfl
  | some out =>
    rw [(hc.buffered fd out hout).1] at h
    cases h

/-- What is left after a removal was there before. -/
theorem Consistent.get_of_remove (hc : s.Consistent) {fd k : Fd} {out : List UInt8}
    (h : connMapGet (connMapRemove s.connMap fd) k = some out) :
    k ≠ fd ∧ connMapGet s.connMap k = some out := by
  rw [connMapGet_remove hc.keys] at h
  by_cases hk : k = fd
  · subst hk
    rw [Function.update_self] at h
    cases h
  · rw [Function.update_of_ne hk] at h
    exact ⟨hk, h⟩

/-- Every handler keeps this. -/
theorem Effect.consistent (h : Effect s a s') (hc : s.Consistent) : s'.Consistent := by
  cases h with
  | addConn fd hclosed =>
    refine ⟨hc.keys, fun k out hout => ?_⟩
    have hne : k ≠ fd := by
      rintro rfl
      rw [addConn_connMap, hc.get_of_closed hclosed] at hout
      cases hout
    simp only [isOpen, addConn_reg, addConn_written, addConn_base, Function.update_of_ne hne]
    exact hc.buffered k out hout
  | handleResponse fd response hopen =>
    refine ⟨KeyedList.nodup_put hc.keys ⟨fd, cString response⟩, fun k out hout => ?_⟩
    by_cases hk : k = fd
    · subst hk
      simp [isOpen]
    · rw [handleResponse_connMap, connMapGet_set, Function.update_of_ne hk] at hout
      simp only [isOpen, handleResponse_reg, handleResponse_written, handleResponse_base,
        Function.update_of_ne hk]
      exact hc.buffered k out hout
  | wrote fd out len hopen _ _ =>
    refine ⟨KeyedList.nodup_remove hc.keys _, fun k out' hout => ?_⟩
    obtain ⟨hk, hout⟩ := hc.get_of_remove hout
    simp only [isOpen, wrote_reg, wrote_written, wrote_base, Function.update_of_ne hk]
    exact hc.buffered k out' hout
  | nothing => exact hc
  | closeConn fd _ _ =>
    refine ⟨KeyedList.nodup_remove hc.keys _, fun k out' hout => ?_⟩
    obtain ⟨hk, hout⟩ := hc.get_of_remove hout
    simp only [isOpen, closeConn_reg, closeConn_written, closeConn_base, Function.update_of_ne hk]
    exact hc.buffered k out' hout

/-! ### The condition is enough -/

/-- A connection with the buffer of its last response. -/
def outbox (s : WritePath) (fd : Fd) : Outbox UInt8 :=
  ⟨s.written fd, s.pending fd, s.responses fd⟩

/-- Every open connection has got its responses up to what is in the buffer. -/
def Accounts (s : WritePath) : Prop :=
  ∀ fd, s.isOpen fd = true → (s.outbox fd).Inv

theorem Accounts.inOrder (h : s.Accounts) : s.InOrder :=
  fun fd hopen => (h fd hopen).sent_initial (List.prefix_refl _)

/-- A handler for one connection leaves the accounts of the others alone. -/
theorem Accounts.other (h : s.Accounts) {k : Fd} (hbox : s'.outbox k = s.outbox k)
    (hreg : s'.reg k = s.reg k) (hopen : s'.isOpen k = true) : (s'.outbox k).Inv := by
  rw [hbox]
  refine h k ?_
  rwa [isOpen, hreg] at hopen

/-- A handler that meets the condition keeps the accounts. -/
theorem Effect.accounts (h : Effect s a s') (hc : s.Consistent) (hw : s.TakesWhole a)
    (hi : s.Accounts) :
    s'.Accounts := by
  intro k hopen'
  cases h with
  | addConn fd hclosed =>
    by_cases hk : k = fd
    · subst hk
      have hbox : (s.addConn k).outbox k = ⟨[], [], []⟩ := by
        simp [outbox, pending, hc.get_of_closed hclosed]
      rw [hbox]
      exact Outbox.inv_empty
    · refine hi.other ?_ ?_ hopen' <;> simp [outbox, pending, hk]
  | handleResponse fd response hopen =>
    by_cases hk : k = fd
    · subst hk
      have hbox : (s.handleResponse k response).outbox k = { s.outbox k with
          pending := cString response
          accepted := (s.outbox k).accepted ++ [cString response] } := by
        simp [outbox, pending, connMapGet_set]
      rw [hbox]
      exact (Outbox.Step.put (s.outbox k) (cString response) hw).inv (hi k hopen)
    · refine hi.other ?_ ?_ hopen' <;> simp [outbox, pending, connMapGet_set, hk]
  | wrote fd out len hopen hout hlen =>
    by_cases hk : k = fd
    · subst hk
      have hwhole : len = out.length := hw out hout
      have hbox : (s.wrote k out len).outbox k = { s.outbox k with
          sent := (s.outbox k).sent ++ (s.outbox k).pending.take len
          pending := (s.outbox k).pending.drop len } := by
        simp [outbox, pending, connMapGet_remove hc.keys, hout, hwhole]
      rw [hbox]
      exact (Outbox.Step.write (s.outbox k) len).inv (hi k hopen)
    · refine hi.other ?_ ?_ hopen' <;> simp [outbox, pending, connMapGet_remove hc.keys, hk]
  | nothing => exact hi k hopen'
  | closeConn fd _ _ =>
    by_cases hk : k = fd
    · subst hk
      simp [isOpen] at hopen'
    · refine hi.other ?_ ?_ hopen' <;> simp [outbox, pending, connMapGet_remove hc.keys, hk]

/-- A handler that meets the condition lets only complete entries leave. -/
theorem Effect.leavesComplete (h : Effect s a s') (hc : s.Consistent) (hw : s.TakesWhole a) :
    s.LeavesComplete s' := by
  intro k out' hout' hopen' hleft
  obtain ⟨hopen, hbase⟩ := hc.buffered k out' hout'
  cases h with
  | addConn fd hclosed =>
    have hk : k ≠ fd := by
      rintro rfl
      rw [hclosed] at hopen
      cases hopen
    simp [hout', hk] at hleft
  | handleResponse fd response _ =>
    by_cases hk : k = fd
    · subst hk
      have hempty : out' = [] := by
        have hpending : s.pending k = [] := hw
        rwa [pending, hout'] at hpending
      rw [handleResponse_written, hbase, hempty, List.append_nil]
    · simp [connMapGet_set, hout', hk] at hleft
  | wrote fd out len _ hout hlen =>
    by_cases hk : k = fd
    · subst hk
      obtain rfl : out = out' := Option.some.inj (hout.symm.trans hout')
      rw [wrote_written, Function.update_self, hw out hout, List.take_length, hbase]
    · simp [connMapGet_remove hc.keys, hout', hk] at hleft
  | nothing => simp [hout'] at hleft
  | closeConn fd _ _ =>
    by_cases hk : k = fd
    · subst hk
      simp [isOpen] at hopen'
    · simp [connMapGet_remove hc.keys, hout', hk] at hleft

/-! ### The condition is necessary -/

/-- A handler that lets only complete entries leave meets the condition. -/
theorem Effect.takesWhole (h : Effect s a s') (hc : s.Consistent) (hl : s.LeavesComplete s') :
    s.TakesWhole a := by
  cases h with
  | addConn => exact trivial
  | handleResponse fd response hopen =>
    cases hout : connMapGet s.connMap fd with
    | none =>
      change s.pending fd = []
      rw [pending, hout]
      rfl
    | some out =>
      have hleft : (s.handleResponse fd response).responses fd ≠ s.responses fd := by
        simp
      have hwritten := hl fd out hout (by simp [isOpen]) (.inr hleft)
      rw [handleResponse_written, (hc.buffered fd out hout).2,
        List.self_eq_append_right] at hwritten
      change s.pending fd = []
      rw [pending, hout, hwritten]
      rfl
  | wrote fd out len _ hout hlen =>
    intro out' hout'
    cases hout.symm.trans hout'
    have hgone : connMapGet (s.wrote fd out len).connMap fd = none := by
      rw [wrote_connMap, connMapGet_remove hc.keys, Function.update_self]
    have hwritten := hl fd out hout (by simp [isOpen]) (.inl hgone)
    rw [wrote_written, Function.update_self, (hc.buffered fd out hout).2,
      List.append_cancel_left_eq] at hwritten
    have hlength := congrArg List.length hwritten
    rw [List.length_take, Nat.min_eq_left hlen] at hlength
    exact hlength
  | nothing fd r hr =>
    cases r with
    | wrote len =>
      intro out hout
      rw [hr len rfl] at hout
      cases hout
    | again | err => exact trivial
  | closeConn fd _ ha =>
    rcases ha with rfl | rfl <;> exact trivial

end WritePath

/-- In every run of the handlers, up to any point: what was written to every open connection is a
beginning of its responses, and an entry leaves the map of an open connection only when all of it
was written, exactly if no response came while a non-empty one was in the map for the connection,
and every `write` that did not fail took the whole buffer. -/
theorem responses_complete_iff (as : List HandlerCall) :
    writePath.EveryStep (fun s _ s' => s'.InOrder ∧ s.LeavesComplete s') WritePath.start as ↔
      writePath.EveryStep (fun s a _ => s.TakesWhole a) WritePath.start as := by
  constructor
  · refine TransitionSystem.EveryStep.transfer (I := WritePath.Consistent) ?_
      WritePath.consistent_start
    rintro s a s' hc hs ⟨-, hl⟩
    have heffect := WritePath.step_effect hs
    exact ⟨heffect.takesWhole hc hl, heffect.consistent hc⟩
  · refine TransitionSystem.EveryStep.transfer (I := fun s => s.Consistent ∧ s.Accounts) ?_
      ⟨WritePath.consistent_start, by rintro _ ⟨⟩⟩
    rintro s a s' ⟨hc, hi⟩ hs hw
    have heffect := WritePath.step_effect hs
    have hi' := heffect.accounts hc hw hi
    exact ⟨⟨hi'.inOrder, heffect.leavesComplete hc hw⟩, heffect.consistent hc, hi'⟩

/-- The first response is cut short by the first `write`, and the second one follows. -/
theorem responses_incomplete :
    ∃ s, writePath.Reachable s ∧ s.isOpen 5 = true ∧ s.responses 5 = [[65, 66], [67, 68]] ∧
      s.written 5 = [65, 67, 68] ∧ ¬s.InOrder := by
  obtain ⟨s, hs, hp⟩ := writePath.exists_of_exec (s := .start)
    [.addConn 5, .handleResponse 5 [65, 66], .writeEvent 5 (.wrote 1), .handleResponse 5 [67, 68],
      .writeEvent 5 (.wrote 2)]
    (fun s => decide
      (s.isOpen 5 = true ∧ s.responses 5 = [[65, 66], [67, 68]] ∧ s.written 5 = [65, 67, 68]))
    rfl (by decide +kernel)
  obtain ⟨hopen, hresponses, hwritten⟩ := of_decide_eq_true hp
  refine ⟨s, hs, hopen, hresponses, hwritten, fun horder => ?_⟩
  have hinitial := horder 5 hopen
  rw [hresponses, hwritten] at hinitial
  exact absurd hinitial (by decide)

/-! ### The server -/

/-- What the handlers of the IO thread `t` work on in the server, where nothing calls
`io_thread_handle_response`. -/
def State.writePath {n : ℕ} (s : State n) (t : Fin n) : WritePath where
  connMap := (s.io t).connMap
  reg := s.kernel.reg t
  written := fun fd => match s.kernel.sockAt fd with
    | some sk => (s.kernel.socks sk).written
    | none => []
  responses := fun _ => []
  base := fun _ => []

/-- What a `write` does to the kernel. -/
theorem Kernel.writeBytes_spec {n : ℕ} {k k' : Kernel n} {f : Fd} {bytes : List UInt8} {len : ℕ}
    (h : k.writeBytes f bytes len = some k') :
    ∃ sk, k.sockAt f = some sk ∧
      k' = k.setSock sk { k.socks sk with written := (k.socks sk).written ++ bytes.take len } := by
  unfold writeBytes at h
  split at h
  · cases h
  · next sk hsk =>
    split at h
    · cases h
      exact ⟨sk, hsk, rfl⟩
    · cases h

/-- The four steps of the server from `conn_map_get` to `conn_map_remove`, when `write` returns
`len`, are the one step of the handler. -/
theorem server_wrote {n len : ℕ} {s s' : State n} {t : Fin n} {e : Event} {out : List UInt8}
    (hpc : (s.io t).pc = .wrGet e) (he : e.epollout = true)
    (hout : connMapGet (s.io t).connMap e.fd = some out)
    (hreg : (s.kernel.reg t e.fd).isSome = true)
    (hs : (server n).exec s [.io t .ok, .io t (.wrote len), .io t .ok, .io t .ok] = some s') :
    (s'.writePath t).connMap = ((s.writePath t).wrote e.fd out len).connMap ∧
      (s'.writePath t).reg = ((s.writePath t).wrote e.fd out len).reg ∧
      (s'.writePath t).written e.fd = ((s.writePath t).wrote e.fd out len).written e.fd := by
  obtain ⟨s₁, hs₁, hs⟩ := Option.bind_eq_some_iff.mp hs
  obtain ⟨s₂, hs₂, hs⟩ := Option.bind_eq_some_iff.mp hs
  obtain ⟨s₃, hs₃, hs⟩ := Option.bind_eq_some_iff.mp hs
  obtain ⟨s₄, hs₄, hs⟩ := Option.bind_eq_some_iff.mp hs
  cases hs
  have h₁ : s.setIoPc t (.wrWrite e out) = s₁ := by
    simpa [server, State.step, State.ioStep, hpc, State.getBuffer, he, hout] using hs₁
  subst h₁
  obtain ⟨k, hk, rfl⟩ : ∃ k, s.kernel.writeBytes e.fd out len = some k ∧
      ((s.setIoPc t (.wrWrite e out)).setKernel k).setIoPc t (.wrMod e) = s₂ := by
    simpa [server, State.step, State.ioStep, State.writeStep] using hs₂
  obtain ⟨sk, hsk, rfl⟩ := Kernel.writeBytes_spec hk
  simp only [server, State.step, State.ioStep, State.setIoPc_io, Function.update_self,
    Option.some.injEq] at hs₃
  subst hs₃
  simp only [server, State.step, State.ioStep, State.setIoPc_io, Function.update_self,
    Option.some.injEq] at hs₄
  subst hs₄
  refine ⟨by simp [State.writePath, State.removeBuffer], ?_, ?_⟩
  · funext f
    simp only [State.writePath, State.removeBuffer, State.setIo_kernel, State.setIoPc_kernel,
      State.setKernel_kernel, Kernel.epollMod]
    rw [if_pos (by exact hreg), Kernel.setReg_reg, Function.update_self, WritePath.wrote_reg]
    rfl
  · have hsock : ∀ k : Kernel n, k.fds = s.kernel.fds → k.sockAt e.fd = some sk := by
      intro k hfds
      rw [Kernel.sockAt, hfds]
      exact hsk
    simp only [State.writePath, State.removeBuffer, State.setIo_kernel, State.setIoPc_kernel,
      State.setKernel_kernel]
    rw [hsock]
    · simp [Kernel.epollMod, hreg, hsk]
    · rw [Kernel.epollMod, if_pos (by exact hreg)]
      rfl

end DeepInIo.ReactorServer
