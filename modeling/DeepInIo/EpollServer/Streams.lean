import DeepInIo.EpollServer.Custody
import DeepInIo.Foundation.History
import DeepInIo.Foundation.StreamService

/-!
# What the loops read

A record beside the state of the servers of `linux/epoll` says what the peer of each client has
sent, whether it has shut down, and what every `read` returned.  Between the `epoll_wait` that takes
the edge of a client and the `read`, no other loop reads the client, so that the `read` finds a byte
or the end of the stream and never would block (`Ready`).  So a client is closed only after its peer
has shut down and everything was read, unless `read` itself failed: the servers refine the service
that reads every stream to its end (`service_refined`), and nothing that was sent is lost, torn or
out of order, whichever numbers are used again (`streams_intact`).
-/

namespace DeepInIo.EpollServer

variable {c : Config}

/-- The buffer of a client. -/
def Sock.toBuffer (v : Sock) : Buffer UInt8 where
  unread := v.unread
  ended := v.peerClosed

namespace State

variable {s s' : State c} {a : Action c} {l : Fin c.loops} {f : Fd}

/-! ### The record -/

/-- What a step adds to the record. -/
def record (g : StreamLog Fd UInt8) (s : State c) : Action c → StreamLog Fd UInt8
  | .loop l r =>
    match (s.loops l).pc, r with
    | .accept, .accepted f => g.start f
    | .read f, .ok =>
      match s.socks f with
      | some v => g.read f (v.toBuffer.read bufferSize)
      | none => g.read f .error
    | .read f, .err => g.read f .error
    | .close f, _ => g.finish f
    | _, _ => g
  | .main r =>
    match s.main, r with
    | .accept, .accepted f => g.start f
    | _, _ => g
  | .env (.data f bytes) => g.send f bytes
  | .env (.peerClose f _) => g.endStream f

end State

/-- The server with its record. -/
def recorded (c : Config) : TransitionSystem (State c × StreamLog Fd UInt8) (Action c) :=
  (server c).recording .empty State.record

namespace State

variable {s s' : State c} {a : Action c} {l : Fin c.loops} {f : Fd} {g : StreamLog Fd UInt8}

/-! ### A `read` never would block -/

/-- A `read` from the client comes without another event. -/
def Due (s : State c) (l : Fin c.loops) (f : Fd) : Prop :=
  .client f ∈ (s.loops l).batch ∨ (s.loops l).pc = .read f

/-- A client that is due has something to read, or its peer has shut down. -/
def Ready (s : State c) : Prop :=
  ∀ l f, s.Due l f → ∀ v, s.socks f = some v → v.readable = true

/-- A client that is due is in the interest list of the loop. -/
theorem Custody.due (h : s.Custody) (hd : s.Due l f) : s.reg l f ≠ none := by
  rcases hd with hbatch | hread
  · exact h.inHand l f (.inl hbatch)
  · exact h.inHand l f (.inr (.inl hread))

/-- Another loop has the client not in its list. -/
theorem Custody.eq_of_reg {l' : Fin c.loops} (h : s.Custody) (hl : s.reg l f ≠ none)
    (hl' : s.reg l' f ≠ none) :
    l' = l := by
  cases h.exclusive f (.list l') (.list l) hl' hl
  rfl

/-- No client becomes due, and those that are due have not been read. -/
theorem Ready.mono (h : s.Ready) (hdue : ∀ l f, s'.Due l f → s.Due l f)
    (hsocks : ∀ l f v', s'.Due l f → s'.socks f = some v' →
      ∃ v, s.socks f = some v ∧ (v.readable = true → v'.readable = true)) : s'.Ready := by
  intro l f hd v' hv'
  obtain ⟨v, hv, himp⟩ := hsocks l f v' hd hv'
  exact himp (h l f (hdue l f hd) v hv)

/-- A loop proceeds, and no client becomes due. -/
theorem Ready.setLoop {loop : EventLoop} (h : s.Ready)
    (hdue : ∀ f, .client f ∈ loop.batch ∨ loop.pc = .read f → s.Due l f) :
    (s.setLoop l loop).Ready := by
  refine h.mono (fun l' f hd => ?_) fun _ _ v' _ hv' => ⟨v', hv', id⟩
  by_cases hl : l' = l
  · subst hl
    rw [Due, setLoop_loops, Function.update_self] at hd
    exact hdue f hd
  · rwa [Due, setLoop_loops, Function.update_of_ne hl] at hd

/-- A loop proceeds to a program point that is not a `read`. -/
theorem Ready.setPc {pc : LoopPc} (h : s.Ready) (hpc : ∀ f, pc ≠ .read f) :
    (s.setPc l pc).Ready := by
  apply h.setLoop
  rintro f (hbatch | hread)
  · exact .inl hbatch
  · exact absurd hread (hpc f)

/-- The next event of a loop is taken. -/
theorem Ready.nextEvent {e : Source} {rest : List Source} {pc : LoopPc} (h : s.Ready)
    (hb : (s.loops l).batch = e :: rest) (hpc : ∀ f, pc = .read f → e = .client f) :
    (s.setLoop l { pc := pc, batch := rest }).Ready := by
  apply h.setLoop
  rintro f (hbatch | hread)
  · left
    rw [hb]
    exact List.mem_cons_of_mem e hbatch
  · left
    rw [hb, hpc f hread]
    exact List.mem_cons_self

/-- The socket of a client that is not due changes. -/
theorem Ready.setSock {v : Option Sock} (h : s.Ready) (hnot : ∀ l, ¬s.Due l f) :
    (s.setSock f v).Ready := by
  refine h.mono (fun _ _ hd => hd) fun l' f' v' hd hv' => ⟨v', ?_, id⟩
  have hf : f' ≠ f := by
    rintro rfl
    exact hnot l' hd
  rwa [setSock_socks, Function.update_of_ne hf] at hv'

/-- More arrives. -/
theorem Ready.arrive {v v' : Sock} (h : s.Ready) (hv : s.socks f = some v)
    (himp : v.readable = true → v'.readable = true) : (s.setSock f (some v')).Ready := by
  refine h.mono (fun _ _ hd => hd) fun l' f' v'' hd hv'' => ?_
  by_cases hf : f' = f
  · subst hf
    rw [setSock_socks, Function.update_self] at hv''
    cases hv''
    exact ⟨v, hv, himp⟩
  · rw [setSock_socks, Function.update_of_ne hf] at hv''
    exact ⟨v'', hv'', id⟩

/-- A step of an event loop. -/
theorem Ready.loopStep {r : Result} (h : s.Ready) (hi : s.Custody) (hs : LoopStep s l r s') :
    s'.Ready := by
  -- a free number is due for no loop
  have hfree : ∀ f, s.socks f = none → ∀ l', ¬s.Due l' f := by
    intro f hf l' hd
    exact hi.isOpen (.list l') f (hi.due hd) hf
  cases hs with
  | collect hpc hnew he =>
    apply h.setLoop
    rintro f (hbatch | hread)
    · rw [List.mem_append, List.mem_singleton] at hbatch
      exact .inl (hbatch.resolve_right fun hf => he f hf.symm)
    · exact .inr hread
  | @collectClient f v hpc hnew hv hreg hread =>
    -- the client becomes due, and it is readable
    intro l' f' hd v' hv'
    by_cases hold : s.Due l' f'
    · exact h l' f' hold v' hv'
    · by_cases hl : l' = l
      · subst hl
        rw [Due, setLoop_loops, Function.update_self] at hd
        rcases hd with hbatch | hpc'
        · rw [List.mem_append, List.mem_singleton] at hbatch
          rcases hbatch with hmem | hf
          · exact absurd (.inl hmem) hold
          · cases hf
            cases hv.symm.trans hv'
            exact hread
        · exact absurd (.inr hpc') hold
      · rw [Due, setLoop_loops, Function.update_of_ne hl] at hd
        exact absurd hd hold
  | drop hpc hv hreg => exact h
  | wake hpc hb => exact h.setPc (by simp)
  | nextWait hpc hb => exact h.setPc (by simp)
  | nextListen hpc hb => exact h.nextEvent hb (by simp)
  | nextPipe hpc hb => exact h.nextEvent hb (by simp)
  | nextClient hpc hb =>
    apply h.nextEvent hb
    rintro f' ⟨⟩
    rfl
  | accepted hpc hf => exact (h.setSock (hfree _ hf)).setPc (by simp)
  | acceptFailed hpc => exact h.setPc (by simp)
  | received hpc hp => exact Ready.setPc (s := s.setPipe l _) h (by simp)
  | added hpc hv hreg => exact Ready.setPc (s := s.setReg l _ _) h (by simp)
  | addRefused hpc hbad => exact h.setPc (by simp)
  | addFailed hpc => exact h.setPc (by simp)
  | @took f v hpc hv hne =>
    -- no loop has another event of the client
    have hnext : (s.setPc l .next).Ready := h.setPc (by simp)
    refine Ready.setSock (s := s.setPc l .next) (f := f) hnext fun l' hd => ?_
    by_cases hl : l' = l
    · subst hl
      rw [Due, setPc_loops, Function.update_self] at hd
      rcases hd with hbatch | ⟨⟨⟩⟩
      exact hi.once l' f (.inl hpc) hbatch
    · rw [Due, setPc_loops, Function.update_of_ne hl] at hd
      exact hl (hi.eq_of_reg (hi.inHand l f (.inr (.inl hpc))) (hi.due hd))
  | nothing hpc hv => exact h.setPc (by simp)
  | readFailed hpc => exact h.setPc (by simp)
  | @closed _ f hpc =>
    refine h.mono (fun l' f' hd => ?_) fun l' f' v' hd hv' => ⟨v', ?_, id⟩
    · by_cases hl : l' = l
      · subst hl
        rw [Due, setPc_loops, Function.update_self] at hd
        rcases hd with hbatch | ⟨⟨⟩⟩
        exact .inl hbatch
      · rwa [Due, setPc_loops, Function.update_of_ne hl] at hd
    · have hf : f' ≠ f := by
        rintro rfl
        simp at hv'
      rwa [setPc_socks, closeSock_socks, Function.update_of_ne hf] at hv'
  | deleted hpc => exact Ready.setPc (s := s.setReg l _ _) h (by simp)

/-- Every step. -/
theorem Ready.step (h : s.Ready) (hi : s.Custody) (hs : (server c).step s a = some s') :
    s'.Ready := by
  cases step_spec hs with
  | loop hl => exact h.loopStep hi hl
  | main _ hm =>
    cases hm with
    | @accepted f hpc hf => exact h.setSock fun l hd => hi.isOpen (.list l) f (hi.due hd) hf
    | failed hpc => exact h
    | sent hpc hlt => exact h
  | env he =>
    cases he with
    | data hv hne hopen =>
      apply h.arrive hv
      simp [Sock.readable, hne]
    | signalled hv =>
      apply h.arrive hv
      simp [Sock.readable]
    | silent hv =>
      apply h.arrive hv
      simp [Sock.readable]

/-- In every reachable state the clients that are due are readable. -/
theorem Ready.of_reachable {ok : State c → Action c → Prop} (hr : (server c).ReachableUnder ok s) :
    s.Ready := by
  induction hr with
  | init h =>
    rw [h]
    rintro l f (⟨⟨⟩⟩ | ⟨⟨⟩⟩)
  | step hr _ hs ih => exact ih.step (Custody.of_reachable hr) hs

/-! ### What a step does to the streams -/

/-- The effect of a step on the sockets and the record. -/
inductive StreamStep (s : State c) (g : StreamLog Fd UInt8) (s' : State c) :
    StreamLog Fd UInt8 → Prop
  /-- Nothing is sent or read, and no client is going to be closed. -/
  | quiet (hsocks : s'.socks = s.socks)
      (hpc : ∀ l f, (s'.loops l).pc = .close f → (s.loops l).pc = .close f) :
      StreamStep s g s' g
  | accepted {f : Fd} (hfree : s.socks f = none)
      (hsocks : s'.socks = Function.update s.socks f (some Sock.fresh))
      (hpc : ∀ l f, (s'.loops l).pc = .close f → (s.loops l).pc = .close f) :
        StreamStep s g s' (g.start f)
  | took {l : Fin c.loops} {f : Fd} {v : Sock} (hpc : (s.loops l).pc = .read f)
      (hv : s.socks f = some v) (hne : v.unread ≠ []) (h : s' = s.readChunk l f v) :
      StreamStep s g s' (g.read f (.chunk (v.unread.take bufferSize)))
  | eof {l : Fin c.loops} {f : Fd} {v : Sock} (hpc : (s.loops l).pc = .read f)
      (hv : s.socks f = some v) (hend : v.peerClosed = true) (hempty : v.unread = [])
      (h : s' = s.setPc l (.close f)) :
      StreamStep s g s' (g.read f .eof)
  | failed {l : Fin c.loops} {f : Fd} (hpc : (s.loops l).pc = .read f)
      (h : s' = s.setPc l (.close f)) :
      StreamStep s g s' (g.read f .error)
  | closed {l : Fin c.loops} {f : Fd} (hpc : (s.loops l).pc = .close f)
      (h : s' = (s.closeSock f).setPc l (.del f)) : StreamStep s g s' (g.finish f)
  | data {f : Fd} {v : Sock} {bytes : List UInt8} (hv : s.socks f = some v)
      (hopen : v.peerClosed = false)
      (hsocks : s'.socks = Function.update s.socks f (some { v with unread := v.unread ++ bytes }))
      (hloops : s'.loops = s.loops) : StreamStep s g s' (g.send f bytes)
  | shut {f : Fd} {v : Sock} (hv : s.socks f = some v)
      (hsocks : s'.socks = Function.update s.socks f (some { v with peerClosed := true }))
      (hloops : s'.loops = s.loops) : StreamStep s g s' (g.endStream f)

/-- A loop that proceeds to a program point other than a `close` closes no more clients. -/
theorem close_of_setLoop {loop : EventLoop} (hpc : ∀ f, loop.pc ≠ .close f) (l' : Fin c.loops)
    (f : Fd) (hf : ((s.setLoop l loop).loops l').pc = .close f) : (s.loops l').pc = .close f := by
  by_cases hl : l' = l
  · subst hl
    rw [setLoop_loops, Function.update_self] at hf
    exact absurd hf (hpc f)
  · rwa [setLoop_loops, Function.update_of_ne hl] at hf

/-- A step that adds nothing to the record. -/
theorem quiet_of_record (hrec : record g s a = g) (hsocks : s'.socks = s.socks)
    (hpc : ∀ l f, (s'.loops l).pc = .close f → (s.loops l).pc = .close f) :
    StreamStep s g s' (record g s a) := by
  rw [hrec]
  exact .quiet hsocks hpc

/-- The effect of a step of an event loop. -/
theorem loopStep_stream {r : Result} (hi : s.Custody) (hready : s.Ready) (hs : LoopStep s l r s') :
    StreamStep s g s' (record g s (.loop l r)) := by
  cases hs with
  | collect hpc hnew he =>
    exact quiet_of_record (by simp only [record, hpc]) rfl (close_of_setLoop (by simp [hpc]))
  | collectClient hpc hnew hv hreg hread =>
    exact quiet_of_record (by simp only [record, hpc]) rfl (close_of_setLoop (by simp [hpc]))
  | drop hpc hv hreg =>
    exact quiet_of_record (by simp only [record, hpc]) rfl fun _ _ hf => hf
  | wake hpc hb =>
    exact quiet_of_record (by simp only [record, hpc]) rfl (close_of_setLoop (by simp))
  | nextWait hpc hb =>
    exact quiet_of_record (by simp only [record, hpc]) rfl (close_of_setLoop (by simp))
  | nextListen hpc hb =>
    exact quiet_of_record (by simp only [record, hpc]) rfl (close_of_setLoop (by simp))
  | nextPipe hpc hb =>
    exact quiet_of_record (by simp only [record, hpc]) rfl (close_of_setLoop (by simp))
  | nextClient hpc hb =>
    exact quiet_of_record (by simp only [record, hpc]) rfl (close_of_setLoop (by simp))
  | accepted hpc hfree =>
    simp only [record, hpc]
    exact .accepted hfree rfl (close_of_setLoop (by simp))
  | acceptFailed hpc =>
    exact quiet_of_record (by simp only [record, hpc]) rfl (close_of_setLoop (by simp))
  | received hpc hp =>
    exact quiet_of_record (by simp only [record, hpc]) rfl (close_of_setLoop (by simp))
  | added hpc hv hreg =>
    exact quiet_of_record (by simp only [record, hpc]) rfl (close_of_setLoop (by simp))
  | addRefused hpc hbad =>
    exact quiet_of_record (by simp only [record, hpc]) rfl (close_of_setLoop (by simp))
  | addFailed hpc =>
    exact quiet_of_record (by simp only [record, hpc]) rfl (close_of_setLoop (by simp))
  | took hpc hv hne =>
    simp only [record, hpc, hv, Buffer.read_of_ne (b := Sock.toBuffer _) hne]
    exact .took hpc hv hne rfl
  | @nothing f hpc hv =>
    -- what is readable and has no byte is at its end
    have hopen := hi.isOpen (.list l) f (hi.inHand l f (.inr (.inl hpc)))
    obtain ⟨v, hsome⟩ := Option.ne_none_iff_exists'.mp hopen
    have hempty := hv v hsome
    have hend : v.peerClosed = true := by
      have hread := hready l f (.inr hpc) v hsome
      rw [Sock.readable, hempty] at hread
      simpa using hread
    simp only [record, hpc, hsome, Buffer.read_of_ended (b := v.toBuffer) hend hempty]
    exact .eof hpc hsome hend hempty rfl
  | readFailed hpc =>
    simp only [record, hpc]
    exact .failed hpc rfl
  | closed hpc =>
    simp only [record, hpc]
    exact .closed hpc rfl
  | deleted hpc =>
    exact quiet_of_record (by simp only [record, hpc]) rfl (close_of_setLoop (by simp))

/-- The effect of a step. -/
theorem step_stream (hi : s.Custody) (hready : s.Ready) (hs : (server c).step s a = some s') :
    StreamStep s g s' (record g s a) := by
  cases step_spec hs with
  | loop hl => exact loopStep_stream hi hready hl
  | main _ hm =>
    cases hm with
    | accepted hpc hfree =>
      simp only [record, hpc]
      exact .accepted hfree rfl fun _ _ hf => hf
    | failed hpc =>
      exact quiet_of_record (by simp only [record, hpc]) rfl fun _ _ hf => hf
    | sent hpc hlt =>
      exact quiet_of_record (by simp only [record, hpc]) rfl fun _ _ hf => hf
  | env he =>
    cases he with
    | data hv hne hopen => exact .data hv hopen rfl rfl
    | signalled hv => exact .shut hv rfl rfl
    | silent hv => exact .shut hv rfl rfl

/-! ### A client is closed at the end of its stream -/

/-- A client that is being closed has failed, or its stream was read to the end. -/
def Closing (s : State c) (g : StreamLog Fd UInt8) : Prop :=
  ∀ l f, (s.loops l).pc = .close f →
    ∃ v, s.socks f = some v ∧
      (.error ∈ (g.current f).reads ∨ v.peerClosed = true ∧ v.unread = [])

/-- A step keeps the invariant. -/
theorem StreamStep.closing {g' : StreamLog Fd UInt8} (hs : StreamStep s g s' g') (hi : s.Custody)
    (h : s.Closing g) : s'.Closing g' := by
  -- a client that a loop has in hand is being closed by no other loop
  have hother : ∀ {l : Fin c.loops} {f : Fd}, (s.loops l).InHand f →
      ∀ l' f', l' ≠ l → (s.loops l').pc = .close f' → f' ≠ f := by
    rintro l f hhand l' f' hl hclose rfl
    exact hl (hi.eq_of_reg (hi.inHand l f' hhand) (hi.inHand l' f' (.inr (.inr hclose))))
  intro l' f' hf'
  cases hs with
  | quiet hsocks hpc =>
    rw [hsocks]
    exact h l' f' (hpc l' f' hf')
  | @accepted f hfree hsocks hpc =>
    obtain ⟨v', hv', hend⟩ := h l' f' (hpc l' f' hf')
    have hf : f' ≠ f := by
      rintro rfl
      cases hfree.symm.trans hv'
    refine ⟨v', ?_, ?_⟩
    · rwa [hsocks, Function.update_of_ne hf]
    · rwa [StreamLog.start, StreamLog.set_current, Function.update_of_ne hf]
  | @took l f v hpc hv hne heq =>
    subst heq
    have hl : l' ≠ l := by
      rintro rfl
      simp at hf'
    rw [readChunk_loops, Function.update_of_ne hl] at hf'
    have hf : f' ≠ f := hother (.inr (.inl hpc)) l' f' hl hf'
    obtain ⟨v', hv', hend⟩ := h l' f' hf'
    refine ⟨v', ?_, ?_⟩
    · rwa [readChunk_socks, Function.update_of_ne hf]
    · rwa [StreamLog.read, StreamLog.set_current, Function.update_of_ne hf]
  | @eof l f v hpc hv hend hempty heq =>
    subst heq
    by_cases hl : l' = l
    · subst hl
      rw [setPc_loops, Function.update_self] at hf'
      obtain rfl := LoopPc.close.inj hf'
      exact ⟨v, hv, .inr ⟨hend, hempty⟩⟩
    · rw [setPc_loops, Function.update_of_ne hl] at hf'
      have hf : f' ≠ f := hother (.inr (.inl hpc)) l' f' hl hf'
      obtain ⟨v', hv', hend'⟩ := h l' f' hf'
      refine ⟨v', hv', ?_⟩
      rwa [StreamLog.read, StreamLog.set_current, Function.update_of_ne hf]
  | @failed l f hpc heq =>
    subst heq
    by_cases hl : l' = l
    · subst hl
      rw [setPc_loops, Function.update_self] at hf'
      obtain rfl := LoopPc.close.inj hf'
      obtain ⟨v, hsome⟩ :=
        Option.ne_none_iff_exists'.mp (hi.isOpen (.list l') f (hi.inHand l' f (.inr (.inl hpc))))
      refine ⟨v, hsome, .inl ?_⟩
      rw [StreamLog.read, StreamLog.set_current, Function.update_self]
      exact List.mem_append_right _ (List.mem_singleton_self _)
    · rw [setPc_loops, Function.update_of_ne hl] at hf'
      have hf : f' ≠ f := hother (.inr (.inl hpc)) l' f' hl hf'
      obtain ⟨v', hv', hend⟩ := h l' f' hf'
      refine ⟨v', hv', ?_⟩
      rwa [StreamLog.read, StreamLog.set_current, Function.update_of_ne hf]
  | @closed l f hpc heq =>
    subst heq
    have hl : l' ≠ l := by
      rintro rfl
      simp at hf'
    rw [setPc_loops, Function.update_of_ne hl] at hf'
    have hf : f' ≠ f := hother (.inr (.inr hpc)) l' f' hl hf'
    obtain ⟨v', hv', hend⟩ := h l' f' hf'
    refine ⟨v', ?_, hend⟩
    rwa [setPc_socks, closeSock_socks, Function.update_of_ne hf]
  | @data f v bytes hv hopen hsocks hloops =>
    rw [hloops] at hf'
    obtain ⟨v', hv', hend⟩ := h l' f' hf'
    by_cases hf : f' = f
    · -- nothing arrives at the end of a stream
      subst hf
      cases hv.symm.trans hv'
      refine ⟨{ v with unread := v.unread ++ bytes }, ?_, .inl ?_⟩
      · rw [hsocks, Function.update_self]
      · rw [StreamLog.send, StreamLog.set_current, Function.update_self]
        apply hend.resolve_right
        rintro ⟨hshut, -⟩
        rw [hopen] at hshut
        cases hshut
    · refine ⟨v', ?_, ?_⟩
      · rwa [hsocks, Function.update_of_ne hf]
      · rwa [StreamLog.send, StreamLog.set_current, Function.update_of_ne hf]
  | @shut f v hv hsocks hloops =>
    rw [hloops] at hf'
    obtain ⟨v', hv', hend⟩ := h l' f' hf'
    by_cases hf : f' = f
    · subst hf
      cases hv.symm.trans hv'
      refine ⟨{ v with peerClosed := true }, ?_, ?_⟩
      · rw [hsocks, Function.update_self]
      · rw [StreamLog.endStream, StreamLog.set_current, Function.update_self]
        exact hend.imp_right fun hshut => ⟨rfl, hshut.2⟩
    · refine ⟨v', ?_, ?_⟩
      · rwa [hsocks, Function.update_of_ne hf]
      · rwa [StreamLog.endStream, StreamLog.set_current, Function.update_of_ne hf]

/-! ### Refinement -/

/-- The service that a server with its record provides. -/
def service (s : State c) (g : StreamLog Fd UInt8) : Service Fd UInt8 :=
  .ofSockets Sock.toBuffer s.socks g

/-- What a step does is nothing to the service, or one of its steps. -/
theorem StreamStep.service {g' : StreamLog Fd UInt8} (hs : StreamStep s g s' g') (h : s.Closing g) :
    Relation.ReflTransGen (Service.Step bufferSize) (s.service g) (s'.service g') := by
  have hconns : ∀ {f : Fd} {v : Sock}, s.socks f = some v →
      (s.service g).conns f = some v.toBuffer :=
    fun hv => Service.ofSockets_conns_of_some hv g
  unfold State.service at hconns ⊢
  cases hs with
  | quiet hsocks hpc =>
    rw [hsocks]
  | accepted hfree hsocks hpc =>
    rw [Service.ofSockets_update hsocks g]
    apply Relation.ReflTransGen.single
    apply Service.Step.connect
    simp [hfree]
  | @took l f v hpc hv hne heq =>
    subst heq
    have hsocks : (s.readChunk l f v).socks =
        Function.update s.socks f (some { v with unread := v.unread.drop bufferSize }) := rfl
    rw [Service.ofSockets_update hsocks g]
    exact .single (.take (hconns hv) hne)
  | eof hpc hv hend hempty heq =>
    subst heq
    exact .single (.eof (hconns hv) hend hempty)
  | failed hpc heq =>
    subst heq
    exact .single .fail
  | @closed l f hpc heq =>
    subst heq
    obtain ⟨v, hv, hend⟩ := h l f hpc
    have hsocks : ((s.closeSock f).setPc l (.del f)).socks = Function.update s.socks f none := rfl
    rw [Service.ofSockets_update hsocks g]
    exact .single (.close (hconns hv) hend)
  | @data f v bytes hv hopen hsocks hloops =>
    rw [Service.ofSockets_update hsocks g]
    have hk := hconns hv
    rw [Sock.toBuffer, hopen] at hk
    simp only [Option.map_some, Sock.toBuffer, hopen]
    exact .single (.arrive hk)
  | shut hv hsocks hloops =>
    rw [Service.ofSockets_update hsocks g]
    exact .single (.endStream (hconns hv))

end State

open State

/-- The servers refine the service that reads every stream to its end. -/
theorem service_refined {p : State c × StreamLog Fd UInt8} (hr : (recorded c).Reachable p) :
    p.1.Closing p.2 ∧
      Relation.ReflTransGen (Service.Step bufferSize) Service.empty (p.1.service p.2) := by
  refine TransitionSystem.Reachable.record_invariant (I := fun (s : State c) g =>
    s.Closing g ∧ Relation.ReflTransGen (Service.Step bufferSize) Service.empty (s.service g))
    ?_ ?_ hr
  · rintro s rfl
    constructor
    · rintro l f ⟨⟩
    · exact .refl
  · intro s g a s' hr ⟨hclosing, hrun⟩ hs
    have hi := Custody.of_reachable hr
    have hstep : StreamStep s g s' (record g s a) := step_stream hi (Ready.of_reachable hr) hs
    exact ⟨hstep.closing hi hclosing, hrun.trans (hstep.service hclosing)⟩

/-- In every run, what a client has sent is what was read from it, in order, followed by what is
unread; no `read` would have blocked, and none returns more than `BUFFER_SIZE` bytes; and when a
client was closed its peer had shut down and everything was read, unless a `read` has failed. -/
theorem streams_intact {p : State c × StreamLog Fd UInt8} (hr : (recorded c).Reachable p) :
    (∀ f v, p.1.socks f = some v →
      (p.2.current f).sent = (p.2.current f).taken ++ v.unread ∧
        (p.2.current f).ended = v.peerClosed) ∧
      (∀ t ∈ p.2.finished, .error ∉ t.reads → t.ended = true ∧ t.taken = t.sent) ∧
      ∀ t, (t ∈ p.2.finished ∨ ∃ f, t = p.2.current f) →
        .again ∉ t.reads ∧ ∀ ch, .chunk ch ∈ t.reads → ch ≠ [] ∧ ch.length ≤ bufferSize := by
  have hintact := Service.intact (by decide) (service_refined hr).2
  refine ⟨fun f v hv => ?_, hintact.complete, fun t ht => ?_⟩
  · exact hintact.accounts f v.toBuffer (Service.ofSockets_conns_of_some hv p.2)
  · have hreads : ∀ r ∈ t.reads, r.Regular bufferSize := by
      rcases ht with hfinished | ⟨f, rfl⟩
      · exact hintact.finishedReads t hfinished
      · exact hintact.reads f
    exact ⟨fun hagain => hreads .again hagain, fun ch hch => hreads (.chunk ch) hch⟩

/-- A client that sends two bytes and shuts down; its number is used again before the loop comes to
its `EPOLL_CTL_DEL`. -/
theorem streams_intact_of_reused :
    ∃ p : State epollMultithreadServer × StreamLog Fd UInt8, ∃ t ∈ p.2.finished,
      t.sent = [72, 105] ∧ t.reads = [.chunk [72, 105], .eof] ∧ t.ended = true ∧
        t.taken = t.sent := by
  obtain ⟨p, hr, hp⟩ := TransitionSystem.exists_of_exec (recorded epollMultithreadServer)
    (s := (State.start _, .empty))
    (List.flatten [Action.connect (worker 0) 5, [.env (.data 5 [72, 105])],
      Action.takeEvent (worker 0) (.client 5), [.loop (worker 0) .ok, .loop (worker 0) .ok],
      Action.disconnect (worker 0) 5, Action.connect (worker 1) 5])
    (fun p => p.2.finished.map (fun t => (t.sent, t.reads)) =
      [([72, 105], [.chunk [72, 105], .eof])]) ⟨rfl, rfl⟩ (by decide +kernel)
  have hmap := of_decide_eq_true hp
  obtain ⟨t, ht, heq⟩ := List.mem_map.mp (hmap ▸ List.mem_singleton_self _)
  obtain ⟨hsent, hreads⟩ := Prod.mk.inj heq
  refine ⟨p, t, ht, hsent, hreads, (streams_intact hr).2.1 t ht ?_⟩
  rw [hreads]
  decide

end DeepInIo.EpollServer
