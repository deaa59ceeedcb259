import DeepInIo.EpollServer.Server

/-!
# One read for each edge

The event loops of `linux/epoll` read a client once for an event, at most `BUFFER_SIZE` bytes, and
put a NUL behind them.  When every read finds fewer bytes, it takes them all: whatever arrives later
arms a new edge, so that a loop that waits has left nothing unread (`Watched`).  A read that finds
more leaves the rest behind without an edge, and puts the NUL behind the end of the buffer.
`reads_everything_iff` says that both servers read everything exactly in the runs without such a
read.
-/

namespace DeepInIo.EpollServer

variable {c : Config}

/-- The client will be read or closed without another event. -/
def EventLoop.InHand (loop : EventLoop) (f : Fd) : Prop :=
  .client f ∈ loop.batch ∨ loop.pc = .read f ∨ loop.pc = .close f

/-- What is not readable has no unread bytes. -/
theorem Sock.unread_eq_nil (v : Sock) (h : ¬v.readable = true) : v.unread = [] := by
  unfold readable at h
  rw [Bool.or_eq_true, not_or] at h
  simpa using h.1

namespace State

variable {s s' : State c} {a : Action c}

/-! ### The property and the condition -/

/-- When a loop waits, no registered client without an armed edge has unread bytes. -/
def Drained (s : State c) : Prop :=
  ∀ l, (s.loops l).pc = .wait → (s.loops l).batch = [] →
    ∀ f v, s.socks f = some v → s.reg l f = some false → v.unread = []

/-- Every chunk has its NUL inside the buffer. -/
def EndsInside (s : State c) : Prop :=
  ∀ i ∈ s.ends, i < bufferSize

/-- A `read` from a client finds fewer than `BUFFER_SIZE` bytes. -/
def TakesAll (s : State c) : Action c → Prop
  | .loop l .ok =>
    ∀ f v, (s.loops l).pc = .read f → s.socks f = some v → v.unread.length < bufferSize
  | _ => True

/-! ### What a step does -/

/-- The effect of a step on the sockets, the interest lists, the events in hand and the chunks. -/
inductive Effect (s : State c) (a : Action c) (s' : State c) : Prop
  /-- Every client in hand stays in hand. -/
  | keep (hsocks : s'.socks = s.socks) (hreg : s'.reg = s.reg) (hends : s'.ends = s.ends)
      (hhand : ∀ l f, (s.loops l).InHand f → (s'.loops l).InHand f)
  /-- An entry of an interest list is changed; without an edge the client is in hand or has nothing
  unread. -/
  | register (l : Fin c.loops) (f : Fd) (r : Option Bool) (hsocks : s'.socks = s.socks)
      (hreg : s'.reg = Function.update s.reg l (Function.update (s.reg l) f r))
      (hends : s'.ends = s.ends) (hhand : ∀ l f, (s.loops l).InHand f → (s'.loops l).InHand f)
      (hr : r = some false → (s'.loops l).InHand f ∨ ∀ v, s.socks f = some v → v.unread = [])
  /-- A connection is accepted. -/
  | accept (f : Fd)
      (hsocks : s'.socks = Function.update s.socks f (some { unread := [], peerClosed := false }))
      (hreg : s'.reg = s.reg) (hends : s'.ends = s.ends)
      (hhand : ∀ l f, (s.loops l).InHand f → (s'.loops l).InHand f)
  /-- Something arrives and arms the edges. -/
  | arrive (f : Fd) (v : Sock) (h : s' = (s.setSock f (some v)).arm f)
  /-- The peer shuts down without arming an edge. -/
  | shut (f : Fd) (v : Sock) (hv : s.socks f = some v)
      (h : s' = s.setSock f (some { v with peerClosed := true }))
  /-- A chunk is read. -/
  | chunk (l : Fin c.loops) (f : Fd) (v : Sock) (hpc : (s.loops l).pc = .read f)
      (hv : s.socks f = some v) (ha : a = .loop l .ok) (h : s' = s.readChunk l f v)
  /-- A client is closed. -/
  | close (l : Fin c.loops) (f : Fd) (hpc : (s.loops l).pc = .close f) (h : s' =
    (s.closeSock f).setPc l (.del f))

/-- Where a loop proceeds to does not matter for the clients of the others. -/
theorem hand_setLoop {l : Fin c.loops} {loop : EventLoop}
    (h : ∀ f, (s.loops l).InHand f → loop.InHand f) (l' : Fin c.loops) (f : Fd)
    (hf : (s.loops l').InHand f) : ((s.setLoop l loop).loops l').InHand f := by
  by_cases hl : l' = l
  · subst hl
    rw [setLoop_loops, Function.update_self]
    exact h f hf
  · rw [setLoop_loops, Function.update_of_ne hl]
    exact hf

/-- A program point that has no client in hand may be left. -/
theorem hand_setPc {l : Fin c.loops} {pc : LoopPc}
    (h : ∀ f, (s.loops l).pc ≠ .read f ∧ (s.loops l).pc ≠ .close f) (l' : Fin c.loops) (f : Fd)
    (hf : (s.loops l').InHand f) : ((s.setPc l pc).loops l').InHand f := by
  refine hand_setLoop (fun f hf => ?_) l' f hf
  rcases hf with hbatch | hread | hclose
  · exact .inl hbatch
  · exact absurd hread (h f).1
  · exact absurd hclose (h f).2

/-- The effect of collecting an event. -/
theorem collect_effect {l : Fin c.loops} {e : Source} (hs : s.collect l e = some s') :
    Effect s a s' := by
  have hgrow : ∀ f, (s.loops l).InHand f →
      EventLoop.InHand { s.loops l with batch := (s.loops l).batch ++ [e] } f := by
    intro f hf
    exact hf.imp_left fun hmem => List.mem_append_left _ hmem
  unfold collect at hs
  split at hs
  · cases hs
  · cases e with
    | listen =>
      simp only at hs
      split at hs
      · cases hs
        exact .keep rfl rfl rfl (hand_setLoop hgrow)
      · cases hs
    | pipe =>
      simp only at hs
      split at hs
      · cases hs
      · cases hs
        exact .keep rfl rfl rfl (hand_setLoop hgrow)
    | client f =>
      simp only at hs
      split at hs
      · split at hs
        · cases hs
          refine .register l f (some false) rfl rfl rfl (hand_setLoop hgrow) fun _ => .inl ?_
          rw [setLoop_loops, Function.update_self]
          exact .inl (List.mem_append_right _ (List.mem_singleton_self _))
        · cases hs
      · cases hs

/-- The effect of dropping an edge. -/
theorem dropEdge_effect {l : Fin c.loops} {f : Fd} (hs : s.dropEdge l f = some s') :
    Effect s a s' := by
  unfold dropEdge at hs
  split at hs
  · next v hv _ =>
    split at hs
    · cases hs
    · next hr =>
      cases hs
      refine .register l f (some false) rfl rfl rfl (fun _ _ hf => hf) fun _ =>
        .inr fun v' hv' => ?_
      cases hv.symm.trans hv'
      exact v.unread_eq_nil hr
  · cases hs

/-- The effect of looking at the next event. -/
theorem nextEvent_effect {l : Fin c.loops} (hpc : (s.loops l).pc = .next) :
    Effect s a (s.nextEvent l) := by
  have htaken : ∀ e rest pc, (s.loops l).batch = e :: rest → (∀ f, e = .client f → pc = .read f) →
      ∀ f, (s.loops l).InHand f → EventLoop.InHand { pc := pc, batch := rest } f := by
    intro e rest pc hbatch he f hf
    unfold EventLoop.InHand at hf
    rw [hbatch, hpc, List.mem_cons] at hf
    rcases hf with (hfirst | hrest) | ⟨⟨⟩⟩ | ⟨⟨⟩⟩
    · exact .inr (.inl (he f hfirst.symm))
    · exact .inl hrest
  unfold nextEvent
  split
  · exact .keep rfl rfl rfl (hand_setPc (by simp [hpc]))
  · next rest hbatch =>
      exact .keep rfl rfl rfl (hand_setLoop (htaken _ rest _ hbatch (by rintro f ⟨⟩)))
  · next rest hbatch =>
      exact .keep rfl rfl rfl (hand_setLoop (htaken _ rest _ hbatch (by rintro f ⟨⟩)))
  · next f rest hbatch =>
    refine .keep rfl rfl rfl (hand_setLoop (htaken _ rest _ hbatch ?_))
    intro f' hf'
    cases hf'
    rfl

/-- The effect of `EPOLL_CTL_ADD`. -/
theorem addConn_effect {l : Fin c.loops} {f : Fd} (hpc : (s.loops l).pc = .add f) :
    Effect s a (s.addConn l f) := by
  have hleave : ∀ l' f, (s.loops l').InHand f → ((s.setPc l .next).loops l').InHand f :=
    hand_setPc (by simp [hpc])
  unfold addConn
  split
  · next v hv _ =>
    refine .register l f (some v.readable) rfl rfl rfl hleave fun hr => .inr fun v' hv' => ?_
    cases hv.symm.trans hv'
    exact v.unread_eq_nil (Bool.eq_false_iff.mp (Option.some.inj hr))
  · exact .keep rfl rfl rfl hleave

/-- The effect of reading a client. -/
theorem readClient_effect {l : Fin c.loops} {f : Fd} {r : Result} (hpc : (s.loops l).pc = .read f)
    (hs : s.readClient l f r = some s') : Effect s (.loop l r) s' := by
  -- a client that is going to be closed stays in hand
  have hclose : Effect s (.loop l r) (s.setPc l (.close f)) := by
    refine .keep rfl rfl rfl (hand_setLoop fun f' hf' => ?_)
    rcases hf' with hbatch | hread | hclose
    · exact .inl hbatch
    · rw [hpc] at hread
      cases hread
      exact .inr (.inr rfl)
    · rw [hpc] at hclose
      cases hclose
  cases r with
  | ok =>
    simp only [readClient] at hs
    split at hs
    · next v hv =>
      split at hs
      · cases hs
        exact hclose
      · cases hs
        exact .chunk l f v hpc hv rfl rfl
    · cases hs
      exact hclose
  | err =>
    cases hs
    exact hclose
  | event | drop | accepted => cases hs

/-- What `accept` leaves. -/
theorem acceptSock_eq {f : Fd} (hs : s.acceptSock f = some s') :
    s' = s.setSock f (some { unread := [], peerClosed := false }) := by
  unfold acceptSock at hs
  split at hs
  · exact (Option.some.inj hs).symm
  · cases hs

/-- The effect of a step of an event loop. -/
theorem loopStep_effect {l : Fin c.loops} {r : Result} (hs : s.loopStep l r = some s') :
    Effect s (.loop l r) s' := by
  -- no client is in hand through these program points
  have hleave : ∀ pc pc', (s.loops l).pc = pc → (∀ f, pc ≠ .read f ∧ pc ≠ .close f) →
      ∀ l' f, (s.loops l').InHand f → ((s.setPc l pc').loops l').InHand f := by
    intro pc pc' hpc hne
    exact hand_setPc (hpc.symm ▸ hne)
  unfold loopStep at hs
  cases hpc : (s.loops l).pc with
  | wait =>
    rw [hpc] at hs
    cases r with
    | ok =>
      simp only at hs
      split at hs
      · cases hs
      · cases hs
        exact .keep rfl rfl rfl (hleave .wait _ hpc (by simp))
    | event e => exact collect_effect hs
    | drop f => exact dropEdge_effect hs
    | err | accepted => cases hs
  | next =>
    rw [hpc] at hs
    cases hs
    exact nextEvent_effect hpc
  | accept =>
    rw [hpc] at hs
    cases r with
    | accepted f =>
      obtain ⟨s₁, hs₁, rfl⟩ := Option.map_eq_some_iff.mp hs
      rw [acceptSock_eq hs₁]
      exact .accept f rfl rfl rfl (hleave .accept _ hpc (by simp))
    | err =>
      cases hs
      exact .keep rfl rfl rfl (hleave .accept _ hpc (by simp))
    | ok | event | drop => cases hs
  | readPipe =>
    rw [hpc] at hs
    simp only at hs
    split at hs
    · cases hs
    · cases hs
      exact .keep rfl rfl rfl (hleave .readPipe _ hpc (by simp))
  | add f =>
    rw [hpc] at hs
    cases r with
    | ok =>
      cases hs
      exact addConn_effect hpc
    | err =>
      cases hs
      exact .keep rfl rfl rfl (hleave (.add f) _ hpc (by simp))
    | event | drop | accepted => cases hs
  | read f =>
    rw [hpc] at hs
    exact readClient_effect hpc hs
  | close f =>
    rw [hpc] at hs
    cases hs
    exact .close l f hpc rfl
  | del f =>
    rw [hpc] at hs
    cases hs
    exact .register l f none rfl rfl rfl (hleave (.del f) _ hpc (by simp)) (by rintro ⟨⟩)

/-- The effect of a step of the main thread. -/
theorem mainStep_effect {r : Result} (hs : s.mainStep r = some s') : Effect s a s' := by
  unfold mainStep at hs
  split at hs
  · cases hs
  · split at hs
    · cases r with
      | accepted f =>
        obtain ⟨s₁, hs₁, rfl⟩ := Option.map_eq_some_iff.mp hs
        rw [acceptSock_eq hs₁]
        exact .accept f rfl rfl rfl fun _ _ hf => hf
      | err =>
        cases hs
        exact .keep rfl rfl rfl fun _ _ hf => hf
      | ok | event | drop => cases hs
    · split at hs
      · cases hs
        exact .keep rfl rfl rfl fun _ _ hf => hf
      · cases hs

/-- The effect of a step of the clients. -/
theorem envStep_effect {e : Environment} (hs : s.envStep e = some s') : Effect s a s' := by
  cases e with
  | data f bytes =>
    simp only [envStep] at hs
    split at hs
    · split at hs
      · cases hs
      · cases hs
        exact .arrive f _ rfl
    · cases hs
  | peerClose f signalled =>
    simp only [envStep] at hs
    split at hs
    · next v hv =>
      cases signalled with
      | true =>
        cases hs
        exact .arrive f _ rfl
      | false =>
        cases hs
        exact .shut f v hv rfl
    · cases hs

/-- Every step has one of these effects. -/
theorem step_effect (hs : (server c).step s a = some s') : Effect s a s' := by
  cases a with
  | loop l r => exact loopStep_effect hs
  | main r => exact mainStep_effect hs
  | env e => exact envStep_effect hs

/-! ### The invariant -/

/-- Whatever is unread is announced by an armed edge, or the client is in hand. -/
def Watched (s : State c) : Prop :=
  ∀ l f v, s.socks f = some v → s.reg l f = some false → v.unread ≠ [] → (s.loops l).InHand f

theorem watched_start : (start c).Watched := by
  rintro l f v ⟨⟩

/-- A loop that waits has no client in hand. -/
theorem Watched.drained (h : s.Watched) : s.Drained := by
  intro l hpc hbatch f v hv hreg
  by_contra hunread
  have hhand := h l f v hv hreg hunread
  unfold EventLoop.InHand at hhand
  rw [hpc, hbatch] at hhand
  simp at hhand

/-- A step that meets the condition keeps the invariant. -/
theorem Effect.watched (h : Effect s a s') (hw : s.TakesAll a) (hi : s.Watched) : s'.Watched := by
  intro l' f' v' hv' hreg' hunread
  cases h with
  | keep hsocks hreg hends hhand =>
    rw [hsocks] at hv'
    rw [hreg] at hreg'
    exact hhand l' f' (hi l' f' v' hv' hreg' hunread)
  | register l f r hsocks hreg hends hhand hr =>
    rw [hsocks] at hv'
    by_cases hl : l' = l ∧ f' = f
    · obtain ⟨rfl, rfl⟩ := hl
      rw [hreg, Function.update_self, Function.update_self] at hreg'
      exact (hr hreg').resolve_right fun hempty => hunread (hempty v' hv')
    · have hsame : s'.reg l' f' = s.reg l' f' := by
        rw [hreg]
        by_cases hl' : l' = l
        · subst hl'
          rw [Function.update_self, Function.update_of_ne fun hf => hl ⟨rfl, hf⟩]
        · rw [Function.update_of_ne hl']
      rw [hsame] at hreg'
      exact hhand l' f' (hi l' f' v' hv' hreg' hunread)
  | accept f hsocks hreg hends hhand =>
    rw [hreg] at hreg'
    rw [hsocks] at hv'
    by_cases hf : f' = f
    · subst hf
      rw [Function.update_self] at hv'
      cases hv'
      exact absurd rfl hunread
    · rw [Function.update_of_ne hf] at hv'
      exact hhand l' f' (hi l' f' v' hv' hreg' hunread)
  | arrive f v h =>
    subst h
    by_cases hf : f' = f
    · subst hf
      simp at hreg'
    · simp only [arm_reg, arm_socks, setSock_socks, setSock_reg,
        Function.update_of_ne hf] at hv' hreg'
      exact hi l' f' v' hv' hreg' hunread
  | shut f v hv h =>
    subst h
    by_cases hf : f' = f
    · subst hf
      rw [setSock_socks, Function.update_self] at hv'
      cases hv'
      exact hi l' f' v hv hreg' hunread
    · rw [setSock_socks, Function.update_of_ne hf] at hv'
      exact hi l' f' v' hv' hreg' hunread
  | chunk l f v hpc hv ha h =>
    subst h ha
    by_cases hf : f' = f
    · -- the chunk is all there was
      subst hf
      have hall : v.unread.drop bufferSize = [] :=
        List.drop_eq_nil_of_le (Nat.le_of_lt (hw f' v hpc hv))
      rw [readChunk_socks, Function.update_self] at hv'
      cases hv'
      exact absurd hall hunread
    · rw [readChunk_socks, Function.update_of_ne hf] at hv'
      have hhand := hi l' f' v' hv' hreg' hunread
      by_cases hl : l' = l
      · subst hl
        rw [readChunk_loops, Function.update_self]
        refine .inl (hhand.resolve_right ?_)
        rw [hpc]
        rintro (hread | ⟨⟨⟩⟩)
        exact hf (LoopPc.read.inj hread).symm
      · rw [readChunk_loops, Function.update_of_ne hl]
        exact hhand
  | close l f hpc h =>
    subst h
    by_cases hf : f' = f
    · subst hf
      simp at hv'
    · simp only [setPc_socks, setPc_reg, closeSock_socks, closeSock_reg,
        Function.update_of_ne hf] at hv' hreg'
      have hhand := hi l' f' v' hv' hreg' hunread
      by_cases hl : l' = l
      · subst hl
        rw [setPc_loops, Function.update_self]
        refine .inl (hhand.resolve_right ?_)
        rw [hpc]
        rintro (⟨⟨⟩⟩ | hclose)
        exact hf (LoopPc.close.inj hclose).symm
      · rw [setPc_loops, Function.update_of_ne hl]
        exact hhand

/-- A step that meets the condition puts the NUL inside the buffer. -/
theorem Effect.endsInside (h : Effect s a s') (hw : s.TakesAll a) (hi : s.EndsInside) :
    s'.EndsInside := by
  unfold EndsInside
  cases h with
  | keep _ _ hends _ | register _ _ _ _ _ hends _ _ | accept _ _ _ hends _ =>
    rw [hends]
    exact hi
  | arrive f v h | shut f v _ h | close l f _ h =>
    subst h
    exact hi
  | chunk l f v hpc hv ha h =>
    subst h ha
    intro i hmem
    rcases List.mem_append.mp hmem with hold | hnew
    · exact hi i hold
    · rw [List.mem_singleton.mp hnew]
      exact Nat.lt_of_le_of_lt (Nat.min_le_right ..) (hw f v hpc hv)

/-! ### The condition is necessary -/

/-- A step that puts the NUL inside the buffer meets the condition. -/
theorem takesAll_of_endsInside (hs : (server c).step s a = some s') (h : s'.EndsInside) :
    s.TakesAll a := by
  cases a with
  | main | env => exact trivial
  | loop l r =>
    cases r with
    | err | event | drop | accepted => exact trivial
    | ok =>
      intro f v hpc hv
      change s.loopStep l .ok = some s' at hs
      unfold loopStep at hs
      rw [hpc] at hs
      simp only [readClient, hv] at hs
      split at hs
      · next hempty =>
        rw [hempty]
        decide
      · cases hs
        have hlast :=
          h (min bufferSize v.unread.length) (List.mem_append_right _ (List.mem_singleton_self _))
        omega

end State

/-- In every run of either server, up to any point: no loop waits while a registered client without
an armed edge has unread bytes, and every chunk has its NUL inside the buffer, exactly if every
`read` from a client found fewer than `BUFFER_SIZE` bytes. -/
theorem reads_everything_iff (c : Config) (as : List (Action c)) :
    (server c).EveryStep (fun _ _ s' => s'.Drained ∧ s'.EndsInside) (State.start c) as ↔
      (server c).EveryStep (fun s a _ => s.TakesAll a) (State.start c) as := by
  constructor
  · refine TransitionSystem.EveryStep.transfer (I := fun _ => True) ?_ trivial
    rintro s a s' - hs ⟨-, hends⟩
    exact ⟨State.takesAll_of_endsInside hs hends, trivial⟩
  · refine TransitionSystem.EveryStep.transfer (I := fun s => s.Watched ∧ s.EndsInside) ?_
      ⟨State.watched_start, by rintro _ ⟨⟩⟩
    rintro s a s' ⟨hi, hends⟩ hs hw
    have heffect := State.step_effect hs
    have hi' := heffect.watched hw hi
    have hends' := heffect.endsInside hw hends
    exact ⟨⟨hi'.drained, hends'⟩, hi', hends'⟩

namespace State

variable {s : State c}

/-- A byte that is left behind when a loop waits. -/
theorem not_drained {l : Fin c.loops} {f : Fd} {b : UInt8} (hloop : s.loops l = ⟨.wait, []⟩)
    (hsock : (s.socks f).map Sock.unread = some [b]) (hreg : s.reg l f = some false) :
    ¬s.Drained := by
  intro hdrained
  obtain ⟨v, hv, hunread⟩ := Option.map_eq_some_iff.mp hsock
  have hempty := hdrained l (by rw [hloop]) (by rw [hloop]) f v hv hreg
  rw [hempty] at hunread
  cases hunread

/-- A NUL behind the end of the buffer. -/
theorem not_endsInside (hends : s.ends = [bufferSize]) : ¬s.EndsInside := by
  intro hinside
  have hlt := hinside bufferSize (by rw [hends]; exact List.mem_singleton_self _)
  exact Nat.lt_irrefl _ hlt

end State

/-- A loop gets an event and looks at it. -/
def Action.takeEvent {c : Config} (l : Fin c.loops) (e : Source) : List (Action c) :=
  [.loop l (.event e), .loop l .ok, .loop l .ok]

/-- A client sends `BUFFER_SIZE + 1` bytes at once: one is left behind, and the NUL is written
behind the buffer. -/
theorem burst_left_behind :
    (∃ s, (server basicEpollServer).Reachable s ∧ ¬s.Drained ∧ ¬s.EndsInside) ∧
      ∃ s, (server epollMultithreadServer).Reachable s ∧ ¬s.Drained ∧ ¬s.EndsInside := by
  constructor
  · obtain ⟨s, hs, hp⟩ := (server basicEpollServer).exists_of_exec (s := State.start _)
      (List.flatten [Action.takeEvent ⟨0, by decide⟩ .listen,
        [.loop ⟨0, by decide⟩ (.accepted 5), .loop ⟨0, by decide⟩ .ok, .loop ⟨0, by decide⟩ .ok,
          .env (.data 5 (List.replicate (bufferSize + 1) 65))],
        Action.takeEvent ⟨0, by decide⟩ (.client 5),
          [.loop ⟨0, by decide⟩ .ok, .loop ⟨0, by decide⟩ .ok]])
      (fun s =>
        decide (s.loops ⟨0, by decide⟩ = ⟨.wait, []⟩ ∧ (s.socks 5).map Sock.unread = some [65] ∧
          s.reg ⟨0, by decide⟩ 5 = some false ∧ s.ends = [bufferSize])) rfl (by decide +kernel)
    obtain ⟨hloop, hsock, hreg, hends⟩ := of_decide_eq_true hp
    exact ⟨s, hs, State.not_drained hloop hsock hreg, State.not_endsInside hends⟩
  · obtain ⟨s, hs, hp⟩ := (server epollMultithreadServer).exists_of_exec (s := State.start _)
      (List.flatten [[.main (.accepted 5), .main .ok], Action.takeEvent ⟨0, by decide⟩ .pipe,
        [.loop ⟨0, by decide⟩ .ok, .loop ⟨0, by decide⟩ .ok, .loop ⟨0, by decide⟩ .ok,
          .env (.data 5 (List.replicate (bufferSize + 1) 65))],
        Action.takeEvent ⟨0, by decide⟩ (.client 5),
          [.loop ⟨0, by decide⟩ .ok, .loop ⟨0, by decide⟩ .ok]])
      (fun s =>
        decide (s.loops ⟨0, by decide⟩ = ⟨.wait, []⟩ ∧ (s.socks 5).map Sock.unread = some [65] ∧
          s.reg ⟨0, by decide⟩ 5 = some false ∧ s.ends = [bufferSize])) rfl (by decide +kernel)
    obtain ⟨hloop, hsock, hreg, hends⟩ := of_decide_eq_true hp
    exact ⟨s, hs, State.not_drained hloop hsock hreg, State.not_endsInside hends⟩

end DeepInIo.EpollServer
