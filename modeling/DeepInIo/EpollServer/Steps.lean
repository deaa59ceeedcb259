import DeepInIo.EpollServer.Server

/-!
# What a step of the epoll servers can do

`LoopStep`, `MainStep` and `EnvStep` list, for an event loop, for the main thread and for the
clients, what one step needs and what it leaves.  `step_spec` is the only place where the step
function is taken apart.
-/

namespace DeepInIo.EpollServer

variable {c : Config}

/-- A client that has just connected. -/
def Sock.fresh : Sock where
  unread := []
  peerClosed := false

namespace State

/-- Replace the contents of a pipe. -/
@[simps]
def setPipe (s : State c) (l : Fin c.loops) (fds : List Fd) : State c :=
  { s with pipes := Function.update s.pipes l fds }

/-- The main thread proceeds to another program point. -/
@[simps]
def setMain (s : State c) (pc : MainPc) : State c :=
  { s with main := pc }

/-- `current_worker = (current_worker + 1) % WORKER_COUNT` -/
@[simps]
def nextWorker (s : State c) : State c :=
  { s with currentWorker := (s.currentWorker + 1) % c.loops }

/-- What a step of the event loop `l` can do. -/
inductive LoopStep (s : State c) (l : Fin c.loops) : Result → State c → Prop
  /-- `epoll_wait` takes an event of the listening socket or of the pipe. -/
  | collect {e : Source} (hpc : (s.loops l).pc = .wait) (hnew : e ∉ (s.loops l).batch)
      (he : ∀ f, e ≠ .client f) :
      LoopStep s l (.event e) (s.setLoop l { s.loops l with batch := (s.loops l).batch ++ [e] })
  /-- `epoll_wait` takes the edge of a client. -/
  | collectClient {f : Fd} {v : Sock} (hpc : (s.loops l).pc = .wait)
      (hnew : .client f ∉ (s.loops l).batch) (hv : s.socks f = some v)
      (hreg : s.reg l f = some true) (hread : v.readable = true) :
      LoopStep s l (.event (.client f))
        ((s.setReg l f (some false)).setLoop l
          { s.loops l with batch := (s.loops l).batch ++ [.client f] })
  | drop {f : Fd} {v : Sock} (hpc : (s.loops l).pc = .wait) (hv : s.socks f = some v)
      (hreg : s.reg l f = some true) : LoopStep s l (.drop f) (s.setReg l f (some false))
  | wake (hpc : (s.loops l).pc = .wait) (hb : (s.loops l).batch ≠ []) :
      LoopStep s l .ok (s.setPc l .next)
  | nextWait {r : Result} (hpc : (s.loops l).pc = .next) (hb : (s.loops l).batch = []) :
      LoopStep s l r (s.setPc l .wait)
  | nextListen {r : Result} {rest : List Source} (hpc : (s.loops l).pc = .next)
      (hb : (s.loops l).batch = .listen :: rest) :
        LoopStep s l r (s.setLoop l { pc := .accept, batch := rest })
  | nextPipe {r : Result} {rest : List Source} (hpc : (s.loops l).pc = .next)
      (hb : (s.loops l).batch = .pipe :: rest) :
        LoopStep s l r (s.setLoop l { pc := .readPipe, batch := rest })
  | nextClient {r : Result} {f : Fd} {rest : List Source} (hpc : (s.loops l).pc = .next)
      (hb : (s.loops l).batch = .client f :: rest) :
      LoopStep s l r (s.setLoop l { pc := .read f, batch := rest })
  | accepted {f : Fd} (hpc : (s.loops l).pc = .accept) (hfree : s.socks f = none) :
      LoopStep s l (.accepted f) ((s.setSock f (some Sock.fresh)).setPc l (.add f))
  | acceptFailed (hpc : (s.loops l).pc = .accept) : LoopStep s l .err (s.setPc l .next)
  | received {r : Result} {f : Fd} {rest : List Fd} (hpc : (s.loops l).pc = .readPipe)
      (hp : s.pipes l = f :: rest) :
      LoopStep s l r ((s.setPipe l rest).setPc l (.add f))
  | added {f : Fd} {v : Sock} (hpc : (s.loops l).pc = .add f) (hv : s.socks f = some v)
      (hreg : s.reg l f = none) :
      LoopStep s l .ok ((s.setReg l f (some v.readable)).setPc l .next)
  /-- `EPOLL_CTL_ADD` of a number that is not open or is registered already. -/
  | addRefused {f : Fd} (hpc : (s.loops l).pc = .add f)
      (hbad : s.socks f = none ∨ s.reg l f ≠ none) :
      LoopStep s l .ok (s.setPc l .next)
  | addFailed {f : Fd} (hpc : (s.loops l).pc = .add f) : LoopStep s l .err (s.setPc l .next)
  | took {f : Fd} {v : Sock} (hpc : (s.loops l).pc = .read f) (hv : s.socks f = some v)
      (hne : v.unread ≠ []) :
      LoopStep s l .ok (s.readChunk l f v)
  /-- `read` finds no byte. -/
  | nothing {f : Fd} (hpc : (s.loops l).pc = .read f)
      (hv : ∀ v, s.socks f = some v → v.unread = []) :
      LoopStep s l .ok (s.setPc l (.close f))
  | readFailed {f : Fd} (hpc : (s.loops l).pc = .read f) : LoopStep s l .err (s.setPc l (.close f))
  | closed {r : Result} {f : Fd} (hpc : (s.loops l).pc = .close f) :
      LoopStep s l r ((s.closeSock f).setPc l (.del f))
  | deleted {r : Result} {f : Fd} (hpc : (s.loops l).pc = .del f) :
      LoopStep s l r ((s.setReg l f none).setPc l .next)

/-- What a step of the main thread can do. -/
inductive MainStep (s : State c) : Result → State c → Prop
  | accepted {f : Fd} (hpc : s.main = .accept) (hfree : s.socks f = none) :
      MainStep s (.accepted f) ((s.setSock f (some Sock.fresh)).setMain (.write f))
  | failed (hpc : s.main = .accept) : MainStep s .err s
  | sent {r : Result} {f : Fd} (hpc : s.main = .write f) (h : s.currentWorker < c.loops) :
      MainStep s r
        (((s.setMain .accept).setPipe ⟨s.currentWorker, h⟩
          (s.pipes ⟨s.currentWorker, h⟩ ++ [f])).nextWorker)

/-- What a step of the clients can do. -/
inductive EnvStep (s : State c) : Environment → State c → Prop
  | data {f : Fd} {v : Sock} {bytes : List UInt8} (hv : s.socks f = some v) (hne : bytes ≠ [])
      (hopen : v.peerClosed = false) :
      EnvStep s (.data f bytes) ((s.setSock f (some { v with unread := v.unread ++ bytes })).arm f)
  | signalled {f : Fd} {v : Sock} (hv : s.socks f = some v) :
      EnvStep s (.peerClose f true) ((s.setSock f (some { v with peerClosed := true })).arm f)
  | silent {f : Fd} {v : Sock} (hv : s.socks f = some v) :
      EnvStep s (.peerClose f false) (s.setSock f (some { v with peerClosed := true }))

/-- What a step can do. -/
inductive Step (s : State c) : Action c → State c → Prop
  | loop {l : Fin c.loops} {r : Result} {s' : State c} (h : LoopStep s l r s') :
      Step s (.loop l r) s'
  | main {r : Result} {s' : State c} (haccepts : c.accepts = false) (h : MainStep s r s') :
      Step s (.main r) s'
  | env {e : Environment} {s' : State c} (h : EnvStep s e s') : Step s (.env e) s'

variable {s s' : State c}

/-- Collecting an event. -/
theorem collect_spec {l : Fin c.loops} {e : Source} (hpc : (s.loops l).pc = .wait)
    (hs : s.collect l e = some s') :
    LoopStep s l (.event e) s' := by
  unfold collect at hs
  split at hs
  · cases hs
  · next hroom =>
    have hnew : e ∉ (s.loops l).batch := fun hmem => hroom (.inl hmem)
    cases e with
    | listen =>
      simp only at hs
      split at hs
      · cases hs
        exact .collect hpc hnew (by rintro f ⟨⟩)
      · cases hs
    | pipe =>
      simp only at hs
      split at hs
      · cases hs
      · cases hs
        exact .collect hpc hnew (by rintro f ⟨⟩)
    | client f =>
      simp only at hs
      split at hs
      · next v hv hreg =>
        split at hs
        · next hread =>
          cases hs
          exact .collectClient hpc hnew hv hreg hread
        · cases hs
      · cases hs

/-- The head of the loop over the returned events. -/
theorem nextEvent_spec {l : Fin c.loops} {r : Result} (hpc : (s.loops l).pc = .next) :
    LoopStep s l r (s.nextEvent l) := by
  unfold nextEvent
  split
  · next hb => exact .nextWait hpc hb
  · next rest hb => exact .nextListen hpc hb
  · next rest hb => exact .nextPipe hpc hb
  · next f rest hb => exact .nextClient hpc hb

/-- `accept` returns a number that was free. -/
theorem acceptSock_spec {f : Fd} (hs : s.acceptSock f = some s') :
    s.socks f = none ∧ s' = s.setSock f (some Sock.fresh) := by
  unfold acceptSock at hs
  split at hs
  · next hfree =>
    cases hs
    exact ⟨Option.isNone_iff_eq_none.mp hfree, rfl⟩
  · cases hs

/-- `EPOLL_CTL_ADD` -/
theorem addConn_spec {l : Fin c.loops} {f : Fd} (hpc : (s.loops l).pc = .add f) :
    LoopStep s l .ok (s.addConn l f) := by
  unfold addConn
  split
  · next v hv hreg => exact .added hpc hv hreg
  · next hbad =>
    apply LoopStep.addRefused hpc
    by_contra hgood
    rw [not_or, not_not] at hgood
    obtain ⟨v, hv⟩ := Option.ne_none_iff_exists'.mp hgood.1
    exact hbad v hv hgood.2

/-- `read` from a client. -/
theorem readClient_spec {l : Fin c.loops} {f : Fd} {r : Result} (hpc : (s.loops l).pc = .read f)
    (hs : s.readClient l f r = some s') : LoopStep s l r s' := by
  cases r with
  | ok =>
    simp only [readClient] at hs
    split at hs
    · next v hv =>
      split at hs
      · next hempty =>
        cases hs
        apply LoopStep.nothing hpc
        intro v' hv'
        cases hv.symm.trans hv'
        exact hempty
      · next hne =>
        cases hs
        exact .took hpc hv hne
    · next hv =>
      cases hs
      apply LoopStep.nothing hpc
      intro v hv'
      cases hv.symm.trans hv'
  | err =>
    cases hs
    exact .readFailed hpc
  | event | drop | accepted => cases hs

/-- A step of an event loop. -/
theorem loopStep_spec {l : Fin c.loops} {r : Result} (hs : s.loopStep l r = some s') :
    LoopStep s l r s' := by
  unfold loopStep at hs
  cases hpc : (s.loops l).pc with
  | wait =>
    rw [hpc] at hs
    cases r with
    | ok =>
      simp only at hs
      split at hs
      · cases hs
      · next hb =>
        cases hs
        exact .wake hpc hb
    | event e => exact collect_spec hpc hs
    | drop f =>
      simp only [dropEdge] at hs
      split at hs
      · next v hv hreg =>
        split at hs
        · cases hs
        · cases hs
          exact .drop hpc hv hreg
      · cases hs
    | err | accepted => cases hs
  | next =>
    rw [hpc] at hs
    cases hs
    exact nextEvent_spec hpc
  | accept =>
    rw [hpc] at hs
    cases r with
    | accepted f =>
      obtain ⟨s₁, hs₁, rfl⟩ := Option.map_eq_some_iff.mp hs
      obtain ⟨hfree, rfl⟩ := acceptSock_spec hs₁
      exact .accepted hpc hfree
    | err =>
      cases hs
      exact .acceptFailed hpc
    | ok | event | drop => cases hs
  | readPipe =>
    rw [hpc] at hs
    simp only at hs
    split at hs
    · cases hs
    · next hp =>
      cases hs
      exact .received hpc hp
  | add f =>
    rw [hpc] at hs
    cases r with
    | ok =>
      cases hs
      exact addConn_spec hpc
    | err =>
      cases hs
      exact .addFailed hpc
    | event | drop | accepted => cases hs
  | read f =>
    rw [hpc] at hs
    exact readClient_spec hpc hs
  | close f =>
    rw [hpc] at hs
    cases hs
    exact .closed hpc
  | del f =>
    rw [hpc] at hs
    cases hs
    exact .deleted hpc

/-- A step of the main thread. -/
theorem mainStep_spec {r : Result} (hs : s.mainStep r = some s') :
    c.accepts = false ∧ MainStep s r s' := by
  unfold mainStep at hs
  split at hs
  · cases hs
  · next haccepts =>
    refine ⟨Bool.eq_false_iff.mpr haccepts, ?_⟩
    cases hpc : s.main with
    | accept =>
      rw [hpc] at hs
      cases r with
      | accepted f =>
        obtain ⟨s₁, hs₁, rfl⟩ := Option.map_eq_some_iff.mp hs
        obtain ⟨hfree, rfl⟩ := acceptSock_spec hs₁
        exact .accepted hpc hfree
      | err =>
        cases hs
        exact .failed hpc
      | ok | event | drop => cases hs
    | write f =>
      rw [hpc] at hs
      simp only at hs
      split at hs
      · next h =>
        cases hs
        exact .sent hpc h
      · cases hs

/-- A step of the clients. -/
theorem envStep_spec {e : Environment} (hs : s.envStep e = some s') : EnvStep s e s' := by
  cases e with
  | data f bytes =>
    simp only [envStep] at hs
    split at hs
    · next v hv =>
      split at hs
      · cases hs
      · next hgood =>
        cases hs
        rw [not_or, Bool.not_eq_true] at hgood
        exact .data hv hgood.1 hgood.2
    · cases hs
  | peerClose f signalled =>
    simp only [envStep] at hs
    split at hs
    · next v hv =>
      cases signalled with
      | true =>
        cases hs
        exact .signalled hv
      | false =>
        cases hs
        exact .silent hv
    · cases hs

/-- Every step is one of these. -/
theorem step_spec {a : Action c} (hs : (server c).step s a = some s') : Step s a s' := by
  cases a with
  | loop l r => exact .loop (loopStep_spec hs)
  | main r =>
    obtain ⟨haccepts, h⟩ := mainStep_spec hs
    exact .main haccepts h
  | env e => exact .env (envStep_spec hs)

end State

end DeepInIo.EpollServer
