import DeepInIo.ReactorServer.Server

/-!
# What a step of the reactor server can do

The relations say for each thread what its steps can do to the state; `mainStep_spec`, `ioStep_spec`
and `envStep_spec` are the only place where the step functions are taken apart.
-/

namespace DeepInIo.ReactorServer

open State

variable {n : ℕ}

/-- The steps of an IO thread that only change its program point. -/
inductive IoMove (s : State n) (t : Fin n) : IoPc → IoPc → Prop
  | returned : IoMove s t .wait .next
  | batchDone (h : (s.io t).batch = []) : IoMove s t .next .wait
  | readClose (e : Event) : IoMove s t (.rdRead e) (.clClose e)
  | readAgain (e : Event) : IoMove s t (.rdRead e) (.wrGet e)
  | noBuffer (e : Event) : IoMove s t (.wrGet e) .next
  | buffer (e : Event) (out : List UInt8) (h : connMapGet (s.io t).connMap e.fd = some out) :
      IoMove s t (.wrGet e) (.wrWrite e out)
  | writeAgain (e : Event) (out : List UInt8) : IoMove s t (.wrWrite e out) .next
  | writeErr (e : Event) (out : List UInt8) : IoMove s t (.wrWrite e out) (.wrClose e)

/-- What a step of the IO thread `t` can do. -/
inductive IoStep (s : State n) (t : Fin n) : State n → Prop
  | move {pc' : IoPc} (h : IoMove s t (s.io t).pc pc') : IoStep s t (s.setIoPc t pc')
  | collect {e : Event} {mask : EpollMask} (hpc : (s.io t).pc = .wait)
      (hr : s.kernel.reg t e.fd = some mask) (hnew : ∀ e' ∈ (s.io t).batch, e'.fd ≠ e.fd) :
      IoStep s t (s.setIo t { s.io t with batch := (s.io t).batch ++ [e] })
  | nextRead {e : Event} {rest : List Event} (hpc : (s.io t).pc = .next)
      (hb : (s.io t).batch = e :: rest) :
      IoStep s t (s.setIo t { s.io t with pc := .rdRead e, batch := rest })
  | nextWrite {e : Event} {rest : List Event} (hpc : (s.io t).pc = .next)
      (hb : (s.io t).batch = e :: rest) :
      IoStep s t (s.setIo t { s.io t with pc := .wrGet e, batch := rest })
  | readData {e : Event} {len : ℕ} {data : List UInt8} {k : Kernel n}
      (hpc : (s.io t).pc = .rdRead e) (hk : s.kernel.readBytes e.fd len = some (data, k)) :
        IoStep s t (s.readData t e data k)
  | store {e : Event} {buffer : List UInt8} (hpc : (s.io t).pc = .rdAdd e buffer) :
      IoStep s t ((s.setQueue (s.queue.globalQueueAddTask e.fd buffer).1).setIoPc t (.rdRead e))
  | close {e : Event} (hpc : (s.io t).pc = .clClose e) :
      IoStep s t ((s.setKernel (s.kernel.close e.fd)).setIoPc t (.clDel e))
  | del {e : Event} (hpc : (s.io t).pc = .clDel e) :
      IoStep s t ((s.setKernel (s.kernel.epollDel t e.fd)).setIoPc t (.clRemove e))
  | remove {e : Event} (hpc : (s.io t).pc = .clRemove e) :
      IoStep s t (s.removeBuffer t e (.wrGet e))
  | wrote {e : Event} {out : List UInt8} {len : ℕ} {k : Kernel n}
      (hpc : (s.io t).pc = .wrWrite e out) (hk : s.kernel.writeBytes e.fd out len = some k) :
      IoStep s t ((s.setKernel k).setIoPc t (.wrMod e))
  | mod {e : Event} (hpc : (s.io t).pc = .wrMod e) :
      IoStep s t
        ((s.setKernel (s.kernel.epollMod t e.fd { epollin := true, epollout := false })).setIoPc t
          (.wrRemove e))
  | wrRemove {e : Event} (hpc : (s.io t).pc = .wrRemove e) : IoStep s t (s.removeBuffer t e .next)
  | wrClose {e : Event} (hpc : (s.io t).pc = .wrClose e) :
      IoStep s t ((s.setKernel (s.kernel.close e.fd)).setIoPc t (.wrRemove e))

/-- The step function of the IO thread does only what `IoStep` says. -/
theorem ioStep_spec {s s' : State n} {t : Fin n} {r : IoResult} (h : s.ioStep t r = some s') :
    IoStep s t s' := by
  cases hpc : (s.io t).pc <;> simp only [ioStep, hpc] at h
  case wait =>
    cases r with
    | ok => cases h; exact .move (hpc ▸ .returned)
    | event e =>
      dsimp only at h
      split at h
      · rw [State.collect] at h
        split at h
        · cases h
        · next mask hr =>
          split at h
          · next hc => cases h; exact .collect hpc hr hc.2.2
          · cases h
      · cases h
    | _ => cases h
  case next =>
    cases h
    unfold nextEvent
    split
    · next hb => exact .move (hpc ▸ .batchDone hb)
    · next e rest hb =>
      split
      · exact .nextRead hpc hb
      · exact .nextWrite hpc hb
  case rdRead e =>
    cases r <;> simp only [readStep, reduceCtorEq] at h
    case got len =>
      obtain ⟨p, hp, rfl⟩ := Option.map_eq_some_iff.mp h
      exact .readData hpc hp
    case eof => split at h <;> cases h; exact .move (hpc ▸ .readClose e)
    case again => split at h <;> cases h; exact .move (hpc ▸ .readAgain e)
    case err => cases h; exact .move (hpc ▸ .readClose e)
  case rdAdd e buffer => cases h; exact .store hpc
  case clClose e => cases h; exact .close hpc
  case clDel e => cases h; exact .del hpc
  case clRemove e => cases h; exact .remove hpc
  case wrGet e =>
    cases h
    unfold getBuffer
    split
    · split
      · next out ho => exact .move (hpc ▸ .buffer e out ho)
      · exact .move (hpc ▸ .noBuffer e)
    · exact .move (hpc ▸ .noBuffer e)
  case wrWrite e out =>
    cases r <;> simp only [writeStep, reduceCtorEq] at h
    case wrote len =>
      obtain ⟨k, hk, rfl⟩ := Option.map_eq_some_iff.mp h
      exact .wrote hpc hk
    case again => cases h; exact .move (hpc ▸ .writeAgain e out)
    case err => cases h; exact .move (hpc ▸ .writeErr e out)
  case wrMod e => cases h; exact .mod hpc
  case wrRemove e => cases h; exact .wrRemove hpc
  case wrClose e => cases h; exact .wrClose hpc

/-- What a step of the main thread can do. -/
inductive MainStep (s : State n) : State n → Prop
  | accept {f : Fd} (hpc : s.main = .accept) (hf : s.kernel.fds f = none) :
      MainStep s ((s.setKernel { s.kernel with
        fds := Function.update s.kernel.fds f (some (.client s.kernel.nextSock))
        socks := Function.update s.kernel.socks s.kernel.nextSock ⟨[], false, []⟩
        nextSock := s.kernel.nextSock + 1 }).setMain (.dispatch f s.kernel.nextSock))
  | acceptFailed (hpc : s.main = .accept) : MainStep s s
  | dispatch {f : Fd} {sk : SockId} {t : Fin n} (hpc : s.main = .dispatch f sk)
      (ht : dispatchTarget n s.current = some t) :
      MainStep s { s with current := s.current + 1, main := .add t f sk }
  | add {t : Fin n} {f : Fd} {sk : SockId} (hpc : s.main = .add t f sk)
      (hopen : (s.kernel.fds f).isSome) (hnew : s.kernel.reg t f = none) :
      MainStep s { s with
        kernel := s.kernel.setReg t f (some { epollin := true, epollout := false })
        main := .accept
        added := Function.update s.added sk (some t) }
  | addFailed {t : Fin n} {f : Fd} {sk : SockId} (hpc : s.main = .add t f sk) :
      MainStep s (s.setMain (.addFailed f sk))
  | close {f : Fd} {sk : SockId} (hpc : s.main = .addFailed f sk) :
      MainStep s ((s.setKernel (s.kernel.close f)).setMain .accept)

/-- The step function of the main thread does only what `MainStep` says. -/
theorem mainStep_spec {s s' : State n} {r : MainResult} (h : s.mainStep r = some s') :
    MainStep s s' := by
  cases hpc : s.main <;> simp only [mainStep, hpc] at h
  case accept =>
    cases r with
    | accepted f =>
      simp only [acceptSocket, Option.isNone_iff_eq_none] at h
      split at h
      · next hf => cases h; exact .accept hpc hf
      · cases h
    | fail => cases h; exact .acceptFailed hpc
    | ok => cases h
  case dispatch f sk =>
    obtain ⟨t, ht, rfl⟩ := Option.map_eq_some_iff.mp h
    exact .dispatch hpc ht
  case add t f sk =>
    cases r with
    | ok =>
      cases h
      unfold addConn
      split
      · exact .addFailed hpc
      · next k hk =>
        simp only [Kernel.epollAdd, Bool.and_eq_true, Option.isNone_iff_eq_none] at hk
        split at hk
        · next hc => cases hk; exact .add hpc hc.1 hc.2
        · cases hk
    | fail => cases h; exact .addFailed hpc
    | accepted f => cases h
  case addFailed f sk => cases h; exact .close hpc

/-- What a step of the clients can do. -/
inductive EnvStep (s : State n) : State n → Prop
  | sock (sk : SockId) (v : Sock) : EnvStep s (s.setKernel (s.kernel.setSock sk v))

/-- The clients do only what `EnvStep` says. -/
theorem envStep_spec {s s' : State n} {e : Environment} (h : s.envStep e = some s') :
    EnvStep s s' := by
  cases e <;> simp only [envStep] at h <;> split at h <;> cases h <;> exact .sock _ _

end DeepInIo.ReactorServer
