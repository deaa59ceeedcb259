import DeepInIo.KqueueServer.Server
import Mathlib.Data.List.Nodup

/-!
# What a step of the kqueue server can do

`LoopStep` and `EnvStep` list what one step of the server and of the clients needs and what it
leaves.  `Sound` is the invariant of the event loop: its events and its program point concern
clients that are open and registered, and these are readable until it has read them.  Since there is
only one thread, a number that was closed cannot be in use again at the `EV_DELETE`.
-/

namespace DeepInIo.KqueueServer

variable {n : ℕ}

namespace State

/-- What a step of the event loop can do. -/
inductive LoopStep (s : State n) : Result n → State n → Prop
  | kevent {es : List (Ident n)} (hpc : s.pc = .wait) (hne : es ≠ []) (hnodup : es.Nodup)
      (hready : ∀ e ∈ es, s.ready e = true) :
        LoopStep s (.events es) { s with pc := .next, batch := es }
  | keventFailed (hpc : s.pc = .wait) : LoopStep s .err (s.setPc .stopped)
  | nextWait {r : Result n} (hpc : s.pc = .next) (hb : s.batch = []) : LoopStep s r (s.setPc .wait)
  | nextListen {r : Result n} {rest : List (Ident n)} (hpc : s.pc = .next)
      (hb : s.batch = .listen :: rest) :
      LoopStep s r { s with pc := .accept, batch := rest }
  | nextClient {r : Result n} {f : Fin n} {rest : List (Ident n)} (hpc : s.pc = .next)
      (hb : s.batch = .client f :: rest) : LoopStep s r { s with pc := .read f, batch := rest }
  | accepted {f : Fin n} {v : Sock} {rest : List Sock} (hpc : s.pc = .accept)
      (hb : s.backlog = v :: rest) (hfree : s.socks f = none) :
      LoopStep s (.accepted f)
        (({ s with backlog := rest }.setSock f (some v)).setPc (.register (some f)))
  | acceptFailed (hpc : s.pc = .accept) : LoopStep s .err (s.setPc (.register none))
  | aborted (hpc : s.pc = .accept) :
      LoopStep s .aborted ({ s with backlog := s.backlog.tail }.setPc (.register none))
  | registered {f : Fin n} (hpc : s.pc = .register (some f)) :
      LoopStep s .ok ((s.setFilter f true).setPc .next)
  | notRegistered {r : Result n} {connFd : Option (Fin n)} (hpc : s.pc = .register connFd)
      (hr : r = .err ∨ r = .ok ∧ connFd = none) : LoopStep s r (s.setPc .next)
  | took {f : Fin n} {v : Sock} (hpc : s.pc = .read f) (hv : s.socks f = some v)
      (hne : v.unread ≠ []) :
      LoopStep s .ok
        ((s.setSock f (some { v with unread := v.unread.drop bufferSize })).setPc .next)
  | nothing {f : Fin n} (hpc : s.pc = .read f) (hv : ∀ v, s.socks f = some v → v.unread = []) :
      LoopStep s .ok (s.setPc (.close f))
  | readFailed {f : Fin n} (hpc : s.pc = .read f) : LoopStep s .err (s.setPc (.close f))
  | closed {r : Result n} {f : Fin n} (hpc : s.pc = .close f) :
      LoopStep s r ((s.closeSock f).setPc (.del f))
  | deleted {r : Result n} {f : Fin n} (hpc : s.pc = .del f) :
      LoopStep s r ((s.setFilter f false).setPc .next)

/-- What a step of the clients can do. -/
inductive EnvStep (s : State n) : Environment n → State n → Prop
  | connect : EnvStep s .connect { s with backlog := s.backlog ++ [Sock.fresh] }
  | data {f : Fin n} {v : Sock} {bytes : List UInt8} (hv : s.socks f = some v) (hne : bytes ≠ [])
      (hopen : v.peerClosed = false) :
        EnvStep s (.data f bytes) (s.setSock f (some (v.arrive bytes)))
  | peerClose {f : Fin n} {v : Sock} (hv : s.socks f = some v) :
      EnvStep s (.peerClose f) (s.setSock f (some v.shut))
  | early {i : ℕ} {v : Sock} {bytes : List UInt8} (hv : s.backlog[i]? = some v) (hne : bytes ≠ [])
      (hopen : v.peerClosed = false) :
      EnvStep s (.early i bytes) { s with backlog := s.backlog.set i (v.arrive bytes) }
  | earlyClose {i : ℕ} {v : Sock} (hv : s.backlog[i]? = some v) :
      EnvStep s (.earlyClose i) { s with backlog := s.backlog.set i v.shut }

/-- What a step can do. -/
inductive Step (s : State n) : Action n → State n → Prop
  | loop {r : Result n} {s' : State n} (h : LoopStep s r s') : Step s (.loop r) s'
  | env {e : Environment n} {s' : State n} (h : EnvStep s e s') : Step s (.env e) s'

variable {s s' : State n} {r : Result n} {a : Action n} {f : Fin n}

/-- `accept` -/
theorem acceptConn_spec (hpc : s.pc = .accept) (hs : s.acceptConn r = some s') :
    LoopStep s r s' := by
  cases r with
  | accepted f =>
    simp only [acceptConn] at hs
    split at hs
    · next v rest hb =>
      split at hs
      · next hfree =>
        cases hs
        exact .accepted hpc hb (Option.isNone_iff_eq_none.mp hfree)
      · cases hs
    · cases hs
  | err =>
    cases hs
    exact .acceptFailed hpc
  | aborted =>
    cases hs
    exact .aborted hpc
  | ok | events => cases hs

/-- `EV_ADD` -/
theorem addFilter_spec {connFd : Option (Fin n)} (hpc : s.pc = .register connFd)
    (hs : s.addFilter connFd r = some s') : LoopStep s r s' := by
  cases r with
  | ok =>
    cases connFd with
    | some f =>
      cases hs
      exact .registered hpc
    | none =>
      cases hs
      exact .notRegistered hpc (.inr ⟨rfl, rfl⟩)
  | err =>
    cases hs
    exact .notRegistered hpc (.inl rfl)
  | aborted | events | accepted => cases hs

/-- `read` -/
theorem readClient_spec (hpc : s.pc = .read f) (hs : s.readClient f r = some s') :
    LoopStep s r s' := by
  cases r with
  | ok =>
    simp only [readClient] at hs
    split at hs
    · next v hv =>
      split at hs
      · next hempty =>
        cases hs
        apply LoopStep.nothing hpc
        intro v' hv'
        cases hv.symm.trans hv'
        exact hempty
      · next hne =>
        cases hs
        exact .took hpc hv hne
    · next hv =>
      cases hs
      apply LoopStep.nothing hpc
      intro v hv'
      cases hv.symm.trans hv'
  | err =>
    cases hs
    exact .readFailed hpc
  | aborted | events | accepted => cases hs

/-- A step of the event loop. -/
theorem loopStep_spec (hs : s.loopStep r = some s') : LoopStep s r s' := by
  unfold loopStep at hs
  cases hpc : s.pc with
  | wait =>
    rw [hpc] at hs
    cases r with
    | events es =>
      simp only [State.kevent] at hs
      split at hs
      · next h =>
        cases hs
        exact .kevent hpc h.1 h.2.1 h.2.2.2
      · cases hs
    | err =>
      cases hs
      exact .keventFailed hpc
    | ok | aborted | accepted => cases hs
  | next =>
    rw [hpc] at hs
    cases hs
    unfold nextEvent
    split
    · next hb => exact .nextWait hpc hb
    · next rest hb => exact .nextListen hpc hb
    · next f rest hb => exact .nextClient hpc hb
  | accept =>
    rw [hpc] at hs
    exact acceptConn_spec hpc hs
  | register connFd =>
    rw [hpc] at hs
    exact addFilter_spec hpc hs
  | read f =>
    rw [hpc] at hs
    exact readClient_spec hpc hs
  | close f =>
    rw [hpc] at hs
    cases hs
    exact .closed hpc
  | del f =>
    rw [hpc] at hs
    cases hs
    exact .deleted hpc
  | stopped =>
    rw [hpc] at hs
    cases hs

/-- A step of the clients. -/
theorem envStep_spec {e : Environment n} (hs : s.envStep e = some s') : EnvStep s e s' := by
  cases e with
  | connect =>
    cases hs
    exact .connect
  | data f bytes =>
    simp only [envStep] at hs
    split at hs
    · next v hv =>
      split at hs
      · cases hs
      · next hgood =>
        cases hs
        rw [not_or, Bool.not_eq_true] at hgood
        exact .data hv hgood.1 hgood.2
    · cases hs
  | peerClose f =>
    simp only [envStep] at hs
    split at hs
    · next v hv =>
      cases hs
      exact .peerClose hv
    · cases hs
  | early i bytes =>
    simp only [envStep] at hs
    split at hs
    · next v hv =>
      split at hs
      · cases hs
      · next hgood =>
        cases hs
        rw [not_or, Bool.not_eq_true] at hgood
        exact .early hv hgood.1 hgood.2
    · cases hs
  | earlyClose i =>
    simp only [envStep] at hs
    split at hs
    · next v hv =>
      cases hs
      exact .earlyClose hv
    · cases hs

/-- Every step is one of these. -/
theorem step_spec (hs : (server n).step s a = some s') : Step s a s' := by
  cases a with
  | loop r => exact .loop (loopStep_spec hs)
  | env e => exact .env (envStep_spec hs)

/-! ### The invariant -/

/-- What the events and the program point of the loop say about the clients. -/
structure Sound (s : State n) : Prop where
  filterOpen : ∀ f, s.filters f = true → s.socks f ≠ none
  batchNodup : s.batch.Nodup
  /-- What an event has reported still holds. -/
  batchReady : ∀ e ∈ s.batch, s.ready e = true
  wait : s.pc = .wait → s.batch = []
  accept : s.pc = .accept → .listen ∉ s.batch ∧ s.backlog ≠ []
  register : ∀ f, s.pc = .register (some f) → s.socks f ≠ none ∧ s.filters f = false
  read : ∀ f, s.pc = .read f → .client f ∉ s.batch ∧ s.ready (.client f) = true
  close : ∀ f, s.pc = .close f → .client f ∉ s.batch ∧ s.socks f ≠ none
  del : ∀ f, s.pc = .del f → s.socks f = none

/-- A client is ready when it is registered and readable. -/
theorem ready_client :
    s.ready (.client f) = true ↔ s.filters f = true ∧ ∃ v, s.socks f = some v ∧
      v.readable = true := by
  rw [ready, Bool.and_eq_true, Option.any_eq_true]

/-- The listening socket is ready when a connection waits. -/
theorem ready_listen : s.ready .listen = true ↔ s.backlog ≠ [] := by
  simp [ready]

namespace Sound

theorem start : (State.start n).Sound where
  filterOpen := by rintro f ⟨⟩
  batchNodup := List.nodup_nil
  batchReady := by rintro e ⟨⟩
  wait _ := rfl
  accept := by rintro ⟨⟩
  register := by rintro f ⟨⟩
  read := by rintro f ⟨⟩
  close := by rintro f ⟨⟩
  del := by rintro f ⟨⟩

/-- More has arrived. -/
theorem arrive (h : s.Sound) (hfilters : s'.filters = s.filters) (hpc : s'.pc = s.pc)
    (hbatch : s'.batch = s.batch) (hsocks : ∀ f, s'.socks f = none ↔ s.socks f = none)
    (hready : ∀ e, s.ready e = true → s'.ready e = true)
    (hbacklog : s.backlog ≠ [] → s'.backlog ≠ []) : s'.Sound := by
  refine ⟨?_, ?_, ?_, ?_, ?_, ?_, ?_, ?_, ?_⟩
  · intro f hf
    rw [Ne, hsocks]
    exact h.filterOpen f (hfilters ▸ hf)
  · rw [hbatch]
    exact h.batchNodup
  · intro e he
    exact hready e (h.batchReady e (hbatch ▸ he))
  · intro hw
    rw [hbatch]
    exact h.wait (hpc ▸ hw)
  · intro ha
    obtain ⟨hnot, hne⟩ := h.accept (hpc ▸ ha)
    rw [hbatch]
    exact ⟨hnot, hbacklog hne⟩
  · intro f hr
    rw [Ne, hsocks, hfilters]
    exact h.register f (hpc ▸ hr)
  · intro f hr
    obtain ⟨hnot, hf⟩ := h.read f (hpc ▸ hr)
    rw [hbatch]
    exact ⟨hnot, hready _ hf⟩
  · intro f hc
    obtain ⟨hnot, hf⟩ := h.close f (hpc ▸ hc)
    rw [hbatch, Ne, hsocks]
    exact ⟨hnot, hf⟩
  · intro f hd
    rw [hsocks]
    exact h.del f (hpc ▸ hd)

/-- A step of the clients. -/
theorem envStep {e : Environment n} (h : s.Sound) (hs : EnvStep s e s') : s'.Sound := by
  have hset : ∀ {f : Fin n} {v v' : Sock}, s.socks f = some v →
      (v.readable = true → v'.readable = true) → (s.setSock f (some v')).Sound := by
    intro f v v' hv himp
    refine h.arrive rfl rfl rfl (fun f' => ?_) (fun e he => ?_) fun hne => hne
    · by_cases hf : f' = f
      · subst hf
        simp [hv]
      · simp [hf]
    · cases e with
      | listen => exact he
      | client f' =>
        rw [ready_client] at he ⊢
        obtain ⟨hfilter, v'', hv'', hread⟩ := he
        refine ⟨hfilter, ?_⟩
        by_cases hf : f' = f
        · subst hf
          cases hv.symm.trans hv''
          exact ⟨v', by simp, himp hread⟩
        · exact ⟨v'', by simpa [hf] using hv'', hread⟩
  have hqueue : ∀ {q : List Sock}, q ≠ [] → ({ s with backlog := q } : State n).Sound := by
    intro q hq
    refine h.arrive rfl rfl rfl (fun _ => Iff.rfl) (fun e he => ?_) fun _ => hq
    cases e with
    | listen =>
      rw [ready_listen]
      exact hq
    | client f => exact he
  cases hs with
  | connect => exact hqueue (by simp)
  | data hv hne hopen =>
    apply hset hv
    simp [Sock.readable, Sock.arrive, hne]
  | peerClose hv =>
    apply hset hv
    simp [Sock.readable, Sock.shut]
  | early hv hne hopen =>
    apply hqueue
    rintro hnil
    rw [List.set_eq_nil_iff] at hnil
    rw [hnil] at hv
    cases hv
  | earlyClose hv =>
    apply hqueue
    rintro hnil
    rw [List.set_eq_nil_iff] at hnil
    rw [hnil] at hv
    cases hv

/-- The readiness of a client does not depend on the queue, the program point and the other
clients. -/
theorem ready_congr (hsocks : s'.socks f = s.socks f) (hfilters : s'.filters f = s.filters f) :
    s'.ready (.client f) = s.ready (.client f) := by
  rw [ready, ready, hsocks, hfilters]

/-- A client that has an event is registered. -/
theorem filter_of_mem (h : s.Sound) (hmem : .client f ∈ s.batch) : s.filters f = true :=
  (ready_client.mp (h.batchReady _ hmem)).1

/-- The server proceeds to the head of the loop; the clients that have an event are left alone. -/
theorem toNext (h : s.Sound) (hpc : s'.pc = .next) (hbatch : s'.batch = s.batch)
    (hopen : ∀ f, s'.filters f = true → s'.socks f ≠ none) (hbacklog : s'.backlog = s.backlog)
    (hother : ∀ f, .client f ∈ s.batch → s'.socks f = s.socks f ∧ s'.filters f = s.filters f) :
    s'.Sound := by
  refine ⟨hopen, hbatch ▸ h.batchNodup, ?_, ?_, ?_, ?_, ?_, ?_, ?_⟩
  · intro e he
    rw [hbatch] at he
    have hready := h.batchReady e he
    cases e with
    | listen =>
      rw [ready_listen] at hready ⊢
      rwa [hbacklog]
    | client f => rwa [ready_congr (hother f he).1 (hother f he).2]
  all_goals rw [hpc]
  · rintro ⟨⟩
  · rintro ⟨⟩
  all_goals rintro f ⟨⟩

/-- A client from which no byte was read is going to be closed. -/
theorem toClose (h : s.Sound) (hpc : s.pc = .read f) : (s.setPc (.close f)).Sound := by
  obtain ⟨hnot, hready⟩ := h.read f hpc
  refine ⟨h.filterOpen, h.batchNodup, h.batchReady, by rintro ⟨⟩, by rintro ⟨⟩, by rintro f ⟨⟩,
    by rintro f ⟨⟩, ?_, by rintro f ⟨⟩⟩
  rintro f' ⟨⟩
  exact ⟨hnot, h.filterOpen f (ready_client.mp hready).1⟩

/-- A step of the event loop. -/
theorem loopStep (h : s.Sound) (hs : LoopStep s r s') : s'.Sound := by
  cases hs with
  | kevent hpc hne hnodup hready =>
    exact ⟨h.filterOpen, hnodup, hready, by rintro ⟨⟩, by rintro ⟨⟩, by rintro f ⟨⟩, by rintro f ⟨⟩,
      by rintro f ⟨⟩, by rintro f ⟨⟩⟩
  | keventFailed hpc =>
    exact ⟨h.filterOpen, h.batchNodup, h.batchReady, by rintro ⟨⟩, by rintro ⟨⟩, by rintro f ⟨⟩,
      by rintro f ⟨⟩, by rintro f ⟨⟩, by rintro f ⟨⟩⟩
  | nextWait hpc hb =>
    exact ⟨h.filterOpen, h.batchNodup, h.batchReady, fun _ => hb, by rintro ⟨⟩, by rintro f ⟨⟩,
      by rintro f ⟨⟩, by rintro f ⟨⟩, by rintro f ⟨⟩⟩
  | nextListen hpc hb =>
    have hnodup := h.batchNodup
    have hready := h.batchReady
    rw [hb] at hnodup hready
    rw [List.nodup_cons] at hnodup
    refine ⟨h.filterOpen, hnodup.2, fun e he => hready e (List.mem_cons_of_mem _ he), by rintro ⟨⟩,
      fun _ => ⟨hnodup.1, ?_⟩, by rintro f ⟨⟩, by rintro f ⟨⟩, by rintro f ⟨⟩, by rintro f ⟨⟩⟩
    exact ready_listen.mp (hready _ List.mem_cons_self)
  | @nextClient _ f rest hpc hb =>
    have hnodup := h.batchNodup
    have hready := h.batchReady
    rw [hb] at hnodup hready
    rw [List.nodup_cons] at hnodup
    refine ⟨h.filterOpen, hnodup.2, fun e he => hready e (List.mem_cons_of_mem _ he), by rintro ⟨⟩,
      by rintro ⟨⟩, by rintro f ⟨⟩, ?_, by rintro f ⟨⟩, by rintro f ⟨⟩⟩
    rintro f' ⟨⟩
    exact ⟨hnodup.1, hready _ List.mem_cons_self⟩
  | @accepted f v rest hpc hb hfree =>
    -- the number is free, so that no filter and no event belongs to it
    have hfilter : s.filters f = false := by
      by_contra hf
      exact h.filterOpen f (Bool.not_eq_false _ ▸ hf) hfree
    refine ⟨?_, h.batchNodup, ?_, by rintro ⟨⟩, by rintro ⟨⟩, ?_, by rintro f ⟨⟩, by rintro f ⟨⟩,
      by rintro f ⟨⟩⟩
    · intro f' hf'
      rw [setPc_socks, setSock_socks]
      by_cases hf : f' = f
      · subst hf
        simp
      · rw [Function.update_of_ne hf]
        exact h.filterOpen f' hf'
    · intro e he
      cases e with
      | listen => exact absurd he (h.accept hpc).1
      | client f' =>
        have hf : f' ≠ f := by
          rintro rfl
          rw [h.filter_of_mem he] at hfilter
          cases hfilter
        have hsame :
            (({ s with backlog := rest }.setSock f (some v)).setPc (.register (some f))).socks f' =
              s.socks f' :=
          Function.update_of_ne hf ..
        rw [ready_congr hsame rfl]
        exact h.batchReady _ he
    · rintro f' ⟨⟩
      exact ⟨by simp, hfilter⟩
  | acceptFailed hpc =>
    exact ⟨h.filterOpen, h.batchNodup, h.batchReady, by rintro ⟨⟩, by rintro ⟨⟩, by rintro f ⟨⟩,
      by rintro f ⟨⟩, by rintro f ⟨⟩, by rintro f ⟨⟩⟩
  | aborted hpc =>
    refine ⟨h.filterOpen, h.batchNodup, ?_, by rintro ⟨⟩, by rintro ⟨⟩, by rintro f ⟨⟩,
      by rintro f ⟨⟩, by rintro f ⟨⟩, by rintro f ⟨⟩⟩
    intro e he
    cases e with
    | listen => exact absurd he (h.accept hpc).1
    | client f => exact h.batchReady _ he
  | @registered f hpc =>
    obtain ⟨hopen, hfilter⟩ := h.register f hpc
    refine h.toNext rfl rfl ?_ rfl fun f' hmem => ⟨rfl, ?_⟩
    · intro f' hf'
      by_cases hf : f' = f
      · subst hf
        exact hopen
      · apply h.filterOpen f'
        simpa [hf] using hf'
    · have hf : f' ≠ f := by
        rintro rfl
        rw [h.filter_of_mem hmem] at hfilter
        cases hfilter
      simp [hf]
  | notRegistered hpc hr => exact h.toNext rfl rfl h.filterOpen rfl fun _ _ => ⟨rfl, rfl⟩
  | @took f v hpc hv hne =>
    refine h.toNext rfl rfl ?_ rfl fun f' hmem => ⟨?_, rfl⟩
    · intro f' hf'
      rw [setPc_socks, setSock_socks]
      by_cases hf : f' = f
      · subst hf
        simp
      · rw [Function.update_of_ne hf]
        exact h.filterOpen f' hf'
    · have hf : f' ≠ f := by
        rintro rfl
        exact (h.read f' hpc).1 hmem
      exact Function.update_of_ne hf ..
  | @nothing f hpc hv => exact h.toClose hpc
  | readFailed hpc => exact h.toClose hpc
  | @closed _ f hpc =>
    obtain ⟨hnot, -⟩ := h.close f hpc
    have hother : ∀ f', f' ≠ f → ((s.closeSock f).setPc (.del f)).socks f' = s.socks f' ∧
        ((s.closeSock f).setPc (.del f)).filters f' = s.filters f' := by
      intro f' hf
      exact ⟨Function.update_of_ne hf .., Function.update_of_ne hf ..⟩
    refine ⟨?_, h.batchNodup, ?_, by rintro ⟨⟩, by rintro ⟨⟩, by rintro f ⟨⟩, by rintro f ⟨⟩,
      by rintro f ⟨⟩, ?_⟩
    · intro f' hf'
      have hf : f' ≠ f := by
        rintro rfl
        simp at hf'
      rw [(hother f' hf).1]
      exact h.filterOpen f' ((hother f' hf).2 ▸ hf')
    · intro e he
      cases e with
      | listen => exact h.batchReady _ he
      | client f' =>
        have hf : f' ≠ f := by
          rintro rfl
          exact hnot he
        rw [ready_congr (hother f' hf).1 (hother f' hf).2]
        exact h.batchReady _ he
    · rintro f' ⟨⟩
      simp
  | @deleted _ f hpc =>
    -- the filter went with the socket
    have hsame : s.setFilter f false = s := by
      have hfilter : s.filters f = false := by
        by_contra hf
        exact h.filterOpen f (Bool.not_eq_false _ ▸ hf) (h.del f hpc)
      rw [← hfilter]
      simp [setFilter]
    rw [hsame]
    exact h.toNext rfl rfl h.filterOpen rfl fun _ _ => ⟨rfl, rfl⟩

/-- Every step. -/
theorem step (h : s.Sound) (hs : (server n).step s a = some s') : s'.Sound := by
  cases step_spec hs with
  | loop hl => exact h.loopStep hl
  | env he => exact h.envStep he

/-- In every reachable state. -/
theorem of_reachable {ok : State n → Action n → Prop} (hr : (server n).ReachableUnder ok s) :
    s.Sound := by
  induction hr with
  | init h =>
    rw [h]
    exact start
  | step _ _ hs ih => exact ih.step hs

end Sound

end State

end DeepInIo.KqueueServer
