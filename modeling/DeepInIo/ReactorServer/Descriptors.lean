import DeepInIo.ReactorServer.Steps
import Mathlib.Algebra.Order.Group.Nat

/-!
# The descriptor numbers of the reactor server

`Descriptors` says who has which descriptor number in hand in every reachable state: a number that
is registered, that an event is about, or that a thread reads from, belongs to an open connection of
this thread; and the number that the main thread has in hand belongs to no thread.  The buffers of
responses are not used, since nothing calls `io_thread_handle_response`.
-/

namespace DeepInIo.ReactorServer

open State

variable {n : ℕ}

/-- The number is that of an open connection which was registered in the instance of `t`. -/
def State.Served (s : State n) (t : Fin n) (f : Fd) : Prop :=
  ∃ sk, s.kernel.fds f = some (.client sk) ∧ s.added sk = some t

/-- The accepted socket that the main thread has in hand. -/
def MainPc.pending? : MainPc n → Option (Fd × SockId)
  | .accept => none
  | .dispatch f sk => some (f, sk)
  | .add _ f sk => some (f, sk)
  | .addFailed f sk => some (f, sk)

/-- The event whose descriptor an IO thread reads from or closes next. -/
def IoPc.reading? : IoPc → Option Event
  | .rdRead e => some e
  | .rdAdd e _ => some e
  | .clClose e => some e
  | _ => none

/-- The program points at which an IO thread has a buffer to write. -/
def IoPc.Writes : IoPc → Prop
  | .wrWrite .. => True
  | .wrMod _ => True
  | .wrRemove _ => True
  | .wrClose _ => True
  | _ => False

/-- What an IO thread has in hand: the events returned by `epoll_wait` are of different numbers,
which all belong to open connections of this thread; and there are no buffers to write. -/
structure IoThread.Owns (s : State n) (t : Fin n) : Prop where
  batch : ∀ e ∈ (s.io t).batch, s.Served t e.fd
  nodup : ((s.io t).batch.map Event.fd).Nodup
  reading : ∀ e, (s.io t).pc.reading? = some e →
    s.Served t e.fd ∧ ∀ e' ∈ (s.io t).batch, e'.fd ≠ e.fd
  connMap : (s.io t).connMap = []
  noWrite : ¬(s.io t).pc.Writes

/-- Who has which descriptor number in hand. -/
structure Descriptors (s : State n) : Prop where
  bound : ∀ f sk, s.kernel.fds f = some (.client sk) → sk < s.kernel.nextSock
  inj : ∀ f f' sk, s.kernel.fds f = some (.client sk) → s.kernel.fds f' = some (.client sk) → f = f'
  fresh : ∀ sk, s.kernel.nextSock ≤ sk → s.added sk = none
  pending : ∀ f sk, s.main.pending? = some (f, sk) →
    s.kernel.fds f = some (.client sk) ∧ s.added sk = none
  listed : ∀ t f mask, s.kernel.reg t f = some mask → s.Served t f
  io : ∀ t, IoThread.Owns s t

section invariant

variable {s s' : State n} {t : Fin n}

/-- A number belongs to one IO thread. -/
theorem State.Served.unique {t' : Fin n} {f : Fd} (h : s.Served t f) (h' : s.Served t' f) :
    t = t' := by
  obtain ⟨sk, hf, ha⟩ := h
  obtain ⟨sk', hf', ha'⟩ := h'
  rw [hf] at hf'
  cases hf'
  exact Option.some.inj (ha.symm.trans ha')

/-- A number that is served is open. -/
theorem State.Served.isSome {f : Fd} (h : s.Served t f) : (s.kernel.fds f).isSome := by
  obtain ⟨sk, hf, -⟩ := h
  rw [hf]
  rfl

/-- The number that the main thread has in hand is not served. -/
theorem Descriptors.not_served (hd : Descriptors s) {f : Fd} {sk : SockId}
    (hm : s.main.pending? = some (f, sk)) : ¬s.Served t f := by
  rintro ⟨sk', hf, ha⟩
  obtain ⟨hf₀, ha₀⟩ := hd.pending f sk hm
  rw [hf₀] at hf
  cases hf
  rw [ha₀] at ha
  cases ha

/-- A thread keeps what it has in hand when it and its numbers are left alone. -/
theorem IoThread.Owns.of_served (h : IoThread.Owns s t) (hio : s'.io t = s.io t)
    (hserved : ∀ f, s.Served t f → ((∃ e ∈ (s.io t).batch, e.fd = f) ∨
      ∃ e, (s.io t).pc.reading? = some e ∧ e.fd = f) → s'.Served t f) : IoThread.Owns s' t where
  batch e he := by
    rw [hio] at he
    exact hserved _ (h.batch e he) (.inl ⟨e, he, rfl⟩)
  nodup := by
    rw [hio]
    exact h.nodup
  reading e he := by
    rw [hio] at he ⊢
    obtain ⟨hs, hne⟩ := h.reading e he
    exact ⟨hserved _ hs (.inr ⟨e, he, rfl⟩), hne⟩
  connMap := by
    rw [hio]
    exact h.connMap
  noWrite := by
    rw [hio]
    exact h.noWrite

/-- The state a run starts in. -/
theorem descriptors_start (sys : Fd → Bool) : Descriptors (State.start (n := n) sys) := by
  have hfds : ∀ f sk, (State.start (n := n) sys).kernel.fds f ≠ some (.client sk) := by
    intro f sk h
    simp only [State.start] at h
    split at h <;> cases h
  refine ⟨fun f sk h => absurd h (hfds f sk), fun f f' sk h => absurd h (hfds f sk), fun _ _ => rfl,
    nofun, nofun, fun t => ⟨nofun, List.nodup_nil, nofun, rfl, id⟩⟩

/-! ### The IO threads -/

/-- Who serves a number depends on the table of descriptors and on what was registered. -/
theorem State.served_congr (hfds : s'.kernel.fds = s.kernel.fds) (hadded : s'.added = s.added)
    (t : Fin n) (f : Fd) : s'.Served t f ↔ s.Served t f := by
  rw [State.Served, State.Served, hfds, hadded]

/-- A step of an IO thread that leaves the table of descriptors alone. -/
theorem Descriptors.of_sameFds (hd : Descriptors s) (hfds : s'.kernel.fds = s.kernel.fds)
    (hnext : s'.kernel.nextSock = s.kernel.nextSock) (hadded : s'.added = s.added)
    (hmain : s'.main = s.main)
    (hreg : ∀ t f mask, s'.kernel.reg t f = some mask → ∃ mask', s.kernel.reg t f = some mask')
    (hio : ∀ t', t' ≠ t → s'.io t' = s.io t') (hown : IoThread.Owns s' t) : Descriptors s' where
  bound := by
    rw [hfds, hnext]
    exact hd.bound
  inj := by
    rw [hfds]
    exact hd.inj
  fresh := by
    rw [hnext, hadded]
    exact hd.fresh
  pending := by
    rw [hmain, hfds, hadded]
    exact hd.pending
  listed t f mask h := by
    obtain ⟨mask', h'⟩ := hreg t f mask h
    exact (served_congr hfds hadded t f).mpr (hd.listed t f mask' h')
  io t' := by
    by_cases ht : t' = t
    · exact ht ▸ hown
    · exact (hd.io t').of_served (hio t' ht) fun f hs _ => (served_congr hfds hadded t' f).mpr hs

/-- An IO thread that proceeds keeps what it has in hand. -/
theorem IoThread.Owns.move (h : IoThread.Owns s t) {pc' : IoPc} (hm : IoMove s t (s.io t).pc pc') :
    IoThread.Owns (s.setIoPc t pc') t := by
  have hserved : ∀ f, (s.setIoPc t pc').Served t f ↔ s.Served t f :=
    fun f => served_congr rfl rfl t f
  have hpoint : pc'.reading? = none ∨ pc'.reading? = (s.io t).pc.reading? := by
    generalize (s.io t).pc = pc at hm
    cases hm with
    | readClose e => exact .inr rfl
    | _ => exact .inl rfl
  have hnoWrite : ¬pc'.Writes := by
    have hno := h.noWrite
    generalize (s.io t).pc = pc at hm hno
    cases hm with
    | buffer e out hbuf =>
      rw [h.connMap] at hbuf
      cases hbuf
    | writeAgain e out => exact fun _ => hno trivial
    | writeErr e out => exact fun _ => hno trivial
    | _ => exact id
  refine ⟨fun e he => ?_, ?_, fun e he => ?_, ?_, ?_⟩
    <;> simp only [setIoPc_io, Function.update_self] at *
  · exact (hserved _).mpr (h.batch e he)
  · exact h.nodup
  · rcases hpoint with hp | hp
    · rw [hp] at he
      cases he
    · obtain ⟨hs, hne⟩ := h.reading e (hp ▸ he)
      exact ⟨(hserved _).mpr hs, hne⟩
  · exact h.connMap
  · exact hnoWrite

/-- What an IO thread has in hand after a step that leaves the table of descriptors alone. -/
theorem IoThread.Owns.of_thread {th : IoThread} (hio : s'.io t = th)
    (hfds : s'.kernel.fds = s.kernel.fds) (hadded : s'.added = s.added)
    (hbatch : ∀ e ∈ th.batch, s.Served t e.fd) (hnodup : (th.batch.map Event.fd).Nodup)
    (hreading : ∀ e, th.pc.reading? = some e → s.Served t e.fd ∧ ∀ e' ∈ th.batch, e'.fd ≠ e.fd)
    (hmap : th.connMap = []) (hno : ¬th.pc.Writes) : IoThread.Owns s' t := by
  subst hio
  refine ⟨fun e he => ?_, hnodup, fun e he => ?_, hmap, hno⟩
  · exact (served_congr hfds hadded t _).mpr (hbatch e he)
  · obtain ⟨hs, hne⟩ := hreading e he
    exact ⟨(served_congr hfds hadded t _).mpr hs, hne⟩

/-- `close` of the number that the IO thread `t` was reading from. -/
theorem Descriptors.close_reading (hd : Descriptors s) {e : Event}
    (hpc : (s.io t).pc = .clClose e) :
    Descriptors ((s.setKernel (s.kernel.close e.fd)).setIoPc t (.clDel e)) := by
  obtain ⟨hs, hne⟩ := (hd.io t).reading e (by rw [hpc]; rfl)
  have hfds : ∀ f file, Function.update s.kernel.fds e.fd none f = some file →
      s.kernel.fds f = some file := by
    intro f file h
    by_cases hf : f = e.fd
    · subst hf
      rw [Function.update_self] at h
      cases h
    · rwa [Function.update_of_ne hf] at h
  have hserved : ∀ t' f, f ≠ e.fd → s.Served t' f →
      ((s.setKernel (s.kernel.close e.fd)).setIoPc t (.clDel e)).Served t' f := by
    rintro t' f hf ⟨sk, hopen, ha⟩
    refine ⟨sk, ?_, ha⟩
    change (s.kernel.close e.fd).fds f = _
    rw [Kernel.close_fds, Function.update_of_ne hf, hopen]
  refine ⟨fun f sk h => ?_, fun f f' sk h h' => ?_, fun sk h => ?_, fun f sk hm => ?_,
    fun t' f mask h => ?_, fun t' => ?_⟩
  · change (s.kernel.close e.fd).fds f = _ at h
    rw [Kernel.close_fds] at h
    change sk < (s.kernel.close e.fd).nextSock
    rw [Kernel.close_nextSock]
    exact hd.bound f sk (hfds _ _ h)
  · change (s.kernel.close e.fd).fds f = _ at h
    change (s.kernel.close e.fd).fds f' = _ at h'
    rw [Kernel.close_fds] at h h'
    exact hd.inj f f' sk (hfds _ _ h) (hfds _ _ h')
  · change (s.kernel.close e.fd).nextSock ≤ sk at h
    rw [Kernel.close_nextSock] at h
    exact hd.fresh sk h
  · obtain ⟨hopen, ha⟩ := hd.pending f sk hm
    refine ⟨?_, ha⟩
    have hf : f ≠ e.fd := fun hf => hd.not_served hm (hf ▸ hs)
    change (s.kernel.close e.fd).fds f = _
    rw [Kernel.close_fds, Function.update_of_ne hf, hopen]
  · obtain ⟨hreg, hf⟩ := s.kernel.close_reg_some h
    exact hserved t' f (hf hs.isSome) (hd.listed t' f mask hreg)
  · by_cases ht : t' = t
    · subst ht
      have hown := hd.io t'
      refine ⟨fun e' he => ?_, ?_, ?_, ?_, ?_⟩ <;> simp only [setIoPc_io, Function.update_self] at *
      · exact hserved _ _ (hne e' he) (hown.batch e' he)
      · exact hown.nodup
      · exact nofun
      · exact hown.connMap
      · exact id
    · refine (hd.io t').of_served (Function.update_of_ne ht ..) fun f hs' _ => ?_
      exact hserved t' f (fun hf => ht (hs'.unique (hf ▸ hs))) hs'

/-- An IO thread keeps the descriptors in order. -/
theorem IoStep.descriptors (h : IoStep s t s') (hd : Descriptors s) : Descriptors s' := by
  have hown := hd.io t
  cases h with
  | move hm =>
    exact hd.of_sameFds rfl rfl rfl rfl (fun _ _ mask hr => ⟨mask, hr⟩)
      (fun t' ht => Function.update_of_ne ht ..) (hown.move hm)
  | @collect e mask hpc hr hnew =>
    refine hd.of_sameFds rfl rfl rfl rfl (fun _ _ mask hr => ⟨mask, hr⟩)
      (fun t' ht => Function.update_of_ne ht ..) ?_
    refine IoThread.Owns.of_thread (Function.update_self ..) rfl rfl (fun e' he => ?_) ?_ ?_
      hown.connMap ?_
    · rcases List.mem_append.mp he with he | he
      · exact hown.batch e' he
      · rw [List.mem_singleton.mp he]
        exact hd.listed t e.fd mask hr
    · rw [List.map_append, List.nodup_append]
      refine ⟨hown.nodup, List.pairwise_singleton .., ?_⟩
      rintro f hf f' hf' rfl
      obtain ⟨e', he', rfl⟩ := List.mem_map.mp hf
      rw [List.map_singleton, List.mem_singleton] at hf'
      exact hnew e' he' hf'
    · rw [hpc]
      exact nofun
    · rw [hpc]
      exact id
  | @nextRead e rest hpc hb =>
    have hin := hown.batch
    have hnodup := hown.nodup
    rw [hb] at hin hnodup
    rw [List.map_cons, List.nodup_cons] at hnodup
    refine hd.of_sameFds rfl rfl rfl rfl (fun _ _ mask hr => ⟨mask, hr⟩)
      (fun t' ht => Function.update_of_ne ht ..) ?_
    refine IoThread.Owns.of_thread (Function.update_self ..) rfl rfl
      (fun e' he => hin e' (List.mem_cons_of_mem _ he)) hnodup.2 ?_ hown.connMap id
    rintro e' he
    cases he
    refine ⟨hin e List.mem_cons_self, fun e' he' hfd => hnodup.1 ?_⟩
    rw [← hfd]
    exact List.mem_map_of_mem he'
  | @nextWrite e rest hpc hb =>
    have hin := hown.batch
    have hnodup := hown.nodup
    rw [hb] at hin hnodup
    rw [List.map_cons, List.nodup_cons] at hnodup
    refine hd.of_sameFds rfl rfl rfl rfl (fun _ _ mask hr => ⟨mask, hr⟩)
      (fun t' ht => Function.update_of_ne ht ..) ?_
    exact IoThread.Owns.of_thread (Function.update_self ..) rfl rfl
      (fun e' he => hin e' (List.mem_cons_of_mem _ he)) hnodup.2 nofun hown.connMap id
  | @readData e len data k hpc hk =>
    have hsame : k.fds = s.kernel.fds ∧ k.nextSock = s.kernel.nextSock ∧ k.reg = s.kernel.reg := by
      simp only [Kernel.readBytes] at hk
      split at hk
      · cases hk
      · split at hk <;> cases hk
        exact ⟨rfl, rfl, rfl⟩
    refine hd.of_sameFds hsame.1 hsame.2.1 rfl rfl
      (fun t f mask hr => ⟨mask, by rw [← hsame.2.2]; exact hr⟩)
      (fun t' ht => Function.update_of_ne ht ..) ?_
    refine IoThread.Owns.of_thread (Function.update_self ..) hsame.1 rfl hown.batch hown.nodup ?_
      hown.connMap id
    intro e' he
    exact hown.reading e' (by rw [hpc]; exact he)
  | @store e buffer hpc =>
    refine hd.of_sameFds rfl rfl rfl rfl (fun _ _ mask hr => ⟨mask, hr⟩)
      (fun t' ht => Function.update_of_ne ht ..) ?_
    refine IoThread.Owns.of_thread (Function.update_self ..) rfl rfl hown.batch hown.nodup ?_
      hown.connMap id
    intro e' he
    exact hown.reading e' (by rw [hpc]; exact he)
  | close hpc => exact hd.close_reading hpc
  | @del e hpc =>
    refine hd.of_sameFds rfl rfl rfl rfl (fun t' f mask hr => ?_)
      (fun t' ht => Function.update_of_ne ht ..) ?_
    · simp only [Kernel.epollDel, setIoPc_kernel, setKernel_kernel, Kernel.setReg_reg] at hr
      by_cases ht : t' = t
      · subst ht
        rw [Function.update_self] at hr
        by_cases hf : f = e.fd
        · subst hf
          rw [Function.update_self] at hr
          cases hr
        · rw [Function.update_of_ne hf] at hr
          exact ⟨mask, hr⟩
      · rw [Function.update_of_ne ht] at hr
        exact ⟨mask, hr⟩
    · exact IoThread.Owns.of_thread (Function.update_self ..) rfl rfl hown.batch hown.nodup nofun
        hown.connMap id
  | @remove e hpc =>
    refine hd.of_sameFds rfl rfl rfl rfl (fun _ _ mask hr => ⟨mask, hr⟩)
      (fun t' ht => Function.update_of_ne ht ..) ?_
    refine IoThread.Owns.of_thread (Function.update_self ..) rfl rfl hown.batch hown.nodup
      nofun ?_ id
    change connMapRemove (s.io t).connMap e.fd = []
    rw [hown.connMap]
    rfl
  | wrote hpc | mod hpc | wrRemove hpc | wrClose hpc =>
    have hno := hown.noWrite
    rw [hpc] at hno
    exact absurd trivial hno

/-! ### The main thread and the clients -/

/-- `accept` returns a free number. -/
theorem Descriptors.accept (hd : Descriptors s) {f : Fd} (hf : s.kernel.fds f = none) :
    Descriptors ((s.setKernel { s.kernel with
      fds := Function.update s.kernel.fds f (some (.client s.kernel.nextSock))
      socks := Function.update s.kernel.socks s.kernel.nextSock ⟨[], false, []⟩
      nextSock := s.kernel.nextSock + 1 }).setMain (.dispatch f s.kernel.nextSock)) := by
  have hne : ∀ f', (s.kernel.fds f').isSome → f' ≠ f := by
    rintro f' hopen rfl
    rw [hf] at hopen
    cases hopen
  have hfds : ∀ f' sk, Function.update s.kernel.fds f (some (.client s.kernel.nextSock)) f' =
      some (.client sk) → (f' = f ∧ sk = s.kernel.nextSock) ∨
        s.kernel.fds f' = some (.client sk) := by
    intro f' sk h
    by_cases hf' : f' = f
    · subst hf'
      rw [Function.update_self] at h
      cases h
      exact .inl ⟨rfl, rfl⟩
    · rw [Function.update_of_ne hf'] at h
      exact .inr h
  have hserved : ∀ t' f', s.Served t' f' →
      ((s.setKernel { s.kernel with
        fds := Function.update s.kernel.fds f (some (.client s.kernel.nextSock))
        socks := Function.update s.kernel.socks s.kernel.nextSock ⟨[], false, []⟩
        nextSock := s.kernel.nextSock + 1 }).setMain (.dispatch f s.kernel.nextSock)).Served t'
          f' := by
    intro t' f' hs
    have hf' := hne f' hs.isSome
    obtain ⟨sk, hopen, ha⟩ := hs
    exact ⟨sk, (Function.update_of_ne hf' ..).trans hopen, ha⟩
  refine ⟨fun f' sk h => ?_, fun f₁ f₂ sk h h' => ?_, fun sk h => ?_, fun f' sk hm => ?_,
    fun t' f' mask h => hserved t' f' (hd.listed t' f' mask h),
    fun t' => (hd.io t').of_served rfl fun f' hs _ => hserved t' f' hs⟩
  · rcases hfds f' sk h with ⟨-, rfl⟩ | h
    · exact Nat.lt_succ_self _
    · exact Nat.lt_succ_of_lt (hd.bound f' sk h)
  · rcases hfds f₁ sk h with ⟨rfl, rfl⟩ | h
    · rcases hfds f₂ _ h' with ⟨rfl, -⟩ | h'
      · rfl
      · exact absurd (hd.bound f₂ _ h') (lt_irrefl _)
    · rcases hfds f₂ sk h' with ⟨-, rfl⟩ | h'
      · exact absurd (hd.bound f₁ _ h) (lt_irrefl _)
      · exact hd.inj f₁ f₂ sk h h'
  · exact hd.fresh sk (Nat.le_of_succ_le h)
  · cases hm
    exact ⟨Function.update_self .., hd.fresh _ le_rfl⟩

/-- The registration of the connection that the main thread has in hand. -/
theorem Descriptors.add (hd : Descriptors s) {f : Fd} {sk : SockId} (hpc : s.main = .add t f sk)
    (mask : EpollMask) :
    Descriptors { s with
      kernel := s.kernel.setReg t f (some mask)
      main := .accept
      added := Function.update s.added sk (some t) } := by
  obtain ⟨hopen, ha⟩ := hd.pending f sk (by rw [hpc]; rfl)
  have hserved : ∀ t' f', s.Served t' f' →
      State.Served { s with
        kernel := s.kernel.setReg t f (some mask)
        main := .accept
        added := Function.update s.added sk (some t) } t' f' := by
    rintro t' f' ⟨sk', hopen', ha'⟩
    refine ⟨sk', hopen', ?_⟩
    have hsk : sk' ≠ sk := by
      rintro rfl
      rw [ha] at ha'
      cases ha'
    exact (Function.update_of_ne hsk ..).trans ha'
  refine ⟨hd.bound, hd.inj, fun sk' h => ?_, nofun, fun t' f' mask' h => ?_,
    fun t' => (hd.io t').of_served rfl fun f' hs _ => hserved t' f' hs⟩
  · have hsk : sk' ≠ sk := by
      rintro rfl
      exact absurd (hd.bound f _ hopen) (not_lt.mpr h)
    exact (Function.update_of_ne hsk ..).trans (hd.fresh sk' h)
  · by_cases hcase : t' = t ∧ f' = f
    · obtain ⟨rfl, rfl⟩ := hcase
      exact ⟨sk, hopen, Function.update_self ..⟩
    · refine hserved t' f' (hd.listed t' f' mask' ?_)
      simp only [Kernel.setReg_reg] at h
      by_cases ht : t' = t
      · subst ht
        rw [Function.update_self, Function.update_of_ne fun hf => hcase ⟨rfl, hf⟩] at h
        exact h
      · rwa [Function.update_of_ne ht] at h

/-- The main thread closes a connection that it could not register. -/
theorem Descriptors.close_pending (hd : Descriptors s) {f : Fd} {sk : SockId}
    (hpc : s.main = .addFailed f sk) :
    Descriptors ((s.setKernel (s.kernel.close f)).setMain .accept) := by
  have hm : s.main.pending? = some (f, sk) := by
    rw [hpc]
    rfl
  have hfds : ∀ f' file, (s.kernel.close f).fds f' = some file → s.kernel.fds f' = some file := by
    intro f' file h
    rw [Kernel.close_fds] at h
    by_cases hf : f' = f
    · subst hf
      rw [Function.update_self] at h
      cases h
    · rwa [Function.update_of_ne hf] at h
  have hserved : ∀ t' f', s.Served t' f' →
      ((s.setKernel (s.kernel.close f)).setMain .accept).Served t' f' := by
    intro t' f' hs
    have hf : f' ≠ f := fun hf => hd.not_served hm (hf ▸ hs)
    obtain ⟨sk', hopen, ha⟩ := hs
    refine ⟨sk', ?_, ha⟩
    change (s.kernel.close f).fds f' = _
    rw [Kernel.close_fds, Function.update_of_ne hf, hopen]
  refine ⟨fun f' sk' h => ?_, fun f₁ f₂ sk' h h' => hd.inj f₁ f₂ sk' (hfds _ _ h) (hfds _ _ h'),
    fun sk' h => ?_, nofun, fun t' f' mask h => ?_,
    fun t' => (hd.io t').of_served rfl fun f' hs _ => hserved t' f' hs⟩
  · change sk' < (s.kernel.close f).nextSock
    rw [Kernel.close_nextSock]
    exact hd.bound f' sk' (hfds _ _ h)
  · change (s.kernel.close f).nextSock ≤ sk' at h
    rw [Kernel.close_nextSock] at h
    exact hd.fresh sk' h
  · exact hserved t' f' (hd.listed t' f' mask (s.kernel.close_reg_some h).1)

/-- The main thread keeps the descriptors in order. -/
theorem MainStep.descriptors (h : MainStep s s') (hd : Descriptors s) : Descriptors s' := by
  cases h with
  | accept hpc hf => exact hd.accept hf
  | acceptFailed hpc => exact hd
  | dispatch hpc ht =>
    refine ⟨hd.bound, hd.inj, hd.fresh, fun f sk hm => ?_, hd.listed,
      fun t' => (hd.io t').of_served rfl fun f hs _ => (served_congr rfl rfl t' f).mpr hs⟩
    cases hm
    exact hd.pending _ _ (by rw [hpc]; rfl)
  | add hpc hopen hnew => exact hd.add hpc _
  | addFailed hpc =>
    refine ⟨hd.bound, hd.inj, hd.fresh, fun f sk hm => ?_, hd.listed,
      fun t' => (hd.io t').of_served rfl fun f hs _ => (served_congr rfl rfl t' f).mpr hs⟩
    cases hm
    exact hd.pending _ _ (by rw [hpc]; rfl)
  | close hpc => exact hd.close_pending hpc

/-- The descriptors are in order in every reachable state. -/
theorem reachable_descriptors (h : (server n).Reachable s) : Descriptors s := by
  refine h.invariant ?_ ?_
  · rintro _ ⟨sys, rfl⟩
    exact descriptors_start sys
  · intro s a s' _ hd hs
    -- what neither the table of descriptors nor a thread sees
    have hframe : s'.kernel.fds = s.kernel.fds → s'.kernel.nextSock = s.kernel.nextSock →
        s'.kernel.reg = s.kernel.reg → s'.added = s.added → s'.main = s.main → s'.io = s.io →
        Descriptors s' := by
      intro hfds hnext hreg hadded hmain hio
      have hserved : ∀ t' f, s.Served t' f → s'.Served t' f := fun t' f hs' =>
        (served_congr hfds hadded t' f).mpr hs'
      refine ⟨?_, ?_, ?_, ?_, fun t' f mask hr => hserved t' f (hd.listed t' f mask ?_),
        fun t' => (hd.io t').of_served (congrFun hio t') fun f hs' _ => hserved t' f hs'⟩
      · rw [hfds, hnext]
        exact hd.bound
      · rw [hfds]
        exact hd.inj
      · rw [hnext, hadded]
        exact hd.fresh
      · rw [hmain, hfds, hadded]
        exact hd.pending
      · rwa [← hreg]
    cases a with
    | main r => exact (mainStep_spec hs).descriptors hd
    | io t r => exact (ioStep_spec hs).descriptors hd
    | worker =>
      cases hs
      exact hframe rfl rfl rfl rfl rfl rfl
    | env e =>
      cases envStep_spec hs
      exact hframe rfl rfl rfl rfl rfl rfl

end invariant

end DeepInIo.ReactorServer
