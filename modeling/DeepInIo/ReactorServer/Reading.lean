import DeepInIo.ReactorServer.Descriptors
import DeepInIo.Foundation.History

/-!
# Reading until `EAGAIN`

The IO threads of `linux/reactor-server` are told of a readable client once (`EPOLLET`) and then
read until `read` would block.  A record beside the state of the server says which edges are armed
and not delivered: `EPOLL_CTL_ADD` arms the edge of a socket that is readable, and what arrives
later arms it again.  `epoll_wait` reports the armed edges only (`State.Delivers`).

Under this discipline nothing is stranded: a registered client that is readable has an armed edge,
or its thread is about to read or close it (`reachable_watched`).  So a thread that has handled its
events has read its clients to the end, up to what has been signalled since (`read_to_the_end`).
-/

namespace DeepInIo.ReactorServer

open State

variable {n : ℕ}

/-- The sockets whose readiness is signalled and not delivered. -/
abbrev Edges : Type :=
  SockId → Bool

/-- `read` would not block. -/
def Sock.readable (v : Sock) : Bool :=
  !v.unread.isEmpty || v.peerClosed

/-- The number is in some interest list. -/
def Kernel.watches (k : Kernel n) (f : Fd) : Bool :=
  decide (∃ t, (k.reg t f).isSome = true)

/-- The thread is going to read or close the number without another event. -/
def IoThread.Holds (th : IoThread) (f : Fd) : Prop :=
  (∃ e ∈ th.batch, e.fd = f) ∨ ∃ e, th.pc.reading? = some e ∧ e.fd = f

namespace State

variable (edges : Edges) (s : State n)

/-- The edge of the socket behind a number is armed or not. -/
def setEdge (f : Fd) (b : Bool) : Edges :=
  match s.kernel.sockAt f with
  | some sk => Function.update edges sk b
  | none => edges

/-- What a step of an IO thread does to the edges. -/
def armIo (t : Fin n) (r : IoResult) : Edges :=
  match (s.io t).pc with
  | .wait =>
    match r with
    | .event e => s.setEdge edges e.fd false
    | _ => edges
  | .clClose e | .wrClose e => s.setEdge edges e.fd false
  | .clDel e => if (s.kernel.reg t e.fd).isSome then s.setEdge edges e.fd false else edges
  | .wrMod e =>
    match s.kernel.sockAt e.fd with
    | some sk =>
      if (s.kernel.reg t e.fd).isSome then Function.update edges sk (s.kernel.socks sk).readable
        else edges
    | none => edges
  | _ => edges

/-- What `EPOLL_CTL_ADD` does to the edges. -/
def armMain (r : MainResult) : Edges :=
  match s.main, r with
  | .add t f sk, .ok =>
    if (s.kernel.epollAdd t f { epollin := true, epollout := false }).isSome then
      Function.update edges sk (s.kernel.socks sk).readable
    else edges
  | _, _ => edges

/-- What the clients do to the edges. -/
def armEnv : Environment → Edges
  | .data f bytes => if s.kernel.watches f && !bytes.isEmpty then s.setEdge edges f true else edges
  | .peerClose f => if s.kernel.watches f then s.setEdge edges f true else edges

/-- What a step does to the edges. -/
def arm : Action n → Edges
  | .main r => s.armMain edges r
  | .io t r => s.armIo edges t r
  | .worker => edges
  | .env e => s.armEnv edges e

/-- `epoll_wait` reports the armed edges, with `EPOLLIN`. -/
def delivers (p : State n × Edges) : Action n → Bool
  | .io t (.event e) =>
    decide ((p.1.io t).pc ≠ .wait) || (p.1.kernel.sockAt e.fd).any p.2 && e.epollin
  | _ => true

/-- The events that `epoll_wait` can return. -/
abbrev Delivers (p : State n × Edges) (a : Action n) : Prop :=
  delivers p a = true

end State

/-- The server with the edges of its epoll instances. -/
def edgeServer (n : ℕ) : TransitionSystem (State n × Edges) (Action n) :=
  (server n).recording (fun _ => false) State.arm

/-- Whatever is readable is signalled or in hand, and only what is registered is signalled. -/
structure Watched (s : State n) (edges : Edges) : Prop where
  events : ∀ t, ∀ e ∈ (s.io t).batch, e.epollin = true
  masks : ∀ t f mask, s.kernel.reg t f = some mask → mask.epollin = true
  listed : ∀ sk, edges sk = true →
    ∃ t f, s.added sk = some t ∧ s.kernel.fds f = some (.client sk) ∧
      (s.kernel.reg t f).isSome = true
  seen : ∀ t f sk, (s.kernel.reg t f).isSome = true → s.kernel.fds f = some (.client sk) →
    (s.kernel.socks sk).readable = true → edges sk = true ∨ (s.io t).Holds f

/-- A thread that is not reading holds its events only. -/
theorem IoThread.Holds.mem_batch {th : IoThread} {f : Fd} (h : th.Holds f)
    (hpc : th.pc.reading? = none) :
    ∃ e ∈ th.batch, e.fd = f := by
  rcases h with hbatch | ⟨e, hreading, -⟩
  · exact hbatch
  · rw [hpc] at hreading
    cases hreading

/-- The registration that is set. -/
theorem Kernel.setReg_same (k : Kernel n) (t : Fin n) (f : Fd) (r : Option EpollMask) :
    (k.setReg t f r).reg t f = r := by
  rw [Kernel.setReg_reg, Function.update_self, Function.update_self]

/-- The other registrations stay. -/
theorem Kernel.setReg_of_ne (k : Kernel n) (r : Option EpollMask) {t t' : Fin n} {f f' : Fd}
    (h : (t', f') ≠ (t, f)) : (k.setReg t f r).reg t' f' = k.reg t' f' := by
  rw [Kernel.setReg_reg]
  by_cases ht : t' = t
  · subst ht
    have hf : f' ≠ f := fun heq => h (by rw [heq])
    rw [Function.update_self, Function.update_of_ne hf]
  · rw [Function.update_of_ne ht]

section watched

variable {s s' : State n} {edges : Edges} {t : Fin n}

/-- The socket behind an open number. -/
theorem sockAt_eq {k : Kernel n} {f : Fd} {sk : SockId} (h : k.fds f = some (.client sk)) :
    k.sockAt f = some sk := by
  rw [Kernel.sockAt, h]

theorem setEdge_eq {f : Fd} {sk : SockId} {b : Bool} (h : s.kernel.fds f = some (.client sk)) :
    s.setEdge edges f b = Function.update edges sk b := by
  rw [setEdge, sockAt_eq h]

theorem Watched.events_update (hw : Watched s edges) {th : IoThread}
    (hio : s'.io = Function.update s.io t th) (h : ∀ e ∈ th.batch, e.epollin = true) (t' : Fin n) :
    ∀ e ∈ (s'.io t').batch, e.epollin = true := by
  rw [hio]
  by_cases ht : t' = t
  · rw [ht, Function.update_self]
    exact h
  · rw [Function.update_of_ne ht]
    exact hw.events t'

/-- What a thread has in hand stays in hand when the thread that moves keeps it. -/
theorem IoThread.Holds.update {t' : Fin n} {f : Fd} {th : IoThread} (hin : (s.io t').Holds f)
    (hio : s'.io = Function.update s.io t th) (h : (s.io t).Holds f → th.Holds f) :
    (s'.io t').Holds f := by
  rw [hio]
  by_cases ht : t' = t
  · rw [ht, Function.update_self]
    rw [ht] at hin
    exact h hin
  · rwa [Function.update_of_ne ht]

/-- A step of a thread that leaves the kernel and the edges alone, and keeps in hand what is
readable. -/
theorem Watched.thread (hw : Watched s edges) {th : IoThread}
    (hio : s'.io = Function.update s.io t th) (hfds : s'.kernel.fds = s.kernel.fds)
    (hreg : s'.kernel.reg = s.kernel.reg)
    (hsocks : ∀ sk, (s'.kernel.socks sk).readable = true → (s.kernel.socks sk).readable = true)
    (hadded : s'.added = s.added) (hevents : ∀ e ∈ th.batch, e.epollin = true)
    (hhand : ∀ f sk, s.kernel.fds f = some (.client sk) → (s'.kernel.socks sk).readable = true →
      (s.io t).Holds f → th.Holds f) : Watched s' edges where
  events := hw.events_update hio hevents
  masks := by
    rw [hreg]
    exact hw.masks
  listed := by
    rw [hfds, hreg, hadded]
    exact hw.listed
  seen t' f sk hsome hopen hready := by
    rw [hreg] at hsome
    rw [hfds] at hopen
    rcases hw.seen t' f sk hsome hopen (hsocks sk hready) with hedge | hin
    · exact .inl hedge
    · exact .inr (hin.update hio (hhand f sk hopen hready))

/-- A step of a thread after which the number is not registered any more, or in hand, and its edge
is not armed. -/
theorem Watched.clear (hw : Watched s edges) (hd : Descriptors s) {f₀ : Fd} {sk₀ : SockId}
    (h₀ : s.kernel.fds f₀ = some (.client sk₀)) {th : IoThread}
    (hio : s'.io = Function.update s.io t th) (hsocks : s'.kernel.socks = s.kernel.socks)
    (hadded : s'.added = s.added)
    (hfds : ∀ f sk, s'.kernel.fds f = some (.client sk) → s.kernel.fds f = some (.client sk))
    (hfds' : ∀ f, f ≠ f₀ → s'.kernel.fds f = s.kernel.fds f)
    (hreg : ∀ t f mask, s'.kernel.reg t f = some mask → s.kernel.reg t f = some mask)
    (hreg' : ∀ t f, f ≠ f₀ → s'.kernel.reg t f = s.kernel.reg t f)
    (hevents : ∀ e ∈ th.batch, e.epollin = true)
    (hhand : ∀ f, f ≠ f₀ → (s.io t).Holds f → th.Holds f)
    (hgone : ∀ t', (s'.kernel.reg t' f₀).isSome = true → t' = t ∧ th.Holds f₀) :
    Watched s' (Function.update edges sk₀ false) where
  events := hw.events_update hio hevents
  masks t' f mask h := hw.masks t' f mask (hreg t' f mask h)
  listed sk hedge := by
    have hsk : sk ≠ sk₀ := by
      intro heq
      rw [heq, Function.update_self] at hedge
      cases hedge
    rw [Function.update_of_ne hsk] at hedge
    obtain ⟨t', f, ha, hopen, hsome⟩ := hw.listed sk hedge
    have hf : f ≠ f₀ := by
      intro heq
      rw [heq, h₀] at hopen
      cases hopen
      exact hsk rfl
    refine ⟨t', f, ?_, ?_, ?_⟩
    · rw [hadded, ha]
    · rw [hfds' f hf, hopen]
    · rw [hreg' t' f hf, hsome]
  seen t' f sk hsome hopen hready := by
    by_cases hf : f = f₀
    · subst hf
      obtain ⟨ht, hholds⟩ := hgone t' hsome
      rw [hio, ht, Function.update_self]
      exact .inr hholds
    · have hopen' := hfds f sk hopen
      have hsk : sk ≠ sk₀ := by
        intro heq
        rw [heq] at hopen'
        exact hf (hd.inj f f₀ sk₀ hopen' h₀)
      rw [hreg' t' f hf] at hsome
      rw [hsocks] at hready
      rw [Function.update_of_ne hsk]
      rcases hw.seen t' f sk hsome hopen' hready with hedge | hin
      · exact .inl hedge
      · exact .inr (hin.update hio (hhand f hf))

/-- `epoll_wait` collects an event or returns. -/
theorem Watched.wait (hw : Watched s edges) (hd : Descriptors s) {r : IoResult}
    (hpc : (s.io t).pc = .wait) (hok : Delivers (s, edges) (.io t r))
    (hs : s.ioStep t r = some s') : Watched s' (s.armIo edges t r) := by
  have hidle : (s.io t).pc.reading? = none := by
    rw [hpc]
    rfl
  simp only [ioStep, hpc] at hs
  simp only [armIo, hpc]
  cases r with
  | ok =>
    cases hs
    exact hw.thread rfl rfl rfl (fun _ h => h) rfl (hw.events t) fun f sk _ _ hholds =>
      .inl (hholds.mem_batch hidle)
  | event e =>
    dsimp only at hs ⊢
    split at hs
    · rw [State.collect] at hs
      split at hs
      · cases hs
      · next mask hmask =>
        split at hs
        · cases hs
          obtain ⟨sk, hopen, ha⟩ := hd.listed t e.fd mask hmask
          rw [setEdge_eq hopen]
          refine hw.clear hd hopen rfl rfl rfl (fun _ _ h => h) (fun _ _ => rfl) (fun _ _ _ h => h)
            (fun _ _ _ => rfl) (fun e' he' => ?_) (fun f _ hholds => ?_) fun t' ht' => ?_
          · rcases List.mem_append.mp he' with hold | hnew
            · exact hw.events t e' hold
            · rw [List.mem_singleton.mp hnew]
              simp only [Delivers, delivers, hpc, ne_eq, not_true_eq_false, decide_false,
                Bool.false_or, Bool.and_eq_true] at hok
              exact hok.2
          · obtain ⟨e', he', hf⟩ := hholds.mem_batch hidle
            exact .inl ⟨e', List.mem_append_left _ he', hf⟩
          · obtain ⟨mask', hmask'⟩ := Option.isSome_iff_exists.mp ht'
            refine ⟨(hd.listed t' e.fd mask' hmask').unique ⟨sk, hopen, ha⟩, .inl ⟨e, ?_, rfl⟩⟩
            exact List.mem_append_right _ (List.mem_singleton_self e)
        · cases hs
    · cases hs
  | _ => cases hs

/-- At the other program points a step of an IO thread leaves the edges alone. -/
def IoPc.signals : IoPc → Bool
  | .wait | .clClose _ | .clDel _ | .wrMod _ | .wrClose _ => true
  | _ => false

theorem armIo_eq {r : IoResult} (h : (s.io t).pc.signals = false) : s.armIo edges t r = edges := by
  unfold armIo
  cases hpc : (s.io t).pc with
  | wait | clClose | clDel | wrMod | wrClose =>
    rw [hpc] at h
    cases h
  | _ => rfl

/-- A thread that has one number in hand apart from its events. -/
theorem IoThread.Holds.of_batch {th th' : IoThread} {f : Fd} (h : th.Holds f)
    (hbatch : th'.batch = th.batch)
    (hpc : ∀ e, th.pc.reading? = some e → e.fd = f → th'.pc.reading? = some e) : th'.Holds f := by
  rcases h with ⟨e, he, hf⟩ | ⟨e, hreading, hf⟩
  · left
    rw [hbatch]
    exact ⟨e, he, hf⟩
  · exact .inr ⟨e, hpc e hreading hf, hf⟩

/-- What `read` takes is taken from one socket. -/
theorem readBytes_kernel {k k' : Kernel n} {f : Fd} {len : ℕ} {data : List UInt8}
    (h : k.readBytes f len = some (data, k')) :
    ∃ sk, k.sockAt f = some sk ∧
      k' = k.setSock sk { k.socks sk with unread := (k.socks sk).unread.drop len } := by
  unfold Kernel.readBytes at h
  split at h
  · cases h
  · next sk hsk =>
    dsimp only at h
    split at h
    · cases h
      exact ⟨sk, hsk, rfl⟩
    · cases h

/-- What was read is no longer unread, and the thread goes on reading. -/
theorem Watched.readData (hw : Watched s edges) {e : Event} {len : ℕ} {data : List UInt8}
    {k : Kernel n} {sk₀ : SockId} (hpc : (s.io t).pc = .rdRead e)
    (hk : k = s.kernel.setSock sk₀
      { s.kernel.socks sk₀ with unread := (s.kernel.socks sk₀).unread.drop len }) :
    Watched (s.readData t e data k) edges := by
  subst hk
  refine hw.thread (t := t) rfl rfl rfl (fun sk hready => ?_) rfl (hw.events t)
    fun f sk _ _ hholds => ?_
  · change (Function.update s.kernel.socks sk₀ _ sk).readable = true at hready
    by_cases hsk : sk = sk₀
    · subst hsk
      rw [Function.update_self] at hready
      unfold Sock.readable at hready ⊢
      cases hunread : (s.kernel.socks sk).unread with
      | nil =>
        rw [hunread, List.drop_nil] at hready
        exact hready
      | cons => rfl
    · rwa [Function.update_of_ne hsk] at hready
  · refine hholds.of_batch rfl fun e' he' _ => ?_
    rwa [hpc] at he'

/-- What is left to read stays in hand: a thread reads until `read` would block. -/
theorem Watched.read (hw : Watched s edges) {e : Event} {r : IoResult}
    (hpc : (s.io t).pc = .rdRead e) (hs : s.ioStep t r = some s') : Watched s' edges := by
  have hgo : ∀ {pc : IoPc}, (pc.reading? = some e ∨ s.kernel.readAgain e.fd = true) →
      Watched (s.setIoPc t pc) edges := by
    intro pc hnext
    refine hw.thread rfl rfl rfl (fun _ h => h) rfl (hw.events t) fun f sk hopen hready hholds => ?_
    refine hholds.of_batch rfl fun e' he' hf => ?_
    rw [hpc] at he'
    cases he'
    rcases hnext with hreading | hagain
    · exact hreading
    · -- nothing is left
      subst hf
      rw [Kernel.readAgain, sockAt_eq hopen] at hagain
      simp only [Bool.and_eq_true, Bool.not_eq_true'] at hagain
      simp [Sock.readable, hagain.1, hagain.2] at hready
  simp only [ioStep, hpc] at hs
  cases r with
  | got len =>
    obtain ⟨⟨data, k⟩, hk, rfl⟩ := Option.map_eq_some_iff.mp hs
    obtain ⟨sk, -, hk'⟩ := readBytes_kernel hk
    exact hw.readData hpc hk'
  | eof =>
    simp only [readStep] at hs
    split at hs <;> cases hs
    exact hgo (.inl rfl)
  | again =>
    simp only [readStep] at hs
    split at hs <;> cases hs
    exact hgo (.inr ‹_›)
  | err =>
    cases hs
    exact hgo (.inl rfl)
  | _ => cases hs

/-- The next event is one of a readable client. -/
theorem Watched.next (hw : Watched s edges) (hpc : (s.io t).pc = .next) :
    Watched (s.nextEvent t) edges := by
  have hidle : (s.io t).pc.reading? = none := by
    rw [hpc]
    rfl
  unfold nextEvent
  split
  · exact hw.thread rfl rfl rfl (fun _ h => h) rfl (hw.events t) fun f sk _ _ hholds =>
      .inl (hholds.mem_batch hidle)
  · next e rest hb =>
    have hin : e.epollin = true := hw.events t e (by rw [hb]; exact List.mem_cons_self)
    rw [hin, if_pos rfl]
    refine hw.thread rfl rfl rfl (fun _ h => h) rfl (fun e' he' => ?_) fun f sk _ _ hholds => ?_
    · exact hw.events t e' (by rw [hb]; exact List.mem_cons_of_mem e he')
    · obtain ⟨e', he', hf⟩ := hholds.mem_batch hidle
      rw [hb] at he'
      rcases List.mem_cons.mp he' with rfl | hrest
      · exact .inr ⟨e', rfl, hf⟩
      · exact .inl ⟨e', hrest, hf⟩

/-- `EPOLL_CTL_DEL` takes the registration with its edge. -/
theorem Watched.del (hw : Watched s edges) (hd : Descriptors s) {e : Event}
    (hpc : (s.io t).pc = .clDel e) :
    Watched ((s.setKernel (s.kernel.epollDel t e.fd)).setIoPc t (.clRemove e))
      (if (s.kernel.reg t e.fd).isSome then s.setEdge edges e.fd false else edges) := by
  have hhand : ∀ f, (s.io t).Holds f → IoThread.Holds { s.io t with pc := .clRemove e } f := by
    intro f hholds
    refine hholds.of_batch rfl fun e' he' _ => ?_
    rw [hpc] at he'
    cases he'
  cases hreg : s.kernel.reg t e.fd with
  | none =>
    -- there is nothing to remove
    have hsame : s.kernel.epollDel t e.fd = s.kernel := by
      have hupdate : Function.update s.kernel.reg t (Function.update (s.kernel.reg t) e.fd none) =
          s.kernel.reg := by
        rw [← hreg, Function.update_eq_self, Function.update_eq_self]
      rw [Kernel.epollDel, Kernel.setReg, hupdate]
    rw [hsame, Option.isSome_none, if_neg Bool.false_ne_true]
    exact hw.thread rfl rfl rfl (fun _ h => h) rfl (hw.events t) fun f _ _ _ => hhand f
  | some mask =>
    have hserved := hd.listed t e.fd mask hreg
    obtain ⟨sk, hopen, -⟩ := id hserved
    rw [Option.isSome_some, if_pos rfl, setEdge_eq hopen]
    refine hw.clear hd hopen rfl rfl rfl (fun _ _ h => h) (fun _ _ => rfl) (fun t' f' mask' h => ?_)
      (fun t' f' hf => ?_) (hw.events t) (fun f' _ => hhand f') fun t' hsome => ?_
    · change (s.kernel.setReg t e.fd none).reg t' f' = _ at h
      by_cases heq : (t', f') = (t, e.fd)
      · cases heq
        rw [Kernel.setReg_same] at h
        cases h
      · rwa [Kernel.setReg_of_ne _ _ heq] at h
    · refine Kernel.setReg_of_ne _ _ fun heq => ?_
      cases heq
      exact hf rfl
    · change ((s.kernel.setReg t e.fd none).reg t' e.fd).isSome = true at hsome
      by_cases ht : t' = t
      · subst ht
        rw [Kernel.setReg_same] at hsome
        cases hsome
      · have hne : (t', e.fd) ≠ (t, e.fd) := fun heq => ht (Prod.mk.inj heq).1
        rw [Kernel.setReg_of_ne _ _ hne] at hsome
        obtain ⟨mask', hmask'⟩ := Option.isSome_iff_exists.mp hsome
        exact (ht ((hd.listed t' e.fd mask' hmask').unique hserved)).elim

/-- A step of an IO thread keeps the discipline. -/
theorem Watched.io (hw : Watched s edges) (hd : Descriptors s) {r : IoResult}
    (hok : Delivers (s, edges) (.io t r)) (hs : s.ioStep t r = some s') :
    Watched s' (s.armIo edges t r) := by
  have hnone : ∀ {pc : IoPc}, (s.io t).pc = pc → pc.signals = false →
      s.armIo edges t r = edges := by
    intro pc hpc hplain
    exact armIo_eq (hpc ▸ hplain)
  have hwrites : ∀ {pc : IoPc}, (s.io t).pc = pc → pc.Writes → False := by
    intro pc hpc hwrites
    exact (hd.io t).noWrite (hpc ▸ hwrites)
  -- a step that keeps what is in hand
  have hgo : ∀ {th : IoThread}, s'.io = Function.update s.io t th → s'.kernel = s.kernel →
      s'.added = s.added → th.batch = (s.io t).batch →
      (∀ e, (s.io t).pc.reading? = some e → th.pc.reading? = some e) → Watched s' edges := by
    intro th hio hkernel hadded hbatch hreading
    refine hw.thread hio (by rw [hkernel]) (by rw [hkernel]) (fun sk h => ?_) hadded
      (by rw [hbatch]; exact hw.events t) fun f sk _ _ hholds => ?_
    · rwa [hkernel] at h
    · exact hholds.of_batch hbatch fun e he _ => hreading e he
  cases hpc : (s.io t).pc with
  | wait => exact hw.wait hd hpc hok hs
  | next =>
    rw [hnone hpc rfl]
    simp only [ioStep, hpc] at hs
    cases hs
    exact hw.next hpc
  | rdRead e =>
    rw [hnone hpc rfl]
    exact hw.read hpc hs
  | rdAdd e buffer =>
    rw [hnone hpc rfl]
    simp only [ioStep, hpc] at hs
    cases hs
    refine hgo rfl rfl rfl rfl fun e' he' => ?_
    rwa [hpc] at he'
  | clClose e =>
    obtain ⟨⟨sk, hopen, ha⟩, hother⟩ := (hd.io t).reading e (by rw [hpc]; rfl)
    simp only [ioStep, hpc] at hs
    cases hs
    have harm : s.armIo edges t r = Function.update edges sk false := by
      rw [← setEdge_eq hopen]
      simp only [armIo, hpc]
    rw [harm]
    refine hw.clear hd hopen rfl (Kernel.close_socks ..) rfl (fun f sk' h => ?_) (fun f hf => ?_)
      (fun t' f mask h => (s.kernel.close_reg_some h).1)
      (fun t' f hf => Kernel.close_reg_of_ne _ hf t') (hw.events t) (fun f hf hholds => ?_)
        fun t' hsome => ?_
    · change (s.kernel.close e.fd).fds f = _ at h
      rw [Kernel.close_fds] at h
      by_cases hf : f = e.fd
      · rw [hf, Function.update_self] at h
        cases h
      · rwa [Function.update_of_ne hf] at h
    · change (s.kernel.close e.fd).fds f = _
      rw [Kernel.close_fds, Function.update_of_ne hf]
    · refine hholds.of_batch rfl fun e' he' hf' => ?_
      rw [hpc] at he'
      cases he'
      exact (hf hf'.symm).elim
    · obtain ⟨mask, hmask⟩ := Option.isSome_iff_exists.mp hsome
      have hne := (s.kernel.close_reg_some hmask).2 (by rw [hopen]; rfl)
      exact (hne rfl).elim
  | clDel e =>
    simp only [ioStep, hpc] at hs
    cases hs
    simp only [armIo, hpc]
    exact hw.del hd hpc
  | clRemove e =>
    rw [hnone hpc rfl]
    simp only [ioStep, hpc] at hs
    cases hs
    refine hgo rfl rfl rfl rfl fun e' he' => ?_
    rw [hpc] at he'
    cases he'
  | wrGet e =>
    rw [hnone hpc rfl]
    simp only [ioStep, hpc] at hs
    cases hs
    refine hgo rfl rfl rfl rfl fun e' he' => ?_
    rw [hpc] at he'
    cases he'
  | wrWrite | wrMod | wrRemove | wrClose => exact (hwrites hpc trivial).elim

/-! ### The other threads -/

/-- A change of a socket that is not signalled. -/
theorem Watched.setSock (hw : Watched s edges) (hd : Descriptors s) {f : Fd} {sk : SockId}
    {v : Sock} (hopen : s.kernel.fds f = some (.client sk))
    (hready : s.kernel.watches f = true → v.readable = true → (s.kernel.socks sk).readable = true) :
    Watched (s.setKernel (s.kernel.setSock sk v)) edges := by
  refine ⟨hw.events, hw.masks, hw.listed, fun t f' sk' hsome hopen' hready' => ?_⟩
  change (Function.update s.kernel.socks sk v sk').readable = true at hready'
  by_cases hsk : sk' = sk
  · subst hsk
    rw [Function.update_self] at hready'
    have hf : f' = f := hd.inj f' f sk' hopen' hopen
    subst hf
    exact hw.seen t f' sk' hsome hopen' (hready (decide_eq_true ⟨t, hsome⟩) hready')
  · rw [Function.update_of_ne hsk] at hready'
    exact hw.seen t f' sk' hsome hopen' hready'

/-- A change of a registered socket that is signalled. -/
theorem Watched.signal (hw : Watched s edges) (hd : Descriptors s) {f : Fd} {sk : SockId} {v : Sock}
    (hopen : s.kernel.fds f = some (.client sk)) (hwatches : s.kernel.watches f = true) :
    Watched (s.setKernel (s.kernel.setSock sk v)) (Function.update edges sk true) := by
  refine ⟨hw.events, hw.masks, fun sk' hedge => ?_, fun t f' sk' hsome hopen' hready' => ?_⟩
  · by_cases hsk : sk' = sk
    · subst hsk
      obtain ⟨t, hsome⟩ := of_decide_eq_true hwatches
      obtain ⟨mask, hmask⟩ := Option.isSome_iff_exists.mp hsome
      obtain ⟨sk₁, hopen₁, ha⟩ := hd.listed t f mask hmask
      rw [hopen] at hopen₁
      cases hopen₁
      exact ⟨t, f, ha, hopen, hsome⟩
    · rw [Function.update_of_ne hsk] at hedge
      exact hw.listed sk' hedge
  · by_cases hsk : sk' = sk
    · left
      rw [hsk, Function.update_self]
    · change (Function.update s.kernel.socks sk v sk').readable = true at hready'
      rw [Function.update_of_ne hsk] at hready' ⊢
      exact hw.seen t f' sk' hsome hopen' hready'

/-- The number of an accepted socket. -/
theorem fds_of_sockAt {k : Kernel n} {f : Fd} {sk : SockId} (h : k.sockAt f = some sk) :
    k.fds f = some (.client sk) := by
  unfold Kernel.sockAt at h
  split at h
  · next hopen => rw [hopen, Option.some.inj h]
  · cases h

/-- A step of the clients keeps the discipline: what they change is signalled. -/
theorem Watched.env (hw : Watched s edges) (hd : Descriptors s) {e : Environment}
    (hs : s.envStep e = some s') :
    Watched s' (s.armEnv edges e) := by
  cases e with
  | data f bytes =>
    simp only [envStep] at hs
    split at hs
    · cases hs
    · next sk hsk =>
      cases hs
      have hopen := fds_of_sockAt hsk
      simp only [armEnv]
      split
      · next harm =>
        rw [setEdge_eq hopen]
        exact hw.signal hd hopen (Bool.and_eq_true_iff.mp harm).1
      · next harm =>
        refine hw.setSock hd hopen fun hwatches hready => ?_
        -- nothing has arrived
        rw [hwatches, Bool.true_and, Bool.not_eq_true', Bool.not_eq_false, List.isEmpty_iff] at harm
        rwa [harm, List.append_nil] at hready
  | peerClose f =>
    simp only [envStep] at hs
    split at hs
    · cases hs
    · next sk hsk =>
      cases hs
      have hopen := fds_of_sockAt hsk
      simp only [armEnv]
      split
      · next harm =>
        rw [setEdge_eq hopen]
        exact hw.signal hd hopen harm
      · next harm => exact hw.setSock hd hopen fun hwatches _ => (harm hwatches).elim

/-- A new socket is not registered yet. -/
theorem Watched.accept (hw : Watched s edges) (hd : Descriptors s) {f : Fd}
    (hf : s.kernel.fds f = none) :
    Watched ((s.setKernel { s.kernel with
      fds := Function.update s.kernel.fds f (some (.client s.kernel.nextSock))
      socks := Function.update s.kernel.socks s.kernel.nextSock ⟨[], false, []⟩
      nextSock := s.kernel.nextSock + 1 }).setMain (.dispatch f s.kernel.nextSock)) edges := by
  have hne : ∀ f' sk, s.kernel.fds f' = some (.client sk) → f' ≠ f := by
    intro f' sk hopen heq
    rw [heq, hf] at hopen
    cases hopen
  refine ⟨hw.events, hw.masks, fun sk hedge => ?_, fun t f' sk hsome hopen hready => ?_⟩
  · obtain ⟨t, f', ha, hopen, hsome⟩ := hw.listed sk hedge
    refine ⟨t, f', ha, ?_, hsome⟩
    change Function.update s.kernel.fds f _ f' = _
    rw [Function.update_of_ne (hne f' sk hopen), hopen]
  · obtain ⟨mask, hmask⟩ := Option.isSome_iff_exists.mp hsome
    obtain ⟨sk₁, hopen₁, -⟩ := hd.listed t f' mask hmask
    change Function.update s.kernel.fds f _ f' = _ at hopen
    rw [Function.update_of_ne (hne f' sk₁ hopen₁)] at hopen
    have hsk : sk ≠ s.kernel.nextSock := (hd.bound f' sk hopen).ne
    change (Function.update s.kernel.socks s.kernel.nextSock _ sk).readable = true at hready
    rw [Function.update_of_ne hsk] at hready
    exact hw.seen t f' sk hsome hopen hready

/-- `EPOLL_CTL_ADD` signals what has arrived before. -/
theorem Watched.add (hw : Watched s edges) (hd : Descriptors s) {f : Fd} {sk : SockId}
    (hpc : s.main = .add t f sk) :
    Watched { s with
      kernel := s.kernel.setReg t f (some { epollin := true, epollout := false })
      main := .accept
      added := Function.update s.added sk (some t) }
      (Function.update edges sk (s.kernel.socks sk).readable) := by
  have hpending : s.main.pending? = some (f, sk) := by
    rw [hpc]
    rfl
  obtain ⟨hopen, hnone⟩ := hd.pending f sk hpending
  refine ⟨hw.events, fun t' f' mask h => ?_, fun sk' hedge => ?_,
    fun t' f' sk' hsome hopen' hready => ?_⟩
  · by_cases heq : (t', f') = (t, f)
    · cases heq
      change (s.kernel.setReg t f _).reg t f = _ at h
      rw [Kernel.setReg_same] at h
      cases h
      rfl
    · change (s.kernel.setReg t f _).reg t' f' = _ at h
      rw [Kernel.setReg_of_ne _ _ heq] at h
      exact hw.masks t' f' mask h
  · by_cases hsk : sk' = sk
    · subst hsk
      refine ⟨t, f, Function.update_self .., hopen, ?_⟩
      change ((s.kernel.setReg t f _).reg t f).isSome = true
      rw [Kernel.setReg_same]
      rfl
    · rw [Function.update_of_ne hsk] at hedge
      obtain ⟨t₁, f₁, ha, hopen₁, hsome⟩ := hw.listed sk' hedge
      refine ⟨t₁, f₁, ?_, hopen₁, ?_⟩
      · change Function.update s.added sk _ sk' = _
        rw [Function.update_of_ne hsk, ha]
      · have hne : (t₁, f₁) ≠ (t, f) := by
          intro heq
          cases heq
          rw [hopen] at hopen₁
          cases hopen₁
          exact hsk rfl
        change ((s.kernel.setReg t f _).reg t₁ f₁).isSome = true
        rwa [Kernel.setReg_of_ne _ _ hne]
  · by_cases hsk : sk' = sk
    · subst hsk
      left
      rwa [Function.update_self]
    · change s.kernel.fds f' = some (.client sk') at hopen'
      have hne : (t', f') ≠ (t, f) := by
        intro heq
        cases heq
        rw [hopen] at hopen'
        cases hopen'
        exact hsk rfl
      change ((s.kernel.setReg t f _).reg t' f').isSome = true at hsome
      rw [Kernel.setReg_of_ne _ _ hne] at hsome
      rw [Function.update_of_ne hsk]
      exact hw.seen t' f' sk' hsome hopen' hready

/-- A socket that could not be registered is closed. -/
theorem Watched.closePending (hw : Watched s edges) (hd : Descriptors s) {f : Fd} {sk : SockId}
    (hpc : s.main = .addFailed f sk) :
    Watched ((s.setKernel (s.kernel.close f)).setMain .accept) edges := by
  have hpending : s.main.pending? = some (f, sk) := by
    rw [hpc]
    rfl
  have hne : ∀ t f', (s.kernel.reg t f').isSome = true → f' ≠ f := by
    intro t f' hsome heq
    obtain ⟨mask, hmask⟩ := Option.isSome_iff_exists.mp hsome
    rw [heq] at hmask
    exact hd.not_served hpending (hd.listed t f mask hmask)
  refine ⟨hw.events, fun t f' mask h => ?_, fun sk' hedge => ?_,
    fun t f' sk' hsome hopen hready => ?_⟩
  · exact hw.masks t f' mask (s.kernel.close_reg_some h).1
  · obtain ⟨t, f', ha, hopen, hsome⟩ := hw.listed sk' hedge
    have hf := hne t f' hsome
    refine ⟨t, f', ha, ?_, ?_⟩
    · change (s.kernel.close f).fds f' = _
      rw [Kernel.close_fds, Function.update_of_ne hf, hopen]
    · change ((s.kernel.close f).reg t f').isSome = true
      rwa [Kernel.close_reg_of_ne _ hf]
  · obtain ⟨mask, hmask⟩ := Option.isSome_iff_exists.mp hsome
    have hold := (s.kernel.close_reg_some hmask).1
    have hf := hne t f' (Option.isSome_iff_exists.mpr ⟨mask, hold⟩)
    change (s.kernel.close f).fds f' = _ at hopen
    rw [Kernel.close_fds, Function.update_of_ne hf] at hopen
    rw [setMain_kernel, setKernel_kernel, Kernel.close_socks] at hready
    exact hw.seen t f' sk' (Option.isSome_iff_exists.mpr ⟨mask, hold⟩) hopen hready

/-- A step of the main thread keeps the discipline: `EPOLL_CTL_ADD` signals what has arrived
before. -/
theorem Watched.main (hw : Watched s edges) (hd : Descriptors s) {r : MainResult}
    (hs : s.mainStep r = some s') :
    Watched s' (s.armMain edges r) := by
  have hplain : (∀ t f sk, s.main ≠ .add t f sk) → s.armMain edges r = edges := by
    intro hne
    unfold armMain
    split
    · next hpc => exact (hne _ _ _ hpc).elim
    · rfl
  cases hpc : s.main with
  | accept =>
    rw [hplain (by simp [hpc])]
    simp only [mainStep, hpc] at hs
    cases r with
    | ok => cases hs
    | fail =>
      cases hs
      exact hw
    | accepted f =>
      simp only [acceptSocket, Option.isNone_iff_eq_none] at hs
      split at hs
      · next hf =>
        cases hs
        exact hw.accept hd hf
      · cases hs
  | dispatch f sk =>
    rw [hplain (by simp [hpc])]
    simp only [mainStep, hpc] at hs
    obtain ⟨t, -, rfl⟩ := Option.map_eq_some_iff.mp hs
    exact ⟨hw.events, hw.masks, hw.listed, hw.seen⟩
  | add t f sk =>
    have hfailed : Watched (s.setMain (.addFailed f sk)) edges :=
      ⟨hw.events, hw.masks, hw.listed, hw.seen⟩
    simp only [mainStep, hpc] at hs
    cases r with
    | ok =>
      cases hs
      simp only [armMain, hpc, addConn]
      cases hk : s.kernel.epollAdd t f { epollin := true, epollout := false } with
      | none => exact hfailed
      | some k =>
        unfold Kernel.epollAdd at hk
        split at hk
        · cases hk
          exact hw.add hd hpc
        · cases hk
    | fail =>
      cases hs
      simp only [armMain, hpc]
      exact hfailed
    | accepted => cases hs
  | addFailed f sk =>
    rw [hplain (by simp [hpc])]
    simp only [mainStep, hpc] at hs
    cases hs
    exact hw.closePending hd hpc

end watched

/-- In every run the discipline is kept. -/
theorem reachable_watched {p : State n × Edges} (h : (edgeServer n).ReachableUnder Delivers p) :
    Watched p.1 p.2 := by
  refine h.invariant (I := fun p => Watched p.1 p.2) (fun p hinit => ?_)
    fun p a p' hr hw hok hs => ?_
  · obtain ⟨⟨sys, hs⟩, hedges⟩ := hinit
    rw [hs, hedges]
    refine ⟨fun t e he => ?_, fun t f mask hmask => ?_, fun sk hedge => ?_, fun t f sk hsome => ?_⟩
    · cases he
    · cases hmask
    · cases hedge
    · cases hsome
  · have hd := reachable_descriptors (TransitionSystem.Reachable.of_recording hr.reachable)
    obtain ⟨s, edges⟩ := p
    obtain ⟨hstep, harm⟩ := TransitionSystem.recording_step.mp hs
    rw [← harm]
    cases a with
    | main r => exact hw.main hd hstep
    | io t r => exact hw.io hd hok hstep
    | worker =>
      have hs' : p'.1 = s.workerStep := (Option.some.inj hstep).symm
      rw [hs']
      exact ⟨hw.events, hw.masks, hw.listed, hw.seen⟩
    | env e => exact hw.env hd hstep

/-- Neither signalled nor in hand, so not readable. -/
theorem Watched.readable_eq_false {s : State n} {edges : Edges} (hw : Watched s edges) {t : Fin n}
    {f : Fd} {sk : SockId} (hreg : (s.kernel.reg t f).isSome = true)
    (hopen : s.kernel.fds f = some (.client sk)) (hedge : edges sk = false)
    (hhand : ¬(s.io t).Holds f) : (s.kernel.socks sk).readable = false := by
  rw [← Bool.not_eq_true]
  intro hready
  rcases hw.seen t f sk hreg hopen hready with harmed | hholds
  · rw [hedge] at harmed
    cases harmed
  · exact hhand hholds

/-- A registered client whose edge is not armed, and which its thread is not about to read or close,
was read to the end of what has arrived, and has not shut down. -/
theorem read_to_the_end {p : State n × Edges} (h : (edgeServer n).ReachableUnder Delivers p)
    {t : Fin n} {f : Fd} {sk : SockId} (hreg : (p.1.kernel.reg t f).isSome = true)
    (hopen : p.1.kernel.fds f = some (.client sk)) (hedge : p.2 sk = false)
    (hhand : ¬(p.1.io t).Holds f) :
    (p.1.kernel.socks sk).unread = [] ∧ (p.1.kernel.socks sk).peerClosed = false := by
  have hready := (reachable_watched h).readable_eq_false hreg hopen hedge hhand
  simpa [Sock.readable] using hready

theorem read_to_the_end_one :
    ∃ p : State 1 × Edges, (edgeServer 1).ReachableUnder Delivers p ∧ p.1.readFrom 10 = [65, 66] ∧
      (p.1.kernel.socks 0).unread = [] ∧ (p.1.kernel.socks 0).peerClosed = false := by
  obtain ⟨p, hp, hstate⟩ := TransitionSystem.exists_of_execUnder (edgeServer 1) Delivers
    (s := (State.start fun _ => false, fun _ => false))
    (Action.connect 10 ++ ([.env (.data 10 [65, 66])] : List (Action 1)) ++ Action.deliver 0 10 ++
      ([.io 0 (.got 1), .io 0 .ok, .io 0 (.got 1), .io 0 .ok, .io 0 .again] : List (Action 1)))
    (fun p : State 1 × Edges =>
      decide (p.1.readFrom 10 = [65, 66] ∧ p.1.kernel.fds 10 = some (.client 0) ∧ p.2 0 = false ∧
        (p.1.io 0).pc.reading? = none) && (p.1.io 0).batch.isEmpty && (p.1.kernel.reg 0 10).isSome)
    ⟨⟨_, rfl⟩, rfl⟩ rfl
  rw [Bool.and_eq_true, Bool.and_eq_true, decide_eq_true_eq, List.isEmpty_iff] at hstate
  obtain ⟨⟨⟨hread, hopen, hedge, hidle⟩, hbatch⟩, hreg⟩ := hstate
  refine ⟨p, hp, hread, read_to_the_end hp hreg hopen hedge fun hholds => ?_⟩
  rcases hholds with ⟨e, he, -⟩ | ⟨e, he, -⟩
  · rw [hbatch] at he
    cases he
  · rw [hidle] at he
    cases he

end DeepInIo.ReactorServer
