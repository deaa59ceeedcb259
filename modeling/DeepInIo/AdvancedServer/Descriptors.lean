import DeepInIo.AdvancedServer.RefCount

/-!
# Descriptors

Which descriptor number belongs to which connection, while numbers are reused as the kernel likes.
A connection has its descriptor as long as its owner has not marked it (`Descriptors.live`), and
then the number stands for the socket that was accepted for it.
-/

namespace DeepInIo.AdvancedServer

open State

variable {n m : ℕ}

/-! ### Sockets in the hands of the main thread -/

namespace MainPc

/-- The accepted socket that has no connection yet. -/
def socket? : MainPc n → Option (Fd × SockId)
  | .getThread f s | .create _ f s => some (f, s)
  | _ => none

/-- The connection that is not handed over yet, with its socket. -/
def handing? : MainPc n → Option (ConnId × Fd × SockId)
  | .handoff _ c f s | .drop c f s => some (c, f, s)
  | _ => none

/-- The socket that is closed because it was not handed over. -/
def refused? : MainPc n → Option (Fd × SockId)
  | .closeClient f s => some (f, s)
  | _ => none

end MainPc

/-- `server_destroy` closes the descriptor, which it does not for those of the message pipes. -/
def SysFile.destroyed : SysFile n → Bool
  | .msgPipe _ _ => false
  | _ => true

/-- The server's own descriptors have different numbers. -/
theorem Config.sysFd_injective (cfg : Config n) : Function.Injective cfg.sysFd := by
  intro x y h
  have hx := cfg.fds_sysFd x
  rw [h, cfg.fds_sysFd y] at hx
  injection hx with hx
  injection hx with hx
  exact hx.symm

/-- The descriptors of the connections. -/
structure ConnFiles (s : State n m) : Prop where
  live : ∀ c, (s.owner c).live = true →
    ∃ f, (s.conns c).fd = some f ∧ s.kernel.fds f = some (.client (s.conns c).sock)
  dead : ∀ c, (s.owner c).live = false → (s.conns c).fd = none
  bound : ∀ f sk, s.kernel.fds f = some (.client sk) → sk < s.kernel.nextSock
  inj : ∀ f f' sk, s.kernel.fds f = some (.client sk) → s.kernel.fds f' = some (.client sk) → f = f'
  sock_lt : ∀ c, s.owner c ≠ .unborn → (s.conns c).sock < s.kernel.nextSock
  sock_inj : ∀ c c', s.owner c ≠ .unborn → s.owner c' ≠ .unborn →
    (s.conns c).sock = (s.conns c').sock → c = c'

/-- The descriptors in the hands of the main thread, and those the server opened for itself. -/
structure MainFiles (cfg : Config n) (s : State n m) : Prop where
  accepted : ∀ f sk, s.main.socket? = some (f, sk) →
    s.kernel.fds f = some (.client sk) ∧ ∀ c, s.owner c ≠ .unborn → (s.conns c).sock ≠ sk
  handing : ∀ c f sk, s.main.handing? = some (c, f, sk) →
    (s.conns c).fd = some f ∧ (s.conns c).sock = sk
  refused : ∀ f sk, s.main.refused? = some (f, sk) →
    (s.kernel.fds f = none ∨ s.kernel.fds f = some (.client sk)) ∧
      ∀ c, (s.owner c).live = true → (s.conns c).sock ≠ sk
  sys : ∀ x, s.kernel.fds (cfg.sysFd x) = some (.sys x) ∨
    ((¬s.Running ∧ x.destroyed = true) ∧ s.kernel.fds (cfg.sysFd x) = none)

/-- The descriptors of the server and of its connections. -/
structure Descriptors (cfg : Config n) (s : State n m) : Prop where
  conn : ConnFiles s
  main : MainFiles cfg s

/-! ### Steps that do not concern the descriptors -/

/-- The fields of a connection that matter for its descriptor. -/
structure Conn.SameFd (k k' : Conn n) : Prop where
  fd : k'.fd = k.fd
  sock : k'.sock = k.sock
  live : k'.owner.live = k.owner.live
  born : k'.owner = .unborn ↔ k.owner = .unborn

theorem Conn.SameFd.refl (k : Conn n) : k.SameFd k := ⟨rfl, rfl, rfl, Iff.rfl⟩

theorem sameFd_update {f : ConnId → Conn n} {c₀ : ConnId} {k : Conn n} (h : (f c₀).SameFd k)
    (c : ConnId) : (f c).SameFd (Function.update f c₀ k c) := by
  by_cases hc : c = c₀
  · subst hc; simpa using h
  · simpa [hc] using Conn.SameFd.refl (f c)

section preservation

variable {cfg : Config n} {s s' : State n m}

/-- A step that keeps the descriptor table and the descriptors of the connections. -/
theorem ConnFiles.congr (h : ConnFiles s) (hk : s.kernel.SameFiles s'.kernel)
    (hc : ∀ c, (s.conns c).SameFd (s'.conns c)) : ConnFiles s' := by
  have hlive : ∀ c, (s'.owner c).live = (s.owner c).live := fun c => (hc c).live
  have hborn : ∀ c, s'.owner c ≠ .unborn ↔ s.owner c ≠ .unborn := fun c => not_congr (hc c).born
  refine ⟨fun c => ?_, fun c => ?_, ?_, ?_, fun c => ?_, fun c c' => ?_⟩
  · rw [hlive, (hc c).fd, (hc c).sock, hk.fds]; exact h.live c
  · rw [hlive, (hc c).fd]; exact h.dead c
  · rw [hk.fds, hk.nextSock]; exact h.bound
  · rw [hk.fds]; exact h.inj
  · rw [hborn, (hc c).sock, hk.nextSock]; exact h.sock_lt c
  · rw [hborn, hborn, (hc c).sock, (hc c').sock]; exact h.sock_inj c c'

/-- The step concerns the main thread neither. -/
theorem MainFiles.congr (h : MainFiles cfg s) (hk : s.kernel.SameFiles s'.kernel)
    (hc : ∀ c, (s.conns c).SameFd (s'.conns c)) (hm : s'.main = s.main) : MainFiles cfg s' := by
  have hlive : ∀ c, (s'.owner c).live = (s.owner c).live := fun c => (hc c).live
  have hborn : ∀ c, s'.owner c ≠ .unborn ↔ s.owner c ≠ .unborn := fun c => not_congr (hc c).born
  refine ⟨fun f sk => ?_, fun c f sk => ?_, fun f sk => ?_, fun x => ?_⟩
  · simp only [hm, hk.fds, hborn, (hc _).sock]; exact h.accepted f sk
  · rw [hm, (hc c).fd, (hc c).sock]; exact h.handing c f sk
  · simp only [hm, hk.fds, hlive, (hc _).sock]; exact h.refused f sk
  · rw [hk.fds, State.Running, hm]; exact h.sys x

theorem Descriptors.congr (h : Descriptors cfg s) (hk : s.kernel.SameFiles s'.kernel)
    (hc : ∀ c, (s.conns c).SameFd (s'.conns c)) (hm : s'.main = s.main) : Descriptors cfg s' :=
  ⟨h.conn.congr hk hc, h.main.congr hk hc hm⟩

/-- The main thread holds no socket after the step. -/
theorem MainFiles.idle (h : MainFiles cfg s) (hk : s.kernel.SameFiles s'.kernel)
    (h1 : s'.main.socket? = none) (h2 : s'.main.handing? = none) (h3 : s'.main.refused? = none)
    (hr : s'.Running → s.Running) : MainFiles cfg s' := by
  refine ⟨fun f sk hs => ?_, fun c f sk hs => ?_, fun f sk hs => ?_, fun x => ?_⟩
  · rw [h1] at hs; cases hs
  · rw [h2] at hs; cases hs
  · rw [h3] at hs; cases hs
  · rw [hk.fds]
    exact (h.sys x).imp_right (And.imp_left (And.imp_left (mt hr)))

/-! ### A number that belongs to no connection is closed -/

/-- Closing a number that no connection has does not concern the connections. -/
theorem ConnFiles.closeOther (h : ConnFiles s) {f : Fd} (hc : s'.conns = s.conns)
    (hfds : ∀ f', s'.kernel.fds f' = if f' = f then none else s.kernel.fds f')
    (hn : s'.kernel.nextSock = s.kernel.nextSock)
    (hf : ∀ c, (s.owner c).live = true → s.kernel.fds f ≠ some (.client (s.conns c).sock)) :
    ConnFiles s' := by
  have howner : s'.owner = s.owner := by funext c; rw [State.owner, State.owner, hc]
  have hold : ∀ f' sk, s'.kernel.fds f' = some (.client sk) →
      s.kernel.fds f' = some (.client sk) := by
    intro f' sk hf'
    rw [hfds] at hf'
    split at hf'
    · cases hf'
    · exact hf'
  refine ⟨fun c hl => ?_, fun c hl => ?_, fun f' sk hf' => ?_, fun f₁ f₂ sk h₁ h₂ => ?_,
    fun c hb => ?_, fun c c' hb hb' heq => ?_⟩
  · rw [howner] at hl
    obtain ⟨f', hf', hopen⟩ := h.live c hl
    have hne : f' ≠ f := by
      rintro rfl
      exact hf c hl hopen
    exact ⟨f', by rw [hc, hf'], by rw [hfds, if_neg hne, hc, hopen]⟩
  · rw [howner] at hl
    rw [hc]
    exact h.dead c hl
  · rw [hn]; exact h.bound f' sk (hold f' sk hf')
  · exact h.inj f₁ f₂ sk (hold f₁ sk h₁) (hold f₂ sk h₂)
  · rw [howner] at hb
    rw [hc, hn]
    exact h.sock_lt c hb
  · rw [howner] at hb hb'
    rw [hc] at heq
    exact h.sock_inj c c' hb hb' heq

/-! ### A connection closes its descriptor -/

/-- The connection `c` closes its own descriptor and becomes `k`. -/
structure ClosesOwn (s s' : State n m) (c : ConnId) (k : Conn n) : Prop where
  live : (s.owner c).live = true
  kernel : s'.kernel = s.kernel.close (s.conns c).fd
  conns : s'.conns = Function.update s.conns c k
  fd : k.fd = none
  sock : k.sock = (s.conns c).sock
  dead : k.owner.live = false
  born : k.owner ≠ .unborn

namespace ClosesOwn

variable {c : ConnId} {k : Conn n}

theorem owner (h : ClosesOwn s s' c k) : s'.owner = Function.update s.owner c k.owner := by
  funext c'
  by_cases hc : c' = c
  · subst hc; simp [State.owner, h.conns]
  · simp [State.owner, h.conns, hc]

/-- The table changes at the connection's own number only. -/
theorem fds (h : ClosesOwn s s' c k) (hd : ConnFiles s) :
    ∃ f, (s.conns c).fd = some f ∧ s.kernel.fds f = some (.client (s.conns c).sock) ∧
      ∀ f', s'.kernel.fds f' = if f' = f then none else s.kernel.fds f' := by
  obtain ⟨f, hf, hopen⟩ := hd.live c h.live
  refine ⟨f, hf, hopen, fun f' => ?_⟩
  rw [h.kernel, hf, Kernel.close_fds]

/-- The other connections keep their descriptors. -/
theorem connFiles (h : ClosesOwn s s' c k) (hd : ConnFiles s) : ConnFiles s' := by
  obtain ⟨f, hf, hopen, hfds⟩ := h.fds hd
  have hnext : s'.kernel.nextSock = s.kernel.nextSock := by rw [h.kernel, Kernel.close_nextSock]
  have hlive_born : ∀ c, (s.owner c).live = true → s.owner c ≠ .unborn := by
    intro c hc hu
    rw [hu] at hc
    cases hc
  have hold : ∀ f' sk, s'.kernel.fds f' = some (.client sk) →
      s.kernel.fds f' = some (.client sk) := by
    intro f' sk hf'
    rw [hfds] at hf'
    split at hf'
    · cases hf'
    · exact hf'
  have hsock : ∀ c', (s'.conns c').sock = (s.conns c').sock := by
    intro c'
    rw [h.conns]
    by_cases hc : c' = c
    · subst hc; rw [Function.update_self, h.sock]
    · rw [Function.update_of_ne hc]
  have hborn : ∀ c', s'.owner c' ≠ .unborn → s.owner c' ≠ .unborn := by
    intro c' hc'
    rw [h.owner] at hc'
    by_cases hc : c' = c
    · subst hc; exact hlive_born c' h.live
    · rwa [Function.update_of_ne hc] at hc'
  refine ⟨fun c' hc' => ?_, fun c' hc' => ?_, fun f' sk hf' => ?_, fun f₁ f₂ sk h₁ h₂ => ?_,
    fun c' hc' => ?_, fun c₁ c₂ h₁ h₂ heq => ?_⟩
  · rw [h.owner] at hc'
    by_cases hc : c' = c
    · subst hc
      rw [Function.update_self, h.dead] at hc'
      cases hc'
    · rw [Function.update_of_ne hc] at hc'
      obtain ⟨f', hf', hopen'⟩ := hd.live c' hc'
      have hne : f' ≠ f := by
        rintro rfl
        rw [hopen] at hopen'
        refine hc (hd.sock_inj c' c (hlive_born c' hc') (hlive_born c h.live) ?_)
        injection hopen' with hopen'
        injection hopen' with hopen'
        exact hopen'.symm
      refine ⟨f', ?_, ?_⟩
      · rw [h.conns, Function.update_of_ne hc, hf']
      · rw [hfds, if_neg hne, hsock, hopen']
  · by_cases hc : c' = c
    · subst hc; rw [h.conns, Function.update_self, h.fd]
    · rw [h.owner, Function.update_of_ne hc] at hc'
      rw [h.conns, Function.update_of_ne hc]
      exact hd.dead c' hc'
  · rw [hnext]; exact hd.bound f' sk (hold f' sk hf')
  · exact hd.inj f₁ f₂ sk (hold f₁ sk h₁) (hold f₂ sk h₂)
  · rw [hsock, hnext]; exact hd.sock_lt c' (hborn c' hc')
  · rw [hsock, hsock] at heq
    exact hd.sock_inj c₁ c₂ (hborn c₁ h₁) (hborn c₂ h₂) heq

/-- The descriptors of the main thread are not concerned. -/
theorem mainFiles (h : ClosesOwn s s' c k) (hd : ConnFiles s) (hi : MainFiles cfg s)
    (hm : s'.main = s.main) (hc : ∀ f sk, s.main.handing? ≠ some (c, f, sk)) :
    MainFiles cfg s' := by
  obtain ⟨f, hf, hopen, hfds⟩ := h.fds hd
  have hlive_born : s.owner c ≠ .unborn := by
    intro hu
    have := h.live
    rw [hu] at this
    cases this
  have hother : ∀ {c'}, c' ≠ c → s'.conns c' = s.conns c' := fun hne => by
    rw [h.conns, Function.update_of_ne hne]
  have hsock : ∀ c', (s'.conns c').sock = (s.conns c').sock := by
    intro c'
    by_cases hc : c' = c
    · subst hc; rw [h.conns, Function.update_self, h.sock]
    · rw [hother hc]
  refine ⟨fun f' sk hs => ?_, fun c' f' sk hs => ?_, fun f' sk hs => ?_, fun x => ?_⟩
  · rw [hm] at hs
    obtain ⟨h1, h2⟩ := hi.accepted f' sk hs
    have hne : f' ≠ f := by
      rintro rfl
      rw [hopen] at h1
      injection h1 with h1
      injection h1 with h1
      exact h2 c hlive_born h1
    refine ⟨by rw [hfds, if_neg hne, h1], fun c' hc' => ?_⟩
    rw [hsock]
    by_cases hcc : c' = c
    · subst hcc; exact h2 c' hlive_born
    · rw [h.owner, Function.update_of_ne hcc] at hc'
      exact h2 c' hc'
  · rw [hm] at hs
    have hne : c' ≠ c := by
      rintro rfl
      exact hc f' sk hs
    rw [hother hne]
    exact hi.handing c' f' sk hs
  · rw [hm] at hs
    obtain ⟨h1, h2⟩ := hi.refused f' sk hs
    refine ⟨?_, fun c' hc' => ?_⟩
    · rw [hfds]
      split
      · exact .inl rfl
      · exact h1
    · rw [hsock]
      by_cases hcc : c' = c
      · subst hcc; exact h2 c' h.live
      · rw [h.owner, Function.update_of_ne hcc] at hc'
        exact h2 c' hc'
  · have hne : cfg.sysFd x ≠ f := by
      rintro heq
      rcases hi.sys x with hx | ⟨-, hx⟩ <;> rw [heq, hopen] at hx <;> cases hx
    rw [hfds, if_neg hne, State.Running, hm]
    exact hi.sys x

end ClosesOwn

end preservation

/-! ### The threads keep the descriptors -/

section steps

variable {cfg : Config n} {s s' : State n m} {t : Fin n} {w : Fin m}

/-- A `conn_release` that leaves the owner reference closes nothing. -/
theorem release_quiet (hd : ConnFiles s) {c : ConnId}
    (hlt : s.ownerRefs c < (s.conns c).refCount) :
    (s.connRelease c).kernel = s.kernel ∧ (s.conns c).SameFd (s.conns c).release := by
  cases hlast : (s.conns c).lastRelease with
  | false => simp [hlast, Conn.SameFd.mk]
  | true =>
    have hzero : s.ownerRefs c = 0 := by
      simp only [Conn.lastRelease, decide_eq_true_eq] at hlast
      omega
    have hdead : (s.owner c).live = false := by
      rw [ownerRefs, Owner.refs] at hzero
      generalize s.owner c = o at hzero
      cases o <;> simp_all [Owner.live, Owner.held]
    have hfd := hd.dead c hdead
    refine ⟨by simp [hfd], by simp [hfd], rfl, rfl, Iff.rfl⟩

/-- Giving up the reference of a connection that no event loop has accepted closes its socket. -/
theorem closesOwn_drop (hi : Owned s) (hc : Counts s) {c : ConnId} (hl : (s.owner c).loop = none)
    (hlive : (s.owner c).live = true) (hk : s'.kernel = (s.connRelease c).kernel)
    (hs : s'.conns = Function.update s.conns c ((s.conns c).release.setOwner .dropped)) :
    ClosesOwn s s' c ((s.conns c).release.setOwner .dropped) := by
  have hone : (s.conns c).refCount = 1 := by
    rw [hc.eq_of_loop_none hi hl, ownerRefs, Owner.refs]
    generalize s.owner c = o at hl hlive
    cases o <;> simp_all [Owner.live, Owner.held]
  have hlast : (s.conns c).lastRelease = true := by simp [Conn.lastRelease, hone]
  refine ⟨hlive, ?_, hs, ?_, rfl, rfl, by rintro ⟨⟩⟩
  · rw [hk, connRelease_kernel, if_pos hlast]
  · simp [hlast]

/-- The IO threads keep the descriptors in order. -/
theorem IoStep.descriptors (h : IoStep cfg s t s') (hi : Owned s) (hc : Counts s)
    (hd : Descriptors cfg s) : Descriptors cfg s' := by
  have ho := hi.io t
  have hmain := h.main_eq
  have hsame : ∀ {c₀ : ConnId} {k : Conn n}, s'.conns = Function.update s.conns c₀ k →
      s.kernel.SameFiles s'.kernel → (s.conns c₀).SameFd k → Descriptors cfg s' := by
    intro c₀ k hs hk hfd
    refine hd.congr hk (fun c => ?_) hmain
    rw [hs]
    exact sameFd_update hfd c
  have howns : ∀ {c : ConnId} {k : Conn n}, ClosesOwn s s' c k → (s.owner c ≠ .creator) →
      Descriptors cfg s' := by
    intro c k hown hne
    refine ⟨hown.connFiles hd.conn, hown.mainFiles hd.conn hd.main hmain fun f sk hh => hne ?_⟩
    rw [hi.creator]
    generalize s.main = pc at hh
    cases pc <;> cases hh <;> rfl
  cases h with
  | @readConn c₀ rest hpc hp =>
    have howner : (s.conns c₀).owner = .pipe t := (ho.pipe c₀).mp (by simp [hp])
    exact hsame rfl ⟨rfl, rfl⟩ ⟨rfl, rfl, by simp [howner, Owner.live], by simp [howner]⟩
  | @register c₀ k hpc hk =>
    have howner : (s.conns c₀).owner = .adopter t := (ho.adopting c₀).mp (congrArg IoPc.role hpc)
    obtain ⟨f, hf, hopen, hnone, rfl⟩ := Kernel.eventLoopAdd_eq hk
    exact hsame rfl ⟨rfl, rfl⟩ ⟨rfl, rfl, by simp [howner, Owner.live], by simp [howner]⟩
  | @reject c₀ hpc =>
    have howner : s.owner c₀ = .adopter t := (ho.adopting c₀).mp (congrArg IoPc.role hpc)
    exact howns (closesOwn_drop hi hc (by rw [howner]; rfl) (by rw [howner]; rfl) rfl
      (rejectConnection_conns s t c₀)) (by rw [howner]; nofun)
  | @closeMark k x hpc =>
    have howner : s.owner x.conn = .registered t := ho.active x.conn (congrArg IoPc.role hpc)
    have hflag : (s.conns x.conn).closing = false := by
      have := (hi.conn x.conn).flag
      rw [this]
      change (s.owner x.conn).marked = false
      rw [howner]; rfl
    refine howns (c := x.conn) ⟨by rw [howner]; rfl, ?_, markClosing_conns s t k x, ?_, rfl, rfl,
      nofun⟩ (by rw [howner]; nofun)
    · simp [State.markClosing, hflag]
    · simp [hflag]
  | @closeRelease k x hpc =>
    have howner : (s.conns x.conn).owner = .closing t :=
      (ho.closing x.conn).mp (congrArg IoPc.role hpc)
    have hfd : (s.conns x.conn).fd = none := hd.conn.dead x.conn (by rw [State.owner, howner]; rfl)
    refine hsame (releaseOwner_conns s t k x) ?_ ⟨by simp [hfd], rfl, by simp [howner, Owner.live],
      by simp [howner]⟩
    simp only [releaseOwner, setIoPc_kernel, setConn_kernel, connRelease_kernel, hfd,
      Kernel.close_none, ite_self]
    exact ⟨rfl, rfl⟩
  | @msgRelease msg hpc =>
    obtain ⟨hk, hfd⟩ := release_quiet hd.conn (hc.lt_of_message (congrArg IoPc.message? hpc))
    refine hsame rfl ?_ hfd
    rw [setIoPc_kernel, hk]
    exact ⟨rfl, rfl⟩
  | readData hpc hk =>
    obtain ⟨sk, -, -, -, -, -, rfl⟩ := Kernel.readBytes_eq hk
    exact hsame rfl ⟨rfl, rfl⟩ ⟨rfl, rfl, rfl, Iff.rfl⟩
  | wrote hpc hlt hk =>
    obtain ⟨sk, -, -, -, -, rfl⟩ := Kernel.writeBytes_eq hk
    exact hsame rfl ⟨rfl, rfl⟩ ⟨rfl, rfl, rfl, Iff.rfl⟩
  | @backToRead x hpc =>
    have hk := Kernel.sameFiles_eventLoopMod s.kernel t (s.conns x.conn).fd .readEt x.conn
    exact hsame rfl ⟨hk.fds, hk.nextSock⟩ ⟨rfl, rfl, rfl, Iff.rfl⟩
  | adopt | createTask | createLeak | submitLeak | reset =>
    exact hsame rfl ⟨rfl, rfl⟩ ⟨rfl, rfl, rfl, Iff.rfl⟩
  | @msgMod msg hpc =>
    have hk := Kernel.sameFiles_eventLoopMod s.kernel t (s.conns msg.conn).fd .writeEt msg.conn
    exact hd.congr ⟨hk.fds, hk.nextSock⟩ (fun c => Conn.SameFd.refl _) hmain
  | @closeDel k x fd hpc =>
    have hk := Kernel.sameFiles_eventLoopDel s.kernel t fd
    exact hd.congr ⟨hk.fds, hk.nextSock⟩ (fun c => Conn.SameFd.refl _) hmain
  | _ => exact hd.congr ⟨rfl, rfl⟩ (fun c => Conn.SameFd.refl _) hmain

/-- The workers keep the descriptors in order. -/
theorem WorkerStep.descriptors (h : WorkerStep cfg s w s') (hi : Owned s) (hc : Counts s)
    (hd : Descriptors cfg s) : Descriptors cfg s' := by
  have hmain := h.main_eq
  have hsame : ∀ {c₀ : ConnId} {k : Conn n}, s'.conns = Function.update s.conns c₀ k →
      s.kernel.SameFiles s'.kernel → (s.conns c₀).SameFd k → Descriptors cfg s' := by
    intro c₀ k hs hk hfd
    refine hd.congr hk (fun c => ?_) hmain
    rw [hs]
    exact sameFd_update hfd c
  cases h with
  | install | acquire => exact hsame rfl ⟨rfl, rfl⟩ ⟨rfl, rfl, rfl, Iff.rfl⟩
  | closeMark hpc | closeRelease hpc =>
    have := hi.never_closes w
    rw [hpc] at this
    cases this
  | @destroy task hpc =>
    obtain ⟨hk, hfd⟩ := release_quiet hd.conn (hc.lt_of_worker (congrArg WorkerPc.task? hpc))
    refine hsame rfl ?_ hfd
    rw [setWorker_kernel, hk]
    exact ⟨rfl, rfl⟩
  | _ => exact hd.congr ⟨rfl, rfl⟩ (fun c => Conn.SameFd.refl _) hmain

/-- The main thread closes one of the server's own descriptors. -/
theorem Descriptors.closeSys (hd : Descriptors cfg s) {x : SysFile n} (hx : x.destroyed = true)
    (hc : s'.conns = s.conns)
    (hfds : ∀ f', s'.kernel.fds f' = if f' = cfg.sysFd x then none else s.kernel.fds f')
    (hn : s'.kernel.nextSock = s.kernel.nextSock) (h1 : s'.main.socket? = none)
    (h2 : s'.main.handing? = none) (h3 : s'.main.refused? = none) (hr : ¬s'.Running) :
    Descriptors cfg s' := by
  refine ⟨hd.conn.closeOther hc hfds hn fun c _ => ?_, fun f sk hs => ?_, fun c f sk hs => ?_,
    fun f sk hs => ?_, fun y => ?_⟩
  · rcases hd.main.sys x with hopen | ⟨-, hopen⟩ <;> rw [hopen] <;> nofun
  · rw [h1] at hs; cases hs
  · rw [h2] at hs; cases hs
  · rw [h3] at hs; cases hs
  · rw [hfds]
    split
    · next heq => exact .inr ⟨⟨hr, by rw [cfg.sysFd_injective heq, hx]⟩, rfl⟩
    · exact (hd.main.sys y).imp_right (And.imp_left (And.imp_left fun _ => hr))

@[simp] theorem socket?_nextDestroy (i : ℕ) : (nextDestroy n i).socket? = none := by
  unfold nextDestroy; split <;> rfl

@[simp] theorem handing?_nextDestroy (i : ℕ) : (nextDestroy n i).handing? = none := by
  unfold nextDestroy; split <;> rfl

@[simp] theorem refused?_nextDestroy (i : ℕ) : (nextDestroy n i).refused? = none := by
  unfold nextDestroy; split <;> rfl

/-- The main thread accepts a connection. -/
theorem Descriptors.accept (hd : Descriptors cfg s) {f : Fd} (hfree : s.kernel.fds f = none)
    (hc : s'.conns = s.conns) (hrun : s.Running)
    (hfds : s'.kernel.fds = Function.update s.kernel.fds f (some (.client s.kernel.nextSock)))
    (hn : s'.kernel.nextSock = s.kernel.nextSock + 1)
    (hm : s'.main = .getThread f s.kernel.nextSock) :
    Descriptors cfg s' := by
  have howner : s'.owner = s.owner := by funext c; rw [State.owner, State.owner, hc]
  have hnew : s'.kernel.fds f = some (.client s.kernel.nextSock) :=
    by rw [hfds, Function.update_self]
  have hold : ∀ {f'}, f' ≠ f → s'.kernel.fds f' = s.kernel.fds f' := fun hne => by
    rw [hfds, Function.update_of_ne hne]
  refine ⟨⟨fun c hl => ?_, fun c hl => ?_, fun f' sk hf' => ?_, fun f₁ f₂ sk h₁ h₂ => ?_,
    fun c hb => ?_, fun c c' hb hb' heq => ?_⟩, fun f' sk hs => ?_, fun c f' sk hs => ?_,
    fun f' sk hs => ?_, fun x => ?_⟩
  · rw [howner] at hl
    obtain ⟨f', hf', hopen⟩ := hd.conn.live c hl
    have hne : f' ≠ f := by
      rintro rfl
      rw [hfree] at hopen
      cases hopen
    exact ⟨f', by rw [hc, hf'], by rw [hold hne, hc, hopen]⟩
  · rw [howner] at hl
    rw [hc]
    exact hd.conn.dead c hl
  · rw [hn]
    by_cases hf : f' = f
    · subst hf
      rw [hnew] at hf'
      cases hf'
      exact Nat.lt_succ_self _
    · rw [hold hf] at hf'
      exact Nat.lt_succ_of_lt (hd.conn.bound f' sk hf')
  · have hlt : ∀ {f'}, f' ≠ f → s'.kernel.fds f' = some (.client sk) → sk < s.kernel.nextSock := by
      intro f' hne hf'
      rw [hold hne] at hf'
      exact hd.conn.bound f' sk hf'
    have hfirst : s'.kernel.fds f = some (.client sk) → sk = s.kernel.nextSock := by
      intro hf'
      rw [hnew] at hf'
      cases hf'
      rfl
    by_cases hf₁ : f₁ = f <;> by_cases hf₂ : f₂ = f
    · rw [hf₁, hf₂]
    · subst hf₁
      exact absurd (hfirst h₁) (Nat.ne_of_lt (hlt hf₂ h₂))
    · subst hf₂
      exact absurd (hfirst h₂) (Nat.ne_of_lt (hlt hf₁ h₁))
    · rw [hold hf₁] at h₁
      rw [hold hf₂] at h₂
      exact hd.conn.inj f₁ f₂ sk h₁ h₂
  · rw [howner] at hb
    rw [hc, hn]
    exact Nat.lt_succ_of_lt (hd.conn.sock_lt c hb)
  · rw [howner] at hb hb'
    rw [hc] at heq
    exact hd.conn.sock_inj c c' hb hb' heq
  · rw [hm] at hs
    cases hs
    refine ⟨hnew, fun c hb => ?_⟩
    rw [howner] at hb
    rw [hc]
    exact Nat.ne_of_lt (hd.conn.sock_lt c hb)
  · rw [hm] at hs; cases hs
  · rw [hm] at hs; cases hs
  · rcases hd.main.sys x with hx | ⟨⟨hr, -⟩, -⟩
    · have hne : cfg.sysFd x ≠ f := by
        rintro heq
        rw [heq, hfree] at hx
        cases hx
      exact .inl (by rw [hold hne, hx])
    · exact absurd hrun hr

/-- The main thread makes a connection of the socket it accepted. -/
theorem Descriptors.create (hd : Descriptors cfg s) {t : Fin n} {f : Fd} {sk : SockId}
    (hpc : s.main = .create t f sk) : Descriptors cfg (s.createConnection t f sk) := by
  obtain ⟨hopen, hfresh⟩ := hd.main.accepted f sk (congrArg MainPc.socket? hpc)
  have howner : (s.createConnection t f sk).owner = Function.update s.owner s.nextConn .creator :=
    owner_setConn s s.nextConn (Conn.create f sk t)
  have hnew : (s.createConnection t f sk).conns s.nextConn = Conn.create f sk t := by
    rw [createConnection_conns, Function.update_self]
  have hold : ∀ {c}, c ≠ s.nextConn → (s.createConnection t f sk).conns c = s.conns c ∧
      (s.createConnection t f sk).owner c = s.owner c := fun hne => by
    rw [howner, createConnection_conns, Function.update_of_ne hne, Function.update_of_ne hne]
    exact ⟨rfl, rfl⟩
  refine ⟨⟨fun c hl => ?_, fun c hl => ?_, hd.conn.bound, hd.conn.inj, fun c hb => ?_,
    fun c c' hb hb' heq => ?_⟩, nofun, fun c f' sk' hs => ?_, nofun, fun x => ?_⟩
  · by_cases hc : c = s.nextConn
    · subst hc
      rw [hnew]
      exact ⟨f, rfl, hopen⟩
    · rw [(hold hc).2] at hl
      rw [(hold hc).1]
      exact hd.conn.live c hl
  · by_cases hc : c = s.nextConn
    · subst hc
      rw [howner, Function.update_self] at hl
      cases hl
    · rw [(hold hc).2] at hl
      rw [(hold hc).1]
      exact hd.conn.dead c hl
  · by_cases hc : c = s.nextConn
    · subst hc
      rw [hnew]
      exact hd.conn.bound f sk hopen
    · rw [(hold hc).2] at hb
      rw [(hold hc).1]
      exact hd.conn.sock_lt c hb
  · by_cases hc : c = s.nextConn <;> by_cases hc' : c' = s.nextConn
    · rw [hc, hc']
    · subst hc
      rw [(hold hc').2] at hb'
      rw [hnew, (hold hc').1] at heq
      exact absurd heq.symm (hfresh c' hb')
    · subst hc'
      rw [(hold hc).2] at hb
      rw [hnew, (hold hc).1] at heq
      exact absurd heq (hfresh c hb)
    · rw [(hold hc).2] at hb
      rw [(hold hc').2] at hb'
      rw [(hold hc).1, (hold hc').1] at heq
      exact hd.conn.sock_inj c c' hb hb' heq
  · rw [createConnection_main] at hs
    cases hs
    rw [hnew]
    exact ⟨rfl, rfl⟩
  · rcases hd.main.sys x with hx | ⟨⟨hr, -⟩, -⟩
    · exact .inl hx
    · exact absurd (by simp [State.Running, hpc]) hr

/-- The main thread gives up a connection it could not hand over. -/
theorem Descriptors.drop (hd : Descriptors cfg s) (hi : Owned s) (hc : Counts s) {c : ConnId}
    {f : Fd} {sk : SockId} (hpc : s.main = .drop c f sk) :
    Descriptors cfg (s.dropConnection c f sk) := by
  have hrun : s.Running := by simp [State.Running, hpc]
  have howner : s.owner c = .creator := (hi.creator c).mpr (congrArg MainPc.creating hpc)
  obtain ⟨hfd, hsock⟩ := hd.main.handing c f sk (congrArg MainPc.handing? hpc)
  have hown : ClosesOwn s (s.dropConnection c f sk) c ((s.conns c).release.setOwner .dropped) :=
    closesOwn_drop hi hc (by rw [howner]; rfl) (by rw [howner]; rfl) rfl
      (dropConnection_conns s c f sk)
  obtain ⟨f₀, hf₀, hopen, hfds⟩ := hown.fds hd.conn
  rw [hfd] at hf₀
  cases hf₀
  have hconn := hown.connFiles hd.conn
  refine ⟨hconn, by rintro _ _ ⟨⟩, by rintro _ _ _ ⟨⟩, fun f' sk' hs => ?_, fun x => ?_⟩
  · cases hs
    refine ⟨.inl (by rw [hfds, if_pos rfl]), fun c' hl heq => ?_⟩
    obtain ⟨f', -, hopen'⟩ := hconn.live c' hl
    rw [heq, hfds] at hopen'
    split at hopen'
    · cases hopen'
    · next hne =>
      rw [hsock] at hopen
      exact hne (hd.conn.inj f' f sk hopen' hopen)
  · rcases hd.main.sys x with hx | ⟨⟨hr, -⟩, -⟩
    · have hne : cfg.sysFd x ≠ f := by
        rintro heq
        rw [heq, hopen] at hx
        cases hx
      exact .inl (by rw [hfds, if_neg hne, hx])
    · exact absurd hrun hr

/-- The main thread closes a socket it could not hand over. -/
theorem Descriptors.closeClient (hd : Descriptors cfg s) {f : Fd} {sk : SockId}
    (hpc : s.main = .closeClient f sk) :
    Descriptors cfg ((s.setKernel (s.kernel.close (some f))).setMain .accept) := by
  obtain ⟨hopen, hother⟩ := hd.main.refused f sk (congrArg MainPc.refused? hpc)
  have hfds : ∀ f', (s.kernel.close (some f)).fds f' = if f' = f then none else s.kernel.fds f' :=
    fun f' => Kernel.close_fds s.kernel f f'
  have hrun : s.Running := by simp [State.Running, hpc]
  refine ⟨hd.conn.closeOther rfl hfds (Kernel.close_nextSock _ _) fun c hl hc => ?_,
    by rintro _ _ ⟨⟩, by rintro _ _ _ ⟨⟩, by rintro _ _ ⟨⟩, fun x => ?_⟩
  · rcases hopen with hn | hs
    · rw [hn] at hc; cases hc
    · rw [hs] at hc
      injection hc with hc
      injection hc with hc
      exact hother c hl hc.symm
  · rcases hd.main.sys x with hx | ⟨⟨hr, -⟩, -⟩
    · have hne : cfg.sysFd x ≠ f := by
        rintro heq
        rw [heq] at hx
        rcases hopen with hn | hs
        · rw [hn] at hx; cases hx
        · rw [hs] at hx; cases hx
      refine .inl ((hfds _).trans ?_)
      rw [if_neg hne, hx]
    · exact absurd hrun hr

/-- The main thread keeps the descriptors in order. -/
theorem MainStep.descriptors (h : MainStep cfg s s') (hi : Owned s) (hc : Counts s)
    (hd : Descriptors cfg s) : Descriptors cfg s' := by
  have hidle : s.kernel.SameFiles s'.kernel → s'.conns = s.conns → s'.main.socket? = none →
      s'.main.handing? = none → s'.main.refused? = none → (s'.Running → s.Running) →
      Descriptors cfg s' := by
    intro hk hconns h1 h2 h3 hr
    refine ⟨hd.conn.congr hk fun c => ?_, hd.main.idle hk h1 h2 h3 hr⟩
    rw [hconns]
    exact .refl _
  cases h with
  | woken hpc | acceptAgain hpc | acceptFailed hpc =>
    exact hidle ⟨rfl, rfl⟩ rfl rfl rfl rfl fun _ => by simp [State.Running, hpc]
  | stop | ioFlag | ioWake | ioWakeFailed | ioJoin | poolShutdown | queueShutdown | joinWorkers
  | destroyed => exact hidle ⟨rfl, rfl⟩ rfl rfl rfl rfl (by rintro ⟨⟩)
  | ioFree =>
    refine hidle ⟨rfl, rfl⟩ rfl (socket?_nextDestroy _) (handing?_nextDestroy _)
      (refused?_nextDestroy _) fun hr => ?_
    simp only [State.Running, setMain_main, nextDestroy] at hr
    split_ifs at hr <;> exact hr.elim
  | acceptIntr => exact hd
  | accept hpc hf hb => exact hd.accept hf rfl (by simp [State.Running, hpc]) rfl rfl rfl
  | @getThread f sk hpc hlt =>
    have hrun : s.Running := by simp [State.Running, hpc]
    have hsocket : s.main.socket? = some (f, sk) := congrArg MainPc.socket? hpc
    refine ⟨hd.conn.congr ⟨rfl, rfl⟩ fun c => .refl _, fun f' sk' hs => ?_, by rintro _ _ _ ⟨⟩,
      by rintro _ _ ⟨⟩, fun x => ?_⟩
    · exact hd.main.accepted f' sk' (hsocket.trans hs)
    · exact (hd.main.sys x).imp_right (And.imp_left fun hr => absurd hrun hr.1)
  | @noThread f sk hpc _ | @createFailed _ f sk hpc =>
    have hrun : s.Running := by simp [State.Running, hpc]
    obtain ⟨hopen, hother⟩ := hd.main.accepted f sk (congrArg MainPc.socket? hpc)
    refine ⟨hd.conn.congr ⟨rfl, rfl⟩ fun c => .refl _, by rintro _ _ ⟨⟩, by rintro _ _ _ ⟨⟩,
      fun f' sk' hs => ?_, fun x => ?_⟩
    · cases hs
      refine ⟨.inr hopen, fun c hl => hother c fun hu => ?_⟩
      change (s.owner c).live = true at hl
      rw [hu] at hl
      cases hl
    · exact (hd.main.sys x).imp_right (And.imp_left fun hr => absurd hrun hr.1)
  | create hpc => exact hd.create hpc
  | @handOff t c₀ f sk hpc _ =>
    have hrun : s.Running := by simp [State.Running, hpc]
    have howner : (s.conns c₀).owner = .creator :=
      (hi.creator c₀).mpr (congrArg MainPc.creating hpc)
    have hsame : (s.conns c₀).SameFd ((s.conns c₀).setOwner (.pipe t)) :=
      ⟨rfl, rfl, by simp [howner, Owner.live], by simp [howner]⟩
    exact ⟨hd.conn.congr ⟨rfl, rfl⟩ (sameFd_update hsame),
      hd.main.idle ⟨rfl, rfl⟩ rfl rfl rfl fun _ => hrun⟩
  | @handOffFailed t c₀ f sk hpc =>
    have hrun : s.Running := by simp [State.Running, hpc]
    have hhanding : s.main.handing? = some (c₀, f, sk) := congrArg MainPc.handing? hpc
    refine ⟨hd.conn.congr ⟨rfl, rfl⟩ fun c => .refl _, by rintro _ _ ⟨⟩, fun c f' sk' hs => ?_,
      by rintro _ _ ⟨⟩, fun x => ?_⟩
    · exact hd.main.handing c f' sk' (hhanding.trans hs)
    · exact (hd.main.sys x).imp_right (And.imp_left fun hr => absurd hrun hr.1)
  | @drop c₀ f sk hpc => exact hd.drop hi hc hpc
  | closeClient hpc => exact hd.closeClient hpc
  | closeListen | ioClose0 | ioClose1 =>
    exact hd.closeSys rfl rfl (Kernel.close_fds _ _) (Kernel.close_nextSock _ _) rfl rfl rfl
      (by rintro ⟨⟩)
  | destroyLoop =>
    refine hd.closeSys rfl rfl (Kernel.close_fds _ _) (Kernel.close_nextSock _ _)
      (socket?_nextDestroy _) (handing?_nextDestroy _) (refused?_nextDestroy _) fun hr => ?_
    simp only [State.Running, setMain_main, nextDestroy] at hr
    split_ifs at hr <;> exact hr.elim
  | ioLoop =>
    exact hd.closeSys rfl rfl (Kernel.close_fds _ _) (Kernel.close_nextSock _ _) rfl rfl rfl
      (by rintro ⟨⟩)
  | @destroyTask task rest hpc hq =>
    obtain ⟨hk, hfd⟩ := release_quiet hd.conn (hc.lt_of_queue (by rw [hq]; exact .head _))
    have hkernel : ((s.connRelease task.conn).setQueue rest).kernel = s.kernel := hk
    refine hd.congr (hkernel ▸ ⟨rfl, rfl⟩) (sameFd_update hfd) rfl

/-- The clients keep the descriptors in order. -/
theorem EnvStep.descriptors (h : EnvStep s s') (hd : Descriptors cfg s) : Descriptors cfg s' := by
  cases h <;> exact hd.congr ⟨rfl, rfl⟩ (fun c => .refl _) rfl

/-- Every step keeps the descriptors in order. -/
theorem ServerStep.descriptors (h : ServerStep cfg s s') (hi : Owned s) (hc : Counts s)
    (hd : Descriptors cfg s) : Descriptors cfg s' := by
  cases h with
  | main h => exact h.descriptors hi hc hd
  | io t h => exact h.descriptors hi hc hd
  | worker w h => exact h.descriptors hi hc hd
  | env h => exact h.descriptors hd

/-- The server starts with its own descriptors only. -/
theorem descriptors_start (cfg : Config n) : Descriptors cfg (State.start cfg : State n m) := by
  refine ⟨⟨nofun, fun _ _ => rfl, fun f sk hf => ?_, fun f _ sk hf => ?_, fun c hc => ?_,
    fun c _ hc => ?_⟩, nofun, nofun, nofun, fun x => .inl (cfg.fds_sysFd x)⟩
  · exact absurd hf (cfg.fds_ne_client f sk)
  · exact absurd hf (cfg.fds_ne_client f sk)
  · exact absurd rfl hc
  · exact absurd rfl hc

/-- The descriptors are in order in every reachable state. -/
theorem reachable_descriptors (h : (server m cfg).Reachable s) : Descriptors cfg s := by
  refine TransitionSystem.Reachable.invariant ?_ ?_ h
  · rintro _ rfl
    exact descriptors_start cfg
  · intro s a s' hr hd hs
    exact (step_spec hs).descriptors (reachable_owned hr) (reachable_counts hr) hd

end steps

end DeepInIo.AdvancedServer
