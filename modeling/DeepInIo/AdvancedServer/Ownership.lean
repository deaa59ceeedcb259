import DeepInIo.AdvancedServer.Lifecycle
import DeepInIo.AdvancedServer.Steps

/-!
# Who owns a connection

The ghost field `owner` of a connection says where its owner reference is.  This file ties it to the
threads: `IoOwned` lists, for one IO thread, the places where a connection can be found and the
owner it must then have.  A thread's own steps keep its `IoOwned`; the steps of the others only
change owners that do not belong to it, which `IoOwned.rely` shows to be harmless.
-/

namespace DeepInIo.AdvancedServer

open State

variable {n m : ℕ}

/-! ### What a thread is doing with a connection -/

/-- The part an IO thread plays for a connection at its program point. -/
inductive Role
  /-- it treats no connection event -/
  | idle
  /-- it has read the connection from the hand-off pipe -/
  | adopting (c : ConnId)
  /-- it has an event of the connection, which may have been closed -/
  | known (c : ConnId)
  /-- it treats an event of the connection, which is valid -/
  | active (c : ConnId)
  /-- it has marked the connection and still holds the owner reference -/
  | closing (c : ConnId)
  deriving DecidableEq

/-- The role that goes with a program point. -/
def IoPc.role : IoPc → Role
  | .pipeAdopt c | .pipeAdd c | .pipeRelease c => .adopting c
  | .evCheck x | .recheck _ x => .known x.conn
  | .evFd x | .rdRead x | .rdCreate x _ | .rdSubmit x _ | .wrEntry x | .wrIdle x | .wrLoop x
  | .wrFinal x | .wrReset x | .wrMod x | .closeMark _ x | .erTest x => .active x.conn
  | .closeDel _ x _ | .closeRelease _ x => .closing x.conn
  | _ => .idle

@[simp] theorem role_afterRead (x : EventContext) : (afterRead x).role = .active x.conn := by
  unfold afterRead; split <;> rfl

@[simp] theorem role_afterFd (x : EventContext) : (afterFd x).role = .active x.conn := by
  unfold afterFd; split
  · rfl
  · exact role_afterRead x

@[simp] theorem role_afterCheck (k : CloseSite) (x : EventContext) :
    (afterCheck k x).role = .active x.conn := by
  unfold afterCheck; split
  · exact role_afterRead x
  · rfl

/-- How a move can change the role of a thread. -/
inductive RoleMove (s : State n m) : Role → Role → Prop
  | same (r : Role) : RoleMove s r r
  | finish {r : Role} {c : ConnId} (h : r = .known c ∨ r = .active c) : RoleMove s r .idle
  | valid (c : ConnId) (h : (s.conns c).isValid = true) : RoleMove s (.known c) (.active c)
  | back (c : ConnId) : RoleMove s (.active c) (.known c)

/-- Moves keep a role, give up an event, or pass between the two states of treating one. -/
theorem IoMove.role {s : State n m} {t : Fin n} {pc pc' : IoPc} (h : IoMove s t pc pc') :
    RoleMove s pc.role pc'.role := by
  cases h with
  | evValid x h => exact .valid _ h
  | evInvalid x => exact .finish (.inl rfl)
  | fdLoaded x => rw [role_afterFd]; exact .same _
  | readAgain x => exact .back _
  | finalMore x => exact .back _
  | stillValid k x h => rw [role_afterCheck]; exact .valid _ h
  | nowInvalid k x => exact .finish (.inl rfl)
  | noHangup x => exact .finish (.inr rfl)
  | _ => exact .same _

/-- The owner of each connection. -/
def State.owner (s : State n m) (c : ConnId) : Owner n :=
  (s.conns c).owner

section owner

variable (s : State n m) (c : ConnId)

@[simp] theorem owner_setIo (t : Fin n) (th : IoThread) : (s.setIo t th).owner = s.owner := rfl

@[simp] theorem owner_setIoPc (t : Fin n) (pc : IoPc) : (s.setIoPc t pc).owner = s.owner := rfl

@[simp] theorem owner_setWorker (w : Fin m) (pc : WorkerPc n) :
    (s.setWorker w pc).owner = s.owner := rfl

@[simp] theorem owner_setMain (pc : MainPc n) : (s.setMain pc).owner = s.owner := rfl

@[simp] theorem owner_setKernel (k : Kernel n) : (s.setKernel k).owner = s.owner := rfl

@[simp] theorem owner_setQueue (q : List Task) : (s.setQueue q).owner = s.owner := rfl

@[simp] theorem owner_setConn (k : Conn n) :
    (s.setConn c k).owner = Function.update s.owner c k.owner := by
  funext c'
  by_cases h : c' = c
  · subst h; simp [State.owner]
  · simp [State.owner, h]

/-- Writing a connection without moving its owner reference. -/
theorem owner_setConn_same {k : Conn n} (h : k.owner = (s.conns c).owner) :
    (s.setConn c k).owner = s.owner := by
  rw [owner_setConn, h]
  exact Function.update_eq_self c s.owner

@[simp] theorem owner_connRelease : (s.connRelease c).owner = s.owner :=
  owner_setConn_same s c rfl

@[simp] theorem owner_connMarkClosing : (s.connMarkClosing c).owner = s.owner :=
  owner_setConn_same s c rfl

end owner

/-- The connections an IO thread can reach, and their owners. -/
structure IoOwned (ow : ConnId → Owner n) (t : Fin n) (th : IoThread) : Prop where
  pipe : ∀ c, .conn c ∈ th.pipe ↔ ow c = .pipe t
  pipe_nodup : ∀ c, th.pipe.count (.conn c) ≤ 1
  adopting : ∀ c, th.pc.role = .adopting c ↔ ow c = .adopter t
  closing : ∀ c, th.pc.role = .closing c ↔ ow c = .closing t
  active : ∀ c, th.pc.role = .active c → ow c = .registered t
  known : ∀ c, th.pc.role = .known c → ow c = .registered t ∨ ow c = .released t
  batch : ∀ c ev, .conn c ev ∈ th.batch → (ow c).loop = some t

namespace IoOwned

variable {ow ow' : ConnId → Owner n} {t : Fin n} {th th' : IoThread}

/-- Only the pipe, the role and the batch of a thread matter. -/
theorem congr (h : IoOwned ow t th) (hp : th'.pipe = th.pipe) (hr : th'.pc.role = th.pc.role)
    (hb : th'.batch = th.batch) : IoOwned ow t th' := by
  obtain ⟨h1, h2, h3, h4, h5, h6, h7⟩ := h
  refine ⟨?_, ?_, ?_, ?_, ?_, ?_, ?_⟩
  · rwa [hp]
  · rwa [hp]
  · rwa [hr]
  · rwa [hr]
  · rwa [hr]
  · rwa [hr]
  · rwa [hb]

/-- Changes of owners that do not belong to the thread, before or after, do not concern it. -/
theorem rely (h : IoOwned ow t th)
    (hr : ∀ c, ow' c = ow c ∨ ((ow c).home ≠ some t ∧ (ow' c).home ≠ some t)) :
    IoOwned ow' t th := by
  have iff : ∀ c (o : Owner n), o.home = some t → (ow' c = o ↔ ow c = o) := by
    intro c o ho
    rcases hr c with heq | ⟨h1, h2⟩
    · rw [heq]
    · constructor
      · rintro rfl; exact absurd ho h2
      · rintro rfl; exact absurd ho h1
  refine ⟨fun c => ?_, h.pipe_nodup, fun c => ?_, fun c => ?_, fun c hc => ?_, fun c hc => ?_,
    fun c ev hc => ?_⟩
  · rw [iff c _ rfl]; exact h.pipe c
  · rw [iff c _ rfl]; exact h.adopting c
  · rw [iff c _ rfl]; exact h.closing c
  · rw [iff c _ rfl]; exact h.active c hc
  · rw [iff c _ rfl, iff c _ rfl]; exact h.known c hc
  · rcases hr c with heq | ⟨h1, -⟩
    · rw [heq]; exact h.batch c ev hc
    · exact absurd (Owner.home_of_loop (h.batch c ev hc)) h1

/-- One owner moves that does not belong to the thread, before or after. -/
theorem rely_update {c : ConnId} {o : Owner n} (h : IoOwned ow t th) (h1 : (ow c).home ≠ some t)
    (h2 : o.home ≠ some t) : IoOwned (Function.update ow c o) t th := by
  refine h.rely fun c' => ?_
  by_cases hc : c' = c
  · subst hc
    rw [Function.update_self]
    exact .inr ⟨h1, h2⟩
  · exact .inl (Function.update_of_ne hc _ _)

/-- A thread that treats no event and adopts no connection holds none. -/
theorem idle_iff (h : IoOwned ow t th) (hr : th.pc.role = .idle) (c : ConnId) :
    ow c ≠ .adopter t ∧ ow c ≠ .closing t := by
  constructor
  · intro ho; rw [← h.adopting c, hr] at ho; cases ho
  · intro ho; rw [← h.closing c, hr] at ho; cases ho

/-- A move of the thread itself. -/
theorem roleMove {s : State n m} {pc' : IoPc} (h : IoOwned s.owner t th)
    (hflag : ∀ c, (s.conns c).closing = (s.owner c).marked)
    (hm : RoleMove s th.pc.role pc'.role) : IoOwned s.owner t { th with pc := pc' } := by
  have hadopt : ∀ c, pc'.role = .adopting c ↔ th.pc.role = .adopting c := by
    intro c
    generalize th.pc.role = r, pc'.role = r' at hm
    cases hm with
    | same => rfl
    | finish h => rcases h with rfl | rfl <;> simp
    | valid => simp
    | back => simp
  have hclosing : ∀ c, pc'.role = .closing c ↔ th.pc.role = .closing c := by
    intro c
    generalize th.pc.role = r, pc'.role = r' at hm
    cases hm with
    | same => rfl
    | finish h => rcases h with rfl | rfl <;> simp
    | valid => simp
    | back => simp
  have hactive := h.active
  have hknown := h.known
  generalize th.pc.role = r at hm hactive hknown
  refine ⟨h.pipe, h.pipe_nodup, fun c => (hadopt c).trans (h.adopting c),
    fun c => (hclosing c).trans (h.closing c), fun c hc => ?_, fun c hc => ?_, h.batch⟩
  · change pc'.role = _ at hc
    rw [hc] at hm
    cases hm with
    | same => exact hactive c rfl
    | valid _ hv =>
      refine (hknown c rfl).resolve_right fun hrel => ?_
      have hmarked := hflag c
      rw [hrel] at hmarked
      rw [Conn.isValid, hmarked] at hv
      cases hv
  · change pc'.role = _ at hc
    rw [hc] at hm
    cases hm with
    | same => exact hknown c rfl
    | back => exact .inl (hactive c rfl)

/-- The owner of one connection moves, and with it the thread's pipe or role.  Nothing else the
thread can reach is touched. -/
theorem setOwner {c : ConnId} {o : Owner n} (h : IoOwned ow t th)
    (hpipe : ∀ c', .conn c' ∈ th'.pipe ↔ if c' = c then o = .pipe t else .conn c' ∈ th.pipe)
    (hcount : ∀ c', th'.pipe.count (.conn c') ≤ 1)
    (hadopting : ∀ c', th'.pc.role = .adopting c' ↔
      if c' = c then o = .adopter t else th.pc.role = .adopting c')
    (hclosing : ∀ c', th'.pc.role = .closing c' ↔
      if c' = c then o = .closing t else th.pc.role = .closing c')
    (hactive : ∀ c', th'.pc.role ≠ .active c')
    (hknown : ∀ c', th'.pc.role = .known c' → c' = c ∧ o = .released t)
    (hbatch : th'.batch = th.batch) (hloop : (ow c).loop = some t → o.loop = some t) :
    IoOwned (Function.update ow c o) t th' := by
  refine ⟨fun c' => ?_, hcount, fun c' => ?_, fun c' => ?_, fun c' hc => absurd hc (hactive c'),
    fun c' hc => ?_, fun c' ev hc => ?_⟩
  · rw [hpipe]
    by_cases hc : c' = c
    · subst hc; simp
    · simp [hc, h.pipe]
  · rw [hadopting]
    by_cases hc : c' = c
    · subst hc; simp
    · simp [hc, h.adopting]
  · rw [hclosing]
    by_cases hc : c' = c
    · subst hc; simp
    · simp [hc, h.closing]
  · obtain ⟨rfl, ho⟩ := hknown c' hc
    exact .inr (by simp [ho])
  · rw [hbatch] at hc
    have hl := h.batch c' ev hc
    by_cases hc' : c' = c
    · subst hc'; simpa using hloop hl
    · simpa [hc'] using hl

/-- The main thread puts a connection of its own into the pipe. -/
theorem handOff {c : ConnId} (h : IoOwned ow t th) (ho : ow c = .creator)
    (hp : th'.pipe = th.pipe ++ [.conn c]) (hpc : th'.pc = th.pc) (hb : th'.batch = th.batch) :
    IoOwned (Function.update ow c (.pipe t)) t th' := by
  have hother : ∀ {c'}, ow c' ≠ .creator → c' ≠ c := by
    rintro c' hne rfl
    exact hne ho
  have hfresh : .conn c ∉ th.pipe := by
    rw [h.pipe, ho]
    nofun
  refine ⟨fun c' => ?_, fun c' => ?_, fun c' => ?_, fun c' => ?_, fun c' hc => ?_, fun c' hc => ?_,
    fun c' ev hc => ?_⟩
  · rw [hp]
    by_cases hc : c' = c
    · subst hc; simp
    · simp [hc, h.pipe]
  · rw [hp, List.count_append]
    by_cases hc : c' = c
    · subst hc; simp [List.count_eq_zero.mpr hfresh]
    · have := h.pipe_nodup c'
      simpa [List.count_singleton, Ne.symm hc] using this
  · rw [hpc, h.adopting]
    by_cases hc : c' = c
    · subst hc; simp [ho]
    · simp [hc]
  · rw [hpc, h.closing]
    by_cases hc : c' = c
    · subst hc; simp [ho]
    · simp [hc]
  · rw [hpc] at hc
    have hreg := h.active c' hc
    rwa [Function.update_of_ne (hother (by rw [hreg]; nofun))]
  · rw [hpc] at hc
    have hreg := h.known c' hc
    rwa [Function.update_of_ne (hother (by rcases hreg with hreg | hreg <;> rw [hreg] <;> nofun))]
  · rw [hb] at hc
    have hl := h.batch c' ev hc
    rwa [Function.update_of_ne (hother fun hcr => by rw [hcr] at hl; cases hl)]

/-- The thread reads a connection from its pipe. -/
theorem readConn {c : ConnId} {rest : List PipeItem} (h : IoOwned ow t th)
    (hpc : th.pc = .pipeRead) (hp : th.pipe = .conn c :: rest) :
    IoOwned (Function.update ow c (.adopter t)) t { th with pc := .pipeAdopt c, pipe := rest } := by
  have hcount := h.pipe_nodup
  simp only [hp] at hcount
  have hrest : .conn c ∉ rest := by
    have := hcount c
    rw [List.count_cons_self] at this
    exact List.count_eq_zero.mp (by omega)
  have howner : ow c = .pipe t := (h.pipe c).mp (by simp [hp])
  refine h.setOwner (fun c' => ?_) (fun c' => ?_) ?_ ?_ ?_ ?_ rfl ?_
  · by_cases hc : c' = c
    · subst hc; simpa using hrest
    · simp [hp, hc]
  · exact (List.count_le_count_cons ..).trans (hcount c')
  · intro c'
    simp [IoPc.role, hpc, eq_comm]
  · simp [IoPc.role, hpc]
  · simp [IoPc.role]
  · simp [IoPc.role]
  · simp [howner, Owner.loop]

/-- The thread's event loop takes or refuses the connection it adopts. -/
theorem settle {c : ConnId} {o : Owner n} {pc' : IoPc} {k : ℕ} (h : IoOwned ow t th)
    (hpc : th.pc.role = .adopting c) (hpc' : pc'.role = .idle)
    (ho : o = .registered t ∨ o = .dropped) :
    IoOwned (Function.update ow c o) t { th with pc := pc', connectionsHandled := k } := by
  have howner : ow c = .adopter t := (h.adopting c).mp hpc
  refine h.setOwner (fun c' => ?_) h.pipe_nodup ?_ ?_ ?_ ?_ rfl ?_
  · by_cases hc : c' = c
    · subst hc; rcases ho with rfl | rfl <;> simp [h.pipe, howner]
    · simp [hc]
  · intro c'
    rw [hpc, hpc']
    rcases ho with rfl | rfl <;> simp [eq_comm]
  · intro c'
    rw [hpc, hpc']
    rcases ho with rfl | rfl <;> simp
  · simp [hpc']
  · simp [hpc']
  · simp [howner, Owner.loop]

/-- The thread marks the connection it treats, and later gives up the owner reference. -/
theorem close {c : ConnId} {pc' : IoPc} (h : IoOwned ow t th) (hpc : th.pc.role = .active c)
    (hpc' : pc'.role = .closing c) :
    IoOwned (Function.update ow c (.closing t)) t { th with pc := pc' } := by
  have howner : ow c = .registered t := h.active c hpc
  refine h.setOwner (fun c' => ?_) h.pipe_nodup ?_ ?_ ?_ ?_ rfl ?_
  · by_cases hc : c' = c
    · subst hc; simp [h.pipe, howner]
    · simp [hc]
  · simp [hpc, hpc']
  · intro c'
    rw [hpc, hpc']
    simp [eq_comm]
  · simp [hpc']
  · simp [hpc']
  · simp [Owner.loop]

/-- The thread gives up the owner reference of the connection it has marked. -/
theorem release {c : ConnId} {pc' : IoPc} (h : IoOwned ow t th) (hpc : th.pc.role = .closing c)
    (hpc' : pc'.role = .known c ∨ pc'.role = .idle) :
    IoOwned (Function.update ow c (.released t)) t { th with pc := pc' } := by
  have howner : ow c = .closing t := (h.closing c).mp hpc
  refine h.setOwner (fun c' => ?_) h.pipe_nodup ?_ ?_ ?_ ?_ rfl ?_
  · by_cases hc : c' = c
    · subst hc; simp [h.pipe, howner]
    · simp [hc]
  · rcases hpc' with hpc' | hpc' <;> simp [hpc, hpc']
  · intro c'
    rcases hpc' with hpc' | hpc' <;> simp [hpc, hpc', eq_comm]
  · rcases hpc' with hpc' | hpc' <;> simp [hpc']
  · rcases hpc' with hpc' | hpc' <;> simp [hpc', eq_comm]
  · simp [Owner.loop]

/-- The thread takes the next event of its batch. -/
theorem nextConn {c : ConnId} {ev : EventMask} {rest : List Event} {x : EventContext}
    (h : IoOwned ow t th) (hpc : th.pc = .next) (hb : th.batch = .conn c ev :: rest)
    (hx : x.conn = c) : IoOwned ow t { th with pc := .evCheck x, batch := rest } := by
  have hidle := h.idle_iff (by rw [hpc]; rfl)
  have hloop := h.batch c ev (by simp [hb])
  refine ⟨h.pipe, h.pipe_nodup, fun c' => ?_, fun c' => ?_, fun c' hc => ?_, fun c' hc => ?_,
    fun c' ev' hc => h.batch c' ev' (by rw [hb]; exact List.mem_cons_of_mem _ hc)⟩
  · simp [IoPc.role, (hidle c').1]
  · simp [IoPc.role, (hidle c').2]
  · cases hc
  · simp only [IoPc.role, Role.known.injEq] at hc
    rw [← hc, hx]
    have := (hidle c).2
    generalize ow c = o at *
    cases o <;> simp_all [Owner.loop]

/-- Events of other descriptors come and go. -/
theorem batch_of (h : IoOwned ow t th) (hp : th'.pipe = th.pipe) (hr : th'.pc.role = th.pc.role)
    (hb : ∀ c ev, .conn c ev ∈ th'.batch → .conn c ev ∈ th.batch ∨ (ow c).loop = some t) :
    IoOwned ow t th' := by
  have h' : IoOwned ow t { th' with batch := th.batch } := h.congr hp hr rfl
  exact ⟨h'.pipe, h'.pipe_nodup, h'.adopting, h'.closing, h'.active, h'.known,
    fun c ev hc => (hb c ev hc).elim (h.batch c ev) id⟩

/-- A byte to wake the thread is put into or taken out of its pipe. -/
theorem wake (h : IoOwned ow t th) (hp : ∀ c, th'.pipe.count (.conn c) = th.pipe.count (.conn c))
    (hr : th'.pc.role = th.pc.role) (hb : th'.batch = th.batch) : IoOwned ow t th' := by
  have h' : IoOwned ow t { th' with pipe := th.pipe } := h.congr rfl hr hb
  refine ⟨fun c => ?_, fun c => (hp c).trans_le (h.pipe_nodup c), h'.adopting, h'.closing,
    h'.active, h'.known, h'.batch⟩
  rw [← h.pipe c, ← List.count_pos_iff, hp, List.count_pos_iff]

end IoOwned

end DeepInIo.AdvancedServer
