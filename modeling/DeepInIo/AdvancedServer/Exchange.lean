import DeepInIo.AdvancedServer.ClientSteps
import DeepInIo.AdvancedServer.Framing
import DeepInIo.AdvancedServer.Teardown
import DeepInIo.Foundation.RequestCycle
import Mathlib.Tactic.Abel

/-!
# The exchange of requests and responses with one client

For every entry of an interest list, `State.cycle` reads a `RequestCycle` off the server: the chunks
of the connection are its requests, the tasks for it the requests on their way, the `RESPONSE_READY`
messages the announcements.  Every step of the server is a run of these cycles (`step_exchanges`),
as long as the client sends a chunk only when everything before was answered, no allocation for the
connection fails, and the backend reports only the events that the mask asks for.
-/

namespace DeepInIo.AdvancedServer

open State

variable {n m : ℕ}

/-! ### What the threads are doing for a connection -/

/-- The chunk, if it is one of the connection. -/
def chunkFor (c : ConnId) : Option (ConnId × List UInt8) → Multiset (List UInt8)
  | some (c', data) => if c' = c then {data} else 0
  | none => 0

@[simp] theorem chunkFor_none (c : ConnId) : chunkFor c none = 0 := rfl

@[simp] theorem chunkFor_some (c c' : ConnId) (data : List UInt8) :
    chunkFor c (some (c', data)) = if c' = c then {data} else 0 := rfl

/-- The chunk of which no task was made yet. -/
@[simp]
def IoPc.reading (c : ConnId) : IoPc → List (List UInt8)
  | .rdCreate x data => if x.conn = c then [data] else []
  | _ => []

/-- The thread is collecting events, or has come to begin with it. -/
@[simp]
def IoPc.waits : IoPc → Bool
  | .loop | .wait => true
  | _ => false

/-- What the thread is doing with the buffer of the connection. -/
@[simp]
def IoPc.writeStage (c : ConnId) : IoPc → WriteStage
  | .wrIdle x => if x.conn = c then .idling else .away
  | .wrLoop x | .wrFinal x | .closeMark .write x => if x.conn = c then .sending else .away
  | .wrReset x => if x.conn = c then .sent else .away
  | .wrMod x => if x.conn = c then .emptied else .away
  | _ => .away

/-- What a program point of an IO thread says about the exchange with a connection. -/
structure Duty where
  reading : List (List UInt8)
  asked : Multiset (List UInt8)
  announced : Bool
  readAhead : Bool
  writeAhead : Bool
  waits : Bool
  stage : WriteStage

@[simp]
def IoPc.duty (c : ConnId) (pc : IoPc) : Duty where
  reading := pc.reading c
  asked := chunkFor c pc.chunk?
  announced := pc.announced c
  readAhead := pc.readAhead c
  writeAhead := pc.writeAhead c
  waits := pc.waits
  stage := pc.writeStage c

namespace State

variable (s : State n m)

/-- The chunks of the connection that were read and not yet answered by a worker. -/
def asked (t : Fin n) (c : ConnId) : Multiset (List UInt8) :=
  chunkFor c (s.io t).pc.chunk? +
    ((s.queue.filter fun task => task.conn = c).map Task.data : List _) +
    ∑ w, chunkFor c (s.worker w).chunk?

/-- The number of `RESPONSE_READY` messages about the connection that are to be sent, queued, or
being handled. -/
def told (t : Fin n) (c : ConnId) : ℕ :=
  ∑ w, ((s.worker w).announces c).toNat + AdvancedServer.messageRefs (s.io t).msgQueue c +
    ((s.io t).pc.announced c).toNat

/-- The exchange with the connection of an entry of the interest list of the thread `t`. -/
def cycle (t : Fin n) (r : Registration) : RequestCycle UInt8 (List UInt8) where
  heard := (s.conns r.data).chunks ++ (s.io t).pc.reading r.data
  asked := s.asked t r.data
  told := s.told t r.data
  writing := r.mask.write
  readAhead := (s.io t).readAhead r.data
  writeAhead := (s.io t).writeAhead r.data
  waiting := (s.io t).pc.waits
  stage := (s.io t).pc.writeStage r.data
  content := (s.conns r.data).writeBuf
  pos := (s.conns r.data).writePos
  size := (s.conns r.data).writeSize
  written := (s.kernel.socks (s.conns r.data).sock).written

/-! ### The condition on the runs -/

/-- As many bytes were written to the socket of the connection as the responses to its chunks
have. -/
def Answered (c : ConnId) : Prop :=
  ((s.conns c).chunks.map response).flatten.length ≤
    (s.kernel.socks (s.conns c).sock).written.length

/-- There is something to read from the socket of the connection only when everything before was
answered. -/
def Paced (c : ConnId) : Prop :=
  (s.kernel.socks (s.conns c).sock).unread ≠ [] → s.Answered c

/-- An allocation for a connection with the socket fails, or `event_loop_wait` reports an event of
it for which the mask does not ask. -/
def impairs (sk : SockId) : Action n m → Bool
  | .io t res =>
    match (s.io t).pc, res with
    | .rdCreate x _, res => (s.conns x.conn).sock = sk && res != .ok
    | .wait, .event (.fd f ev) =>
      (s.kernel.reg t f).any fun r =>
        (s.conns r.data).sock = sk && (ev.read && !r.mask.read || ev.write && !r.mask.write)
    | _, _ => false
  | .worker w ok =>
    match s.worker w with
    | .sendAlloc task _ => (s.conns task.conn).sock = sk && !ok
    | _ => false
  | _ => false

end State

/-- The size guard of `process_request` accepts the chunk. -/
abbrev Fits (data : List UInt8) : Prop :=
  responseFits data = true

/-- A response that passes the guard is not empty. -/
theorem response_ne_nil {data : List UInt8} (h : Fits data) : response data ≠ [] := by
  intro hnil
  have hlen := length_response_of_fits h
  simp only [Fits, responseFits, Bool.and_eq_true, decide_eq_true_eq] at h
  rw [hnil, List.length_nil] at hlen
  omega

section quiet

variable {cfg : Config n} {s s' : State n m} {t : Fin n} {w : Fin m} {f : Fd} {r r' : Registration}

/-- The entry after a step: its exchange comes from that of the entry before the step, or is that of
a connection just registered. -/
inductive Exchanges (s s' : State n m) (t : Fin n) (f : Fd) (r' : Registration) : Prop
  | old (r : Registration) (hr : s.kernel.reg t f = some r) (hc : r.data = r'.data)
      (hm : (r.mask = .readEt ∨ r.mask = .writeEt) → r'.mask = .readEt ∨ r'.mask = .writeEt)
      (h : Relation.ReflTransGen (RequestCycle.Step Fits response) (s.cycle t r) (s'.cycle t r'))
  | new (hm : r'.mask = .readEt) (h : (s'.cycle t r').Inv Fits response)

/-- A step that does not concern an exchange. -/
theorem cycle_eq (hd : r'.data = r.data) (hm : r'.mask.write = r.mask.write)
    (hb : (s'.io t).batch = (s.io t).batch)
    (hp : (s'.io t).pc.duty r.data = (s.io t).pc.duty r.data)
    (ha : s'.asked t r.data = s.asked t r.data) (hn : s'.told t r.data = s.told t r.data)
    (hk : (s.conns r.data).SameBuffer (s'.conns r.data))
    (hc : (s'.conns r.data).chunks = (s.conns r.data).chunks)
    (hv : (s'.kernel.socks (s.conns r.data).sock).written =
      (s.kernel.socks (s.conns r.data).sock).written) :
    s'.cycle t r' = s.cycle t r := by
  have hreading : (s'.io t).pc.reading r.data = (s.io t).pc.reading r.data :=
    congrArg Duty.reading hp
  have hread : (s'.io t).pc.readAhead r.data = (s.io t).pc.readAhead r.data :=
    congrArg Duty.readAhead hp
  have hwrite : (s'.io t).pc.writeAhead r.data = (s.io t).pc.writeAhead r.data :=
    congrArg Duty.writeAhead hp
  have hwaits : (s'.io t).pc.waits = (s.io t).pc.waits := congrArg Duty.waits hp
  have hstage : (s'.io t).pc.writeStage r.data = (s.io t).pc.writeStage r.data :=
    congrArg Duty.stage hp
  simp only [State.cycle, IoThread.readAhead, IoThread.writeAhead, hd, hm, hb, ha, hn, hc,
    hreading, hread, hwrite, hwaits, hstage, hk.buf, hk.pos, hk.size, hk.sock, hv]

/-- The requests on their way after a step that leaves the thread and the queue alone. -/
theorem asked_worker {c : ConnId} {pc' : WorkerPc n}
    (hw : s'.worker = Function.update s.worker w pc') (hq : s'.queue = s.queue)
    (hp : (s'.io t).pc = (s.io t).pc) :
    s'.asked t c + chunkFor c (s.worker w).chunk? = s.asked t c + chunkFor c pc'.chunk? := by
  have hsum := threadSum_update s.worker w pc' fun pc => chunkFor c pc.chunk?
  rw [State.asked, State.asked, hw, hq, hp, add_assoc, hsum, ← add_assoc]

/-- The announcements after a step of a worker. -/
theorem told_worker {c : ConnId} {pc' : WorkerPc n}
    (hw : s'.worker = Function.update s.worker w pc') (hp : (s'.io t).pc = (s.io t).pc) :
    s'.told t c + ((s.worker w).announces c).toNat +
      AdvancedServer.messageRefs (s.io t).msgQueue c =
        s.told t c + (pc'.announces c).toNat + AdvancedServer.messageRefs (s'.io t).msgQueue c := by
  have hsum := threadSum_update s.worker w pc' fun pc => (pc.announces c).toNat
  rw [State.told, State.told, hw, hp]
  omega

end quiet

section worker

variable {cfg : Config n} {s s' : State n m} {t : Fin n} {w : Fin m} {f : Fd} {r' : Registration}

/-- A step that changes a connection, and not its chunks. -/
theorem chunks_of_update {c c₀ : ConnId} {k : Conn n}
    (hconns : s'.conns = Function.update s.conns c₀ k) (hk : k.chunks = (s.conns c₀).chunks) :
    (s'.conns c).chunks = (s.conns c).chunks := by
  rw [hconns]
  by_cases hc : c = c₀
  · subst hc
    rw [Function.update_self, hk]
  · rw [Function.update_of_ne hc]

/-- A worker makes no chunk. -/
theorem WorkerStep.chunks_eq (h : WorkerStep cfg s w s') (c : ConnId) :
    (s'.conns c).chunks = (s.conns c).chunks := by
  cases h with
  | install | acquire | closeMark | closeRelease | destroy => exact chunks_of_update rfl rfl
  | _ => rfl

/-- A connection that an event loop has is valid, and assigned to the thread of the loop. -/
theorem valid_of_registered (hi : Owned s) {c : ConnId} (ho : s.owner c = .registered t) :
    (s.conns c).isValid = true ∧ (s.conns c).ioThread = some t := by
  constructor
  · refine (hi.conn c).isValid_iff.mpr ?_
    change (s.owner c).marked = false
    rw [ho]
    rfl
  · refine (hi.conn c).thread t ?_
    change (s.owner c).home = some t
    rw [ho]
    rfl

/-- A worker that only moves has the same chunk and the same announcement after it, for a connection
whose message gets its memory. -/
theorem WorkerMove.exchange {pc pc' : WorkerPc n} (h : WorkerMove cfg s pc pc')
    (hpc : s.worker w = pc) (hi : Owned s) {c : ConnId} (ho : s.owner c = .registered t)
    (hfits : ∀ task, pc = .install task → task.conn = c → Fits task.data)
    (halloc : ∀ task t, pc = .sendAlloc task t → task.conn = c → pc' ≠ .stats task) :
    chunkFor c pc'.chunk? = chunkFor c pc.chunk? ∧ pc'.announces c = pc.announces c := by
  obtain ⟨hvalid, hthread⟩ := valid_of_registered hi ho
  cases h with
  | close task ht =>
    have htype := (hi.held w task (by rw [hpc]; rfl)).1
    rw [ht] at htype
    cases htype
  | skip task hskip =>
    have htype := (hi.held w task (by rw [hpc]; rfl)).1
    have hne := ne_of_invalid hi ho (hskip htype)
    simp [WorkerPc.chunk?, WorkerPc.announces, hne]
  | noInstall task hno =>
    have hne : task.conn ≠ c := by
      intro hc
      have hyes : responseFits task.data = true := hfits task rfl hc
      rw [hyes] at hno
      cases hno
    simp [WorkerPc.chunk?, WorkerPc.announces, hne]
  | noSend task hno =>
    have hne : task.conn ≠ c := by
      rintro rfl
      rw [hvalid, hthread] at hno
      rcases hno with hno | hno <;> cases hno
    simp [WorkerPc.chunk?, WorkerPc.announces, hne]
  | notAllocated task t' =>
    have hne : task.conn ≠ c := fun hc => halloc task t' rfl hc rfl
    simp [WorkerPc.chunk?, WorkerPc.announces, hne]
  | _ => exact ⟨rfl, rfl⟩

/-- The requests on their way when a worker takes one from the queue. -/
theorem asked_pop {c : ConnId} {task : Task} {rest : List Task} (hpc : s.worker w = .pop)
    (hq : s.queue = task :: rest) :
    ((s.setQueue rest).setWorker w (.check task)).asked t c = s.asked t c := by
  have hsum := threadSum_update s.worker w (.check task) fun pc => chunkFor c pc.chunk?
  rw [hpc] at hsum
  change _ + 0 = _ + chunkFor c (some (task.conn, task.data)) at hsum
  rw [add_zero] at hsum
  have hworker : ∑ w', chunkFor c (((s.setQueue rest).setWorker w (.check task)).worker w').chunk? =
      ∑ w', chunkFor c (s.worker w').chunk? + chunkFor c (some (task.conn, task.data)) := hsum
  rw [State.asked, State.asked, hworker, hq, setWorker_queue, setQueue_queue]
  change chunkFor c (s.io t).pc.chunk? + _ + _ = chunkFor c (s.io t).pc.chunk? + _ + _
  by_cases hc : task.conn = c
  · have hcons : ((List.filter (fun task => task.conn = c) (task :: rest)).map Task.data :
        Multiset (List UInt8)) = {task.data} +
          ((List.filter (fun task => task.conn = c) rest).map Task.data : List _) := by
      rw [List.filter_cons_of_pos (by simpa using hc), List.map_cons, ← Multiset.cons_coe,
        Multiset.singleton_add]
    rw [hcons, chunkFor_some, if_pos hc]
    abel
  · rw [List.filter_cons_of_neg (by simpa using hc), chunkFor_some, if_neg hc, add_zero]

/-- A worker that puts a response into the buffer of the connection answers one of its requests, and
has the message for it to send. -/
theorem exchanges_install {task : Task} (hr : s.kernel.reg t f = some r')
    (hpc : s.worker w = .install task) (hf : responseFits task.data = true)
    (hc : task.conn = r'.data) :
    Exchanges s ((s.setConn task.conn ((s.conns task.conn).install task.data)).setWorker w
      (.sendTest task)) t f r' := by
  set s₁ := (s.setConn task.conn ((s.conns task.conn).install task.data)).setWorker w
    (.sendTest task) with hs₁
  have hone : s.asked t r'.data = task.data ::ₘ s₁.asked t r'.data := by
    have hsum : s₁.asked t r'.data + chunkFor r'.data (s.worker w).chunk? =
        s.asked t r'.data + chunkFor r'.data (WorkerPc.sendTest task : WorkerPc n).chunk? :=
      asked_worker rfl rfl rfl
    rw [hpc] at hsum
    simp only [WorkerPc.chunk?, chunkFor_some, chunkFor_none, if_pos hc, add_zero] at hsum
    rw [← hsum, add_comm, Multiset.singleton_add]
  have htold : s₁.told t r'.data = s.told t r'.data + 1 := by
    have hsum : s₁.told t r'.data + ((s.worker w).announces r'.data).toNat +
        AdvancedServer.messageRefs (s.io t).msgQueue r'.data =
          s.told t r'.data + ((WorkerPc.sendTest task : WorkerPc n).announces r'.data).toNat +
            AdvancedServer.messageRefs (s₁.io t).msgQueue r'.data := told_worker rfl rfl
    have hann : ((WorkerPc.sendTest task : WorkerPc n).announces r'.data).toNat = 1 := by
      simp [WorkerPc.announces, hc]
    have hnone : ((WorkerPc.install task : WorkerPc n).announces r'.data).toNat = 0 := rfl
    rw [hpc, hann, hnone, add_zero] at hsum
    exact Nat.add_right_cancel hsum
  have hlen := length_response_of_fits hf
  have hstep : RequestCycle.Step Fits response (s.cycle t r') _ :=
    .answer (s.cycle t r') task.data _
      (response task.data ++ (s.conns r'.data).writeBuf.drop (httpResponse task.data).2) hone
      (List.take_left ..)
  refine .old r' hr rfl id (.single ?_)
  convert hstep using 1
  simp only [State.cycle, htold]
  simp [hs₁, IoThread.readAhead, IoThread.writeAhead, hc, hlen]

/-- A message that a worker links counts for the thread that has its connection. -/
theorem messageRefs_link (hi : Owned s) {c : ConnId} (ho : s.owner c = .registered t)
    {task : Task} {t' : Fin n} (hpc : s.worker w = .sendLink task t') :
    AdvancedServer.messageRefs ((s.linkMessage w task t').io t).msgQueue c =
      AdvancedServer.messageRefs (s.io t).msgQueue c + (decide (task.conn = c)).toNat := by
  by_cases ht : t = t'
  · subst ht
    by_cases hc : task.conn = c <;> simp [linkMessage, AdvancedServer.messageRefs, hc]
  · have hne : task.conn ≠ c := by
      -- the message goes to the thread that owns the connection
      intro hc
      have hhome := hi.sending w task t' (by rw [hpc]; rfl) (by rw [hpc]; rfl)
      rw [hc, ho] at hhome
      exact ht (Option.some.inj hhome)
    simp [linkMessage, ht, hne]

/-- A step of a worker, seen from an entry of an interest list. -/
theorem exchanges_worker (hi : Owned s) (hl : Listed s) {ok : Bool}
    (hs : (server m cfg).step s (.worker w ok) = some s')
    (hok : s.impairs (s.conns r'.data).sock (.worker w ok) = false)
    (hr' : s'.kernel.reg t f = some r') (hfits : ∀ data ∈ s.asked t r'.data, Fits data) :
    Exchanges s s' t f r' := by
  have hwork : s.workerStep cfg w ok = some s' := hs
  have hstep : WorkerStep cfg s w s' := workerStep_spec hs
  have hr := hstep.listed hr'
  have ho := (hl.registered hr).1
  obtain ⟨-, hpc, hb⟩ := hstep.io_eq t
  have hsocks := hstep.socks_eq
  have hchunks := hstep.chunks_eq r'.data
  have hasked : ∀ {pc' : WorkerPc n}, s'.worker = Function.update s.worker w pc' →
      s'.queue = s.queue → s'.asked t r'.data + chunkFor r'.data (s.worker w).chunk? =
        s.asked t r'.data + chunkFor r'.data pc'.chunk? :=
    fun hw hq => asked_worker hw hq hpc
  have htold : ∀ {pc' : WorkerPc n}, s'.worker = Function.update s.worker w pc' →
      s'.told t r'.data + ((s.worker w).announces r'.data).toNat +
          AdvancedServer.messageRefs (s.io t).msgQueue r'.data =
        s.told t r'.data + (pc'.announces r'.data).toNat +
          AdvancedServer.messageRefs (s'.io t).msgQueue r'.data :=
    fun hw => told_worker hw hpc
  have hpass : (s.conns r'.data).SameBuffer (s'.conns r'.data) →
      s'.asked t r'.data = s.asked t r'.data → s'.told t r'.data = s.told t r'.data →
      Exchanges s s' t f r' := by
    intro hk ha hn
    refine .old r' hr rfl id ?_
    rw [cycle_eq rfl rfl hb (by rw [hpc]) ha hn hk hchunks (by rw [hsocks])]
  -- the worker has the same chunk and the same announcement after the step
  have hquiet : ∀ {pc' : WorkerPc n}, s'.worker = Function.update s.worker w pc' →
      s'.queue = s.queue → (s'.io t).msgQueue = (s.io t).msgQueue →
      chunkFor r'.data pc'.chunk? = chunkFor r'.data (s.worker w).chunk? ∧
        pc'.announces r'.data = (s.worker w).announces r'.data →
      (s.conns r'.data).SameBuffer (s'.conns r'.data) → Exchanges s s' t f r' := by
    rintro pc' hw hq hm ⟨hchunk, hann⟩ hk
    refine hpass hk ?_ ?_
    · have hsum := hasked hw hq
      rw [hchunk] at hsum
      exact add_right_cancel hsum
    · have hsum := htold hw
      rw [hann, hm] at hsum
      omega
  have hbuffer : ∀ {c : ConnId} {k : Conn n}, s'.conns = Function.update s.conns c k →
      (s.conns c).SameBuffer k → (s.conns r'.data).SameBuffer (s'.conns r'.data) := by
    intro c k hs hk
    rw [hs]
    exact sameBuffer_update hk _
  cases hstep with
  | @move pc' hm =>
    refine hquiet rfl rfl rfl (hm.exchange rfl hi ho (fun task hpcw hc => ?_)
      fun task t' hpcw hc hst => ?_) (.refl _)
    · refine hfits task.data ?_
      have hmem : task.data ∈ ∑ w, chunkFor r'.data (s.worker w).chunk? := by
        refine Multiset.mem_sum.mpr ⟨w, Finset.mem_univ w, ?_⟩
        rw [hpcw]
        simp [WorkerPc.chunk?, hc]
      rw [State.asked]
      exact Multiset.mem_add.mpr (.inr hmem)
    · simp only [State.impairs, hpcw, hc, decide_true, Bool.true_and, Bool.not_eq_false'] at hok
      simp only [workerStep, hpcw, hok, if_pos, Option.some.injEq] at hwork
      have hworker := congrFun (congrArg State.worker hwork) w
      rw [setWorker_worker, setWorker_worker, Function.update_self, Function.update_self,
        hst] at hworker
      cases hworker
  | @pop task rest hpcw hq =>
    refine hpass (.refl _) (asked_pop hpcw hq) ?_
    have hsum := htold rfl
    rw [hpcw] at hsum
    exact Nat.add_right_cancel hsum
  | @install task hpcw hf =>
    by_cases hc : task.conn = r'.data
    · exact exchanges_install hr hpcw hf hc
    · refine hquiet rfl rfl rfl ?_ ?_
      · rw [hpcw]
        simp [WorkerPc.chunk?, WorkerPc.announces, hc]
      · rw [setWorker_conns, setConn_conns, Function.update_of_ne (Ne.symm hc)]
        exact .refl _
  | @acquire task t' hpcw =>
    refine hquiet rfl rfl rfl ?_ (hbuffer rfl ⟨rfl, rfl, rfl, rfl, rfl⟩)
    rw [hpcw]
    exact ⟨rfl, rfl⟩
  | @link task t' hpcw =>
    refine hpass (.refl _) ?_ ?_
    · have hsum := hasked rfl rfl
      rw [hpcw] at hsum
      exact add_right_cancel hsum
    · have hsum := htold rfl
      rw [hpcw] at hsum
      rw [messageRefs_link hi ho hpcw] at hsum
      change _ + (decide (task.conn = r'.data)).toNat + _ = _ + 0 +
        (_ + (decide (task.conn = r'.data)).toNat) at hsum
      omega
  | @notify task t' hpcw hlt =>
    refine hquiet rfl rfl ?_ ?_ (.refl _)
    · by_cases ht : t = t'
      · subst ht
        simp
      · simp [ht]
    · rw [hpcw]
      exact ⟨rfl, rfl⟩
  | closeMark hpcw | closeRelease hpcw =>
    have hnever := hi.never_closes w
    rw [hpcw] at hnever
    cases hnever
  | @stats task hpcw =>
    refine hquiet rfl rfl rfl ?_ (.refl _)
    rw [hpcw]
    exact ⟨rfl, rfl⟩
  | @destroy task hpcw =>
    refine hquiet rfl rfl rfl ?_ (hbuffer rfl ⟨rfl, rfl, rfl, rfl, rfl⟩)
    rw [hpcw]
    exact ⟨rfl, rfl⟩

end worker

section others

variable {cfg : Config n} {s s' : State n m} {t t₀ : Fin n} {f : Fd} {r' : Registration}

/-- An IO thread makes chunks of the connection only for which it makes a task. -/
theorem IoStep.chunks_eq (h : IoStep cfg s t s') {c : ConnId}
    (hc : ∀ x data, (s.io t).pc = .rdCreate x data → x.conn ≠ c) :
    (s'.conns c).chunks = (s.conns c).chunks := by
  cases h with
  | @createTask x data hpc =>
    have hne : c ≠ x.conn := fun heq => hc x data hpc heq.symm
    rw [setIoPc_conns, setConn_conns, Function.update_of_ne hne]
  | reject => exact chunks_of_update (rejectConnection_conns ..) rfl
  | closeMark => exact chunks_of_update (markClosing_conns ..) rfl
  | closeRelease => exact chunks_of_update (releaseOwner_conns ..) rfl
  | readConn | adopt | register | msgRelease | readData | createLeak | submitLeak
  | backToRead | wrote | reset => exact chunks_of_update rfl rfl
  | _ => rfl

/-- An IO thread submits tasks of the connection it treats only. -/
theorem IoStep.queue_eq (h : IoStep cfg s t s') (hi : Owned s) {c : ConnId}
    (hc : (s.io t).pc.role ≠ .active c) :
    s'.queue.filter (fun task => task.conn = c) = s.queue.filter fun task => task.conn = c := by
  cases h with
  | @submit x task hpc hq =>
    have hrole := (hi.submitting t task (by rw [hpc]; rfl)).2
    have hne : task.conn ≠ c := by
      rintro rfl
      exact hc hrole
    simp [hne]
  | _ => rfl

/-- The main thread makes no chunk. -/
theorem MainStep.chunks_eq (h : MainStep cfg s s') (hi : Owned s) {c : ConnId}
    (hc : s.owner c ≠ .unborn) :
    (s'.conns c).chunks = (s.conns c).chunks := by
  cases h with
  | create hpc =>
    have hne : c ≠ s.nextConn := by
      rintro rfl
      exact hc ((hi.unborn _).mpr le_rfl)
    rw [createConnection_conns, Function.update_of_ne hne]
  | drop => exact chunks_of_update (dropConnection_conns ..) rfl
  | handOff | destroyTask => exact chunks_of_update rfl rfl
  | _ => rfl

/-- A step that changes neither what the thread is doing for an exchange, nor a task, nor an
announcement. -/
theorem exchanges_quiet {r : Registration} (hr : s.kernel.reg t f = some r) (hd : r'.data = r.data)
    (hm : r'.mask = r.mask) (hp : (s'.io t).pc.duty r.data = (s.io t).pc.duty r.data)
    (hb : (s'.io t).batch = (s.io t).batch) (hmsg : (s'.io t).msgQueue = (s.io t).msgQueue)
    (hw : s'.worker = s.worker)
    (hq : s'.queue.filter (fun task => task.conn = r.data) = s.queue.filter fun task =>
      task.conn = r.data)
    (hk : (s.conns r.data).SameBuffer (s'.conns r.data))
    (hc : (s'.conns r.data).chunks = (s.conns r.data).chunks)
    (hv : (s'.kernel.socks (s.conns r.data).sock).written =
      (s.kernel.socks (s.conns r.data).sock).written) : Exchanges s s' t f r' := by
  have hchunk : chunkFor r.data (s'.io t).pc.chunk? = chunkFor r.data (s.io t).pc.chunk? :=
    congrArg Duty.asked hp
  have hann : (s'.io t).pc.announced r.data = (s.io t).pc.announced r.data :=
    congrArg Duty.announced hp
  refine .old r hr hd.symm (by rw [hm]; exact id) ?_
  rw [cycle_eq hd (by rw [hm]) hb hp ?_ ?_ hk hc hv]
  · rw [State.asked, State.asked, hchunk, hw, hq]
  · rw [State.told, State.told, hann, hw, hmsg]

/-- A step of the main thread, seen from an entry of an interest list. -/
theorem exchanges_main (hi : Owned s) (hd : ConnFiles s) (hl : Listed s) (htorn : TornDown s)
    {res : MainResult} (hs : (server m cfg).step s (.main res) = some s')
    (hr' : s'.kernel.reg t f = some r') : Exchanges s s' t f r' := by
  have hstep : MainStep cfg s s' := mainStep_spec hs
  have hr := hstep.listed hr'
  have hborn : s.owner r'.data ≠ .unborn := by
    rw [(hl.registered hr).1]
    nofun
  have hqueue : s'.queue = s.queue := by
    cases hstep with
    | destroyTask hpc =>
      have hnone := htorn.unlisted t f (by rw [hpc]; rfl)
      rw [hr] at hnone
      cases hnone
    | _ => rfl
  cases step_bufferChange hi hd hs hborn with
  | same hk hv =>
    obtain ⟨hpc, hb, hmsg⟩ := hstep.io_eq t
    exact exchanges_quiet hr rfl rfl (by rw [hpc]) hb hmsg hstep.worker_eq (by rw [hqueue]) hk
      (hstep.chunks_eq hi hborn) hv

/-- A step of the clients, seen from an entry of an interest list. -/
theorem exchanges_env (hi : Owned s) (hd : ConnFiles s) (hl : Listed s) {e : Environment}
    (hs : (server m cfg).step s (.env e) = some s') (hr' : s'.kernel.reg t f = some r') :
    Exchanges s s' t f r' := by
  have hstep : EnvStep s s' := envStep_spec hs
  obtain ⟨r, hr, hdata, hmask⟩ := hstep.listed hr'
  have hborn : s.owner r.data ≠ .unborn := by
    rw [(hl.registered hr).1]
    nofun
  cases step_bufferChange hi hd hs hborn with
  | same hk hv =>
    cases hstep with
    | arrive => exact exchanges_quiet hr hdata.symm hmask.symm rfl rfl rfl rfl rfl hk rfl hv
    | sock => exact exchanges_quiet hr hdata.symm hmask.symm rfl rfl rfl rfl rfl hk rfl hv

/-- A step of another IO thread, seen from an entry of an interest list. -/
theorem exchanges_other (hi : Owned s) (hd : ConnFiles s) (hl : Listed s) {res : IoResult}
    (hs : (server m cfg).step s (.io t₀ res) = some s') (ht : t ≠ t₀)
    (hr' : s'.kernel.reg t f = some r') : Exchanges s s' t f r' := by
  have hstep : IoStep cfg s t₀ s' := ioStep_spec hs
  have hr := hstep.reg_other ht hr'
  have ho := (hl.registered hr).1
  have hborn : s.owner r'.data ≠ .unborn := by
    rw [ho]
    nofun
  have hio := hstep.io_ne ht
  -- the other thread treats its own connections only
  have hrole : (s.io t₀).pc.role ≠ .active r'.data := by
    intro hrole
    have hx := (hi.io t₀).active r'.data hrole
    rw [ho] at hx
    exact ht (Owner.registered.inj hx)
  cases step_bufferChange hi hd hs hborn with
  | same hk hv =>
    exact exchanges_quiet hr rfl rfl (by rw [hio]) (by rw [hio]) (by rw [hio]) hstep.worker_eq
      (hstep.queue_eq hi hrole) hk
      (hstep.chunks_eq fun x data hpc hc => hrole (hc ▸ congrArg IoPc.role hpc)) hv
  | wrote _ _ x len room hpc hc hlen hs' => exact absurd (hc ▸ congrArg IoPc.role hpc) hrole
  | reset _ _ x hpc hc hs' => exact absurd (hc ▸ congrArg IoPc.role hpc) hrole

end others

end DeepInIo.AdvancedServer
