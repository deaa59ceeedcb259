import DeepInIo.AdvancedServer.AddressReuse
import DeepInIo.AdvancedServer.ClientSteps
import DeepInIo.Foundation.History

/-!
# What happens at a socket

A `SocketLog` records, beside a run, the chunks that are read from a socket and the steps that the
server takes for the client behind it.  The machine of the client has read just these chunks
(`Logged`).

A run in which memory is used again has the same log as the run of `server` with new numbers
(`exists_numbered_log`).
-/

namespace DeepInIo.AdvancedServer

open State

variable {n m : ℕ}

/-! ### The log -/

/-- What happened at a socket. -/
structure SocketLog (n m : ℕ) where
  /-- what the calls of `read` returned -/
  chunks : List (List UInt8)
  /-- the steps taken for the client -/
  steps : List (ClientStep n m)
  deriving DecidableEq

/-- The bytes that an IO thread reads from the socket. -/
def State.chunkRead (s : State n m) (sk : SockId) : Action n m → Option (List UInt8)
  | .io t (.got len) =>
    match (s.io t).pc with
    | .rdRead x =>
      if s.kernel.sockAt (s.conns x.conn).fd = some sk then
        some ((s.kernel.socks sk).unread.take len)
      else none
    | _ => none
  | _ => none

/-- An IO thread reads from a socket in `handle_read` only. -/
theorem chunkRead_eq_none {s : State n m} {t : Fin n} (h : ∀ x, (s.io t).pc ≠ .rdRead x)
    {sk : SockId} {res : IoResult} : s.chunkRead sk (.io t res) = none := by
  cases res with
  | got len =>
    rw [State.chunkRead]
    split
    · next x hpc => exact absurd hpc (h x)
    · rfl
  | _ => rfl

namespace SocketLog

/-- Nothing has happened. -/
@[simps]
def empty : SocketLog n m := ⟨[], []⟩

/-- The log after a step of `server`. -/
@[simps]
def record (sk : SockId) (l : SocketLog n m) (s : State n m) (a : Action n m) : SocketLog n m where
  chunks := l.chunks ++ (s.chunkRead sk a).toList
  steps := l.steps ++ (s.clientStep sk a).toList

/-- The log after a step of the server in which memory is used again. -/
def recordReuse (sk : SockId) (l : SocketLog n m) (s : State n m) (a : ReuseAction n m) :
    SocketLog n m :=
  a.base.elim l (l.record sk s)

end SocketLog

/-- `server`, with the log of a socket. -/
def loggedServer (m : ℕ) (cfg : Config n) (sk : SockId) :
    TransitionSystem (State n m × SocketLog n m) (Action n m) :=
  (server m cfg).recording .empty (SocketLog.record sk)

/-- The server in which memory is used again, with the log of a socket. -/
def loggedReusingServer (m : ℕ) (cfg : Config n) (sk : SockId) :
    TransitionSystem (State n m × SocketLog n m) (ReuseAction n m) :=
  (reusingServer m cfg).recording .empty (SocketLog.recordReuse sk)

theorem loggedReusingServer_start (cfg : Config n) (sk : SockId) :
    (loggedReusingServer m cfg sk).init (State.start cfg, .empty) :=
  ⟨rfl, rfl⟩

/-! ### The machine of the client -/

section machine

variable {cfg : Config n} {s s' : State n m} {l : SocketLog n m} {sk : SockId}

/-- The machine of the client has taken the steps of the log, and has read its chunks. -/
structure Logged (sk : SockId) (s : State n m) (l : SocketLog n m) : Prop where
  shows : Shows s sk (ClientView.initial.after l.steps)
  chunks : (ClientView.initial.after l.steps).chunks = l.chunks

/-- The chunk that a step of the machine reads. -/
def ClientStep.chunk (v : ClientView n m) : ClientStep n m → Option (List UInt8)
  | .read _ len => some (v.unread.take len)
  | _ => none

theorem chunks_clientStep (v : ClientView n m) (a : ClientStep n m) :
    (v.step a).chunks = v.chunks ++ (a.chunk v).toList := by
  cases a with
  | read t len => rfl
  | _ => exact (List.append_nil _).symm

/-- Elsewhere an IO thread reads nothing for the client. -/
theorem chunk_ioClientStep {t : Fin n} (h : ∀ x, (s.io t).pc ≠ .rdRead x) (v : ClientView n m)
    (res : IoResult) : (s.ioClientStep sk t res).bind (ClientStep.chunk v) = none := by
  unfold State.ioClientStep
  split
  · next x hpc => exact absurd hpc (h x)
  · cases res <;> dsimp only <;> (try split) <;> rfl
  · split
    · cases s.poolShutdown || s.queueShutdown <;> rfl
    · rfl
  · cases res <;> dsimp only <;> (try split) <;> rfl
  · split <;> rfl
  · rfl

/-- The machine reads what an IO thread reads from the socket. -/
theorem chunkRead_eq (hi : Owned s) (hd : ConnFiles s) {v : ClientView n m} (h : Shows s sk v)
    (a : Action n m) : s.chunkRead sk a = (s.clientStep sk a).bind (ClientStep.chunk v) := by
  cases a with
  | main r =>
    simp only [State.chunkRead, State.clientStep, State.mainClientStep]
    repeat' split
    all_goals rfl
  | worker w ok =>
    simp only [State.chunkRead, State.clientStep, State.workerClientStep]
    repeat' split
    all_goals rfl
  | env e =>
    cases e with
    | data f bytes =>
      simp only [State.chunkRead, State.clientStep]
      split <;> rfl
    | _ => rfl
  | io t r =>
    by_cases hread : ∃ x, (s.io t).pc = .rdRead x
    · obtain ⟨x, hpc⟩ := hread
      simp only [State.clientStep, State.ioClientStep, hpc]
      cases r with
      | got len =>
        simp only [State.chunkRead, hpc, sockAt_active hi hd (congrArg IoPc.role hpc),
          Option.some.injEq]
        split
        · rw [h.unread]
          rfl
        · rfl
      | _ => rfl
    · have hno : ∀ x, (s.io t).pc ≠ .rdRead x := not_exists.mp hread
      rw [chunkRead_eq_none hno]
      exact (chunk_ioClientStep hno v r).symm

theorem logged_start (cfg : Config n) (sk : SockId) :
    Logged sk (State.start cfg : State n m) .empty where
  shows := shows_start cfg sk
  chunks := rfl

/-- The machine keeps up with the log. -/
theorem Logged.step (h : Logged sk s l) (hr : (server m cfg).Reachable s) {a : Action n m}
    (hs : (server m cfg).step s a = some s') : Logged sk s' (l.record sk s a) := by
  have hi := reachable_owned hr
  have hd := reachable_descriptors hr
  have hafter : ClientView.initial.after (l.record sk s a).steps =
      (ClientView.initial.after l.steps).after (s.clientStep sk a).toList := by
    rw [SocketLog.record_steps, ClientView.after, List.foldl_append]
    rfl
  refine ⟨?_, ?_⟩
  · rw [hafter]
    exact h.shows.step hi hd hs
  · rw [hafter, SocketLog.record_chunks, chunkRead_eq hi hd.conn h.shows, ← h.chunks]
    cases s.clientStep sk a with
    | none => exact (List.append_nil _).symm
    | some b => exact chunks_clientStep _ b

/-- The machine has taken the steps of the log in every run. -/
theorem reachable_logged {p : State n m × SocketLog n m}
    (h : (loggedServer m cfg sk).Reachable p) : Logged sk p.1 p.2 := by
  refine h.record_invariant (I := Logged sk) ?_ fun s l a s' hr hl hs => hl.step hr hs
  rintro _ rfl
  exact logged_start cfg sk

end machine

/-! ### The log when memory is used again -/

section reuse

variable {cfg : Config n} {s s' r r' : State n m} {l : SocketLog n m} {sk : SockId}
  {α : ConnId → ConnId} {live : ConnId → Prop} {t : Fin n} {w : Fin m}

/-- The connection of a task in the queue. -/
theorem not_gone_of_queue (hi : Owned s) (hc : Counts s) {task : Task} (ht : task ∈ s.queue) :
    task.conn < s.nextConn ∧ ¬s.Gone task.conn :=
  not_gone_of_pos hi hc (hc.pos_of_queue ht)

namespace AtAddresses

theorem conn_of_ioAccess (h : AtAddresses cfg α live s r) {c : ConnId}
    (ha : (s.io t).pc.access? = some c) : r.conns (α c) = s.conns c :=
  h.self.conns c (h.live_of_not_gone
    (not_gone_of_ioAccess (reachable_owned h.reachable) (reachable_counts h.reachable) ha))

theorem conn_of_workerAccess (h : AtAddresses cfg α live s r) {c : ConnId}
    (ha : (s.worker w).access? = some c) : r.conns (α c) = s.conns c :=
  h.self.conns c (h.live_of_not_gone
    (not_gone_of_workerAccess (reachable_owned h.reachable) (reachable_counts h.reachable) ha))

theorem conn_of_worker (h : AtAddresses cfg α live s r) {task : Task}
    (ht : (s.worker w).task? = some task) : r.conns (α task.conn) = s.conns task.conn :=
  h.self.conns _ (h.live_of_not_gone (not_gone_of_pos (reachable_owned h.reachable)
    (reachable_counts h.reachable) ((reachable_counts h.reachable).pos_of_worker ht)))

theorem conn_of_queue (h : AtAddresses cfg α live s r) {task : Task} (ht : task ∈ s.queue) :
    r.conns (α task.conn) = s.conns task.conn :=
  h.self.conns _ (h.live_of_not_gone
    (not_gone_of_queue (reachable_owned h.reachable) (reachable_counts h.reachable) ht))

/-- The sockets are the same. -/
theorem socks_eq (h : AtAddresses cfg α live s r) : r.kernel.socks = s.kernel.socks := by
  rw [h.self.kernel]
  rfl

/-- Both servers read the same bytes from the socket. -/
theorem chunkRead_eq (h : AtAddresses cfg α live s r) (a : Action n m) :
    r.chunkRead sk a = s.chunkRead sk a := by
  cases a with
  | io t res =>
    cases res with
    | got len =>
      have hpc' : (r.io t).pc = (s.io t).pc.readdress α := by rw [h.self.io]; rfl
      simp only [State.chunkRead, hpc', h.self.kernel]
      cases hpc : (s.io t).pc with
      | rdRead x =>
        have hconn := h.conn_of_ioAccess (t := t) (c := x.conn) (by rw [hpc]; rfl)
        simp only [IoPc.readdress, EventContext.readdress_conn, hconn]
        rfl
      | _ => rfl
    | _ => rfl
  | _ => rfl

/-- Both servers take the same step for the client. -/
theorem clientStep_eq (h : AtAddresses cfg α live s r) (a : Action n m) :
    r.clientStep sk a = s.clientStep sk a := by
  have hi := reachable_owned h.reachable
  cases a with
  | main res =>
    simp only [State.clientStep, State.mainClientStep, h.self.main, h.self.queue]
    cases s.main with
    | queueDestroy =>
      cases hq : s.queue with
      | nil => rfl
      | cons task rest =>
        have hmem : task ∈ s.queue := by
          rw [hq]
          exact List.mem_cons_self ..
        have hconn := h.conn_of_queue hmem
        simp only [MainPc.readdress, List.map_cons, Task.readdress_conn, hconn]
    | _ => rfl
  | io t res =>
    have hpc' : (r.io t).pc = (s.io t).pc.readdress α := by rw [h.self.io]; rfl
    simp only [State.clientStep, State.ioClientStep, hpc']
    cases hpc : (s.io t).pc with
    | rdRead x | rdCreate x data | wrLoop x | wrReset x =>
      have hconn := h.conn_of_ioAccess (t := t) (c := x.conn) (by rw [hpc]; rfl)
      simp only [IoPc.readdress, EventContext.readdress_conn, hconn]
    | rdSubmit x task =>
      have hrole := (hi.submitting t task (by rw [hpc]; rfl)).2
      rw [hpc] at hrole
      have hconn := h.conn_of_ioAccess (t := t) (c := task.conn)
        (by rw [hpc, ← Role.active.inj hrole]; rfl)
      simp only [IoPc.readdress, Task.readdress_conn, hconn, h.self.poolShutdown,
        h.self.queueShutdown]
    | _ => rfl
  | worker w ok =>
    simp only [State.clientStep, State.workerClientStep, h.self.worker]
    cases hpc : s.worker w with
    | pop =>
      rw [h.self.queue]
      cases hq : s.queue with
      | nil => rfl
      | cons task rest =>
        have hmem : task ∈ s.queue := by
          rw [hq]
          exact List.mem_cons_self ..
        have hconn := h.conn_of_queue hmem
        simp only [WorkerPc.readdress, List.map_cons, Task.readdress_conn, hconn]
    | check task =>
      have hconn := h.conn_of_workerAccess (w := w) (c := task.conn) (by rw [hpc]; rfl)
      have hiff : r.dispatchTask (task.readdress α) ≠ .install (task.readdress α) ↔
          s.dispatchTask task ≠ .install task := by
        rw [State.dispatchTask, State.dispatchTask, Task.readdress_type, Task.readdress_conn, hconn]
        cases task.type with
        | process => cases (s.conns task.conn).isValid <;> simp
        | read | write | close => simp
      simp only [WorkerPc.readdress, Task.readdress_conn, hconn, hiff]
    | install task =>
      have hconn := h.conn_of_workerAccess (w := w) (c := task.conn) (by rw [hpc]; rfl)
      simp only [WorkerPc.readdress, Task.readdress_conn, hconn]
    | _ => rfl
  | env e =>
    cases e with
    | data f bytes =>
      simp only [State.clientStep, h.self.kernel]
      rfl
    | _ => rfl

/-- The log of both servers grows in the same way. -/
theorem record_eq (h : AtAddresses cfg α live s r) (a : Action n m) :
    l.record sk r a = l.record sk s a := by
  rw [SocketLog.record, SocketLog.record, h.chunkRead_eq, h.clientStep_eq]

end AtAddresses

/-- A run in which no memory is handed out that is still to be checked has the same log as a run of
`server`, whose steps meet every condition that is read off at the addresses. -/
theorem exists_numbered_log (ok : State n m × SocketLog n m → Action n m → Prop)
    (ok' : State n m × SocketLog n m → ReuseAction n m → Prop)
    (hok : ∀ {α live s r l a b}, AtAddresses cfg α live s r → ok' (r, l) a → b ∈ a.base →
      ok (s, l) b)
    {p : State n m × SocketLog n m}
    (h : (loggedReusingServer m cfg sk).ReachableUnder
      (fun p a => p.1.reusesChecked a = false ∧ ok' p a) p) :
    ∃ α live s, AtAddresses cfg α live s p.1 ∧
      (loggedServer m cfg sk).ReachableUnder ok (s, p.2) := by
  induction h with
  | @init p h =>
    obtain ⟨r, l⟩ := p
    obtain ⟨rfl, rfl⟩ := h
    exact ⟨_, _, _, .start cfg, .init ⟨rfl, rfl⟩⟩
  | @step p p' a _ hallowed hs ih =>
    obtain ⟨r, l⟩ := p
    obtain ⟨r', l'⟩ := p'
    obtain ⟨hs, rfl⟩ := TransitionSystem.recording_step.mp hs
    obtain ⟨α, live, s, hplaced, hlogged⟩ := ih
    obtain ⟨α', live', s', hnext, hstep, hstay⟩ := hplaced.step hallowed.1 hs
    refine ⟨α', live', s', hnext, ?_⟩
    rw [SocketLog.recordReuse]
    cases hb : a.base with
    | none =>
      rw [hstay hb]
      exact hlogged
    | some b =>
      refine hlogged.step (hok hplaced hallowed.2 hb) ?_
      exact TransitionSystem.recording_step.mpr ⟨hstep b hb, hplaced.record_eq b |>.symm⟩

end reuse

/-! ### Pieces of runs -/

namespace ReuseAction

/-- Steps in which no connection is created. -/
def others (as : List (Action n m)) : List (ReuseAction n m) :=
  as.map .other

/-- A client connects while the main thread waits, gets the number `f`, and its connection the
memory at `p`. -/
def connect (f : Fd) (p : ConnId) : List (ReuseAction n m) :=
  [.other (.env .arrive), .other (.main .ok), .other (.main (.accepted f)), .other (.main .ok),
    .create p, .other (.main .ok), .other (.main .again)]

/-- The client behind the descriptor `f` hangs up, the IO thread `t` frees its connection and is
still to check it. -/
def hangUp (t : Fin n) (f : Fd) : List (ReuseAction n m) :=
  others (List.flatten [[.env (.peerClose f)], Action.deliver t f { read := true, hup := true },
    [.io t .eof, .io t .ok, .io t .ok, .io t .ok]])

/-- The first client hangs up, and its connection is freed by the thread 0, which is still to check
it.  The memory is handed out for a second client, the bytes of which the thread 1 has read when the
thread 0 checks.  The thread 0 takes the second connection for the first one and frees it, too; the
memory is handed out for a third client, and gets the response to the bytes of the second one. -/
def strayResponse (bytes : List UInt8) : List (ReuseAction 2 1) :=
  List.flatten [connect 20 0, others (Action.adopt 0), hangUp 0 20,
    connect 20 0, others (Action.adopt 1), others [.env (.data 20 bytes)],
    others (Action.deliver 1 20 { read := true }), others [.io 1 (.got bytes.length)],
    others (List.replicate 6 (.io 0 .ok)),
    connect 20 0, others (Action.adopt 0), others [.io 1 .ok, .io 1 .ok], others (Action.work 0 11),
    others (Action.drainMessages 0 1), others (Action.deliver 0 20 { write := true }),
    others [.io 0 .ok, .io 0 (.wrote 95 true)]]

end ReuseAction

end DeepInIo.AdvancedServer
