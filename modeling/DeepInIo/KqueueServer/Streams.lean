import DeepInIo.Foundation.History
import DeepInIo.Foundation.StreamService
import DeepInIo.KqueueServer.Steps

/-!
# What the kqueue server reads

A record beside the state says what has arrived on each connection and what every `read` returned.
The server refines the service that reads every stream to its end (`service_refined`): whatever
arrives before a connection is accepted is read after it, no `read` would have blocked, and a
connection is closed only when its peer has shut down and its stream was read to the end, or when
`read` has failed.
-/

namespace DeepInIo.KqueueServer

variable {n : ℕ}

/-- The buffer of a connection. -/
def Sock.toBuffer (v : Sock) : Buffer UInt8 where
  unread := v.unread
  ended := v.peerClosed

namespace State

/-- What a step adds to the record; what has arrived on a connection before `accept` counts as sent
with it. -/
def record (g : StreamLog (Fin n) UInt8) (s : State n) : Action n → StreamLog (Fin n) UInt8
  | .loop r =>
    match s.pc, r with
    | .accept, .accepted f =>
      match s.backlog with
      | v :: _ => g.startWith f v.toBuffer
      | [] => g
    | .read f, .ok =>
      match s.socks f with
      | some v => g.read f (v.toBuffer.read bufferSize)
      | none => g.read f .error
    | .read f, .err => g.read f .error
    | .close f, _ => g.finish f
    | _, _ => g
  | .env (.data f bytes) => g.send f bytes
  | .env (.peerClose f) => g.endStream f
  | .env _ => g

variable {s s' : State n} {r : Result n} {a : Action n} {f : Fin n} {g g' : StreamLog (Fin n) UInt8}

/-- A client that is being closed has failed, or its stream was read to the end. -/
def Closing (s : State n) (g : StreamLog (Fin n) UInt8) : Prop :=
  ∀ f, s.pc = .close f →
    ∃ v, s.socks f = some v ∧
      (.error ∈ (g.current f).reads ∨ v.peerClosed = true ∧ v.unread = [])

/-- The service that the server with its record provides. -/
def service (s : State n) (g : StreamLog (Fin n) UInt8) : Service (Fin n) UInt8 :=
  .ofSockets Sock.toBuffer s.socks g

/-- The service when one socket has changed. -/
theorem service_set {v : Option Sock} (h : s'.socks = Function.update s.socks f v)
    (g' : StreamLog (Fin n) UInt8) :
    s'.service g' = ⟨Function.update (s.service g).conns f (v.map Sock.toBuffer), g'⟩ :=
  Service.ofSockets_update h g g'

/-- A step of the event loop is nothing to the service or some of its steps, and keeps the
invariant. -/
theorem loopStep_service (hs : LoopStep s r s') (hi : s.Sound) (h : s.Closing g) :
    s'.Closing (record g s (.loop r)) ∧
      Relation.ReflTransGen (Service.Step bufferSize) (s.service g)
        (s'.service (record g s (.loop r))) := by
  -- nothing is sent or read at the other program points
  have hquiet : ∀ s' : State n, record g s (.loop r) = g → s'.socks = s.socks →
      (∀ f, s'.pc ≠ .close f) → s'.Closing (record g s (.loop r)) ∧
        Relation.ReflTransGen (Service.Step bufferSize) (s.service g)
          (s'.service (record g s (.loop r))) := by
    intro s' hrec hsocks hpc
    rw [hrec]
    refine ⟨fun f hf => absurd hf (hpc f), ?_⟩
    rw [service, service, hsocks]
  cases hs with
  | kevent hpc | keventFailed hpc | nextWait hpc | nextListen hpc | nextClient hpc
  | acceptFailed hpc | aborted hpc | registered hpc | notRegistered hpc | deleted hpc =>
    exact hquiet _ (by simp only [record, hpc]) rfl (by simp)
  | @accepted f v rest hpc hb hfree =>
    have hrec : record g s (.loop (.accepted f)) = g.startWith f v.toBuffer := by
      simp only [record, hpc, hb]
    rw [hrec]
    refine ⟨by rintro f ⟨⟩, ?_⟩
    have hsocks :
        (({ s with backlog := rest }.setSock f (some v)).setPc (.register (some f))).socks =
          Function.update s.socks f (some v) := rfl
    rw [service_set (g := g) hsocks]
    apply Service.startWith_run
    simp [service, hfree]
  | @took f v hpc hv hne =>
    simp only [record, hpc, hv, Buffer.read_of_ne (b := v.toBuffer) hne]
    refine ⟨by rintro f ⟨⟩, ?_⟩
    have hsocks :
        ((s.setSock f (some { v with unread := v.unread.drop bufferSize })).setPc .next).socks =
          Function.update s.socks f (some { v with unread := v.unread.drop bufferSize }) := rfl
    rw [service_set hsocks]
    exact .single (.take (Service.ofSockets_conns_of_some hv g) hne)
  | @nothing f hpc hv =>
    -- what is readable and has no byte is at its end
    obtain ⟨-, v, hsome, hread⟩ := ready_client.mp (hi.read f hpc).2
    have hempty := hv v hsome
    have hend : v.peerClosed = true := by
      rw [Sock.readable, hempty] at hread
      simpa using hread
    simp only [record, hpc, hsome, Buffer.read_of_ended (b := v.toBuffer) hend hempty]
    refine ⟨?_, .single (.eof (Service.ofSockets_conns_of_some hsome g) hend hempty)⟩
    rintro f' ⟨⟩
    exact ⟨v, hsome, .inr ⟨hend, hempty⟩⟩
  | @readFailed f hpc =>
    obtain ⟨-, v, hsome, -⟩ := ready_client.mp (hi.read f hpc).2
    simp only [record, hpc]
    refine ⟨?_, .single .fail⟩
    rintro f' ⟨⟩
    refine ⟨v, hsome, .inl ?_⟩
    rw [StreamLog.read, StreamLog.set_current, Function.update_self]
    exact List.mem_append_right _ (List.mem_singleton_self _)
  | @closed _ f hpc =>
    obtain ⟨v, hv, hend⟩ := h f hpc
    simp only [record, hpc]
    refine ⟨by rintro f ⟨⟩, ?_⟩
    have hsocks : ((s.closeSock f).setPc (.del f)).socks = Function.update s.socks f none := rfl
    rw [service_set hsocks]
    exact .single (.close (Service.ofSockets_conns_of_some hv g) hend)

/-- A step of the clients. -/
theorem envStep_service {e : Environment n} (hs : EnvStep s e s') (h : s.Closing g) :
    s'.Closing (record g s (.env e)) ∧
      Relation.ReflTransGen (Service.Step bufferSize) (s.service g)
        (s'.service (record g s (.env e))) := by
  cases hs with
  | connect | early | earlyClose => exact ⟨h, .refl⟩
  | @data f v bytes hv hne hopen =>
    constructor
    · intro f' hf'
      obtain ⟨v', hv', hend⟩ := h f' hf'
      by_cases hf : f' = f
      · -- nothing arrives at the end of a stream
        subst hf
        cases hv.symm.trans hv'
        refine ⟨v.arrive bytes, by simp, .inl ?_⟩
        simp only [record, StreamLog.send, StreamLog.set_current, Function.update_self]
        apply hend.resolve_right
        rintro ⟨hshut, -⟩
        rw [hopen] at hshut
        cases hshut
      · refine ⟨v', by simpa [hf] using hv', ?_⟩
        rwa [record, StreamLog.send, StreamLog.set_current, Function.update_of_ne hf]
    · have hsocks : (s.setSock f (some (v.arrive bytes))).socks =
          Function.update s.socks f (some (v.arrive bytes)) := rfl
      have hk : (s.service g).conns f = some v.toBuffer := Service.ofSockets_conns_of_some hv g
      rw [Sock.toBuffer, hopen] at hk
      rw [service_set hsocks]
      simp only [Option.map_some, Sock.toBuffer, Sock.arrive, hopen]
      exact .single (.arrive hk)
  | @peerClose f v hv =>
    constructor
    · intro f' hf'
      obtain ⟨v', hv', hend⟩ := h f' hf'
      by_cases hf : f' = f
      · subst hf
        cases hv.symm.trans hv'
        refine ⟨v.shut, by simp, ?_⟩
        simp only [record, StreamLog.endStream, StreamLog.set_current, Function.update_self]
        exact hend.imp_right fun hshut => ⟨rfl, hshut.2⟩
      · refine ⟨v', by simpa [hf] using hv', ?_⟩
        rwa [record, StreamLog.endStream, StreamLog.set_current, Function.update_of_ne hf]
    · have hsocks : (s.setSock f (some v.shut)).socks =
          Function.update s.socks f (some v.shut) := rfl
      rw [service_set hsocks]
      exact .single (.endStream (Service.ofSockets_conns_of_some hv g))

end State

/-- The server with its record. -/
def recorded (n : ℕ) : TransitionSystem (State n × StreamLog (Fin n) UInt8) (Action n) :=
  (server n).recording .empty State.record

open State

/-- The server refines the service that reads every stream to its end. -/
theorem service_refined {p : State n × StreamLog (Fin n) UInt8} (hr : (recorded n).Reachable p) :
    p.1.Closing p.2 ∧
      Relation.ReflTransGen (Service.Step bufferSize) Service.empty (p.1.service p.2) := by
  refine TransitionSystem.Reachable.record_invariant (I := fun (s : State n) g =>
    s.Closing g ∧ Relation.ReflTransGen (Service.Step bufferSize) Service.empty (s.service g))
    ?_ ?_ hr
  · rintro s rfl
    constructor
    · rintro f ⟨⟩
    · exact .refl
  · intro s g a s' hr ⟨hclosing, hrun⟩ hs
    cases step_spec hs with
    | loop hl =>
      obtain ⟨hclosing', hstep⟩ := loopStep_service hl (Sound.of_reachable hr) hclosing
      exact ⟨hclosing', hrun.trans hstep⟩
    | env he =>
      obtain ⟨hclosing', hstep⟩ := envStep_service he hclosing
      exact ⟨hclosing', hrun.trans hstep⟩

/-- In every run, what has arrived on an open connection is what was read from it, in order,
followed by what is unread; no `read` would have blocked, and none returns more than `BUFFER_SIZE`
bytes; and when a connection was closed its peer had shut down and everything was read, unless a
`read` has failed. -/
theorem client_streams_intact {p : State n × StreamLog (Fin n) UInt8}
    (hr : (recorded n).Reachable p) :
    (∀ f v, p.1.socks f = some v →
      (p.2.current f).sent = (p.2.current f).taken ++ v.unread ∧
        (p.2.current f).ended = v.peerClosed) ∧
      (∀ t ∈ p.2.finished, .error ∉ t.reads → t.ended = true ∧ t.taken = t.sent) ∧
      ∀ t, (t ∈ p.2.finished ∨ ∃ f, t = p.2.current f) →
        .again ∉ t.reads ∧ ∀ ch, .chunk ch ∈ t.reads → ch ≠ [] ∧ ch.length ≤ bufferSize := by
  have hintact := Service.intact (by decide) (service_refined hr).2
  refine ⟨fun f v hv => ?_, hintact.complete, fun t ht => ?_⟩
  · exact hintact.accounts f v.toBuffer (Service.ofSockets_conns_of_some hv p.2)
  · have hreads : ∀ r ∈ t.reads, r.Regular bufferSize := by
      rcases ht with hfinished | ⟨f, rfl⟩
      · exact hintact.finishedReads t hfinished
      · exact hintact.reads f
    exact ⟨fun hagain => hreads .again hagain, fun ch hch => hreads (.chunk ch) hch⟩

/-- A client connects and sends a byte before it is accepted and one after, and shuts down. -/
theorem client_streams_intact_of_run :
    ∃ p : State 8 × StreamLog (Fin 8) UInt8, ∃ t ∈ p.2.finished,
      t.sent = [72, 105] ∧ t.reads = [.chunk [72, 105], .eof] ∧ t.ended = true ∧
        t.taken = t.sent := by
  obtain ⟨p, hr, hp⟩ := TransitionSystem.exists_of_exec (recorded 8) (s := (State.start 8, .empty))
    (List.flatten [[.env .connect, .env (.early 0 [72])],
      [.loop (.events [.listen]), .loop .ok, .loop (.accepted 3), .loop .ok, .loop .ok],
      [.env (.data 3 [105]), .loop (.events [.client 3]), .loop .ok, .loop .ok, .loop .ok],
      [.env (.peerClose 3), .loop (.events [.client 3]), .loop .ok, .loop .ok, .loop .ok]])
    (fun p => p.2.finished.map (fun t => (t.sent, t.reads)) =
      [([72, 105], [.chunk [72, 105], .eof])]) ⟨rfl, rfl⟩ (by decide +kernel)
  have hmap := of_decide_eq_true hp
  obtain ⟨t, ht, heq⟩ := List.mem_map.mp (hmap ▸ List.mem_singleton_self _)
  obtain ⟨hsent, hreads⟩ := Prod.mk.inj heq
  refine ⟨p, t, ht, hsent, hreads, (client_streams_intact hr).2.1 t ht ?_⟩
  rw [hreads]
  decide

end DeepInIo.KqueueServer
