import DeepInIo.AdvancedServer.SocketLog

/-!
# Clients do not see each other

The bytes written to a socket are those that the machine of this socket writes, and the machine gets
no bytes from anybody but its own client.  So what a client receives are pieces of the responses to
its own chunks, and it depends on nothing but the steps that the server takes for it
(`clients_isolated`).

This is so as long as `malloc` hands out no memory that an IO thread is still to check.  Otherwise a
thread can take a connection for another one that was in the same place, and a client gets the
response to another client's bytes (`clients_not_isolated`).
-/

namespace DeepInIo.AdvancedServer

variable {n m : ℕ}

/-- In a run in which no memory is handed out that is still to be checked, the machine of the client
has taken the steps of the log, and what it shows is what the socket has. -/
theorem view_of_log {cfg : Config n} {sk : SockId} {p : State n m × SocketLog n m}
    (h : (loggedReusingServer m cfg sk).ReachableUnder (fun p a => p.1.reusesChecked a = false) p) :
    (p.1.kernel.socks sk).unread = (ClientView.initial.after p.2.steps).unread ∧
      (p.1.kernel.socks sk).written = (ClientView.initial.after p.2.steps).written ∧
      (ClientView.initial.after p.2.steps).chunks = p.2.chunks := by
  obtain ⟨α, live, s, hplaced, hbase⟩ := exists_numbered_log (fun _ _ => True)
    (fun _ _ => True) (fun _ _ _ => trivial) (h.mono fun p a hno => ⟨hno, trivial⟩)
  have hlogged := reachable_logged hbase
  rw [hplaced.socks_eq]
  exact ⟨hlogged.shows.unread, hlogged.shows.written, hlogged.chunks⟩

/-- In every run in which `malloc` hands out no memory that an IO thread is still to check: the
bytes written to a socket are pieces of the responses that `process_request` builds from chunks read
from that socket, where the chunks and what is still to be read are exactly the bytes that arrived
on it.  Another such run in which the server takes the same steps for the client, whatever happens
to the other clients and whatever they send, writes the same bytes. -/
theorem clients_isolated {cfg : Config n} {sk : SockId} {p : State n m × SocketLog n m}
    (h : (loggedReusingServer m cfg sk).ReachableUnder (fun p a => p.1.reusesChecked a = false) p) :
    (∃ pieces : List (List UInt8),
      p.2.chunks.flatten ++ (p.1.kernel.socks sk).unread = p.2.steps.flatMap ClientStep.arrived ∧
      (p.1.kernel.socks sk).written = pieces.flatten ∧
      ∀ piece ∈ pieces, ∃ d ∈ p.2.chunks, piece <:+: response d) ∧
    ∀ (cfg' : Config n) (sk' : SockId) (p' : State n m × SocketLog n m),
      (loggedReusingServer m cfg' sk').ReachableUnder (fun p a => p.1.reusesChecked a = false) p' →
      p'.2.steps = p.2.steps → (p'.1.kernel.socks sk').written = (p.1.kernel.socks sk).written := by
  obtain ⟨hunread, hwritten, hchunks⟩ := view_of_log h
  refine ⟨?_, fun cfg' sk' p' h' hsteps => ?_⟩
  · obtain ⟨pieces, hview, hpieces⟩ := (sound_initial.after p.2.steps).written
    rw [hchunks] at hpieces
    refine ⟨pieces, ?_, hwritten.trans hview, hpieces⟩
    rw [hunread, ← hchunks]
    exact flatten_chunks_after _
  · obtain ⟨-, hwritten', -⟩ := view_of_log h'
    rw [hwritten', hwritten, hsteps]

/-- A client connects and closes, and the memory of its connection is handed out again for the next
one.  Two clients then send a request each, and the first of them gets its response. -/
def ReuseAction.twoClients (t : Fin n) (w : Fin m) (bytes : List UInt8) :
    List (ReuseAction n m) :=
  List.flatten [connect 10 0, others (Action.adopt t), hangUp t 10, others [.io t .ok, .io t .ok],
    connect 10 0, others (Action.adopt t), connect 11 1, others (Action.adopt t),
    others [.env (.data 11 bytes)], others (Action.deliver t 11 { read := true }),
    others (Action.readOne t bytes.length), others [.io t .again, .io t .ok, .io t .ok, .io t .ok],
    others [.env (.data 10 [65])], others (Action.deliver t 10 { read := true }),
    others (Action.readOne t 1), others [.io t .again, .io t .ok, .io t .ok, .io t .ok],
    others (Action.work w 22), others (Action.drainMessages t 2),
    others (Action.deliver t 10 { write := true }), others [.io t .ok, .io t (.wrote 95 true)]]

/-- The second client sends one byte in one run and three in the other. -/
theorem clients_isolated_two :
    ∃ p p' : State 1 1 × SocketLog 1 1,
      (loggedReusingServer 1 (Config.fresh 1) 1).Reachable p ∧
      (loggedReusingServer 1 (Config.fresh 1) 1).Reachable p' ∧
      p.2.chunks = [[65]] ∧ (p.1.kernel.socks 1).written = response [65] ∧
      (p'.1.kernel.socks 1).written = (p.1.kernel.socks 1).written := by
  let run := fun bytes => (loggedReusingServer 1 (Config.fresh 1) 1).execUnder
    (fun p a => p.1.reusesChecked a = false) (State.start (Config.fresh 1), .empty)
    (ReuseAction.twoClients 0 0 bytes)
  have hrun : (run [66]).any (fun p => decide (p.2.chunks = [[65]] ∧
      (p.1.kernel.socks 1).written = response [65])) = true := by decide +kernel
  have hsteps : (run [67, 0, 68]).map (fun p => p.2.steps) =
      (run [66]).map (fun p => p.2.steps) := by
    decide +kernel
  obtain ⟨p, hp, htest⟩ := (Option.any_eq_true ..).mp hrun
  rw [hp, Option.map_some] at hsteps
  obtain ⟨p', hp', hsame⟩ := Option.map_eq_some_iff.mp hsteps
  have h := TransitionSystem.reachableUnder_exec (.init (loggedReusingServer_start ..)) hp
  have h' := TransitionSystem.reachableUnder_exec (.init (loggedReusingServer_start ..)) hp'
  obtain ⟨hchunks, hwritten⟩ := of_decide_eq_true htest
  exact ⟨p, p', h.reachable, h'.reachable, hchunks, hwritten,
    (clients_isolated h).2 _ _ p' h' hsame⟩

/-- A client gets the response to the byte that another one has sent, before anything was read from
its own socket, and with another byte it would have got other bytes after the same steps. -/
theorem clients_not_isolated :
    ∃ p p' : State 2 1 × SocketLog 2 1,
      (loggedReusingServer 1 (Config.fresh 2) 2).Reachable p ∧
      (loggedReusingServer 1 (Config.fresh 2) 2).Reachable p' ∧
      p.2.chunks = [] ∧ p'.2.steps = p.2.steps ∧ (p.1.kernel.socks 2).written = response [65] ∧
      (p'.1.kernel.socks 2).written = response [66] := by
  let run := fun bytes => (loggedReusingServer 1 (Config.fresh 2) 2).exec
    (State.start (Config.fresh 2), .empty) (ReuseAction.strayResponse bytes)
  have hrun : (run [65]).any (fun p => decide (p.2.chunks = [] ∧
      (p.1.kernel.socks 2).written = response [65])) = true := by decide +kernel
  have hrun' : (run [66]).any (fun p => decide ((p.1.kernel.socks 2).written = response [66])) =
      true := by
    decide +kernel
  have hsteps : (run [66]).map (fun p => p.2.steps) = (run [65]).map (fun p => p.2.steps) := by
    decide +kernel
  obtain ⟨p, hp, htest⟩ := (Option.any_eq_true ..).mp hrun
  obtain ⟨p', hp', htest'⟩ := (Option.any_eq_true ..).mp hrun'
  rw [hp, hp', Option.map_some, Option.map_some] at hsteps
  obtain ⟨hchunks, hwritten⟩ := of_decide_eq_true htest
  exact ⟨p, p', TransitionSystem.reachable_exec (.init (loggedReusingServer_start ..)) hp,
    TransitionSystem.reachable_exec (.init (loggedReusingServer_start ..)) hp', hchunks,
    Option.some.inj hsteps, hwritten, of_decide_eq_true htest'⟩

end DeepInIo.AdvancedServer
