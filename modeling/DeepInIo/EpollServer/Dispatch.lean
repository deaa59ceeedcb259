import DeepInIo.EpollServer.Custody
import DeepInIo.Foundation.History
import DeepInIo.Foundation.RoundRobin

/-!
# Dispatch to the workers

The main thread of `epoll_multithread_server.c` writes the number of each accepted connection to the
pipe of the next worker.  A record says which numbers were accepted and which the workers have read
from their pipes.  At any time the numbers that a worker has read, followed by those on the way to
it, are its share of the accepted ones, dealt in turn: no connection is lost, given twice or
overtaken, and the workers' shares differ by at most one (`dispatched_in_turn`).
-/

namespace DeepInIo.EpollServer

variable {c : Config}

/-- The connections accepted by the main thread, and those each worker has read from its pipe. -/
structure Dispatched (c : Config) where
  accepted : List Fd
  received : Fin c.loops → List Fd

namespace Dispatched

/-- No connection yet. -/
def empty : Dispatched c where
  accepted := []
  received := fun _ => []

/-- The main thread accepts a connection. -/
@[simps]
def accept (d : Dispatched c) (f : Fd) : Dispatched c :=
  { d with accepted := d.accepted ++ [f] }

/-- A worker reads a connection from its pipe. -/
@[simps]
def receive (d : Dispatched c) (l : Fin c.loops) (f : Fd) : Dispatched c :=
  { d with received := Function.update d.received l (d.received l ++ [f]) }

end Dispatched

namespace State

variable {s s' : State c} {a : Action c} {d : Dispatched c} {l : Fin c.loops} {f : Fd}

/-- What a step adds to the record. -/
def recordDispatch (d : Dispatched c) (s : State c) : Action c → Dispatched c
  | .main r =>
    match s.main, r with
    | .accept, .accepted f => d.accept f
    | _, _ => d
  | .loop l _ =>
    match (s.loops l).pc, s.pipes l with
    | .readPipe, f :: _ => d.receive l f
    | _, _ => d
  | .env _ => d

/-- What is on the way to a worker: the contents of its pipe, and what the main thread is going to
write to it. -/
def onTheWay (s : State c) (l : Fin c.loops) : List Fd :=
  s.pipes l ++ match s.main with
    | .write f => if s.currentWorker = l then [f] else []
    | .accept => []

/-- The connections that the main thread is done with. -/
def Settled (s : State c) (d : Dispatched c) (xs : List Fd) : Prop :=
  match s.main with
  | .accept => d.accepted = xs
  | .write f => d.accepted = xs ++ [f]

/-- The connections were dealt in turn. -/
def InTurn (s : State c) (d : Dispatched c) : Prop :=
  ∃ xs, s.Settled d xs ∧ s.currentWorker = xs.length % c.loops ∧
    ∀ l : Fin c.loops, d.received l ++ s.pipes l = dealt c.loops l xs

/-- A step of an event loop keeps what its worker has and what is on the way to it. -/
theorem loopStep_pipes {r : Result} (hs : LoopStep s l r s') :
    s'.main = s.main ∧ s'.currentWorker = s.currentWorker ∧
      (recordDispatch d s (.loop l r)).accepted = d.accepted ∧
      ∀ l', (recordDispatch d s (.loop l r)).received l' ++ s'.pipes l' = d.received l' ++
        s.pipes l' := by
  -- only the read from the pipe is recorded
  have hquiet : (s.loops l).pc ≠ .readPipe → recordDispatch d s (.loop l r) = d := by
    intro hpc
    simp only [recordDispatch]
    split
    · next hread _ => exact absurd hread hpc
    · rfl
  cases hs with
  | @received _ f rest hpc hp =>
    simp only [recordDispatch, hpc, hp]
    refine ⟨rfl, rfl, rfl, fun l' => ?_⟩
    rw [Dispatched.receive_received, setPc_pipes, setPipe_pipes]
    by_cases hl : l' = l
    · subst hl
      rw [Function.update_self, Function.update_self, hp, List.append_assoc, List.singleton_append]
    · rw [Function.update_of_ne hl, Function.update_of_ne hl]
  | collect hpc | collectClient hpc | drop hpc | wake hpc | nextWait hpc | nextListen hpc
  | nextPipe hpc | nextClient hpc | accepted hpc | acceptFailed hpc | added hpc | addRefused hpc
  | addFailed hpc | took hpc | nothing hpc | readFailed hpc | closed hpc | deleted hpc =>
    rw [hquiet (by simp [hpc])]
    exact ⟨rfl, rfl, rfl, fun _ => rfl⟩

/-- A step of the main thread deals the next connection. -/
theorem InTurn.mainStep {r : Result} (h : s.InTurn d) (hs : MainStep s r s') :
    s'.InTurn (recordDispatch d s (.main r)) := by
  obtain ⟨xs, hsettled, hworker, hshares⟩ := h
  cases hs with
  | accepted hpc hfree =>
    simp only [recordDispatch, hpc]
    simp only [Settled, hpc] at hsettled
    refine ⟨xs, ?_, hworker, hshares⟩
    simp [Settled, hsettled]
  | failed hpc =>
    simp only [recordDispatch, hpc]
    exact ⟨xs, hsettled, hworker, hshares⟩
  | @sent _ f hpc hlt =>
    simp only [recordDispatch, hpc]
    simp only [Settled, hpc] at hsettled
    refine ⟨xs ++ [f], ?_, ?_, fun l => ?_⟩
    · simp [Settled, hsettled]
    · rw [nextWorker_currentWorker, setPipe_currentWorker, setMain_currentWorker, hworker,
        succ_mod_round, List.length_append, List.length_singleton]
    · rw [dealt_concat, ← hshares l, nextWorker_pipes, setPipe_pipes, List.append_assoc]
      congr 1
      by_cases hl : l = ⟨s.currentWorker, hlt⟩
      · subst hl
        rw [Function.update_self, if_pos hworker.symm]
      · rw [Function.update_of_ne hl, if_neg, List.append_nil]
        · rfl
        · intro hturn
          exact hl (Fin.ext (hturn.symm.trans hworker.symm))

/-- Every step. -/
theorem InTurn.step (h : s.InTurn d) (hs : (server c).step s a = some s') :
    s'.InTurn (recordDispatch d s a) := by
  cases step_spec hs with
  | loop hl =>
    obtain ⟨xs, hsettled, hworker, hshares⟩ := h
    obtain ⟨hmain, hcurrent, haccepted, hpipes⟩ := loopStep_pipes (d := d) hl
    refine ⟨xs, ?_, hcurrent ▸ hworker, fun l => (hpipes l).trans (hshares l)⟩
    rwa [Settled, hmain, haccepted]
  | main _ hm => exact h.mainStep hm
  | env he =>
    cases he with
    | data | signalled | silent => exact h

end State

/-- The server with the record of the dispatched connections. -/
def dispatching (c : Config) : TransitionSystem (State c × Dispatched c) (Action c) :=
  (server c).recording .empty State.recordDispatch

open State

/-- Every worker gets its share of the accepted connections, dealt in turn and in the order in which
they were accepted; the shares differ by at most one. -/
theorem dispatched_in_turn {p : State c × Dispatched c} (hr : (dispatching c).Reachable p) :
    (∀ l : Fin c.loops, p.2.received l ++ p.1.onTheWay l = dealt c.loops l p.2.accepted) ∧
      ∀ l l', (p.2.received l ++ p.1.onTheWay l).length ≤
        (p.2.received l' ++ p.1.onTheWay l').length + 1 := by
  have hturn : p.1.InTurn p.2 := by
    refine TransitionSystem.Reachable.record_invariant (I := fun (s : State c) d => s.InTurn d)
      ?_ ?_ hr
    · rintro s rfl
      exact ⟨[], rfl, (Nat.zero_mod _).symm, fun _ => rfl⟩
    · intro s d a s' _ h hs
      exact h.step hs
  have hshare : ∀ l : Fin c.loops, p.2.received l ++ p.1.onTheWay l =
      dealt c.loops l p.2.accepted := by
    intro l
    obtain ⟨xs, hsettled, hworker, hshares⟩ := hturn
    unfold Settled at hsettled
    unfold onTheWay
    rw [← List.append_assoc, hshares l]
    split
    · next f hpc =>
      rw [hpc] at hsettled
      rw [hsettled, dealt_concat, hworker]
    · next hpc =>
      rw [hpc] at hsettled
      rw [hsettled, List.append_nil]
  constructor
  · exact hshare
  · intro l l'
    rw [hshare l, hshare l']
    exact length_dealt_le_succ l.isLt l'.isLt p.2.accepted

/-- Two connections are accepted, and the first worker has read its one. -/
theorem dispatched_in_turn_of_run :
    ∃ p : State epollMultithreadServer × Dispatched epollMultithreadServer,
      p.2.accepted = [5, 6] ∧ p.2.received (worker 0) ++ p.1.onTheWay (worker 0) = [5] ∧
        p.2.received (worker 1) ++ p.1.onTheWay (worker 1) = [6] := by
  obtain ⟨p, hr, hp⟩ := TransitionSystem.exists_of_exec (dispatching epollMultithreadServer)
    (s := (State.start _, .empty)) (Action.connect (worker 0) 5 ++ [.main (.accepted 6), .main .ok])
    (fun p => p.2.accepted = [5, 6]) ⟨rfl, rfl⟩ (by decide +kernel)
  have haccepted := of_decide_eq_true hp
  have hshares := (dispatched_in_turn hr).1
  rw [haccepted] at hshares
  exact ⟨p, haccepted, hshares (worker 0), hshares (worker 1)⟩

end DeepInIo.EpollServer
