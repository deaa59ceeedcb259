import DeepInIo.AdvancedServer.ClientSteps

/-!
# The accounts of `accept_connections`

What `accept_connections` and the functions it calls do with accepted sockets is written to a log,
in which a socket is named by its number in the order of `accept`, not by its descriptor, which is
used again.  The log of every run tells for each socket what became of it (`SockLog.Settled`): it
was handed over and not closed, it was refused and closed once, or its pointer could not be written
to the hand-off pipe and it was closed twice (`accept_accounted_iff`).
-/

namespace DeepInIo.AdvancedServer

open State

variable {n m : ℕ}

/-- What `accept_connections` does with an accepted socket. -/
inductive AcceptEvent
  /-- `accept` returned it -/
  | accepted (sk : SockId)
  /-- its connection was written to a hand-off pipe -/
  | handed (sk : SockId)
  /-- the `write` to the hand-off pipe failed -/
  | writeFailed (sk : SockId)
  /-- `close` was called for its descriptor -/
  | closed (sk : SockId)
  deriving DecidableEq

/-- The socket of an event. -/
def AcceptEvent.sock : AcceptEvent → SockId
  | .accepted sk | .handed sk | .writeFailed sk | .closed sk => sk

/-- A socket was handed over. -/
def AcceptEvent.isHanded : AcceptEvent → Bool
  | .handed _ => true
  | _ => false

/-- What a step does with an accepted socket.  The close in `conn_release` is one of the descriptor
that is stored in the connection. -/
def State.acceptEvents (s : State n m) : Action n m → List AcceptEvent
  | .main r =>
    match s.main with
    | .accept =>
      match r with
      | .accepted _ => [.accepted s.kernel.nextSock]
      | _ => []
    | .handoff _ _ _ sk =>
      match r with
      | .ok => [.handed sk]
      | .fail => [.writeFailed sk]
      | _ => []
    | .drop c f sk => if (s.conns c).lastRelease ∧ (s.conns c).fd = some f then [.closed sk] else []
    | .closeClient _ sk => [.closed sk]
    | _ => []
  | _ => []

/-- The log of a run. -/
def acceptLog (tr : List (State n m × Action n m)) : List AcceptEvent :=
  tr.flatMap fun p => p.1.acceptEvents p.2

/-- The accounts are right: `total_connections` counts the sockets that were handed over, these were
not closed, and every other accepted socket was closed once. -/
structure AcceptAccounted (s s' : State n m) (log : List AcceptEvent) : Prop where
  total : s'.totalConnections = s.totalConnections + log.countP AcceptEvent.isHanded
  handed : ∀ sk, .handed sk ∈ log → log.count (.closed sk) = 0
  refused : ∀ sk, .accepted sk ∈ log → .handed sk ∉ log → log.count (.closed sk) = 1

/-! ### The log of one socket -/

/-- How often each event of a socket occurs in a log. -/
structure SockLog where
  accepted : ℕ
  handed : ℕ
  writeFailed : ℕ
  closed : ℕ

/-- The events of a socket. -/
def sockLog (log : List AcceptEvent) (sk : SockId) : SockLog where
  accepted := log.count (.accepted sk)
  handed := log.count (.handed sk)
  writeFailed := log.count (.writeFailed sk)
  closed := log.count (.closed sk)

namespace SockLog

/-- A socket that `accept_connections` does not have in hand. -/
inductive Settled : SockLog → Prop
  | unknown : Settled ⟨0, 0, 0, 0⟩
  | handed : Settled ⟨1, 1, 0, 0⟩
  | refused : Settled ⟨1, 0, 0, 1⟩
  | dropped : Settled ⟨1, 0, 1, 2⟩

end SockLog

/-- The socket that the main thread has in hand. -/
def MainPc.sock? : MainPc n → Option SockId
  | .getThread _ sk | .create _ _ sk | .handoff _ _ _ sk | .drop _ _ sk
  | .closeClient _ sk => some sk
  | _ => none

/-- What the log of the socket in hand is at a program point. -/
def MainPc.InHand : MainPc n → SockLog → Prop
  | .getThread .., x | .create .., x | .handoff .., x => x = ⟨1, 0, 0, 0⟩
  | .drop .., x => x = ⟨1, 0, 1, 0⟩
  | .closeClient .., x => x = ⟨1, 0, 0, 0⟩ ∨ x = ⟨1, 0, 1, 1⟩
  | _, _ => False

/-- The log of a run from `s₀` goes with the state: the socket in hand is as far as the program
point says, the others are settled, and `total_connections` counts those handed over. -/
structure AcceptLogged (s₀ : State n m) (log : List AcceptEvent) (s : State n m) : Prop where
  total : s.totalConnections = s₀.totalConnections + log.countP AcceptEvent.isHanded
  inHand : ∀ sk, s.main.sock? = some sk → s.main.InHand (sockLog log sk)
  settled : ∀ sk, s.main.sock? ≠ some sk → (sockLog log sk).Settled
  unknown : ∀ sk, s.kernel.nextSock ≤ sk → sockLog log sk = ⟨0, 0, 0, 0⟩

section log

variable {cfg : Config n} {s₀ s s' : State n m} {log : List AcceptEvent} {sk sk' : SockId}

/-- An event of another socket. -/
theorem sockLog_append_of_ne {ev : AcceptEvent} (h : ev.sock ≠ sk) :
    sockLog (log ++ [ev]) sk = sockLog log sk := by
  have hne : ∀ ev' : AcceptEvent, ev'.sock = sk → (log ++ [ev]).count ev' = log.count ev' := by
    rintro ev' hev'
    rw [List.count_append, List.count_singleton, if_neg, Nat.add_zero]
    rw [beq_iff_eq]
    rintro rfl
    exact h hev'
  rw [sockLog, hne (.accepted sk) rfl, hne (.handed sk) rfl, hne (.writeFailed sk) rfl,
    hne (.closed sk) rfl]
  rfl

theorem sockLog_accepted : sockLog (log ++ [.accepted sk]) sk =
    { sockLog log sk with accepted := (sockLog log sk).accepted + 1 } := by
  simp [sockLog, List.count_append]

theorem sockLog_handed : sockLog (log ++ [.handed sk]) sk =
    { sockLog log sk with handed := (sockLog log sk).handed + 1 } := by
  simp [sockLog, List.count_append]

theorem sockLog_writeFailed : sockLog (log ++ [.writeFailed sk]) sk =
    { sockLog log sk with writeFailed := (sockLog log sk).writeFailed + 1 } := by
  simp [sockLog, List.count_append]

theorem sockLog_closed : sockLog (log ++ [.closed sk]) sk =
    { sockLog log sk with closed := (sockLog log sk).closed + 1 } := by
  simp [sockLog, List.count_append]

/-- The main thread moves with the socket in hand, or without one. -/
theorem AcceptLogged.move (h : AcceptLogged s₀ log s) (hsock : s'.main.sock? = s.main.sock?)
    (himp : ∀ x, s.main.InHand x → s'.main.InHand x)
    (htotal : s'.totalConnections = s.totalConnections)
    (hnext : s'.kernel.nextSock = s.kernel.nextSock) : AcceptLogged s₀ (log ++ []) s' := by
  rw [List.append_nil]
  refine ⟨by rw [htotal, h.total], fun sk hsk => ?_, fun sk hsk => ?_, fun sk hsk => ?_⟩
  · exact himp _ (h.inHand sk (hsock ▸ hsk))
  · exact h.settled sk (hsock ▸ hsk)
  · exact h.unknown sk (hnext ▸ hsk)

/-- The socket in hand was accepted. -/
theorem AcceptLogged.inHand_lt (h : AcceptLogged s₀ log s) (hsk : s.main.sock? = some sk) :
    sk < s.kernel.nextSock := by
  by_contra hge
  have hin := h.inHand sk hsk
  rw [h.unknown sk (not_lt.mp hge)] at hin
  cases hpc : s.main with
  | getThread | create | handoff | drop =>
    rw [hpc] at hin
    cases hin
  | closeClient =>
    rw [hpc] at hin
    rcases hin with hin | hin <;> cases hin
  | _ =>
    rw [hpc] at hin
    exact hin

/-- Something happens to the socket in hand, which is settled then or still in hand. -/
theorem AcceptLogged.event (h : AcceptLogged s₀ log s) {ev : AcceptEvent}
    (hsk : s.main.sock? = some ev.sock) (hnext : s'.kernel.nextSock = s.kernel.nextSock)
    (htotal : s'.totalConnections = s.totalConnections + ev.isHanded.toNat)
    (hlog : s'.main.sock? = some ev.sock ∧ s'.main.InHand (sockLog (log ++ [ev]) ev.sock) ∨
      s'.main.sock? = none ∧ (sockLog (log ++ [ev]) ev.sock).Settled) :
    AcceptLogged s₀ (log ++ [ev]) s' := by
  refine ⟨?_, fun sk hin => ?_, fun sk hout => ?_, fun sk hle => ?_⟩
  · rw [htotal, h.total, List.countP_append, List.countP_singleton, Nat.add_assoc]
    cases ev.isHanded <;> rfl
  · rcases hlog with ⟨hsock, hlog⟩ | ⟨hsock, -⟩
    · rw [hsock] at hin
      cases hin
      exact hlog
    · rw [hsock] at hin
      cases hin
  · by_cases hne : ev.sock = sk
    · subst hne
      rcases hlog with ⟨hsock, -⟩ | ⟨-, hlog⟩
      · exact absurd hsock hout
      · exact hlog
    · rw [sockLog_append_of_ne hne]
      exact h.settled sk fun hs => hne (Option.some.inj (hsk.symm.trans hs))
  · rw [hnext] at hle
    rw [sockLog_append_of_ne (Nat.ne_of_lt ((h.inHand_lt hsk).trans_le hle))]
    exact h.unknown sk hle

/-- `accept` returns a new socket. -/
theorem AcceptLogged.accept (h : AcceptLogged s₀ log s) (hsock : s.main.sock? = none)
    (hsock' : s'.main.sock? = some s.kernel.nextSock)
    (hin : ∀ x, x = ⟨1, 0, 0, 0⟩ → s'.main.InHand x)
    (htotal : s'.totalConnections = s.totalConnections)
    (hnext : s'.kernel.nextSock = s.kernel.nextSock + 1) :
    AcceptLogged s₀ (log ++ [.accepted s.kernel.nextSock]) s' := by
  refine ⟨?_, fun sk hsk => ?_, fun sk hsk => ?_, fun sk hle => ?_⟩
  · rw [htotal, h.total, List.countP_append, List.countP_singleton]
    rfl
  · rw [hsock'] at hsk
    cases hsk
    refine hin _ ?_
    rw [sockLog_accepted, h.unknown _ le_rfl]
  · rw [hsock'] at hsk
    have hne : (AcceptEvent.accepted s.kernel.nextSock).sock ≠ sk :=
      fun heq => hsk (congrArg some heq)
    rw [sockLog_append_of_ne hne]
    exact h.settled sk (by rw [hsock]; rintro ⟨⟩)
  · rw [hnext] at hle
    rw [sockLog_append_of_ne (Nat.ne_of_lt hle)]
    exact h.unknown sk (Nat.le_of_succ_le hle)

/-- The connection that could not be handed over is the only reference to its descriptor. -/
theorem drop_closes (hr : (server m cfg).Reachable s) {c : ConnId} {f : Fd}
    (hpc : s.main = .drop c f sk) :
    (s.conns c).lastRelease = true ∧ (s.conns c).fd = some f := by
  have hi := reachable_owned hr
  have hd := reachable_descriptors hr
  have howner : s.owner c = .creator := (hi.creator c).mpr (by rw [hpc]; rfl)
  have hrefs := (reachable_counts hr).eq_of_loop_none hi (c := c) (by rw [howner]; rfl)
  rw [ownerRefs, howner] at hrefs
  refine ⟨?_, (hd.main.handing c f sk (by rw [hpc]; rfl)).1⟩
  rw [Conn.lastRelease, hrefs]
  rfl

/-- Steps of the IO threads, the workers and the clients do nothing to the accounts. -/
theorem AcceptLogged.other (h : AcceptLogged s₀ log s) {a : Action n m}
    (hs : (server m cfg).step s a = some s') (ha : ∀ r, a ≠ .main r) :
    AcceptLogged s₀ (log ++ s.acceptEvents a) s' := by
  cases a with
  | main r => exact absurd rfl (ha r)
  | io t r =>
    have hstep := ioStep_spec hs
    have hmain := hstep.main_eq
    refine h.move (by rw [hmain]) (fun x hx => by rw [hmain]; exact hx) ?_ hstep.nextSock_eq
    cases hstep <;> rfl
  | worker w ok =>
    have hstep := workerStep_spec hs
    have hmain := hstep.main_eq
    refine h.move (by rw [hmain]) (fun x hx => by rw [hmain]; exact hx) ?_ hstep.nextSock_eq
    cases hstep <;> rfl
  | env e =>
    cases envStep_spec hs <;> exact h.move rfl (fun _ hx => hx) rfl rfl

/-- Every step outside `server_destroy` keeps the log. -/
theorem AcceptLogged.step (h : AcceptLogged s₀ log s) (hr : (server m cfg).Reachable s)
    {a : Action n m} (hs : (server m cfg).step s a = some s') (hrun : s'.Running) :
    AcceptLogged s₀ (log ++ s.acceptEvents a) s' := by
  by_cases hmain : ∃ r, a = .main r
  swap
  · exact h.other hs fun r hr => hmain ⟨r, hr⟩
  obtain ⟨r, rfl⟩ := hmain
  have hstep : s.mainStep cfg r = some s' := hs
  have hd := reachable_descriptors hr
  cases hpc : s.main with
  | wait =>
    simp only [mainStep, hpc] at hstep
    cases r <;> simp only [reduceCtorEq] at hstep
    · split at hstep <;> cases hstep
      simp only [State.acceptEvents, hpc]
      exact h.move (by rw [hpc]; rfl) (fun x hx => by rw [hpc] at hx; exact hx) rfl rfl
    · cases hstep
      exact hrun.elim
  | accept =>
    simp only [mainStep, hpc] at hstep
    cases r <;> simp only [reduceCtorEq] at hstep
    · cases hstep
      simp only [State.acceptEvents, hpc]
      exact h.move (by rw [hpc]; rfl) (fun x hx => by rw [hpc] at hx; exact hx) rfl rfl
    · next f =>
      rw [acceptSocket] at hstep
      split at hstep <;> cases hstep
      simp only [State.acceptEvents, hpc]
      exact h.accept (by rw [hpc]; rfl) rfl (fun x hx => hx) rfl rfl
    · split at hstep <;> cases hstep
      simp only [State.acceptEvents, hpc]
      exact h.move (by rw [hpc]; rfl) (fun x hx => by rw [hpc] at hx; exact hx) rfl rfl
    · cases hstep
      simp only [State.acceptEvents, hpc]
      exact h.move rfl (fun x hx => hx) rfl rfl
  | getThread f sk =>
    simp only [mainStep, hpc, State.getThread] at hstep
    split at hstep <;> cases hstep
    · simp only [State.acceptEvents, hpc]
      exact h.move (by rw [hpc]; rfl) (fun x hx => by rw [hpc] at hx; exact hx) rfl rfl
    · simp only [State.acceptEvents, hpc]
      exact h.move (by rw [hpc]; rfl) (fun x hx => by rw [hpc] at hx; exact .inl hx) rfl rfl
  | create t f sk =>
    simp only [mainStep, hpc] at hstep
    cases r <;> simp only [reduceCtorEq] at hstep <;> cases hstep
    · simp only [State.acceptEvents, hpc]
      exact h.move (by rw [hpc]; rfl) (fun x hx => by rw [hpc] at hx; exact hx) rfl rfl
    · simp only [State.acceptEvents, hpc]
      exact h.move (by rw [hpc]; rfl) (fun x hx => by rw [hpc] at hx; exact .inl hx) rfl rfl
  | handoff t c f sk =>
    have hsk : s.main.sock? = some sk := by rw [hpc]; rfl
    have hlog : sockLog log sk = ⟨1, 0, 0, 0⟩ := by
      have hin := h.inHand sk hsk
      rw [hpc] at hin
      exact hin
    simp only [mainStep, hpc] at hstep
    cases r <;> simp only [reduceCtorEq] at hstep
    · split at hstep <;> cases hstep
      simp only [State.acceptEvents, hpc]
      refine h.event hsk rfl rfl (.inr ⟨rfl, ?_⟩)
      rw [AcceptEvent.sock, sockLog_handed, hlog]
      exact .handed
    · cases hstep
      simp only [State.acceptEvents, hpc]
      refine h.event hsk rfl rfl (.inl ⟨rfl, ?_⟩)
      rw [AcceptEvent.sock, sockLog_writeFailed, hlog]
      rfl
  | drop c f sk =>
    have hsk : s.main.sock? = some sk := by rw [hpc]; rfl
    have hlog : sockLog log sk = ⟨1, 0, 1, 0⟩ := by
      have hin := h.inHand sk hsk
      rw [hpc] at hin
      exact hin
    simp only [mainStep, hpc] at hstep
    cases hstep
    simp only [State.acceptEvents, hpc]
    rw [if_pos (drop_closes hr hpc)]
    refine h.event hsk (connRelease_nextSock s c) rfl (.inl ⟨rfl, .inr ?_⟩)
    rw [AcceptEvent.sock, sockLog_closed, hlog]
  | closeClient f sk =>
    have hsk : s.main.sock? = some sk := by rw [hpc]; rfl
    have hlog : sockLog log sk = ⟨1, 0, 0, 0⟩ ∨ sockLog log sk = ⟨1, 0, 1, 1⟩ := by
      have hin := h.inHand sk hsk
      rw [hpc] at hin
      exact hin
    simp only [mainStep, hpc] at hstep
    cases hstep
    simp only [State.acceptEvents, hpc]
    refine h.event hsk (Kernel.close_nextSock ..) rfl (.inr ⟨rfl, ?_⟩)
    rw [AcceptEvent.sock, sockLog_closed]
    rcases hlog with hlog | hlog
    · rw [hlog]
      exact .refused
    · rw [hlog]
      exact .dropped
  | _ =>
    have hold := (step_spec hs).running hrun
    rw [State.Running, hpc] at hold
    exact hold.elim

/-- The log of a run that begins and ends outside `server_destroy`. -/
theorem acceptLogged {tr : List (State n m × Action n m)} (hr : (server m cfg).Reachable s₀)
    (h₀ : s₀.main.sock? = none) (htr : (server m cfg).Trace (fun _ _ => True) s₀ tr s)
    (hrun : s.Running) :
    AcceptLogged s₀ (acceptLog tr) s := by
  have hinv :=
    htr.invariant hr (P := fun tr u => u.Running → AcceptLogged s₀ (acceptLog tr) u) ?_ ?_
  · exact hinv hrun
  · rintro -
    refine ⟨rfl, fun sk hsk => ?_, fun _ _ => .unknown, fun _ _ => rfl⟩
    rw [h₀] at hsk
    cases hsk
  · intro tr u a u' hu ih _ hs hrun'
    have hlog := (ih ((step_spec hs).running hrun')).step hu hs hrun'
    rwa [acceptLog, List.flatMap_append, List.flatMap_singleton]

end log

/-- For every run from and to a state in which `accept_connections` has no socket in hand, with
every sequence of results of `accept` and every pattern of failures: the accounts are right exactly
if no `write` of a connection to a hand-off pipe failed. -/
theorem accept_accounted_iff {cfg : Config n} {s s' : State n m} (hr : (server m cfg).Reachable s)
    (hs : s.main.sock? = none) {tr : List (State n m × Action n m)}
    (htr : (server m cfg).Trace (fun _ _ => True) s tr s')
    (hs' : s'.main = .wait ∨ s'.main = .accept) :
    AcceptAccounted s s' (acceptLog tr) ↔ ∀ sk, .writeFailed sk ∉ acceptLog tr := by
  have hrun : s'.Running := by
    rcases hs' with h | h <;> rw [State.Running, h] <;> trivial
  have hnone : s'.main.sock? = none := by
    rcases hs' with h | h <;> rw [h] <;> rfl
  have hlog := acceptLogged hr hs htr hrun
  generalize acceptLog tr = log at hlog ⊢
  have hsettled : ∀ sk, (sockLog log sk).Settled :=
    fun sk => hlog.settled sk (by rw [hnone]; rintro ⟨⟩)
  refine ⟨fun hacc sk hfailed => ?_,
    fun hok => ⟨hlog.total, fun sk hhanded => ?_, fun sk haccepted hnot => ?_⟩⟩
  · have hset := hsettled sk
    have hpos := List.count_pos_iff.mpr hfailed
    generalize hx : sockLog log sk = x at hset
    cases hset with
    | dropped =>
      have haccepted : 0 < log.count (.accepted sk) := by
        rw [show log.count (.accepted sk) = 1 from congrArg SockLog.accepted hx]
        exact Nat.one_pos
      have hnot : .handed sk ∉ log := List.count_eq_zero.mp (congrArg SockLog.handed hx)
      have hone := hacc.refused sk (List.count_pos_iff.mp haccepted) hnot
      have htwo : log.count (.closed sk) = 2 := congrArg SockLog.closed hx
      omega
    | _ =>
      have hzero : log.count (.writeFailed sk) = 0 := congrArg SockLog.writeFailed hx
      omega
  · have hset := hsettled sk
    have hpos := List.count_pos_iff.mpr hhanded
    generalize hx : sockLog log sk = x at hset
    cases hset with
    | handed => exact congrArg SockLog.closed hx
    | _ =>
      have hzero : log.count (.handed sk) = 0 := congrArg SockLog.handed hx
      omega
  · have hset := hsettled sk
    have hpos := List.count_pos_iff.mpr haccepted
    generalize hx : sockLog log sk = x at hset
    cases hset with
    | unknown =>
      have hzero : log.count (.accepted sk) = 0 := congrArg SockLog.accepted hx
      omega
    | handed =>
      have hone : log.count (.handed sk) = 1 := congrArg SockLog.handed hx
      rw [List.count_eq_zero.mpr hnot] at hone
      cases hone
    | refused => exact congrArg SockLog.closed hx
    | dropped =>
      have hone : log.count (.writeFailed sk) = 1 := congrArg SockLog.writeFailed hx
      rw [List.count_eq_zero.mpr (hok sk)] at hone
      cases hone

/-- Of two clients one is handed over, and the connection of the other cannot be created. -/
theorem accept_accounted_refused :
    ∃ (s' : State 1 1) (tr : List (State 1 1 × Action 1 1)),
      AcceptAccounted (State.start (Config.fresh 1)) s' (acceptLog tr) ∧
        s'.totalConnections = 1 ∧ s'.kernel.nextSock = 2 := by
  let S := server 1 (Config.fresh 1)
  obtain ⟨s', htr, hp⟩ := S.exists_trace (s := State.start (Config.fresh 1)) (fun _ _ => True)
    (List.flatten [[.env .arrive, .env .arrive, .main .ok], Action.acceptOne 10,
      [.main (.accepted 11), .main .ok, .main .fail, .main .ok, .main .again]])
    (fun s => decide (s.main = .wait ∧ s.totalConnections = 1 ∧ s.kernel.nextSock = 2))
      (by decide +kernel)
  obtain ⟨hwait, htotal, hnext⟩ := of_decide_eq_true hp
  have hlog : acceptLog (S.traceOf (State.start (Config.fresh 1)) (List.flatten
      [[.env .arrive, .env .arrive, .main .ok], Action.acceptOne 10,
        [.main (.accepted 11), .main .ok, .main .fail, .main .ok, .main .again]])) =
      [.accepted 0, .handed 0, .accepted 1, .closed 1] := by
    decide +kernel
  refine ⟨s', _, (accept_accounted_iff (.init rfl) rfl htr (.inl hwait)).mpr fun sk hsk => ?_,
    htotal, hnext⟩
  rw [hlog] at hsk
  simp at hsk

/-- A hand-off pipe that holds one pointer, and two clients: the descriptor of the second is closed
twice. -/
theorem not_accept_accounted :
    ∃ (cfg : Config 1) (as : List (Action 1 1)) (s' : State 1 1),
      (server 1 cfg).Trace (fun _ _ => True) (State.start cfg)
        ((server 1 cfg).traceOf (State.start cfg) as) s' ∧ s'.main = .wait ∧
          acceptLog ((server 1 cfg).traceOf (State.start cfg) as) =
            [.accepted 0, .handed 0, .accepted 1, .writeFailed 1, .closed 1, .closed 1] ∧
        ¬AcceptAccounted (State.start cfg) s'
          (acceptLog ((server 1 cfg).traceOf (State.start cfg) as)) := by
  let cfg : Config 1 := { Config.fresh 1 with pipeCap := 1 }
  let as : List (Action 1 1) :=
    List.flatten [[.env .arrive, .env .arrive, .main .ok], Action.acceptOne 10,
      [.main (.accepted 11), .main .ok, .main .ok, .main .fail, .main .ok, .main .ok, .main .again]]
  obtain ⟨s', htr, hp⟩ := (server 1 cfg).exists_trace (s := State.start cfg) (fun _ _ => True) as
    (fun s => decide (s.main = .wait)) (by decide +kernel)
  have hlog : acceptLog ((server 1 cfg).traceOf (State.start cfg) as) =
      [.accepted 0, .handed 0, .accepted 1, .writeFailed 1, .closed 1, .closed 1] := by
    decide +kernel
  refine ⟨cfg, as, s', htr, of_decide_eq_true hp, hlog, fun hacc => ?_⟩
  have hone := hacc.refused 1
  rw [hlog] at hone
  exact absurd (hone (by decide) (by decide)) (by decide)

end DeepInIo.AdvancedServer
