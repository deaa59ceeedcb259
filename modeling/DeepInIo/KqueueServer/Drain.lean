import DeepInIo.Foundation.Progress
import DeepInIo.Foundation.ThreadSum
import DeepInIo.KqueueServer.Steps

/-!
# Level-triggered reading strands nothing

Left alone by its clients, the kqueue server comes to rest: every event it handles takes a
connection from the queue, takes bytes from a buffer or closes a client, which `State.work` counts,
so that there are only so many steps (`alone_paid`).  When it can go on no longer it waits in
`kevent`, every connection was accepted, everything was read, and the clients that had shut down
were closed, unless no descriptor number is free (`comes_to_rest`).  One `read` for each event is
enough here, because `kevent` reports what a `read` has left behind.
-/

namespace DeepInIo.KqueueServer

variable {n : ℕ}

/-- The calls that must succeed for the server to go on: `kevent`, `accept` and `EV_ADD`. -/
def Pc.mayFail : Pc n → Bool
  | .wait | .accept | .register _ => true
  | _ => false

/-- `kevent`, `accept` and `EV_ADD` do not fail. -/
def Healthy (s : State n) (a : Action n) : Prop :=
  a = .loop .err → s.pc.mayFail = false

instance (s : State n) (a : Action n) : Decidable (Healthy s a) :=
  inferInstanceAs (Decidable (a = .loop .err → s.pc.mayFail = false))

/-- A step of the server, not of its clients. -/
def Action.isLoop : Action n → Bool
  | .loop _ => true
  | .env _ => false

/-- A step of the server in which `kevent`, `accept` and `EV_ADD` do not fail. -/
def Alone (s : State n) (a : Action n) : Prop :=
  a.isLoop = true ∧ Healthy s a

instance (s : State n) (a : Action n) : Decidable (Alone s a) :=
  inferInstanceAs (Decidable (_ ∧ _))

/-- What is left to do for a connection: its bytes, and to close it. -/
def Sock.weight (v : Sock) : ℕ :=
  v.unread.length + 1

/-- What is left to do for a number. -/
def sockWeight : Option Sock → ℕ
  | some v => v.weight
  | none => 0

namespace State

/-- What is left to do for the waiting and the open connections. -/
def load (s : State n) : ℕ :=
  (s.backlog.map fun v => v.weight + 1).sum + ∑ f, sockWeight (s.socks f)

/-- How far the server is from the next event that it handles. -/
def distance (s : State n) : ℕ :=
  match s.pc with
  | .wait => 5
  | .next => if s.batch = [] then 6 else 4
  | .accept | .read _ => 3
  | .close _ => 2
  | .register _ | .del _ => 7
  | .stopped => 0

/-- A bound for the steps that are left. -/
def work (s : State n) : ℕ :=
  8 * s.load + s.distance

variable {s s' : State n} {r : Result n} {a : Action n} {f : Fin n}

/-- At the head of the loop. -/
theorem distance_next (hpc : s.pc = .next) : s.distance ≤ 6 := by
  rw [distance, hpc]
  dsimp only
  split <;> omega

/-- The server is never far from the next event. -/
theorem distance_le : s.distance ≤ 7 := by
  unfold distance
  split
  case h_2 => split <;> omega
  all_goals omega

/-- Something was done. -/
theorem work_lt_of_load (h : s'.load < s.load) : s'.work < s.work := by
  have hle : s'.distance ≤ 7 := distance_le
  unfold work
  omega

/-- The server has come nearer to the next event. -/
theorem work_lt_of_distance (hload : s'.load = s.load) (h : s'.distance < s.distance) :
    s'.work < s.work := by
  unfold work
  omega

/-- The load when one socket has changed. -/
theorem load_setSock {v : Option Sock} :
    (s.setSock f v).load + sockWeight (s.socks f) = s.load + sockWeight v := by
  have hsum := threadSum_update s.socks f v sockWeight
  simp only [load, setSock_backlog, setSock_socks]
  omega

/-- The load when the first connection has left the queue. -/
theorem load_tail {v : Sock} {rest : List Sock} (hb : s.backlog = v :: rest) :
    ({ s with backlog := rest } : State n).load + v.weight + 1 = s.load := by
  simp only [load, hb, List.map_cons, List.sum_cons]
  omega

/-! ### Every step is progress -/

/-- A step of the server lowers the bound. -/
theorem work_lt (hi : s.Sound) (hok : Healthy s (.loop r)) (hs : LoopStep s r s') :
    s'.work < s.work := by
  have hmust : r = .err → s.pc.mayFail = true → s'.work < s.work := by
    rintro rfl hfail
    rw [hok rfl] at hfail
    cases hfail
  cases hs with
  | kevent hpc hne hnodup hready =>
    refine work_lt_of_distance rfl ?_
    simp [distance, hpc, hne]
  | keventFailed hpc => exact hmust rfl (by simp [hpc, Pc.mayFail])
  | nextWait hpc hb =>
    refine work_lt_of_distance rfl ?_
    simp [distance, hpc, hb]
  | nextListen hpc hb =>
    refine work_lt_of_distance rfl ?_
    simp [distance, hpc, hb]
  | nextClient hpc hb =>
    refine work_lt_of_distance rfl ?_
    simp [distance, hpc, hb]
  | @accepted f v rest hpc hb hfree =>
    -- the connection weighs less when it was accepted
    apply work_lt_of_load
    have htail := load_tail hb
    have hset := load_setSock (s := { s with backlog := rest }) (f := f) (v := some v)
    change _ + sockWeight (s.socks f) = _ + sockWeight (some v) at hset
    rw [hfree] at hset
    change (({ s with backlog := rest } : State n).setSock f (some v)).load < s.load
    simp only [sockWeight] at hset
    omega
  | acceptFailed hpc => exact hmust rfl (by simp [hpc, Pc.mayFail])
  | aborted hpc =>
    apply work_lt_of_load
    obtain ⟨v, rest, hb⟩ := List.exists_cons_of_ne_nil (hi.accept hpc).2
    have htail := load_tail hb
    change ({ s with backlog := s.backlog.tail } : State n).load < s.load
    rw [hb, List.tail_cons]
    omega
  | @registered f hpc =>
    refine work_lt_of_distance rfl ?_
    have hfar : s.distance = 7 := by simp [distance, hpc]
    have hnear : ((s.setFilter f true).setPc .next).distance ≤ 6 := distance_next rfl
    omega
  | notRegistered hpc hr =>
    refine work_lt_of_distance rfl ?_
    have hfar : s.distance = 7 := by simp [distance, hpc]
    have hnear : (s.setPc .next).distance ≤ 6 := distance_next rfl
    omega
  | @took f v hpc hv hne =>
    apply work_lt_of_load
    have hset :=
      load_setSock (s := s) (f := f) (v := some { v with unread := v.unread.drop bufferSize })
    have hlen : 0 < v.unread.length := List.length_pos_iff.mpr hne
    change (s.setSock f (some { v with unread := v.unread.drop bufferSize })).load < s.load
    simp only [hv, sockWeight, Sock.weight, List.length_drop, bufferSize] at hset ⊢
    omega
  | nothing hpc hv =>
    refine work_lt_of_distance rfl ?_
    simp [distance, hpc]
  | readFailed hpc =>
    refine work_lt_of_distance rfl ?_
    simp [distance, hpc]
  | @closed _ f hpc =>
    apply work_lt_of_load
    obtain ⟨v, hv⟩ := Option.ne_none_iff_exists'.mp (hi.close f hpc).2
    have hset := load_setSock (s := s) (f := f) (v := none)
    change (s.setSock f none).load < s.load
    simp only [hv, sockWeight, Sock.weight] at hset
    omega
  | @deleted _ f hpc =>
    refine work_lt_of_distance rfl ?_
    have hfar : s.distance = 7 := by simp [distance, hpc]
    have hnear : ((s.setFilter f false).setPc .next).distance ≤ 6 := distance_next rfl
    omega

/-! ### No client is left out -/

/-- Every open client has its filter, or is about to get it; and the loop was not left. -/
structure Served (s : State n) : Prop where
  filter : ∀ f, s.socks f ≠ none → s.filters f = true ∨ s.pc = .register (some f)
  running : s.pc ≠ .stopped

/-- A step in which nothing fails that must not. -/
theorem Served.step (h : s.Served) (hi : s.Sound) (hok : Healthy s a)
    (hs : (server n).step s a = some s') :
    s'.Served := by
  have hkeep : ∀ {s' : State n}, (∀ f, s'.socks f ≠ none → s.socks f ≠ none) →
      s'.filters = s.filters → (∀ f, s.pc ≠ .register (some f)) → s'.pc ≠ .stopped → s'.Served := by
    intro s' hsocks hfilters hpc hrunning
    refine ⟨fun f hf => .inl ?_, hrunning⟩
    rw [hfilters]
    exact (h.filter f (hsocks f hf)).resolve_right (hpc f)
  cases step_spec hs with
  | @loop r _ hl =>
    have hfail : r = .err → s.pc.mayFail = true → s'.Served := by
      rintro rfl hmay
      rw [hok rfl] at hmay
      cases hmay
    cases hl with
    | kevent hpc | nextWait hpc | nextListen hpc | nextClient hpc | aborted hpc | nothing hpc
    | readFailed hpc =>
      exact hkeep (fun _ hf => hf) rfl (by simp [hpc]) (by simp)
    | keventFailed hpc | acceptFailed hpc => exact hfail rfl (by simp [hpc, Pc.mayFail])
    | @accepted f v rest hpc hb hfree =>
      refine ⟨fun f' hf' => ?_, by simp⟩
      by_cases hf : f' = f
      · subst hf
        exact .inr rfl
      · left
        have hopen : s.socks f' ≠ none := by simpa [hf] using hf'
        exact (h.filter f' hopen).resolve_right (by simp [hpc])
    | @registered f hpc =>
      refine ⟨fun f' hf' => .inl ?_, by simp⟩
      by_cases hf : f' = f
      · subst hf
        simp
      · have hold := (h.filter f' hf').resolve_right (by simpa [hpc] using fun heq => hf heq.symm)
        simpa [hf] using hold
    | @notRegistered _ connFd hpc hr =>
      rcases hr with rfl | ⟨rfl, rfl⟩
      · exact hfail rfl (by simp [hpc, Pc.mayFail])
      · exact hkeep (fun _ hf => hf) rfl (by simp [hpc]) (by simp)
    | @took f v hpc hv hne =>
      refine hkeep (fun f' hf' => ?_) rfl (by simp [hpc]) (by simp)
      by_cases hf : f' = f
      · subst hf
        simp [hv]
      · simpa [hf] using hf'
    | @closed _ f hpc =>
      refine ⟨fun f' hf' => .inl ?_, by simp⟩
      have hf : f' ≠ f := by
        rintro rfl
        simp at hf'
      have hopen : s.socks f' ≠ none := by simpa [hf] using hf'
      have hold := (h.filter f' hopen).resolve_right (by simp [hpc])
      simpa [hf] using hold
    | @deleted _ f hpc =>
      refine ⟨fun f' hf' => .inl ?_, by simp⟩
      have hf : f' ≠ f := by
        rintro rfl
        exact hf' (hi.del f' hpc)
      have hold := (h.filter f' hf').resolve_right (by simp [hpc])
      simpa [hf] using hold
  | env he =>
    have hset : ∀ {f : Fin n} {v v' : Sock}, s.socks f = some v →
        (s.setSock f (some v')).Served := by
      intro f v v' hv
      refine ⟨fun f' hf' => h.filter f' ?_, h.running⟩
      by_cases hf : f' = f
      · subst hf
        simp [hv]
      · simpa [hf] using hf'
    cases he with
    | connect | early | earlyClose => exact ⟨h.filter, h.running⟩
    | data hv hne hopen => exact hset hv
    | peerClose hv => exact hset hv

/-- In every reachable state of such runs. -/
theorem Served.of_reachable (hr : (server n).ReachableUnder Healthy s) : s.Served := by
  induction hr with
  | init h =>
    rw [h]
    exact ⟨fun f hf => absurd rfl hf, by rintro ⟨⟩⟩
  | step hr hok hs ih => exact ih.step (Sound.of_reachable hr) hok hs

/-! ### Rest -/

/-- The server waits in `kevent`; every connection was accepted, everything was read, and whoever
has shut down was closed. -/
structure Idle (s : State n) : Prop where
  waits : s.pc = .wait
  accepted : s.backlog = []
  read : ∀ f v, s.socks f = some v → v.unread = [] ∧ v.peerClosed = false

/-- A server that cannot go on is idle, or no number is free for the connection it accepts. -/
theorem idle_of_stuck (hi : s.Sound) (h : s.Served) (hstuck : (server n).Stuck Alone s) :
    s.Idle ∨ s.pc = .accept ∧ ∀ f, s.socks f ≠ none := by
  have hno : ∀ r, (r = .err → s.pc.mayFail = false) → s.loopStep r = none := by
    intro r hr
    exact hstuck (.loop r) ⟨rfl, fun heq => hr (Action.loop.inj heq)⟩
  cases hpc : s.pc with
  | wait =>
    left
    -- whatever is ready could be reported
    have hready : ∀ e, s.ready e = false := by
      intro e
      by_contra hready
      have hstep := hno (.events [e]) (by rintro ⟨⟩)
      unfold loopStep at hstep
      rw [hpc] at hstep
      simp [State.kevent, maxEvents, hready] at hstep
    refine ⟨hpc, ?_, fun f v hv => ?_⟩
    · by_contra hne
      have hlisten := hready .listen
      rw [ready_listen.mpr hne] at hlisten
      cases hlisten
    · have hfilter := (h.filter f (by simp [hv])).resolve_right (by simp [hpc])
      have hclient := hready (.client f)
      simp only [ready, hfilter, hv, Bool.true_and, Option.any_some, Sock.readable,
        Bool.or_eq_false_iff] at hclient
      simpa using hclient
  | accept =>
    right
    refine ⟨rfl, fun f hfree => ?_⟩
    obtain ⟨v, rest, hb⟩ := List.exists_cons_of_ne_nil (hi.accept hpc).2
    have hstep := hno (.accepted f) (by rintro ⟨⟩)
    unfold loopStep at hstep
    rw [hpc] at hstep
    simp [acceptConn, hb, hfree] at hstep
  | stopped => exact absurd hpc h.running
  | next | close | del =>
    have hstep := hno .ok (by rintro ⟨⟩)
    unfold loopStep at hstep
    rw [hpc] at hstep
    cases hstep
  | register connFd =>
    have hstep := hno .ok (by rintro ⟨⟩)
    unfold loopStep at hstep
    rw [hpc] at hstep
    cases connFd <;> cases hstep
  | read f =>
    have hstep := hno .err (by simp [hpc, Pc.mayFail])
    unfold loopStep at hstep
    rw [hpc] at hstep
    cases hstep

end State

open State

/-- Without its clients the server takes steps that its work pays for. -/
theorem alone_paid :
    (server n).Paid Alone (fun _ _ => true) (fun s => s.Sound ∧ s.Served) State.work := by
  intro s a s' ⟨hi, h⟩ ⟨hloop, hok⟩ hs
  refine ⟨⟨hi.step hs, h.step hi hok hs⟩, ?_⟩
  cases step_spec hs with
  | loop hl => exact work_lt hi hok hl
  | env he => cases hloop

/-- From every state that is reached without a failing `kevent`, `accept` or `EV_ADD`, the server
left alone by its clients comes to rest: it takes no more steps than its work, and when it cannot go
on, it waits in `kevent` with every connection accepted, everything read and whoever has shut down
closed, unless no descriptor number is free. -/
theorem comes_to_rest {s : State n} (hr : (server n).ReachableUnder Healthy s) :
    (∀ tr s', (server n).Trace Alone s tr s' → tr.length ≤ s.work ∧
      ((server n).Stuck Alone s' → s'.Idle ∨ s'.pc = .accept ∧ ∀ f, s'.socks f ≠ none)) ∧
      ∃ tr s', (server n).Trace Alone s tr s' ∧ (server n).Stuck Alone s' := by
  have hstart : s.Sound ∧ s.Served := ⟨Sound.of_reachable hr, Served.of_reachable hr⟩
  constructor
  · intro tr s' htr
    obtain ⟨⟨hi, h⟩, hle⟩ := TransitionSystem.Trace.length_le alone_paid hstart htr
    exact ⟨by omega, idle_of_stuck hi h⟩
  · exact TransitionSystem.exists_stuck alone_paid hstart

/-- A client has connected and has sent more than one `read` takes. -/
theorem comes_to_rest_of_burst :
    ∃ s : State 8, s.backlog.map (fun v => v.unread.length) = [1500] ∧
      ∃ tr s', (server 8).Trace Alone s tr s' ∧ tr.length ≤ s.work ∧
        (s'.Idle ∨ s'.pc = .accept ∧ ∀ f, s'.socks f ≠ none) := by
  obtain ⟨s, hr, hp⟩ := TransitionSystem.exists_of_execUnder (server 8) Healthy
    [.env .connect, .env (.early 0 (List.replicate 1500 72))]
    (fun s => s.backlog.map (fun v => v.unread.length) = [1500]) rfl (by decide +kernel)
  obtain ⟨hall, tr, s', htr, hstuck⟩ := comes_to_rest hr
  obtain ⟨hle, hrest⟩ := hall tr s' htr
  exact ⟨s, of_decide_eq_true hp, tr, s', htr, hle, hrest hstuck⟩

end DeepInIo.KqueueServer
