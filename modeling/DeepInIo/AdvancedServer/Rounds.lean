import DeepInIo.AdvancedServer.RequestResponse
import DeepInIo.AdvancedServer.SocketLog

/-!
# Rounds of requests and responses

A client that sends a chunk only when everything before was answered gets the responses to its
chunks, one after the other, and its connection comes back to the state in which it was registered
(`request_response_cycle`).  The condition on the client is one on what happens at its socket: there
is something to read only when as many bytes were written as the responses to all chunks read have.

`malloc` must hand out no memory that an IO thread is still to check.  Otherwise the response to
another client's chunk can be written to the socket (`response_without_request`).
-/

namespace DeepInIo.AdvancedServer

open State

variable {n m : ℕ}

/-! ### The chunks of a connection -/

/-- There is something to read from the socket only when as many bytes were written to it as the
responses to all chunks have. -/
def SocketLog.Paced (sk : SockId) (l : SocketLog n m) (s : State n m) : Prop :=
  (s.kernel.socks sk).unread ≠ [] →
    (l.chunks.map response).flatten.length ≤ (s.kernel.socks sk).written.length

instance (sk : SockId) (l : SocketLog n m) (s : State n m) : Decidable (l.Paced sk s) :=
  inferInstanceAs (Decidable (_ → _))

/-- These chunks were read from the connection: tasks were made of them, but for the one of which a
thread is just making one. -/
structure Heard (s : State n m) (c : ConnId) (chunks : List (List UInt8)) : Prop where
  done : (∀ t, (s.io t).pc.reading c = []) → chunks = (s.conns c).chunks
  ahead : ∀ t data, (s.io t).pc.reading c = [data] → chunks = (s.conns c).chunks ++ [data]

section rounds

variable {cfg : Config n} {s s' : State n m} {l : SocketLog n m} {sk : SockId} {c : ConnId}
  {chunks : List (List UInt8)} {t : Fin n}

/-- A thread that treats no event of a connection is neither at its buffer nor at one of its
chunks. -/
theorem IoPc.away_of_role {pc : IoPc} {c : ConnId} (h : pc.role ≠ .active c) :
    pc.writeStage c = .away ∧ pc.reading c = [] := by
  have hne : ∀ {x : EventContext}, pc.role = .active x.conn → x.conn ≠ c := by
    rintro x hrole rfl
    exact h hrole
  cases pc with
  | rdCreate x data => exact ⟨rfl, if_neg (hne rfl)⟩
  | wrIdle x | wrLoop x | wrFinal x | wrReset x | wrMod x => exact ⟨if_neg (hne rfl), rfl⟩
  | closeMark k x =>
    cases k with
    | write => exact ⟨if_neg (hne rfl), rfl⟩
    | read => exact ⟨rfl, rfl⟩
    | hangup => exact ⟨rfl, rfl⟩
  | _ => exact ⟨rfl, rfl⟩

/-- A chunk of which no task was made yet is on its way. -/
theorem IoPc.reading_eq (pc : IoPc) (c : ConnId) :
    pc.reading c = [] ∨ ∃ data, pc.reading c = [data] ∧ chunkFor c pc.chunk? = {data} := by
  cases pc with
  | rdCreate x data =>
    by_cases hc : x.conn = c
    · exact .inr ⟨data, if_pos hc, if_pos hc⟩
    · exact .inl (if_neg hc)
  | _ => exact .inl rfl

/-- A thread with a chunk of the connection is treating an event of it. -/
theorem IoPc.role_of_reading {pc : IoPc} {data : List UInt8} (h : pc.reading c = [data]) :
    ∃ x, pc = .rdCreate x data ∧ x.conn = c := by
  cases pc with
  | rdCreate x data' =>
    simp only [IoPc.reading] at h
    split at h
    · next hc =>
      cases h
      exact ⟨x, rfl, hc⟩
    · cases h
  | _ => cases h

/-- The chunks of which tasks were made come first. -/
theorem Heard.begins (h : Heard s c chunks) : (s.conns c).chunks <+: chunks := by
  by_cases hnone : ∀ t, (s.io t).pc.reading c = []
  · rw [h.done hnone]
  · obtain ⟨t, ht⟩ := not_forall.mp hnone
    obtain ⟨data, hdata, -⟩ := ((s.io t).pc.reading_eq c).resolve_left ht
    rw [h.ahead t data hdata]
    exact List.prefix_append ..

/-- A step that changes neither the chunks of the connection nor what a thread does with one. -/
theorem Heard.quiet (h : Heard s c chunks)
    (hreading : ∀ t, (s'.io t).pc.reading c = (s.io t).pc.reading c)
    (hchunks : (s'.conns c).chunks = (s.conns c).chunks) : Heard s' c chunks where
  done hnone := by
    rw [hchunks]
    exact h.done fun t => (hreading t).symm.trans (hnone t)
  ahead t data hdata := by
    rw [hchunks]
    exact h.ahead t data ((hreading t).symm.trans hdata)

/-- Only the thread that treats an event of the connection can have a chunk of it. -/
theorem eq_of_reading (hi : Owned s) (hrole : (s.io t).pc.role = .active c) {t' : Fin n}
    {data : List UInt8} (h : (s.io t').pc.reading c = [data]) : t' = t := by
  obtain ⟨x, hpc, rfl⟩ := IoPc.role_of_reading h
  have howner := (hi.io t').active x.conn (congrArg IoPc.role hpc)
  rw [(hi.io t).active _ hrole] at howner
  exact (Owner.registered.inj howner).symm

/-- No thread has a chunk of the connection when the thread that treats an event of it has none. -/
theorem reading_eq_nil (hi : Owned s) (hrole : (s.io t).pc.role = .active c)
    (hnone : (s.io t).pc.reading c = []) (t' : Fin n) : (s.io t').pc.reading c = [] := by
  rcases (s.io t').pc.reading_eq c with hnil | ⟨data, hdata, -⟩
  · exact hnil
  · rwa [eq_of_reading hi hrole hdata]

/-- A step of the thread that treats an event of the connection. -/
theorem Heard.own (hi : Owned s) (hrole : (s.io t).pc.role = .active c)
    (hio : ∀ t' ≠ t, s'.io t' = s.io t')
    (hdone : (s'.io t).pc.reading c = [] → chunks = (s'.conns c).chunks)
    (hahead : ∀ data, (s'.io t).pc.reading c = [data] → chunks = (s'.conns c).chunks ++ [data]) :
    Heard s' c chunks where
  done hnone := hdone (hnone t)
  ahead t' data hdata := by
    by_cases ht : t' = t
    · subst ht
      exact hahead data hdata
    · rw [hio t' ht] at hdata
      exact absurd (eq_of_reading hi hrole hdata) ht

/-- A thread has a chunk only after `read`. -/
theorem IoStep.reading_eq_nil (h : IoStep cfg s t s') (hpc : ∀ x, (s.io t).pc ≠ .rdRead x) :
    (s'.io t).pc.reading c = [] := by
  have hnew : ∀ {th : IoThread}, s'.io = Function.update s.io t th → th.pc.reading c = [] →
      (s'.io t).pc.reading c = [] := by
    intro th hio hnone
    rw [hio, Function.update_self]
    exact hnone
  cases h with
  | @move pc' hm =>
    refine hnew rfl ?_
    rcases pc'.reading_eq c with hnone | ⟨data, -, hchunk⟩
    · exact hnone
    · rw [hm.chunk?, chunkFor_none] at hchunk
      exact absurd hchunk.symm (Multiset.singleton_ne_zero data)
  | readData hread => exact absurd hread (hpc _)
  | collectPipe hwait | collectMsg hwait | collectFd hwait => exact hnew rfl (by rw [hwait]; rfl)
  | @closeRelease k x => exact hnew rfl (by dsimp only; split <;> rfl)
  | _ => exact hnew rfl rfl

/-- `read` in `handle_read`. -/
theorem Heard.readStep (h : Heard s c chunks) (hi : Owned s) (hd : ConnFiles s)
    (hborn : s.owner c ≠ .unborn) {x : EventContext} (hpc : (s.io t).pc = .rdRead x)
    {res : IoResult} (hs : (server m cfg).step s (.io t res) = some s') :
    Heard s' c (chunks ++ (s.chunkRead (s.conns c).sock (.io t res)).toList) := by
  have hstep : IoStep cfg s t s' := ioStep_spec hs
  have hactive : (s.io t).pc.role = .active x.conn := congrArg IoPc.role hpc
  have hat := sockAt_active hi hd hactive
  have hnone : (s.io t).pc.reading c = [] := by
    rw [hpc]
    rfl
  have hchunks : (s'.conns c).chunks = (s.conns c).chunks :=
    hstep.chunks_eq fun y data hcreate => by
      rw [hpc] at hcreate
      cases hcreate
  have hquiet : (s'.io t).pc.reading c = [] → Heard s' c chunks := by
    intro hafter
    refine h.quiet (fun t' => ?_) hchunks
    by_cases ht : t' = t
    · rw [ht, hnone, hafter]
    · rw [hstep.io_ne ht]
  change s.ioStep cfg t res = some s' at hs
  cases res <;> simp only [ioStep, hpc, State.readStep] at hs
  case got len =>
    obtain ⟨⟨data, k⟩, hk, rfl⟩ := Option.map_eq_some_iff.mp hs
    obtain ⟨sk₀, hsk₀, -, -, -, hdata, -⟩ := Kernel.readBytes_eq hk
    obtain rfl := Option.some.inj (hat.symm.trans hsk₀)
    have hreading : ((s.readData t x data k).io t).pc.reading c = if x.conn = c then [data]
        else [] := by
      simp [State.readData]
    simp only [State.chunkRead, hpc, hat, Option.some.injEq]
    by_cases hc : x.conn = c
    · subst hc
      rw [if_pos rfl, ← hdata]
      refine .own hi hactive (fun t' ht => hstep.io_ne ht) (fun hno => ?_) fun data' hyes => ?_
      · rw [hreading, if_pos rfl] at hno
        cases hno
      · rw [hreading, if_pos rfl] at hyes
        cases hyes
        rw [hchunks, h.done (reading_eq_nil hi hactive hnone)]
        rfl
    · have hne : (s.conns x.conn).sock ≠ (s.conns c).sock := fun heq =>
        hc (hd.sock_inj _ _ (by rw [(hi.io t).active _ hactive]; rintro ⟨⟩) hborn heq)
      rw [if_neg hne, Option.toList_none, List.append_nil]
      exact hquiet (by rw [hreading, if_neg hc])
  case eof | again =>
    split at hs <;> cases hs
    change Heard _ c (chunks ++ [])
    rw [List.append_nil]
    exact hquiet (by simp)
  case err =>
    cases hs
    change Heard _ c (chunks ++ [])
    rw [List.append_nil]
    exact hquiet (by simp)
  all_goals cases hs

/-- `task_create` in `handle_read`. -/
theorem Heard.createStep (h : Heard s c chunks) (hi : Owned s) {x : EventContext}
    {data : List UInt8} (hpc : (s.io t).pc = .rdCreate x data) {res : IoResult}
    (hs : (server m cfg).step s (.io t res) = some s')
    (hok : s.impairs (s.conns c).sock (.io t res) = false) : Heard s' c chunks := by
  have hstep : IoStep cfg s t s' := ioStep_spec hs
  have hafter : (s'.io t).pc.reading c = [] :=
    hstep.reading_eq_nil fun y hread => by
      rw [hpc] at hread
      cases hread
  by_cases hc : x.conn = c
  · have hactive : (s.io t).pc.role = .active c := by
      rw [hpc, ← hc]
      rfl
    refine .own hi hactive (fun t' ht => hstep.io_ne ht) (fun _ => ?_) fun data' hyes => ?_
    · have hahead := h.ahead t data (by rw [hpc]; exact if_pos hc)
      obtain rfl := eq_ok_of_create hok hpc hc
      change s.ioStep cfg t .ok = some s' at hs
      simp only [ioStep, hpc, State.createTask, Option.some.injEq] at hs
      rw [hahead, ← hs, ← hc]
      simp
    · rw [hafter] at hyes
      cases hyes
  · refine h.quiet (fun t' => ?_) (hstep.chunks_eq fun y data' hcreate => ?_)
    · by_cases ht : t' = t
      · rw [ht, hafter, hpc]
        exact (if_neg hc).symm
      · rw [hstep.io_ne ht]
    · rw [hpc] at hcreate
      cases hcreate
      exact hc

/-- Every step hears what is read from the socket. -/
theorem Heard.step (h : Heard s c chunks) (hi : Owned s) (hd : ConnFiles s)
    (hborn : s.owner c ≠ .unborn) {a : Action n m} (hs : (server m cfg).step s a = some s')
    (hok : s.impairs (s.conns c).sock a = false) :
    Heard s' c (chunks ++ (s.chunkRead (s.conns c).sock a).toList) := by
  have hnothing : Heard s' c chunks → Heard s' c (chunks ++ []) := by
    rw [List.append_nil]
    exact id
  cases a with
  | main res =>
    have hstep : MainStep cfg s s' := mainStep_spec hs
    refine hnothing (h.quiet (fun t => ?_) (hstep.chunks_eq hi hborn))
    rw [(hstep.io_eq t).1]
  | worker w ok =>
    have hstep : WorkerStep cfg s w s' := workerStep_spec hs
    refine hnothing (h.quiet (fun t => ?_) (hstep.chunks_eq c))
    rw [(hstep.io_eq t).2.1]
  | env e => exact hnothing (h.quiet (by cases envStep_spec hs <;> exact fun t => rfl)
      (by cases envStep_spec hs <;> rfl))
  | io t res =>
    by_cases hread : ∃ x, (s.io t).pc = .rdRead x
    · obtain ⟨x, hpc⟩ := hread
      exact h.readStep hi hd hborn hpc hs
    · have hno : ∀ x, (s.io t).pc ≠ .rdRead x := not_exists.mp hread
      rw [chunkRead_eq_none hno]
      by_cases hcreate : ∃ x data, (s.io t).pc = .rdCreate x data
      · obtain ⟨x, data, hpc⟩ := hcreate
        exact hnothing (h.createStep hi hpc hs hok)
      · have hstep : IoStep cfg s t s' := ioStep_spec hs
        have hnone : (s.io t).pc.reading c = [] := by
          refine ((s.io t).pc.reading_eq c).resolve_right fun ⟨data, hdata, _⟩ => hcreate ?_
          obtain ⟨x, hpc, -⟩ := IoPc.role_of_reading hdata
          exact ⟨x, data, hpc⟩
        refine hnothing (h.quiet (fun t' => ?_) (hstep.chunks_eq fun x data hpc => ?_))
        · by_cases ht : t' = t
          · rw [ht, hstep.reading_eq_nil hno, hnone]
          · rw [hstep.io_ne ht]
        · exact absurd ⟨x, data, hpc⟩ hcreate

/-- The bytes written to the socket are a prefix of the responses to the chunks. -/
theorem written_in_order (h : (s.cycle t r).Inv Fits response) :
    (s.kernel.socks (s.conns r.data).sock).written <+:
      ((s.conns r.data).chunks.map response).flatten := by
  rcases (s.io t).pc.reading_eq r.data with hnone | ⟨data, hone, hchunk⟩
  · have hwritten := h.written_in_order
    change _ <+:
        (((s.conns r.data).chunks ++ (s.io t).pc.reading r.data).map response).flatten at hwritten
    rw [hnone, List.append_nil] at hwritten
    exact hwritten
  · have hmem : data ∈ (s.cycle t r).asked := by
      change data ∈ s.asked t r.data
      rw [State.asked, hchunk, add_assoc, Multiset.singleton_add]
      exact Multiset.mem_cons_self ..
    obtain ⟨front, hheard, hwritten⟩ := h.sent.but data hmem
    change (s.conns r.data).chunks ++ (s.io t).pc.reading r.data = front ++ [data] at hheard
    rw [hone] at hheard
    rw [List.append_cancel_right hheard]
    exact hwritten ▸ List.prefix_rfl

/-! ### The run with new numbers -/

/-- The exchange with a connection from which these chunks were read is in order. -/
structure Serving (s : State n m) (c : ConnId) (chunks : List (List UInt8)) : Prop where
  heard : Heard s c chunks
  exchanging : s.Exchanging c
  unleaked : (s.conns c).leaked = 0

/-- The chunks in the log are those of the connection for which the socket was accepted. -/
structure ServingSocket (sk : SockId) (s : State n m) (l : SocketLog n m) : Prop where
  conn : ∀ c < s.nextConn, (s.conns c).sock = sk → Serving s c l.chunks
  known : l.chunks ≠ [] → ∃ c < s.nextConn, (s.conns c).sock = sk

/-- A step keeps the exchange with a connection in order. -/
theorem Serving.step (h : Serving s c l.chunks) (hr : (server m cfg).Reachable s)
    (hc : c < s.nextConn) (hpaced : l.Paced (s.conns c).sock s) {a : Action n m}
    (hs : (server m cfg).step s a = some s') (hok : s.impairs (s.conns c).sock a = false) :
    Serving s' c (l.record (s.conns c).sock s a).chunks where
  heard := h.heard.step (reachable_owned hr) (reachable_descriptors hr).conn
    (ne_unborn (reachable_owned hr) hc) hs hok
  exchanging := by
    intro t f r' hr' hc'
    subst hc'
    have hanswered : s.Paced r'.data := by
      intro hunread
      refine le_trans ?_ (hpaced hunread)
      exact ((h.heard.begins.map response).flatten).length_le
    have hexch := step_exchanges (reachable_owned hr) (reachable_descriptors hr).conn
      (reachable_listed hr).1 (reachable_listed (hr.next hs)).1 (reachable_tornDown hr)
      (reachable_blank hr) h.exchanging hanswered hs hok hr'
    cases hexch with
    | old r hr₀ hdata hmask hsteps =>
      obtain ⟨hm, hinv⟩ := h.exchanging t f r hr₀ hdata
      exact ⟨hmask hm, hinv.steps (fun _ => response_ne_nil) hsteps⟩
    | new hmask hinv => exact ⟨.inl hmask, hinv⟩
  unleaked := by
    rcases leaked_step (reachable_owned hr) hs c with
      hsame | ⟨t, res, rfl, ⟨x, data, hpc, hc, rfl⟩ | ⟨x, task, hpc, -, hshut⟩⟩
    · rw [hsame, h.unleaked]
    · cases eq_ok_of_create hok hpc hc
    · obtain ⟨hpool, hqueue⟩ :=
        (reachable_tornDown hr).no_shutdown (t := t) (by rw [hpc]; rintro ⟨⟩)
      rw [hpool, hqueue] at hshut
      rcases hshut with hshut | hshut <;> cases hshut

/-- Only the socket of a connection is read from. -/
theorem known_of_chunkRead (hi : Owned s) (hd : ConnFiles s) {a : Action n m} {data : List UInt8}
    (h : s.chunkRead sk a = some data) : ∃ c < s.nextConn, (s.conns c).sock = sk := by
  cases a with
  | io t res =>
    cases res with
    | got len =>
      simp only [State.chunkRead] at h
      split at h
      · next x hpc =>
        have hactive := congrArg IoPc.role hpc
        rw [sockAt_active hi hd hactive] at h
        split at h
        · next hsk => exact ⟨x.conn, lt_nextConn_of_active hi hactive, Option.some.inj hsk⟩
        · cases h
      · cases h
    | _ => cases h
  | _ => cases h

/-- Nothing was read from a new connection, and it is in no interest list. -/
theorem serving_new (hi : Owned s) (hl : Listed s) (t : Fin n) (f : Fd) (sk : SockId) :
    Serving (s.createConnection t f sk) s.nextConn [] where
  heard := by
    have hno : ∀ t', ((s.createConnection t f sk).io t').pc.reading s.nextConn = [] := by
      intro t'
      refine (IoPc.away_of_role fun hrole => ?_).2
      exact lt_irrefl _ (lt_nextConn_of_active hi hrole)
    refine ⟨fun _ => ?_, fun t' data hdata => ?_⟩
    · rw [createConnection_conns, Function.update_self]
      rfl
    · rw [hno t'] at hdata
      cases hdata
  exchanging := by
    intro t' f' r hr hc
    have howner := (hl.registered (t := t') (f := f') (r := r) hr).1
    rw [hc, (hi.unborn _).mpr le_rfl] at howner
    cases howner
  unleaked := by
    rw [createConnection_conns, Function.update_self]
    rfl

/-- A step keeps the exchange in order. -/
theorem ServingSocket.step (h : ServingSocket sk s l) (hr : (server m cfg).Reachable s)
    (hpaced : l.Paced sk s) {a : Action n m} (hs : (server m cfg).step s a = some s')
    (hok : s.impairs sk a = false) : ServingSocket sk s' (l.record sk s a) := by
  have hi := reachable_owned hr
  have hd := reachable_descriptors hr
  have hknown : (l.record sk s a).chunks ≠ [] → ∃ c < s.nextConn, (s.conns c).sock = sk := by
    intro hne
    cases hread : s.chunkRead sk a with
    | none =>
      refine h.known fun hnil => hne ?_
      rw [SocketLog.record_chunks, hnil, hread]
      rfl
    | some data => exact known_of_chunkRead hi hd.conn hread
  have hsock : ∀ c < s.nextConn, (s'.conns c).sock = (s.conns c).sock :=
    fun c hc => sock_step hi hd.conn hs hc
  have hold : ∀ c < s.nextConn, (s'.conns c).sock = sk →
      Serving s' c (l.record sk s a).chunks := by
    intro c hc hsk
    rw [hsock c hc] at hsk
    subst hsk
    exact (h.conn c hc rfl).step hr hc hpaced hs hok
  rcases nextConn_cases hs with hnext | ⟨t, f, sk₀, rfl, hpc, rfl⟩
  · constructor
    · rw [hnext]
      exact hold
    · intro hne
      obtain ⟨c, hc, hsk⟩ := hknown hne
      exact ⟨c, hnext ▸ hc, (hsock c hc).trans hsk⟩
  · constructor
    · intro c hc hsk
      by_cases hc₀ : c = s.nextConn
      · subst hc₀
        rw [createConnection_conns, Function.update_self] at hsk
        -- the socket was just accepted, and no connection has it yet
        have hnil : (l.record sk s (.main .ok)).chunks = [] := by
          by_contra hne
          obtain ⟨c', hc', hsk'⟩ := hknown hne
          exact (hd.main.accepted f sk₀ (by rw [hpc]; rfl)).2 c' (ne_unborn hi hc')
            (hsk'.trans hsk.symm)
        rw [hnil]
        exact serving_new hi (reachable_listed hr).1 t f sk₀
      · exact hold c (lt_of_le_of_ne (Nat.lt_succ_iff.mp hc) hc₀) hsk
    · intro hne
      obtain ⟨c, hc, hsk⟩ := hknown hne
      exact ⟨c, Nat.lt_succ_of_lt hc, (hsock c hc).trans hsk⟩

/-- The exchange is in order in every run in which the client keeps to its turn and nothing is
refused to its connection. -/
theorem reachable_servingSocket {p : State n m × SocketLog n m}
    (h : (loggedServer m cfg sk).ReachableUnder
      (fun p a => p.2.Paced sk p.1 ∧ p.1.impairs sk a = false) p) : ServingSocket sk p.1 p.2 := by
  refine h.invariant (I := fun p => ServingSocket sk p.1 p.2) ?_ ?_
  · rintro ⟨s, l⟩ ⟨rfl, rfl⟩
    exact ⟨fun c hc => absurd hc (Nat.not_lt_zero c), fun hne => absurd rfl hne⟩
  · rintro ⟨s, l⟩ a ⟨s', l'⟩ hr hserving hok hs
    obtain ⟨hs, rfl⟩ := TransitionSystem.recording_step.mp hs
    exact hserving.step hr.reachable.of_recording hok.1 hs hok.2

/-- The state of the exchange with a registered connection. -/
theorem Serving.round {f : Fd} {e : Registration} (h : Serving s e.data chunks)
    (hr : (server m cfg).Reachable s) (he : s.kernel.reg t f = some e) :
    (s.kernel.socks (s.conns e.data).sock).written <+: (chunks.map response).flatten ∧
      ((chunks.map response).flatten.length ≤
          (s.kernel.socks (s.conns e.data).sock).written.length →
        (s.kernel.socks (s.conns e.data).sock).written = (chunks.map response).flatten ∧
          ((s.io t).pc.role ≠ .active e.data →
            (s.conns e.data).writePos = 0 ∧ (s.conns e.data).writeSize = 0 ∧ e.mask = .readEt ∧
              (s.taskRefs e.data = 0 → s.messageRefs e.data = 0 →
                (s.conns e.data).refCount = 1))) := by
  obtain ⟨hmask, hinv⟩ := h.exchanging t f e he rfl
  have howner := ((reachable_listed hr).1.registered he).1
  have hprefix : ((s.conns e.data).chunks.map response).flatten <+: (chunks.map response).flatten :=
    (h.heard.begins.map response).flatten
  have hwritten := (written_in_order hinv).trans hprefix
  refine ⟨hwritten, fun hlen => ⟨hwritten.eq_of_length_le hlen, fun hrole => ?_⟩⟩
  obtain ⟨hstage, hreading⟩ := IoPc.away_of_role hrole
  have hanswered : (s.cycle t e).Answered response := by
    rw [RequestCycle.Answered]
    change (((s.conns e.data).chunks ++ (s.io t).pc.reading e.data).map response).flatten.length ≤ _
    rw [hreading, List.append_nil]
    exact hprefix.length_le.trans hlen
  obtain ⟨-, hwriting, hpos, hsize⟩ := hinv.idle (fun _ => response_ne_nil) hanswered hstage
  refine ⟨hpos, hsize, hmask.resolve_right fun hw => ?_, fun htasks hmessages => ?_⟩
  · have hno : e.mask.write = false := hwriting
    rw [hw] at hno
    cases hno
  · have hrefs := (reachable_counts hr).refs e.data
    have hone : s.ownerRefs e.data = 1 := by
      rw [State.ownerRefs, howner]
      rfl
    rw [hrefs, State.refs, hone, htasks, hmessages, h.unleaked]
    rfl

/-! ### The run in which memory is used again -/

variable {α : ConnId → ConnId} {live : ConnId → Prop} {r : State n m}

theorem named_readdress (o : Option ConnId) (c : ConnId) : named o c ≤ named (o.map α) (α c) := by
  cases o with
  | none => exact le_rfl
  | some c' =>
    by_cases hc : c' = c
    · subst hc
      simp
    · simp [named, hc]

/-- There are at least as many tasks for the address as for the connection. -/
theorem Stored.taskRefs_le (h : Stored α live s r) (c : ConnId) :
    s.taskRefs c ≤ r.taskRefs (α c) := by
  rw [State.taskRefs, State.taskRefs, h.queue, h.worker, h.io]
  refine Nat.add_le_add (Nat.add_le_add ?_ (Finset.sum_le_sum fun w _ => ?_))
    (Finset.sum_le_sum fun t _ => ?_)
  · rw [AdvancedServer.taskRefs, AdvancedServer.taskRefs, List.countP_map]
    refine List.countP_mono_left fun task _ htask => ?_
    exact decide_eq_true (congrArg α (of_decide_eq_true htask))
  · refine (named_readdress _ c).trans_eq (congrArg (named · (α c)) ?_)
    dsimp only
    cases s.worker w <;> rfl
  · refine (named_readdress _ c).trans_eq (congrArg (named · (α c)) ?_)
    rw [IoThread.readdress_pc]
    cases (s.io t).pc <;> rfl

/-- There are at least as many messages for the address as for the connection. -/
theorem Stored.messageRefs_le (h : Stored α live s r) (c : ConnId) :
    s.messageRefs c ≤ r.messageRefs (α c) := by
  rw [State.messageRefs, State.messageRefs, h.worker, h.io]
  refine Nat.add_le_add (Finset.sum_le_sum fun w _ => ?_)
    (Finset.sum_le_sum fun t _ => Nat.add_le_add ?_ ?_)
  · refine (named_readdress _ c).trans_eq (congrArg (named · (α c)) ?_)
    dsimp only
    cases s.worker w <;> rfl
  · rw [AdvancedServer.messageRefs, AdvancedServer.messageRefs, IoThread.readdress_msgQueue,
      List.countP_map]
    refine List.countP_mono_left fun msg _ hmsg => ?_
    exact decide_eq_true (congrArg α (of_decide_eq_true hmsg))
  · refine (named_readdress _ c).trans_eq (congrArg (named · (α c)) ?_)
    rw [IoThread.readdress_pc]
    cases (s.io t).pc <;> rfl

/-- A thread that treats an event of the connection treats one of the address. -/
theorem role_readdress {pc : IoPc} {c : ConnId} (h : pc.role = .active c) :
    (pc.readdress α).role = .active (α c) := by
  cases pc <;> cases h <;> rfl

namespace AtAddresses

/-- The connection of an entry is at its address. -/
theorem conn_of_reg (h : AtAddresses cfg α live s r) {f : Fd} {e : Registration}
    (he : s.kernel.reg t f = some e) :
    e.data < s.nextConn ∧ r.conns (α e.data) = s.conns e.data := by
  have howner := ((reachable_listed h.reachable).1.registered he).1
  have hlive := not_gone_of_pos (reachable_owned h.reachable) (reachable_counts h.reachable)
    ((reachable_counts h.reachable).pos_of_held (by rw [howner]; rfl))
  exact ⟨hlive.1, h.self.conns _ (h.live_of_not_gone hlive)⟩

/-- The same steps impair the exchange at the socket. -/
theorem impairs_eq (h : AtAddresses cfg α live s r) (a : Action n m) :
    r.impairs sk a = s.impairs sk a := by
  cases a with
  | io t res =>
    have hpc' : (r.io t).pc = (s.io t).pc.readdress α := by
      rw [h.self.io]
      rfl
    simp only [State.impairs, hpc']
    cases hpc : (s.io t).pc with
    | rdCreate x data =>
      have hconn := h.conn_of_ioAccess (t := t) (c := x.conn) (by rw [hpc]; rfl)
      simp only [IoPc.readdress, EventContext.readdress_conn, hconn]
    | wait =>
      cases res with
      | event e =>
        cases e with
        | fd f ev =>
          simp only [IoPc.readdress, h.self.kernel, Kernel.readdress_reg]
          cases he : s.kernel.reg t f with
          | none => rfl
          | some e => simp [(h.conn_of_reg he).2]
        | _ => rfl
      | _ => rfl
    | _ => rfl
  | worker w ok =>
    simp only [State.impairs, h.self.worker]
    cases hpc : s.worker w with
    | sendAlloc task t =>
      have htask : (s.worker w).task? = some task := by
        rw [hpc]
        rfl
      have hconn := h.conn_of_worker htask
      simp only [WorkerPc.readdress, Task.readdress_conn, hconn]
    | _ => rfl
  | _ => rfl

end AtAddresses

/-- The step impairs the exchange at the socket. -/
def State.reuseImpairs (r : State n m) (sk : SockId) (a : ReuseAction n m) : Bool :=
  a.base.any (r.impairs sk)

/-- In every run in which bytes are left to read from the socket only when everything before was
answered, no allocation for its connection fails, the backend reports only the events of it for
which the mask asks, and `malloc` hands out no memory that an IO thread is still to check, while the
connection of the socket is registered:  the bytes written to the socket are a prefix of the
responses to the chunks read from it, in order, and all of them as soon as there are as many.  When,
moreover, no event of the connection is being handled, the buffer is empty and the mask asks for
reading, and the owner's is the only reference when there is neither a task nor a message. -/
theorem request_response_cycle {p : State n m × SocketLog n m}
    (h : (loggedReusingServer m cfg sk).ReachableUnder
      (fun p a => p.1.reusesChecked a = false ∧ p.2.Paced sk p.1 ∧ p.1.reuseImpairs sk a = false) p)
    {f : Fd} {e : Registration} (he : p.1.kernel.reg t f = some e)
    (hsk : (p.1.conns e.data).sock = sk) :
    (p.1.kernel.socks sk).written <+: (p.2.chunks.map response).flatten ∧
      ((p.2.chunks.map response).flatten.length ≤ (p.1.kernel.socks sk).written.length →
        (p.1.kernel.socks sk).written = (p.2.chunks.map response).flatten ∧
          ((p.1.io t).pc.role ≠ .active e.data →
            (p.1.conns e.data).writePos = 0 ∧ (p.1.conns e.data).writeSize = 0 ∧ e.mask = .readEt ∧
              (p.1.taskRefs e.data = 0 → p.1.messageRefs e.data = 0 →
                (p.1.conns e.data).refCount = 1))) := by
  have hok : ∀ {α live} {s r : State n m} {l : SocketLog n m} {a b}, AtAddresses cfg α live s r →
      l.Paced sk r ∧ r.reuseImpairs sk a = false → b ∈ a.base →
        l.Paced sk s ∧ s.impairs sk b = false := by
    rintro α live s r l a b hplaced ⟨hpaced, hno⟩ hb
    rw [SocketLog.Paced, hplaced.socks_eq] at hpaced
    refine ⟨hpaced, Bool.eq_false_iff.mpr fun hyes => ?_⟩
    rw [← hplaced.impairs_eq] at hyes
    have hany : r.reuseImpairs sk a = true := (Option.any_eq_true ..).mpr ⟨b, hb, hyes⟩
    rw [hno] at hany
    cases hany
  obtain ⟨α, live, s, hplaced, hbase⟩ := exists_numbered_log
    (fun p a => p.2.Paced sk p.1 ∧ p.1.impairs sk a = false)
    (fun p a => p.2.Paced sk p.1 ∧ p.1.reuseImpairs sk a = false) hok h
  obtain ⟨r, l⟩ := p
  have he' : (s.kernel.reg t f).map (Registration.readdress α) = some e := by
    rw [← he, hplaced.self.kernel]
    rfl
  obtain ⟨e₀, he₀, rfl⟩ := Option.map_eq_some_iff.mp he'
  obtain ⟨hborn, hconn⟩ : e₀.data < s.nextConn ∧ r.conns (α e₀.data) = s.conns e₀.data :=
    hplaced.conn_of_reg he₀
  simp only [Registration.readdress_data, Registration.readdress_mask, hconn] at hsk ⊢
  subst hsk
  have hserving := (reachable_servingSocket hbase).conn e₀.data hborn rfl
  obtain ⟨hwritten, hall⟩ := hserving.round hplaced.reachable he₀
  rw [hplaced.socks_eq]
  refine ⟨hwritten, fun hlen => ⟨(hall hlen).1, fun hrole => ?_⟩⟩
  obtain ⟨hpos, hsize, hmask, hcount⟩ := (hall hlen).2 fun hactive => hrole (by
    rw [hplaced.self.io]
    exact role_readdress hactive)
  refine ⟨hpos, hsize, hmask, fun htasks hmessages => hcount ?_ ?_⟩
  · exact Nat.le_zero.mp (htasks ▸ hplaced.self.taskRefs_le e₀.data)
  · exact Nat.le_zero.mp (hmessages ▸ hplaced.self.messageRefs_le e₀.data)

/-- A client connects and closes, and the memory of its connection is handed out again for the next
one, which goes through two rounds.  The first response is sent in two pieces. -/
def ReuseAction.twoRounds (t : Fin n) (w : Fin m) : List (ReuseAction n m) :=
  List.flatten [connect 10 0, others (Action.adopt t), hangUp t 10, others [.io t .ok, .io t .ok],
    connect 10 0, others (Action.adopt t), others [.env (.data 10 [65])],
    others (Action.deliver t 10 { read := true }), others (Action.readOne t 1),
    others [.io t .again, .io t .ok, .io t .ok, .io t .ok], others (Action.work w 11),
    others (Action.drainMessages t 1), others (Action.deliver t 10 { write := true }),
    others [.io t .ok, .io t (.wrote 50 false), .io t .again, .io t .ok, .io t .ok, .io t .ok,
      .io t .ok],
    others [.env (.drain 10)], others (Action.deliver t 10 { write := true }),
    others [.io t .ok, .io t (.wrote 45 true)], others (List.replicate 7 (.io t .ok)),
    others [.env (.data 10 [66, 67])], others (Action.deliver t 10 { read := true }),
    others (Action.readOne t 2), others [.io t .again, .io t .ok, .io t .ok, .io t .ok],
    others (Action.work w 11), others (Action.drainMessages t 1),
    others (Action.deliver t 10 { write := true }), others [.io t .ok, .io t (.wrote 96 true)],
    others (List.replicate 7 (.io t .ok))]

/-- After the two rounds everything is written, and the connection is back in the state in which it
was registered. -/
theorem request_response_cycle_rounds :
    ∃ p : State 1 1 × SocketLog 1 1, ∃ e, p.1.kernel.reg 0 10 = some e ∧ e.data = 0 ∧
      p.2.chunks = [[65], [66, 67]] ∧
      (p.1.kernel.socks 1).written = response [65] ++ response [66, 67] ∧
      (p.1.conns 0).writePos = 0 ∧ (p.1.conns 0).writeSize = 0 ∧ e.mask = .readEt ∧
      (p.1.conns 0).refCount = 1 := by
  obtain ⟨p, hs, hp⟩ := (loggedReusingServer 1 (Config.fresh 1) 1).exists_of_execUnder
    (fun p a => p.1.reusesChecked a = false ∧ p.2.Paced 1 p.1 ∧ p.1.reuseImpairs 1 a = false)
    (ReuseAction.twoRounds 0 0)
    (fun p => (p.1.kernel.reg 0 10).any fun (e : Registration) => decide
      (e.data = 0 ∧ (p.1.conns 0).sock = 1 ∧ p.2.chunks = [[65], [66, 67]] ∧
      191 ≤ (p.1.kernel.socks 1).written.length ∧ (p.1.io 0).pc = .loop ∧ p.1.taskRefs 0 = 0 ∧
      p.1.messageRefs 0 = 0)) (loggedReusingServer_start ..) (by decide +kernel)
  obtain ⟨e, he, htest⟩ := (Option.any_eq_true ..).mp hp
  obtain ⟨hc, hsk, hchunks, hlen, hpc, htasks, hmessages⟩ := of_decide_eq_true htest
  have hall : (p.2.chunks.map response).flatten = response [65] ++ response [66, 67] := by
    rw [hchunks]
    simp
  have hsize : (response [65] ++ response [66, 67]).length = 191 := by decide +kernel
  obtain ⟨-, hround⟩ := request_response_cycle hs he (by rw [hc, hsk])
  rw [hall, hsize, hc] at hround
  obtain ⟨hwritten, hidle⟩ := hround hlen
  obtain ⟨hpos, hzero, hmask, hcount⟩ := hidle (by rw [hpc]; nofun)
  exact ⟨p, e, he, hc, hchunks, hwritten, hpos, hzero, hmask, hcount htasks hmessages⟩

/-- A registered connection whose client has sent nothing, and to which nothing is refused, gets the
response to another client's byte. -/
theorem response_without_request :
    ∃ p : State 2 1 × SocketLog 2 1,
      (loggedReusingServer 1 (Config.fresh 2) 2).ReachableUnder
        (fun p a => p.2.Paced 2 p.1 ∧ p.1.reuseImpairs 2 a = false) p ∧
      (∃ e, p.1.kernel.reg 0 20 = some e ∧ (p.1.conns e.data).sock = 2) ∧ p.2.chunks = [] ∧
      (p.1.kernel.socks 2).unread = [] ∧ (p.1.kernel.socks 2).written = response [65] := by
  obtain ⟨p, hs, hp⟩ := (loggedReusingServer 1 (Config.fresh 2) 2).exists_of_execUnder
    (fun p a => p.2.Paced 2 p.1 ∧ p.1.reuseImpairs 2 a = false) (ReuseAction.strayResponse [65])
    (fun p => (p.1.kernel.reg 0 20).any fun (e : Registration) => decide
      ((p.1.conns e.data).sock = 2 ∧ p.2.chunks = [] ∧ (p.1.kernel.socks 2).unread = [] ∧
      (p.1.kernel.socks 2).written = response [65])) (loggedReusingServer_start ..)
        (by decide +kernel)
  obtain ⟨e, he, htest⟩ := (Option.any_eq_true ..).mp hp
  obtain ⟨hsk, hrest⟩ := of_decide_eq_true htest
  exact ⟨p, hs, ⟨e, he, hsk⟩, hrest⟩

end rounds

end DeepInIo.AdvancedServer
