import DeepInIo.AdvancedServer.Connection
import DeepInIo.Foundation.CountedReferences
import DeepInIo.Foundation.Transition

/-!
# One connection object

The calls of `connection.c` on one object that any number of threads share.  A mutex section is one
step; the tail of `conn_release`, which closes the descriptor and frees the object outside of it, is
another.  Threads call the functions only while they have a counted reference, may pass a reference
on, and give each one up once.

The descriptor is closed by the first `conn_mark_closing`, or else by the tail, and the tail runs
once (`conn_object_protocol`).
-/

namespace DeepInIo.AdvancedServer

variable {n : ℕ} {θ : Type*}

namespace Conn

/-- The mutex section of `conn_release`. -/
@[simps]
def decRef (k : Conn n) : Conn n :=
  { k with refCount := k.refCount - 1 }

/-- The tail of `conn_release`, which runs when `should_free` is set. -/
@[simps]
def dispose (k : Conn n) : Conn n :=
  { k with fd := none, frees := k.frees + 1 }

/-- `conn_release` is its mutex section and, if that says so, its tail. -/
theorem release_eq (k : Conn n) :
    k.release = if k.lastRelease then k.decRef.dispose else k.decRef := by
  by_cases h : k.lastRelease <;> simp [release, decRef, dispose, h]

/-- Only the first `conn_mark_closing` has an effect. -/
theorem markClosing_of_closing {k : Conn n} (h : k.closing = true) : k.markClosing = k := by
  obtain ⟨⟩ := k
  simp only at h
  simp [markClosing, h]

end Conn

/-- A connection object with the threads that use it. -/
structure SharedConn (n : ℕ) (θ : Type*) where
  conn : Conn n
  /-- The thread of each counted reference. -/
  refs : Multiset θ
  /-- The threads in the tail of `conn_release`. -/
  freeing : Multiset θ
  /-- The descriptors given to `close`, in order. -/
  closed : List Fd
  /-- What `conn_is_valid` returned, in order. -/
  answers : List Bool

/-- What a thread does with the object. -/
inductive ConnCall (θ : Type*)
  /-- `conn_acquire` -/
  | acquire (th : θ)
  /-- the mutex section of `conn_release` -/
  | release (th : θ)
  /-- the tail of `conn_release` -/
  | free (th : θ)
  /-- `conn_mark_closing` -/
  | markClosing (th : θ)
  /-- `conn_is_valid` -/
  | isValid (th : θ)
  /-- a reference goes to another thread -/
  | pass (th th' : θ)
  deriving DecidableEq

namespace SharedConn

/-- The object that the thread `th` gets from `conn_create`. -/
def created (f : Fd) (sk : SockId) (t : Fin n) (th : θ) : SharedConn n θ where
  conn := Conn.create f sk t
  refs := {th}
  freeing := 0
  closed := []
  answers := []

variable [DecidableEq θ]

/-- One call. -/
def step (s : SharedConn n θ) : ConnCall θ → Option (SharedConn n θ)
  | .acquire th =>
    if th ∈ s.refs then some { s with conn := s.conn.acquire, refs := th ::ₘ s.refs } else none
  | .release th =>
    if th ∈ s.refs then
      some { s with
        conn := s.conn.decRef
        refs := s.refs.erase th
        freeing := if s.conn.lastRelease then th ::ₘ s.freeing else s.freeing }
    else none
  | .free th =>
    if th ∈ s.freeing then
      some { s with
        conn := s.conn.dispose
        freeing := s.freeing.erase th
        closed := s.closed ++ s.conn.fd.toList }
    else none
  | .markClosing th =>
    if th ∈ s.refs then
      some { s with
        conn := s.conn.markClosing
        closed := s.closed ++ if s.conn.closing then [] else s.conn.fd.toList }
    else none
  | .isValid th =>
    if th ∈ s.refs then some { s with answers := s.answers ++ [s.conn.isValid] } else none
  | .pass th th' => if th ∈ s.refs then some { s with refs := th' ::ₘ s.refs.erase th } else none

/-- What a call can do. -/
inductive Step (s : SharedConn n θ) : ConnCall θ → SharedConn n θ → Prop
  | acquire (th : θ) (h : th ∈ s.refs) :
      Step s (.acquire th) { s with conn := s.conn.acquire, refs := th ::ₘ s.refs }
  | release (th : θ) (h : th ∈ s.refs) :
      Step s (.release th) { s with
        conn := s.conn.decRef
        refs := s.refs.erase th
        freeing := if s.conn.lastRelease then th ::ₘ s.freeing else s.freeing }
  | free (th : θ) (h : th ∈ s.freeing) :
      Step s (.free th) { s with
        conn := s.conn.dispose
        freeing := s.freeing.erase th
        closed := s.closed ++ s.conn.fd.toList }
  | markClosing (th : θ) (h : th ∈ s.refs) :
      Step s (.markClosing th) { s with
        conn := s.conn.markClosing
        closed := s.closed ++ if s.conn.closing then [] else s.conn.fd.toList }
  | isValid (th : θ) (h : th ∈ s.refs) :
      Step s (.isValid th) { s with answers := s.answers ++ [s.conn.isValid] }
  | pass (th th' : θ) (h : th ∈ s.refs) :
      Step s (.pass th th') { s with refs := th' ::ₘ s.refs.erase th }

variable {s s' : SharedConn n θ} {f : Fd} {sk : SockId} {t : Fin n} {th₀ : θ}

/-- The step function does only what `Step` says. -/
theorem step_spec {a : ConnCall θ} (h : s.step a = some s') : Step s a s' := by
  cases a <;> simp only [step] at h <;> split at h <;> cases h
  · exact .acquire _ ‹_›
  · exact .release _ ‹_›
  · exact .free _ ‹_›
  · exact .markClosing _ ‹_›
  · exact .isValid _ ‹_›
  · exact .pass _ _ ‹_›

/-- The object with its counter. -/
def counted (s : SharedConn n θ) : CountedObject θ :=
  ⟨s.conn.refCount, s.refs, s.freeing, s.conn.frees⟩

end SharedConn

/-- The object that the thread `th` creates for the descriptor `f`, and all that threads do with
it. -/
def connObject [DecidableEq θ] (f : Fd) (sk : SockId) (t : Fin n) (th : θ) :
    TransitionSystem (SharedConn n θ) (ConnCall θ) where
  init s := s = .created f sk t th
  step s a := s.step a

namespace SharedConn

variable [DecidableEq θ] {s s' : SharedConn n θ} {f : Fd} {sk : SockId} {t : Fin n} {th₀ : θ}

/-- Every call is at most one step of the counted object. -/
theorem Step.counted {a : ConnCall θ} (h : Step s a s') :
    s'.counted = s.counted ∨ CountedObject.Step s.counted s'.counted := by
  cases h with
  | acquire th h => exact .inr (.acquire s.counted th h)
  | release th h =>
    have hstep := CountedObject.Step.release s.counted th h
    simp only [SharedConn.counted, Conn.lastRelease, Conn.decRef, decide_eq_true_eq] at hstep ⊢
    exact .inr hstep
  | free th h => exact .inr (.finish s.counted th h)
  | markClosing th h => exact .inl rfl
  | isValid th h => exact .inl rfl
  | pass th th' h => exact .inr (.pass s.counted th th' h)

/-- What holds of the descriptor, the closing flag and the answers of `conn_is_valid`. -/
structure Inv (f : Fd) (s : SharedConn n θ) : Prop where
  counted : s.counted.Inv
  /-- The descriptor is there, or was closed once. -/
  closed : (s.conn.fd = some f ∧ s.closed = []) ∨ (s.conn.fd = none ∧ s.closed = [f])
  fd_none : s.conn.fd = none ↔ s.conn.closing = true ∨ 0 < s.conn.frees
  state : s.conn.state = if s.conn.closing then .closing else .connected
  /-- The answers are yes until the connection is marked. -/
  answers : s.conn.closing = false → ∀ b ∈ s.answers, b = true
  terminal : s.answers.Pairwise fun b b' => b = false → b' = false

theorem inv_created (f : Fd) (sk : SockId) (t : Fin n) (th : θ) : (created f sk t th).Inv f where
  counted := CountedObject.inv_created th
  closed := .inl ⟨rfl, rfl⟩
  fd_none := by simp [created, Conn.create]
  state := rfl
  answers _ b hb := by cases hb
  terminal := .nil

/-- The connection is valid until it is marked. -/
theorem Inv.isValid_eq (hi : s.Inv f) : s.conn.isValid = !s.conn.closing := by
  rw [Conn.isValid, hi.state]
  cases s.conn.closing <;> rfl

/-- A thread with a reference works on an object that was not freed. -/
theorem Inv.frees_eq_zero (hi : s.Inv f) {th : θ} (h : th ∈ s.refs) : s.conn.frees = 0 := by
  by_contra hne
  have hzero : s.refs = 0 := (hi.counted.ended (Nat.pos_of_ne_zero hne)).1
  rw [hzero] at h
  exact Multiset.notMem_zero th h

/-- Every call keeps the invariant. -/
theorem Step.inv {a : ConnCall θ} (h : Step s a s') (hi : s.Inv f) : s'.Inv f := by
  have hcounted : s'.counted.Inv := by
    rcases h.counted with heq | hstep
    · rw [heq]
      exact hi.counted
    · exact hstep.inv hi.counted
  cases h with
  | acquire th h => exact ⟨hcounted, hi.closed, hi.fd_none, hi.state, hi.answers, hi.terminal⟩
  | release th h => exact ⟨hcounted, hi.closed, hi.fd_none, hi.state, hi.answers, hi.terminal⟩
  | pass th th' h => exact ⟨hcounted, hi.closed, hi.fd_none, hi.state, hi.answers, hi.terminal⟩
  | free th h =>
    refine ⟨hcounted, .inr ⟨rfl, ?_⟩, ?_, hi.state, hi.answers, hi.terminal⟩
    · rcases hi.closed with ⟨hfd, hclosed⟩ | ⟨hfd, hclosed⟩ <;> simp [hfd, hclosed]
    · simp [Conn.dispose]
  | markClosing th h =>
    have hfree := hi.frees_eq_zero h
    cases hclosing : s.conn.closing with
    | true =>
      have hsame := Conn.markClosing_of_closing hclosing
      simp only [hsame, if_true, List.append_nil] at hcounted ⊢
      exact ⟨hcounted, hi.closed, hi.fd_none, hi.state, hi.answers, hi.terminal⟩
    | false =>
      have hfd : s.conn.fd ≠ none := by
        rw [Ne, hi.fd_none, hclosing, hfree]
        simp
      obtain ⟨hf, hclosed⟩ := hi.closed.resolve_right fun hc => hfd hc.1
      refine ⟨by simpa [hclosing] using hcounted, .inr ⟨?_, ?_⟩, ?_, ?_, ?_, hi.terminal⟩
      · simp [Conn.markClosing, hclosing]
      · simp [hf, hclosed]
      · simp [Conn.markClosing, hclosing]
      · simp [Conn.markClosing, hclosing]
      · intro hno
        cases hno
  | isValid th h =>
    refine ⟨hcounted, hi.closed, hi.fd_none, hi.state, fun hc b hb => ?_, ?_⟩
    · rcases List.mem_append.mp hb with hold | hnew
      · exact hi.answers hc b hold
      · rw [List.mem_singleton.mp hnew, hi.isValid_eq, hc]
        rfl
    · refine List.pairwise_append.mpr
        ⟨hi.terminal, List.pairwise_singleton _ _, fun b hb b' hb' hno => ?_⟩
      rw [List.mem_singleton.mp hb', hi.isValid_eq]
      cases hclosing : s.conn.closing with
      | true => rfl
      | false => rw [hi.answers hclosing b hb] at hno; cases hno

/-- The closing flag tells whether `conn_mark_closing` was called. -/
theorem Step.closing_iff {a : ConnCall θ} (h : Step s a s') :
    s'.conn.closing = true ↔ s.conn.closing = true ∨ ∃ th, a = .markClosing th := by
  cases h <;> simp [Conn.acquire, Conn.decRef, Conn.dispose, Conn.markClosing]

/-- The invariant and the meaning of the flag hold along every run. -/
theorem run_inv {as : List (ConnCall θ)}
    (h : (connObject f sk t th₀).exec (.created f sk t th₀) as = some s) :
    s.Inv f ∧ (s.conn.closing = true ↔ ∃ th, .markClosing th ∈ as) := by
  refine TransitionSystem.exec_induction (P := fun as s => s.Inv f ∧
    (s.conn.closing = true ↔ ∃ th, .markClosing th ∈ as)) ⟨inv_created f sk t th₀, ?_⟩ ?_ h
  · simp [created, Conn.create]
  · rintro as a s₁ s₂ - ⟨hi, hclosing⟩ hs
    have hstep : Step s₁ a s₂ := step_spec hs
    refine ⟨hstep.inv hi, ?_⟩
    rw [hstep.closing_iff, hclosing]
    simp only [List.mem_append, List.mem_singleton, exists_or, eq_comm]

end SharedConn

open SharedConn in
/-- In every run of the threads on one object:  the descriptor is open, and `fd` holds it, until the
first `conn_mark_closing` or, without one, the tail of the last `conn_release`, which close it once.
The release that gives up the last reference, and no other, goes on to the tail; the object is freed
once, when that tail has run.  After `conn_is_valid` has returned 0 it always does. -/
theorem conn_object_protocol [DecidableEq θ] {f : Fd} {sk : SockId} {t : Fin n} {th₀ : θ}
    {as : List (ConnCall θ)} {s : SharedConn n θ}
    (h : (connObject f sk t th₀).exec (.created f sk t th₀) as = some s) :
    ((s.conn.fd = some f ∧ s.closed = []) ∨ (s.conn.fd = none ∧ s.closed = [f])) ∧
      (s.conn.fd = none ↔ (∃ th, .markClosing th ∈ as) ∨ s.conn.Freed) ∧
      s.freeing.card + s.conn.frees = (if s.refs = 0 then 1 else 0) ∧
      (∀ th s', s.step (.release th) = some s' →
        s'.freeing = if s'.refs = 0 then th ::ₘ s.freeing else s.freeing) ∧
      s.answers.Pairwise fun b b' => b = false → b' = false := by
  obtain ⟨hi, hclosing⟩ := run_inv h
  refine ⟨hi.closed, ?_, hi.counted.once, fun th s' hs => ?_, hi.terminal⟩
  · rw [hi.fd_none, hclosing]
    rfl
  · cases step_spec hs with
    | release th hmem =>
      have hlast : s.conn.lastRelease = true ↔ s.refs.erase th = 0 := by
        rw [Conn.lastRelease, decide_eq_true_eq]
        exact hi.counted.last_iff hmem
      simp only [hlast]

/-- Two threads: the one marks the connection and both give up their references. -/
theorem conn_object_protocol_two :
    ∃ s : SharedConn 1 ℕ, s.closed = [10] ∧ s.conn.Freed ∧ s.conn.frees = 1 ∧
      s.answers = [true, false] := by
  have hrun : ((connObject 10 0 (0 : Fin 1) 0).exec (.created 10 0 0 0)
      [.acquire 0, .pass 0 1, .isValid 1, .markClosing 0, .isValid 1, .release 0, .release 1,
        .free 1]).any (fun s => decide (s.conn.Freed ∧ s.refs = 0 ∧ s.freeing = 0 ∧
          s.answers = [true, false])) = true := by decide +kernel
  obtain ⟨s, hs, hp⟩ := (Option.any_eq_true ..).mp hrun
  obtain ⟨hfreed, hrefs, hfreeing, hanswers⟩ := of_decide_eq_true hp
  obtain ⟨hclosed, hfd, honce, -, -⟩ := conn_object_protocol hs
  have hnone : s.conn.fd = none := hfd.mpr (.inr hfreed)
  refine ⟨s, (hclosed.resolve_left fun hopen => ?_).2, hfreed, ?_, hanswers⟩
  · rw [hnone] at hopen
    cases hopen.1
  · rw [hrefs, hfreeing, if_pos rfl, Multiset.card_zero, Nat.zero_add] at honce
    exact honce

end DeepInIo.AdvancedServer
