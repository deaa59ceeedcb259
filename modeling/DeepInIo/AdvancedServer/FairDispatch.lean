import DeepInIo.AdvancedServer.Server
import DeepInIo.Foundation.RoundRobin

/-!
# The choice of an IO thread

`io_thread_pool_get_thread` called by any number of threads.  Every statement is a step; those
between `pthread_mutex_lock` and `pthread_mutex_unlock` read the array at `next_thread` and move it
on.  The calls of the main thread of the server are calls of this model (`server_getThread`).

The threads are chosen in turn, in the order in which the callers get the mutex, so that no thread
is chosen more than once more often than another (`fair_dispatch`).
-/

namespace DeepInIo.AdvancedServer

/-- The program points of `io_thread_pool_get_thread`. -/
inductive GetThreadPc (n : ℕ)
  /-- not inside the function -/
  | idle
  /-- `if (!pool || pool->thread_count == 0)` -/
  | test
  /-- `pthread_mutex_lock` -/
  | lock
  /-- `thread = pool->threads[pool->next_thread]` -/
  | read
  /-- `pool->next_thread = (pool->next_thread + 1) % pool->thread_count` -/
  | advance (t : Fin n)
  /-- `pthread_mutex_unlock` -/
  | unlock (t : Fin n)
  /-- `return thread` -/
  | ret (t : Fin n)
  deriving DecidableEq

namespace GetThreadPc

variable {n : ℕ}

/-- The caller has the mutex. -/
def critical : GetThreadPc n → Bool
  | .read | .advance _ | .unlock _ => true
  | _ => false

/-- The caller has not chosen yet. -/
def choosing : GetThreadPc n → Bool
  | .test | .lock | .read => true
  | _ => false

/-- The thread chosen and not returned yet. -/
def held : GetThreadPc n → Option (Fin n)
  | .advance t | .unlock t | .ret t => some t
  | _ => none

end GetThreadPc

/-- `io_thread_pool_t` with `n` IO threads, and the threads that call `io_thread_pool_get_thread`;
an IO thread is its index in `threads`. -/
structure IoThreadPool (n : ℕ) (θ : Type*) where
  nextThread : ℕ
  mutex : Option θ
  caller : θ → GetThreadPc n
  /-- Specification: the callers, in the order of their calls. -/
  calls : List θ
  /-- Specification: the threads read from the array, with the callers. -/
  chosen : List (θ × Fin n)
  /-- Specification: the threads returned, with the callers. -/
  returned : List (θ × Fin n)

/-- What a thread does. -/
inductive GetThreadAction (θ : Type*)
  /-- a call of `io_thread_pool_get_thread` -/
  | call (th : θ)
  /-- the next statement of a call -/
  | run (th : θ)
  deriving DecidableEq

namespace IoThreadPool

variable {n : ℕ} {θ : Type*}

/-- The pool that `io_thread_pool_create` returns. -/
def created (n : ℕ) (θ : Type*) : IoThreadPool n θ where
  nextThread := 0
  mutex := none
  caller := fun _ => .idle
  calls := []
  chosen := []
  returned := []

variable [DecidableEq θ]

/-- A caller proceeds to another program point. -/
@[simps]
def setCaller (p : IoThreadPool n θ) (th : θ) (pc : GetThreadPc n) : IoThreadPool n θ :=
  { p with caller := Function.update p.caller th pc }

/-- `io_thread_pool_get_thread`; there is no step for a read outside of the array. -/
def getThreadStep (p : IoThreadPool n θ) (th : θ) : Option (IoThreadPool n θ) :=
  match p.caller th with
  | .idle => none
  | .test => some (p.setCaller th (if n = 0 then .idle else .lock))
  | .lock =>
    match p.mutex with
    | none => some ({ p with mutex := some th }.setCaller th .read)
    | some _ => none
  | .read =>
    if h : p.nextThread < n then
      some ({ p with chosen := p.chosen ++ [(th, (⟨p.nextThread, h⟩ : Fin n))] }.setCaller th
        (.advance ⟨p.nextThread, h⟩))
    else none
  | .advance t => some ({ p with nextThread := (p.nextThread + 1) % n }.setCaller th (.unlock t))
  | .unlock t => some ({ p with mutex := none }.setCaller th (.ret t))
  | .ret t => some ({ p with returned := p.returned ++ [(th, t)] }.setCaller th .idle)

/-- One step. -/
def step (p : IoThreadPool n θ) : GetThreadAction θ → Option (IoThreadPool n θ)
  | .call th =>
    match p.caller th with
    | .idle => some ({ p with calls := p.calls ++ [th] }.setCaller th .test)
    | _ => none
  | .run th => p.getThreadStep th

end IoThreadPool

/-- The pool with `n` threads, called by any number of threads. -/
def ioThreadPool (n : ℕ) (θ : Type*) [DecidableEq θ] :
    TransitionSystem (IoThreadPool n θ) (GetThreadAction θ) where
  init p := p = .created n θ
  step p a := p.step a

namespace IoThreadPool

variable {n : ℕ} {θ : Type*} [DecidableEq θ] {p p' : IoThreadPool n θ}

/-! ### What a step can do -/

/-- The steps of a pool that is not empty. -/
inductive Step (p : IoThreadPool n θ) : IoThreadPool n θ → Prop
  | call (th : θ) (hpc : p.caller th = .idle) :
      Step p ({ p with calls := p.calls ++ [th] }.setCaller th .test)
  | test (th : θ) (hpc : p.caller th = .test) : Step p (p.setCaller th .lock)
  | lock (th : θ) (hpc : p.caller th = .lock) (hfree : p.mutex = none) :
      Step p ({ p with mutex := some th }.setCaller th .read)
  | read (th : θ) (hpc : p.caller th = .read) (h : p.nextThread < n) :
      Step p ({ p with chosen := p.chosen ++ [(th, (⟨p.nextThread, h⟩ : Fin n))] }.setCaller th
        (.advance ⟨p.nextThread, h⟩))
  | advance (th : θ) (t : Fin n) (hpc : p.caller th = .advance t) :
      Step p ({ p with nextThread := (p.nextThread + 1) % n }.setCaller th (.unlock t))
  | unlock (th : θ) (t : Fin n) (hpc : p.caller th = .unlock t) :
      Step p ({ p with mutex := none }.setCaller th (.ret t))
  | ret (th : θ) (t : Fin n) (hpc : p.caller th = .ret t) :
      Step p ({ p with returned := p.returned ++ [(th, t)] }.setCaller th .idle)

/-- The step function does only what `Step` says. -/
theorem step_cases (hn : 0 < n) {a : GetThreadAction θ} (hs : p.step a = some p') : Step p p' := by
  cases a with
  | call th =>
    simp only [step] at hs
    split at hs <;> cases hs
    next hpc => exact .call th hpc
  | run th =>
    simp only [step, getThreadStep] at hs
    split at hs
    · cases hs
    · next hpc =>
      cases hs
      rw [if_neg (Nat.ne_of_gt hn)]
      exact .test th hpc
    · next hpc =>
      split at hs <;> cases hs
      next hfree => exact .lock th hpc hfree
    · next hpc =>
      split at hs <;> cases hs
      next h => exact .read th hpc h
    · next t hpc =>
      cases hs
      exact .advance th t hpc
    · next t hpc =>
      cases hs
      exact .unlock th t hpc
    · next t hpc =>
      cases hs
      exact .ret th t hpc

/-! ### The invariant -/

/-- The threads in a log that belong to a caller. -/
def ofCaller (l : List (θ × Fin n)) (th : θ) : List (Fin n) :=
  (l.filter fun e => e.1 = th).map Prod.snd

theorem ofCaller_snoc_self (l : List (θ × Fin n)) (th : θ) (t : Fin n) :
    ofCaller (l ++ [(th, t)]) th = ofCaller l th ++ [t] := by
  simp [ofCaller]

theorem ofCaller_snoc_of_ne (l : List (θ × Fin n)) {th th' : θ} (hne : th' ≠ th) (t : Fin n) :
    ofCaller (l ++ [(th, t)]) th' = ofCaller l th' := by
  simp [ofCaller, Ne.symm hne]

/-- Logs with the same threads for each caller have the same threads. -/
theorem perm_of_ofCaller {l l' : List (θ × Fin n)} (h : ∀ th, ofCaller l th = ofCaller l' th) :
    l.Perm l' := by
  have hcount : ∀ (l : List (θ × Fin n)) th t, l.count (th, t) = (ofCaller l th).count t := by
    intro l th t
    induction l with
    | nil => rfl
    | cons e l ih =>
      obtain ⟨th', t'⟩ := e
      by_cases hth : th' = th
      · subst hth
        by_cases ht : t' = t <;> simp_all [ofCaller]
      · simp_all [ofCaller]
  rw [List.perm_iff_count]
  rintro ⟨th, t⟩
  rw [hcount, hcount, h]

/-- What holds of a caller at a program point. -/
structure CallerOk (p : IoThreadPool n θ) (th : θ) (pc : GetThreadPc n) : Prop where
  critical : pc.critical = true ↔ p.mutex = some th
  calls : p.calls.count th = (ofCaller p.chosen th).length + pc.choosing.toNat
  chosen : ofCaller p.chosen th = ofCaller p.returned th ++ pc.held.toList
  advance : ∀ t, pc = .advance t → (p.nextThread + 1) % n = p.chosen.length % n

/-- The threads were chosen in turn, and `next_thread` is the next one. -/
structure Inv (p : IoThreadPool n θ) : Prop where
  caller : ∀ th, p.CallerOk th (p.caller th)
  lt : p.nextThread < n
  next : (∀ th t, p.caller th ≠ .advance t) → p.nextThread = p.chosen.length % n
  turns : ∀ t, (p.chosen.map Prod.snd).count t = turnsOf n p.chosen.length t

theorem inv_created (hn : 0 < n) : (created n θ).Inv where
  caller th := ⟨by constructor <;> rintro ⟨⟩, rfl, rfl, by rintro _ ⟨⟩⟩
  lt := hn
  next _ := (Nat.zero_mod n).symm
  turns _ := rfl

/-- What holds of all callers, when one proceeds. -/
theorem callers_update {th : θ} {pc : GetThreadPc n}
    (hother : ∀ th', th' ≠ th → p'.CallerOk th' (p.caller th')) (hth : p'.CallerOk th pc) :
    ∀ th', p'.CallerOk th' (Function.update p.caller th pc th') :=
  (Function.forall_update_iff p.caller p'.CallerOk).mpr ⟨hth, hother⟩

/-- A step of another caller. -/
theorem CallerOk.congr {th : θ} {pc : GetThreadPc n} (h : p.CallerOk th pc)
    (hmutex : p'.mutex = some th ↔ p.mutex = some th)
    (hcalls : p'.calls.count th = p.calls.count th)
    (hchosen : ofCaller p'.chosen th = ofCaller p.chosen th)
    (hreturned : ofCaller p'.returned th = ofCaller p.returned th)
    (hadvance : pc.critical = true → p'.nextThread = p.nextThread ∧ p'.chosen = p.chosen) :
    p'.CallerOk th pc where
  critical := h.critical.trans hmutex.symm
  calls := by rw [hcalls, hchosen, h.calls]
  chosen := by rw [hchosen, hreturned, h.chosen]
  advance := by
    rintro t rfl
    obtain ⟨hnext, hlog⟩ := hadvance rfl
    rw [hnext, hlog]
    exact h.advance t rfl

/-- At a program point where the thread is not read yet, the cursor does not matter. -/
theorem CallerOk.move {th : θ} {pc pc' : GetThreadPc n} (h : p.CallerOk th pc)
    (hcritical : pc'.critical = true ↔ p'.mutex = some th) (hcalls : p'.calls = p.calls)
    (hchosen : p'.chosen = p.chosen) (hreturned : p'.returned = p.returned)
    (hchoosing : pc'.choosing = pc.choosing) (hheld : pc'.held = pc.held)
    (hne : ∀ t, pc' ≠ .advance t) :
    p'.CallerOk th pc' where
  critical := hcritical
  calls := by rw [hcalls, hchosen, hchoosing, h.calls]
  chosen := by rw [hchosen, hreturned, hheld, h.chosen]
  advance t ht := absurd ht (hne t)

/-- A caller in its critical section is the only one there. -/
theorem Inv.not_critical (h : p.Inv) {th th' : θ} (hcritical : (p.caller th).critical = true)
    (hne : th' ≠ th) :
    (p.caller th').critical = false := by
  have hmutex := (h.caller th).critical.mp hcritical
  rw [Bool.eq_false_iff]
  intro hth'
  rw [(h.caller th').critical.mp hth'] at hmutex
  cases hmutex
  exact hne rfl

/-- Before the cursor moves, nobody else is about to move it. -/
theorem Inv.next_eq (h : p.Inv) {th : θ} (hcritical : (p.caller th).critical = true)
    (hne : ∀ t, p.caller th ≠ .advance t) : p.nextThread = p.chosen.length % n := by
  apply h.next
  intro th' t ht
  by_cases heq : th' = th
  · subst heq
    exact hne t ht
  · have hno := h.not_critical hcritical heq
    rw [ht] at hno
    cases hno

/-- The cursor, when a caller proceeds that has not moved it. -/
theorem Inv.next_update (h : p.Inv) {th : θ} {pc : GetThreadPc n}
    (hpc : ∀ t, p.caller th ≠ .advance t)
    (hno : ∀ th' t, Function.update p.caller th pc th' ≠ .advance t) :
    p.nextThread = p.chosen.length % n := by
  apply h.next
  intro th' t ht
  by_cases hne : th' = th
  · subst hne
    exact hpc t ht
  · have hother := hno th' t
    rw [Function.update_of_ne hne] at hother
    exact hother ht

/-- Every step keeps the invariant. -/
theorem Step.inv (hs : Step p p') (h : p.Inv) : p'.Inv := by
  cases hs with
  | call th hpc =>
    have hth := h.caller th
    rw [hpc] at hth
    exact { h with
      caller := callers_update
        (fun th' hne => (h.caller th').congr Iff.rfl (by simp [Ne.symm hne]) rfl rfl fun _ =>
          ⟨rfl, rfl⟩)
        { hth with
          calls := by
            have hcalls := hth.calls
            simp only [setCaller_calls, setCaller_chosen, List.count_append,
              List.count_singleton_self]
            rw [hcalls]
            rfl
          advance := by rintro _ ⟨⟩ }
      next := h.next_update (by rw [hpc]; rintro _ ⟨⟩) }
  | test th hpc =>
    have hth := h.caller th
    rw [hpc] at hth
    exact { h with
      caller := callers_update
        (fun th' _ => (h.caller th').congr Iff.rfl rfl rfl rfl fun _ => ⟨rfl, rfl⟩)
        (hth.move hth.critical rfl rfl rfl rfl rfl (by rintro _ ⟨⟩))
      next := h.next_update (by rw [hpc]; rintro _ ⟨⟩) }
  | lock th hpc hfree =>
    have hth := h.caller th
    rw [hpc] at hth
    refine { h with
      caller := callers_update (fun th' hne => ?_)
        (hth.move (iff_of_true rfl rfl) rfl rfl rfl rfl rfl (by rintro _ ⟨⟩))
      next := h.next_update (by rw [hpc]; rintro _ ⟨⟩) }
    refine (h.caller th').congr ?_ rfl rfl rfl fun _ => ⟨rfl, rfl⟩
    rw [hfree]
    refine iff_of_false ?_ (by rintro ⟨⟩)
    rintro ⟨⟩
    exact hne rfl
  | read th hpc hlt =>
    have hth := h.caller th
    have hcritical : (p.caller th).critical = true := by rw [hpc]; rfl
    have hnext := h.next_eq hcritical (by rw [hpc]; rintro _ ⟨⟩)
    rw [hpc] at hth
    refine { h with
      caller := callers_update (fun th' hne => ?_) ?_
      next := fun hno => ?_
      turns := fun t => ?_ }
    · refine (h.caller th').congr Iff.rfl rfl (ofCaller_snoc_of_ne _ hne _) rfl fun hcritical' => ?_
      rw [h.not_critical hcritical hne] at hcritical'
      cases hcritical'
    · refine ⟨hth.critical, ?_, ?_, ?_⟩
      · simp only [setCaller_calls, setCaller_chosen, ofCaller_snoc_self, List.length_append]
        exact hth.calls
      · simp only [setCaller_chosen, setCaller_returned, ofCaller_snoc_self, hth.chosen]
        rw [List.append_assoc]
        rfl
      · rintro _ ⟨⟩
        simp only [setCaller_nextThread, setCaller_chosen, List.length_append,
          List.length_singleton]
        rw [hnext, succ_mod_round]
    · exact absurd (Function.update_self ..) (hno th _)
    · simp only [setCaller_chosen, List.map_append, List.map_singleton, List.count_append,
        List.length_append, List.length_singleton, turnsOf_succ, h.turns t]
      congr 1
      rw [List.count_singleton, ← hnext]
      by_cases ht : p.nextThread = t
      · rw [if_pos ht, if_pos (beq_iff_eq.mpr (Fin.ext ht))]
      · rw [if_neg ht, if_neg]
        rw [beq_iff_eq]
        rintro rfl
        exact ht rfl
  | advance th t hpc =>
    have hth := h.caller th
    have hcritical : (p.caller th).critical = true := by rw [hpc]; rfl
    rw [hpc] at hth
    refine { h with
      caller := callers_update (fun th' hne => ?_)
        (hth.move hth.critical rfl rfl rfl rfl rfl (by rintro _ ⟨⟩))
      lt := Nat.mod_lt _ (Nat.zero_lt_of_lt h.lt)
      next := fun _ => hth.advance t rfl }
    refine (h.caller th').congr Iff.rfl rfl rfl rfl fun hcritical' => ?_
    rw [h.not_critical hcritical hne] at hcritical'
    cases hcritical'
  | unlock th t hpc =>
    have hth := h.caller th
    have hcritical : (p.caller th).critical = true := by rw [hpc]; rfl
    rw [hpc] at hth
    refine { h with
      caller := callers_update (fun th' hne => ?_)
        (hth.move (iff_of_false (by rintro ⟨⟩) (by rintro ⟨⟩)) rfl rfl rfl rfl rfl (by rintro _ ⟨⟩))
      next := h.next_update (by rw [hpc]; rintro _ ⟨⟩) }
    refine (h.caller th').congr (iff_of_false (by rintro ⟨⟩) fun hmutex => ?_) rfl rfl rfl fun _ =>
      ⟨rfl, rfl⟩
    have hcritical' := (h.caller th').critical.mpr hmutex
    rw [h.not_critical hcritical hne] at hcritical'
    cases hcritical'
  | ret th t hpc =>
    have hth := h.caller th
    rw [hpc] at hth
    exact { h with
      caller := callers_update
        (fun th' hne => (h.caller th').congr Iff.rfl rfl rfl (ofCaller_snoc_of_ne _ hne _) fun _ =>
          ⟨rfl, rfl⟩)
        { hth with
          chosen := by
            simp only [setCaller_chosen, setCaller_returned, ofCaller_snoc_self, hth.chosen]
            exact (List.append_nil _).symm
          advance := by rintro _ ⟨⟩ }
      next := h.next_update (by rw [hpc]; rintro _ ⟨⟩) }

/-- The invariant holds in every state of every run. -/
theorem reachable_inv (hn : 0 < n) (h : (ioThreadPool n θ).Reachable p) : p.Inv := by
  refine h.invariant ?_ ?_
  · rintro _ rfl
    exact inv_created hn
  · intro p a p' _ hi hs
    have hs' : p.step a = some p' := hs
    exact (step_cases hn hs').inv hi

/-- When no call is going on, all of them have returned what they have chosen. -/
theorem Inv.idle (h : p.Inv) (hidle : ∀ th, p.caller th = .idle) :
    p.chosen.Perm p.returned ∧ p.chosen.length = p.calls.length := by
  have hcalls : p.calls.Perm (p.chosen.map Prod.fst) := by
    rw [List.perm_iff_count]
    intro th
    have hth := (h.caller th).calls
    rw [hidle] at hth
    rw [hth, ofCaller, List.length_map, List.count_eq_countP, List.countP_map,
      List.countP_eq_length_filter]
    simp [GetThreadPc.choosing, Function.comp_def, beq_eq_decide]
  refine ⟨perm_of_ofCaller fun th => ?_, ?_⟩
  · have hth := (h.caller th).chosen
    rw [hidle] at hth
    rw [hth]
    exact List.append_nil _
  · rw [hcalls.length_eq, List.length_map]

end IoThreadPool

section results

variable {n : ℕ} {θ : Type*} [DecidableEq θ] {p : IoThreadPool n θ}

/-- In every state of every run `next_thread` is an index of the array, and each thread has been
chosen as often as it has had turns in a round robin, so that no thread is more than one ahead of
another.  When `k` calls were made and none is going on, the same holds of the threads returned. -/
theorem fair_dispatch (hn : 0 < n) (h : (ioThreadPool n θ).Reachable p) :
    p.nextThread < n ∧
      (∀ t, (p.chosen.map Prod.snd).count t = turnsOf n p.chosen.length t) ∧
      (∀ t t', (p.chosen.map Prod.snd).count t ≤ (p.chosen.map Prod.snd).count t' + 1) ∧
      ((∀ th, p.caller th = .idle) →
        (∀ t, (p.returned.map Prod.snd).count t = turnsOf n p.calls.length t) ∧
        ∀ t t', (p.returned.map Prod.snd).count t ≤ (p.returned.map Prod.snd).count t' + 1) := by
  have hi := IoThreadPool.reachable_inv hn h
  have hfair : ∀ t t', (p.chosen.map Prod.snd).count t ≤ (p.chosen.map Prod.snd).count t' + 1 := by
    intro t t'
    rw [hi.turns, hi.turns]
    exact turnsOf_le_succ t.isLt t'.isLt
  refine ⟨hi.lt, hi.turns, hfair, fun hidle => ?_⟩
  obtain ⟨hperm, hlen⟩ := hi.idle hidle
  have hcount : ∀ t, (p.returned.map Prod.snd).count t = (p.chosen.map Prod.snd).count t :=
    fun t => ((hperm.map Prod.snd).count_eq t).symm
  refine ⟨fun t => ?_, fun t t' => ?_⟩
  · rw [hcount, hi.turns, hlen]
  · rw [hcount, hcount]
    exact hfair t t'

/-- Three threads call at the same time, with two IO threads: the last caller gets the mutex
first. -/
theorem fair_dispatch_three :
    ∃ p : IoThreadPool 2 (Fin 3), p.returned = [(2, 0), (0, 1), (1, 0)] ∧
      (p.returned.map Prod.snd).count 0 = turnsOf 2 3 0 := by
  obtain ⟨p, hp, htest⟩ := (ioThreadPool 2 (Fin 3)).exists_of_exec
    (List.flatten
      [[.call 0, .call 1, .call 2, .run 0, .run 1, .run 2, .run 2], List.replicate 4 (.run 2),
        List.replicate 5 (.run 0), List.replicate 5 (.run 1)])
    (fun p => decide
      (p.returned = [(2, 0), (0, 1), (1, 0)] ∧ p.calls.length = 3 ∧ ∀ th, p.caller th = .idle))
    rfl (by decide +kernel)
  obtain ⟨hreturned, hcalls, hidle⟩ := of_decide_eq_true htest
  have hfair := ((fair_dispatch (by decide) hp).2.2.2 hidle).1 0
  rw [hcalls] at hfair
  exact ⟨p, hreturned, hfair⟩

/-- A call of the main thread of the server is a call of the pool. -/
theorem server_getThread {m : ℕ} {s : State n m} {f : Fd} {sk : SockId} {th : θ}
    (hidle : p.caller th = .idle) (hfree : p.mutex = none) (hnext : p.nextThread = s.nextThread)
    (hlt : s.nextThread < n) :
    ∃ p', (ioThreadPool n θ).exec p (.call th :: List.replicate 6 (.run th)) = some p' ∧
      p'.nextThread = (s.getThread f sk).nextThread ∧
      ∃ t, (s.getThread f sk).main = .create t f sk ∧ p'.returned = p.returned ++ [(th, t)] := by
  let t : Fin n := ⟨s.nextThread, hlt⟩
  let p' : IoThreadPool n θ :=
    { p with
      nextThread := (p.nextThread + 1) % n
      calls := p.calls ++ [th]
      chosen := p.chosen ++ [(th, t)]
      returned := p.returned ++ [(th, t)] }
  refine ⟨p', ?_, ?_, t, ?_, rfl⟩
  · have hn : n ≠ 0 := Nat.ne_zero_of_lt hlt
    have hsame : Function.update p.caller th .idle = p.caller :=
      by rw [← hidle, Function.update_eq_self]
    simp [TransitionSystem.exec, ioThreadPool, IoThreadPool.step, IoThreadPool.getThreadStep, hidle,
      hfree, hn, hnext, hlt, p', t, IoThreadPool.setCaller, hsame, List.replicate]
  · simp [State.getThread, hlt, p', hnext]
  · simp [State.getThread, hlt, t]

end results

end DeepInIo.AdvancedServer
