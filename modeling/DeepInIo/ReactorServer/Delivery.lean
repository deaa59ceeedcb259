import DeepInIo.ReactorServer.Descriptors
import Mathlib.Data.List.TakeWhile

/-!
# What reaches the task table

`io_thread_loop` ends the bytes of a `read` with a NUL and gives them to `global_queue_add_task` as
a C string.  A chunk arrives whole exactly when it holds no NUL and a slot is free
(`addTask_storedFor_eq_iff`); nobody looks at the result of the call.  In the runs in which this is
so for every chunk of a number, the tasks stored for it hold the bytes read from it
(`stored_eq_read`).
-/

namespace DeepInIo.ReactorServer

/-- `strncpy` copies the whole string if it has no NUL and fits. -/
theorem strncpy_eq_self_iff {data : List UInt8} {size : ℕ} (hlen : data.length ≤ size) :
    strncpy data size = data ↔ 0 ∉ data := by
  have hle : (cString data).length ≤ size :=
    le_trans (List.IsPrefix.length_le (List.takeWhile_prefix _)) hlen
  rw [strncpy, List.take_of_length_le hle, cString, List.takeWhile_eq_self_iff]
  refine ⟨fun h hmem => ?_, fun h b hb => ?_⟩
  · simpa using h 0 hmem
  · rw [bne_iff_ne]
    rintro rfl
    exact h hb

namespace GlobalQueue

variable (q : GlobalQueue)

/-- The data of the tasks stored for a descriptor, one after the other. -/
def storedFor (fd : ℤ) : List UInt8 :=
  ((q.stored.filter fun p => p.1 = fd).map Prod.snd).flatten

/-- A task that is stored adds its data to those of its descriptor. -/
theorem store_storedFor (i : ℕ) (fd fd' : ℤ) (data : List UInt8) :
    (q.store i fd data).storedFor fd' =
      q.storedFor fd' ++ if fd = fd' then strncpy data (maxDataSize - 1) else [] := by
  rw [storedFor, store_stored, List.filter_append, List.map_append, List.flatten_append, storedFor]
  congr 1
  by_cases hfd : fd = fd' <;> simp [hfd]

/-- A task that is stored for another descriptor changes nothing. -/
theorem addTask_storedFor_of_ne {fd fd' : ℤ} (hfd : fd ≠ fd') (data : List UInt8) :
    (q.globalQueueAddTask fd data).1.storedFor fd' = q.storedFor fd' := by
  unfold globalQueueAddTask
  split
  · rw [store_storedFor, if_neg hfd, List.append_nil]
  · rfl

/-- A chunk that was read is stored whole exactly when it holds no NUL and a slot is free. -/
theorem addTask_storedFor_eq_iff {data : List UInt8} (hne : data ≠ [])
    (hlen : data.length ≤ maxDataSize - 1) (fd : ℤ) :
    (q.globalQueueAddTask fd data).1.storedFor fd = q.storedFor fd ++ data ↔
      0 ∉ data ∧ ∃ i < maxTasks, (q.tasks i).valid = false := by
  rw [← freeSlot_isSome_iff]
  unfold globalQueueAddTask
  split
  · next i hi =>
    rw [store_storedFor, if_pos rfl, List.append_cancel_left_eq, strncpy_eq_self_iff hlen, hi]
    simp
  · next hi => simp [hi, hne]

/-- Handing out a task does not touch what was stored. -/
theorem getTask_storedFor (fd : ℤ) : q.globalQueueGetTask.1.storedFor fd = q.storedFor fd := by
  unfold globalQueueGetTask
  split <;> rfl

end GlobalQueue

open State

variable {n : ℕ}

/-- The chunk that an IO thread hands to `global_queue_add_task`. -/
def IoPc.chunk? : IoPc → Option (Event × List UInt8)
  | .rdAdd e buffer => some (e, buffer)
  | _ => none

/-- A chunk of the number `f` that the step stores holds no NUL and finds a free slot. -/
def State.Keeps (f : Fd) (s : State n) : Action n → Prop
  | .io t _ => ∀ p ∈ (s.io t).pc.chunk?, p.1.fd = f →
      0 ∉ p.2 ∧ ∃ i < maxTasks, (s.queue.tasks i).valid = false
  | _ => True

instance (f : Fd) (s : State n) (a : Action n) : Decidable (s.Keeps f a) := by
  cases a with
  | io t r => exact inferInstanceAs (Decidable (∀ p ∈ (s.io t).pc.chunk?, _))
  | main r => exact inferInstanceAs (Decidable True)
  | worker => exact inferInstanceAs (Decidable True)
  | env e => exact inferInstanceAs (Decidable True)

/-- The bytes that were read from a number are those of its tasks, and those that a thread has just
read. -/
structure Delivered (f : Fd) (s : State n) : Prop where
  chunk : ∀ t e buffer, (s.io t).pc = .rdAdd e buffer → buffer ≠ [] ∧ buffer.length ≤ bufSize - 1
  inHand : ∀ t e buffer, (s.io t).pc = .rdAdd e buffer → e.fd = f →
    s.queue.storedFor f ++ buffer = s.readFrom f
  stored : (∀ t e buffer, (s.io t).pc = .rdAdd e buffer → e.fd ≠ f) →
    s.queue.storedFor f = s.readFrom f

section delivery

variable {s s' : State n} {t : Fin n} {f : Fd}

/-- Nothing changes for the chunks when no thread gets to or from `global_queue_add_task`. -/
theorem Delivered.of_same (hi : Delivered f s) (hqueue : s'.queue.storedFor f = s.queue.storedFor f)
    (hread : s'.readFrom f = s.readFrom f)
    (hpc : ∀ t e buffer, (s'.io t).pc = .rdAdd e buffer ↔ (s.io t).pc = .rdAdd e buffer) :
    Delivered f s' := by
  refine ⟨fun t e buffer h => hi.chunk t e buffer ((hpc t e buffer).mp h),
    fun t e buffer h he => ?_, fun h => ?_⟩
  · rw [hqueue, hread]
    exact hi.inHand t e buffer ((hpc t e buffer).mp h) he
  · rw [hqueue, hread]
    exact hi.stored fun t e buffer h' => h t e buffer ((hpc t e buffer).mpr h')

/-- The other threads stay where they are, and this one is not at `global_queue_add_task`. -/
theorem rdAdd_update_iff {th : IoThread} (hth : ∀ e buffer, th.pc ≠ .rdAdd e buffer)
    (hpc : ∀ e buffer, (s.io t).pc ≠ .rdAdd e buffer) (t' : Fin n) (e : Event)
    (buffer : List UInt8) :
    (Function.update s.io t th t').pc = .rdAdd e buffer ↔ (s.io t').pc = .rdAdd e buffer := by
  by_cases ht : t' = t
  · subst ht
    rw [Function.update_self]
    exact ⟨fun h => absurd h (hth e buffer), fun h => absurd h (hpc e buffer)⟩
  · rw [Function.update_of_ne ht]

/-- What `read` returns is a chunk of at most `sizeof(buffer) - 1` bytes. -/
theorem readBytes_chunk {k k' : Kernel n} {len : ℕ} {data : List UInt8}
    (h : k.readBytes f len = some (data, k')) : data ≠ [] ∧ data.length ≤ bufSize - 1 := by
  simp only [Kernel.readBytes] at h
  split at h
  · cases h
  · next sk _ =>
    split at h
    · next hc =>
      simp only [Bool.and_eq_true, decide_eq_true_eq] at hc
      obtain ⟨⟨hpos, hle⟩, hunread⟩ := hc
      cases h
      have hlen : ((k.socks sk).unread.take len).length = len := List.length_take_of_le hunread
      refine ⟨?_, by rw [hlen]; exact hle⟩
      rw [← List.length_pos_iff, hlen]
      exact hpos
    · cases h

/-- The IO thread `t` has read a chunk. -/
theorem Delivered.readData (hi : Delivered f s) (hd : Descriptors s) {e : Event} {len : ℕ}
    {data : List UInt8} {k : Kernel n} (hpc : (s.io t).pc = .rdRead e)
    (hk : s.kernel.readBytes e.fd len = some (data, k)) : Delivered f (s.readData t e data k) := by
  obtain ⟨hserved, -⟩ := (hd.io t).reading e (by rw [hpc]; rfl)
  -- no other thread has a chunk of this number
  have hother : ∀ t' e' buffer, (s.io t').pc = .rdAdd e' buffer → e'.fd ≠ e.fd := by
    intro t' e' buffer h hfd
    obtain ⟨hserved', -⟩ := (hd.io t').reading e' (by rw [h]; rfl)
    have ht := hserved'.unique (hfd ▸ hserved)
    rw [ht, hpc] at h
    cases h
  have hio : ∀ t' e' buffer, ((s.readData t e data k).io t').pc = .rdAdd e' buffer →
      (t' = t ∧ e' = e ∧ buffer = data) ∨ (s.io t').pc = .rdAdd e' buffer := by
    intro t' e' buffer h
    by_cases ht : t' = t
    · subst ht
      simp only [State.readData, Function.update_self, IoPc.rdAdd.injEq] at h
      exact .inl ⟨rfl, h.1.symm, h.2.symm⟩
    · simp only [State.readData, Function.update_of_ne ht] at h
      exact .inr h
  refine ⟨fun t' e' buffer h => ?_, fun t' e' buffer h he => ?_, fun h => ?_⟩
  · rcases hio t' e' buffer h with ⟨-, -, rfl⟩ | h
    · exact readBytes_chunk hk
    · exact hi.chunk t' e' buffer h
  · rcases hio t' e' buffer h with ⟨-, rfl, rfl⟩ | h
    · subst he
      change s.queue.storedFor _ ++ _ = Function.update s.readFrom _ _ _
      rw [Function.update_self, hi.stored hother]
    · have hfd := hother t' e' buffer h
      rw [he] at hfd
      change s.queue.storedFor _ ++ _ = Function.update s.readFrom _ _ _
      rw [Function.update_of_ne hfd]
      exact hi.inHand t' e' buffer h he
  · have hfd : e.fd ≠ f := h t e data (by simp [State.readData])
    change s.queue.storedFor _ = Function.update s.readFrom _ _ _
    rw [Function.update_of_ne hfd.symm]
    refine hi.stored fun t' e' buffer h' => h t' e' buffer ?_
    have ht : t' ≠ t := by
      rintro rfl
      rw [hpc] at h'
      cases h'
    simpa only [State.readData, Function.update_of_ne ht] using h'

/-- The IO thread `t` has stored its chunk. -/
theorem Delivered.store (hi : Delivered f s) (hd : Descriptors s) {e : Event} {buffer : List UInt8}
    (hpc : (s.io t).pc = .rdAdd e buffer)
    (hkeep : e.fd = f → 0 ∉ buffer ∧ ∃ i < maxTasks, (s.queue.tasks i).valid = false) :
    Delivered f
      ((s.setQueue (s.queue.globalQueueAddTask e.fd buffer).1).setIoPc t (.rdRead e)) := by
  obtain ⟨hserved, -⟩ := (hd.io t).reading e (by rw [hpc]; rfl)
  obtain ⟨hne, hlen⟩ := hi.chunk t e buffer hpc
  have hio : ∀ t' e' buffer', (((s.setQueue (s.queue.globalQueueAddTask e.fd buffer).1).setIoPc t
      (.rdRead e)).io t').pc = .rdAdd e' buffer' → t' ≠ t ∧ (s.io t').pc = .rdAdd e' buffer' := by
    intro t' e' buffer' h
    have ht : t' ≠ t := by
      rintro rfl
      simp at h
    exact ⟨ht, by simpa [Function.update_of_ne ht] using h⟩
  by_cases hfd : e.fd = f
  · subst hfd
    have hstored := (s.queue.addTask_storedFor_eq_iff hne hlen e.fd).mpr (hkeep rfl)
    rw [hi.inHand t e buffer hpc rfl] at hstored
    refine ⟨fun t' e' buffer' h => hi.chunk t' e' buffer' (hio t' e' buffer' h).2,
      fun t' e' buffer' h he => ?_, fun _ => hstored⟩
    obtain ⟨ht, h⟩ := hio t' e' buffer' h
    obtain ⟨hserved', -⟩ := (hd.io t').reading e' (by rw [h]; rfl)
    exact absurd (hserved'.unique (he ▸ hserved)) ht
  · have hfd' : (e.fd : ℤ) ≠ (f : ℤ) := fun h => hfd (Int.ofNat.inj h)
    have hstored := s.queue.addTask_storedFor_of_ne hfd' buffer
    refine ⟨fun t' e' buffer' h => hi.chunk t' e' buffer' (hio t' e' buffer' h).2,
      fun t' e' buffer' h he => ?_, fun h => ?_⟩
    · change (s.queue.globalQueueAddTask e.fd buffer).1.storedFor f ++ buffer' = s.readFrom f
      rw [hstored]
      exact hi.inHand t' e' buffer' (hio t' e' buffer' h).2 he
    · change (s.queue.globalQueueAddTask e.fd buffer).1.storedFor f = s.readFrom f
      rw [hstored]
      refine hi.stored fun t' e' buffer' h' => ?_
      by_cases ht : t' = t
      · subst ht
        rw [hpc] at h'
        cases h'
        exact hfd
      · exact h t' e' buffer' (by simpa [Function.update_of_ne ht] using h')

/-- An IO thread whose chunks of `f` are kept delivers what it reads. -/
theorem IoStep.delivered (h : IoStep s t s') (hi : Delivered f s) (hd : Descriptors s)
    (hkeep : ∀ p ∈ (s.io t).pc.chunk?, p.1.fd = f →
      0 ∉ p.2 ∧ ∃ i < maxTasks, (s.queue.tasks i).valid = false) :
    Delivered f s' := by
  cases h with
  | @move pc' hm =>
    refine hi.of_same rfl rfl (rdAdd_update_iff (fun e buffer => ?_) fun e buffer => ?_) <;>
    · generalize (s.io t).pc = pc at hm
      cases hm <;> exact nofun
  | collect hpc =>
    exact hi.of_same rfl rfl
      (rdAdd_update_iff (by rw [hpc]; exact nofun) (by rw [hpc]; exact nofun))
  | nextRead hpc | nextWrite hpc =>
    exact hi.of_same rfl rfl (rdAdd_update_iff nofun (by rw [hpc]; exact nofun))
  | readData hpc hk => exact hi.readData hd hpc hk
  | @store e buffer hpc =>
    rw [hpc] at hkeep
    exact hi.store hd hpc (hkeep (e, buffer) rfl)
  | close hpc | del hpc | remove hpc | wrote hpc | mod hpc | wrRemove hpc | wrClose hpc =>
    have hno : ∀ e buffer, (s.io t).pc ≠ .rdAdd e buffer := by
      rw [hpc]
      exact nofun
    exact hi.of_same rfl rfl (rdAdd_update_iff nofun hno)

/-- The main thread neither reads nor stores. -/
theorem MainStep.delivered (h : MainStep s s') (hi : Delivered f s) : Delivered f s' := by
  cases h <;> exact hi.of_same rfl rfl fun _ _ _ => Iff.rfl

/-- The chunks of `f` are delivered in every run in which they are kept. -/
theorem reachable_delivered (h : (server n).ReachableUnder (State.Keeps f) s) : Delivered f s := by
  refine h.invariant ?_ ?_
  · rintro _ ⟨sys, rfl⟩
    exact ⟨nofun, nofun, fun _ => rfl⟩
  · intro s a s' hreach hi hok hs
    cases a with
    | main r => exact (mainStep_spec hs).delivered hi
    | io t r => exact (ioStep_spec hs).delivered hi (reachable_descriptors hreach.reachable) hok
    | worker =>
      cases hs
      exact hi.of_same (s.queue.getTask_storedFor f) rfl fun _ _ _ => Iff.rfl
    | env e =>
      cases envStep_spec hs
      exact hi.of_same rfl rfl fun _ _ _ => Iff.rfl

/-- In every run in which each chunk of the number `f` holds no NUL and finds a free slot, whatever
the other connections and the worker do: the data of the tasks stored for `f`, one after the other,
are the bytes read from `f`, less those that a thread has just read and is about to store. -/
theorem stored_eq_read (h : (server n).ReachableUnder (State.Keeps f) s) :
    (∀ t e buffer, (s.io t).pc = .rdAdd e buffer → e.fd = f →
      s.queue.storedFor f ++ buffer = s.readFrom f) ∧
    ((∀ t e buffer, (s.io t).pc = .rdAdd e buffer → e.fd ≠ f) →
      s.queue.storedFor f = s.readFrom f) := by
  have hi := reachable_delivered h
  exact ⟨hi.inHand, hi.stored⟩

/-- Two chunks of one connection, between which the worker takes a task, and one of another with a
NUL. -/
theorem stored_eq_read_interleaved :
    ∃ s : State 4, (server 4).ReachableUnder (State.Keeps 10) s ∧ s.readFrom 10 = [72, 105, 33] ∧
      s.queue.storedFor 10 = s.readFrom 10 := by
  obtain ⟨s, hs, hp⟩ := (server 4).exists_of_execUnder (State.Keeps 10)
    (List.flatten [Action.connect 10, Action.connect 11,
      [.env (.data 10 [72, 105, 33]), .env (.data 11 [65, 0, 66])], Action.deliver 0 10,
      [.io 0 (.got 2)], Action.deliver 1 11, [.io 1 (.got 3), .io 1 .ok],
      [.io 0 .ok, .worker, .io 0 (.got 1), .io 0 .ok, .io 0 .again]])
    (fun s => decide (s.readFrom 10 = [72, 105, 33] ∧ ∀ t, (s.io t).pc.chunk? = none))
    ⟨fun _ => false, rfl⟩ (by decide +kernel)
  obtain ⟨hread, hnone⟩ := of_decide_eq_true hp
  refine ⟨s, hs, hread, (stored_eq_read hs).2 fun t e buffer hpc => ?_⟩
  have hchunk := hnone t
  rw [hpc] at hchunk
  cases hchunk

/-- What follows a NUL in a chunk is dropped. -/
theorem stored_ne_read :
    ∃ s : State 4, (server 4).Reachable s ∧ s.readFrom 10 = [65, 0, 66] ∧
      s.queue.storedFor 10 = [65] ∧ (s.io 0).pc = .wait := by
  obtain ⟨s, hs, hp⟩ := (server 4).exists_of_exec
    (List.flatten [Action.connect 10, [.env (.data 10 [65, 0, 66])], Action.deliver 0 10,
      [.io 0 (.got 3), .io 0 .ok, .io 0 .again, .io 0 .ok, .io 0 .ok]])
    (fun s => decide (s.readFrom 10 = [65, 0, 66] ∧ s.queue.storedFor 10 = [65] ∧
      (s.io 0).pc = .wait))
    ⟨fun _ => false, rfl⟩ (by decide +kernel)
  exact ⟨s, hs, of_decide_eq_true hp⟩

end delivery

end DeepInIo.ReactorServer
