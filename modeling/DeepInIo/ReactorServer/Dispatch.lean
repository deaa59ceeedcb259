import DeepInIo.ReactorServer.Server

/-!
# The choice of an IO thread by `main`

`main` counts the accepted connections in `current`, an `int` that wraps around, and gives each to
the thread `current++ % MAX_IO_THREADS`.  The remainder of a negative number is not positive, so
that the targets are indices of `io_threads`, one after the other, only as long as at most
`2 ^ 31 + 1` connections were accepted (`dispatched_in_turn_iff`).  The steps of the main thread of
the server choose the same targets (`server_dispatch`).
-/

namespace DeepInIo.ReactorServer

/-- `MAX_IO_THREADS` -/
def maxIoThreads : ℕ := 4

/-- `current % MAX_IO_THREADS`: the remainder has the sign of `current`. -/
def dispatchIndex (current : BitVec 32) : ℤ :=
  current.toInt.tmod maxIoThreads

/-- The loop of `main`. -/
structure Dispatcher where
  current : BitVec 32
  /-- Specification: the values of `target`, in the order of the connections. -/
  targets : List ℤ

/-- What `accept` returns. -/
inductive AcceptResult
  | accepted
  /-- `EAGAIN` or `EWOULDBLOCK` -/
  | again
  /-- any other error -/
  | failed
  deriving DecidableEq

/-- `main` after it has started the threads. -/
def dispatcher : TransitionSystem Dispatcher AcceptResult where
  init s := s = ⟨0, []⟩
  step s
    | .accepted => some ⟨s.current + 1, s.targets ++ [dispatchIndex s.current]⟩
    | .again | .failed => some s

/-! ### The remainder -/

/-- Below `2 ^ 31` the remainder counts up. -/
theorem dispatchIndex_of_lt {current : BitVec 32} (h : current.toNat < 2 ^ 31) :
    dispatchIndex current = (current.toNat % 4 : ℕ) := by
  have hint : current.toInt = current.toNat := by
    rw [BitVec.toInt_eq_toNat_cond, if_pos (by omega)]
  rw [dispatchIndex, hint, Int.tmod_eq_emod_of_nonneg (Int.natCast_nonneg _)]
  rfl

/-- From `2 ^ 31` on it is that of a negative number. -/
theorem dispatchIndex_of_le {current : BitVec 32} (h : 2 ^ 31 ≤ current.toNat) :
    dispatchIndex current = -((2 ^ 32 - current.toNat) % 4 : ℕ) := by
  have hlt : current.toNat < 2 ^ 32 := current.isLt
  have hint : current.toInt = -((2 ^ 32 - current.toNat : ℕ) : ℤ) := by
    rw [BitVec.toInt_eq_toNat_cond, if_neg (by omega), Int.ofNat_sub hlt.le, Int.neg_sub]
  rw [dispatchIndex, hint, Int.neg_tmod, Int.tmod_eq_emod_of_nonneg (Int.natCast_nonneg _)]
  rfl

/-- The target is an index of the array exactly before the wrap-around, or at a multiple of the
number of threads. -/
theorem dispatchIndex_valid_iff (current : BitVec 32) :
    (0 ≤ dispatchIndex current ∧ dispatchIndex current < maxIoThreads) ↔
      current.toNat < 2 ^ 31 ∨ current.toNat % 4 = 0 := by
  have hlt : current.toNat < 2 ^ 32 := current.isLt
  unfold maxIoThreads
  by_cases h : current.toNat < 2 ^ 31
  · rw [dispatchIndex_of_lt h]
    omega
  · rw [dispatchIndex_of_le (Nat.le_of_not_lt h)]
    omega

/-! ### Runs -/

namespace Dispatcher

variable {s : Dispatcher}

/-- The target of a connection depends on how many were accepted before. -/
theorem targets_eq (h : dispatcher.Reachable s) :
    s.current = BitVec.ofNat 32 s.targets.length ∧
      s.targets = (List.range s.targets.length).map fun i => dispatchIndex (BitVec.ofNat 32 i) := by
  refine h.invariant (I := fun s => s.current = BitVec.ofNat 32 s.targets.length ∧
    s.targets = (List.range s.targets.length).map fun i => dispatchIndex (BitVec.ofNat 32 i)) ?_ ?_
  · rintro _ rfl
    exact ⟨rfl, rfl⟩
  · rintro s a s' - ⟨hcurrent, htargets⟩ hs
    cases a with
    | accepted =>
      cases hs
      rw [List.length_append, List.length_singleton, List.range_succ, List.map_append,
        List.map_singleton, ← htargets, ← hcurrent]
      refine ⟨?_, rfl⟩
      rw [BitVec.ofNat_add, ← hcurrent]
      rfl
    | again | failed =>
      cases hs
      exact ⟨hcurrent, htargets⟩

/-- Any number of connections may be accepted. -/
theorem exists_reachable (k : ℕ) : ∃ s, dispatcher.Reachable s ∧ s.targets.length = k := by
  induction k with
  | zero => exact ⟨⟨0, []⟩, .init rfl, rfl⟩
  | succ k ih =>
    obtain ⟨s, hs, hlen⟩ := ih
    refine ⟨⟨s.current + 1, s.targets ++ [dispatchIndex s.current]⟩,
      hs.next (a := .accepted) rfl, ?_⟩
    rw [List.length_append, List.length_singleton, hlen]

/-- The target of the connection `i`. -/
theorem getElem_targets (h : dispatcher.Reachable s) {i : ℕ} (hi : i < s.targets.length) :
    s.targets[i] = dispatchIndex (BitVec.ofNat 32 i) := by
  have heq := List.getElem_of_eq (targets_eq h).2 hi
  rwa [List.getElem_map, List.getElem_range] at heq

end Dispatcher

/-- All targets of a run are indices of `io_threads`, each the cyclic successor of the one before,
exactly if at most `2 ^ 31 + 1` connections were accepted. -/
theorem dispatched_in_turn_iff {s : Dispatcher} (h : dispatcher.Reachable s) :
    ((∀ target ∈ s.targets, 0 ≤ target ∧ target < maxIoThreads) ∧
        s.targets.IsChain fun target target' : ℤ => target' = (target + 1) % maxIoThreads) ↔
      s.targets.length ≤ 2 ^ 31 + 1 := by
  constructor
  · rintro ⟨hvalid, -⟩
    by_contra hlen
    have hi : 2 ^ 31 + 1 < s.targets.length := Nat.lt_of_not_le hlen
    have hbad := (hvalid _ (List.getElem_mem hi)).1
    rw [Dispatcher.getElem_targets h hi] at hbad
    exact absurd hbad (by decide)
  · intro hlen
    constructor
    · intro target htarget
      obtain ⟨i, hi, rfl⟩ := List.getElem_of_mem htarget
      rw [Dispatcher.getElem_targets h hi, dispatchIndex_valid_iff, BitVec.toNat_ofNat]
      omega
    · rw [List.isChain_iff_getElem]
      intro i hi
      rw [Dispatcher.getElem_targets h, Dispatcher.getElem_targets h]
      have hnat : (BitVec.ofNat 32 i).toNat = i := by
        rw [BitVec.toNat_ofNat, Nat.mod_eq_of_lt (by omega)]
      have hnat' : (BitVec.ofNat 32 (i + 1)).toNat = i + 1 := by
        rw [BitVec.toNat_ofNat, Nat.mod_eq_of_lt (by omega)]
      rw [dispatchIndex_of_lt (hnat.trans_lt (by omega)), hnat]
      unfold maxIoThreads
      by_cases hlast : i + 1 < 2 ^ 31
      · rw [dispatchIndex_of_lt (hnat'.trans_lt hlast), hnat']
        omega
      · -- the counter becomes negative, and is a multiple of the number of threads
        rw [dispatchIndex_of_le (hnat'.symm ▸ Nat.le_of_not_lt hlast), hnat']
        omega

/-- The last connection before the counter is negative. -/
theorem dispatched_in_turn_last :
    ∃ s : Dispatcher, s.targets.length = 2 ^ 31 ∧ ∀ target ∈ s.targets, 0 ≤ target ∧
      target < maxIoThreads := by
  obtain ⟨s, hs, hlen⟩ := Dispatcher.exists_reachable (2 ^ 31)
  exact ⟨s, hlen, ((dispatched_in_turn_iff hs).mpr (by omega)).1⟩

/-- After `2 ^ 31 + 1` connections the next one goes to the thread with the index `-3`. -/
theorem dispatched_out_of_range :
    ∃ s, dispatcher.Reachable s ∧ s.targets.length = 2 ^ 31 + 2 ∧
      s.targets[2 ^ 31 + 1]? = some (-3) := by
  obtain ⟨s, hs, hlen⟩ := Dispatcher.exists_reachable (2 ^ 31 + 2)
  have hi : 2 ^ 31 + 1 < s.targets.length := by omega
  refine ⟨s, hs, hlen, ?_⟩
  rw [List.getElem?_eq_getElem hi, Dispatcher.getElem_targets hs hi]
  decide

/-! ### The server -/

/-- The main thread of the server gives a connection to the target, if there is such a thread. -/
theorem server_dispatch {s s' : State maxIoThreads} {f : Fd} {sk : SockId} {r : MainResult}
    (hpc : s.main = .dispatch f sk) (hs : s.mainStep r = some s') :
    ∃ t : Fin maxIoThreads, s'.main = .add t f sk ∧ (t : ℤ) = dispatchIndex s.current ∧
      s'.current = s.current + 1 := by
  simp only [State.mainStep, hpc, Option.map_eq_some_iff] at hs
  obtain ⟨t, ht, rfl⟩ := hs
  refine ⟨t, rfl, ?_, rfl⟩
  unfold dispatchTarget at ht
  simp only at ht
  split at ht
  · next h =>
    cases ht
    exact Int.toNat_of_nonneg h.1
  · cases ht

end DeepInIo.ReactorServer
