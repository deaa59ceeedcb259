import DeepInIo.Foundation.ThreadSum
import DeepInIo.Foundation.Transition

/-!
# Progress by a measure

A measure that every busy step lowers and no other step raises bounds the number of busy steps of a
run (`Trace.busy_le`); when every step is busy it bounds the length of the run (`Trace.length_le`),
and every state leads to one in which the system is stuck (`exists_stuck`).  In an infinite run that
does not neglect the busy steps the goal is reached if a busy step is enabled as long as it is not
(`exists_of_fair`).  A step that is waited for is taken if until then busy steps stay enabled, even
if the run is only weakly fair (`exists_awaited`).  A finite run, after which nothing has to be
done, is the beginning of a fair run (`exists_fair_run`, `weakFair_of_quiet`).  Two quantities whose
difference every step changes by a known amount are compared over whole runs by `Trace.balance`.
-/

namespace DeepInIo

namespace TransitionSystem

variable {σ α : Type*} (S : TransitionSystem σ α) {ok : σ → α → Prop} {I : σ → Prop} {μ : σ → ℕ}

/-- No allowed step is enabled. -/
def Stuck (ok : σ → α → Prop) (s : σ) : Prop :=
  ∀ a, ok s a → S.step s a = none

/-- The number of busy steps of a run. -/
def busySteps (busy : σ → α → Bool) (tr : List (σ × α)) : ℕ :=
  tr.countP fun p => busy p.1 p.2

variable {S}

/-- Allowed steps keep the invariant, do not raise the measure, and lower it when they are busy. -/
def Paid (S : TransitionSystem σ α) (ok : σ → α → Prop) (busy : σ → α → Bool) (I : σ → Prop)
    (μ : σ → ℕ) : Prop :=
  ∀ s a s', I s → ok s a → S.step s a = some s' → I s' ∧ μ s' + (busy s a).toNat ≤ μ s

/-- The measure pays for the busy steps of a run. -/
theorem Trace.busy_le {busy : σ → α → Bool} (hpaid : S.Paid ok busy I μ) {s s' : σ}
    {tr : List (σ × α)} (hi : I s) (h : S.Trace ok s tr s') :
    I s' ∧ busySteps busy tr + μ s' ≤ μ s := by
  induction h with
  | nil => exact ⟨hi, Nat.le_of_eq (Nat.zero_add _)⟩
  | @snoc tr s₁ s₂ a _ hok hs ih =>
    obtain ⟨hi₁, hle⟩ := ih
    obtain ⟨hi₂, hstep⟩ := hpaid s₁ a s₂ hi₁ hok hs
    refine ⟨hi₂, ?_⟩
    have hcount : busySteps busy (tr ++ [(s₁, a)]) = busySteps busy tr + (busy s₁ a).toNat := by
      rw [busySteps, List.countP_append, List.countP_singleton, busySteps]
      cases busy s₁ a <;> rfl
    omega

/-- A run is no longer than the measure of its first state when every step lowers the measure. -/
theorem Trace.length_le (hpaid : S.Paid ok (fun _ _ => true) I μ) {s s' : σ} {tr : List (σ × α)}
    (hi : I s) (h : S.Trace ok s tr s') : I s' ∧ tr.length + μ s' ≤ μ s := by
  have hbusy := Trace.busy_le hpaid hi h
  rwa [busySteps, List.countP_true] at hbusy

/-- When every step lowers the measure, a run can be continued until the system is stuck. -/
theorem exists_stuck (hpaid : S.Paid ok (fun _ _ => true) I μ) {s : σ} (hi : I s) :
    ∃ tr s', S.Trace ok s tr s' ∧ S.Stuck ok s' := by
  -- a longest run, by induction on what is left of the measure
  suffices h : ∀ n s₁ tr, S.Trace ok s tr s₁ → I s₁ → μ s₁ = n → ∃ tr s', S.Trace ok s tr s' ∧
    S.Stuck ok s' from h _ s [] .nil hi rfl
  intro n
  induction n using Nat.strongRecOn with
  | ind n ih =>
    intro s₁ tr htr hi₁ hn
    by_cases hstuck : S.Stuck ok s₁
    · exact ⟨tr, s₁, htr, hstuck⟩
    · unfold Stuck at hstuck
      push Not at hstuck
      obtain ⟨a, hok, hstep⟩ := hstuck
      obtain ⟨s₂, hs₂⟩ := Option.ne_none_iff_exists'.mp hstep
      obtain ⟨hi₂, hlt⟩ := hpaid s₁ a s₂ hi₁ hok hs₂
      have hless : μ s₂ < n := by
        rw [← hn]
        exact hlt
      exact ih _ hless s₂ _ (htr.snoc hok hs₂) hi₂ rfl

variable (S)

/-- An infinite run: the states and the actions between them. -/
def Run (ok : σ → α → Prop) (st : ℕ → σ) (act : ℕ → α) : Prop :=
  ∀ i, ok (st i) (act i) ∧ S.step (st i) (act i) = some (st (i + 1))

/-- When a busy step is enabled, some busy step is taken later on. -/
def Fair (busy : σ → α → Bool) (st : ℕ → σ) (act : ℕ → α) : Prop :=
  ∀ i, (∃ a, busy (st i) a = true ∧ (S.step (st i) a).isSome = true) →
    ∃ j, i ≤ j ∧ busy (st j) (act j) = true

/-- When a busy step stays enabled from some time on, some busy step is taken later on. -/
def WeakFair (busy : σ → α → Bool) (st : ℕ → σ) (act : ℕ → α) : Prop :=
  ∀ i, (∀ j, i ≤ j → ∃ a, busy (st j) a = true ∧ (S.step (st j) a).isSome = true) →
    ∃ j, i ≤ j ∧ busy (st j) (act j) = true

variable {S}

/-- A run from a later state on. -/
theorem Run.drop {st : ℕ → σ} {act : ℕ → α} (h : S.Run ok st act) (k : ℕ) :
    S.Run ok (fun i => st (k + i)) fun i => act (k + i) :=
  fun i => h (k + i)

theorem Fair.drop {busy : σ → α → Bool} {st : ℕ → σ} {act : ℕ → α} (h : S.Fair busy st act)
    (k : ℕ) :
    S.Fair busy (fun i => st (k + i)) fun i => act (k + i) := by
  intro i henabled
  obtain ⟨j, hij, hbusy⟩ := h (k + i) henabled
  obtain ⟨d, rfl⟩ := Nat.exists_eq_add_of_le hij
  refine ⟨i + d, Nat.le_add_right .., ?_⟩
  rwa [Nat.add_assoc] at hbusy

/-- A predicate that every step keeps holds along a run. -/
theorem Run.forall {st : ℕ → σ} {act : ℕ → α} (h : S.Run ok st act)
    (hstep : ∀ s a s', I s → S.step s a = some s' → I s') (hi : I (st 0)) (i : ℕ) : I (st i) := by
  induction i with
  | zero => exact hi
  | succ i ih => exact hstep _ _ _ ih (h i).2

/-- The measure of an infinite run does not rise. -/
theorem Run.measure_le {busy : σ → α → Bool} (hpaid : S.Paid ok busy I μ) {st : ℕ → σ} {act : ℕ → α}
    (h : S.Run ok st act) {i j : ℕ} (hi : I (st i)) (hij : i ≤ j) :
    I (st j) ∧ μ (st j) ≤ μ (st i) := by
  induction hij with
  | refl => exact ⟨hi, Nat.le_refl _⟩
  | @step j _ ih =>
    obtain ⟨hj, hle⟩ := ih
    obtain ⟨hok, hs⟩ := h j
    obtain ⟨hj', hstep⟩ := hpaid _ _ _ hj hok hs
    exact ⟨hj', Nat.le_trans (Nat.le_of_add_right_le hstep) hle⟩

/-- A fair run reaches the goal if a busy step is enabled as long as it has not. -/
theorem exists_of_fair {busy : σ → α → Bool} (hpaid : S.Paid ok busy I μ) {G : σ → Prop}
    (hprogress : ∀ s, I s → ¬G s → ∃ a, busy s a = true ∧ (S.step s a).isSome = true) {st : ℕ → σ}
    {act : ℕ → α} (h : S.Run ok st act) (hfair : S.Fair busy st act) {i : ℕ} (hi : I (st i)) :
    ∃ k, G (st k) := by
  -- by induction on the measure: the next busy step lowers it
  induction hn : μ (st i) using Nat.strongRecOn generalizing i with
  | ind N ih =>
    by_cases hgoal : G (st i)
    · exact ⟨i, hgoal⟩
    · obtain ⟨j, hij, hbusy⟩ := hfair i (hprogress _ hi hgoal)
      obtain ⟨hj, hle⟩ := Run.measure_le hpaid h hi hij
      obtain ⟨hok, hs⟩ := h j
      obtain ⟨hnext, hlt⟩ := hpaid _ _ _ hj hok hs
      rw [hbusy, Bool.toNat_true] at hlt
      exact ih _ (by omega) hnext rfl

/-- Steps that are not awaited keep the invariant, do not raise the measure, and lower it when they
are busy. -/
def PaidUntil (S : TransitionSystem σ α) (ok : σ → α → Prop) (awaited : σ → α → Prop)
    (busy : σ → α → Bool) (I : σ → Prop) (μ : σ → ℕ) : Prop :=
  ∀ s a s', I s → ok s a → S.step s a = some s' → ¬awaited s a → I s' ∧
    μ s' + (busy s a).toNat ≤ μ s

/-- Until the awaited step is taken, the invariant holds and the measure does not rise. -/
theorem Run.until_le {awaited : σ → α → Prop} {busy : σ → α → Bool} {st : ℕ → σ} {act : ℕ → α}
    (h : S.Run ok st act) (hpaid : S.PaidUntil ok awaited busy I μ) {i j : ℕ} (hi : I (st i))
    (hij : i ≤ j) (hno : ∀ l, i ≤ l → l < j → ¬awaited (st l) (act l)) :
    I (st j) ∧ μ (st j) ≤ μ (st i) := by
  induction hij with
  | refl => exact ⟨hi, Nat.le_refl _⟩
  | @step j hij ih =>
    obtain ⟨hj, hle⟩ := ih fun l hl hlt => hno l hl (Nat.lt_succ_of_lt hlt)
    obtain ⟨hok, hs⟩ := h j
    obtain ⟨hj', hstep⟩ := hpaid _ _ _ hj hok hs (hno j hij (Nat.lt_succ_self j))
    exact ⟨hj', Nat.le_trans (Nat.le_of_add_right_le hstep) hle⟩

/-- A weakly fair run does not go on without the awaited step as long as busy steps stay enabled. -/
theorem Run.not_forever {awaited : σ → α → Prop} {busy : σ → α → Bool}
    (hpaid : S.PaidUntil ok awaited busy I μ)
    (hprogress : ∀ s, I s → ∃ a, busy s a = true ∧ (S.step s a).isSome = true) {st : ℕ → σ}
    {act : ℕ → α} (h : S.Run ok st act) (hfair : S.WeakFair busy st act) {i : ℕ} (hi : I (st i)) :
    ¬∀ l, i ≤ l → ¬awaited (st l) (act l) := by
  intro hno
  -- by induction on the measure: the next busy step lowers it
  induction hn : μ (st i) using Nat.strongRecOn generalizing i with
  | ind N ih =>
    have hkept : ∀ {j}, i ≤ j → I (st j) ∧ μ (st j) ≤ μ (st i) :=
      fun hij => h.until_le hpaid hi hij fun l hl _ => hno l hl
    obtain ⟨j, hij, hbusy⟩ := hfair i fun j hij => hprogress _ (hkept hij).1
    obtain ⟨hj, hle⟩ := hkept hij
    obtain ⟨hok, hs⟩ := h j
    obtain ⟨hnext, hlt⟩ := hpaid _ _ _ hj hok hs (hno j hij)
    rw [hbusy, Bool.toNat_true] at hlt
    refine ih _ (by omega) hnext (fun l hl => hno l ?_) rfl
    exact Nat.le_trans (Nat.le_succ_of_le hij) hl

/-- In a weakly fair run the awaited step is taken if until then busy steps stay enabled. -/
theorem exists_awaited {awaited : σ → α → Prop} {busy : σ → α → Bool}
    (hpaid : S.PaidUntil ok awaited busy I μ)
    (hprogress : ∀ s, I s → ∃ a, busy s a = true ∧ (S.step s a).isSome = true) {st : ℕ → σ}
    {act : ℕ → α} (h : S.Run ok st act) (hfair : S.WeakFair busy st act) {i : ℕ} (hi : I (st i)) :
    ∃ j, i ≤ j ∧ awaited (st j) (act j) ∧ I (st j) ∧
      ∀ l, i ≤ l → l < j → ¬awaited (st l) (act l) := by
  classical
  have hex : ∃ j, i ≤ j ∧ awaited (st j) (act j) := by
    have hnot := Run.not_forever hpaid hprogress h hfair hi
    push Not at hnot
    exact hnot
  obtain ⟨hij, hawaited⟩ := Nat.find_spec hex
  have hbefore : ∀ l, i ≤ l → l < Nat.find hex → ¬awaited (st l) (act l) :=
    fun l hl hlt hnow => Nat.find_min hex hlt ⟨hl, hnow⟩
  exact ⟨_, hij, hawaited, (h.until_le hpaid hi hij hbefore).1, hbefore⟩

/-- A run that only idles. -/
theorem exists_idle_run {J : σ → Prop} {a₀ : α}
    (hidle : ∀ s, J s → ok s a₀ ∧ ∃ s', J s' ∧ S.step s a₀ = some s') {s : σ} (hs : J s) : ∃ st :
    ℕ → σ, st 0 = s ∧ (∀ i, J (st i)) ∧ S.Run ok st fun _ => a₀ := by
  choose hok next hJ hnext using hidle
  let st : ℕ → { s : σ // J s } :=
    fun i => Nat.rec ⟨s, hs⟩ (fun _ p => ⟨next p.1 p.2, hJ p.1 p.2⟩) i
  exact ⟨fun i => (st i).1, rfl, fun i => (st i).2,
    fun i => ⟨hok _ (st i).2, hnext (st i).1 (st i).2⟩⟩

/-- A finite run, after which the system may idle, is the beginning of an infinite one. -/
theorem exists_run_of_exec {ok' : σ → α → Prop} [∀ s a, Decidable (ok' s a)] {J : σ → Prop} {a₀ : α}
    (himp : ∀ s a, ok' s a → ok s a)
    (hidle : ∀ s, J s → ok s a₀ ∧ ∃ s', J s' ∧ S.step s a₀ = some s') {s s' : σ} {as : List α}
    (h : S.execUnder ok' s as = some s') (hs' : J s') :
    ∃ st act, st 0 = s ∧ S.Run ok st act ∧ (∀ i, i < as.length → ok' (st i) (act i)) ∧
      ∀ i, as.length ≤ i → J (st i) ∧ act i = a₀ := by
  induction as generalizing s with
  | nil =>
    cases h
    obtain ⟨st, hst, hJ, hrun⟩ := exists_idle_run hidle hs'
    exact ⟨st, fun _ => a₀, hst, hrun, fun i hi => absurd hi (Nat.not_lt_zero i),
      fun i _ => ⟨hJ i, rfl⟩⟩
  | cons a as ih =>
    rw [execUnder] at h
    split at h
    · next hok =>
      obtain ⟨s₁, hs₁, h⟩ := Option.bind_eq_some_iff.mp h
      obtain ⟨st, act, hst, hrun, hbefore, hafter⟩ := ih h
      refine ⟨fun i => i.casesOn s st, fun i => i.casesOn a act, rfl, ?_, ?_, ?_⟩
      · intro i
        cases i with
        | zero =>
          refine ⟨himp s a hok, ?_⟩
          change S.step s a = some (st 0)
          rw [hs₁, hst]
        | succ i => exact hrun i
      · intro i hi
        cases i with
        | zero => exact hok
        | succ i => exact hbefore i (Nat.lt_of_succ_lt_succ hi)
      · intro i hi
        cases i with
        | zero => cases hi
        | succ i => exact hafter i (Nat.le_of_succ_le_succ hi)
    · cases h

/-- A finite run of busy steps, after which no busy step is enabled, is the beginning of a fair
run. -/
theorem exists_fair_run {busy : σ → α → Bool} [∀ s a, Decidable (ok s a)] {J : σ → Prop} {a₀ : α}
    (hidle : ∀ s, J s → ok s a₀ ∧ ∃ s', J s' ∧ S.step s a₀ = some s')
    (hquiet : ∀ s a, J s → busy s a = true → S.step s a = none) {s s' : σ} {as : List α}
    (h : S.execUnder (fun s a => ok s a ∧ busy s a = true) s as = some s') (hs' : J s') :
    ∃ st act, st 0 = s ∧ S.Run ok st act ∧ S.Fair busy st act ∧ ∀ i, as.length ≤ i →
      act i = a₀ := by
  obtain ⟨st, act, hst, hrun, hbefore, hafter⟩ :=
    exists_run_of_exec (fun _ _ hok => hok.1) hidle h hs'
  refine ⟨st, act, hst, hrun, fun i henabled => ?_, fun i hi => (hafter i hi).2⟩
  by_cases hi : i < as.length
  · exact ⟨i, Nat.le_refl i, (hbefore i hi).2⟩
  · obtain ⟨a, hbusy, hsome⟩ := henabled
    rw [hquiet _ a (hafter i (Nat.le_of_not_lt hi)).1 hbusy] at hsome
    cases hsome

/-- A run in which no busy step is enabled from some time on is weakly fair. -/
theorem weakFair_of_quiet {busy : σ → α → Bool} {J : σ → Prop}
    (hquiet : ∀ s a, J s → busy s a = true → S.step s a = none) {st : ℕ → σ} {act : ℕ → α} {N : ℕ}
    (h : ∀ i, N ≤ i → J (st i)) : S.WeakFair busy st act := by
  intro i henabled
  obtain ⟨a, hbusy, hsome⟩ := henabled (max i N) (Nat.le_max_left i N)
  rw [hquiet _ a (h _ (Nat.le_max_right i N)) hbusy] at hsome
  cases hsome

end TransitionSystem

end DeepInIo
