import DeepInIo.Foundation.Transition

/-!
# Systems with a record

`S.recording g₀ record` is the system `S` with a record beside its state, which every step brings up
to date.  The record never decides what a step may do: every run of `S` is a run of the recording
system (`ReachableUnder.exists_record`), and every run of the recording system is one of `S`
(`ReachableUnder.of_recording`).  So the record serves to say what has happened so far.
-/

namespace DeepInIo

namespace TransitionSystem

variable {σ α γ : Type*} (S : TransitionSystem σ α) (g₀ : γ) (record : γ → σ → α → γ)

/-- The system `S` with a record, which starts as `g₀`; `record` is given the state before the
step. -/
def recording : TransitionSystem (σ × γ) α where
  init p := S.init p.1 ∧ p.2 = g₀
  step p a := (S.step p.1 a).map fun s' => (s', record p.2 p.1 a)

variable {S g₀ record} {ok : σ → α → Prop}

/-- A step of the recording system is a step of the system. -/
theorem recording_step {p p' : σ × γ} {a : α} :
    (S.recording g₀ record).step p a = some p' ↔ S.step p.1 a = some p'.1 ∧
      record p.2 p.1 a = p'.2 := by
  obtain ⟨s, g⟩ := p
  obtain ⟨s', g'⟩ := p'
  simp [recording, Option.map_eq_some_iff]

/-- Without its record a run is a run of the system. -/
theorem ReachableUnder.of_recording {p : σ × γ}
    (h : (S.recording g₀ record).ReachableUnder (fun p => ok p.1) p) : S.ReachableUnder ok p.1 := by
  induction h with
  | init h => exact .init h.1
  | step _ hok hs ih => exact ih.step hok (recording_step.mp hs).1

/-- Every run can be recorded. -/
theorem ReachableUnder.exists_record {s : σ} (h : S.ReachableUnder ok s) :
    ∃ g, (S.recording g₀ record).ReachableUnder (fun p => ok p.1) (s, g) := by
  induction h with
  | init h => exact ⟨g₀, .init ⟨h, rfl⟩⟩
  | @step s s' a _ hok hs ih =>
    obtain ⟨g, hg⟩ := ih
    exact ⟨record g s a, hg.step hok (recording_step.mpr ⟨hs, rfl⟩)⟩

/-- A predicate of the state and the record that holds at the start and is kept by every allowed
step. -/
theorem ReachableUnder.record_invariant {I : σ → γ → Prop} (hinit : ∀ s, S.init s → I s g₀)
    (hstep : ∀ s g a s', S.ReachableUnder ok s → I s g → ok s a → S.step s a = some s' →
      I s' (record g s a))
    {p : σ × γ} (h : (S.recording g₀ record).ReachableUnder (fun p => ok p.1) p) : I p.1 p.2 := by
  induction h with
  | init h => exact h.2 ▸ hinit _ h.1
  | step h hok hs ih =>
    obtain ⟨hs, hg⟩ := recording_step.mp hs
    exact hg ▸ hstep _ _ _ _ h.of_recording ih hok hs

/-- Without its record an unrestricted run is a run of the system. -/
theorem Reachable.of_recording {p : σ × γ} (h : (S.recording g₀ record).Reachable p) :
    S.Reachable p.1 :=
  ReachableUnder.of_recording h

/-- Every unrestricted run can be recorded. -/
theorem Reachable.exists_record {s : σ} (h : S.Reachable s) :
    ∃ g, (S.recording g₀ record).Reachable (s, g) :=
  ReachableUnder.exists_record h

/-- The induction principle for unrestricted runs with their record. -/
theorem Reachable.record_invariant {I : σ → γ → Prop} (hinit : ∀ s, S.init s → I s g₀)
    (hstep : ∀ s g a s', S.Reachable s → I s g → S.step s a = some s' → I s' (record g s a))
    {p : σ × γ} (h : (S.recording g₀ record).Reachable p) : I p.1 p.2 :=
  ReachableUnder.record_invariant hinit (fun s g a s' hr hi _ hs => hstep s g a s' hr hi hs) h

end TransitionSystem

end DeepInIo
