/-!
# Runs of a step relation

A run is the list of the labels of its steps, oldest first, and the state it reaches
(`OzoneRust.Trace`). A fact about the run and its state that holds at the start and that
every step keeps holds of every run (`OzoneRust.Trace.invariant`), and a system whose steps
are steps of another has its runs (`OzoneRust.Trace.simulate`, and along a relation of the
states `OzoneRust.Trace.related`).
-/

namespace OzoneRust

variable {S L : Type} {step : S → L → S → Prop} {s₀ : S}

/-- The runs from `s₀`. -/
inductive Trace (step : S → L → S → Prop) (s₀ : S) : List L → S → Prop where
  /-- The run without steps. -/
  | nil : Trace step s₀ [] s₀
  /-- One step more. -/
  | snoc {log : List L} {s : S} {l : L} {s' : S} (h : Trace step s₀ log s) (hs : step s l s') :
      Trace step s₀ (log ++ [l]) s'

/-- **What every step keeps holds of every run.** -/
theorem Trace.invariant {log : List L} {s : S} (I : List L → S → Prop) (h : Trace step s₀ log s)
    (h₀ : I [] s₀) (hstep : ∀ log s l s', I log s → step s l s' → I (log ++ [l]) s') : I log s := by
  induction h with
  | nil => exact h₀
  | snoc _ hs ih => exact hstep _ _ _ _ ih hs

/-- A run with one step before it. -/
theorem Trace.cons {l : L} {s₁ : S} (hs : step s₀ l s₁) {log : List L} {s : S}
    (h : Trace step s₁ log s) : Trace step s₀ (l :: log) s := by
  induction h with
  | nil => exact Trace.nil.snoc hs
  | snoc _ hs' ih => exact ih.snoc hs'

/-- A run of a narrower step relation. -/
theorem Trace.mono {step' : S → L → S → Prop} (himp : ∀ s l s', step s l s' → step' s l s')
    {log : List L} {s : S} (h : Trace step s₀ log s) : Trace step' s₀ log s := by
  induction h with
  | nil => exact .nil
  | snoc _ hs ih => exact .snoc ih (himp _ _ _ hs)

/-- A step with a label, or none. -/
def StepOrStay {A M : Type} (step : A → M → A → Prop) : A → Option M → A → Prop
  | a, some m, a' => step a m a'
  | a, none, a' => a' = a

/-- **Simulation**: where every step is a step of another system, with another label, or
leaves its state alone, a run is a run of the other system. -/
theorem Trace.simulate {A M : Type} {step' : A → M → A → Prop} {f : S → A} {g : L → Option M}
    (hstep : ∀ s l s', step s l s' → StepOrStay step' (f s) (g l) (f s'))
    {log : List L} {s : S} (h : Trace step s₀ log s) :
    Trace step' (f s₀) (log.filterMap g) (f s) := by
  induction h with
  | nil => exact .nil
  | @snoc log s l s' _ hs ih =>
    have hl := hstep s l s' hs
    rw [List.filterMap_append]
    cases hg : g l with
    | none =>
      rw [hg] at hl
      simpa [hg, show f s' = f s from hl] using ih
    | some m =>
      rw [hg] at hl
      simpa [hg] using ih.snoc hl

/-- **Forward simulation**: where related states have related steps with the same label, a run
is a run of the other system, and ends in related states. -/
theorem Trace.related {A : Type} {step' : A → L → A → Prop} {R : S → A → Prop} {a₀ : A}
    (h₀ : R s₀ a₀)
    (hstep : ∀ s a l s', R s a → step s l s' → ∃ a', step' a l a' ∧ R s' a')
    {log : List L} {s : S} (h : Trace step s₀ log s) : ∃ a, Trace step' a₀ log a ∧ R s a := by
  induction h with
  | nil => exact ⟨a₀, .nil, h₀⟩
  | snoc _ hs ih =>
    obtain ⟨a, hrun, ha⟩ := ih
    obtain ⟨a', hs', ha'⟩ := hstep _ a _ _ ha hs
    exact ⟨a', hrun.snoc hs', ha'⟩

end OzoneRust
