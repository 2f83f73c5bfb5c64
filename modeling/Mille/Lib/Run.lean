import Mathlib

/-! Runs of a deterministic step function whose steps meet a condition on the
state before them. -/

namespace Mille

/-- States reached by steps that all meet a condition. -/
inductive Run {σ ω : Type} (step : σ → ω → σ) (allowed : σ → ω → Prop) (start : σ) : σ → Prop where
  | start : Run step allowed start start
  | step (before : Run step allowed start state) (action : ω) (meets : allowed state action) :
      Run step allowed start (step state action)

namespace Run

variable {σ ω : Type} {step : σ → ω → σ} {allowed weaker : σ → ω → Prop} {start state : σ}

theorem weaken (run : Run step allowed start state)
    (implies : ∀ state action, allowed state action → weaker state action) :
    Run step weaker start state := by
  induction run with
  | start => exact .start
  | step _ action meets ih => exact ih.step action (implies _ action meets)

theorem trans {last : σ} (first : Run step allowed start state) (second : Run step allowed state last) :
    Run step allowed start last := by
  induction second with
  | start => exact first
  | step _ action meets ih => exact ih.step action meets

/-- Every action of a list meets the condition in the state it finds. -/
def Along (step : σ → ω → σ) (allowed : σ → ω → Prop) : σ → List ω → Prop
  | _, [] => True
  | state, action :: rest => allowed state action ∧ Along step allowed (step state action) rest

instance decidableAlong (step : σ → ω → σ) (allowed : σ → ω → Prop)
    [∀ state action, Decidable (allowed state action)] (state : σ) (actions : List ω) :
    Decidable (Along step allowed state actions) :=
  match actions with
  | [] => inferInstanceAs (Decidable True)
  | action :: rest =>
    have := decidableAlong step allowed (step state action) rest
    inferInstanceAs (Decidable (allowed state action ∧ Along step allowed (step state action) rest))

theorem along_snoc {actions : List ω} {last : ω}
    (along : Along step allowed start (actions ++ [last])) :
    Along step allowed start actions ∧ allowed (actions.foldl step start) last := by
  induction actions generalizing start with
  | nil => exact ⟨trivial, along.1⟩
  | cons action rest ih =>
    obtain ⟨before, meets⟩ := ih along.2
    exact ⟨⟨along.1, before⟩, meets⟩

/-- A property kept by exactly the allowed steps holds at the end exactly when it held at
the start and every step was allowed. -/
theorem along_iff {holds : σ → Prop}
    (exact_step : ∀ state action, holds (step state action) ↔ holds state ∧ allowed state action)
    (actions : List ω) (start : σ) :
    holds (actions.foldl step start) ↔ holds start ∧ Along step allowed start actions := by
  induction actions generalizing start with
  | nil => exact (and_iff_left trivial).symm
  | cons action rest ih =>
    rw [List.foldl_cons, ih, exact_step, and_assoc]
    rfl

/-- Where an invariant of the steps that fit and are allowed makes two conditions the same, a
run of fitting steps meets the one exactly when it meets the other. -/
theorem along_congr_of {holds : σ → Prop} {fits good : σ → ω → Prop} {actions : List ω}
    (fitting : Along step fits start actions)
    (same : ∀ state action, holds state → fits state action → (good state action ↔ allowed state action))
    (preserved : ∀ state action, holds state → fits state action → allowed state action →
      holds (step state action))
    (initial : holds start) : Along step good start actions ↔ Along step allowed start actions := by
  induction actions generalizing start with
  | nil => exact Iff.rfl
  | cons action rest ih =>
    rw [Along, Along, same _ action initial fitting.1]
    apply and_congr_right
    intro meets
    exact ih fitting.2 (preserved _ action initial fitting.1 meets)

/-- Where an invariant makes two conditions the same and each kept step keeps the
invariant, runs meet the one exactly when they meet the other. -/
theorem along_congr {holds : σ → Prop} {good : σ → ω → Prop}
    (same : ∀ state action, holds state → (good state action ↔ allowed state action))
    (preserved : ∀ state action, holds state → good state action → holds (step state action))
    (actions : List ω) (initial : holds start) :
    Along step good start actions ↔ Along step allowed start actions := by
  induction actions generalizing start with
  | nil => exact Iff.rfl
  | cons action rest ih =>
    rw [Along, Along, same _ action initial]
    apply and_congr_right
    intro meets
    exact ih (preserved _ action initial ((same _ action initial).mpr meets))

theorem of_list (actions : List ω) (along : Along step allowed start actions) :
    Run step allowed start (actions.foldl step start) := by
  induction actions generalizing start with
  | nil => exact .start
  | cons action rest ih => exact (Run.start.step action along.1).trans (ih along.2)

theorem invariant (run : Run step allowed start state) (holds : σ → Prop) (initial : holds start)
    (preserved : ∀ state action, holds state → allowed state action → holds (step state action)) :
    holds state := by
  induction run with
  | start => exact initial
  | step _ action meets ih => exact preserved _ action ih meets

end Run

section Histories

variable {ω : Type} {began keeps : ω → Prop}

/-- Something began in the history and every later event kept it. -/
def Since (began keeps : ω → Prop) (history : List ω) : Prop :=
  ∃ earlier event later, history = earlier ++ event :: later ∧ began event ∧ ∀ next ∈ later, keeps next

theorem Since.exists {history : List ω} (since : Since began keeps history) :
    ∃ event ∈ history, began event := by
  obtain ⟨earlier, event, later, rfl, begins, _⟩ := since
  exact ⟨event, by simp, begins⟩

theorem not_since_nil : ¬Since began keeps [] := by
  rintro ⟨earlier, event, later, split, _⟩
  exact absurd split (by simp)

theorem since_snoc {history : List ω} {last : ω} :
    Since began keeps (history ++ [last]) ↔ began last ∨ Since began keeps history ∧ keeps last := by
  constructor
  · rintro ⟨earlier, event, later, split, begins, kept⟩
    rcases List.eq_nil_or_concat later with none_later | ⟨others, final, same⟩
    · subst none_later
      have ends := List.append_inj_right' split rfl
      exact .inl ((List.singleton_inj.mp ends) ▸ begins)
    · subst same
      rw [List.concat_eq_append] at split kept
      rw [← List.cons_append, ← List.append_assoc] at split
      have ends := List.append_inj_right' split rfl
      have starts := List.append_inj_left' split rfl
      rw [List.singleton_inj.mp ends]
      exact .inr ⟨⟨earlier, event, others, starts, begins,
        fun next member => kept next (List.mem_append_left _ member)⟩, kept final (by simp)⟩
  · rintro (begins | ⟨⟨earlier, event, later, split, begins, kept⟩, keeping⟩)
    · exact ⟨history, last, [], rfl, begins, by simp⟩
    · refine ⟨earlier, event, later ++ [last], by simp [split], begins, ?_⟩
      intro next member
      rcases List.mem_append.mp member with inLater | isLast
      · exact kept next inLater
      · exact (List.mem_singleton.mp isLast) ▸ keeping

end Histories

end Mille
