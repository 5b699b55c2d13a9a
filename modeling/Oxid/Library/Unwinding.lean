import Mathlib.Tactic.Common

/-!
Two machines on the same inputs, where the second is not given those the first one hides. If
what is hidden leaves no trace in a relation of the states, and what is shown answers alike
from related states, the second answers as the first does.
-/
namespace Unwinding

variable {Left Right Input Output : Type}

def ended (step : Left → Input → Output × Left) : Left → List Input → Left
  | state, [] => state
  | state, input :: rest => ended step (step state input).2 rest

def outputs (step : Left → Input → Output × Left) : Left → List Input → List Output
  | _, [] => []
  | state, input :: rest => (step state input).1 :: outputs step (step state input).2 rest

variable (step : Left → Input → Output × Left) (hidden : Left → Input → Bool)

/-- The inputs that are not hidden where they arrive. -/
def shown : Left → List Input → List Input
  | _, [] => []
  | state, input :: rest =>
    if hidden state input then shown (step state input).2 rest
    else input :: shown (step state input).2 rest

def answered : Left → List Input → List Output
  | _, [] => []
  | state, input :: rest =>
    if hidden state input then answered (step state input).2 rest
    else (step state input).1 :: answered (step state input).2 rest

/-- Every input that is not hidden meets the condition where it arrives. -/
def AllMeet (meets : Left → Input → Prop) : Left → List Input → Prop
  | _, [] => True
  | state, input :: rest =>
    (hidden state input = false → meets state input) ∧ AllMeet meets (step state input).2 rest

variable {step hidden} {other : Right → Input → Output × Right} {meets : Left → Input → Prop}
variable {alike : Left → Right → Prop}

section
variable
  (leaves : ∀ left right input, alike left right → hidden left input = true → alike (step left input).2 right)
  (agrees : ∀ left right input, alike left right → hidden left input = false → meets left input → (step left input).1 = (other right input).1 ∧ alike (step left input).2 (other right input).2)
include leaves agrees

theorem unwinds (inputs : List Input) {left : Left} {right : Right} (start : alike left right)
    (met : AllMeet step hidden meets left inputs) :
    outputs other right (shown step hidden left inputs) = answered step hidden left inputs ∧
      alike (ended step left inputs) (ended other right (shown step hidden left inputs)) := by
  induction inputs generalizing left right with
  | nil => exact ⟨rfl, start⟩
  | cons input rest ih =>
    obtain ⟨now, later⟩ := met
    cases away : hidden left input with
    | true =>
      have tail := ih (leaves left right input start away) later
      simp only [shown, answered, ended, away, if_true]
      exact tail
    | false =>
      obtain ⟨same, next⟩ := agrees left right input start away (now away)
      obtain ⟨answers, finals⟩ := ih next later
      simp only [shown, answered, ended, outputs, away, Bool.false_eq_true, if_false]
      exact ⟨by rw [answers, same], finals⟩

/-- Where an input that misses the condition is answered otherwise, the runs answer
    alike exactly when none misses it. -/
theorem unwinds_iff
    (differs : ∀ left right input, alike left right → hidden left input = false →
      ¬ meets left input → (step left input).1 ≠ (other right input).1) (inputs : List Input)
    {left : Left} {right : Right} (start : alike left right) :
    outputs other right (shown step hidden left inputs) = answered step hidden left inputs ↔
      AllMeet step hidden meets left inputs := by
  constructor
  · intro same
    induction inputs generalizing left right with
    | nil => trivial
    | cons input rest ih =>
      cases away : hidden left input with
      | true =>
        simp only [shown, answered, away, if_true] at same
        constructor
        · intro visible
          rw [away] at visible
          cases visible
        · exact ih (leaves left right input start away) same
      | false =>
        simp only [shown, answered, outputs, away, Bool.false_eq_true, if_false,
          List.cons.injEq] at same
        have here : meets left input := by
          by_contra missed
          exact differs left right input start away missed same.1.symm
        exact ⟨fun _ => here, ih (agrees left right input start away here).2 same.2⟩
  · intro met
    exact (unwinds leaves agrees inputs start met).1

end

end Unwinding
