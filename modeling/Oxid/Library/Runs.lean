import Mathlib.Tactic.Common

/-!
Runs of a transition system, and the one induction its invariants need.
-/
namespace Runs

variable {State : Type} {starts : State → Prop} {steps : State → State → Prop}

inductive Reachable (starts : State → Prop) (steps : State → State → Prop) : State → Prop where
  | start {state : State} (first : starts state) : Reachable starts steps state
  | step {state next : State} (reached : Reachable starts steps state)
      (taken : steps state next) : Reachable starts steps next

/-- What holds at the start and is kept by every step from a reachable state holds
    in every reachable state. -/
theorem reachable_invariant {invariant : State → Prop}
    (initially : ∀ state, starts state → invariant state)
    (preserved : ∀ state next, Reachable starts steps state → invariant state →
      steps state next → invariant next)
    {state : State} (reached : Reachable starts steps state) : invariant state := by
  induction reached with
  | start first => exact initially _ first
  | step earlier taken ih => exact preserved _ _ earlier ih taken

/-- The same for the runs all of whose steps meet a condition. -/
inductive ReachableBy (starts : State → Prop) (steps meets : State → State → Prop) :
    State → Prop where
  | start {state : State} (first : starts state) : ReachableBy starts steps meets state
  | step {state next : State} (reached : ReachableBy starts steps meets state)
      (taken : steps state next) (met : meets state next) : ReachableBy starts steps meets next

variable {meets : State → State → Prop}

theorem reachableBy_reachable {state : State} (reached : ReachableBy starts steps meets state) :
    Reachable starts steps state := by
  induction reached with
  | start first => exact .start first
  | step _ taken _ ih => exact .step ih taken

theorem reachableBy_invariant {invariant : State → Prop}
    (initially : ∀ state, starts state → invariant state)
    (preserved : ∀ state next, ReachableBy starts steps meets state → invariant state →
      steps state next → meets state next → invariant next) {state : State}
    (reached : ReachableBy starts steps meets state) : invariant state := by
  induction reached with
  | start first => exact initially _ first
  | step earlier taken met ih => exact preserved _ _ earlier ih taken met

section Inputs

variable {Input : Type} {step : Input → State → State} {meets : Input → State → Prop}

/-- The run over a list of inputs. -/
def runAll (step : Input → State → State) : List Input → State → State
  | [], state => state
  | input :: later, state => runAll step later (step input state)

/-- A condition on every input and the state it meets. -/
def AlongAll (step : Input → State → State) (meets : Input → State → Prop) :
    List Input → State → Prop
  | [], _ => True
  | input :: later, state => meets input state ∧ AlongAll step meets later (step input state)

instance decidableAlongAll [∀ input state, Decidable (meets input state)] :
    ∀ inputs state, Decidable (AlongAll step meets inputs state)
  | [], _ => inferInstanceAs (Decidable True)
  | input :: later, state =>
    have := decidableAlongAll later (step input state)
    inferInstanceAs (Decidable (meets input state ∧ AlongAll step meets later (step input state)))

theorem runAll_invariant {invariant : State → Prop}
    (preserved : ∀ input state, invariant state → meets input state → invariant (step input state))
    (inputs : List Input) {state : State} (initially : invariant state)
    (along : AlongAll step meets inputs state) : invariant (runAll step inputs state) := by
  induction inputs generalizing state with
  | nil => exact initially
  | cons input later ih => exact ih (preserved input state initially along.1) along.2

theorem runAll_kept {invariant : State → Prop}
    (preserved : ∀ input state, invariant state → invariant (step input state))
    (inputs : List Input) {state : State} (initially : invariant state) :
    invariant (runAll step inputs state) := by
  induction inputs generalizing state with
  | nil => exact initially
  | cons input later ih => exact ih (preserved input state initially)

theorem alongAll_congr {other : Input → State → Prop}
    (same : ∀ input state, meets input state ↔ other input state) (inputs : List Input)
    (state : State) : AlongAll step meets inputs state ↔ AlongAll step other inputs state := by
  induction inputs generalizing state with
  | nil => exact Iff.rfl
  | cons input later ih => exact and_congr (same input state) (ih (step input state))

end Inputs

section Partial

variable {Input Output : Type} {step : Input → State → Option (State × Output)}
  {invariant : State → Prop} {fits : State → Output → Prop} {meets : Input → State → Prop}

/-- Every state of the run keeps the invariant, every step has an output that fits, and
    no step is stuck. -/
def KeptAll (step : Input → State → Option (State × Output)) (invariant : State → Prop)
    (fits : State → Output → Prop) : List Input → State → Prop
  | [], state => invariant state
  | input :: later, state => invariant state ∧ ∃ next output,
      step input state = some (next, output) ∧ fits next output ∧
        KeptAll step invariant fits later next

def MeetsAll (step : Input → State → Option (State × Output)) (meets : Input → State → Prop) :
    List Input → State → Prop
  | [], _ => True
  | input :: later, state => meets input state ∧ ∀ next output,
      step input state = some (next, output) → MeetsAll step meets later next

/-- A condition that says exactly when a step keeps the invariant says so for runs. -/
theorem keptAll_iff
    (exact : ∀ input state, invariant state →
      ((∃ next output, step input state = some (next, output) ∧ invariant next ∧
        fits next output) ↔ meets input state))
    {state : State} (initially : invariant state) (inputs : List Input) :
    KeptAll step invariant fits inputs state ↔ MeetsAll step meets inputs state := by
  induction inputs generalizing state with
  | nil => exact ⟨fun _ => trivial, fun _ => initially⟩
  | cons input later ih =>
    constructor
    · rintro ⟨_, next, output, taken, fitting, kept⟩
      have still : invariant next := by
        cases later with
        | nil => exact kept
        | cons _ _ => exact kept.1
      refine ⟨(exact input state initially).mp ⟨next, output, taken, still, fitting⟩, ?_⟩
      intro other outcome again
      rw [taken] at again
      cases again
      exact (ih still).mp kept
    · rintro ⟨met, rest⟩
      obtain ⟨next, output, taken, still, fitting⟩ := (exact input state initially).mpr met
      exact ⟨initially, next, output, taken, fitting, (ih still).mpr (rest next output taken)⟩

end Partial

end Runs
