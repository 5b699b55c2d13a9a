import Oxid.Library.Attempt

/-!
A loop whose rounds may fail part way. A round either returns the loop's value or asks for
another one, and the number of rounds is a bound that the loop may run out of.
-/
namespace Rounds
open Attempt

variable {ε σ α : Type}

def rounds (round : EStateM ε σ (Option α)) : Nat → σ → Option (EStateM.Result ε σ α)
  | 0, _ => none
  | bound + 1, state =>
    match round state with
    | .error failure final => some (.error failure final)
    | .ok (some value) final => some (.ok value final)
    | .ok none next => rounds round bound next

variable {round : EStateM ε σ (Option α)}

theorem rounds_again {state next : σ} (again : Completes round state none next) (bound : Nat) :
    rounds round (bound + 1) state = rounds round bound next := by
  rw [rounds, again]

variable {invariant : σ → Prop}

theorem rounds_ends {smaller : σ → σ → Prop} (founded : WellFounded smaller)
    (lowers : ∀ state next, invariant state → Completes round state none next →
      invariant next ∧ smaller next state) {state : σ} (initially : invariant state) :
    ∃ bound, (rounds round bound state).isSome := by
  induction state using founded.induction with
  | _ state ih =>
    cases ran : round state with
    | error failure final =>
      refine ⟨1, ?_⟩
      simp [rounds, ran]
    | ok value next =>
      cases value with
      | some value =>
        refine ⟨1, ?_⟩
        simp [rounds, ran]
      | none =>
        obtain ⟨kept, less⟩ := lowers state next initially ran
        obtain ⟨bound, ended⟩ := ih next less kept
        refine ⟨bound + 1, ?_⟩
        rw [rounds_again ran]
        exact ended

theorem rounds_returned
    (preserved : ∀ state next, invariant state → Completes round state none next → invariant next)
    {bound : Nat} {state final : σ} {value : α} (initially : invariant state)
    (returned : rounds round bound state = some (.ok value final)) :
    ∃ last, invariant last ∧ Completes round last (some value) final := by
  induction bound generalizing state with
  | zero => simp [rounds] at returned
  | succ bound ih =>
    unfold rounds at returned
    cases ran : round state with
    | error failure middle =>
      rw [ran] at returned
      simp at returned
    | ok outcome next =>
      rw [ran] at returned
      cases outcome with
      | none => exact ih (preserved state next initially ran) returned
      | some other =>
        cases returned
        exact ⟨state, initially, ran⟩

theorem rounds_never
    (again : ∀ state, invariant state → ∃ next, Completes round state none next ∧ invariant next)
    {state : σ} (initially : invariant state) (bound : Nat) : rounds round bound state = none := by
  induction bound generalizing state with
  | zero => rfl
  | succ bound ih =>
    obtain ⟨next, ran, kept⟩ := again state initially
    rw [rounds_again ran]
    exact ih kept

end Rounds
