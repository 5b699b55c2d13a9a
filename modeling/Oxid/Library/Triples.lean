import Oxid.Library.Attempt

/-!
Triples for computations that may fail part way: from a state with the precondition
a run either completes with the postcondition or stops with the third assertion,
which speaks of the failure and of the state it leaves.
-/
namespace Triples
open Attempt

variable {ε σ ω α β : Type}

def Ends (result : EStateM.Result ε σ α) (post : α → σ → Prop) (fails : ε → σ → Prop) : Prop :=
  match result with
  | .ok value final => post value final
  | .error failure final => fails failure final

def Triple (pre : σ → Prop) (run : EStateM ε σ α) (post : α → σ → Prop) (fails : ε → σ → Prop) :
    Prop :=
  ∀ state, pre state → Ends (run state) post fails

section Rules

variable {pre : σ → Prop} {post : α → σ → Prop} {fails : ε → σ → Prop}

theorem triple_bind {first : EStateM ε σ α} {next : α → EStateM ε σ β} {middle : α → σ → Prop}
    {last : β → σ → Prop} (head : Triple pre first middle fails)
    (tail : ∀ value, Triple (middle value) (next value) last fails) :
    Triple pre (first >>= next) last fails := by
  intro state holds
  have reached := head state holds
  simp only [bind, EStateM.bind]
  cases ran : first state with
  | ok value between =>
    rw [ran] at reached
    exact tail value between reached
  | error failure between =>
    rw [ran] at reached
    exact reached

theorem triple_pure {value : α} (holds : ∀ state, pre state → post value state) :
    Triple pre (pure value : EStateM ε σ α) post fails := holds

theorem triple_weaken {pre' : σ → Prop} {post' : α → σ → Prop} {fails' : ε → σ → Prop}
    {run : EStateM ε σ α} (triple : Triple pre' run post' fails')
    (starts : ∀ state, pre state → pre' state)
    (completes : ∀ value state, post' value state → post value state)
    (stops : ∀ failure state, fails' failure state → fails failure state) :
    Triple pre run post fails := by
  intro state holds
  have reached := triple state (starts state holds)
  cases ran : run state with
  | ok value final =>
    rw [ran] at reached
    exact completes value final reached
  | error failure final =>
    rw [ran] at reached
    exact stops failure final reached

theorem triple_failing {failure : ε} (holds : ∀ state, pre state → fails failure state) :
    Triple pre (failing failure : EStateM ε σ α) post fails := holds

theorem triple_update {change : σ → σ} {post : Unit → σ → Prop}
    (holds : ∀ state, pre state → post () (change state)) :
    Triple pre (update change : EStateM ε σ Unit) post fails := holds

theorem triple_reading {read : σ → α} (holds : ∀ state, pre state → post (read state) state) :
    Triple pre (reading read : EStateM ε σ α) post fails := holds

theorem triple_check {outcome : Except ε α}
    (passed : ∀ value, outcome = .ok value → ∀ state, pre state → post value state)
    (stopped : ∀ failure, outcome = .error failure → ∀ state, pre state → fails failure state) :
    Triple pre (check outcome) post fails := by
  intro state holds
  cases outcome with
  | ok value => exact passed value rfl state holds
  | error failure => exact stopped failure rfl state holds

theorem triple_given {run : EStateM ε σ α} {fact : Prop} (known : ∀ state, pre state → fact)
    (triple : fact → Triple pre run post fails) : Triple pre run post fails := by
  intro state holds
  exact triple (known state holds) state holds

end Rules

def inside (run : EStateM ε σ α) : EStateM ε (σ × ω) α := fun both =>
  match run both.1 with
  | .ok value final => .ok value (final, both.2)
  | .error failure final => .error failure (final, both.2)

theorem triple_inside {pre : σ → Prop} {post : α → σ → Prop} {fails : ε → σ → Prop}
    {run : EStateM ε σ α} {rest : ω → Prop} (triple : Triple pre run post fails) :
    Triple (fun both : σ × ω => pre both.1 ∧ rest both.2) (inside run)
      (fun value both => post value both.1 ∧ rest both.2)
      (fun failure both => fails failure both.1 ∧ rest both.2) := by
  rintro both ⟨holds, kept⟩
  have reached := triple both.1 holds
  unfold inside
  cases ran : run both.1 with
  | ok value final =>
    rw [ran] at reached
    exact ⟨reached, kept⟩
  | error failure final =>
    rw [ran] at reached
    exact ⟨reached, kept⟩

theorem inside_keeps (run : EStateM ε σ α) (both : σ × ω) :
    (endState (inside run both)).2 = both.2 := by
  unfold inside
  cases run both.1 <;> rfl

section Loosening

variable {θ : Type} {stricter : θ → θ → Prop}

/-- What completes under a setting completes under every looser one, with the same value and
    state. -/
def Loosens (stricter : θ → θ → Prop) (run : θ → EStateM ε σ α) : Prop :=
  ∀ strict loose, stricter strict loose → ∀ state value final,
    Completes (run strict) state value final → Completes (run loose) state value final

theorem loosens_free (run : EStateM ε σ α) : Loosens stricter fun _ => run :=
  fun _ _ _ _ _ _ completed => completed

theorem loosens_bind {first : θ → EStateM ε σ α} {next : θ → α → EStateM ε σ β}
    (head : Loosens stricter first) (tail : ∀ value, Loosens stricter fun setting => next setting value) :
    Loosens stricter fun setting => first setting >>= next setting := by
  intro strict loose looser state value final completed
  rw [completes_bind] at completed ⊢
  obtain ⟨between, middle, reached, rest⟩ := completed
  exact ⟨between, middle, head _ _ looser _ _ _ reached, tail _ _ _ looser _ _ _ rest⟩

theorem loosens_check {outcome : θ → Except ε α}
    (passed : ∀ strict loose, stricter strict loose → ∀ value,
      outcome strict = .ok value → outcome loose = .ok value) :
    Loosens stricter fun setting => (check (outcome setting) : EStateM ε σ α) := by
  intro strict loose looser state value final completed
  rw [completes_check] at completed ⊢
  exact ⟨passed strict loose looser value completed.1, completed.2⟩

theorem loosens_inside {run : θ → EStateM ε σ α} (loosens : Loosens stricter run) :
    Loosens stricter fun setting => (inside (run setting) : EStateM ε (σ × ω) α) := by
  intro strict loose looser both value final completed
  dsimp only [Completes, inside] at completed ⊢
  cases ran : run strict both.1 with
  | ok reached middle =>
    rw [ran] at completed
    rw [loosens _ _ looser _ _ _ ran]
    exact completed
  | error failure middle =>
    rw [ran] at completed
    cases completed

end Loosening

end Triples
