import Mathlib.Tactic.Common

/-!
Computations that may fail part way and keep what they wrote until then. A run
either completes with a value or stops with a failure, and leaves a state in
both cases. Sequencing is inverted for completed runs and composed for relations
between the first and the last state.
-/
namespace Attempt

variable {ε σ α β : Type}

/-- Refusal unless a condition holds, for checks that write nothing. -/
def require (holds : Bool) (failure : ε) : Except ε Unit :=
  if holds then .ok () else .error failure

@[simp] theorem require_ok (holds : Bool) (failure : ε) (result : Unit) :
    require holds failure = .ok result ↔ holds = true := by
  unfold require
  cases holds <;> simp

@[simp] theorem bind_ok (first : Except ε α) (next : α → Except ε β) (result : β) :
    (first >>= next) = .ok result ↔ ∃ value, first = .ok value ∧ next value = .ok result := by
  cases first with
  | error failure => simp [bind, Except.bind]
  | ok value => simp [bind, Except.bind]

def check (outcome : Except ε α) : EStateM ε σ α := fun state =>
  match outcome with
  | .ok value => .ok value state
  | .error failure => .error failure state

def failing (failure : ε) : EStateM ε σ α := fun state => .error failure state

def update (change : σ → σ) : EStateM ε σ Unit := fun state => .ok () (change state)

def reading (read : σ → α) : EStateM ε σ α := fun state => .ok (read state) state

/-- The run as a value, which keeps what it wrote. -/
def attempt (run : EStateM ε σ α) : EStateM ε σ (Except ε α) := fun state =>
  match run state with
  | .ok value final => .ok (.ok value) final
  | .error failure final => .ok (.error failure) final

/-- A run from `state` completes with `value` and leaves `final`. -/
def Completes (run : EStateM ε σ α) (state : σ) (value : α) (final : σ) : Prop :=
  run state = .ok value final

theorem completes_bind (first : EStateM ε σ α) (next : α → EStateM ε σ β) (state final : σ)
    (result : β) :
    Completes (first >>= next) state result final ↔
      ∃ value middle, Completes first state value middle ∧
        Completes (next value) middle result final := by
  unfold Completes
  simp only [bind, EStateM.bind]
  cases first state with
  | ok value middle => simp
  | error failure middle => simp

theorem completes_pure (value result : α) (state final : σ) :
    Completes (pure value : EStateM ε σ α) state result final ↔
      value = result ∧ state = final := by
  unfold Completes
  simp [pure, EStateM.pure]

theorem completes_check (outcome : Except ε α) (state final : σ) (result : α) :
    Completes (check outcome) state result final ↔ outcome = .ok result ∧ state = final := by
  unfold Completes check
  cases outcome with
  | ok value => simp
  | error failure => simp

theorem completes_failing (failure : ε) (state final : σ) (result : α) :
    Completes (failing failure : EStateM ε σ α) state result final ↔ False := by
  unfold Completes failing
  simp

theorem completes_update (change : σ → σ) (state final : σ) (result : Unit) :
    Completes (update change : EStateM ε σ Unit) state result final ↔ change state = final := by
  unfold Completes update
  simp

theorem completes_reading (read : σ → α) (state final : σ) (result : α) :
    Completes (reading read : EStateM ε σ α) state result final ↔
      read state = result ∧ state = final := by
  unfold Completes reading
  simp

/-- The state a run leaves, completed or not. -/
def endState : EStateM.Result ε σ α → σ
  | .ok _ state => state
  | .error _ state => state

/-- The first and the last state of every run are related. -/
def Keeps (related : σ → σ → Prop) (run : EStateM ε σ α) : Prop :=
  ∀ state, related state (endState (run state))

section Keeping

variable {related : σ → σ → Prop} {next : α → EStateM ε σ β} {first : EStateM ε σ α}

theorem keeps_bind (transitive : ∀ a b c, related a b → related b c → related a c)
    (head : Keeps related first) (tail : ∀ value, Keeps related (next value)) :
    Keeps related (first >>= next) := by
  intro state
  have start := head state
  simp only [bind, EStateM.bind]
  cases ran : first state with
  | ok value middle =>
    rw [ran] at start
    exact transitive _ _ _ start (tail value middle)
  | error failure middle =>
    rw [ran] at start
    exact start

theorem keeps_pure (reflexive : ∀ a, related a a) (value : α) :
    Keeps related (pure value : EStateM ε σ α) := by
  intro state
  exact reflexive state

theorem keeps_check (reflexive : ∀ a, related a a) (outcome : Except ε α) :
    Keeps related (check outcome : EStateM ε σ α) := by
  intro state
  cases outcome with
  | ok value => exact reflexive state
  | error failure => exact reflexive state

theorem keeps_failing (reflexive : ∀ a, related a a) (failure : ε) :
    Keeps related (failing failure : EStateM ε σ α) := by
  intro state
  exact reflexive state

theorem keeps_update {change : σ → σ} (changed : ∀ state, related state (change state)) :
    Keeps related (update change : EStateM ε σ Unit) := by
  intro state
  exact changed state

theorem keeps_reading (reflexive : ∀ a, related a a) (read : σ → α) :
    Keeps related (reading read : EStateM ε σ α) := by
  intro state
  exact reflexive state

theorem keeps_completed {run : EStateM ε σ α} (kept : Keeps related run) {state final : σ}
    {value : α} (completed : Completes run state value final) : related state final := by
  have ends := kept state
  rw [completed] at ends
  exact ends

/-- However a sequence ends, either its second part never ran or it ended there. -/
theorem keeps_or_completes (head : Keeps related first) (state : σ) :
    related state (endState ((first >>= next) state)) ∨
      ∃ value middle, Completes first state value middle ∧
        endState ((first >>= next) state) = endState (next value middle) := by
  have start := head state
  simp only [bind, EStateM.bind]
  unfold Completes
  cases ran : first state with
  | ok value middle => exact Or.inr ⟨value, middle, rfl, rfl⟩
  | error failure middle =>
    rw [ran] at start
    exact Or.inl start

theorem endState_bind (tail : ∀ value, Keeps Eq (next value)) (state : σ) :
    endState ((first >>= next) state) = endState (first state) := by
  simp only [bind, EStateM.bind]
  cases first state with
  | ok value middle => exact (tail value middle).symm
  | error failure middle => rfl

end Keeping

/-- A run from `state` that completes as `post` says, or else fails and has an excuse. -/
def Yields (run : EStateM ε σ α) (state : σ) (post : α → σ → Prop) (excuse : Prop) : Prop :=
  match run state with
  | .ok value final => post value final
  | .error _ _ => excuse

section Yielding

variable {post : α → σ → Prop} {excuse : Prop} {state : σ}

theorem yields_bind {first : EStateM ε σ α} {next : α → EStateM ε σ β} {post : β → σ → Prop}
    (head : Yields first state (fun value middle => Yields (next value) middle post excuse)
      excuse) : Yields (first >>= next) state post excuse := by
  unfold Yields at head ⊢
  simp only [bind, EStateM.bind]
  cases ran : first state with
  | ok value middle =>
    rw [ran] at head
    exact head
  | error failure middle =>
    rw [ran] at head
    exact head

theorem yields_pure {value : α} (holds : post value state) :
    Yields (pure value : EStateM ε σ α) state post excuse := holds

theorem yields_failing {failure : ε} (excused : excuse) :
    Yields (failing failure : EStateM ε σ α) state post excuse := excused

theorem yields_check {outcome : Except ε α} (passed : ∀ value, outcome = .ok value → post value state)
    (stopped : ∀ failure, outcome = .error failure → excuse) :
    Yields (check outcome) state post excuse := by
  cases outcome with
  | ok value => exact passed value rfl
  | error failure => exact stopped failure rfl

theorem yields_require {holds : Bool} {failure : ε} {post : Unit → σ → Prop}
    (passed : holds = true → post () state) (stopped : holds = false → excuse) :
    Yields (check (require holds failure)) state post excuse := by
  cases holds with
  | true => exact passed rfl
  | false => exact stopped rfl

theorem yields_update {change : σ → σ} {post : Unit → σ → Prop}
    (holds : post () (change state)) :
    Yields (update change : EStateM ε σ Unit) state post excuse := holds

theorem yields_reading {read : σ → α} (holds : post (read state) state) :
    Yields (reading read : EStateM ε σ α) state post excuse := holds

variable {run : EStateM ε σ α}

theorem yields_weaken {stronger : α → σ → Prop} {reason : Prop}
    (yielded : Yields run state stronger reason)
    (weakens : ∀ value final, stronger value final → post value final) (excuses : reason → excuse) :
    Yields run state post excuse := by
  unfold Yields at yielded ⊢
  cases ran : run state with
  | ok value final =>
    rw [ran] at yielded
    exact weakens value final yielded
  | error failure final =>
    rw [ran] at yielded
    exact excuses yielded

theorem yields_completed (yielded : Yields run state post excuse) {value : α} {final : σ}
    (completed : Completes run state value final) : post value final := by
  unfold Yields at yielded
  rw [completed] at yielded
  exact yielded

theorem yields_unexcused (yielded : Yields run state post excuse) (unexcused : ¬ excuse) :
    ∃ value final, Completes run state value final ∧ post value final := by
  unfold Yields at yielded
  unfold Completes
  cases ran : run state with
  | ok value final =>
    rw [ran] at yielded
    exact ⟨value, final, rfl, yielded⟩
  | error failure final =>
    rw [ran] at yielded
    exact absurd yielded unexcused

end Yielding

/-- A loop over a list with an accumulator. -/
def forEach (step : α → β → EStateM ε σ β) : List α → β → EStateM ε σ β
  | [], total => pure total
  | item :: rest, total => step item total >>= forEach step rest

theorem completes_forEach_nil (step : α → β → EStateM ε σ β) (total result : β)
    (state final : σ) :
    Completes (forEach step [] total) state result final ↔ total = result ∧ state = final :=
  completes_pure total result state final

theorem completes_forEach_cons (step : α → β → EStateM ε σ β) (item : α) (rest : List α)
    (total result : β) (state final : σ) :
    Completes (forEach step (item :: rest) total) state result final ↔
      ∃ next middle, Completes (step item total) state next middle ∧
        Completes (forEach step rest next) middle result final :=
  completes_bind _ _ state final result

variable {step : α → β → EStateM ε σ β}

theorem keeps_forEach {related : σ → σ → Prop} (reflexive : ∀ a, related a a)
    (transitive : ∀ a b c, related a b → related b c → related a c) (items : List α)
    (each : ∀ item ∈ items, ∀ total, Keeps related (step item total)) (total : β) :
    Keeps related (forEach step items total) := by
  induction items generalizing total with
  | nil => exact keeps_pure reflexive total
  | cons item rest ih =>
    refine keeps_bind transitive (each item (by simp) total) fun next => ?_
    exact ih (fun other member => each other (by simp [member])) next

/-- Part of a state is the same before and after. -/
def Untouched (part : σ → γ) (before after : σ) : Prop := part after = part before

theorem untouched_refl (part : σ → γ) (state : σ) : Untouched part state state := rfl

theorem untouched_trans (part : σ → γ) (a b c : σ) (left : Untouched part a b)
    (right : Untouched part b c) : Untouched part a c := right.trans left

theorem keeps_mono {related weaker : σ → σ → Prop} {run : EStateM ε σ α}
    (kept : Keeps related run) (weakens : ∀ a b, related a b → weaker a b) :
    Keeps weaker run := by
  intro state
  exact weakens _ _ (kept state)

/-- The run leaves part of this state as it is, however it ends. -/
def Leaves (part : σ → γ) (run : EStateM ε σ α) (state : σ) : Prop :=
  Untouched part state (endState (run state))

section Leaving

variable {part : σ → γ} {first : EStateM ε σ α} {next : α → EStateM ε σ β}

theorem leaves_reading_bind (read : σ → α) (state : σ) :
    Leaves part (reading read >>= next) state ↔ Leaves part (next (read state)) state := Iff.rfl

theorem leaves_check_bind (outcome : Except ε α) (state : σ) :
    Leaves part (check outcome >>= next) state ↔
      ∀ value, outcome = .ok value → Leaves part (next value) state := by
  cases outcome with
  | error failure =>
    constructor
    · nofun
    · exact fun _ => rfl
  | ok value =>
    constructor
    · intro left other same
      cases same
      exact left
    · exact fun left => left value rfl

theorem leaves_head (tail : ∀ value, Keeps (Untouched part) (next value)) (state : σ) :
    Leaves part (first >>= next) state ↔ Leaves part first state := by
  unfold Leaves
  simp only [bind, EStateM.bind]
  cases first state with
  | error failure middle => exact Iff.rfl
  | ok value middle =>
    have kept : part _ = part middle := tail value middle
    unfold Untouched endState at *
    rw [kept]

theorem leaves_tail (head : Keeps (Untouched part) first) (state : σ) :
    Leaves part (first >>= next) state ↔
      ∀ value middle, Completes first state value middle → Leaves part (next value) middle := by
  have kept := head state
  unfold Leaves Completes
  simp only [bind, EStateM.bind]
  cases ran : first state with
  | error failure middle =>
    rw [ran] at kept
    constructor
    · nofun
    · exact fun _ => kept
  | ok value middle =>
    rw [ran] at kept
    have same : part middle = part state := kept
    unfold Untouched
    constructor
    · intro left other reached completed
      cases completed
      rw [same]
      exact left
    · intro left
      rw [← same]
      exact left value middle rfl

end Leaving

/-- A condition on the state at each item of a loop whose turn comes. -/
def Along (step : α → β → EStateM ε σ β) (holds : α → β → σ → Prop) :
    List α → β → σ → Prop
  | [], _, _ => True
  | item :: rest, total, state =>
    holds item total state ∧ ∀ next middle, Completes (step item total) state next middle →
      Along step holds rest next middle

theorem along_congr {holds holds' : α → β → σ → Prop} (items : List α)
    (same : ∀ item ∈ items, ∀ total state, holds item total state ↔ holds' item total state)
    (total : β) (state : σ) :
    Along step holds items total state ↔ Along step holds' items total state := by
  induction items generalizing total state with
  | nil => exact Iff.rfl
  | cons item rest ih =>
    have later := ih fun other member => same other (by simp [member])
    unfold Along
    rw [same item (by simp) total state]
    simp [later]

section Places

variable {κ : Type} {part : σ → κ → γ} {step : α → β → EStateM ε σ β}
  {owns : α → κ → Prop}

section
variable (items : List α)
  (within : ∀ item ∈ items, ∀ total state key, ¬ owns item key → part (endState (step item total state)) key = part state key)
include items within

theorem forEach_elsewhere (total : β) (state : σ) (key : κ) (free : ∀ item ∈ items, ¬ owns item key)
    :
    part (endState (forEach step items total state)) key = part state key := by
  have kept : Keeps (Untouched fun state => part state key) (forEach step items total) := by
    refine keeps_forEach (untouched_refl _) (untouched_trans _) items ?_ total
    intro item member total state
    exact within item member total state key (free item member)
  exact kept state

/-- A loop whose items own different places leaves them all as they are exactly when
    each item does whose turn comes. -/
theorem leaves_forEach
    (apart : items.Pairwise fun one other => ∀ key, owns one key → ¬ owns other key) (total : β)
    (state : σ) :
    Leaves part (forEach step items total) state ↔
      Along step (fun item total state => Leaves part (step item total) state) items total
        state := by
  induction items generalizing total state with
  | nil =>
    constructor
    · exact fun _ => trivial
    · exact fun _ => rfl
  | cons item rest ih =>
    rw [List.pairwise_cons] at apart
    have later := ih (fun other member => within other (by simp [member])) apart.2
    have here := within item (by simp) total state
    unfold Along
    unfold Leaves Completes
    change Untouched part state (endState ((step item total >>= forEach step rest) state)) ↔ _
    simp only [bind, EStateM.bind]
    cases ran : step item total state with
    | error failure middle =>
      constructor
      · exact fun left => ⟨left, nofun⟩
      · exact fun left => left.1
    | ok next middle =>
      rw [ran] at here
      have elsewhere := forEach_elsewhere rest
        (fun other member => within other (by simp [member])) next middle
      constructor
      · intro left
        have same : part middle = part state := by
          funext key
          by_cases owned : owns item key
          · have kept := elsewhere key fun other member => apart.1 other member key owned
            rw [← kept]
            exact congrFun left key
          · exact here key owned
        refine ⟨same, fun value reached completed => ?_⟩
        cases completed
        refine (later next middle).mp ?_
        exact left.trans same.symm
      · rintro ⟨same, along⟩
        have left := (later next middle).mpr (along next middle rfl)
        exact left.trans same

end

end Places

end Attempt
