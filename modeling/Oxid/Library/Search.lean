/-!
A search along a list, with a state that the items passed by change. Each item stops
the search, is passed by, or is what the search was for.
-/
namespace Searches

inductive Turn (σ ρ ε : Type) where
  | stop (why : ε)
  | next (state : σ)
  | found (result : ρ)

/-- How a search ended; a find comes with the items passed by and the one it stopped at. -/
inductive Search (α ρ ε : Type) where
  | stopped (why : ε)
  | exhausted
  | found (earlier : List α) (item : α) (result : ρ)

section Searching

variable {α σ ρ ε : Type} (turn : α → σ → Turn σ ρ ε)

def Search.after (item : α) : Search α ρ ε → Search α ρ ε
  | .stopped why => .stopped why
  | .exhausted => .exhausted
  | .found earlier at' result => .found (item :: earlier) at' result

def search : List α → σ → Search α ρ ε
  | [], _ => .exhausted
  | item :: rest, state =>
    match turn item state with
    | .stop why => .stopped why
    | .found result => .found [] item result
    | .next state => (search rest state).after item

/-- The items are passed by, one after the other. -/
inductive Passes : List α → σ → σ → Prop where
  | nil (state : σ) : Passes [] state state
  | cons {item : α} {rest : List α} {state middle last : σ}
      (first : turn item state = .next middle) (later : Passes rest middle last) :
      Passes (item :: rest) state last

variable {turn}

theorem search_found {items earlier : List α} {state : σ} {item : α} {result : ρ}
    (ended : search turn items state = .found earlier item result) :
    (∃ later, items = earlier ++ item :: later) ∧
      ∃ last, Passes turn earlier state last ∧ turn item last = .found result := by
  induction items generalizing state earlier with
  | nil => cases ended
  | cons first rest ih =>
    unfold search at ended
    cases step : turn first state with
    | stop why =>
      rw [step] at ended
      cases ended
    | found here =>
      rw [step] at ended
      cases ended
      exact ⟨⟨rest, rfl⟩, state, .nil state, step⟩
    | next middle =>
      rw [step] at ended
      dsimp only at ended
      cases onward : search turn rest middle with
      | stopped why =>
        rw [onward] at ended
        cases ended
      | exhausted =>
        rw [onward] at ended
        cases ended
      | found passed there result' =>
        rw [onward] at ended
        cases ended
        obtain ⟨⟨later, split⟩, last, passes, hit⟩ := ih onward
        exact ⟨⟨later, by rw [split, List.cons_append]⟩, last, .cons step passes, hit⟩

theorem Passes.keep {Held : σ → Prop} {Meets : α → Prop}
    (kept : ∀ item state after, Meets item → Held state → turn item state = .next after →
      Held after)
    {items : List α} {state last : σ} (passes : Passes turn items state last)
    (met : ∀ item ∈ items, Meets item) (held : Held state) : Held last := by
  induction passes with
  | nil state => exact held
  | cons first later ih =>
    refine ih (fun item member => met item (List.mem_cons_of_mem _ member)) ?_
    exact kept _ _ _ (met _ List.mem_cons_self) held first

theorem Passes.mark {Held Marked : σ → Prop} {Marks : α → Prop}
    (kept : ∀ item state after, Held state → turn item state = .next after → Held after)
    (marks : ∀ item state after, Marks item → Held state → turn item state = .next after →
      Marked after)
    (stays : ∀ item state after, Marked state → turn item state = .next after → Marked after)
    {items : List α} {state last : σ} (passes : Passes turn items state last)
    (marking : ∃ item ∈ items, Marks item) (held : Held state) : Marked last := by
  induction passes with
  | nil state =>
    obtain ⟨item, member, _⟩ := marking
    cases member
  | cons first later ih =>
    obtain ⟨item, member, here⟩ := marking
    rcases List.mem_cons.mp member with same | deeper
    · subst same
      refine @Passes.keep _ _ _ _ _ _ (fun _ => True) ?_ _ _ _ later (fun _ _ => trivial)
        (marks _ _ _ here held first)
      exact fun item state after _ marked => stays item state after marked
    · exact ih ⟨item, deeper, here⟩ (kept _ _ _ held first)

end Searching

end Searches
