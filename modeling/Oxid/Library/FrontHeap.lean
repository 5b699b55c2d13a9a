import Mathlib.Data.List.Perm.Basic

/-!
A heap under a comparison that may change between its uses. Taking the front off
gives an item that no other exceeds and leaves the rest in some order; which of
several equal items comes first is left open.
-/
namespace FrontHeap

variable {Item : Type}

structure StrictWeak (less : Item → Item → Bool) : Prop where
  asymmetric : ∀ a b, less a b = true → less b a = false
  splits : ∀ a b c, less a c = true → less a b = true ∨ less b c = true

structure Heap (Item : Type) where
  popHeap : (Item → Item → Bool) → List Item → Option (Item × List Item)
  popHeap_perm : ∀ less items front rest, popHeap less items = some (front, rest) →
    (front :: rest).Perm items
  popHeap_none : ∀ less items, popHeap less items = none → items = []
  popHeap_front : ∀ less items front rest, StrictWeak less →
    popHeap less items = some (front, rest) → ∀ item ∈ rest, less front item = false

def selectFront (less : Item → Item → Bool) : List Item → Option (Item × List Item)
  | [] => none
  | item :: rest =>
    match selectFront less rest with
    | none => some (item, [])
    | some (front, others) =>
      if less item front then some (front, item :: others) else some (item, front :: others)

variable {less : Item → Item → Bool} {items : List Item} {rest : List Item}

theorem selectFront_cases {item front : Item} {rest others : List Item}
    (selected : selectFront less (item :: rest) = some (front, others)) :
    (selectFront less rest = none ∧ front = item ∧ others = []) ∨
    (∃ left, selectFront less rest = some (front, left) ∧ less item front = true ∧
      others = item :: left) ∨
    ∃ next left, selectFront less rest = some (next, left) ∧ less item next = false ∧
      front = item ∧ others = next :: left := by
  unfold selectFront at selected
  split at selected
  · rename_i none'
    cases selected
    exact Or.inl ⟨none', rfl, rfl⟩
  · rename_i next left found
    split at selected
    · rename_i exceeded
      cases selected
      exact Or.inr (Or.inl ⟨left, found, exceeded, rfl⟩)
    · rename_i kept
      cases selected
      exact Or.inr (Or.inr ⟨next, left, found, by simpa using kept, rfl, rfl⟩)

theorem selectFront_none (nothing : selectFront less items = none) : items = [] := by
  cases items with
  | nil => rfl
  | cons item rest =>
    unfold selectFront at nothing
    split at nothing
    · cases nothing
    · split at nothing
      · cases nothing
      · cases nothing

theorem selectFront_perm {front : Item} (selected : selectFront less items = some (front, rest)) :
    (front :: rest).Perm items := by
  induction items generalizing front rest with
  | nil => cases selected
  | cons item later ih =>
    rcases selectFront_cases selected with ⟨nothing, rfl, rfl⟩ | ⟨left, found, _, rfl⟩ |
      ⟨next, left, found, _, rfl, rfl⟩
    · rw [selectFront_none nothing]
    · exact (List.Perm.swap item front left).trans ((ih found).cons item)
    · exact (ih found).cons front

theorem selectFront_front {front : Item} (order : StrictWeak less)
    (selected : selectFront less items = some (front, rest)) :
    ∀ item ∈ rest, less front item = false := by
  induction items generalizing front rest with
  | nil => cases selected
  | cons first later ih =>
    rcases selectFront_cases selected with ⟨_, rfl, rfl⟩ | ⟨left, found, exceeded, rfl⟩ |
      ⟨next, left, found, kept, rfl, rfl⟩
    · intro item member
      cases member
    · intro item member
      rcases List.mem_cons.mp member with here | there
      · rw [here]
        exact order.asymmetric first front exceeded
      · exact ih found item there
    · intro item member
      rcases List.mem_cons.mp member with here | there
      · rw [here]
        exact kept
      · by_contra exceeds
        rw [Bool.not_eq_false] at exceeds
        rcases order.splits front next item exceeds with early | late
        · rw [kept] at early
          cases early
        · rw [ih found item there] at late
          cases late

def selectionHeap (Item : Type) : Heap Item where
  popHeap := selectFront
  popHeap_perm := fun _ _ _ _ selected => selectFront_perm selected
  popHeap_none := fun _ _ nothing => selectFront_none nothing
  popHeap_front := fun _ _ _ _ order selected => selectFront_front order selected

end FrontHeap
