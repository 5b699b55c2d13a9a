import Mathlib.Order.Defs.LinearOrder
import Mathlib.Order.Lattice
import Mathlib.Tactic.Common

/-!
A register that keeps the item with the newest stamp of those offered to it. Among items of
one stamp the first wins.
-/
namespace NewestWins

variable {Item Stamp : Type} [LinearOrder Stamp] (stamp : Item → Stamp)

def offer (kept : Option Item) (item : Item) : Option Item :=
  match kept with
  | none => some item
  | some standing => if stamp item ≤ stamp standing then some standing else some item

def newest (items : List Item) : Option Item := items.foldl (offer stamp) none

theorem offer_spec (start : Option Item) (item : Item) :
    ∃ standing, offer stamp start item = some standing ∧
      (start = some standing ∨ standing = item) ∧ stamp item ≤ stamp standing ∧
      ∀ other, start = some other → stamp other ≤ stamp standing := by
  cases start with
  | none => exact ⟨item, rfl, Or.inr rfl, le_refl _, nofun⟩
  | some before =>
    unfold offer
    dsimp only
    split_ifs with older
    · refine ⟨before, rfl, Or.inl rfl, older, ?_⟩
      intro other same
      rw [← Option.some.inj same]
    · refine ⟨item, rfl, Or.inr rfl, le_refl _, ?_⟩
      intro other same
      rw [← Option.some.inj same]
      exact le_of_lt (not_le.mp older)

theorem foldl_offer (items : List Item) {start : Option Item} {item : Item}
    (kept : items.foldl (offer stamp) start = some item) :
    (start = some item ∨ item ∈ items) ∧ (∀ other ∈ items, stamp other ≤ stamp item) ∧
      ∀ other, start = some other → stamp other ≤ stamp item := by
  induction items generalizing start with
  | nil =>
    rw [List.foldl_nil] at kept
    constructor
    · exact Or.inl kept
    · constructor
      · nofun
      · intro other standing
        rw [kept, Option.some_inj] at standing
        rw [standing]
  | cons first rest ih =>
    obtain ⟨standing, offered, source, newer, below⟩ := offer_spec stamp start first
    rw [List.foldl_cons, offered] at kept
    obtain ⟨origin, others, above⟩ := ih kept
    have beaten := above standing rfl
    constructor
    · rcases origin with here | later
      · rw [← Option.some.inj here]
        rcases source with before | offeredNow
        · exact Or.inl before
        · exact Or.inr (List.mem_cons.mpr (Or.inl offeredNow))
      · exact Or.inr (List.mem_cons_of_mem _ later)
    · constructor
      · intro other member
        rcases List.mem_cons.mp member with here | later
        · rw [here]
          exact le_trans newer beaten
        · exact others other later
      · intro other same
        exact le_trans (below other same) beaten

variable {stamp} {items others : List Item} {item other : Item}

theorem newest_mem (kept : newest stamp items = some item) : item ∈ items := by
  rcases (foldl_offer stamp items kept).1 with nothing | member
  · cases nothing
  · exact member

theorem newest_greatest (kept : newest stamp items = some item) (member : other ∈ items) :
    stamp other ≤ stamp item := (foldl_offer stamp items kept).2.1 other member

theorem foldl_offer_some (items : List Item) (item : Item) :
    ∃ kept, items.foldl (offer stamp) (some item) = some kept := by
  induction items generalizing item with
  | nil => exact ⟨item, rfl⟩
  | cons first rest ih =>
    rw [List.foldl_cons]
    unfold offer
    dsimp only
    split_ifs
    · exact ih item
    · exact ih first

theorem newest_none : newest stamp items = none ↔ items = [] := by
  constructor
  · intro nothing
    cases items with
    | nil => rfl
    | cons first rest =>
      obtain ⟨kept, found⟩ := @foldl_offer_some _ _ _ stamp rest first
      unfold newest at nothing
      rw [List.foldl_cons, show offer stamp none first = some first from rfl, found] at nothing
      cases nothing
  · intro empty
    rw [empty]
    rfl

theorem newest_first (greatest : ∀ other ∈ items, stamp other ≤ stamp item) :
    newest stamp (item :: items) = some item := by
  unfold newest
  rw [List.foldl_cons]
  have standing : offer stamp none item = some item := rfl
  rw [standing]
  induction items with
  | nil => rfl
  | cons first rest ih =>
    have older := greatest first List.mem_cons_self
    have kept : offer stamp (some item) first = some item := by
      unfold offer
      dsimp only
      rw [if_pos older]
    rw [List.foldl_cons, kept]
    exact ih fun other member => greatest other (List.mem_cons_of_mem _ member)

/-- Whatever the newest items have in common does not depend on order or repetition. -/
theorem newest_agree {View : Type} {view : Item → View}
    (same : ∀ item, item ∈ items ↔ item ∈ others)
    (oneNewest : ∀ left ∈ items, ∀ right ∈ items, stamp left = stamp right →
      (∀ other ∈ items, stamp other ≤ stamp left) → view left = view right) :
    (newest stamp items).map view = (newest stamp others).map view := by
  cases here : newest stamp items with
  | none =>
    rw [newest_none] at here
    have nothing : others = [] := by
      apply List.eq_nil_iff_forall_not_mem.mpr
      intro item member
      have listed := (same item).mpr member
      rw [here] at listed
      cases listed
    rw [newest_none.mpr nothing]
  | some left =>
    cases there : newest stamp others with
    | none =>
      rw [newest_none] at there
      have listed := (same left).mp (newest_mem here)
      rw [there] at listed
      cases listed
    | some right =>
      have first := newest_mem here
      have second := (same right).mpr (newest_mem there)
      have below := newest_greatest there ((same left).mp first)
      have above := newest_greatest here second
      have equal := oneNewest left first right second (le_antisymm below above)
        (fun other member => newest_greatest here member)
      rw [Option.map_some, Option.map_some, equal]

end NewestWins
