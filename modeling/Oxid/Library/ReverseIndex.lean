import Mathlib.Data.Finset.Basic
import Oxid.Library.OrderedMap

/-!
An index from what items refer to back to the items, kept as sets under their targets; a set
that runs empty goes.
-/
namespace ReverseIndex
open OrderedMaps

variable {Target Item : Type} [MapKey Target] [DecidableEq Target] [DecidableEq Item]

abbrev Index (Target Item : Type) [MapKey Target] := OrderedMap Target (Finset Item)

def link (item : Item) (target : Target) (index : Index Target Item) : Index Target Item :=
  index.edit target fun items => insert item (items.getD ∅)

def unlink (item : Item) (target : Target) (index : Index Target Item) : Index Target Item :=
  match index.find? target with
  | none => index
  | some items =>
    if items.erase item = ∅ then index.erase target else index.set target (items.erase item)

def linkAll (item : Item) : List Target → Index Target Item → Index Target Item
  | [], index => index
  | target :: rest, index => linkAll item rest (link item target index)

def unlinkAll (item : Item) : List Target → Index Target Item → Index Target Item
  | [], index => index
  | target :: rest, index => unlinkAll item rest (unlink item target index)

/-- What is found under a target. -/
def itemsAt (index : Index Target Item) (target : Target) : Finset Item :=
  (index.find? target).getD ∅

def NoneEmpty (index : Index Target Item) : Prop :=
  ∀ target, index.find? target ≠ some ∅

theorem itemsAt_link (item : Item) (target other : Target) (index : Index Target Item) :
    itemsAt (link item target index) other =
      if other = target then insert item (itemsAt index other) else itemsAt index other := by
  unfold itemsAt link
  split
  · rename_i same
    rw [same, OrderedMap.find?_edit_same, Option.getD_some]
  · rename_i apart
    rw [OrderedMap.find?_edit_other _ _ apart]

theorem itemsAt_unlink (item : Item) (target other : Target) (index : Index Target Item) :
    itemsAt (unlink item target index) other =
      if other = target then (itemsAt index other).erase item else itemsAt index other := by
  unfold itemsAt unlink
  cases found : index.find? target with
  | none =>
    dsimp only
    split
    · rename_i same
      rw [same, found]
      rfl
    · rfl
  | some items =>
    dsimp only
    by_cases same : other = target
    · rw [if_pos same, same, found, Option.getD_some]
      split
      · rename_i gone
        rw [OrderedMap.find?_erase_same, gone]
        rfl
      · rw [OrderedMap.find?_set_same, Option.getD_some]
    · rw [if_neg same]
      split
      · rw [OrderedMap.find?_erase_other _ same]
      · rw [OrderedMap.find?_set_other _ _ same]

variable {index : Index Target Item}

theorem noneEmpty_link (tidy : NoneEmpty index) (item : Item) (target : Target) :
    NoneEmpty (link item target index) := by
  intro other empty
  by_cases same : other = target
  · rw [same, link, OrderedMap.find?_edit_same, Option.some.injEq] at empty
    exact Finset.insert_ne_empty _ _ empty
  · rw [link, OrderedMap.find?_edit_other _ _ same] at empty
    exact tidy other empty

omit [DecidableEq Target] in
theorem noneEmpty_unlink (tidy : NoneEmpty index) (item : Item) (target : Target) :
    NoneEmpty (unlink item target index) := by
  unfold unlink
  split
  · exact tidy
  · split
    · intro other empty
      exact tidy other (OrderedMap.find?_erase_some empty).2
    · rename_i left
      intro other empty
      rcases OrderedMap.find?_set_some empty with ⟨_, same⟩ | ⟨_, before⟩
      · exact left same.symm
      · exact tidy other before

theorem mem_linkAll (item other : Item) (targets : List Target) (target : Target)
    (index : Index Target Item) :
    other ∈ itemsAt (linkAll item targets index) target ↔
      other ∈ itemsAt index target ∨ (other = item ∧ target ∈ targets) := by
  induction targets generalizing index with
  | nil => simp [linkAll]
  | cons first rest ih =>
    rw [linkAll, ih, itemsAt_link, List.mem_cons]
    split
    · rename_i same
      rw [Finset.mem_insert]
      tauto
    · tauto

theorem mem_unlinkAll (item other : Item) (targets : List Target) (target : Target)
    (index : Index Target Item) :
    other ∈ itemsAt (unlinkAll item targets index) target ↔
      other ∈ itemsAt index target ∧ ¬ (other = item ∧ target ∈ targets) := by
  induction targets generalizing index with
  | nil => simp [unlinkAll]
  | cons first rest ih =>
    rw [unlinkAll, ih, itemsAt_unlink, List.mem_cons]
    split
    · rename_i same
      rw [Finset.mem_erase]
      tauto
    · tauto

theorem noneEmpty_linkAll (tidy : NoneEmpty index) (item : Item) (targets : List Target) :
    NoneEmpty (linkAll item targets index) := by
  induction targets generalizing index with
  | nil => exact tidy
  | cons first rest ih => exact ih (noneEmpty_link tidy item first)

omit [DecidableEq Target] in
theorem noneEmpty_unlinkAll (tidy : NoneEmpty index) (item : Item) (targets : List Target) :
    NoneEmpty (unlinkAll item targets index) := by
  induction targets generalizing index with
  | nil => exact tidy
  | cons first rest ih => exact ih (noneEmpty_unlink tidy item first)

section Tables

variable [MapKey Item] {Value : Type} (targetsOf : Value → List Target)

/-- An item is found under a target exactly if it stands in the table and refers to it. -/
def Indexes (table : OrderedMap Item Value) (index : Index Target Item) : Prop :=
  ∀ target item, item ∈ itemsAt index target ↔
    ∃ value, table.find? item = some value ∧ target ∈ targetsOf value

variable {targetsOf} {table : OrderedMap Item Value} {index : Index Target Item}

omit [DecidableEq Target] [DecidableEq Item] in
theorem Indexes.empty : Indexes targetsOf (∅ : OrderedMap Item Value) (∅ : Index Target Item) := by
  intro target item
  constructor
  · intro member
    cases member
  · rintro ⟨value, found, _⟩
    cases found

theorem Indexes.insert {item : Item} {value : Value} (indexes : Indexes targetsOf table index)
    (fresh : table.find? item = none) :
    Indexes targetsOf (table.set item value) (linkAll item (targetsOf value) index) := by
  intro target other
  rw [mem_linkAll, indexes target other, OrderedMap.find?_set]
  split
  · rename_i same
    rw [same, fresh]
    simp
  · rename_i apart
    simp [apart]

theorem Indexes.erase {item : Item} {value : Value} (indexes : Indexes targetsOf table index)
    (standing : table.find? item = some value) :
    Indexes targetsOf (table.erase item) (unlinkAll item (targetsOf value) index) := by
  intro target other
  rw [mem_unlinkAll, indexes target other]
  by_cases same : other = item
  · rw [same, standing, OrderedMap.find?_erase_same]
    simp
  · rw [OrderedMap.find?_erase_other _ same]
    simp [same]

end Tables

end ReverseIndex
