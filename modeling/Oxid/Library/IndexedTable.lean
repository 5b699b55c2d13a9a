import Mathlib.Algebra.Group.Basic
import Mathlib.Data.Nat.Basic
import Oxid.Library.OrderedMap

/-!
A table of records beside an index. Each record claims slots, and the index says of a
claimed slot which record claims it and at which position. A total kept beside the table is
the sum of a weight over the records.
-/
namespace IndexedTables
open OrderedMaps OrderedMap

variable {Key Slot Mark Entry Weight : Type} [MapKey Key] [MapKey Slot]

def markAll (mark : Nat → Mark) : Nat → List Slot → OrderedMap Slot Mark → OrderedMap Slot Mark
  | _, [], index => index
  | position, slot :: rest, index =>
    markAll mark (position + 1) rest (index.set slot (mark position))

def releaseAll : List Slot → OrderedMap Slot Mark → OrderedMap Slot Mark
  | [], index => index
  | slot :: rest, index => releaseAll rest (index.erase slot)

variable {slots : List Slot} {slot : Slot} {index : OrderedMap Slot Mark}

theorem find?_markAll_other (mark : Nat → Mark) (unclaimed : slot ∉ slots) (position : Nat)
    (index : OrderedMap Slot Mark) :
    (markAll mark position slots index).find? slot = index.find? slot := by
  induction slots generalizing position index with
  | nil => rfl
  | cons first rest ih =>
    simp only [List.mem_cons, not_or] at unclaimed
    rw [markAll, ih unclaimed.2, find?_set_other index _ unclaimed.1]

theorem find?_markAll_claimed (mark : Nat → Mark) (distinct : slots.Nodup) (position : Nat)
    (index : OrderedMap Slot Mark) {i : Nat} (claimed : slots[i]? = some slot) :
    (markAll mark position slots index).find? slot = some (mark (position + i)) := by
  induction slots generalizing position index i with
  | nil => simp at claimed
  | cons first rest ih =>
    obtain ⟨once, later⟩ := List.nodup_cons.mp distinct
    cases i with
    | zero =>
      simp only [List.getElem?_cons_zero, Option.some.injEq] at claimed
      subst claimed
      rw [markAll, find?_markAll_other mark once, find?_set_same, Nat.add_zero]
    | succ i =>
      rw [markAll, ih later (position + 1) _ claimed]
      congr 2
      omega

theorem find?_markAll_cases (mark : Nat → Mark) {position : Nat} {found : Mark}
    (marked : (markAll mark position slots index).find? slot = some found) :
    (slot ∈ slots ∧ ∃ i, found = mark i) ∨ index.find? slot = some found := by
  induction slots generalizing position index with
  | nil => exact .inr marked
  | cons first rest ih =>
    rcases ih marked with ⟨later, i, same⟩ | before
    · exact .inl ⟨List.mem_cons_of_mem first later, i, same⟩
    · rcases find?_set_some before with ⟨same, is⟩ | ⟨_, earlier⟩
      · rw [same]
        exact .inl ⟨List.mem_cons_self, position, is⟩
      · exact .inr earlier

theorem find?_releaseAll_other (kept : slot ∉ slots) (index : OrderedMap Slot Mark) :
    (releaseAll slots index).find? slot = index.find? slot := by
  induction slots generalizing index with
  | nil => rfl
  | cons first rest ih =>
    simp only [List.mem_cons, not_or] at kept
    rw [releaseAll, ih kept.2, find?_erase_other index kept.1]

theorem find?_releaseAll_none (unmarked : index.find? slot = none) :
    (releaseAll slots index).find? slot = none := by
  induction slots generalizing index with
  | nil => exact unmarked
  | cons first rest ih =>
    apply ih
    by_cases same : slot = first
    · subst same
      exact find?_erase_same index slot
    · rw [find?_erase_other index same, unmarked]

theorem find?_releaseAll_claimed (claimed : slot ∈ slots) (index : OrderedMap Slot Mark) :
    (releaseAll slots index).find? slot = none := by
  induction slots generalizing index with
  | nil => cases claimed
  | cons first rest ih =>
    rcases List.mem_cons.mp claimed with here | later
    · subst here
      rw [releaseAll]
      exact find?_releaseAll_none (find?_erase_same index slot)
    · exact ih later (index.erase first)

section Index
variable (slots : Entry → List Slot) (mark : Key → Nat → Mark)

/-- The index marks exactly the slots the records claim, each for its claimant. -/
structure Indexed (records : OrderedMap Key Entry) (index : OrderedMap Slot Mark) : Prop where
  listed : ∀ key entry, records.find? key = some entry →
    ∀ (i : Nat) slot, (slots entry)[i]? = some slot → index.find? slot = some (mark key i)
  owned : ∀ slot found, index.find? slot = some found → ∃ key entry, ∃ i : Nat,
    records.find? key = some entry ∧ (slots entry)[i]? = some slot ∧ found = mark key i

variable {slots} {mark} {records : OrderedMap Key Entry} {index : OrderedMap Slot Mark}

theorem empty_indexed : Indexed slots mark (∅ : OrderedMap Key Entry) ∅ := by
  constructor
  · intro key entry standing
    simp at standing
  · intro slot found marked
    simp at marked

variable {entry : Entry} {key : Key}

theorem add_indexed (indexed : Indexed slots mark records index) (fresh : records.find? key = none)
    (distinct : (slots entry).Nodup) (free : ∀ slot ∈ slots entry, index.find? slot = none) :
    Indexed slots mark (records.set key entry) (markAll (mark key) 0 (slots entry) index) := by
  constructor
  · intro other standing found i slot claimed
    by_cases same : other = key
    · subst same
      rw [find?_set_same] at found
      cases found
      simpa using find?_markAll_claimed (mark other) distinct 0 index claimed
    · rw [find?_set_other records entry same] at found
      have marked := indexed.listed other standing found i slot claimed
      have apart : slot ∉ slots entry := by
        intro claimedHere
        rw [free slot claimedHere] at marked
        cases marked
      rw [find?_markAll_other (mark key) apart, marked]
  · intro slot found marked
    by_cases claimed : slot ∈ slots entry
    · obtain ⟨i, position⟩ := List.mem_iff_getElem?.mp claimed
      have placed := find?_markAll_claimed (mark key) distinct 0 index position
      rw [placed, Nat.zero_add] at marked
      cases marked
      exact ⟨key, entry, i, find?_set_same records key entry, position, rfl⟩
    · rw [find?_markAll_other (mark key) claimed] at marked
      obtain ⟨other, standing, i, holds, position, same⟩ := indexed.owned slot found marked
      have apart : other ≠ key := by
        intro equal
        subst equal
        rw [fresh] at holds
        cases holds
      exact ⟨other, standing, i, by rw [find?_set_other records entry apart, holds], position, same⟩

theorem drop_indexed (indexed : Indexed slots mark records index)
    (markApart : Function.Injective2 mark) (standing : records.find? key = some entry) :
    Indexed slots mark (records.erase key) (releaseAll (slots entry) index) := by
  have claimant : ∀ {other kept} {i : Nat} {slot}, records.find? other = some kept →
      (slots kept)[i]? = some slot → slot ∈ slots entry → other = key := by
    intro other kept i slot holds position claimed
    obtain ⟨j, here⟩ := List.mem_iff_getElem?.mp claimed
    have first := indexed.listed other kept holds i slot position
    have second := indexed.listed key entry standing j slot here
    rw [first, Option.some.injEq] at second
    exact (markApart second).1
  constructor
  · intro other kept found i slot position
    obtain ⟨apart, before⟩ := find?_erase_some found
    have unclaimed : slot ∉ slots entry := fun claimed => apart (claimant before position claimed)
    rw [find?_releaseAll_other unclaimed]
    exact indexed.listed other kept before i slot position
  · intro slot found marked
    have unclaimed : slot ∉ slots entry := by
      intro claimed
      rw [find?_releaseAll_claimed claimed] at marked
      cases marked
    rw [find?_releaseAll_other unclaimed] at marked
    obtain ⟨other, kept, i, holds, position, same⟩ := indexed.owned slot found marked
    have apart : other ≠ key := by
      intro equal
      subst equal
      rw [standing] at holds
      cases holds
      exact unclaimed (List.mem_iff_getElem?.mpr ⟨i, position⟩)
    exact ⟨other, kept, i, by rw [find?_erase_other records apart, holds], position, same⟩

theorem unmarked_not_indexed (indexed : Indexed slots mark records index)
    (markApart : Function.Injective2 mark) (fresh : records.find? key = none)
    (claims : slots entry ≠ []) :
    ¬ Indexed slots mark (records.set key entry) index := by
  intro marked
  obtain ⟨slot, rest, first⟩ := List.exists_cons_of_ne_nil claims
  have position : (slots entry)[0]? = some slot := by simp [first]
  have here := marked.listed key entry (find?_set_same records key entry) 0 slot position
  obtain ⟨other, standing, i, holds, _, same⟩ := indexed.owned slot _ here
  have equal := (markApart same).1
  subst equal
  rw [fresh] at holds
  cases holds

end Index

section Total
variable [AddCommGroup Weight] (weight : Entry → Weight)

def total (records : OrderedMap Key Entry) : Weight :=
  (records.entries.map fun entry => weight entry.2).sum

variable {records : OrderedMap Key Entry}

theorem total_set {key : Key} (entry : Entry) (fresh : records.find? key = none) :
    total weight (records.set key entry) = total weight records + weight entry := by
  have joined := ((set_perm entry fresh).map fun item => weight item.2).sum_eq
  rw [total, joined, List.map_cons, List.sum_cons, add_comm]
  rfl

theorem total_erase {key : Key} {entry : Entry} (standing : records.find? key = some entry) :
    total weight (records.erase key) = total weight records - weight entry := by
  have parted := ((erase_perm standing).map fun item => weight item.2).sum_eq
  rw [List.map_cons, List.sum_cons] at parted
  rw [total, total, parted, add_sub_cancel_left]

end Total

end IndexedTables
