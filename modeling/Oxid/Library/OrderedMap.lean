import Mathlib.Algebra.BigOperators.Group.List.Basic
import Mathlib.Algebra.Ring.Int.Defs
import Mathlib.Data.List.Nodup
import Mathlib.Data.List.Pairwise
import Mathlib.Tactic.Common

/-!
Maps kept as a list in the order of their keys, the order in which they are
walked and written out. A key says where it stands by a number, and keys apart
stand apart.
-/
namespace OrderedMaps

class MapKey (Key : Type) where
  place : Key → Nat
  apart : Function.Injective place

export MapKey (place)

variable {Key Value : Type} [MapKey Key]

structure OrderedMap (Key Value : Type) [MapKey Key] where
  entries : List (Key × Value)
  ascending : entries.Pairwise fun earlier later => place earlier.1 < place later.1

namespace OrderedMap

def empty : OrderedMap Key Value := ⟨[], List.Pairwise.nil⟩

instance : EmptyCollection (OrderedMap Key Value) := ⟨empty⟩

variable {map : OrderedMap Key Value} {entries : List (Key × Value)} {key other : Key}
variable {value : Value} {left right : OrderedMap Key Value}

theorem ext (same : left.entries = right.entries) :
    left = right := by
  cases left
  cases right
  cases same
  rfl

def findEntry (key : Key) : List (Key × Value) → Option Value
  | [] => none
  | (other, value) :: rest => if place other = place key then some value else findEntry key rest

def find? (map : OrderedMap Key Value) (key : Key) : Option Value := findEntry key map.entries

def count (map : OrderedMap Key Value) (key : Key) : Bool := (map.find? key).isSome

/-- The entries after an edit at one key, which sees what stood there. -/
def editEntries (key : Key) (edit : Option Value → Value) :
    List (Key × Value) → List (Key × Value)
  | [] => [(key, edit none)]
  | (other, value) :: rest =>
    if place key < place other then (key, edit none) :: (other, value) :: rest
    else if place key = place other then (other, edit (some value)) :: rest
    else (other, value) :: editEntries key edit rest

theorem editEntries_keys (key : Key) (edit : Option Value → Value)
    (entries : List (Key × Value)) (entry : Key × Value)
    (member : entry ∈ editEntries key edit entries) :
    place entry.1 = place key ∨ ∃ old ∈ entries, place entry.1 = place old.1 := by
  induction entries with
  | nil =>
    simp only [editEntries, List.mem_singleton] at member
    exact .inl (by rw [member])
  | cons first rest ih =>
    simp only [editEntries] at member
    split at member
    · rcases List.mem_cons.mp member with new | old
      · exact .inl (by rw [new])
      · exact .inr ⟨entry, old, rfl⟩
    · split at member
      · rcases List.mem_cons.mp member with new | old
        · exact .inr ⟨first, List.mem_cons_self, by rw [new]⟩
        · exact .inr ⟨entry, List.mem_cons_of_mem _ old, rfl⟩
      · rcases List.mem_cons.mp member with same | later
        · exact .inr ⟨first, List.mem_cons_self, by rw [same]⟩
        · rcases ih later with new | ⟨old, standing, at_old⟩
          · exact .inl new
          · exact .inr ⟨old, List.mem_cons_of_mem _ standing, at_old⟩

theorem editEntries_ascending (key : Key) (edit : Option Value → Value)
    (entries : List (Key × Value))
    (ascending : entries.Pairwise fun earlier later => place earlier.1 < place later.1) :
    (editEntries key edit entries).Pairwise
      fun earlier later => place earlier.1 < place later.1 := by
  induction entries with
  | nil => simp [editEntries]
  | cons first rest ih =>
    obtain ⟨before, later⟩ := List.pairwise_cons.mp ascending
    simp only [editEntries]
    split
    · rename_i first_later
      apply List.pairwise_cons.mpr
      constructor
      · intro entry member
        rcases List.mem_cons.mp member with same | further
        · subst same
          exact first_later
        · have := before entry further
          simp only
          omega
      · exact ascending
    · split
      · apply List.pairwise_cons.mpr
        exact ⟨before, later⟩
      · rename_i not_before not_same
        apply List.pairwise_cons.mpr
        constructor
        · intro entry member
          rcases editEntries_keys key edit rest entry member with new | ⟨old, standing, at_old⟩
          · simp only
            omega
          · have := before old standing
            simp only
            omega
        · exact ih later

def edit (map : OrderedMap Key Value) (key : Key) (change : Option Value → Value) :
    OrderedMap Key Value :=
  ⟨editEntries key change map.entries, editEntries_ascending key change map.entries map.ascending⟩

/-- Insertion leaves an entry that stands already. -/
def insert (map : OrderedMap Key Value) (key : Key) (value : Value) : OrderedMap Key Value :=
  map.edit key fun standing => standing.getD value

def set (map : OrderedMap Key Value) (key : Key) (value : Value) : OrderedMap Key Value :=
  map.edit key fun _ => value

def filter (map : OrderedMap Key Value) (keep : Key × Value → Bool) : OrderedMap Key Value :=
  ⟨map.entries.filter keep, map.ascending.filter keep⟩

def erase (map : OrderedMap Key Value) (key : Key) : OrderedMap Key Value :=
  map.filter fun entry => place entry.1 != place key

def size (map : OrderedMap Key Value) : Nat := map.entries.length

theorem findEntry_edit_same (key : Key) (change : Option Value → Value)
    (entries : List (Key × Value))
    (ascending : entries.Pairwise fun earlier later => place earlier.1 < place later.1) :
    findEntry key (editEntries key change entries) = some (change (findEntry key entries)) := by
  induction entries with
  | nil => simp [editEntries, findEntry]
  | cons first rest ih =>
    obtain ⟨before, later⟩ := List.pairwise_cons.mp ascending
    have absent : place key < place first.1 → findEntry key rest = none := by
      intro earlier
      clear ih ascending later
      induction rest with
      | nil => rfl
      | cons second rest ih =>
        have := before second List.mem_cons_self
        have further : ∀ entry ∈ rest, place first.1 < place entry.1 := by
          intro entry member
          exact before entry (List.mem_cons_of_mem _ member)
        simp only [findEntry]
        rw [if_neg (by omega), ih further]
    simp only [editEntries]
    split
    · rename_i earlier
      simp only [findEntry, if_true]
      rw [if_neg (by omega), absent earlier]
    · split
      · rename_i same
        simp only [findEntry]
        rw [if_pos same.symm, if_pos same.symm]
      · rename_i not_before not_same
        simp only [findEntry]
        rw [if_neg (fun same => not_same same.symm), if_neg (fun same => not_same same.symm)]
        exact ih later

theorem findEntry_edit_other (change : Option Value → Value) (different : other ≠ key)
    (entries : List (Key × Value)) :
    findEntry other (editEntries key change entries) = findEntry other entries := by
  have away : place key ≠ place other := fun same => different (MapKey.apart same).symm
  induction entries with
  | nil => simp [editEntries, findEntry, away]
  | cons first rest ih =>
    simp only [editEntries]
    split
    · simp only [findEntry, if_neg away]
    · split
      · rename_i same
        simp only [findEntry, ← same, if_neg away]
      · simp only [findEntry, ih]

@[simp] theorem find?_empty (key : Key) : (∅ : OrderedMap Key Value).find? key = none := rfl

@[simp] theorem find?_edit_same (map : OrderedMap Key Value) (key : Key)
    (change : Option Value → Value) :
    (map.edit key change).find? key = some (change (map.find? key)) :=
  findEntry_edit_same key change map.entries map.ascending

theorem find?_edit_other (map : OrderedMap Key Value) (change : Option Value → Value)
    (different : other ≠ key) :
    (map.edit key change).find? other = map.find? other :=
  findEntry_edit_other change different map.entries

@[simp] theorem find?_set_same (map : OrderedMap Key Value) (key : Key) (value : Value) :
    (map.set key value).find? key = some value := find?_edit_same map key _

theorem find?_set_other (map : OrderedMap Key Value) (value : Value) (different : other ≠ key) :
    (map.set key value).find? other = map.find? other :=
  find?_edit_other map _ different

@[simp] theorem find?_insert_same (map : OrderedMap Key Value) (key : Key) (value : Value) :
    (map.insert key value).find? key = some ((map.find? key).getD value) :=
  find?_edit_same map key _

theorem find?_insert_other (map : OrderedMap Key Value) (value : Value) (different : other ≠ key) :
    (map.insert key value).find? other = map.find? other :=
  find?_edit_other map _ different

theorem editEntries_last (key : Key) (change : Option Value → Value)
    (entries : List (Key × Value)) (behind : ∀ entry ∈ entries, place entry.1 < place key) :
    editEntries key change entries = entries ++ [(key, change none)] := by
  induction entries with
  | nil => rfl
  | cons first rest ih =>
    have earlier := behind first List.mem_cons_self
    simp only [editEntries, List.cons_append]
    rw [if_neg (by omega), if_neg (by omega)]
    rw [ih fun entry member => behind entry (List.mem_cons_of_mem _ member)]

def insertAll (map : OrderedMap Key Value) (entries : List (Key × Value)) :
    OrderedMap Key Value :=
  entries.foldl (fun current entry => current.insert entry.1 entry.2) map

theorem insertAll_entries (map : OrderedMap Key Value) (more : List (Key × Value))
    (ascending : (map.entries ++ more).Pairwise
      fun earlier later => place earlier.1 < place later.1) :
    (map.insertAll more).entries = map.entries ++ more := by
  induction more generalizing map with
  | nil => simp [insertAll]
  | cons entry rest ih =>
    have behind : ∀ old ∈ map.entries, place old.1 < place entry.1 := by
      intro old member
      exact (List.pairwise_append.mp ascending).2.2 old member entry List.mem_cons_self
    have inserted : (map.insert entry.1 entry.2).entries = map.entries ++ [entry] :=
      editEntries_last entry.1 _ map.entries behind
    have later := ih (map.insert entry.1 entry.2) (by
      rw [inserted]
      simpa using ascending)
    rw [inserted] at later
    simpa [insertAll] using later

variable {key : Key}

theorem findEntry_mem (found : findEntry key entries = some value) : (key, value) ∈ entries := by
  induction entries with
  | nil => simp [findEntry] at found
  | cons first rest ih =>
    simp only [findEntry] at found
    split at found
    · rename_i same
      have here : first = (key, value) := by
        cases found
        exact Prod.ext (MapKey.apart same) rfl
      rw [here]
      exact List.mem_cons_self
    · exact List.mem_cons_of_mem first (ih found)

theorem findEntry_of_mem
    (ascending : entries.Pairwise fun earlier later => place earlier.1 < place later.1)
    (member : (key, value) ∈ entries) : findEntry key entries = some value := by
  induction entries with
  | nil => cases member
  | cons first rest ih =>
    obtain ⟨before, later⟩ := List.pairwise_cons.mp ascending
    rcases List.mem_cons.mp member with here | further
    · simp [findEntry, ← here]
    · have apart := before (key, value) further
      simp only [findEntry]
      rw [if_neg (by simp only at apart; omega)]
      exact ih later further

theorem mem_entries_iff (map : OrderedMap Key Value) (key : Key) (value : Value) :
    (key, value) ∈ map.entries ↔ map.find? key = some value :=
  ⟨findEntry_of_mem map.ascending, findEntry_mem⟩

theorem absent_iff (map : OrderedMap Key Value) (key : Key) :
    map.find? key = none ↔ ∀ value, (key, value) ∉ map.entries := by
  constructor
  · intro absent value member
    rw [mem_entries_iff, absent] at member
    cases member
  · intro absent
    cases found : map.find? key with
    | none => rfl
    | some value => exact absurd ((map.mem_entries_iff key value).mpr found) (absent value)

theorem keys_nodup (map : OrderedMap Key Value) : (map.entries.map Prod.fst).Nodup := by
  apply List.pairwise_map.mpr
  apply map.ascending.imp
  intro earlier later before same
  rw [same] at before
  exact Nat.lt_irrefl _ before

theorem eq_of_find? (same : ∀ key, left.find? key = right.find? key) : left = right := by
  have distinct : ∀ map : OrderedMap Key Value, map.entries.Nodup :=
    fun map => List.Nodup.of_map Prod.fst map.keys_nodup
  have members : ∀ entry, entry ∈ left.entries ↔ entry ∈ right.entries := by
    intro entry
    rw [show entry = (entry.1, entry.2) from rfl, mem_entries_iff, mem_entries_iff, same]
  apply OrderedMap.ext
  apply ((List.perm_ext_iff_of_nodup (distinct left) (distinct right)).mpr members).eq_of_pairwise
    _ left.ascending right.ascending
  intro earlier later _ _ before after
  omega

@[simp] theorem find?_erase_same (map : OrderedMap Key Value) (key : Key) :
    (map.erase key).find? key = none := by
  rw [absent_iff]
  intro value member
  simp [erase, filter] at member

theorem find?_erase_other (map : OrderedMap Key Value) (different : other ≠ key) :
    (map.erase key).find? other = map.find? other := by
  have away : place other ≠ place key := fun same => different (MapKey.apart same)
  apply Option.ext
  intro value
  rw [← mem_entries_iff, ← mem_entries_iff]
  simp [erase, filter, away]

theorem find?_set [DecidableEq Key] (map : OrderedMap Key Value) (key other : Key)
    (value : Value) :
    (map.set key value).find? other = if other = key then some value else map.find? other := by
  by_cases same : other = key
  · rw [if_pos same, same, find?_set_same]
  · rw [if_neg same, find?_set_other _ _ same]

theorem find?_set_some {value found : Value} (here : (map.set key value).find? other = some found) :
    (other = key ∧ found = value) ∨ (other ≠ key ∧ map.find? other = some found) := by
  by_cases same : other = key
  · rw [same, find?_set_same] at here
    exact .inl ⟨same, (Option.some.inj here).symm⟩
  · rw [find?_set_other map value same] at here
    exact .inr ⟨same, here⟩

theorem find?_erase_some {found : Value} (left : (map.erase key).find? other = some found) :
    other ≠ key ∧ map.find? other = some found := by
  by_cases same : other = key
  · rw [same, find?_erase_same] at left
    cases left
  · rw [find?_erase_other map same] at left
    exact ⟨same, left⟩

theorem edit_eq_set (map : OrderedMap Key Value) (key : Key) (change : Option Value → Value) :
    map.edit key change = map.set key (change (map.find? key)) := by
  apply eq_of_find?
  intro other
  by_cases same : other = key
  · rw [same, find?_edit_same, find?_set_same]
  · rw [find?_edit_other _ _ same, find?_set_other _ _ same]

theorem editEntries_standing {change : Option Value → Value} (kept : change (some value) = value)
    (ascending : entries.Pairwise fun earlier later => place earlier.1 < place later.1)
    (member : (key, value) ∈ entries) : editEntries key change entries = entries := by
  induction entries with
  | nil => cases member
  | cons first rest ih =>
    obtain ⟨before, later⟩ := List.pairwise_cons.mp ascending
    rcases List.mem_cons.mp member with here | further
    · rw [← here]
      simp only [editEntries, Nat.lt_irrefl, if_false, if_true, kept]
    · have apart := before (key, value) further
      simp only at apart
      simp only [editEntries]
      rw [if_neg (by omega), if_neg (by omega), ih later further]

theorem insert_standing {standing : Value} (value : Value) (found : map.find? key = some standing) :
    map.insert key value = map :=
  OrderedMap.ext (editEntries_standing rfl map.ascending ((map.mem_entries_iff _ _).mpr found))

theorem editEntries_perm (change : Option Value → Value) (absent : findEntry key entries = none) :
    (editEntries key change entries).Perm ((key, change none) :: entries) := by
  induction entries with
  | nil => exact List.Perm.refl _
  | cons first rest ih =>
    simp only [findEntry] at absent
    split at absent
    · cases absent
    · rename_i different
      simp only [editEntries]
      split
      · exact List.Perm.refl _
      · rw [if_neg fun same => different same.symm]
        exact ((ih absent).cons first).trans (List.Perm.swap _ _ rest)

theorem set_perm (value : Value) (absent : map.find? key = none) :
    (map.set key value).entries.Perm ((key, value) :: map.entries) :=
  editEntries_perm _ absent

theorem eraseEntries_perm
    (ascending : entries.Pairwise fun earlier later => place earlier.1 < place later.1)
    (member : (key, value) ∈ entries) :
    entries.Perm ((key, value) :: entries.filter fun entry => place entry.1 != place key) := by
  induction entries with
  | nil => cases member
  | cons first rest ih =>
    obtain ⟨before, later⟩ := List.pairwise_cons.mp ascending
    rcases List.mem_cons.mp member with here | further
    · subst here
      have others : rest.filter (fun entry => place entry.1 != place key) = rest := by
        apply List.filter_eq_self.mpr
        intro entry inside
        have apart := before entry inside
        simp only at apart
        simp only [bne_iff_ne, ne_eq]
        omega
      simp [others]
    · have apart := before (key, value) further
      simp only at apart
      have stays : (place first.1 != place key) = true := by
        simp only [bne_iff_ne, ne_eq]
        omega
      simp only [List.filter_cons, stays, if_true]
      exact ((ih later further).cons first).trans (List.Perm.swap _ _ _)

theorem erase_perm (found : map.find? key = some value) :
    map.entries.Perm ((key, value) :: (map.erase key).entries) :=
  eraseEntries_perm map.ascending ((map.mem_entries_iff key value).mpr found)

theorem set_perm_erase (map : OrderedMap Key Value) (key : Key) (value : Value) :
    (map.set key value).entries.Perm ((key, value) :: (map.erase key).entries) := by
  have others : (map.set key value).erase key = map.erase key := by
    apply eq_of_find?
    intro other
    by_cases same : other = key
    · rw [same, find?_erase_same, find?_erase_same]
    · rw [find?_erase_other _ same, find?_erase_other _ same, find?_set_other _ _ same]
  have split := erase_perm (find?_set_same map key value)
  rw [others] at split
  exact split

section Counting

variable (count : Key × Value → Bool)

omit [MapKey Key] in
theorem countP_toNat (entry : Key × Value) (entries : List (Key × Value)) :
    (entry :: entries).countP count = entries.countP count + (count entry).toNat := by
  rw [List.countP_cons]
  cases count entry <;> rfl

variable {map : OrderedMap Key Value} {key : Key}

theorem countP_set_absent (value : Value) (absent : map.find? key = none) :
    (map.set key value).entries.countP count =
      map.entries.countP count + (count (key, value)).toNat := by
  rw [(set_perm value absent).countP_eq, countP_toNat]

theorem countP_erase {value : Value} (found : map.find? key = some value) :
    (map.erase key).entries.countP count + (count (key, value)).toNat =
      map.entries.countP count := by
  rw [(erase_perm found).countP_eq, countP_toNat]

theorem countP_set {old : Value} (value : Value) (found : map.find? key = some old) :
    (map.set key value).entries.countP count + (count (key, old)).toNat =
      map.entries.countP count + (count (key, value)).toNat := by
  rw [(set_perm_erase map key value).countP_eq, countP_toNat, ← countP_erase count found]
  omega

end Counting

section Summing

variable (amount : Value → Int)

def total (map : OrderedMap Key Value) : Int :=
  (map.entries.map fun entry => amount entry.2).sum

variable {map : OrderedMap Key Value} {key : Key}

theorem total_erase {value : Value} (found : map.find? key = some value) :
    (map.erase key).total amount = map.total amount - amount value := by
  have split := ((erase_perm found).map fun entry => amount entry.2).sum_eq
  simp only [List.map_cons, List.sum_cons] at split
  simp only [total]
  omega

theorem total_set {old : Value} (value : Value) (found : map.find? key = some old) :
    (map.set key value).total amount = map.total amount - amount old + amount value := by
  have split := ((set_perm_erase map key value).map fun entry => amount entry.2).sum_eq
  have rest := total_erase amount found
  simp only [List.map_cons, List.sum_cons] at split
  simp only [total] at rest ⊢
  omega

theorem total_set_absent (value : Value) (absent : map.find? key = none) :
    (map.set key value).total amount = map.total amount + amount value := by
  have split := ((set_perm value absent).map fun entry => amount entry.2).sum_eq
  simp only [List.map_cons, List.sum_cons] at split
  simp only [total]
  omega

end Summing

theorem size_erase (found : map.find? key = some value) : (map.erase key).size + 1 = map.size :=
  (erase_perm found).length_eq.symm

theorem size_erase_lt (found : map.find? key = some value) : (map.erase key).size < map.size := by
  have := size_erase found
  omega

end OrderedMap

end OrderedMaps
