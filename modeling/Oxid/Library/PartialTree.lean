import Mathlib.Data.List.Nodup
import Oxid.Library.MerkleLevels

/-!
A hash tree of which some subtrees are given by their hash alone and some leaves are marked,
laid against the levels of a whole tree.
-/
namespace PartialTrees
open MerkleLevels

inductive PartialTree (Hash : Type) where
  | stored (marked : Bool) (hash : Hash)
  | single (child : PartialTree Hash)
  | both (left right : PartialTree Hash)
deriving DecidableEq

namespace PartialTree

variable {Hash : Type}

def value (pair : Hash → Hash → Hash) : PartialTree Hash → Hash
  | stored _ hash => hash
  | single child => pair (child.value pair) (child.value pair)
  | both left right => pair (left.value pair) (right.value pair)

def marks : PartialTree Hash → List Hash
  | stored marked hash => if marked then [hash] else []
  | single child => child.marks
  | both left right => left.marks ++ right.marks

def isMarked : PartialTree Hash → Bool
  | stored marked _ => marked
  | single child => child.isMarked
  | both left right => left.isMarked || right.isMarked

theorem marks_nil (part : PartialTree Hash) : part.marks = [] ↔ part.isMarked = false := by
  induction part with
  | stored marked hash => cases marked <;> simp [marks, isMarked]
  | single child ih => exact ih
  | both left right leftIh rightIh => simp [marks, isMarked, leftIh, rightIh]

def pairs (pair : Hash → Hash → Hash) : PartialTree Hash → List (Hash × Hash)
  | stored _ _ => []
  | single child => (child.value pair, child.value pair) :: child.pairs pair
  | both left right => (left.value pair, right.value pair) :: (left.pairs pair ++ right.pairs pair)

/-- A tree of a height: only what is stored at height 0 may be marked. -/
def Shaped : Nat → PartialTree Hash → Prop
  | 0, stored _ _ => True
  | 0, single _ => False
  | 0, both _ _ => False
  | _ + 1, stored marked _ => marked = false
  | height + 1, single child => child.Shaped height
  | height + 1, both left right => left.Shaped height ∧ right.Shaped height

/-- Where the marked leaves of a tree at a node lie in the whole tree, given the widths of
    its levels: right of an odd last node is that node again. -/
def places (widths : Nat → Nat) : PartialTree Hash → Nat → Nat → List Nat
  | stored marked _, _, index => if marked then [index] else []
  | single child, height, index => child.places widths (height - 1) (2 * index)
  | both left right, height, index =>
    left.places widths (height - 1) (2 * index) ++
      right.places widths (height - 1) (rightOf (widths (height - 1)) index)

end PartialTree

open PartialTree

section Locating

variable {Hash : Type} {pair : Hash → Hash → Hash} {hashed : Set (Hash × Hash)} {leaves : List Hash}
  {part : PartialTree Hash} {high low index : Nat}

def widths (size height : Nat) : Nat := (size + 2 ^ height - 1) / 2 ^ height

section
variable (noCollision : Set.InjOn (fun both => pair both.1 both.2) hashed)
  (apart : ∀ leaf ∈ leaves, ∀ both ∈ hashed, pair both.1 both.2 ≠ leaf)
  (covered : ∀ below < high, ∀ both ∈ paired (level pair leaves below), both ∈ hashed)
include noCollision apart covered

theorem children_known {left right : Hash} (among : (left, right) ∈ hashed)
    (found : (level pair leaves high)[index]? = some (pair left right)) :
    ∃ under, high = under + 1 ∧ (level pair leaves under)[2 * index]? = some left ∧
      (level pair leaves under)[rightOf (widths leaves.length under) index]? = some right := by
  cases high with
  | zero =>
    have leaf := List.mem_of_getElem? found
    exact absurd rfl (apart _ leaf (left, right) among)
  | succ under =>
    obtain ⟨known, listed, image, first, second⟩ := level_node found
    have same := noCollision (covered under (Nat.lt_succ_self under) known listed) among image
    rw [same] at first second
    rw [level_length] at second
    exact ⟨under, rfl, first, second⟩

theorem places_marked (among : ∀ both ∈ part.pairs pair, both ∈ hashed) (shaped : part.Shaped low)
    (lower : low ≤ high) (found : (level pair leaves high)[index]? = some (part.value pair)) :
    part.marks.map some = (part.places (widths leaves.length) high index).map
      fun place => (level pair leaves (high - low))[place]? := by
  induction part generalizing high low index with
  | stored marked hash =>
    cases marked with
    | false => rfl
    | true =>
      cases low with
      | zero => simp [marks, places, found, value]
      | succ low => cases shaped
  | single child ih =>
    cases low with
    | zero => cases shaped
    | succ low =>
      obtain ⟨under, rfl, first, _⟩ := children_known noCollision apart covered
        (among _ List.mem_cons_self) found
      rw [Nat.add_sub_add_right]
      exact ih (fun below less => covered below (Nat.lt_succ_of_lt less))
        (fun both member => among both (List.mem_cons_of_mem _ member)) shaped (by omega) first
  | both left right leftIh rightIh =>
    cases low with
    | zero => cases shaped
    | succ low =>
      obtain ⟨under, rfl, first, second⟩ := children_known noCollision apart covered
        (among _ List.mem_cons_self) found
      have leftPlaces := leftIh (fun below less => covered below (Nat.lt_succ_of_lt less))
        (fun both member => among both (List.mem_cons_of_mem _ (List.mem_append_left _ member)))
        shaped.1 (by omega) first
      have rightPlaces := rightIh (fun below less => covered below (Nat.lt_succ_of_lt less))
        (fun both member => among both (List.mem_cons_of_mem _ (List.mem_append_right _ member)))
        shaped.2 (by omega) second
      rw [Nat.add_sub_add_right, marks, places, List.map_append, List.map_append, leftPlaces,
        rightPlaces, Nat.add_sub_cancel]

theorem marks_high (among : ∀ both ∈ part.pairs pair, both ∈ hashed) (shaped : part.Shaped low)
    (higher : high < low) (found : (level pair leaves high)[index]? = some (part.value pair)) :
    part.marks = [] := by
  induction part generalizing high low index with
  | stored marked hash =>
    cases low with
    | zero => omega
    | succ low => simp [marks, show marked = false from shaped]
  | single child ih =>
    cases low with
    | zero => cases shaped
    | succ low =>
      obtain ⟨under, rfl, first, _⟩ := children_known noCollision apart covered
        (among _ List.mem_cons_self) found
      exact ih (fun below less => covered below (Nat.lt_succ_of_lt less))
        (fun both member => among both (List.mem_cons_of_mem _ member)) shaped (by omega) first
  | both left right leftIh rightIh =>
    cases low with
    | zero => cases shaped
    | succ low =>
      obtain ⟨under, rfl, first, second⟩ := children_known noCollision apart covered
        (among _ List.mem_cons_self) found
      have leftNone := leftIh (fun below less => covered below (Nat.lt_succ_of_lt less))
        (fun both member => among both (List.mem_cons_of_mem _ (List.mem_append_left _ member)))
        shaped.1 (by omega) first
      have rightNone := rightIh (fun below less => covered below (Nat.lt_succ_of_lt less))
        (fun both member => among both (List.mem_cons_of_mem _ (List.mem_append_right _ member)))
        shaped.2 (by omega) second
      rw [marks, leftNone, rightNone, List.append_nil]

end

/-- Against a whole tree of distinct leaves the marks of a tree with its root are distinct
    leaves exactly when there are none, or the heights agree and no two marks lie at
    one place. -/
theorem marks_sound_iff (noCollision : Set.InjOn (fun both => pair both.1 both.2) hashed)
    (apart : ∀ leaf ∈ leaves, ∀ both ∈ hashed, pair both.1 both.2 ≠ leaf)
    (distinct : leaves.Nodup)
    (covered : ∀ below < high, ∀ both ∈ paired (level pair leaves below), both ∈ hashed)
    (among : ∀ both ∈ part.pairs pair, both ∈ hashed) (shaped : part.Shaped low)
    (found : (level pair leaves high)[index]? = some (part.value pair)) :
    (∀ mark ∈ part.marks, mark ∈ leaves) ∧ part.marks.Nodup ↔
      part.isMarked = false ∨
        low = high ∧ (part.places (widths leaves.length) high index).Nodup := by
  rw [← marks_nil]
  rcases Nat.lt_trichotomy low high with lower | equal | higher
  · have located := places_marked noCollision apart covered among shaped (Nat.le_of_lt lower) found
    constructor
    · rintro ⟨sound, _⟩
      left
      rw [List.eq_nil_iff_forall_not_mem]
      intro mark member
      have image : some mark ∈ part.marks.map some := List.mem_map_of_mem member
      rw [located] at image
      obtain ⟨place, _, at'⟩ := List.mem_map.mp image
      obtain ⟨above, split⟩ : ∃ above, high - low = above + 1 := ⟨high - low - 1, by omega⟩
      rw [split] at at'
      obtain ⟨both, listed, hash, _⟩ := level_node at'
      exact apart mark (sound mark member) both (covered above (by omega) both listed) hash
    · rintro (none' | ⟨same, _⟩)
      · rw [none']
        exact ⟨nofun, List.nodup_nil⟩
      · omega
  · subst equal
    have located := places_marked noCollision apart covered among shaped (Nat.le_refl _) found
    rw [Nat.sub_self] at located
    have sound : ∀ mark ∈ part.marks, mark ∈ leaves := by
      intro mark member
      have image : some mark ∈ part.marks.map some := List.mem_map_of_mem member
      rw [located] at image
      obtain ⟨place, _, at'⟩ := List.mem_map.mp image
      exact List.mem_of_getElem? at'
    have once : part.marks.Nodup ↔ (part.places (widths leaves.length) low index).Nodup := by
      rw [← List.nodup_map_iff (Option.some_injective Hash), located]
      constructor
      · exact List.Nodup.of_map _
      · intro nodup
        apply List.Nodup.map_on _ nodup
        intro one oneMember two twoMember same
        have image : ∀ place ∈ part.places (widths leaves.length) low index,
            place < leaves.length := by
          intro place member
          have kept : leaves[place]? ∈ part.marks.map some := by
            rw [located]
            exact List.mem_map_of_mem member
          obtain ⟨mark, _, at'⟩ := List.mem_map.mp kept
          exact (List.getElem?_eq_some_iff.mp at'.symm).1
        exact (List.getElem?_inj (image one oneMember) distinct).mp same
    constructor
    · rintro ⟨_, nodup⟩
      exact Or.inr ⟨rfl, once.mp nodup⟩
    · rintro (none' | ⟨_, nodup⟩)
      · rw [none']
        exact ⟨nofun, List.nodup_nil⟩
      · exact ⟨sound, once.mpr nodup⟩
  · have none' := marks_high noCollision apart covered among shaped higher found
    rw [none']
    simp

end Locating

end PartialTrees
