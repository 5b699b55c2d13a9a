import Mathlib.Data.List.Sort

/-!
The number at a place of a sorted list, told by how many numbers are below a bound, and the
median of the newest numbers of a growing list.
-/
namespace OrderStatistic
variable {α : Type*} [LinearOrder α]

def nth (items : List α) (place : Nat) : Option α := (items.insertionSort (· ≤ ·))[place]?

/-- The upper one of the two middle numbers where there are two. -/
def median (items : List α) : Option α := nth items (items.length / 2)

/-- How many of the items are below a bound. -/
def below (bound : α) (items : List α) : Nat := items.countP fun item => decide (item < bound)

theorem below_sorted (bound : α) (items : List α) :
    below bound (items.insertionSort (· ≤ ·)) = below bound items :=
  (List.perm_insertionSort _ items).countP_eq _

variable {items : List α}

theorem nth_exists {place : Nat} (inside : place < items.length) :
    ∃ value, nth items place = some value := by
  have sorted : place < (items.insertionSort (· ≤ ·)).length := by
    rw [List.length_insertionSort]
    exact inside
  exact ⟨_, List.getElem?_eq_getElem sorted⟩

theorem le_nth_iff {place : Nat} {value : α} (found : nth items place = some value) (bound : α) :
    bound ≤ value ↔ below bound items ≤ place := by
  rw [← below_sorted]
  have ascending := List.pairwise_insertionSort (· ≤ ·) items
  unfold nth at found
  generalize items.insertionSort (· ≤ ·) = sorted at found ascending
  obtain ⟨inside, rfl⟩ := List.getElem?_eq_some_iff.mp found
  have split : sorted.take place ++ sorted[place] :: sorted.drop (place + 1) = sorted := by
    rw [← List.drop_eq_getElem_cons inside, List.take_append_drop]
  have before : ∀ item ∈ sorted.take place, item ≤ sorted[place] := by
    rw [← split, List.pairwise_append] at ascending
    intro item member
    exact ascending.2.2 item member _ List.mem_cons_self
  have after : ∀ item ∈ sorted.drop (place + 1), sorted[place] ≤ item := by
    rw [← split, List.pairwise_append, List.pairwise_cons] at ascending
    exact ascending.2.1.1
  have length : (sorted.take place).length = place := by
    rw [List.length_take]
    omega
  have counted : below bound sorted = below bound (sorted.take place) +
      below bound (sorted[place] :: sorted.drop (place + 1)) := by
    unfold below
    rw [← List.countP_append, split]
  rw [counted]
  generalize sorted[place] = value at before after
  constructor
  · intro le
    have none' : below bound (value :: sorted.drop (place + 1)) = 0 := by
      unfold below
      rw [List.countP_eq_zero]
      intro item member
      rw [decide_eq_true_iff, not_lt]
      rcases List.mem_cons.mp member with rfl | later
      · exact le
      · exact le_trans le (after item later)
    have few : below bound (sorted.take place) ≤ (sorted.take place).length := List.countP_le_length
    omega
  · intro few
    by_contra above
    have lower := not_le.mp above
    have all : below bound (sorted.take place) = (sorted.take place).length := by
      unfold below
      rw [List.countP_eq_length]
      intro item member
      exact decide_eq_true (lt_of_le_of_lt (before item member) lower)
    have one : below bound (value :: sorted.drop (place + 1)) =
        below bound (sorted.drop (place + 1)) + 1 :=
      List.countP_cons_of_pos (decide_eq_true lower)
    omega

theorem below_slide {bound newest : α} (reached : bound ≤ newest) (items : List α) (count : Nat) :
    below bound ((newest :: items).take count) ≤ below bound (items.take count) := by
  cases count with
  | zero => exact le_refl _
  | succ count =>
    rw [List.take_succ_cons]
    have skipped : below bound (newest :: items.take count) = below bound (items.take count) :=
      List.countP_cons_of_neg (by rw [decide_eq_true_iff, not_lt]; exact reached)
    rw [skipped]
    exact (List.take_sublist_take_left (Nat.le_succ count)).countP_le

/-- The median of the newest numbers does not fall when a number comes that is not below it,
    be the window full or not. -/
theorem median_slide {newest value value' : α} {count : Nat}
    (before : median (items.take count) = some value) (reached : value ≤ newest)
    (after : median ((newest :: items).take count) = some value') : value ≤ value' := by
  refine (le_nth_iff after value).mpr ?_
  have few := (le_nth_iff before value).mp (le_refl value)
  have fewer := below_slide reached items count
  have longer : (items.take count).length ≤ ((newest :: items).take count).length := by
    rw [List.length_take, List.length_take, List.length_cons]
    omega
  omega

/-- A number of the items with at most half of them below and at most half above. -/
structure IsMedian (value : α) (items : List α) : Prop where
  among : value ∈ items
  low : 2 * items.countP (fun item => decide (item < value)) ≤ items.length
  high : 2 * items.countP (fun item => decide (value < item)) ≤ items.length

theorem median_isMedian (odd : items.length % 2 = 1) {value : α} (found : median items = some value)
    : IsMedian value items := by
  have perm := List.perm_insertionSort (· ≤ ·) items
  have ascending := List.pairwise_insertionSort (· ≤ ·) items
  have length := List.length_insertionSort (· ≤ ·) items
  have few := (le_nth_iff found value).mp (le_refl value)
  have member : value ∈ items := perm.subset (List.mem_of_getElem? found)
  refine ⟨member, by unfold below at few; omega, ?_⟩
  rw [← perm.countP_eq]
  unfold median nth at found
  generalize items.insertionSort (· ≤ ·) = sorted at found ascending length
  obtain ⟨inside, rfl⟩ := List.getElem?_eq_some_iff.mp found
  have split : sorted.take (items.length / 2) ++ sorted[items.length / 2] ::
      sorted.drop (items.length / 2 + 1) = sorted := by
    rw [← List.drop_eq_getElem_cons inside, List.take_append_drop]
  have before : ∀ item ∈ sorted.take (items.length / 2), item ≤ sorted[items.length / 2] := by
    rw [← split, List.pairwise_append] at ascending
    intro item earlier
    exact ascending.2.2 item earlier _ List.mem_cons_self
  have none' : (sorted.take (items.length / 2)).countP
      (fun item => decide (sorted[items.length / 2] < item)) = 0 := by
    rw [List.countP_eq_zero]
    intro item earlier
    simpa using before item earlier
  have rest : (sorted.drop (items.length / 2 + 1)).countP
      (fun item => decide (sorted[items.length / 2] < item)) ≤ items.length / 2 := by
    have bound := List.countP_le_length
      (p := fun item => decide (sorted[items.length / 2] < item))
      (l := sorted.drop (items.length / 2 + 1))
    rw [List.length_drop] at bound
    omega
  have counted := congrArg
    (List.countP fun item => decide (sorted[items.length / 2] < item)) split
  rw [List.countP_append, none', List.countP_cons_of_neg (by simp)] at counted
  omega

end OrderStatistic
