import Mathlib.Data.List.Sort
import Mathlib.Data.Prod.Lex

/-!
Lists sorted by a key. Where no two items share a key, an item's position is the number
of items with a smaller key.
-/
namespace SortedBy
variable {α κ : Type} [LinearOrder κ] (key : α → κ)

def sortBy (items : List α) : List α := items.insertionSort fun a b => key a ≤ key b

/-- How many of the items come before a key. -/
def rank (items : List α) (at' : κ) : Nat := items.countP fun item => key item < at'

variable {key} {items : List α} {item : α}

theorem mem_sortBy : item ∈ sortBy key items ↔ item ∈ items :=
  List.mem_insertionSort _

theorem length_sortBy (items : List α) : (sortBy key items).length = items.length :=
  List.length_insertionSort _ _

theorem sortBy_ascending (apart : (items.map key).Nodup) :
    (sortBy key items).Pairwise fun a b => key a < key b := by
  have weak : (sortBy key items).Pairwise fun a b => key a ≤ key b :=
    List.pairwise_insertionSort _ items
  have same : ((sortBy key items).map key).Nodup :=
    (((List.perm_insertionSort _ items).map key).nodup_iff).mpr apart
  have differ := List.pairwise_map.mp same
  exact weak.imp₂ (fun a b le ne => lt_of_le_of_ne le ne) differ

theorem rank_sortBy (items : List α) (at' : κ) :
    rank key (sortBy key items) at' = rank key items at' :=
  (List.perm_insertionSort _ items).countP_eq _

theorem getElem?_rank (ascending : items.Pairwise fun a b => key a < key b) (member : item ∈ items)
    : items[rank key items (key item)]? = some item := by
  induction items with
  | nil => simp at member
  | cons first rest ih =>
    rw [List.pairwise_cons] at ascending
    obtain ⟨least, ascending⟩ := ascending
    rcases List.mem_cons.mp member with same | later
    · subst same
      have none_before : rank key (item :: rest) (key item) = 0 := by
        rw [rank, List.countP_eq_zero]
        intro other among
        simp only [decide_eq_true_eq, not_lt]
        rcases List.mem_cons.mp among with same | later
        · rw [same]
        · exact le_of_lt (least other later)
      rw [none_before]
      rfl
    · have one_more : rank key (first :: rest) (key item) = rank key rest (key item) + 1 :=
        List.countP_cons_of_pos (by simpa using least item later)
      rw [one_more, List.getElem?_cons_succ]
      exact ih ascending later

theorem getElem?_sortBy (apart : (items.map key).Nodup) {place : Nat} :
    (sortBy key items)[place]? = some item ↔ item ∈ items ∧ rank key items (key item) = place := by
  have ascending := sortBy_ascending apart
  constructor
  · intro found
    have member : item ∈ sortBy key items := List.mem_of_getElem? found
    have stands := getElem?_rank ascending member
    rw [rank_sortBy] at stands
    refine ⟨mem_sortBy.mp member, ?_⟩
    have distinct : (sortBy key items).Nodup :=
      ascending.imp fun lt same => absurd (congrArg key same) (ne_of_lt lt)
    obtain ⟨bound, here⟩ := List.getElem?_eq_some_iff.mp found
    obtain ⟨bound', there⟩ := List.getElem?_eq_some_iff.mp stands
    exact distinct.getElem_inj_iff.mp (there.trans here.symm)
  · rintro ⟨member, rfl⟩
    have stands := getElem?_rank ascending (mem_sortBy.mpr member)
    rwa [rank_sortBy] at stands

theorem ascending_unique {a b : List α} (ascendingA : a.Pairwise fun x y => key x < key y)
    (ascendingB : b.Pairwise fun x y => key x < key y) (same : ∀ item, item ∈ a ↔ item ∈ b) :
    a = b := by
  exact ascendingA.eq_of_mem_iff ascendingB same

theorem filter_append_filter (ascending : items.Pairwise fun a b => key a < key b) (low : α → Bool)
    (closed : ∀ a ∈ items, ∀ b ∈ items, key a < key b → low b = true → low a = true) :
    items = items.filter low ++ items.filter fun item => !low item := by
  induction items with
  | nil => rfl
  | cons first rest ih =>
    rw [List.pairwise_cons] at ascending
    obtain ⟨least, ascending⟩ := ascending
    have split := ih ascending fun a here b there =>
      closed a (List.mem_cons_of_mem _ here) b (List.mem_cons_of_mem _ there)
    cases lowest : low first with
    | true =>
      rw [List.filter_cons_of_pos lowest, List.filter_cons_of_neg (by simp [lowest]),
        List.cons_append, ← split]
    | false =>
      have all_high : ∀ item ∈ rest, low item = false := by
        intro item member
        cases value : low item with
        | false => rfl
        | true =>
          have := closed first List.mem_cons_self item (List.mem_cons_of_mem _ member)
            (least item member) value
          rw [lowest] at this
          exact this.symm
      have none_low : (first :: rest).filter low = [] := by
        rw [List.filter_eq_nil_iff]
        intro item member
        rcases List.mem_cons.mp member with same | later
        · rw [same, lowest]
          exact Bool.false_ne_true
        · rw [all_high item later]
          exact Bool.false_ne_true
      have all_kept : (first :: rest).filter (fun item => !low item) = first :: rest := by
        rw [List.filter_eq_self]
        intro item member
        rcases List.mem_cons.mp member with same | later
        · rw [same, lowest]
          rfl
        · rw [all_high item later]
          rfl
      rw [none_low, all_kept, List.nil_append]

end SortedBy
