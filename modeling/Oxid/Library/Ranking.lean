import Mathlib.Data.List.Sort
import Mathlib.Data.Prod.Lex

/-!
Sorting downwards by a key, with nothing said of the order among equal keys: a sorter is any
function that returns its list in falling order.
-/
namespace Ranking
variable {Elem κ : Type} [LinearOrder κ]

/-- A sort of which only the order of the keys is known. -/
structure Sorter (key : Elem → κ) where
  sort : List Elem → List Elem
  perm : ∀ items, (sort items).Perm items
  falling : ∀ items, (sort items).Pairwise fun first second => key second ≤ key first

variable {key : Elem → κ}

def stable (key : Elem → κ) : Sorter key where
  sort items := items.mergeSort fun first second => key second ≤ key first
  perm items := List.mergeSort_perm items _
  falling items := by
    have sorted := @List.pairwise_mergeSort Elem
      (fun first second => decide (key second ≤ key first))
      (by
        intro a b c ab bc
        simp only [decide_eq_true_eq] at ab bc ⊢
        exact le_trans bc ab)
      (by
        intro a b
        simp only [Bool.or_eq_true, decide_eq_true_eq]
        exact le_total _ _)
      items
    exact sorted.imp of_decide_eq_true

theorem stable_settled {items : List Elem}
    (falling : items.Pairwise fun first second => key second ≤ key first) :
    (stable key).sort items = items :=
  List.mergeSort_of_pairwise (falling.imp decide_eq_true)

theorem Sorter.mem_sort (sorter : Sorter key) {items : List Elem} {item : Elem} :
    item ∈ sorter.sort items ↔ item ∈ items := (sorter.perm items).mem_iff

/-- No two of the items share a key. -/
def Untied (key : Elem → κ) (items : List Elem) : Prop :=
  ∀ first ∈ items, ∀ second ∈ items, key first = key second → first = second

theorem falling_unique {left right : List Elem} (perm : left.Perm right)
    (untied : Untied key left)
    (leftFalling : left.Pairwise fun first second => key second ≤ key first)
    (rightFalling : right.Pairwise fun first second => key second ≤ key first) :
    left = right := by
  apply List.Perm.eq_of_pairwise ?_ leftFalling rightFalling perm
  intro first second inLeft inRight below above
  exact untied first inLeft second (perm.mem_iff.mpr inRight) (le_antisymm above below)

variable {items items' : List Elem}

/-- What is kept of a sorted list depends on neither the sorter nor the order before, where
    no two that are kept share a key. -/
theorem Sorter.filter_unique (sorter other : Sorter key) (perm : items.Perm items')
    {keep : Elem → Bool} (untied : Untied key (items.filter keep)) :
    (sorter.sort items).filter keep = (other.sort items').filter keep := by
  have mine := (sorter.perm items).filter keep
  have whole := mine.trans ((perm.trans (other.perm items').symm).filter keep)
  apply falling_unique whole ?_ ((sorter.falling items).filter keep)
    ((other.falling items').filter keep)
  intro first inFirst second inSecond
  exact untied first (mine.mem_iff.mp inFirst) second (mine.mem_iff.mp inSecond)

theorem Sorter.sort_unique (sorter other : Sorter key) (perm : items.Perm items')
    (untied : Untied key items) :
    sorter.sort items = other.sort items' := by
  apply falling_unique (((sorter.perm items).trans perm).trans (other.perm items').symm) ?_
    (sorter.falling items) (other.falling items')
  intro first inFirst second inSecond
  exact untied first (sorter.mem_sort.mp inFirst) second (sorter.mem_sort.mp inSecond)

end Ranking
