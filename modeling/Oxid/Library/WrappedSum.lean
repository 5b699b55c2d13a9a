import Mathlib.Data.Int.Basic
import Mathlib.Algebra.BigOperators.Group.List.Basic
import Mathlib.Algebra.Order.BigOperators.Group.List
import Mathlib.Tactic.Linarith

/-!
Totals kept in a 64-bit signed register, which holds the exact sum modulo `2 ^ 64`.
-/
namespace WrappedSum

def wrappedSum (start : Int64) (amounts : List Int64) : Int64 := amounts.foldl (· + ·) start

def exactSum (amounts : List Int64) : Int := (amounts.map Int64.toInt).sum

/-- The register is exact after every one of the additions. -/
def NeverWraps (amounts : List Int64) : Prop :=
  ∀ taken, taken <+: amounts → (wrappedSum 0 taken).toInt = exactSum taken

theorem wrappedSum_bmod (start : Int64) (amounts : List Int64) :
    (wrappedSum start amounts).toInt = (start.toInt + exactSum amounts).bmod (2 ^ 64) := by
  induction amounts generalizing start with
  | nil => simp [wrappedSum, exactSum]
  | cons amount rest ih =>
    have step := ih (start + amount)
    rw [Int64.toInt_add, Int.bmod_add_bmod] at step
    have split : exactSum (amount :: rest) = amount.toInt + exactSum rest := by
      simp [exactSum]
    rw [split, ← add_assoc]
    exact step

theorem wrappedSum_zero (amounts : List Int64) :
    (wrappedSum 0 amounts).toInt = (exactSum amounts).bmod (2 ^ 64) := by
  have start : (0 : Int64).toInt = 0 := by decide
  rw [wrappedSum_bmod, start, zero_add]

theorem bmod_fits {total : Int} (nonnegative : 0 ≤ total) (fits : total < 2 ^ 63) :
    total.bmod (2 ^ 64) = total :=
  Int.bmod_eq_of_le (by omega) (by omega)

variable {amounts : List Int64}

theorem exactSum_nonneg (positive : ∀ amount ∈ amounts, 0 ≤ amount.toInt) :
    0 ≤ exactSum amounts := by
  apply List.sum_nonneg
  intro value member
  obtain ⟨amount, listed, rfl⟩ := List.mem_map.mp member
  exact positive amount listed

theorem exactSum_append (taken later : List Int64) :
    exactSum (taken ++ later) = exactSum taken + exactSum later := by
  unfold exactSum
  rw [List.map_append, List.sum_append]

theorem neverWraps_of_fits (positive : ∀ amount ∈ amounts, 0 ≤ amount.toInt)
    (fits : exactSum amounts < 2 ^ 63) :
    NeverWraps amounts := by
  rintro taken ⟨later, rfl⟩
  rw [exactSum_append] at fits
  have before := exactSum_nonneg fun amount member =>
    positive amount (List.mem_append_left later member)
  have after := exactSum_nonneg fun amount member =>
    positive amount (List.mem_append_right taken member)
  rw [wrappedSum_zero]
  exact bmod_fits before (by omega)

theorem fits_of_neverWraps (exact : NeverWraps amounts) :
    exactSum amounts < 2 ^ 63 := by
  have whole := exact amounts (List.prefix_refl amounts)
  have bound := Int64.toInt_lt (wrappedSum 0 amounts)
  omega

end WrappedSum
