import Mathlib.Tactic.Ring

/-!
A weighted average kept while numbers are read, which divides at every number. In words that
wrap around it is the same average exactly when no sum wraps.
-/
namespace RunningAverage

/-- The average after one more number, where `count` were read before. -/
def exactStep (count average number : Nat) : Nat :=
  if count = 0 then number else (average * (count + 1) + number) / (count + 2)

/-- The same in words below a modulus. -/
def wordStep (modulus count average number : Nat) : Nat :=
  if count = 0 then number else (average * (count + 1) + number) % modulus / (count + 2)

def averageFrom (step : Nat → Nat → Nat → Nat) : List Nat → Nat → Nat → Nat
  | [], _, average => average
  | number :: rest, count, average =>
    averageFrom step rest (count + 1) (step count average number)

/-- No sum on the way reaches the modulus. -/
def Fits (modulus : Nat) : List Nat → Nat → Nat → Prop
  | [], _, _ => True
  | number :: rest, count, average =>
    (0 < count → average * (count + 1) + number < modulus) ∧
      Fits modulus rest (count + 1) (exactStep count average number)

section Between
variable {low high : Nat}

theorem exactStep_between {count average number : Nat}
    (before : 0 < count → low ≤ average ∧ average ≤ high) (least : low ≤ number)
    (most : number ≤ high) :
    low ≤ exactStep count average number ∧ exactStep count average number ≤ high := by
  unfold exactStep
  split
  · exact ⟨least, most⟩
  · obtain ⟨above, below⟩ := before (by omega)
    constructor
    · rw [Nat.le_div_iff_mul_le (by omega)]
      calc low * (count + 2) = low * (count + 1) + low := by ring
        _ ≤ average * (count + 1) + number :=
          Nat.add_le_add (Nat.mul_le_mul_right _ above) least
    · apply Nat.div_le_of_le_mul
      calc average * (count + 1) + number
          ≤ high * (count + 1) + high := Nat.add_le_add (Nat.mul_le_mul_right _ below) most
        _ = (count + 2) * high := by ring

theorem exact_between (numbers : List Nat) {count average : Nat}
    (before : 0 < count → low ≤ average ∧ average ≤ high) (read : 0 < count ∨ numbers ≠ [])
    (least : ∀ number ∈ numbers, low ≤ number) (most : ∀ number ∈ numbers, number ≤ high) :
    low ≤ averageFrom exactStep numbers count average ∧
      averageFrom exactStep numbers count average ≤ high := by
  induction numbers generalizing count average with
  | nil =>
    rcases read with some' | none'
    · exact before some'
    · exact absurd rfl none'
  | cons number rest ih =>
    exact ih (fun _ => exactStep_between before (least number (by simp)) (most number (by simp)))
      (Or.inl (by omega)) (fun other member => least other (by simp [member]))
      fun other member => most other (by simp [member])

end Between

section Wrapping
variable {modulus : Nat} {count average number : Nat}

theorem wordStep_eq (small : 0 < count → average * (count + 1) + number < modulus) :
    wordStep modulus count average number = exactStep count average number := by
  unfold wordStep exactStep
  split
  · rfl
  · rw [Nat.mod_eq_of_lt (small (by omega))]

theorem word_of_fits {numbers : List Nat} {count average : Nat}
    (fits : Fits modulus numbers count average) :
    averageFrom (wordStep modulus) numbers count average =
      averageFrom exactStep numbers count average := by
  induction numbers generalizing count average with
  | nil => rfl
  | cons number rest ih =>
    obtain ⟨small, later⟩ := fits
    unfold averageFrom
    rw [wordStep_eq small]
    exact ih later

/-- How far the words stay behind the whole numbers after a sum has wrapped. -/
def Behind (modulus count exact word : Nat) : Prop :=
  word ≤ exact ∧ word * (count + 1) + modulus ≤ exact * (count + 1) + count * count

theorem exactStep_above {count : Nat} (later : 0 < count) (average number : Nat) :
    average * (count + 1) + number ≤
      exactStep count average number * (count + 2) + (count + 1) := by
  unfold exactStep
  rw [if_neg (by omega)]
  have division := Nat.div_add_mod (average * (count + 1) + number) (count + 2)
  have remainder := Nat.mod_lt (average * (count + 1) + number) (show 0 < count + 2 by omega)
  rw [Nat.mul_comm] at division
  omega

theorem wordStep_below {count : Nat} (later : 0 < count) (average number : Nat) :
    wordStep modulus count average number * (count + 2) ≤
      (average * (count + 1) + number) % modulus := by
  unfold wordStep
  rw [if_neg (by omega)]
  exact Nat.div_mul_le_self _ _

theorem behind_step {count exact word : Nat} (later : 0 < count) (number : Nat)
    (behind : Behind modulus count exact word) :
    Behind modulus (count + 1) (exactStep count exact number)
      (wordStep modulus count word number) := by
  obtain ⟨le, gap⟩ := behind
  have above := exactStep_above later exact number
  have below : wordStep modulus count word number * (count + 2) ≤
      (word * (count + 1) + number) % modulus := wordStep_below later word number
  have reduced := Nat.mod_le (word * (count + 1) + number) modulus
  constructor
  · unfold wordStep exactStep
    rw [if_neg (by omega), if_neg (by omega)]
    refine Nat.div_le_div_right (le_trans reduced ?_)
    exact Nat.add_le_add_right (Nat.mul_le_mul_right _ le) _
  · have square : (count + 1) * (count + 1) = count * count + count + (count + 1) := by ring
    show wordStep modulus count word number * (count + 2) + modulus ≤
      exactStep count exact number * (count + 2) + (count + 1) * (count + 1)
    omega

theorem behind_wrapped (later : 0 < count) (wrapped : modulus ≤ average * (count + 1) + number) :
    Behind modulus (count + 1) (exactStep count average number)
      (wordStep modulus count average number) := by
  have above := exactStep_above later average number
  have below : wordStep modulus count average number * (count + 2) ≤
      (average * (count + 1) + number) % modulus := wordStep_below later average number
  have reduced : (average * (count + 1) + number) % modulus ≤
      average * (count + 1) + number - modulus := by
    rw [Nat.mod_eq_sub_mod wrapped]
    exact Nat.mod_le _ _
  constructor
  · unfold wordStep exactStep
    rw [if_neg (by omega), if_neg (by omega)]
    exact Nat.div_le_div_right (Nat.mod_le _ _)
  · have square : (count + 1) * (count + 1) = count * count + count + (count + 1) := by ring
    show wordStep modulus count average number * (count + 2) + modulus ≤
      exactStep count average number * (count + 2) + (count + 1) * (count + 1)
    omega

theorem behind_apart (numbers : List Nat) {count exact word : Nat} (later : 0 < count)
    (behind : Behind modulus count exact word)
    (few : (count + numbers.length) * (count + numbers.length) < modulus) :
    averageFrom (wordStep modulus) numbers count word ≠
      averageFrom exactStep numbers count exact := by
  induction numbers generalizing count exact word with
  | nil =>
    intro same
    have equal : word = exact := same
    have gap := behind.2
    rw [equal] at gap
    simp only [List.length_nil, Nat.add_zero] at few
    omega
  | cons number rest ih =>
    refine ih (Nat.succ_pos count) (behind_step later number behind) ?_
    rwa [Nat.add_right_comm, Nat.add_assoc]

/-- The words give the whole numbers' average exactly when no sum wraps around. -/
theorem word_exact_iff (numbers : List Nat) {count average : Nat}
    (few : (count + numbers.length) * (count + numbers.length) < modulus) :
    averageFrom (wordStep modulus) numbers count average =
      averageFrom exactStep numbers count average ↔ Fits modulus numbers count average := by
  refine ⟨fun same => ?_, word_of_fits⟩
  induction numbers generalizing count average with
  | nil => trivial
  | cons number rest ih =>
    have fewer : (count + 1 + rest.length) * (count + 1 + rest.length) < modulus := by
      rwa [Nat.add_right_comm, Nat.add_assoc]
    have small : 0 < count → average * (count + 1) + number < modulus := by
      intro later
      by_contra wrapped
      exact behind_apart rest (Nat.succ_pos count)
        (behind_wrapped later (Nat.le_of_not_lt wrapped)) fewer same
    refine ⟨small, ih fewer ?_⟩
    unfold averageFrom at same
    rwa [wordStep_eq small] at same

end Wrapping

end RunningAverage
