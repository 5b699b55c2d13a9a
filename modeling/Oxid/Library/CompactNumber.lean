import Mathlib.Tactic.Positivity
import Mathlib.Tactic.Ring

/-!
Natural numbers in a 32-bit floating format: a byte count in the top byte, a
sign bit and a 23-bit mantissa. Encoding drops low bytes, so decoding gives back
at most what was encoded. Words are natural numbers below 2^32.
-/
namespace CompactNumber

structure Decoded where
  value : Nat
  negative : Bool
  overflow : Bool
deriving DecidableEq, Repr

/-- A mantissa shifted to the place its byte count says. -/
def place (mantissa size : Nat) : Nat :=
  if size ≤ 3 then mantissa / 256 ^ (3 - size) else mantissa * 256 ^ (size - 3)

def decode (word : Nat) : Decoded :=
  let size := word / 2 ^ 24
  let mantissa := if size ≤ 3 then word % 2 ^ 23 / 256 ^ (3 - size) else word % 2 ^ 23
  { value := place (word % 2 ^ 23) size
    negative := mantissa != 0 && word / 2 ^ 23 % 2 == 1
    overflow := mantissa != 0 &&
      (34 < size || (0xff < mantissa && 33 < size) || (0xffff < mantissa && 32 < size)) }

def bits (x : Nat) : Nat := if x = 0 then 0 else x.log2 + 1

def byteLength (x : Nat) : Nat := (bits x + 7) / 8

/-- The top three bytes of a number. -/
def mantissa (x : Nat) : Nat :=
  if byteLength x ≤ 3 then x * 256 ^ (3 - byteLength x) else x / 256 ^ (byteLength x - 3)

/-- A mantissa that reaches the sign bit gives up its low byte. -/
def encode (x : Nat) : Nat :=
  if mantissa x / 2 ^ 23 % 2 = 1 then mantissa x / 256 + (byteLength x + 1) * 2 ^ 24
  else mantissa x + byteLength x * 2 ^ 24

theorem pow_256 (n : Nat) : 256 ^ n = 2 ^ (8 * n) := by
  rw [pow_mul]
  norm_num

theorem lt_bits (x : Nat) : x < 2 ^ bits x := by
  unfold bits
  split
  · omega
  · exact Nat.lt_log2_self

variable {x : Nat}

theorem bits_pos (positive : 0 < x) : 0 < bits x := by
  unfold bits
  rw [if_neg (by omega)]
  omega

theorem bits_le {x n : Nat} (small : x < 2 ^ n) : bits x ≤ n := by
  unfold bits
  split
  · omega
  · rename_i nonzero
    exact (Nat.log2_lt nonzero).mpr small

theorem lt_byteLength (x : Nat) : x < 256 ^ byteLength x := by
  rw [pow_256]
  have enough : bits x ≤ 8 * byteLength x := by
    unfold byteLength
    omega
  exact lt_of_lt_of_le (lt_bits x) (Nat.pow_le_pow_right (by norm_num) enough)

theorem byteLength_pos (positive : 0 < x) : 0 < byteLength x := by
  have size := bits_pos positive
  unfold byteLength
  omega

theorem byteLength_le {x bytes : Nat} (small : x < 256 ^ bytes) : byteLength x ≤ bytes := by
  rw [pow_256] at small
  have size := bits_le small
  unfold byteLength
  omega

theorem byteLength_le_self (positive : 0 < x) : 256 ^ (byteLength x - 1) ≤ x := by
  by_contra small
  have shorter := byteLength_le (not_le.mp small)
  have length := byteLength_pos positive
  omega

theorem mantissa_bounds (positive : 0 < x) :
    2 ^ 16 ≤ mantissa x ∧ mantissa x < 2 ^ 24 := by
  have above := lt_byteLength x
  have below := byteLength_le_self positive
  have length := byteLength_pos positive
  unfold mantissa
  generalize byteLength x = size at above below length
  split
  · rename_i short
    have split : 256 ^ 3 = 256 ^ size * 256 ^ (3 - size) := by
      rw [← pow_add]
      congr 1
      omega
    have splitBelow : 256 ^ 2 = 256 ^ (size - 1) * 256 ^ (3 - size) := by
      rw [← pow_add]
      congr 1
      omega
    constructor
    · calc 2 ^ 16 = 256 ^ (size - 1) * 256 ^ (3 - size) := by rw [← splitBelow]; norm_num
        _ ≤ x * 256 ^ (3 - size) := Nat.mul_le_mul_right _ below
    · calc x * 256 ^ (3 - size) < 256 ^ size * 256 ^ (3 - size) :=
            Nat.mul_lt_mul_of_pos_right above (by positivity)
        _ = 2 ^ 24 := by rw [← split]; norm_num
  · rename_i long
    have split : 256 ^ size = 256 ^ 3 * 256 ^ (size - 3) := by
      rw [← pow_add]
      congr 1
      omega
    have splitBelow : 256 ^ (size - 1) = 256 ^ 2 * 256 ^ (size - 3) := by
      rw [← pow_add]
      congr 1
      omega
    constructor
    · rw [Nat.le_div_iff_mul_le (by positivity)]
      calc 2 ^ 16 * 256 ^ (size - 3) = 256 ^ (size - 1) := by rw [splitBelow]; norm_num
        _ ≤ x := below
    · rw [Nat.div_lt_iff_lt_mul (by positivity)]
      calc x < 256 ^ size := above
        _ = 2 ^ 24 * 256 ^ (size - 3) := by rw [split]; norm_num

theorem place_long (m : Nat) {size : Nat} (long : 3 ≤ size) :
    place m size = m * 256 ^ (size - 3) := by
  unfold place
  split
  · have three : size = 3 := by omega
    simp [three]
  · rfl

theorem encode_lt (small : x < 256 ^ 32) : encode x < 2 ^ 32 := by
  rcases Nat.eq_zero_or_pos x with zero | positive
  · subst zero
    decide
  · have bounds := mantissa_bounds positive
    have length := byteLength_le small
    unfold encode
    split <;> omega

/-- The low bytes an encoding loses. -/
def dropped (x : Nat) : Nat :=
  if 2 ^ 23 ≤ mantissa x then byteLength x + 1 - 3 else byteLength x - 3

theorem place_mantissa_value (x : Nat) : place (mantissa x) (byteLength x) =
    x / 256 ^ (byteLength x - 3) * 256 ^ (byteLength x - 3) := by
  unfold place mantissa
  by_cases short : byteLength x ≤ 3
  · rw [if_pos short, if_pos short, Nat.mul_div_cancel _ (by positivity),
      Nat.sub_eq_zero_of_le short]
    simp
  · rw [if_neg short, if_neg short]

theorem place_carried_value (x : Nat) : place (mantissa x / 256) (byteLength x + 1) =
    x / 256 ^ (byteLength x + 1 - 3) * 256 ^ (byteLength x + 1 - 3) := by
  by_cases short : byteLength x + 1 ≤ 3
  · unfold place mantissa
    have split : 256 * 256 ^ (3 - (byteLength x + 1)) = 256 ^ (3 - byteLength x) := by
      rw [← pow_succ']
      congr 1
      omega
    rw [if_pos short, if_pos (by omega), Nat.div_div_eq_div_mul, split,
      Nat.mul_div_cancel _ (by positivity), Nat.sub_eq_zero_of_le short]
    simp
  · have top : mantissa x = x / 256 ^ (byteLength x - 3) := by
      unfold mantissa
      split
      · have three : byteLength x = 3 := by omega
        simp [three]
      · rfl
    have shift : 256 ^ (byteLength x + 1 - 3) = 256 ^ (byteLength x - 3) * 256 := by
      rw [← pow_succ]
      congr 1
      omega
    rw [place_long _ (by omega), top, Nat.div_div_eq_div_mul, shift]

theorem kept_bounds (positive : 0 < x) :
    x / 256 ^ dropped x < 2 ^ 23 ∧ (0 < dropped x → 2 ^ 15 ≤ x / 256 ^ dropped x) := by
  have bounds := mantissa_bounds positive
  have above := lt_byteLength x
  unfold mantissa at bounds
  unfold dropped mantissa
  generalize byteLength x = size at bounds above
  by_cases short : size ≤ 3
  · rw [if_pos short] at bounds ⊢
    by_cases three : size = 3
    · subst three
      split
      · simp
        omega
      · simp
        omega
    · have two : 256 ^ size ≤ 256 ^ 2 := Nat.pow_le_pow_right (by norm_num) (by omega)
      have none' : ∀ full : Prop, [Decidable full] →
          (if full then size + 1 - 3 else size - 3) = 0 := by
        intro full _
        split <;> omega
      rw [none']
      omega
  · rw [if_neg short] at bounds ⊢
    split
    · rename_i full
      have shift : 256 ^ (size + 1 - 3) = 256 ^ (size - 3) * 256 := by
        rw [← pow_succ]
        congr 1
        omega
      rw [shift, ← Nat.div_div_eq_div_mul]
      omega
    · omega

theorem decode_word {m size : Nat} (short : m < 2 ^ 23) :
    (decode (m + size * 2 ^ 24)).value = place m size ∧
      (decode (m + size * 2 ^ 24)).negative = false ∧
      (size ≤ 32 ∨ size = 33 ∧ m < 2 ^ 16 → (decode (m + size * 2 ^ 24)).overflow = false) := by
  have exponent : (m + size * 2 ^ 24) / 2 ^ 24 = size := by omega
  have digits : (m + size * 2 ^ 24) % 2 ^ 23 = m := by omega
  have sign : (m + size * 2 ^ 24) / 2 ^ 23 % 2 = 0 := by omega
  unfold decode
  simp only [exponent, digits, sign]
  refine ⟨trivial, by simp, fun within => ?_⟩
  split
  · simp
    omega
  · simp
    omega

theorem encode_cases (positive : 0 < x) :
    2 ^ 23 ≤ mantissa x ∧ encode x = mantissa x / 256 + (byteLength x + 1) * 2 ^ 24 ∨
      mantissa x < 2 ^ 23 ∧ encode x = mantissa x + byteLength x * 2 ^ 24 := by
  have bounds := mantissa_bounds positive
  unfold encode
  by_cases full : 2 ^ 23 ≤ mantissa x
  · rw [if_pos (by omega)]
    exact Or.inl ⟨full, rfl⟩
  · rw [if_neg (by omega)]
    exact Or.inr ⟨not_le.mp full, rfl⟩

theorem decode_encode_value (positive : 0 < x) :
    (decode (encode x)).value = x / 256 ^ dropped x * 256 ^ dropped x := by
  have bounds := mantissa_bounds positive
  unfold dropped
  rcases encode_cases positive with ⟨full, encoded⟩ | ⟨free, encoded⟩
  · rw [encoded, (decode_word (by omega)).1, place_carried_value, if_pos full]
  · rw [encoded, (decode_word free).1, place_mantissa_value, if_neg (not_le.mpr free)]

theorem decode_encode (positive : 0 < x) (small : x < 256 ^ 32) :
    (decode (encode x)).negative = false ∧ (decode (encode x)).overflow = false ∧
      0 < (decode (encode x)).value ∧ (decode (encode x)).value ≤ x := by
  have bounds := mantissa_bounds positive
  have length := byteLength_le small
  have fields : (decode (encode x)).negative = false ∧ (decode (encode x)).overflow = false := by
    rcases encode_cases positive with ⟨full, encoded⟩ | ⟨free, encoded⟩
    · obtain ⟨-, sign, range⟩ := @decode_word _ (byteLength x + 1)
        (show mantissa x / 256 < 2 ^ 23 by omega)
      rw [encoded]
      exact ⟨sign, range (by omega)⟩
    · obtain ⟨-, sign, range⟩ := @decode_word _ (byteLength x) free
      rw [encoded]
      exact ⟨sign, range (by omega)⟩
  have kept : 0 < x / 256 ^ dropped x := by
    rcases Nat.eq_zero_or_pos (dropped x) with none' | some'
    · rw [none', pow_zero, Nat.div_one]
      exact positive
    · have large := (kept_bounds positive).2 some'
      omega
  rw [decode_encode_value positive]
  exact ⟨fields.1, fields.2, Nat.mul_pos kept (by positivity), Nat.div_mul_le_self x _⟩

theorem dropped_mono {x y : Nat} (positive : 0 < x) (le : x ≤ y) : dropped x ≤ dropped y := by
  by_contra more
  have bytes : dropped y + 1 ≤ dropped x := by omega
  have below := (kept_bounds (lt_of_lt_of_le positive le)).1
  have above := (kept_bounds positive).2 (by omega)
  rw [Nat.div_lt_iff_lt_mul (by positivity)] at below
  rw [Nat.le_div_iff_mul_le (by positivity)] at above
  have grown : 256 ^ (dropped y + 1) ≤ 256 ^ dropped x :=
    Nat.pow_le_pow_right (by norm_num) bytes
  omega

theorem decode_encode_mono {x y : Nat} (positive : 0 < x) (le : x ≤ y) :
    (decode (encode x)).value ≤ (decode (encode y)).value := by
  have later := lt_of_lt_of_le positive le
  rw [decode_encode_value positive, decode_encode_value later]
  rcases Nat.eq_or_lt_of_le (dropped_mono positive le) with same | fewer
  · rw [same]
    exact Nat.mul_le_mul_right _ (Nat.div_le_div_right le)
  · have below := (kept_bounds positive).1
    have above := (kept_bounds later).2 (by omega)
    have grown : 256 ^ (dropped x + 1) ≤ 256 ^ dropped y :=
      Nat.pow_le_pow_right (by norm_num) fewer
    calc x / 256 ^ dropped x * 256 ^ dropped x
        ≤ 2 ^ 23 * 256 ^ dropped x := Nat.mul_le_mul_right _ (by omega)
      _ = 2 ^ 15 * (256 ^ dropped x * 256) := by ring
      _ ≤ 2 ^ 15 * 256 ^ dropped y := Nat.mul_le_mul_left _ grown
      _ ≤ y / 256 ^ dropped y * 256 ^ dropped y := Nat.mul_le_mul_right _ above

end CompactNumber
