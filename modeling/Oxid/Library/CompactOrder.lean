import Oxid.Library.CompactNumber

/-!
Which words are compact forms of numbers, and the order of compact forms. The form of a
number is the one exponent at which its mantissa has between fifteen and twenty three bits.
-/
namespace CompactNumber

theorem mantissa_scaled (x : Nat) : mantissa x = x * 256 ^ 3 / 256 ^ byteLength x := by
  unfold mantissa
  split
  · rename_i short
    have split : x * 256 ^ 3 = x * 256 ^ (3 - byteLength x) * 256 ^ byteLength x := by
      rw [Nat.mul_assoc, ← pow_add, Nat.sub_add_cancel short]
    rw [split, Nat.mul_div_cancel _ (by positivity)]
  · rename_i long
    have split : 256 ^ byteLength x = 256 ^ (byteLength x - 3) * 256 ^ 3 := by
      rw [← pow_add, Nat.sub_add_cancel (by omega)]
    rw [split, Nat.mul_div_mul_right _ _ (by positivity)]

/-- The exponent of a number's compact form. -/
structure IsExponent (x e : Nat) : Prop where
  full : 2 ^ 15 * 256 ^ e ≤ x * 256 ^ 3
  short : x * 256 ^ 3 < 2 ^ 23 * 256 ^ e

theorem isExponent_iff {x e : Nat} :
    IsExponent x e ↔ 2 ^ 15 ≤ x * 256 ^ 3 / 256 ^ e ∧ x * 256 ^ 3 / 256 ^ e < 2 ^ 23 := by
  rw [Nat.le_div_iff_mul_le (by positivity), Nat.div_lt_iff_lt_mul (by positivity)]
  exact ⟨fun exponent => ⟨exponent.full, exponent.short⟩, fun both => ⟨both.1, both.2⟩⟩

theorem encode_exponent {x : Nat} (positive : 0 < x) :
    ∃ e, IsExponent x e ∧ encode x = x * 256 ^ 3 / 256 ^ e + e * 2 ^ 24 := by
  have bounds := mantissa_bounds positive
  rcases encode_cases positive with ⟨full, encoded⟩ | ⟨free, encoded⟩
  · have carried : x * 256 ^ 3 / 256 ^ (byteLength x + 1) = mantissa x / 256 := by
      rw [mantissa_scaled, pow_succ 256 (byteLength x), Nat.div_div_eq_div_mul]
    refine ⟨byteLength x + 1, ?_, by rw [encoded, carried]⟩
    rw [isExponent_iff, carried]
    omega
  · refine ⟨byteLength x, ?_, by rw [encoded, mantissa_scaled]⟩
    rw [isExponent_iff, ← mantissa_scaled]
    omega

theorem IsExponent.mono {x y e f : Nat} (first : IsExponent x e) (second : IsExponent y f)
    (le : x ≤ y) : e ≤ f := by
  by_contra more
  have grown : 256 ^ (f + 1) ≤ 256 ^ e := Nat.pow_le_pow_right (by norm_num) (by omega)
  have full := first.full
  have short := second.short
  omega

theorem IsExponent.encode {x e : Nat} (exponent : IsExponent x e) :
    encode x = x * 256 ^ 3 / 256 ^ e + e * 2 ^ 24 := by
  have positive : 0 < x := by
    rcases Nat.eq_zero_or_pos x with zero | some'
    · have full := exponent.full
      have power : 0 < 256 ^ e := by positivity
      omega
    · exact some'
  obtain ⟨f, found, encoded⟩ := encode_exponent positive
  rw [encoded, le_antisymm (exponent.mono found le_rfl) (found.mono exponent le_rfl)]

theorem encode_mono {x y : Nat} (le : x ≤ y) : encode x ≤ encode y := by
  rcases Nat.eq_zero_or_pos x with zero | positive
  · rw [zero]
    exact Nat.zero_le _
  · obtain ⟨e, first, encodedFirst⟩ := encode_exponent positive
    obtain ⟨f, second, encodedSecond⟩ := encode_exponent (lt_of_lt_of_le positive le)
    have short := (isExponent_iff.mp first).2
    rw [encodedFirst, encodedSecond]
    rcases Nat.lt_or_eq_of_le (first.mono second le) with less | same
    · exact le_trans (show _ ≤ f * 2 ^ 24 by omega) (Nat.le_add_left _ _)
    · rw [same]
      exact Nat.add_le_add_right (Nat.div_le_div_right (Nat.mul_le_mul_right _ le)) _

/-- A word without a sign whose mantissa has no digit below the unit and is not short of its
    upper bytes, in range. -/
structure Canonical (word : Nat) : Prop where
  unsigned : word / 2 ^ 23 % 2 = 0
  whole : 256 ^ (3 - word / 2 ^ 24) ∣ word % 2 ^ 23
  full : word ≠ 0 → 2 ^ 15 ≤ word % 2 ^ 23
  range : (decode word).overflow = false

theorem canonical_zero : Canonical 0 := ⟨rfl, dvd_zero _, fun nonzero => absurd rfl nonzero, rfl⟩

theorem canonical_encode {x : Nat} (small : x < 256 ^ 32) : Canonical (encode x) := by
  rcases Nat.eq_zero_or_pos x with zero | positive
  · rw [zero]
    exact canonical_zero
  · have range := (decode_encode positive small).2.1
    obtain ⟨e, exponent, encoded⟩ := encode_exponent positive
    have bounds := isExponent_iff.mp exponent
    rw [encoded] at range ⊢
    have digits : (x * 256 ^ 3 / 256 ^ e + e * 2 ^ 24) % 2 ^ 23 = x * 256 ^ 3 / 256 ^ e := by omega
    have size : (x * 256 ^ 3 / 256 ^ e + e * 2 ^ 24) / 2 ^ 24 = e := by omega
    refine ⟨by omega, ?_, fun _ => by omega, range⟩
    rw [digits, size]
    by_cases short : e ≤ 3
    · have split : x * 256 ^ 3 = 256 ^ (3 - e) * x * 256 ^ e := by
        rw [Nat.mul_comm _ x, Nat.mul_assoc, ← pow_add, Nat.sub_add_cancel short]
      rw [split, Nat.mul_div_cancel _ (by positivity)]
      exact dvd_mul_right _ _
    · rw [Nat.sub_eq_zero_of_le (by omega), pow_zero]
      exact one_dvd _

theorem place_scaled {m size : Nat} (whole : 256 ^ (3 - size) ∣ m) :
    place m size * 256 ^ 3 = m * 256 ^ size := by
  unfold place
  split
  · rename_i short
    obtain ⟨quotient, rfl⟩ := whole
    rw [Nat.mul_div_cancel_left _ (by positivity), Nat.mul_comm _ quotient, Nat.mul_assoc,
      ← pow_add, Nat.sub_add_cancel short]
  · rename_i long
    rw [Nat.mul_assoc, ← pow_add, Nat.sub_add_cancel (by omega)]

theorem place_lt {word : Nat} (short : word % 2 ^ 23 < 2 ^ 23) (full : 2 ^ 15 ≤ word % 2 ^ 23)
    (range : (decode word).overflow = false) :
    place (word % 2 ^ 23) (word / 2 ^ 24) < 256 ^ 32 := by
  unfold decode at range
  dsimp only at range
  generalize word % 2 ^ 23 = m at *
  generalize word / 2 ^ 24 = size at *
  unfold place
  by_cases small : size ≤ 3
  · rw [if_pos small]
    have less := Nat.div_le_self m (256 ^ (3 - size))
    omega
  · rw [if_neg small] at range ⊢
    have limits : size ≤ 32 ∨ size = 33 ∧ m < 2 ^ 16 := by
      simp only [Bool.and_eq_false_iff, Bool.or_eq_false_iff, bne_eq_false_iff_eq,
        decide_eq_false_iff_not] at range
      omega
    rcases limits with inside | ⟨rfl, narrow⟩
    · have power : 256 ^ (size - 3) ≤ 256 ^ 29 := Nat.pow_le_pow_right (by norm_num) (by omega)
      calc m * 256 ^ (size - 3) ≤ m * 256 ^ 29 := Nat.mul_le_mul_left _ power
        _ < 2 ^ 23 * 256 ^ 29 := Nat.mul_lt_mul_of_pos_right short (by positivity)
        _ ≤ 256 ^ 3 * 256 ^ 29 := Nat.mul_le_mul_right _ (by omega)
        _ = 256 ^ 32 := by rw [← pow_add]
    · calc m * 256 ^ (33 - 3) < 2 ^ 16 * 256 ^ 30 := Nat.mul_lt_mul_of_pos_right narrow (by positivity)
        _ = 256 ^ 32 := by norm_num

theorem Canonical.encode_value {word : Nat} (canonical : Canonical word) :
    (decode word).value < 256 ^ 32 ∧ encode (decode word).value = word := by
  by_cases zero : word = 0
  · rw [zero]
    decide
  · have full := canonical.full zero
    have short : word % 2 ^ 23 < 2 ^ 23 := Nat.mod_lt _ (by norm_num)
    have digits : word % 2 ^ 23 + word / 2 ^ 24 * 2 ^ 24 = word := by
      have unsigned := canonical.unsigned
      omega
    have value : (decode word).value = place (word % 2 ^ 23) (word / 2 ^ 24) := rfl
    have scaled := place_scaled canonical.whole
    have exponent : IsExponent (decode word).value (word / 2 ^ 24) := by
      rw [value]
      constructor
      · rw [scaled]
        exact Nat.mul_le_mul_right _ full
      · rw [scaled]
        exact Nat.mul_lt_mul_of_pos_right short (by positivity)
    constructor
    · rw [value]
      exact place_lt short full canonical.range
    · rw [exponent.encode, value, scaled, Nat.mul_div_cancel _ (by positivity), digits]

end CompactNumber
