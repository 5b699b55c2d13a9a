import Mathlib.Data.Nat.Digits.Lemmas

/-!
Distinguished encodings: integers that are not negative, and sequences of parts, each behind
a tag and a length.
-/
namespace Der

def octets (n : Nat) : List UInt8 := ((Nat.digits 256 n).map UInt8.ofNat).reverse

def contents (n : Nat) : List UInt8 :=
  match octets n with
  | [] => [0]
  | head :: rest => if head < 0x80 then head :: rest else 0 :: head :: rest

/-- The length of some contents: a byte below 128, else the number of its bytes and these. -/
def length (size : Nat) : List UInt8 :=
  if size < 128 then [UInt8.ofNat size]
  else UInt8.ofNat (128 + (octets size).length) :: octets size

def tagged (tag : UInt8) (body : List UInt8) : List UInt8 := tag :: (length body.length ++ body)

def integer (n : Nat) : List UInt8 := tagged 0x02 (contents n)

def sequence (parts : List (List UInt8)) : List UInt8 := tagged 0x30 parts.flatten

/-- The sign bit is clear, and no shorter bytes stand for the number. -/
def Minimal : List UInt8 → Prop
  | [] => False
  | [head] => head < 0x80
  | head :: second :: _ => head < 0x80 ∧ (head = 0 → 0x80 ≤ second)

def value (bytes : List UInt8) : Nat := Nat.ofDigits 256 (bytes.reverse.map UInt8.toNat)

theorem octets_value {head : UInt8} {rest : List UInt8} (filled : head ≠ 0) :
    octets (value (head :: rest)) = head :: rest := by
  have digits : Nat.digits 256 (value (head :: rest)) =
      (head :: rest).reverse.map UInt8.toNat := by
    apply Nat.digits_ofDigits 256 (by decide)
    · simp only [List.mem_map]
      rintro _ ⟨byte, _, rfl⟩
      exact byte.toNat_lt
    · intro _ zero
      simp at zero
      exact filled (UInt8.toNat_inj.mp zero)
  simp [octets, digits, Function.comp_def]

theorem octets_filled {n : Nat} {head : UInt8} {rest : List UInt8}
    (bytes : octets n = head :: rest) : head ≠ 0 := by
  rintro rfl
  have positive : n ≠ 0 := by
    rintro rfl
    simp [octets] at bytes
  have written := Nat.digits_ne_nil_iff_ne_zero (b := 256).mpr positive
  have last : ((Nat.digits 256 n).map UInt8.ofNat).getLast? = some 0 := by
    simpa [octets] using congrArg List.head? bytes
  rw [List.getLast?_map, List.getLast?_eq_some_getLast written] at last
  have zero : UInt8.ofNat ((Nat.digits 256 n).getLast written) = 0 := by simpa using last
  have small := Nat.digits_lt_base (by decide) (List.getLast_mem written)
  have digit : (UInt8.ofNat ((Nat.digits 256 n).getLast written)).toNat =
      (Nat.digits 256 n).getLast written := by
    rw [UInt8.toNat_ofNat', Nat.mod_eq_of_lt small]
  apply Nat.getLast_digit_ne_zero 256 positive
  rw [← digit, zero]
  rfl

theorem minimal_iff (bytes : List UInt8) : Minimal bytes ↔ ∃ n, contents n = bytes := by
  constructor
  · intro minimal
    match bytes, minimal with
    | [head], positive =>
      by_cases zero : head = 0
      · exact ⟨0, by simp [contents, octets, zero]⟩
      · refine ⟨value [head], ?_⟩
        rw [contents, octets_value zero]
        exact if_pos positive
    | head :: second :: rest, ⟨positive, padded⟩ =>
      by_cases zero : head = 0
      · have negative := padded zero
        have filled : second ≠ 0 := by
          rintro rfl
          exact absurd negative (by decide)
        refine ⟨value (second :: rest), ?_⟩
        rw [contents, octets_value filled, zero]
        exact if_neg (UInt8.not_lt.mpr negative)
      · refine ⟨value (head :: second :: rest), ?_⟩
        rw [contents, octets_value zero]
        exact if_pos positive
  · rintro ⟨n, rfl⟩
    unfold contents
    split
    · show (0 : UInt8) < 0x80
      decide
    · rename_i head rest bytes
      have filled := octets_filled bytes
      split
      · rename_i positive
        cases rest with
        | nil => exact positive
        | cons second rest => exact ⟨positive, fun zero => absurd zero filled⟩
      · rename_i negative
        exact ⟨by decide, fun _ => UInt8.not_lt.mp negative⟩

theorem length_short {size : Nat} (short : size < 128) : length size = [UInt8.ofNat size] :=
  if_pos short

end Der
