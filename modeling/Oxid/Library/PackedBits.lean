import Mathlib.Data.List.GetD
import Mathlib.Tactic.Common

/-!
Bits kept in bytes, the least significant bit of a byte first. Putting a bit in leaves the
others as they are and never takes one away.
-/
namespace PackedBits

/-- A bit by its place among all. Behind the bytes there are zeros. -/
def bitAt (bytes : List UInt8) (place : Nat) : Bool :=
  (bytes.getD (place / 8) 0).toNat.testBit (place % 8)

/-- The bytes with a bit or-ed to the one at a place. -/
def putBit (bytes : List UInt8) (place : Nat) (bit : Bool) : List UInt8 :=
  bytes.modify (place / 8) fun byte => byte ||| UInt8.ofNat (bit.toNat <<< (place % 8))

@[simp] theorem putBit_length (bytes : List UInt8) (place : Nat) (bit : Bool) :
    (putBit bytes place bit).length = bytes.length := List.length_modify _ _ _

theorem byte_bit (byte : UInt8) (bit : Bool) (place other : Nat) (inside : place < 8) :
    (byte ||| UInt8.ofNat (bit.toNat <<< place)).toNat.testBit other =
      (byte.toNat.testBit other || decide (other = place) && bit) := by
  have small : bit.toNat <<< place < 256 := by
    have power : 2 ^ place ≤ 2 ^ 7 := Nat.pow_le_pow_right (by decide) (by omega)
    cases bit <;> simp; omega
  rw [UInt8.toNat_or, UInt8.toNat_ofNat', Nat.mod_eq_of_lt small, Nat.testBit_or,
    Nat.testBit_shiftLeft]
  cases bit with
  | false => simp
  | true =>
    by_cases same : other = place
    · simp [same]
    · by_cases above : place ≤ other
      · have apart : other - place ≠ 0 := by omega
        simp [same, above, Nat.testBit_one_eq_true_iff_self_eq_zero.not.mpr apart]
      · simp [same, above]

theorem bitAt_putBit {bytes : List UInt8} {place : Nat} (inside : place / 8 < bytes.length)
    (bit : Bool) (other : Nat) : bitAt (putBit bytes place bit) other =
      (bitAt bytes other || decide (other = place) && bit) := by
  unfold bitAt putBit
  by_cases byte : place / 8 = other / 8
  · have found : other / 8 < bytes.length := by omega
    have same : (other % 8 = place % 8) ↔ (other = place) := by omega
    simp only [List.getD_eq_getElem?_getD, List.getElem?_modify, byte, if_true,
      List.getElem?_eq_getElem found, Option.map_eq_map, Option.map_some, Option.getD_some]
    rw [byte_bit _ _ _ _ (by omega), decide_eq_decide.mpr same]
  · have apart : other ≠ place := by omega
    simp [List.getD_eq_getElem?_getD, byte, apart]

end PackedBits
