import Mathlib.Data.Nat.Bitwise
import Oxid.Library.CompactOrder
import Oxid.Library.Limbs
import Oxid.Pow

/-!
`base_uint`: numbers as an array of 32-bit limbs, least significant first, with the shifts,
the carries and the long division of the source, and the compact form of `uint256`. The
operations on limbs are shown to be those of the bit vector that a `uint256` is elsewhere.
-/
namespace OxidBaseUint
open OxidPrimitives Limbs

structure BaseUint (WIDTH : Nat) where
  pn : List (BitVec 32)
  size : pn.length = WIDTH
deriving DecidableEq, Repr

namespace BaseUint

variable {WIDTH : Nat}

def value (a : BaseUint WIDTH) : Nat := Limbs.value a.pn

def zero : BaseUint WIDTH := ⟨List.replicate WIDTH 0#32, List.length_replicate⟩

/-- Made from a `uint64_t`. -/
def ofUInt64 (b : UInt64) : BaseUint (WIDTH + 2) :=
  ⟨b.toBitVec.setWidth 32 :: (b.toBitVec >>> 32).setWidth 32 :: List.replicate WIDTH 0#32, by simp⟩

/-- `operator~`. -/
def complement (a : BaseUint WIDTH) : BaseUint WIDTH :=
  ⟨Limbs.complement a.pn, by rw [length_complement, a.size]⟩

/-- `operator+=`. -/
def add (a b : BaseUint WIDTH) : BaseUint WIDTH :=
  ⟨Limbs.add 0 a.pn b.pn, by rw [length_add 0 (a.size.trans b.size.symm), a.size]⟩

def subtract (a b : BaseUint WIDTH) : BaseUint WIDTH :=
  ⟨Limbs.subtract a.pn b.pn, by rw [length_subtract (a.size.trans b.size.symm), a.size]⟩

/-- `operator<<=`. -/
def shiftLeft (a : BaseUint WIDTH) (shift : Nat) : BaseUint WIDTH :=
  ⟨Limbs.shiftLeft a.pn shift, by rw [length_shiftLeft (by decide), a.size]⟩

/-- `operator>>=`. -/
def shiftRight (a : BaseUint WIDTH) (shift : Nat) : BaseUint WIDTH :=
  ⟨Limbs.shiftRight a.pn shift, by rw [length_shiftRight (by decide), a.size]⟩

def compareTo (a b : BaseUint WIDTH) : Int := Limbs.compareTo a.pn b.pn

def equalTo (a : BaseUint (WIDTH + 2)) (b : UInt64) : Bool :=
  (a.pn.drop 2).all (· == 0#32) && a.pn.getD 1 0#32 == (b.toBitVec >>> 32).setWidth 32 &&
    a.pn.getD 0 0#32 == b.toBitVec.setWidth 32

def bits (a : BaseUint WIDTH) : Nat := Limbs.bits a.pn

def getLow64 (a : BaseUint (WIDTH + 2)) : UInt64 :=
  .ofBitVec ((a.pn.getD 0 0#32).setWidth 64 ||| ((a.pn.getD 1 0#32).setWidth 64 <<< 32))

/-- `pn[shift / 32] |= (1 << (shift & 31))`. -/
def setBit (a : BaseUint WIDTH) (shift : Nat) : BaseUint WIDTH :=
  ⟨orAt a.pn (shift / 32) (1#32 <<< (shift % 32)), by rw [length_orAt, a.size]⟩

def divideLoop : Nat → BaseUint WIDTH → BaseUint WIDTH → BaseUint WIDTH → BaseUint WIDTH
  | 0, _, _, quotient => quotient
  | shift + 1, num, div, quotient =>
    if 0 ≤ num.compareTo div then
      divideLoop shift (num.subtract div) (div.shiftRight 1) (quotient.setBit shift)
    else divideLoop shift num (div.shiftRight 1) quotient

/-- `operator/=`. Nothing where it throws. -/
def divide (num div : BaseUint WIDTH) : Option (BaseUint WIDTH) :=
  let num_bits := num.bits
  let div_bits := div.bits
  if div_bits = 0 then none
  else if num_bits < div_bits then some zero
  else
    let shift := num_bits - div_bits
    some (divideLoop (shift + 1) num (div.shiftLeft shift) zero)

theorem value_lt (a : BaseUint WIDTH) : a.value < 2 ^ (32 * WIDTH) := by
  have bound := Limbs.value_lt a.pn
  rw [a.size] at bound
  exact bound

@[simp] theorem value_zero : (zero : BaseUint WIDTH).value = 0 := value_replicate_zero WIDTH

@[simp] theorem value_ofUInt64 (b : UInt64) : (ofUInt64 b : BaseUint (WIDTH + 2)).value = b.toNat := by
  have bound := b.toNat_lt
  unfold ofUInt64 value
  rw [Limbs.value, Limbs.value, value_replicate_zero]
  simp only [BitVec.toNat_setWidth, BitVec.toNat_ushiftRight, Nat.shiftRight_eq_div_pow,
    UInt64.toNat_toBitVec]
  omega

theorem value_complement (a : BaseUint WIDTH) :
    a.complement.value + a.value + 1 = 2 ^ (32 * WIDTH) := by
  have flipped := Limbs.value_complement a.pn
  rw [a.size] at flipped
  exact flipped

theorem value_add (a b : BaseUint WIDTH) :
    (a.add b).value = (a.value + b.value) % 2 ^ (32 * WIDTH) := by
  have sum := Limbs.value_add 0 (a.size.trans b.size.symm)
  rw [Nat.zero_add, a.size] at sum
  exact sum

theorem value_subtract {a b : BaseUint WIDTH} (le : b.value ≤ a.value) :
    (a.subtract b).value = a.value - b.value :=
  Limbs.value_subtract (a.size.trans b.size.symm) le

theorem value_shiftLeft (a : BaseUint WIDTH) (shift : Nat) :
    (a.shiftLeft shift).value = a.value * 2 ^ shift % 2 ^ (32 * WIDTH) := by
  have shifted := Limbs.value_shiftLeft (by decide) a.pn shift
  rw [a.size] at shifted
  exact shifted

theorem value_shiftRight (a : BaseUint WIDTH) (shift : Nat) :
    (a.shiftRight shift).value = a.value / 2 ^ shift :=
  Limbs.value_shiftRight (by decide) a.pn shift

theorem bits_eq (a : BaseUint WIDTH) : a.bits = a.value.size := bits_eq_size a.pn

theorem compareTo_nonneg (a b : BaseUint WIDTH) : 0 ≤ a.compareTo b ↔ b.value ≤ a.value := by
  unfold compareTo value
  rw [compareTo_spec (a.size.trans b.size.symm)]
  split
  · rename_i less
    exact ⟨fun nonneg => absurd nonneg (by decide), fun le => absurd less (not_lt.mpr le)⟩
  · rename_i more
    split
    · exact ⟨fun _ => not_lt.mp more, fun _ => by decide⟩
    · exact ⟨fun _ => not_lt.mp more, fun _ => le_refl 0⟩

theorem value_setBit {a : BaseUint WIDTH} {shift : Nat} (inside : shift < 32 * WIDTH) {high : Nat}
    (clear : a.value = 2 ^ (shift + 1) * high) : (a.setBit shift).value = a.value + 2 ^ shift := by
  refine value_orBit (by decide) ?_ clear
  rw [a.size, Nat.div_lt_iff_lt_mul (by decide), Nat.mul_comm]
  exact inside

theorem getLow64_toNat (a : BaseUint (WIDTH + 2)) : a.getLow64.toNat = a.value % 2 ^ 64 := by
  obtain ⟨pn, size⟩ := a
  match pn with
  | [] => cases size
  | [_] => cases size
  | first :: second :: rest =>
    have low := first.isLt
    have joined : (first.setWidth 64 ||| second.setWidth 64 <<< 32).toNat =
        first.toNat + 2 ^ 32 * second.toNat := by
      rw [BitVec.toNat_or, BitVec.toNat_shiftLeft, BitVec.toNat_setWidth, BitVec.toNat_setWidth,
        Nat.shiftLeft_eq, Nat.mod_eq_of_lt (by omega), Nat.mod_eq_of_lt (by omega),
        Nat.mod_eq_of_lt (by omega), Nat.mul_comm, Nat.or_comm,
        ← Nat.two_pow_add_eq_or_of_lt low, Nat.add_comm]
    unfold getLow64 value
    rw [UInt64.toNat_ofBitVec, Limbs.value, Limbs.value]
    change (first.setWidth 64 ||| second.setWidth 64 <<< 32).toNat = _
    omega

theorem value_eq_zero_iff (pn : List (BitVec 32)) :
    Limbs.value pn = 0 ↔ pn.all (· == 0#32) = true := by
  induction pn with
  | nil => simp [Limbs.value]
  | cons x xs ih =>
    rw [List.all_cons, Bool.and_eq_true, ← ih, beq_iff_eq, Limbs.value]
    constructor
    · intro none'
      exact ⟨BitVec.eq_of_toNat_eq (by simp; omega), by omega⟩
    · rintro ⟨rfl, rest⟩
      rw [rest]
      rfl

theorem equalTo_iff (a : BaseUint (WIDTH + 2)) (b : UInt64) :
    a.equalTo b = true ↔ a.value = b.toNat := by
  obtain ⟨pn, size⟩ := a
  match pn with
  | [] => cases size
  | [_] => cases size
  | first :: second :: rest =>
    have bound := b.toNat_lt
    have lowWord : (b.toBitVec.setWidth 32).toNat = b.toNat % 2 ^ 32 := by
      rw [BitVec.toNat_setWidth, UInt64.toNat_toBitVec]
    have highWord : ((b.toBitVec >>> 32).setWidth 32).toNat = b.toNat / 2 ^ 32 := by
      rw [BitVec.toNat_setWidth, BitVec.toNat_ushiftRight, UInt64.toNat_toBitVec,
        Nat.shiftRight_eq_div_pow]
      omega
    unfold equalTo value
    change (rest.all (· == 0#32) && second == (b.toBitVec >>> 32).setWidth 32 &&
      first == b.toBitVec.setWidth 32) = true ↔ _
    rw [Bool.and_eq_true, Bool.and_eq_true, ← value_eq_zero_iff, beq_iff_eq, beq_iff_eq,
      ← BitVec.toNat_inj, ← BitVec.toNat_inj, lowWord, highWord, Limbs.value, Limbs.value]
    omega

section Division

theorem value_divideLoop {d : Nat} (steps : Nat) {num div quotient : BaseUint WIDTH} {high : Nat}
    (inside : steps ≤ 32 * WIDTH) (divisor : div.value = d * 2 ^ steps / 2)
    (clear : quotient.value = 2 ^ steps * high) :
    (divideLoop steps num div quotient).value =
      (divideFrom d steps num.value quotient.value).1 := by
  induction steps generalizing num div quotient high with
  | zero => rfl
  | succ shift ih =>
    have here : div.value = d * 2 ^ shift := by
      rw [divisor, pow_succ, ← Nat.mul_assoc, Nat.mul_div_cancel _ (by decide)]
    have next : (div.shiftRight 1).value = d * 2 ^ shift / 2 := by
      rw [value_shiftRight, here, pow_one]
    rw [divideLoop, divideFrom]
    by_cases fits : d * 2 ^ shift ≤ num.value
    · have le : div.value ≤ num.value := here ▸ fits
      have set := value_setBit (Nat.lt_of_succ_le inside) clear
      have cleared : (quotient.setBit shift).value = 2 ^ shift * (2 * high + 1) := by
        rw [set, clear, pow_succ]
        ring
      rw [if_pos ((compareTo_nonneg num div).mpr le), if_pos fits,
        ih (Nat.le_of_succ_le inside) next cleared, value_subtract le, set, here]
    · have more : ¬0 ≤ num.compareTo div := fun nonneg =>
        fits (here ▸ (compareTo_nonneg num div).mp nonneg)
      have cleared : quotient.value = 2 ^ shift * (2 * high) := by
        rw [clear, pow_succ]
        ring
      rw [if_neg more, if_neg fits, ih (Nat.le_of_succ_le inside) next cleared]

theorem divide_spec (num div : BaseUint WIDTH) :
    (div.value = 0 → num.divide div = none) ∧
    (div.value ≠ 0 → ∃ quotient, num.divide div = some quotient ∧
      quotient.value = num.value / div.value) := by
  unfold divide
  rw [bits_eq, bits_eq]
  refine ⟨fun none' => ?_, fun some' => ?_⟩
  · rw [none', Nat.size_zero, if_pos rfl]
  · have sized : div.value.size ≠ 0 := fun empty => some' (Nat.size_eq_zero.mp empty)
    rw [if_neg sized]
    by_cases shorter : num.value.size < div.value.size
    · have less : num.value < div.value := by
        by_contra more
        exact absurd (Nat.size_le_size (not_lt.mp more)) (not_le.mpr shorter)
      rw [if_pos shorter]
      exact ⟨zero, rfl, by rw [value_zero, Nat.div_eq_of_lt less]⟩
    · rw [if_neg shorter]
      refine ⟨_, rfl, ?_⟩
      have aligned : num.value.size - div.value.size + div.value.size = num.value.size :=
        Nat.sub_add_cancel (not_lt.mp shorter)
      generalize shiftEq : num.value.size - div.value.size = shift at *
      have width : num.value.size ≤ 32 * WIDTH := Nat.size_le.mpr num.value_lt
      have below := Nat.lt_size_self num.value
      have divisorBelow := Nat.lt_size_self div.value
      have divisorAbove : 2 ^ (div.value.size - 1) ≤ div.value :=
        Nat.lt_size.mp (Nat.sub_one_lt sized)
      have room : div.value * 2 ^ shift < 2 ^ (32 * WIDTH) := by
        calc div.value * 2 ^ shift < 2 ^ div.value.size * 2 ^ shift :=
              Nat.mul_lt_mul_of_pos_right divisorBelow (Nat.two_pow_pos shift)
          _ = 2 ^ num.value.size := by rw [← pow_add, Nat.add_comm, aligned]
          _ ≤ 2 ^ (32 * WIDTH) := Nat.pow_le_pow_right (by decide) width
      have enough : num.value < div.value * 2 ^ (shift + 1) := by
        calc num.value < 2 ^ num.value.size := below
          _ = 2 ^ (div.value.size - 1) * 2 ^ (shift + 1) := by
            rw [← pow_add]
            congr 1
            omega
          _ ≤ div.value * 2 ^ (shift + 1) := Nat.mul_le_mul_right _ divisorAbove
      have shifted : (div.shiftLeft shift).value = div.value * 2 ^ (shift + 1) / 2 := by
        rw [value_shiftLeft, Nat.mod_eq_of_lt room, pow_succ, ← Nat.mul_assoc,
          Nat.mul_div_cancel _ (by decide)]
      have clear : (zero : BaseUint WIDTH).value = 2 ^ (shift + 1) * 0 := by simp
      rw [value_divideLoop (shift + 1) (by omega) shifted clear, divideFrom_spec enough, value_zero,
        Nat.zero_add]

end Division

end BaseUint

section Compact

abbrev Uint256Limbs := BaseUint 8

structure SetCompactResult where
  value : Uint256Limbs
  fNegative : Bool
  fOverflow : Bool

def setCompact (nCompact : UInt32) : SetCompactResult :=
  let nSize := (nCompact >>> 24).toNat
  let nWord := nCompact &&& 0x007fffff
  let nWord := if nSize ≤ 3 then nWord >>> UInt32.ofNat (8 * (3 - nSize)) else nWord
  let value : Uint256Limbs := .ofUInt64 nWord.toUInt64
  { value := if nSize ≤ 3 then value else value.shiftLeft (8 * (nSize - 3))
    fNegative := nWord != 0 && nCompact &&& 0x00800000 != 0
    fOverflow := nWord != 0 &&
      (decide (34 < nSize) || (decide (0xff < nWord) && decide (33 < nSize)) ||
        (decide (0xffff < nWord) && decide (32 < nSize))) }

def getCompact (bn : Uint256Limbs) (fNegative : Bool) : Option UInt32 :=
  let nSize := (bn.bits + 7) / 8
  let nCompact := if nSize ≤ 3 then (bn.getLow64 <<< UInt64.ofNat (8 * (3 - nSize))).toUInt32
    else (bn.shiftRight (8 * (nSize - 3))).getLow64.toUInt32
  let (nCompact, nSize) := if nCompact &&& 0x00800000 != 0 then (nCompact >>> 8, nSize + 1)
    else (nCompact, nSize)
  if nCompact &&& ~~~0x007fffff == 0 && decide (nSize < 256) then
    some (nCompact ||| (UInt32.ofNat nSize <<< 24) |||
      (if fNegative && nCompact &&& 0x007fffff != 0 then 0x00800000 else 0))
  else none

theorem ne_zero_eq (n : UInt32) : (n != 0) = (n.toNat != 0) := by
  rw [Bool.eq_iff_iff, bne_iff_ne, bne_iff_ne, ne_eq, ne_eq, ← UInt32.toNat_inj]
  rfl

theorem signBit_eq (n : UInt32) : (n &&& 0x00800000 != 0) = (n.toNat / 2 ^ 23 % 2 == 1) := by
  have masked : (n &&& 0x00800000).toNat = (n.toNat.testBit 23).toNat * 2 ^ 23 := by
    exact Nat.and_two_pow n.toNat 23
  rw [ne_zero_eq, masked, Nat.testBit_eq_decide_div_mod_eq]
  by_cases set : n.toNat / 2 ^ 23 % 2 = 1
  · rw [set]
    rfl
  · have clear : n.toNat / 2 ^ 23 % 2 = 0 := by omega
    rw [clear]
    rfl

theorem mantissaBits_toNat (n : UInt32) : (n &&& 0x007fffff).toNat = n.toNat % 2 ^ 23 := by
  exact Nat.and_two_pow_sub_one_eq_mod n.toNat 23

theorem shifted_toNat (n : UInt32) {bytes : Nat} (few : bytes ≤ 3) :
    (n >>> UInt32.ofNat (8 * bytes)).toNat = n.toNat / 256 ^ bytes := by
  have amount : (UInt32.ofNat (8 * bytes)).toNat = 8 * bytes :=
    UInt32.toNat_ofNat_of_lt' (by have : UInt32.size = 2 ^ 32 := rfl; omega)
  rw [UInt32.toNat_shiftRight, amount, Nat.shiftRight_eq_div_pow, Nat.mod_eq_of_lt (by omega),
    CompactNumber.pow_256]

theorem setCompact_value (nCompact : UInt32) :
    (setCompact nCompact).value.value = (CompactNumber.decode nCompact.toNat).value % 2 ^ 256 ∧
      (setCompact nCompact).fNegative = (CompactNumber.decode nCompact.toNat).negative ∧
      (setCompact nCompact).fOverflow = (CompactNumber.decode nCompact.toNat).overflow := by
  have nSize : (nCompact >>> 24).toNat = nCompact.toNat / 2 ^ 24 := by
    rw [UInt32.toNat_shiftRight, Nat.shiftRight_eq_div_pow]
    rfl
  unfold setCompact CompactNumber.decode CompactNumber.place
  rw [nSize, signBit_eq]
  simp only [ne_zero_eq, UInt32.lt_iff_toNat_lt]
  by_cases small : nCompact.toNat / 2 ^ 24 ≤ 3
  · simp only [if_pos small, shifted_toNat _ (Nat.sub_le 3 _), mantissaBits_toNat]
    refine ⟨?_, trivial, rfl⟩
    have less := Nat.div_le_self (nCompact.toNat % 2 ^ 23) (256 ^ (3 - nCompact.toNat / 2 ^ 24))
    rw [BaseUint.value_ofUInt64, UInt32.toNat_toUInt64, shifted_toNat _ (Nat.sub_le 3 _),
      mantissaBits_toNat]
    exact (Nat.mod_eq_of_lt (lt_of_le_of_lt less (by omega))).symm
  · simp only [if_neg small, mantissaBits_toNat]
    refine ⟨?_, trivial, rfl⟩
    rw [BaseUint.value_shiftLeft, BaseUint.value_ofUInt64, UInt32.toNat_toUInt64, mantissaBits_toNat,
      CompactNumber.pow_256]

theorem bits_value (bn : Uint256Limbs) : bn.bits = CompactNumber.bits bn.value := by
  rw [BaseUint.bits_eq]
  exact le_antisymm (Nat.size_le.mpr (CompactNumber.lt_bits _))
    (CompactNumber.bits_le (Nat.lt_size_self _))

theorem mantissa_lt (x : Nat) : CompactNumber.mantissa x < 2 ^ 24 := by
  rcases Nat.eq_zero_or_pos x with zero | positive
  · rw [zero]
    decide
  · exact (CompactNumber.mantissa_bounds positive).2

theorem topBytes (bn : Uint256Limbs) :
    (if CompactNumber.byteLength bn.value ≤ 3 then
        (bn.getLow64 <<< UInt64.ofNat (8 * (3 - CompactNumber.byteLength bn.value))).toUInt32
      else (bn.shiftRight (8 * (CompactNumber.byteLength bn.value - 3))).getLow64.toUInt32).toNat =
      CompactNumber.mantissa bn.value := by
  have bound := mantissa_lt bn.value
  have below := CompactNumber.lt_byteLength bn.value
  unfold CompactNumber.mantissa at bound ⊢
  split
  · rename_i short
    rw [if_pos short, CompactNumber.pow_256] at bound
    have amount : (UInt64.ofNat (8 * (3 - CompactNumber.byteLength bn.value))).toNat =
        8 * (3 - CompactNumber.byteLength bn.value) :=
      UInt64.toNat_ofNat_of_lt' (by have : UInt64.size = 2 ^ 64 := rfl; omega)
    have three : bn.value < 256 ^ 3 :=
      lt_of_lt_of_le below (Nat.pow_le_pow_right (by decide) short)
    rw [UInt64.toNat_toUInt32, UInt64.toNat_shiftLeft, amount, Nat.shiftLeft_eq, BaseUint.getLow64_toNat,
      Nat.mod_eq_of_lt (show bn.value < 2 ^ 64 by omega), Nat.mod_eq_of_lt (show _ < 64 by omega),
      CompactNumber.pow_256]
    omega
  · rename_i long
    rw [if_neg long, CompactNumber.pow_256] at bound
    rw [UInt64.toNat_toUInt32, BaseUint.getLow64_toNat, BaseUint.value_shiftRight,
      CompactNumber.pow_256]
    generalize bn.value / 2 ^ (8 * (CompactNumber.byteLength bn.value - 3)) = top at bound ⊢
    omega

theorem compact_word {m : UInt32} {nSize : Nat} (short : m.toNat < 2 ^ 23) (few : nSize < 256) :
    m &&& ~~~0x007fffff = 0 ∧
      m ||| (UInt32.ofNat nSize <<< 24) = UInt32.ofNat (m.toNat + nSize * 2 ^ 24) := by
  have masked : m &&& 0x007fffff = m := by
    apply UInt32.toNat_inj.mp
    rw [mantissaBits_toNat, Nat.mod_eq_of_lt short]
  constructor
  · rw [← masked, UInt32.and_assoc]
    exact (congrArg (m &&& ·) (by decide)).trans UInt32.and_zero
  · have place : (UInt32.ofNat nSize <<< 24).toNat = 2 ^ 24 * nSize := by
      rw [UInt32.toNat_shiftLeft, UInt32.toNat_ofNat_of_lt' (by
        have : UInt32.size = 2 ^ 32 := rfl
        omega), Nat.shiftLeft_eq]
      change nSize * 2 ^ 24 % 2 ^ 32 = _
      omega
    apply UInt32.toNat_inj.mp
    rw [UInt32.toNat_or, place, UInt32.toNat_ofNat_of_lt' (by
      have : UInt32.size = 2 ^ 32 := rfl
      omega), Nat.or_comm, ← Nat.two_pow_add_eq_or_of_lt (by omega)]
    ring

theorem getCompact_value (bn : Uint256Limbs) :
    getCompact bn false = some (UInt32.ofNat (CompactNumber.encode bn.value)) := by
  have bound := mantissa_lt bn.value
  have bytes : CompactNumber.byteLength bn.value ≤ 32 := by
    have small := bn.value_lt
    refine CompactNumber.byteLength_le ?_
    exact small
  have top := topBytes bn
  have length : (bn.bits + 7) / 8 = CompactNumber.byteLength bn.value := by
    rw [bits_value]
    rfl
  unfold getCompact CompactNumber.encode
  dsimp only
  rw [length]
  generalize (if CompactNumber.byteLength bn.value ≤ 3 then
      (bn.getLow64 <<< UInt64.ofNat (8 * (3 - CompactNumber.byteLength bn.value))).toUInt32
    else (bn.shiftRight (8 * (CompactNumber.byteLength bn.value - 3))).getLow64.toUInt32) =
      nCompact at top ⊢
  rw [signBit_eq, top]
  by_cases full : CompactNumber.mantissa bn.value / 2 ^ 23 % 2 = 1
  · have carried : (nCompact >>> 8).toNat = CompactNumber.mantissa bn.value / 256 := by
      rw [UInt32.toNat_shiftRight, Nat.shiftRight_eq_div_pow, top]
      rfl
    obtain ⟨clear, word⟩ := @compact_word (nCompact >>> 8) (CompactNumber.byteLength bn.value + 1)
      (by omega) (by omega)
    have few : CompactNumber.byteLength bn.value + 1 < 256 := by omega
    rw [if_pos (beq_iff_eq.mpr full), if_pos full]
    rw [clear, decide_eq_true few, word, carried]
    simp
  · obtain ⟨clear, word⟩ := @compact_word nCompact (CompactNumber.byteLength bn.value)
      (by omega) (by omega)
    have few : CompactNumber.byteLength bn.value < 256 := by omega
    rw [if_neg fun set => full (beq_iff_eq.mp set), if_neg full]
    rw [clear, decide_eq_true few, word, top]
    simp

end Compact

section Refinement

def BaseUint.toUint256 (bn : BaseUint 8) : Uint256 := BitVec.ofNat 256 bn.value

theorem toNat_toUint256 (bn : Uint256Limbs) : bn.toUint256.toNat = bn.value := by
  unfold BaseUint.toUint256
  exact Nat.mod_eq_of_lt bn.value_lt

theorem setCompact_refines (nCompact : UInt32) :
    (setCompact nCompact).value.toUint256 = (OxidPow.setCompact nCompact).bnTarget ∧
      (setCompact nCompact).fNegative = (OxidPow.setCompact nCompact).fNegative ∧
      (setCompact nCompact).fOverflow = (OxidPow.setCompact nCompact).fOverflow := by
  obtain ⟨value, negative, overflow⟩ := setCompact_value nCompact
  refine ⟨BitVec.eq_of_toNat_eq ?_, negative, overflow⟩
  rw [toNat_toUint256, value]
  unfold OxidPow.setCompact
  rw [BitVec.toNat_ofNat]

theorem getCompact_refines (bn : Uint256Limbs) :
    getCompact bn false = some (OxidPow.getCompact bn.toUint256) := by
  rw [getCompact_value, OxidPow.getCompact, toNat_toUint256]

theorem complement_refines (bn : Uint256Limbs) : bn.complement.toUint256 = ~~~bn.toUint256 := by
  have flipped := bn.value_complement
  apply BitVec.eq_of_toNat_eq
  rw [BitVec.toNat_not, toNat_toUint256, toNat_toUint256]
  omega

theorem add_refines (a b : Uint256Limbs) : (a.add b).toUint256 = a.toUint256 + b.toUint256 := by
  apply BitVec.eq_of_toNat_eq
  rw [BitVec.toNat_add, toNat_toUint256, toNat_toUint256, toNat_toUint256, BaseUint.value_add]

theorem divide_refines {num div : Uint256Limbs} (nonzero : div.toUint256 ≠ 0) :
    ∃ quotient, num.divide div = some quotient ∧
      quotient.toUint256 = num.toUint256 / div.toUint256 := by
  have positive : div.value ≠ 0 := by
    intro none'
    apply nonzero
    apply BitVec.eq_of_toNat_eq
    rw [toNat_toUint256, none']
    rfl
  obtain ⟨quotient, divided, exact⟩ := (BaseUint.divide_spec num div).2 positive
  refine ⟨quotient, divided, BitVec.eq_of_toNat_eq ?_⟩
  rw [BitVec.toNat_udiv, toNat_toUint256, toNat_toUint256, toNat_toUint256, exact]

end Refinement

section Exactness

/-- A compact word without a sign and in range, with no digit below the unit and none missing
    at the top. -/
def Canonical (nCompact : UInt32) : Prop := CompactNumber.Canonical nCompact.toNat

/-- What the compact form of a number stands for: the number without the bytes below its two or
    three highest. -/
structure Truncated (bn : Uint256Limbs) (back : SetCompactResult) : Prop where
  value : back.value.value = bn.value / 256 ^ CompactNumber.dropped bn.value *
    256 ^ CompactNumber.dropped bn.value
  le : back.value.value ≤ bn.value
  kept : bn.value / 256 ^ CompactNumber.dropped bn.value < 2 ^ 23 ∧
    (0 < CompactNumber.dropped bn.value →
      2 ^ 15 ≤ bn.value / 256 ^ CompactNumber.dropped bn.value)
  nonnegative : back.fNegative = false
  inRange : back.fOverflow = false

theorem encode_word (bn : Uint256Limbs) :
    (UInt32.ofNat (CompactNumber.encode bn.value)).toNat = CompactNumber.encode bn.value := by
  refine UInt32.toNat_ofNat_of_lt' (CompactNumber.encode_lt ?_)
  exact bn.value_lt

theorem getCompact_truncates (bn : Uint256Limbs) :
    ∃ nCompact, getCompact bn false = some nCompact ∧ Truncated bn (setCompact nCompact) := by
  refine ⟨_, getCompact_value bn, ?_⟩
  obtain ⟨value, negative, overflow⟩ := setCompact_value
    (UInt32.ofNat (CompactNumber.encode bn.value))
  rw [encode_word] at value negative overflow
  have small : bn.value < 256 ^ 32 := by
    exact bn.value_lt
  rcases Nat.eq_zero_or_pos bn.value with zero | positive
  · have none' : CompactNumber.decode (CompactNumber.encode bn.value) = ⟨0, false, false⟩ := by
      rw [zero]
      decide
    have nothing : CompactNumber.dropped 0 = 0 := by decide
    rw [none'] at value negative overflow
    refine ⟨?_, ?_, ?_, negative, overflow⟩
    · rw [value, zero, nothing, Nat.zero_div, Nat.zero_mul, Nat.zero_mod]
    · rw [value]
      exact Nat.zero_le _
    · rw [zero, nothing]
      decide
  · obtain ⟨nonnegative, inRange, -, below⟩ := CompactNumber.decode_encode positive small
    rw [Nat.mod_eq_of_lt (by omega)] at value
    refine ⟨?_, ?_, CompactNumber.kept_bounds positive, ?_, ?_⟩
    · rw [value, CompactNumber.decode_encode_value positive]
    · rw [value]
      exact below
    · rw [negative, nonnegative]
    · rw [overflow, inRange]

theorem canonical_iff (nCompact : UInt32) :
    getCompact (setCompact nCompact).value false = some nCompact ↔ Canonical nCompact := by
  obtain ⟨value, -, -⟩ := setCompact_value nCompact
  have small := (setCompact nCompact).value.value_lt
  rw [getCompact_value, Option.some.injEq, ← UInt32.toNat_inj, encode_word]
  unfold Canonical
  constructor
  · intro same
    rw [← same]
    exact CompactNumber.canonical_encode (by rw [CompactNumber.pow_256]; exact small)
  · intro canonical
    obtain ⟨fits, word⟩ := canonical.encode_value
    rw [CompactNumber.pow_256] at fits
    rw [value, Nat.mod_eq_of_lt fits, word]

theorem getCompact_mono {a b : Uint256Limbs} (le : a.value ≤ b.value) :
    ∃ first second, getCompact a false = some first ∧ getCompact b false = some second ∧
      first ≤ second := by
  refine ⟨_, _, getCompact_value a, getCompact_value b, ?_⟩
  rw [UInt32.le_iff_toNat_le, encode_word, encode_word]
  exact CompactNumber.encode_mono le

/-- Division gives the quotient; a compact form stands for the number truncated, is itself
    what a canonical word comes back as, and keeps the order. -/
theorem uint256_exact :
    (∀ num div : Uint256Limbs, div.value ≠ 0 → ∃ quotient, num.divide div = some quotient ∧
      quotient.value * div.value ≤ num.value ∧ num.value < (quotient.value + 1) * div.value) ∧
    (∀ bn, ∃ nCompact, getCompact bn false = some nCompact ∧ Truncated bn (setCompact nCompact)) ∧
    (∀ nCompact, getCompact (setCompact nCompact).value false = some nCompact ↔
      Canonical nCompact) ∧
    ∀ a b : Uint256Limbs, a.value ≤ b.value → ∃ first second,
      getCompact a false = some first ∧ getCompact b false = some second ∧ first ≤ second := by
  refine ⟨fun num div nonzero => ?_, getCompact_truncates, canonical_iff, fun a b => getCompact_mono⟩
  obtain ⟨quotient, divided, exact⟩ := (BaseUint.divide_spec num div).2 nonzero
  refine ⟨quotient, divided, ?_, ?_⟩
  · rw [exact]
    exact Nat.div_mul_le_self _ _
  · rw [exact, Nat.mul_comm]
    exact Nat.lt_mul_div_succ _ (Nat.pos_of_ne_zero nonzero)

theorem tenth_exact : ∃ quotient,
    (BaseUint.zero : Uint256Limbs).complement.divide (.ofUInt64 10) = some quotient ∧
      quotient.value * (BaseUint.ofUInt64 10 : Uint256Limbs).value ≤
        (BaseUint.zero : Uint256Limbs).complement.value ∧
      (BaseUint.zero : Uint256Limbs).complement.value <
        (quotient.value + 1) * (BaseUint.ofUInt64 10 : Uint256Limbs).value :=
  uint256_exact.1 _ _ (by rw [BaseUint.value_ofUInt64]; decide)

end Exactness

end OxidBaseUint
