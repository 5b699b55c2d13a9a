import Oxid.Library.VarInt

/-!
`WriteVarInt` and `ReadVarInt` for the unsigned types they are used at. The digits are put
in a buffer from the last one on and written out backwards. Reading shifts them into a word
and looks at no overflow.
-/
namespace OxidVarInt
open Serialize VarInts

inductive Unsigned where
  | uint8_t | uint16_t | uint32_t | uint64_t
deriving DecidableEq, Repr

def Unsigned.bits : Unsigned → Nat
  | .uint8_t => 8
  | .uint16_t => 16
  | .uint32_t => 32
  | .uint64_t => 64

abbrev Unsigned.Word (I : Unsigned) := BitVec I.bits

theorem Unsigned.bits_wide (I : Unsigned) : 8 ≤ I.bits := by cases I <;> decide

variable {I : Unsigned}

theorem shifted_toNat (n : I.Word) : (n >>> 7).toNat = n.toNat / 128 := by
  rw [BitVec.toNat_ushiftRight, Nat.shiftRight_eq_div_pow]

theorem limit_toNat : (0x7F : I.Word).toNat = 127 := by cases I <;> rfl

theorem short_iff (n : I.Word) : n ≤ 0x7F ↔ n.toNat ≤ 127 := by
  rw [BitVec.le_def, limit_toNat]

theorem low_toNat (n : I.Word) : (n &&& 0x7F).toNat = n.toNat % 128 := by
  rw [BitVec.toNat_and, limit_toNat]
  exact Nat.and_two_pow_sub_one_eq_mod n.toNat 7

theorem next_toNat {n : I.Word} (long : ¬n.toNat ≤ 127) :
    ((n >>> 7) - 1).toNat = n.toNat / 128 - 1 := by
  have one : (1 : I.Word).toNat = 1 := by cases I <;> rfl
  rw [BitVec.toNat_sub, one, shifted_toNat] at *
  rw [show 2 ^ I.bits - 1 + n.toNat / 128 = n.toNat / 128 - 1 + 2 ^ I.bits by omega,
    Nat.add_mod_right, Nat.mod_eq_of_lt (by omega)]

def getSizeOfVarInt (n : I.Word) : Nat :=
  if n ≤ 0x7F then 1 else getSizeOfVarInt ((n >>> 7) - 1) + 1
termination_by n.toNat
decreasing_by
  rename_i long
  rw [short_iff] at long
  rw [next_toNat long]
  omega

/-- The buffer from the place `len` on, the last digit at place 0. -/
def digits (len : Nat) (n : I.Word) : Bytes :=
  let chData := UInt8.ofNat (n &&& 0x7F).toNat ||| if len = 0 then 0x00 else 0x80
  if n ≤ 0x7F then [chData] else chData :: digits (len + 1) ((n >>> 7) - 1)
termination_by n.toNat
decreasing_by
  rename_i long
  rw [short_iff] at long
  rw [next_toNat long]
  omega

def writeVarInt (n : I.Word) : Bytes := (digits 0 n).reverse

def readInto (n : I.Word) : Bytes → Option (I.Word × Bytes)
  | [] => none
  | chData :: is =>
    let n := (n <<< 7) ||| BitVec.ofNat I.bits (chData &&& 0x7F).toNat
    if chData &&& 0x80 ≠ 0 then readInto (n + 1) is else some (n, is)

def readVarInt (I : Unsigned) (is : Bytes) : Option (I.Word × Bytes) := readInto (0 : I.Word) is

section Bytes

theorem marked_ofNat {n : Nat} (small : n < 128) :
    UInt8.ofNat n ||| 0x80 = UInt8.ofNat (n + 128) := by
  have all : ∀ m < 128, UInt8.ofNat m ||| 0x80 = UInt8.ofNat (m + 128) := by decide +kernel
  exact all n small

theorem low_byte (ch : UInt8) : (ch &&& 0x7F).toNat = ch.toNat % 128 := by
  exact Nat.and_two_pow_sub_one_eq_mod ch.toNat 7

theorem marked_byte (ch : UInt8) : ch &&& 0x80 ≠ 0 ↔ 128 ≤ ch.toNat := by
  have all : ∀ n < 256, UInt8.ofNat n &&& 0x80 ≠ 0 ↔ 128 ≤ n := by decide +kernel
  have here := all ch.toNat ch.toNat_lt
  rwa [UInt8.ofNat_toNat] at here

end Bytes

theorem digit_byte (n : I.Word) : UInt8.ofNat (n &&& 0x7F).toNat ||| 0x80 =
    UInt8.ofNat (n.toNat % 128 + 128) := by
  rw [low_toNat, marked_ofNat (Nat.mod_lt _ (by decide))]

theorem reverse_digits_more (len : Nat) (n : I.Word) :
    (digits (len + 1) n).reverse = moreDigits n.toNat := by
  induction size : n.toNat using Nat.strongRecOn generalizing len n with
  | ind m ih =>
    subst size
    unfold digits moreDigits
    rw [if_neg (Nat.succ_ne_zero len), digit_byte]
    by_cases short : n.toNat ≤ 127
    · rw [if_pos ((short_iff n).mpr short), if_pos short]
      rfl
    · rw [if_neg (mt (short_iff n).mp short), if_neg short, List.reverse_cons,
        ih _ (by omega) (len + 1) _ (next_toNat short)]

theorem writeVarInt_eq (n : I.Word) : writeVarInt n = VarInts.writeVarInt n.toNat := by
  unfold writeVarInt digits VarInts.writeVarInt
  rw [if_pos rfl, UInt8.or_zero, low_toNat,
    show ((n.toNat : Int) % 128).toNat = n.toNat % 128 by omega]
  by_cases short : n.toNat ≤ 127
  · rw [if_pos ((short_iff n).mpr short), if_pos (by omega)]
    rfl
  · rw [if_neg (mt (short_iff n).mp short), if_neg (by omega), List.reverse_cons,
      reverse_digits_more, next_toNat short,
      show ((n.toNat : Int) / 128 - 1).toNat = n.toNat / 128 - 1 by omega]

theorem shifted_in (n : I.Word) (ch : UInt8) :
    ((n <<< 7) ||| BitVec.ofNat I.bits (ch &&& 0x7F).toNat).toNat =
      (n.toNat * 128 + ch.toNat % 128) % 2 ^ I.bits := by
  have wide := I.bits_wide
  have room : 2 ^ 8 ≤ 2 ^ I.bits := Nat.pow_le_pow_right (by decide) wide
  have digit : ch.toNat % 128 < 2 ^ 7 := Nat.mod_lt _ (by decide)
  have split : 2 ^ I.bits = 2 ^ 7 * 2 ^ (I.bits - 7) := by
    rw [← Nat.pow_add]
    congr 1
    omega
  rw [BitVec.toNat_or, BitVec.toNat_shiftLeft, BitVec.toNat_ofNat, low_byte,
    Nat.mod_eq_of_lt (show ch.toNat % 128 < 2 ^ I.bits by omega), Nat.shiftLeft_eq]
  -- the shifted word is a multiple of 128, with or without its high bits
  rw [split, Nat.mul_comm n.toNat, Nat.mul_mod_mul_left, ← Nat.two_pow_add_eq_or_of_lt digit]
  rw [Nat.mod_mul, Nat.mul_add_mod, Nat.mul_add_div (by decide), Nat.mod_eq_of_lt digit,
    Nat.div_eq_of_lt digit, Nat.add_zero, Nat.add_comm]

theorem readInto_eq (n : I.Word) (is : Bytes) : readInto n is =
    (readDigits I.bits n.toNat is).map fun (m, rest) => (BitVec.ofNat I.bits m, rest) := by
  induction is generalizing n with
  | nil => rfl
  | cons ch later ih =>
    have one : (1 : I.Word).toNat = 1 := by cases I <;> rfl
    unfold readInto readDigits
    dsimp only
    rw [← shifted_in]
    by_cases marked : 128 ≤ ch.toNat
    · rw [if_pos ((marked_byte ch).mpr marked), if_pos marked, ih, BitVec.toNat_add, one]
    · rw [if_neg (mt (marked_byte ch).mp marked), if_neg marked, Option.map_some,
        BitVec.ofNat_toNat, BitVec.setWidth_eq]

theorem readVarInt_eq (I : Unsigned) (is : Bytes) : readVarInt I is =
    (VarInts.readVarInt I.bits is).map fun (m, rest) => (BitVec.ofNat I.bits m, rest) := by
  unfold readVarInt VarInts.readVarInt
  rw [readInto_eq]
  rfl

theorem readVarInt_writeVarInt (n : I.Word) (rest : Bytes) :
    readVarInt I (writeVarInt n ++ rest) = some (n, rest) := by
  rw [readVarInt_eq, writeVarInt_eq, VarInts.readVarInt_writeVarInt n.isLt, Option.map_some]
  dsimp only
  rw [BitVec.ofNat_toNat, BitVec.setWidth_eq]

theorem writeVarInt_prefix_free {m n : I.Word} (begins : writeVarInt m <+: writeVarInt n) :
    m = n := by
  rw [writeVarInt_eq, writeVarInt_eq] at begins
  have first := codeValue_writeVarInt m.toNat
  have second := codeValue_writeVarInt n.toNat
  have same := first.1.prefix_free second.1 begins
  apply BitVec.eq_of_toNat_eq
  rw [← first.2, same, second.2]

theorem rewritten_iff {consumed rest : Bytes} {n : I.Word}
    (read : readVarInt I (consumed ++ rest) = some (n, rest)) :
    writeVarInt n = consumed ↔ codeValue consumed < 2 ^ I.bits := by
  rw [readVarInt_eq, VarInts.readVarInt, Option.map_eq_some_iff] at read
  obtain ⟨⟨m, after⟩, digits', same⟩ := read
  simp only [Prod.mk.injEq] at same
  obtain ⟨word, rfl⟩ := same
  obtain ⟨code, isCode, split⟩ := readDigits_some digits'
  have whole : consumed = code := List.append_cancel_right split
  subst whole
  rw [isCode.readDigits_eq, Nat.zero_mul, Nat.zero_add, Option.some.injEq, Prod.mk.injEq] at digits'
  have value : n.toNat = codeValue consumed % 2 ^ I.bits := by
    rw [← word, ← digits'.1, BitVec.toNat_ofNat, Nat.mod_mod]
  rw [writeVarInt_eq, value]
  constructor
  · intro written
    have counted := (codeValue_writeVarInt (codeValue consumed % 2 ^ I.bits)).2
    rw [written] at counted
    rw [counted]
    exact Nat.mod_lt _ (Nat.two_pow_pos _)
  · intro fits
    rw [Nat.mod_eq_of_lt fits]
    exact isCode.writeVarInt_codeValue

/-- Numbers come back and no encoding begins another; digits that are accepted are the
    encoding of what they are read as exactly if their number fits the type. -/
theorem one_to_one_iff (I : Unsigned) :
    (∀ (n : I.Word) (rest : Bytes), readVarInt I (writeVarInt n ++ rest) = some (n, rest)) ∧
    (∀ m n : I.Word, writeVarInt m <+: writeVarInt n → m = n) ∧
    ∀ (consumed rest : Bytes) (n : I.Word), readVarInt I (consumed ++ rest) = some (n, rest) →
      (writeVarInt n = consumed ↔ codeValue consumed < 2 ^ I.bits) :=
  ⟨readVarInt_writeVarInt, fun _ _ begins => writeVarInt_prefix_free begins,
    fun _ _ _ read => rewritten_iff read⟩

def fiveDigits : Bytes := [0x8E, 0xFE, 0xFE, 0xFF, 0x00]

theorem fiveDigits_overflow :
    readVarInt .uint32_t fiveDigits = some (0, []) ∧
      writeVarInt (0 : Unsigned.uint32_t.Word) ≠ fiveDigits := by
  refine ⟨by decide, ?_⟩
  rw [writeVarInt_eq]
  decide

theorem fiveDigits_long :
    writeVarInt (0x100000000 : Unsigned.uint64_t.Word) = fiveDigits ↔
      codeValue fiveDigits < 2 ^ Unsigned.uint64_t.bits :=
  (one_to_one_iff .uint64_t).2.2 fiveDigits [] 0x100000000 (by decide)

end OxidVarInt
