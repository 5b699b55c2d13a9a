import Mathlib.Tactic.Ring
import Oxid.Script

/-!
Numbers on the script stack. They are 64-bit; operands come from at most four
bytes. An operation whose result leaves the range, and an assertion that fails,
end the evaluation with a fault, which the source leaves undefined or aborts on.
-/
namespace OxidScriptNum
open OxidPrimitives OxidScript

def minInt64 : Int := -9223372036854775808
def maxInt32 : Int := 2147483647
def minInt32 : Int := -2147483648

inductive ScriptError where
  | UNKNOWN_ERROR
  | EVAL_FALSE
  | OP_RETURN
  | SCRIPT_SIZE
  | PUSH_SIZE
  | OP_COUNT
  | STACK_SIZE
  | SIG_COUNT
  | PUBKEY_COUNT
  | VERIFY
  | EQUALVERIFY
  | CHECKMULTISIGVERIFY
  | CHECKSIGVERIFY
  | NUMEQUALVERIFY
  | BAD_OPCODE
  | DISABLED_OPCODE
  | INVALID_STACK_OPERATION
  | INVALID_ALTSTACK_OPERATION
  | UNBALANCED_CONDITIONAL
  | SIG_HASHTYPE
  | SIG_DER
  | MINIMALDATA
  | SIG_PUSHONLY
  | SIG_HIGH_S
  | SIG_NULLDUMMY
  | PUBKEYTYPE
  | DISCOURAGE_UPGRADABLE_NOPS
deriving DecidableEq, Repr

inductive Fault where
  | stackRange
  | assertion
  | overflow
deriving DecidableEq, Repr

/-- Why an evaluation ends early: an error it returns, a `scriptnum_error` it throws,
    or a fault. -/
inductive Stop where
  | error (serror : ScriptError)
  | numberError
  | fault (fault : Fault)
deriving DecidableEq, Repr

def Stop.isFault : Stop → Bool
  | .fault _ => true
  | _ => false

structure CScriptNum where
  m_value : Int
  inRange : minInt64 ≤ m_value ∧ m_value ≤ maxInt64

/-- A result as an `int64_t`. -/
def int64 (value : Int) : Except Stop CScriptNum :=
  if fits : minInt64 ≤ value ∧ value ≤ maxInt64 then .ok ⟨value, fits⟩
  else .error (.fault .overflow)

def bnZero : CScriptNum := ⟨0, by decide⟩
def bnOne : CScriptNum := ⟨1, by decide⟩

def ofBool (holds : Bool) : CScriptNum := if holds then bnOne else bnZero

def nMaxNumSize : Nat := 4

def signBit (byte : UInt8) : Bool := byte &&& 0x80 != 0

def setVch (vch : List UInt8) : Int :=
  match vch.getLast? with
  | none => 0
  | some back =>
    if signBit back then
      -((fromLittleEndian vch - 0x80 * 256 ^ (vch.length - 1) : Nat) : Int)
    else fromLittleEndian vch

def isMinimal (vch : List UInt8) : Bool :=
  match vch.reverse with
  | [] => true
  | back :: before =>
    if back &&& 0x7f == 0 then
      match before with
      | [] => false
      | second :: _ => signBit second
    else true

def ofVch (vch : List UInt8) (fRequireMinimal : Bool) : Except Stop CScriptNum :=
  if nMaxNumSize < vch.length then .error .numberError
  else if fRequireMinimal && !isMinimal vch then .error .numberError
  else int64 (setVch vch)

def add (left right : CScriptNum) : Except Stop CScriptNum := int64 (left.m_value + right.m_value)

def sub (left right : CScriptNum) : Except Stop CScriptNum := int64 (left.m_value - right.m_value)

def assertion (holds : Bool) : Except Stop Unit :=
  if holds then .ok () else .error (.fault .assertion)

/-- `operator+=`. -/
def addAssign (left right : CScriptNum) : Except Stop CScriptNum := do
  assertion (right.m_value == 0 ||
    right.m_value > 0 && left.m_value ≤ maxInt64 - right.m_value ||
    right.m_value < 0 && left.m_value ≥ minInt64 - right.m_value)
  int64 (left.m_value + right.m_value)

/-- `operator-=`. -/
def subAssign (left right : CScriptNum) : Except Stop CScriptNum := do
  assertion (right.m_value == 0 ||
    right.m_value > 0 && left.m_value ≥ minInt64 + right.m_value ||
    right.m_value < 0 && left.m_value ≤ maxInt64 + right.m_value)
  int64 (left.m_value - right.m_value)

def negate (bn : CScriptNum) : Except Stop CScriptNum := do
  assertion (bn.m_value != minInt64)
  int64 (-bn.m_value)

def getint (bn : CScriptNum) : Int :=
  if bn.m_value > maxInt32 then maxInt32
  else if bn.m_value < minInt32 then minInt32
  else bn.m_value

def magnitude (absvalue : Nat) : List UInt8 :=
  if absvalue = 0 then [] else UInt8.ofNat absvalue :: magnitude (absvalue / 256)
termination_by absvalue
decreasing_by omega

def withSign (neg : Bool) (result : List UInt8) : List UInt8 :=
  match result.getLast? with
  | none => []
  | some back =>
    if signBit back then result ++ [if neg then 0x80 else 0]
    else if neg then result.dropLast ++ [back ||| 0x80]
    else result

/-- `serialize`. Its `-value` has no result for the least number. -/
def getvch (bn : CScriptNum) : Except Stop (List UInt8) :=
  if bn.m_value = 0 then .ok []
  else if bn.m_value = minInt64 then .error (.fault .overflow)
  else .ok (withSign (bn.m_value < 0) (magnitude bn.m_value.natAbs))

theorem int64_ok (value : Int) (least : minInt64 ≤ value) (most : value ≤ maxInt64) :
    int64 value = .ok ⟨value, ⟨least, most⟩⟩ := by
  unfold int64
  rw [dif_pos ⟨least, most⟩]

theorem every_byte {fact : UInt8 → Prop} (all : ∀ n : Fin 256, fact (UInt8.ofNat n))
    (byte : UInt8) : fact byte := by
  have here := all ⟨byte.toNat, byte.toNat_lt⟩
  rw [UInt8.ofNat_toNat] at here
  exact here

theorem signBit_iff (byte : UInt8) : signBit byte = true ↔ 128 ≤ byte.toNat := by
  induction byte using every_byte with
  | all n =>
    revert n
    decide +kernel

theorem fromLittleEndian_concat (low : List UInt8) (back : UInt8) :
    fromLittleEndian (low ++ [back]) = fromLittleEndian low + 256 ^ low.length * back.toNat := by
  induction low with
  | nil => simp [fromLittleEndian]
  | cons byte rest ih =>
    simp only [List.cons_append, fromLittleEndian, ih, List.length_cons, Nat.pow_succ]
    ring

theorem setVch_bounds (vch : List UInt8) (size : vch.length ≤ nMaxNumSize) :
    minInt32 < setVch vch ∧ setVch vch ≤ maxInt32 := by
  have least : minInt32 = -2147483648 := rfl
  have most : maxInt32 = 2147483647 := rfl
  unfold setVch
  rcases List.eq_nil_or_concat vch with rfl | ⟨low, back, rfl⟩
  · simp only [List.getLast?_nil]
    omega
  · rw [List.concat_eq_append] at size ⊢
    have short : low.length ≤ 3 := by
      have limit : nMaxNumSize = 4 := rfl
      simp only [List.length_append, List.length_singleton] at size
      omega
    have lowBound := fromLittleEndian_lt low
    have power : 256 ^ low.length ≤ 256 ^ 3 := Nat.pow_le_pow_right (by decide) short
    have byteBound : back.toNat < 256 := back.toNat_lt
    have place : (low ++ [back]).length - 1 = low.length := by simp
    simp only [List.getLast?_append, List.getLast?_singleton, Option.some_or, place]
    rw [fromLittleEndian_concat]
    have sign := signBit_iff back
    split
    · rename_i negative
      have high : 128 ≤ back.toNat := sign.mp negative
      have rest : 256 ^ low.length * back.toNat =
          0x80 * 256 ^ low.length + 256 ^ low.length * (back.toNat - 128) := by
        obtain ⟨extra, whole⟩ := Nat.exists_eq_add_of_le high
        rw [whole, Nat.add_sub_cancel_left]
        ring
      have small : 256 ^ low.length * (back.toNat - 128) ≤ 256 ^ low.length * 127 :=
        Nat.mul_le_mul_left _ (by omega)
      omega
    · rename_i positive
      have high : ¬ 128 ≤ back.toNat := fun high => positive (sign.mpr high)
      have small : 256 ^ low.length * back.toNat ≤ 256 ^ low.length * 127 :=
        Nat.mul_le_mul_left _ (by omega)
      omega

def Operand (bn : CScriptNum) : Prop := minInt32 < bn.m_value ∧ bn.m_value ≤ maxInt32

def Moderate (bn : CScriptNum) : Prop := -4294967296 ≤ bn.m_value ∧ bn.m_value ≤ 4294967296

variable {bn : CScriptNum}

theorem Operand.moderate (operand : Operand bn) : Moderate bn := by
  have least : minInt32 = -2147483648 := rfl
  have most : maxInt32 = 2147483647 := rfl
  unfold Operand at operand
  unfold Moderate
  omega

theorem ofVch_cases (vch : List UInt8) (fRequireMinimal : Bool) :
    ofVch vch fRequireMinimal = .error .numberError ∨
      ∃ bn, ofVch vch fRequireMinimal = .ok bn ∧ bn.m_value = setVch vch ∧ Operand bn := by
  unfold ofVch
  split
  · exact Or.inl rfl
  · rename_i size
    split
    · exact Or.inl rfl
    · have bounds := setVch_bounds vch (by omega)
      have lower : minInt64 ≤ setVch vch := by
        have least : minInt64 = -9223372036854775808 := rfl
        have inner : minInt32 = -2147483648 := rfl
        omega
      have upper : setVch vch ≤ maxInt64 := by
        have most : maxInt64 = 9223372036854775807 := rfl
        have inner : maxInt32 = 2147483647 := rfl
        omega
      exact Or.inr ⟨_, int64_ok _ lower upper, rfl, bounds⟩

theorem getint_operand (operand : Operand bn) : getint bn = bn.m_value := by
  unfold Operand at operand
  unfold getint
  rw [if_neg (by omega), if_neg (by omega)]

theorem int64_moderate (value : Int) (least : -4294967296 ≤ value) (most : value ≤ 4294967296) :
    ∃ bn, int64 value = .ok bn ∧ bn.m_value = value ∧ Moderate bn := by
  have lower : minInt64 ≤ value := by
    have limit : minInt64 = -9223372036854775808 := rfl
    omega
  have upper : value ≤ maxInt64 := by
    have limit : maxInt64 = 9223372036854775807 := rfl
    omega
  exact ⟨_, int64_ok value lower upper, rfl, ⟨least, most⟩⟩

section Operations

variable {left right : CScriptNum}

theorem add_operands (first : Operand left) (second : Operand right) :
    ∃ bn, add left right = .ok bn ∧ Moderate bn := by
  have least : minInt32 = -2147483648 := rfl
  have most : maxInt32 = 2147483647 := rfl
  unfold Operand at first second
  obtain ⟨bn, done, _, moderate⟩ :=
    int64_moderate (left.m_value + right.m_value) (by omega) (by omega)
  exact ⟨bn, done, moderate⟩

theorem sub_operands (first : Operand left) (second : Operand right) :
    ∃ bn, sub left right = .ok bn ∧ Moderate bn := by
  have least : minInt32 = -2147483648 := rfl
  have most : maxInt32 = 2147483647 := rfl
  unfold Operand at first second
  obtain ⟨bn, done, _, moderate⟩ :=
    int64_moderate (left.m_value - right.m_value) (by omega) (by omega)
  exact ⟨bn, done, moderate⟩

theorem assertion_holds {holds : Bool} (met : holds = true) : assertion holds = .ok () := by
  rw [met]
  rfl

theorem addAssign_one (first : Operand left) :
    ∃ bn, addAssign left bnOne = .ok bn ∧ Moderate bn := by
  have least : minInt32 = -2147483648 := rfl
  have most : maxInt32 = 2147483647 := rfl
  have limit : maxInt64 = 9223372036854775807 := rfl
  have one : bnOne.m_value = 1 := rfl
  unfold Operand at first
  obtain ⟨bn, done, _, moderate⟩ :=
    int64_moderate (left.m_value + bnOne.m_value) (by omega) (by omega)
  refine ⟨bn, ?_, moderate⟩
  unfold addAssign
  rw [assertion_holds (by simp only [one]; simp; omega)]
  exact done

theorem subAssign_one (first : Operand left) :
    ∃ bn, subAssign left bnOne = .ok bn ∧ Moderate bn := by
  have least : minInt32 = -2147483648 := rfl
  have most : maxInt32 = 2147483647 := rfl
  have limit : minInt64 = -9223372036854775808 := rfl
  have one : bnOne.m_value = 1 := rfl
  unfold Operand at first
  obtain ⟨bn, done, _, moderate⟩ :=
    int64_moderate (left.m_value - bnOne.m_value) (by omega) (by omega)
  refine ⟨bn, ?_, moderate⟩
  unfold subAssign
  rw [assertion_holds (by simp only [one]; simp; omega)]
  exact done

theorem negate_operand (first : Operand left) : ∃ bn, negate left = .ok bn ∧ Moderate bn := by
  have least : minInt32 = -2147483648 := rfl
  have most : maxInt32 = 2147483647 := rfl
  have limit : minInt64 = -9223372036854775808 := rfl
  unfold Operand at first
  obtain ⟨bn, done, _, moderate⟩ := int64_moderate (-left.m_value) (by omega) (by omega)
  refine ⟨bn, ?_, moderate⟩
  unfold negate
  rw [assertion_holds (by simp; omega)]
  exact done

theorem ofBool_moderate (holds : Bool) : Moderate (ofBool holds) := by
  cases holds with
  | false => exact ⟨by decide, by decide⟩
  | true => exact ⟨by decide, by decide⟩

end Operations

theorem magnitude_length (width absvalue : Nat) (fits : absvalue < 256 ^ width) :
    (magnitude absvalue).length ≤ width := by
  induction width generalizing absvalue with
  | zero =>
    have zero : absvalue = 0 := by simpa using fits
    rw [zero, magnitude]
    simp
  | succ width ih =>
    rw [magnitude]
    split
    · exact Nat.zero_le _
    · have less : absvalue / 256 < 256 ^ width := by
        omega
      have shorter := ih _ less
      rw [List.length_cons]
      omega

theorem withSign_length (neg : Bool) (result : List UInt8) :
    (withSign neg result).length ≤ result.length + 1 := by
  unfold withSign
  rcases List.eq_nil_or_concat result with rfl | ⟨low, back, rfl⟩
  · simp
  · rw [List.concat_eq_append]
    simp only [List.getLast?_append, List.getLast?_singleton, Option.some_or]
    split_ifs <;> simp

theorem getvch_moderate (moderate : Moderate bn) :
    ∃ vch, getvch bn = .ok vch ∧ vch.length ≤ 6 := by
  unfold getvch
  split
  · exact ⟨[], rfl, by simp⟩
  · unfold Moderate at moderate
    have limit : minInt64 = -9223372036854775808 := rfl
    rw [if_neg (by omega)]
    have size := magnitude_length 5 bn.m_value.natAbs (by omega)
    have signed := withSign_length (decide (bn.m_value < 0)) (magnitude bn.m_value.natAbs)
    exact ⟨_, rfl, by omega⟩

/-- The number an `OP_1NEGATE` or `OP_N` pushes. -/
def ofSmallOpcode (opcode : Opcode) : Except Stop CScriptNum :=
  int64 ((opcode.toNat : Int) - ((OP_1.toNat : Int) - 1))

theorem ofSmallOpcode_moderate (opcode : Opcode) :
    ∃ bn, ofSmallOpcode opcode = .ok bn ∧ Moderate bn := by
  have byte : opcode.toNat < 256 := opcode.toNat_lt
  have first : OP_1.toNat = 0x51 := rfl
  obtain ⟨bn, done, _, moderate⟩ :=
    int64_moderate ((opcode.toNat : Int) - ((OP_1.toNat : Int) - 1)) (by omega) (by omega)
  exact ⟨bn, done, moderate⟩

theorem ofSmallOpcode_pushed (opcode : Opcode) (small : isSmallNumber opcode = true) :
    (ofSmallOpcode opcode >>= getvch) = .ok [UInt8.ofNat (decodeOpN opcode)] ∧
      isMinimal [UInt8.ofNat (decodeOpN opcode)] = true ∧
      setVch [UInt8.ofNat (decodeOpN opcode)] = decodeOpN opcode := by
  induction opcode using every_byte with
  | all n =>
    revert n
    decide +kernel

section Encodings

def Filled (result : List UInt8) : Prop := ∃ low back, result = low ++ [back] ∧ back ≠ 0

theorem fromLittleEndian_magnitude (absvalue : Nat) :
    fromLittleEndian (magnitude absvalue) = absvalue := by
  induction absvalue using Nat.strong_induction_on with
  | _ absvalue ih =>
    rw [magnitude]
    split
    · simp [fromLittleEndian, *]
    · simp [fromLittleEndian, ih (absvalue / 256) (by omega)]
      omega

theorem magnitude_filled {absvalue : Nat} (positive : absvalue ≠ 0) : Filled (magnitude absvalue) := by
  induction absvalue using Nat.strong_induction_on with
  | _ absvalue ih =>
    rw [magnitude, if_neg positive]
    by_cases last : absvalue / 256 = 0
    · rw [last, magnitude, if_pos rfl]
      refine ⟨[], _, rfl, ?_⟩
      intro zero
      have value := congrArg UInt8.toNat zero
      simp at value
      omega
    · obtain ⟨low, back, same, filled⟩ := ih _ (by omega) last
      exact ⟨UInt8.ofNat absvalue :: low, back, by rw [same]; rfl, filled⟩

variable {result : List UInt8} {bn : CScriptNum} {vch : List UInt8}

theorem magnitude_fromLittleEndian (filled : Filled result) :
    magnitude (fromLittleEndian result) = result ∧ fromLittleEndian result ≠ 0 := by
  obtain ⟨low, back, rfl, nonzero⟩ := filled
  induction low with
  | nil =>
    have value : back.toNat ≠ 0 := fun zero => nonzero (UInt8.toNat_inj.mp zero)
    have small : back.toNat / 256 = 0 := by
      have byte := back.toNat_lt
      omega
    have alone : fromLittleEndian ([] ++ [back]) = back.toNat := by simp [fromLittleEndian]
    rw [alone, magnitude, if_neg value, small, magnitude, if_pos rfl]
    simp [value]
  | cons byte low ih =>
    obtain ⟨same, positive⟩ := ih
    have small := byte.toNat_lt
    have front : UInt8.ofNat (byte.toNat + 256 * fromLittleEndian (low ++ [back])) = byte := by
      apply UInt8.toNat_inj.mp
      rw [UInt8.toNat_ofNat']
      omega
    have later : (byte.toNat + 256 * fromLittleEndian (low ++ [back])) / 256 =
        fromLittleEndian (low ++ [back]) := by omega
    rw [List.cons_append, fromLittleEndian, magnitude, if_neg (by omega), front, later, same]
    exact ⟨rfl, by omega⟩

theorem setVch_concat (low : List UInt8) (back : UInt8) : setVch (low ++ [back]) =
    if signBit back then
      -((fromLittleEndian low + 256 ^ low.length * (back.toNat - 128) : Nat) : Int)
    else (fromLittleEndian low + 256 ^ low.length * back.toNat : Nat) := by
  unfold setVch
  simp only [List.getLast?_concat, fromLittleEndian_concat, List.length_append,
    List.length_singleton, Nat.add_sub_cancel]
  split
  · rename_i negative
    obtain ⟨extra, whole⟩ := Nat.exists_eq_add_of_le ((signBit_iff back).mp negative)
    have rest : fromLittleEndian low + 256 ^ low.length * back.toNat - 0x80 * 256 ^ low.length =
        fromLittleEndian low + 256 ^ low.length * (back.toNat - 128) := by
      rw [whole, Nat.add_sub_cancel_left, Nat.mul_add, Nat.mul_comm 0x80]
      omega
    rw [rest]
  · rfl

theorem signed_byte : ∀ back : UInt8, signBit (back ||| 0x80) = true ∧
    (signBit back = false → (back ||| 0x80).toNat - 128 = back.toNat) := by
  intro back
  induction back using every_byte with
  | all n =>
    revert n
    decide +kernel

theorem setVch_withSign (filled : Filled result) (neg : Bool) :
    setVch (withSign neg result) =
      if neg then -(fromLittleEndian result : Int) else fromLittleEndian result := by
  obtain ⟨low, back, rfl, nonzero⟩ := filled
  unfold withSign
  by_cases high : signBit back = true
  · have set : signBit 0x80 = true := by decide
    have clear : signBit 0 = false := by decide
    cases neg <;> simp [high, setVch_concat, set, clear, -List.append_assoc]
  · have clear : signBit back = false := by simpa using high
    obtain ⟨signed, lower⟩ := signed_byte back
    cases neg <;>
      simp [clear, setVch_concat, fromLittleEndian_concat, signed, lower clear, -UInt8.toNat_or]

theorem masked_byte : ∀ back : UInt8, (back &&& 0x7f = 0 ↔ back = 0 ∨ back = 0x80) ∧
    ((back ||| 0x80) &&& 0x7f = back &&& 0x7f) ∧
    (signBit back = true → (back &&& 0x7f) ||| 0x80 = back ∧ signBit (back &&& 0x7f) = false) ∧
    (signBit back = false → back &&& 0x7f = back) := by
  intro back
  induction back using every_byte with
  | all n =>
    revert n
    decide +kernel

theorem isMinimal_iff (vch : List UInt8) : isMinimal vch = true ↔
    vch = [] ∨ ∃ neg result, Filled result ∧ vch = withSign neg result := by
  constructor
  · intro minimal
    rcases List.eq_nil_or_concat vch with rfl | ⟨low, back, rfl⟩
    · exact .inl rfl
    · right
      rw [List.concat_eq_append] at minimal ⊢
      obtain ⟨zeros, _, negative, positive⟩ := masked_byte back
      simp only [isMinimal, List.reverse_append, List.reverse_singleton, List.singleton_append,
        beq_iff_eq] at minimal
      split at minimal
      · rename_i masked
        rcases List.eq_nil_or_concat low with rfl | ⟨before, second, rfl⟩
        · simp at minimal
        · rw [List.concat_eq_append] at minimal ⊢
          have high : signBit second = true := by simpa using minimal
          have filled : second ≠ 0 := by
            rintro rfl
            exact absurd high (by decide)
          refine ⟨decide (back = 0x80), before ++ [second], ⟨before, second, rfl, filled⟩, ?_⟩
          unfold withSign
          rcases zeros.mp masked with rfl | rfl <;> simp [high]
      · rename_i masked
        refine ⟨signBit back, low ++ [back &&& 0x7f], ⟨low, _, rfl, masked⟩, ?_⟩
        unfold withSign
        cases sign : signBit back with
        | true => simp [negative sign]
        | false => simp [positive sign, sign]
  · rintro (rfl | ⟨neg, result, ⟨low, back, rfl, nonzero⟩, rfl⟩)
    · rfl
    · obtain ⟨zeros, signed, _, positive⟩ := masked_byte back
      unfold withSign
      by_cases high : signBit back = true
      · cases neg <;> simp [high, isMinimal]
      · have plain := positive (by simpa using high)
        cases neg <;> simp [high, isMinimal, signed, plain, nonzero]

theorem getvch_withSign (other : bn.m_value ≠ minInt64) (filled : bn.m_value ≠ 0) :
    getvch bn = .ok (withSign (bn.m_value < 0) (magnitude bn.m_value.natAbs)) := by
  simp [getvch, filled, other]

theorem setVch_getvch (bn : CScriptNum) (other : bn.m_value ≠ minInt64) :
    ∃ vch, getvch bn = .ok vch ∧ isMinimal vch = true ∧ setVch vch = bn.m_value := by
  by_cases zero : bn.m_value = 0
  · exact ⟨[], by simp [getvch, zero], rfl, by simp [setVch, zero]⟩
  · have filled := @magnitude_filled bn.m_value.natAbs (by omega)
    refine ⟨_, getvch_withSign other zero, (isMinimal_iff _).mpr (.inr ⟨_, _, filled, rfl⟩), ?_⟩
    rw [setVch_withSign filled, fromLittleEndian_magnitude]
    by_cases negative : bn.m_value < 0
    · simp only [negative, decide_true, if_true]
      omega
    · simp only [negative, decide_false]
      simp
      omega

theorem getvch_setVch (minimal : isMinimal vch = true) (other : bn.m_value ≠ minInt64)
    (value : setVch vch = bn.m_value) : getvch bn = .ok vch := by
  rcases (isMinimal_iff vch).mp minimal with rfl | ⟨neg, result, filled, rfl⟩
  · have zero : bn.m_value = 0 := value.symm
    simp [getvch, zero]
  · obtain ⟨same, positive⟩ := magnitude_fromLittleEndian filled
    rw [setVch_withSign filled] at value
    cases neg with
    | true =>
      simp only [if_true] at value
      have size : bn.m_value.natAbs = fromLittleEndian result := by omega
      rw [getvch_withSign other (by omega), size, same]
      simp [show bn.m_value < 0 by omega]
    | false =>
      simp only [Bool.false_eq_true, if_false] at value
      have size : bn.m_value.natAbs = fromLittleEndian result := by omega
      rw [getvch_withSign other (by omega), size, same]
      simp [show ¬ bn.m_value < 0 by omega]

theorem withSign_fits (filled : Filled result) (neg : Bool) {width : Nat}
    (fits : fromLittleEndian result < 128 * 256 ^ width) :
    (withSign neg result).length ≤ width + 1 := by
  obtain ⟨low, back, rfl, nonzero⟩ := filled
  rw [fromLittleEndian_concat] at fits
  have positive : 1 ≤ back.toNat :=
    Nat.one_le_iff_ne_zero.mpr fun zero => nonzero (UInt8.toNat_inj.mp zero)
  unfold withSign
  rw [List.getLast?_concat]
  by_cases high : signBit back = true
  · have shorter : low.length < width := by
      apply (Nat.pow_lt_pow_iff_right (show 1 < 256 by decide)).mp
      have scaled := Nat.mul_le_mul_left (256 ^ low.length) ((signBit_iff back).mp high)
      omega
    simp [high]
    omega
  · have shorter : low.length < width + 1 := by
      apply (Nat.pow_lt_pow_iff_right (show 1 < 256 by decide)).mp
      have scaled := Nat.mul_le_mul_left (256 ^ low.length) positive
      omega
    simp only [high, Bool.false_eq_true, if_false]
    split <;> simp <;> omega

theorem getvch_length {width : Nat} (fits : bn.m_value.natAbs < 128 * 256 ^ width)
    (written : getvch bn = .ok vch) :
    vch.length ≤ width + 1 := by
  by_cases zero : bn.m_value = 0
  · have none' : vch = [] := by simpa [getvch, zero, eq_comm] using written
    simp [none']
  · by_cases least : bn.m_value = minInt64
    · have nonzero : minInt64 ≠ 0 := by decide
      simp [getvch, least, nonzero] at written
    · rw [getvch_withSign least zero] at written
      cases written
      refine withSign_fits (magnitude_filled (by omega)) _ ?_
      rwa [fromLittleEndian_magnitude]

theorem ofVch_minimal_iff (vch : List UInt8) (bn : CScriptNum) :
    ofVch vch true = .ok bn ↔ bn.m_value.natAbs < 2 ^ 31 ∧ getvch bn = .ok vch := by
  have least : minInt32 = -2147483648 := rfl
  have most : maxInt32 = 2147483647 := rfl
  have bottom : minInt64 = -9223372036854775808 := rfl
  constructor
  · intro accepted
    have operand : setVch vch = bn.m_value ∧ isMinimal vch = true ∧ Operand bn := by
      rcases ofVch_cases vch true with refused | ⟨other, done, value, bounds⟩
      · simp [refused] at accepted
      · have same : bn = other := by simpa [done, eq_comm] using accepted
        refine ⟨same ▸ value.symm, ?_, same ▸ bounds⟩
        by_contra padded
        have padding : isMinimal vch = false := by simpa using padded
        unfold ofVch at accepted
        split at accepted <;> simp [padding] at accepted
    obtain ⟨value, minimal, bounds⟩ := operand
    unfold Operand at bounds
    exact ⟨by omega, getvch_setVch minimal (by omega) value⟩
  · rintro ⟨small, written⟩
    obtain ⟨vch', other, minimal, value⟩ := setVch_getvch bn (by omega)
    have same : vch' = vch := by simpa [other] using written
    subst same
    have short : ¬ nMaxNumSize < vch'.length := by
      have limit := @getvch_length _ _ 3 (by omega) written
      have size : nMaxNumSize = 4 := rfl
      omega
    simp [ofVch, short, minimal, value, int64, bn.inRange.1, bn.inRange.2]

/-- Numbers are read back as they are written; the minimal operands are the written numbers of
    less than 32 bits, one for each; and all of four bytes and less are such numbers. -/
theorem scriptNum_encodings :
    (∀ bn : CScriptNum, bn.m_value ≠ minInt64 →
      ∃ vch, getvch bn = .ok vch ∧ vch.length ≤ 8 ∧ setVch vch = bn.m_value) ∧
    (∀ (vch : List UInt8) (bn : CScriptNum),
      ofVch vch true = .ok bn ↔ bn.m_value.natAbs < 2 ^ 31 ∧ getvch bn = .ok vch) ∧
    (∀ n : Int, n.natAbs < 2 ^ 31 →
      ∃! vch, ∃ bn, ofVch vch true = .ok bn ∧ bn.m_value = n) ∧
    ∀ vch : List UInt8, vch.length ≤ 4 →
      ∃ bn, ofVch vch false = .ok bn ∧ bn.m_value.natAbs < 2 ^ 31 := by
  have least : minInt32 = -2147483648 := rfl
  have most : maxInt32 = 2147483647 := rfl
  have bottom : minInt64 = -9223372036854775808 := rfl
  have top : maxInt64 = 9223372036854775807 := rfl
  refine ⟨?_, ofVch_minimal_iff, ?_, ?_⟩
  · intro bn other
    obtain ⟨vch, written, _, value⟩ := setVch_getvch bn other
    have range := bn.inRange
    exact ⟨vch, written, @getvch_length _ _ 7 (by omega) written, value⟩
  · intro n small
    have range : minInt64 ≤ n ∧ n ≤ maxInt64 := by omega
    obtain ⟨vch, written, _, _⟩ := setVch_getvch ⟨n, range⟩ (by show n ≠ minInt64; omega)
    refine ⟨vch, ⟨⟨n, range⟩, (ofVch_minimal_iff _ _).mpr ⟨small, written⟩, rfl⟩, ?_⟩
    rintro other ⟨⟨_, _⟩, accepted, rfl⟩
    have same := ((ofVch_minimal_iff _ _).mp accepted).2
    simpa [written, eq_comm] using same
  · intro vch short
    obtain ⟨lower, upper⟩ := setVch_bounds vch short
    refine ⟨⟨setVch vch, by omega, by omega⟩, ?_, by show (setVch vch).natAbs < _; omega⟩
    have fits : ¬ nMaxNumSize < vch.length := by
      have size : nMaxNumSize = 4 := rfl
      omega
    simp [ofVch, fits, int64, show minInt64 ≤ setVch vch by omega,
      show setVch vch ≤ maxInt64 by omega]

theorem scriptNum_encodings_255 :
    ∃ vch, getvch ⟨-255, by decide⟩ = .ok vch ∧ vch.length ≤ 8 ∧ setVch vch = -255 :=
  scriptNum_encodings.1 ⟨-255, by decide⟩ (by decide)

end Encodings

end OxidScriptNum
