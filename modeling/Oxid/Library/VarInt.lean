import Mathlib.Data.List.Induction
import Mathlib.Tactic.Ring
import Oxid.Library.Serialize

/-!
Variable-length integers: base 128 digits, the most significant first, every one but the
last marked by its high bit and one less than its value. A number that is not above 127 is
one digit, a negative one too.
-/
namespace VarInts
open Serialize

/-- The digits of a number that another digit follows. -/
def moreDigits (n : Nat) : Bytes :=
  if n ≤ 0x7F then [UInt8.ofNat (n % 128 + 128)]
  else moreDigits (n / 128 - 1) ++ [UInt8.ofNat (n % 128 + 128)]
termination_by n

def writeVarInt (n : Int) : Bytes :=
  if n ≤ 0x7F then [UInt8.ofNat (n % 128).toNat]
  else moreDigits (n / 128 - 1).toNat ++ [UInt8.ofNat (n % 128).toNat]

def sizeOfVarInt (n : Int) : Nat :=
  if n ≤ 0x7F then 1 else sizeOfVarInt (n / 128 - 1) + 1
termination_by n.toNat

/-- The digits read so far, in a word of some bits. -/
def readDigits (bits : Nat) : Nat → Bytes → Option (Nat × Bytes)
  | _, [] => none
  | n, chData :: rest =>
    let n := (n * 128 + chData.toNat % 128) % 2 ^ bits
    if 128 ≤ chData.toNat then readDigits bits ((n + 1) % 2 ^ bits) rest else some (n, rest)

def readVarInt (bits : Nat) (stream : Bytes) : Option (Nat × Bytes) := readDigits bits 0 stream

theorem length_moreDigits (n : Nat) : (moreDigits n).length = sizeOfVarInt n := by
  induction n using Nat.strongRecOn with
  | ind n ih =>
    unfold moreDigits sizeOfVarInt
    by_cases short : n ≤ 0x7F
    · rw [if_pos short, if_pos (by omega)]
      rfl
    · rw [if_neg short, if_neg (by omega), List.length_append, ih _ (by omega),
        show ((n / 128 - 1 : Nat) : Int) = (n : Int) / 128 - 1 by omega]
      rfl

theorem length_writeVarInt (n : Int) : (writeVarInt n).length = sizeOfVarInt n := by
  unfold writeVarInt sizeOfVarInt
  split
  · rfl
  · rw [List.length_append, length_moreDigits, Int.toNat_of_nonneg (by omega)]
    rfl

theorem readDigits_more {bits n : Nat} (fits : n < 2 ^ bits) (rest : Bytes) :
    readDigits bits 0 (moreDigits n ++ rest) = readDigits bits ((n + 1) % 2 ^ bits) rest := by
  induction n using Nat.strongRecOn generalizing rest with
  | ind n ih =>
    have digit : (UInt8.ofNat (n % 128 + 128)).toNat = n % 128 + 128 := by
      rw [UInt8.toNat_ofNat']
      omega
    unfold moreDigits
    split
    · rename_i short
      rw [List.singleton_append, readDigits, digit, if_pos (by omega)]
      rw [show 0 * 128 + (n % 128 + 128) % 128 = n by omega, Nat.mod_eq_of_lt fits]
    · rename_i long
      rw [List.append_assoc, List.singleton_append, ih _ (by omega) (by omega), readDigits, digit,
        if_pos (by omega), Nat.mod_eq_of_lt (show n / 128 - 1 + 1 < 2 ^ bits by omega)]
      rw [show (n / 128 - 1 + 1) * 128 + (n % 128 + 128) % 128 = n by omega,
        Nat.mod_eq_of_lt fits]

theorem readVarInt_writeVarInt {bits n : Nat} (fits : n < 2 ^ bits) (rest : Bytes) :
    readVarInt bits (writeVarInt n ++ rest) = some (n, rest) := by
  have digit : (UInt8.ofNat ((n : Int) % 128).toNat).toNat = n % 128 := by
    rw [UInt8.toNat_ofNat']
    omega
  unfold readVarInt writeVarInt
  split
  · rename_i short
    rw [List.singleton_append, readDigits, digit, if_neg (by omega)]
    rw [show 0 * 128 + n % 128 % 128 = n by omega, Nat.mod_eq_of_lt fits]
  · rename_i long
    rw [List.append_assoc, List.singleton_append, readDigits_more (by omega), readDigits, digit,
      if_neg (by omega), show ((n : Int) / 128 - 1).toNat + 1 = n / 128 by omega,
      Nat.mod_eq_of_lt (show n / 128 < 2 ^ bits by omega)]
    rw [show n / 128 * 128 + n % 128 % 128 = n by omega, Nat.mod_eq_of_lt fits]

theorem readVarInt_negative {bits : Nat} {n : Int} (wide : 7 ≤ bits) (negative : n < 0)
    (rest : Bytes) : readVarInt bits (writeVarInt n ++ rest) = some ((n % 128).toNat, rest) := by
  have digit : (UInt8.ofNat (n % 128).toNat).toNat = (n % 128).toNat := by
    rw [UInt8.toNat_ofNat']
    omega
  have room : 2 ^ 7 ≤ 2 ^ bits := Nat.pow_le_pow_right (by omega) wide
  unfold readVarInt writeVarInt
  rw [if_pos (by omega), List.singleton_append, readDigits, digit, if_neg (by omega)]
  rw [show 0 * 128 + (n % 128).toNat % 128 = (n % 128).toNat by omega,
    Nat.mod_eq_of_lt (by omega)]

/-- The digits of one number: all but the last one are marked. -/
inductive IsCode : Bytes → Prop
  | last {ch : UInt8} (unmarked : ch.toNat < 128) : IsCode [ch]
  | more {ch : UInt8} {later : Bytes} (marked : 128 ≤ ch.toNat) (rest : IsCode later) :
      IsCode (ch :: later)

def codeValue : Bytes → Nat
  | [] => 0
  | [ch] => ch.toNat % 128
  | ch :: next :: later =>
    (ch.toNat % 128 + 1) * 128 ^ (later.length + 1) + codeValue (next :: later)

variable {code : Bytes} {later : Bytes}

theorem IsCode.ne_nil (isCode : IsCode code) : code ≠ [] := by
  cases isCode <;> exact List.cons_ne_nil _ _

theorem codeValue_more (ch : UInt8) (isCode : IsCode later) :
    codeValue (ch :: later) = (ch.toNat % 128 + 1) * 128 ^ later.length + codeValue later := by
  cases later with
  | nil => exact absurd rfl isCode.ne_nil
  | cons next later => rfl

theorem IsCode.prefix_free {code other : Bytes} (isCode : IsCode code) (isOther : IsCode other)
    (begins : code <+: other) : code = other := by
  induction isCode generalizing other with
  | last unmarked =>
    cases isOther with
    | last _ => rw [(List.cons_prefix_cons.mp begins).1]
    | more marked _ =>
      rw [(List.cons_prefix_cons.mp begins).1] at unmarked
      omega
  | more marked _ ih =>
    cases isOther with
    | last unmarked =>
      rw [(List.cons_prefix_cons.mp begins).1] at marked
      omega
    | more _ isLater =>
      obtain ⟨same, begins⟩ := List.cons_prefix_cons.mp begins
      rw [same, ih isLater begins]

theorem codeValue_moreDigits (n : Nat) (isCode : IsCode later) :
    IsCode (moreDigits n ++ later) ∧
      codeValue (moreDigits n ++ later) = (n + 1) * 128 ^ later.length + codeValue later := by
  induction n using Nat.strongRecOn generalizing later with
  | ind n ih =>
    have digit : (UInt8.ofNat (n % 128 + 128)).toNat = n % 128 + 128 := by
      rw [UInt8.toNat_ofNat']
      omega
    have longer : IsCode (UInt8.ofNat (n % 128 + 128) :: later) := .more (by omega) isCode
    have counts := codeValue_more (UInt8.ofNat (n % 128 + 128)) isCode
    rw [digit, show (n % 128 + 128) % 128 = n % 128 by omega] at counts
    unfold moreDigits
    split
    · rename_i short
      rw [List.singleton_append, counts]
      exact ⟨longer, by rw [Nat.mod_eq_of_lt (by omega)]⟩
    · rename_i long
      obtain ⟨isCode', value⟩ := ih (n / 128 - 1) (by omega) longer
      rw [List.append_assoc, List.singleton_append, value, counts, List.length_cons, Nat.pow_succ]
      refine ⟨isCode', ?_⟩
      calc (n / 128 - 1 + 1) * (128 ^ later.length * 128) +
              ((n % 128 + 1) * 128 ^ later.length + codeValue later)
          = ((n / 128 - 1 + 1) * 128 + (n % 128 + 1)) * 128 ^ later.length + codeValue later := by
            ring
        _ = (n + 1) * 128 ^ later.length + codeValue later := by
            rw [show (n / 128 - 1 + 1) * 128 + (n % 128 + 1) = n + 1 by omega]

theorem codeValue_writeVarInt (n : Nat) :
    IsCode (writeVarInt n) ∧ codeValue (writeVarInt n) = n := by
  have digit : (UInt8.ofNat ((n : Int) % 128).toNat).toNat = n % 128 := by
    rw [UInt8.toNat_ofNat']
    omega
  have ends : IsCode [UInt8.ofNat ((n : Int) % 128).toNat] := .last (by omega)
  have value : codeValue [UInt8.ofNat ((n : Int) % 128).toNat] = n % 128 := by
    rw [codeValue, digit, Nat.mod_mod]
  unfold writeVarInt
  split
  · rename_i short
    exact ⟨ends, by omega⟩
  · rename_i long
    obtain ⟨isCode, whole⟩ := codeValue_moreDigits ((n : Int) / 128 - 1).toNat ends
    rw [whole, value, List.length_singleton, Nat.pow_one]
    exact ⟨isCode, by omega⟩

theorem moreDigits_onto {digits : Bytes} (some' : digits ≠ [])
    (marked : ∀ ch ∈ digits, 128 ≤ ch.toNat) : ∃ n, moreDigits n = digits := by
  induction digits using List.reverseRecOn with
  | nil => exact absurd rfl some'
  | append_singleton front ch ih =>
    have here := marked ch (List.mem_append_right _ List.mem_cons_self)
    have byte := ch.toNat_lt
    rcases List.eq_nil_or_concat front with none' | ⟨_, _, nonempty⟩
    · refine ⟨ch.toNat % 128, ?_⟩
      unfold moreDigits
      rw [if_pos (by omega), show ch.toNat % 128 % 128 + 128 = ch.toNat by omega, UInt8.ofNat_toNat,
        none', List.nil_append]
    · obtain ⟨n, before⟩ := ih (by simp [nonempty]) fun other member =>
        marked other (List.mem_append_left _ member)
      refine ⟨(n + 1) * 128 + ch.toNat % 128, ?_⟩
      unfold moreDigits
      rw [if_neg (by omega), show ((n + 1) * 128 + ch.toNat % 128) / 128 - 1 = n by omega,
        show ((n + 1) * 128 + ch.toNat % 128) % 128 + 128 = ch.toNat by omega, UInt8.ofNat_toNat,
        before]

theorem IsCode.writeVarInt_codeValue (isCode : IsCode code) :
    writeVarInt (codeValue code) = code := by
  have shape : ∃ front last, code = front ++ [last] ∧ last.toNat < 128 ∧
      ∀ ch ∈ front, 128 ≤ ch.toNat := by
    induction isCode with
    | last unmarked => exact ⟨[], _, rfl, unmarked, nofun⟩
    | more marked _ ih =>
      obtain ⟨front, last, split, unmarked, others⟩ := ih
      refine ⟨_ :: front, last, by rw [split]; rfl, unmarked, fun ch member => ?_⟩
      rcases List.mem_cons.mp member with here | there
      · rw [here]
        exact marked
      · exact others ch there
  have written : ∃ n : Nat, writeVarInt n = code := by
    obtain ⟨front, last, split, unmarked, marked⟩ := shape
    rw [split]
    rcases List.eq_nil_or_concat front with none' | ⟨_, _, nonempty⟩
    · refine ⟨last.toNat, ?_⟩
      unfold writeVarInt
      rw [if_pos (by omega), show ((last.toNat : Int) % 128).toNat = last.toNat by omega,
        UInt8.ofNat_toNat, none', List.nil_append]
    · obtain ⟨n, before⟩ := moreDigits_onto (by simp [nonempty]) marked
      refine ⟨(n + 1) * 128 + last.toNat, ?_⟩
      unfold writeVarInt
      rw [if_neg (by omega),
        show ((((n + 1) * 128 + last.toNat : Nat) : Int) / 128 - 1).toNat = n by omega,
        show ((((n + 1) * 128 + last.toNat : Nat) : Int) % 128).toNat = last.toNat by omega,
        UInt8.ofNat_toNat, before]
  obtain ⟨n, written⟩ := written
  rw [← written, (codeValue_writeVarInt n).2]

theorem IsCode.readDigits_eq (isCode : IsCode code) (bits n : Nat) (rest : Bytes) :
    readDigits bits n (code ++ rest) =
      some ((n * 128 ^ code.length + codeValue code) % 2 ^ bits, rest) := by
  induction isCode generalizing n with
  | last unmarked =>
    rw [List.singleton_append, readDigits, if_neg (by omega), codeValue, List.length_singleton,
      Nat.pow_one]
  | @more ch later marked isLater ih =>
    have wrapped : ((n * 128 + ch.toNat % 128) % 2 ^ bits + 1) % 2 ^ bits =
        (n * 128 + ch.toNat % 128 + 1) % 2 ^ bits := by
      rw [Nat.mod_add_mod]
    rw [List.cons_append, readDigits, if_pos marked, ih, codeValue_more ch isLater, wrapped,
      List.length_cons, Nat.pow_succ, Nat.add_mod, Nat.mod_mul_mod, ← Nat.add_mod]
    ring

theorem readDigits_some {bits n m : Nat} {stream rest : Bytes}
    (read : readDigits bits n stream = some (m, rest)) :
    ∃ code, IsCode code ∧ stream = code ++ rest := by
  induction stream generalizing n with
  | nil => cases read
  | cons ch later ih =>
    rw [readDigits] at read
    split at read
    · rename_i marked
      obtain ⟨code, isCode, split⟩ := ih read
      exact ⟨ch :: code, .more marked isCode, by rw [split]; rfl⟩
    · rename_i unmarked
      cases read
      exact ⟨[ch], .last (by omega), rfl⟩

end VarInts
