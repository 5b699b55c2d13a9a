import Mathlib.Data.List.Basic
import Mathlib.Data.List.Induction
import Mathlib.Tactic.IntervalCases

/-!
Numbers as texts: decimal numerals with no zero in front and hexadecimal numerals of a fixed
width. Texts that end in a mark are told apart by the mark.
-/
namespace Numerals

section Decimal

def value (text : List Char) : Nat := Nat.ofDigitChars 10 text 0

structure IsNumeral (text : List Char) : Prop where
  digits : ∀ c ∈ text, c.isDigit = true
  written : text ≠ []
  /-- No zero stands in front of another digit. -/
  lead : text.head? = some '0' → text = ['0']

@[simp] theorem value_toDigits (n : Nat) : value (Nat.toDigits 10 n) = n :=
  Nat.ofDigitChars_ten_toDigits

theorem toDigits_lead (n : Nat) (zero : (Nat.toDigits 10 n).head? = some '0') : n = 0 := by
  induction n using Nat.strong_induction_on with
  | _ n ih =>
    by_cases small : n < 10
    · rw [Nat.toDigits_of_lt_base small] at zero
      simpa using zero
    · rw [Nat.toDigits_of_base_le (by decide) (by omega),
        List.head?_append_of_ne_nil _ Nat.toDigits_ne_nil] at zero
      have none_left := ih (n / 10) (by omega) zero
      omega

theorem toDigits_isNumeral (n : Nat) : IsNumeral (Nat.toDigits 10 n) where
  digits c member := Nat.isDigit_of_mem_toDigits (by decide) (by decide) member
  written := Nat.toDigits_ne_nil
  lead zero := by
    rw [toDigits_lead n zero]
    rfl

theorem digitChar_toNat (c : Char) (digit : c.isDigit = true) :
    c.toNat - '0'.toNat < 10 ∧ Nat.digitChar (c.toNat - '0'.toNat) = c := by
  have range : 48 ≤ c.toNat ∧ c.toNat ≤ 57 := by
    simp only [Char.isDigit, Bool.and_eq_true, decide_eq_true_eq] at digit
    exact digit
  have zero : '0'.toNat = 48 := rfl
  have small : c.toNat - '0'.toNat < 10 := by omega
  refine ⟨small, Char.toNat_inj.mp ?_⟩
  rw [Nat.toNat_digitChar_of_lt_ten small]
  omega

theorem toDigits_append (text : List Char) (front : Nat) (positive : 0 < front)
    (digits : ∀ c ∈ text, c.isDigit = true) :
    Nat.toDigits 10 (Nat.ofDigitChars 10 text front) = Nat.toDigits 10 front ++ text := by
  induction text generalizing front with
  | nil => simp
  | cons c rest ih =>
    obtain ⟨small, same⟩ := digitChar_toNat c (digits c (by simp))
    rw [Nat.ofDigitChars_cons, ih _ (by omega) fun d member => digits d (by simp [member]),
      ← Nat.toDigits_append_toDigits (by decide) positive small,
      Nat.toDigits_of_lt_base small, same]
    simp

theorem toDigits_value (text : List Char) (numeral : IsNumeral text) :
    Nat.toDigits 10 (value text) = text := by
  cases text with
  | nil => exact absurd rfl numeral.written
  | cons c rest =>
    by_cases zero : c = '0'
    · rw [numeral.lead (by simp [zero])]
      rfl
    · obtain ⟨small, same⟩ := digitChar_toNat c (numeral.digits c (by simp))
      have positive : 0 < c.toNat - '0'.toNat := by
        rcases Nat.eq_zero_or_pos (c.toNat - '0'.toNat) with none | some
        · rw [none] at same
          exact absurd same.symm zero
        · exact some
      have continued := toDigits_append rest _ positive
        fun d member => numeral.digits d (by simp [member])
      rw [Nat.toDigits_of_lt_base small, same] at continued
      simpa [value, Nat.ofDigitChars_cons] using continued

end Decimal

section Hexadecimal

def hexDigits : List Char :=
  ['0', '1', '2', '3', '4', '5', '6', '7', '8', '9', 'a', 'b', 'c', 'd', 'e', 'f']

def hexText : Nat → Nat → List Char
  | 0, _ => []
  | width + 1, n => hexText width (n / 16) ++ [Nat.digitChar (n % 16)]

def hexValue (text : List Char) : Nat :=
  text.foldl (fun front c => 16 * front + hexDigits.idxOf c) 0

def IsHex (width : Nat) (text : List Char) : Prop :=
  text.length = width ∧ ∀ c ∈ text, c ∈ hexDigits

instance (width : Nat) (text : List Char) : Decidable (IsHex width text) :=
  inferInstanceAs (Decidable (_ ∧ _))

theorem hexDigit_index (d : Nat) (small : d < 16) :
    Nat.digitChar d ∈ hexDigits ∧ hexDigits.idxOf (Nat.digitChar d) = d := by
  interval_cases d <;> decide

theorem digitChar_hexDigit (c : Char) (digit : c ∈ hexDigits) :
    hexDigits.idxOf c < 16 ∧ Nat.digitChar (hexDigits.idxOf c) = c := by
  simp only [hexDigits, List.mem_cons, List.not_mem_nil, or_false] at digit
  rcases digit with rfl | rfl | rfl | rfl | rfl | rfl | rfl | rfl | rfl | rfl | rfl | rfl |
    rfl | rfl | rfl | rfl <;> decide

theorem hexText_isHex (width n : Nat) : IsHex width (hexText width n) := by
  induction width generalizing n with
  | zero => simp [IsHex, hexText]
  | succ width ih =>
    obtain ⟨length, digits⟩ := ih (n / 16)
    refine ⟨by simp [hexText, length], fun c member => ?_⟩
    rcases List.mem_append.mp member with front | last
    · exact digits c front
    · rw [List.mem_singleton.mp last]
      exact (hexDigit_index _ (Nat.mod_lt _ (by decide))).1

@[simp] theorem hexText_length (width n : Nat) : (hexText width n).length = width :=
  (hexText_isHex width n).1

theorem hexValue_append (text : List Char) (c : Char) :
    hexValue (text ++ [c]) = 16 * hexValue text + hexDigits.idxOf c := by
  simp [hexValue]

theorem hexValue_hexText (width n : Nat) : hexValue (hexText width n) = n % 16 ^ width := by
  induction width generalizing n with
  | zero => simp [hexText, hexValue, Nat.mod_one]
  | succ width ih =>
    rw [hexText, hexValue_append, ih, (hexDigit_index _ (Nat.mod_lt _ (by decide))).2,
      Nat.pow_succ', Nat.mod_mul]
    omega

theorem hexText_hexValue (text : List Char) (digits : ∀ c ∈ text, c ∈ hexDigits) :
    hexText text.length (hexValue text) = text := by
  induction text using List.reverseRecOn with
  | nil => rfl
  | append_singleton text c ih =>
    obtain ⟨small, same⟩ := digitChar_hexDigit c (digits c (by simp))
    have front : (16 * hexValue text + hexDigits.idxOf c) / 16 = hexValue text := by omega
    have last : (16 * hexValue text + hexDigits.idxOf c) % 16 = hexDigits.idxOf c := by omega
    rw [List.length_append, List.length_singleton, hexText, hexValue_append, front, last, same,
      ih fun d member => digits d (by simp [member])]

theorem hexValue_lt (text : List Char) (digits : ∀ c ∈ text, c ∈ hexDigits) :
    hexValue text < 16 ^ text.length := by
  rw [← hexText_hexValue text digits, hexValue_hexText, hexText_length]
  exact Nat.mod_lt _ (Nat.pow_pos (by decide))

theorem hexText_injective {width a b : Nat} (smallA : a < 16 ^ width) (smallB : b < 16 ^ width)
    (same : hexText width a = hexText width b) : a = b := by
  rw [← Nat.mod_eq_of_lt smallA, ← hexValue_hexText, same, hexValue_hexText,
    Nat.mod_eq_of_lt smallB]

end Hexadecimal

section Marks

variable {α : Type} {before before' after after' : List α}

theorem first_mark (mark : α) (absent : mark ∉ before) (absent' : mark ∉ before')
    (same : before ++ mark :: after = before' ++ mark :: after') :
    before = before' ∧ after = after' := by
  induction before generalizing before' with
  | nil =>
    cases before' with
    | nil => simpa using same
    | cons c rest =>
      simp only [List.nil_append, List.cons_append, List.cons.injEq] at same
      simp [← same.1] at absent'
  | cons c rest ih =>
    cases before' with
    | nil =>
      simp only [List.nil_append, List.cons_append, List.cons.injEq] at same
      simp [same.1] at absent
    | cons c' rest' =>
      simp only [List.cons_append, List.cons.injEq] at same
      obtain ⟨front, back⟩ := ih (fun member => absent (by simp [member]))
        (fun member => absent' (by simp [member])) same.2
      exact ⟨by rw [same.1, front], back⟩

theorem last_mark (mark : α) (absent : mark ∉ after) (absent' : mark ∉ after')
    (same : before ++ mark :: after = before' ++ mark :: after') :
    before = before' ∧ after = after' := by
  have mirrored : after.reverse ++ mark :: before.reverse =
      after'.reverse ++ mark :: before'.reverse := by
    simpa using congrArg List.reverse same
  obtain ⟨back, front⟩ := first_mark mark (by simpa using absent) (by simpa using absent') mirrored
  exact ⟨List.reverse_inj.mp front, List.reverse_inj.mp back⟩

end Marks

end Numerals
