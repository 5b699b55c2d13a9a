import Oxid.CStrings
import Oxid.Library.Attempt
import Oxid.Library.Numerals
import Oxid.Sporks
import Mathlib.Tactic.Linarith
import Mathlib.Tactic.Positivity
import Mathlib.Tactic.Ring

/-!
Amounts as the user reads and writes them. Texts are lists of characters; the arithmetic of
the scanner is checked, so a result outside int64 would be a failure of its own.
-/
namespace OxidMoneyStrings
open OxidPrimitives OxidCStrings OxidSporks Numerals Attempt

section Source

def trimZeros : List Char → List Char
  | c :: next :: before :: rest =>
    if c = '0' ∧ before.isDigit = true then trimZeros (next :: before :: rest)
    else c :: next :: before :: rest
  | short => short

def formatMoney (n : Int) (fPlus : Bool) : List Char :=
  let n_abs := if 0 < n then n else -n
  let quotient := n_abs / COIN
  let remainder := n_abs % COIN
  let str := decimal quotient ++ '.' :: (decimal remainder).leftpad 8 '0'
  let str := (trimZeros str.reverse).reverse
  if n < 0 then '-' :: str
  else if fPlus ∧ 0 < n then '+' :: str
  else str

inductive MoneyFailure where
  | refused
  | overflow
deriving DecidableEq, Repr

def int64 (n : Int) : Except MoneyFailure Int :=
  if -maxInt64 - 1 ≤ n ∧ n ≤ maxInt64 then .ok n else .error .overflow

def digit (c : Char) : Int := (c.toNat - '0'.toNat : Nat)

/-- `strtoll` in base ten: spaces, a sign, digits, and the bounds where they are passed. -/
def atoi64 (str : List Char) : Int :=
  let number := str.dropWhile isspace
  let unsigned := if number.head? = some '-' ∨ number.head? = some '+' then number.tail else number
  let size : Int := value (unsigned.takeWhile Char.isDigit)
  let signed := if number.head? = some '-' then -size else size
  max (-maxInt64 - 1) (min maxInt64 signed)

/-- The digits behind the point; `nMult` is zero behind the eighth. -/
def readUnits : List Char → Int → Int → Except MoneyFailure (Int × List Char)
  | [], nUnits, _ => .ok (nUnits, [])
  | c :: rest, nUnits, nMult =>
    if c.isDigit ∧ 0 < nMult then do
      let more ← int64 (nMult * digit c)
      let nUnits ← int64 (nUnits + more)
      readUnits rest nUnits (nMult / 10)
    else .ok (nUnits, c :: rest)

def readWhole (strWhole : List Char) :
    List Char → Except MoneyFailure (List Char × Int × List Char)
  | [] => .ok (strWhole, 0, [])
  | c :: rest =>
    if c = '.' then do
      let (nUnits, rest) ← readUnits rest 0 (CENT * 10)
      .ok (strWhole, nUnits, rest)
    else if isspace c then .ok (strWhole, 0, c :: rest)
    else if !c.isDigit then .error .refused
    else readWhole (strWhole ++ [c]) rest

def parseMoney (str : List Char) : Except MoneyFailure Int := do
  let (strWhole, nUnits, rest) ← readWhole [] ((cStr str).dropWhile isspace)
  require (rest.all isspace) .refused
  require (decide (strWhole.length ≤ 10)) .refused
  require (decide (0 ≤ nUnits ∧ nUnits ≤ COIN)) .refused
  let nWhole := atoi64 strWhole
  let nWholeUnits ← int64 (nWhole * COIN)
  int64 (nWholeUnits + nUnits)

end Source

section Numbers

theorem int64_fits {n : Int} (low : 0 ≤ n) (high : n ≤ maxInt64) : int64 n = .ok n := by
  unfold int64
  rw [if_pos ⟨by unfold maxInt64; omega, high⟩]

theorem digit_bounds {c : Char} (isDigit : c.isDigit = true) : 0 ≤ digit c ∧ digit c ≤ 9 := by
  have small := (digitChar_toNat c isDigit).1
  unfold digit
  omega

theorem value_cons (c : Char) (rest : List Char) :
    (value (c :: rest) : Int) = digit c * 10 ^ rest.length + value rest := by
  unfold value digit
  rw [Nat.ofDigitChars_cons, Nat.ofDigitChars_eq_ofDigitChars_zero]
  push_cast
  ring

theorem value_append (front rest : List Char) :
    value (front ++ rest) = 10 ^ rest.length * value front + value rest := by
  unfold value
  rw [Nat.ofDigitChars_append, Nat.ofDigitChars_eq_ofDigitChars_zero]

theorem value_zeros (n : Nat) : value (List.replicate n '0') = 0 := by
  unfold value
  rw [Nat.ofDigitChars_replicate_zero, Nat.mul_zero]

theorem value_lt {text : List Char} (digits : ∀ c ∈ text, c.isDigit = true) :
    (value text : Int) < 10 ^ text.length := by
  induction text with
  | nil => decide
  | cons c rest ih =>
    have bounds := digit_bounds (digits c List.mem_cons_self)
    have later := ih fun d member => digits d (List.mem_cons_of_mem c member)
    rw [value_cons, List.length_cons, pow_succ']
    nlinarith [pow_pos (by decide : (0 : Int) < 10) rest.length]

def place : Nat → Int
  | 0 => 0
  | k + 1 => 10 ^ k

theorem place_next (k : Nat) : place (k + 1) / 10 = place k := by
  cases k with
  | zero => rfl
  | succ k => exact Int.ediv_eq_of_eq_mul_left (by decide) (pow_succ 10 k)

end Numbers

section Scanning

/-- What the fraction is worth in the smallest unit. -/
def units (decimals : List Char) : Int := value decimals * 10 ^ (8 - decimals.length)

theorem readUnits_takes {p : List Char} {nUnits : Int} {k : Nat} (low : 0 ≤ nUnits)
    (high : nUnits + 10 ^ k ≤ maxInt64) :
    readUnits p nUnits (place k) =
      .ok (nUnits + value ((p.takeWhile Char.isDigit).take k) *
          10 ^ (k - ((p.takeWhile Char.isDigit).take k).length),
        p.drop ((p.takeWhile Char.isDigit).take k).length) := by
  induction p generalizing nUnits k with
  | nil => simp [readUnits, value]
  | cons c rest ih =>
    cases k with
    | zero => simp [readUnits, place, value]
    | succ k =>
      by_cases isDigit : c.isDigit = true
      · have bounds := digit_bounds isDigit
        have positive : (0 : Int) < 10 ^ k := by positivity
        have more : 0 ≤ 10 ^ k * digit c ∧ 10 ^ k * digit c ≤ 10 ^ k * 9 := by
          constructor
          · exact Int.mul_nonneg positive.le bounds.1
          · exact Int.mul_le_mul_of_nonneg_left bounds.2 positive.le
        have fits := @ih (nUnits + 10 ^ k * digit c) k (by omega) (by omega)
        have short : (rest.takeWhile Char.isDigit |>.take k).length ≤ k := List.length_take_le ..
        unfold readUnits
        rw [if_pos ⟨isDigit, positive⟩]
        simp only [place, int64_fits more.1 (by omega),
          int64_fits (by omega : 0 ≤ nUnits + 10 ^ k * digit c) (by omega), bind, Except.bind]
        have next : (10 : Int) ^ k / 10 = place k := place_next k
        rw [next, fits, List.takeWhile_cons_of_pos isDigit, List.take_succ_cons,
          List.length_cons, List.drop_succ_cons, value_cons, Nat.add_sub_add_right, add_mul,
          mul_assoc (digit c), ← pow_add, Nat.add_sub_cancel' short]
        ring
      · unfold readUnits
        rw [if_neg fun both => isDigit both.1]
        simp [List.takeWhile_cons_of_neg isDigit, value]

theorem units_bounds {decimals : List Char} (digits : ∀ c ∈ decimals, c.isDigit = true)
    (short : decimals.length ≤ 8) : 0 ≤ units decimals ∧ units decimals < COIN := by
  have small := value_lt digits
  have scale : (0 : Int) < 10 ^ (8 - decimals.length) := by positivity
  have whole : (10 : Int) ^ decimals.length * 10 ^ (8 - decimals.length) = COIN := by
    rw [← pow_add, Nat.add_sub_cancel' short]
    rfl
  unfold units
  rw [← whole]
  exact ⟨by positivity, (mul_lt_mul_iff_left₀ scale).mpr small⟩

theorem readUnits_point (p : List Char) :
    readUnits p 0 (CENT * 10) =
      .ok (units ((p.takeWhile Char.isDigit).take 8),
        p.drop ((p.takeWhile Char.isDigit).take 8).length) := by
  have first : CENT * 10 = place 8 := rfl
  rw [first, readUnits_takes (le_refl 0) (by decide), zero_add]
  rfl

theorem readWhole_digits {whole : List Char} (digits : ∀ c ∈ whole, c.isDigit = true)
    (strWhole p : List Char) :
    readWhole strWhole (whole ++ p) = readWhole (strWhole ++ whole) p := by
  induction whole generalizing strWhole with
  | nil => rw [List.nil_append, List.append_nil]
  | cons c rest ih =>
    have isDigit := digits c List.mem_cons_self
    have notPoint : c ≠ '.' := by
      rintro rfl
      cases isDigit
    rw [List.cons_append, readWhole, if_neg notPoint, digit_not_space isDigit, isDigit]
    simpa using ih (fun d member => digits d (List.mem_cons_of_mem c member)) (strWhole ++ [c])

theorem readWhole_spaces {p : List Char} (spaces : ∀ c ∈ p, isspace c = true)
    (strWhole : List Char) : readWhole strWhole p = .ok (strWhole, 0, p) := by
  cases p with
  | nil => rfl
  | cons c rest =>
    have space := spaces c List.mem_cons_self
    rw [readWhole, if_neg (isspace_not_point space), if_pos space]

theorem readWhole_point (strWhole p : List Char) :
    readWhole strWhole ('.' :: p) =
      .ok (strWhole, units ((p.takeWhile Char.isDigit).take 8),
        p.drop ((p.takeWhile Char.isDigit).take 8).length) := by
  rw [readWhole, if_pos rfl, readUnits_point]
  rfl

/-- Where the scan stops: at the end of the digits, or behind a point and a fraction. -/
def Stops (q : List Char) (nUnits : Int) (rest : List Char) : Prop :=
  nUnits = 0 ∧ rest = q ∨ ∃ decimals, q = '.' :: decimals ++ rest ∧
    (∀ c ∈ decimals, c.isDigit = true) ∧ decimals.length ≤ 8 ∧ nUnits = units decimals

theorem stops_point (p : List Char) :
    Stops ('.' :: p) (units ((p.takeWhile Char.isDigit).take 8))
      (p.drop ((p.takeWhile Char.isDigit).take 8).length) := by
  have front : (p.takeWhile Char.isDigit).take 8 <+: p :=
    (List.take_prefix 8 _).trans (List.takeWhile_prefix _)
  refine Or.inr ⟨_, ?_, ?_, List.length_take_le .., rfl⟩
  · rw [List.cons_append, List.prefix_iff_eq_append.mp front]
  · intro c member
    exact List.mem_takeWhile_imp (List.mem_of_mem_take member)

theorem readWhole_cases (strWhole p : List Char) :
    readWhole strWhole p = .error .refused ∨
      ∃ whole q nUnits rest, readWhole strWhole p = .ok (strWhole ++ whole, nUnits, rest) ∧
        p = whole ++ q ∧ (∀ c ∈ whole, c.isDigit = true) ∧ Stops q nUnits rest := by
  induction p generalizing strWhole with
  | nil => exact Or.inr ⟨[], [], 0, [], by simp [readWhole], rfl, by simp, Or.inl ⟨rfl, rfl⟩⟩
  | cons c p ih =>
    by_cases point : c = '.'
    · subst point
      refine Or.inr ⟨[], '.' :: p, _, _, ?_, rfl, by simp, stops_point p⟩
      rw [readWhole_point, List.append_nil]
    · by_cases space : isspace c = true
      · refine Or.inr ⟨[], c :: p, 0, c :: p, ?_, rfl, by simp, Or.inl ⟨rfl, rfl⟩⟩
        rw [readWhole, if_neg point, if_pos space, List.append_nil]
      · by_cases isDigit : c.isDigit = true
        · have step : readWhole strWhole (c :: p) = readWhole (strWhole ++ [c]) p := by
            rw [readWhole, if_neg point, if_neg space, isDigit]
            rfl
          rw [step]
          rcases ih (strWhole ++ [c]) with refused | ⟨whole, q, nUnits, rest, ran, split, digits, stops⟩
          · exact Or.inl refused
          · refine Or.inr ⟨c :: whole, q, nUnits, rest, ?_, by rw [split]; rfl, ?_, stops⟩
            · rw [ran, List.append_assoc]
              rfl
            · intro d member
              rcases List.mem_cons.mp member with rfl | later
              · exact isDigit
              · exact digits d later
        · refine Or.inl ?_
          rw [readWhole, if_neg point, if_neg space, if_pos (by simpa using isDigit)]

theorem atoi64_digits {whole : List Char} (digits : ∀ c ∈ whole, c.isDigit = true)
    (short : whole.length ≤ 10) : atoi64 whole = value whole := by
  have number : whole.dropWhile isspace = whole := by
    refine @skip_spaces [] whole (by simp) ?_
    intro c head
    exact digit_not_space (digits c (List.mem_of_mem_head? head))
  have unsigned : ∀ mark, mark.isDigit = false → whole.head? ≠ some mark := by
    intro mark none head
    rw [digits mark (List.mem_of_mem_head? head)] at none
    cases none
  have minus := unsigned '-' rfl
  have plus := unsigned '+' rfl
  have small : (value whole : Int) < 10 ^ 10 :=
    (value_lt digits).trans_le (pow_le_pow_right₀ (by decide) short)
  unfold atoi64
  simp only [number, if_neg minus, if_neg (not_or.mpr ⟨minus, plus⟩),
    List.takeWhile_eq_self_iff.mpr digits]
  unfold maxInt64
  omega

end Scanning

section Amounts

/-- The texts of amounts: at most ten digits, then nothing or a point and at most eight. -/
inductive IsAmount : List Char → Int → Prop where
  | whole {whole : List Char} (digits : ∀ c ∈ whole, c.isDigit = true)
      (short : whole.length ≤ 10) : IsAmount whole (value whole * COIN)
  | point {whole decimals : List Char} (digits : ∀ c ∈ whole, c.isDigit = true)
      (short : whole.length ≤ 10) (fraction : ∀ c ∈ decimals, c.isDigit = true)
      (fine : decimals.length ≤ 8) :
      IsAmount (whole ++ '.' :: decimals) (value whole * COIN + units decimals)

theorem amount_begins {text : List Char} {n : Int} (amount : IsAmount text n) :
    ∀ c ∈ text.head?, isspace c = false := by
  intro c head
  cases amount with
  | whole digits _ => exact digit_not_space (digits c (List.mem_of_mem_head? head))
  | @point whole decimals digits _ _ _ =>
    cases whole with
    | nil =>
      cases head
      rfl
    | cons d rest =>
      cases head
      exact digit_not_space (digits _ List.mem_cons_self)

def finish (strWhole : List Char) (nUnits : Int) (rest : List Char) : Except MoneyFailure Int := do
  require (rest.all isspace) .refused
  require (decide (strWhole.length ≤ 10)) .refused
  require (decide (0 ≤ nUnits ∧ nUnits ≤ COIN)) .refused
  let nWholeUnits ← int64 (atoi64 strWhole * COIN)
  int64 (nWholeUnits + nUnits)

theorem parseMoney_scanned {str strWhole rest : List Char} {nUnits : Int}
    (scanned : readWhole [] ((cStr str).dropWhile isspace) = .ok (strWhole, nUnits, rest)) :
    parseMoney str = finish strWhole nUnits rest := by
  unfold parseMoney
  rw [scanned]
  rfl

theorem finish_ok {strWhole rest : List Char} {nUnits : Int}
    (digits : ∀ c ∈ strWhole, c.isDigit = true) (short : strWhole.length ≤ 10)
    (spaces : ∀ c ∈ rest, isspace c = true) (low : 0 ≤ nUnits) (high : nUnits ≤ COIN) :
    finish strWhole nUnits rest = .ok (value strWhole * COIN + nUnits) := by
  have small : (value strWhole : Int) < 10 ^ 10 :=
    (value_lt digits).trans_le (pow_le_pow_right₀ (by decide) short)
  have whole : int64 (value strWhole * COIN) = .ok (value strWhole * COIN) :=
    int64_fits (by unfold COIN; omega) (by unfold COIN maxInt64; omega)
  have all : int64 (value strWhole * COIN + nUnits) = .ok (value strWhole * COIN + nUnits) :=
    int64_fits (by unfold COIN; omega) (by unfold COIN maxInt64 at *; omega)
  unfold finish
  rw [atoi64_digits digits short, List.all_eq_true.mpr spaces, decide_eq_true short,
    decide_eq_true ⟨low, high⟩, whole]
  exact all

theorem finish_refused {strWhole rest : List Char} {nUnits : Int}
    (bad : ¬((∀ c ∈ rest, isspace c = true) ∧ strWhole.length ≤ 10 ∧ 0 ≤ nUnits ∧
      nUnits ≤ COIN)) : finish strWhole nUnits rest = .error .refused := by
  unfold finish require
  by_cases spaces : rest.all isspace = true
  · by_cases short : strWhole.length ≤ 10
    · have outside : ¬(0 ≤ nUnits ∧ nUnits ≤ COIN) :=
        fun inside => bad ⟨List.all_eq_true.mp spaces, short, inside⟩
      rw [if_pos spaces, decide_eq_true short, decide_eq_false outside]
      rfl
    · rw [if_pos spaces, decide_eq_false short]
      rfl
  · rw [if_neg spaces]
    rfl

theorem parseMoney_amount {before text after : List Char} {n : Int}
    (unbroken : '\x00' ∉ before ++ text ++ after) (ahead : ∀ c ∈ before, isspace c = true)
    (behind : ∀ c ∈ after, isspace c = true) (amount : IsAmount text n) :
    parseMoney (before ++ text ++ after) = .ok n := by
  have skipped : (before ++ text ++ after).dropWhile isspace =
      if text = [] then [] else text ++ after := by
    rw [List.append_assoc]
    split
    · rename_i none
      rw [none, List.dropWhile_append_of_pos ahead]
      exact skip_all behind
    · rename_i some
      refine skip_spaces ahead ?_
      rw [List.head?_append_of_ne_nil text some]
      exact amount_begins amount
  have noDigits : after.takeWhile Char.isDigit = [] := by
    cases after with
    | nil => rfl
    | cons c rest =>
      refine List.takeWhile_cons_of_neg ?_
      rw [isspace_not_digit (behind c List.mem_cons_self)]
      decide
  cases amount with
  | whole digits short =>
    have scanned : ∃ rest, readWhole [] ((before ++ text ++ after).dropWhile isspace) =
        .ok (text, 0, rest) ∧ ∀ c ∈ rest, isspace c = true := by
      rw [skipped]
      split
      · rename_i none
        exact ⟨[], by rw [none]; rfl, by simp⟩
      · exact ⟨after, by rw [readWhole_digits digits, readWhole_spaces behind]; rfl, behind⟩
    obtain ⟨rest, ran, spaces⟩ := scanned
    rw [← cStr_self unbroken] at ran
    rw [parseMoney_scanned ran, finish_ok digits short spaces (le_refl 0) (by decide), add_zero]
  | @point whole decimals digits short fraction fine =>
    have taken : ((decimals ++ after).takeWhile Char.isDigit).take 8 = decimals := by
      rw [List.takeWhile_append_of_pos fraction, noDigits, List.append_nil,
        List.take_of_length_le fine]
    have ran : readWhole [] ((before ++ (whole ++ '.' :: decimals) ++ after).dropWhile isspace) =
        .ok (whole, units decimals, after) := by
      rw [skipped, if_neg (by simp), List.append_assoc, List.cons_append,
        readWhole_digits digits, readWhole_point, taken, List.drop_left]
      rfl
    have bounds := units_bounds fraction fine
    rw [← cStr_self unbroken] at ran
    rw [parseMoney_scanned ran, finish_ok digits short behind bounds.1 bounds.2.le]

theorem parseMoney_cases {str : List Char} (unbroken : '\x00' ∉ str) :
    parseMoney str = .error .refused ∨
      ∃ text n, parseMoney str = .ok n ∧ Surrounds str text ∧ IsAmount text n := by
  have split : (str.takeWhile isspace) ++ (str.dropWhile isspace) = str :=
    List.takeWhile_append_dropWhile
  rcases readWhole_cases [] (str.dropWhile isspace) with refused | scanned
  · refine Or.inl ?_
    unfold parseMoney
    rw [cStr_self unbroken, refused]
    rfl
  · obtain ⟨whole, q, nUnits, rest, ran, parts, digits, stops⟩ := scanned
    rw [List.nil_append, ← cStr_self unbroken] at ran
    rw [parseMoney_scanned ran]
    by_cases checked : (∀ c ∈ rest, isspace c = true) ∧ whole.length ≤ 10 ∧ 0 ≤ nUnits ∧
        nUnits ≤ COIN
    · obtain ⟨spaces, short, low, high⟩ := checked
      rw [finish_ok digits short spaces low high]
      refine Or.inr ?_
      rcases stops with ⟨rfl, rfl⟩ | ⟨decimals, rfl, fraction, fine, rfl⟩
      · refine ⟨whole, _, rfl, ⟨str.takeWhile isspace, rest, ?_, ?_, spaces⟩, ?_⟩
        · rw [List.append_assoc, ← parts, split]
        · exact fun c member => List.mem_takeWhile_imp member
        · rw [add_zero]
          exact .whole digits short
      · refine ⟨whole ++ '.' :: decimals, _, rfl, ⟨str.takeWhile isspace, rest, ?_, ?_, spaces⟩,
          .point digits short fraction fine⟩
        · rw [List.append_assoc, List.append_assoc, ← parts, split]
        · exact fun c member => List.mem_takeWhile_imp member
    · exact Or.inl (finish_refused checked)

end Amounts

section Format

theorem trimZeros_fraction {fraction : List Char} (digits : ∀ c ∈ fraction, c.isDigit = true)
    (two : 2 ≤ fraction.length) (more : List Char) :
    ∃ kept zeros, fraction = List.replicate zeros '0' ++ kept ∧ 2 ≤ kept.length ∧
      trimZeros (fraction ++ '.' :: more) = kept ++ '.' :: more := by
  induction fraction with
  | nil => simp at two
  | cons c rest ih =>
    cases rest with
    | nil => simp at two
    | cons d rest =>
      cases rest with
      | nil => exact ⟨[c, d], 0, rfl, le_refl 2, by simp [trimZeros]⟩
      | cons e later =>
        have before := digits e (by simp)
        by_cases zero : c = '0'
        · obtain ⟨kept, zeros, split, long, trimmed⟩ :=
            ih (fun x member => digits x (List.mem_cons_of_mem c member)) (by simp)
          refine ⟨kept, zeros + 1, ?_, long, ?_⟩
          · rw [split, zero]
            rfl
          · rw [← trimmed, List.cons_append, List.cons_append, List.cons_append, trimZeros,
              if_pos ⟨zero, before⟩]
        · refine ⟨c :: d :: e :: later, 0, rfl, by simp, ?_⟩
          rw [List.cons_append, List.cons_append, List.cons_append, trimZeros,
            if_neg fun both => zero both.1]

variable {n : Int}

theorem decimal_digits (low : 0 ≤ n) : ∀ c ∈ decimal n, c.isDigit = true := by
  obtain ⟨size, rfl⟩ := Int.eq_ofNat_of_zero_le low
  exact (toDigits_isNumeral size).digits

theorem decimal_value (low : 0 ≤ n) : (value (decimal n) : Int) = n := by
  obtain ⟨size, rfl⟩ := Int.eq_ofNat_of_zero_le low
  exact congrArg Int.ofNat (value_toDigits size)

theorem decimal_length {k : Nat} (low : 0 ≤ n) (high : n < 10 ^ (k + 1)) :
    (decimal n).length ≤ k + 1 := by
  obtain ⟨size, rfl⟩ := Int.eq_ofNat_of_zero_le low
  refine (Nat.length_toDigits_le_iff (by decide) (Nat.succ_pos k)).mpr ?_
  exact_mod_cast high

def fraction (n : Int) : List Char := (decimal (n % COIN)).leftpad 8 '0'

theorem fraction_facts (n : Int) :
    (fraction n).length = 8 ∧ (∀ c ∈ fraction n, c.isDigit = true) ∧
      (value (fraction n) : Int) = n % COIN := by
  have low : 0 ≤ n % COIN := Int.emod_nonneg n (by decide)
  have high : n % COIN < 10 ^ (7 + 1) := Int.emod_lt_of_pos n (by decide)
  have short := decimal_length low high
  unfold fraction List.leftpad
  refine ⟨?_, ?_, ?_⟩
  · rw [List.length_append, List.length_replicate]
    omega
  · intro c member
    rcases List.mem_append.mp member with padding | figure
    · rw [(List.mem_replicate.mp padding).2]
      rfl
    · exact decimal_digits low c figure
  · rw [value_append, value_zeros, Nat.mul_zero, Nat.zero_add, decimal_value low]

theorem formatMoney_text (low : 0 ≤ n) :
    ∃ decimals, formatMoney n false = decimal (n / COIN) ++ '.' :: decimals ∧
      2 ≤ decimals.length ∧ decimals.length ≤ 8 ∧
      decimals ++ List.replicate (8 - decimals.length) '0' = fraction n := by
  obtain ⟨eight, digits, -⟩ := fraction_facts n
  obtain ⟨kept, zeros, split, long, trimmed⟩ := @trimZeros_fraction (fraction n).reverse
    (fun c member => digits c (List.mem_reverse.mp member)) (by rw [List.length_reverse]; omega)
    (decimal (n / COIN)).reverse
  have whole : fraction n = kept.reverse ++ List.replicate zeros '0' := by
    rw [← List.reverse_reverse (fraction n), split, List.reverse_append, List.reverse_replicate]
  have count := congrArg List.length whole
  rw [eight, List.length_append, List.length_replicate, List.length_reverse] at count
  refine ⟨kept.reverse, ?_, by rwa [List.length_reverse], by rw [List.length_reverse]; omega, ?_⟩
  · have n_abs : (if 0 < n then n else -n) = n := by
      split <;> omega
    have mirrored : (decimal (n / COIN) ++ '.' :: fraction n).reverse =
        (fraction n).reverse ++ '.' :: (decimal (n / COIN)).reverse := by
      simp
    unfold formatMoney
    simp only [n_abs, if_neg (not_lt.mpr low), Bool.false_eq_true, false_and, if_false]
    rw [← fraction, mirrored, trimmed]
    simp
  · rw [whole, List.length_reverse]
    congr 2
    omega

theorem formatMoney_amount (low : 0 ≤ n) (high : n < 10 ^ 18) :
    IsAmount (formatMoney n false) n := by
  obtain ⟨decimals, text, -, fine, padded⟩ := formatMoney_text low
  obtain ⟨-, digits, worth⟩ := fraction_facts n
  have positive : 0 < COIN := by decide
  have quotient : 0 ≤ n / COIN := Int.ediv_nonneg low positive.le
  have figures : ∀ c ∈ decimals, c.isDigit = true := by
    intro c member
    refine digits c ?_
    rw [← padded]
    exact List.mem_append_left _ member
  have remainder : units decimals = n % COIN := by
    rw [← worth, ← padded, value_append, value_zeros, List.length_replicate]
    unfold units
    push_cast
    ring
  have short : (decimal (n / COIN)).length ≤ 10 := by
    refine decimal_length quotient ?_
    unfold COIN
    omega
  have amount := IsAmount.point (decimal_digits quotient) short figures fine
  rw [decimal_value quotient, remainder, Int.ediv_mul_add_emod] at amount
  rw [text]
  exact amount

theorem amount_unbroken {text : List Char} (amount : IsAmount text n) : '\x00' ∉ text := by
  intro member
  cases amount with
  | whole digits _ => cases digits _ member
  | point digits _ fraction _ =>
    rcases List.mem_append.mp member with front | back
    · cases digits _ front
    · rcases List.mem_cons.mp back with mark | figure
      · cases mark
      · cases fraction _ figure

end Format

/-- Amounts below 10^18 survive the trip through their text, which keeps every nonzero
    decimal. A text without zero bytes is accepted exactly where it is one of an amount
    with spaces around, as that amount, and nothing leaves the int64 range on the way. -/
theorem money_strings :
    (∀ n, 0 ≤ n → n < 10 ^ 18 →
      parseMoney (formatMoney n false) = .ok n ∧
      ∃ decimals, formatMoney n false = decimal (n / COIN) ++ '.' :: decimals ∧
        2 ≤ decimals.length ∧ decimals.length ≤ 8 ∧
        decimals ++ List.replicate (8 - decimals.length) '0' = fraction n) ∧
    (∀ str, '\x00' ∉ str → ∀ nValue, parseMoney str = .ok nValue ↔
      ∃ text, Surrounds str text ∧ IsAmount text nValue) ∧
    ∀ str, parseMoney str ≠ .error .overflow := by
  refine ⟨?_, ?_, ?_⟩
  · intro n low high
    have amount := formatMoney_amount low high
    refine ⟨?_, formatMoney_text low⟩
    have unbroken : '\x00' ∉ [] ++ formatMoney n false ++ [] := by
      simpa using amount_unbroken amount
    simpa using parseMoney_amount unbroken (by simp) (by simp) amount
  · intro str unbroken nValue
    constructor
    · intro accepted
      rcases parseMoney_cases unbroken with refused | ⟨text, n, ran, around, amount⟩
      · rw [refused] at accepted
        cases accepted
      · rw [ran] at accepted
        cases accepted
        exact ⟨text, around, amount⟩
    · rintro ⟨text, ⟨before, after, rfl, ahead, behind⟩, amount⟩
      exact parseMoney_amount unbroken ahead behind amount
  · intro str overflow
    have seen : parseMoney (cStr str) = parseMoney str := by
      unfold parseMoney
      rw [cStr_self (cStr_whole str)]
    rcases parseMoney_cases (cStr_whole str) with refused | ⟨text, n, ran, -, -⟩
    · rw [← seen, refused] at overflow
      cases overflow
    · rw [← seen, ran] at overflow
      cases overflow

theorem twelve_and_a_half_read :
    parseMoney (formatMoney 1250000000 false) = .ok 1250000000 ∧
    ((∃ text, Surrounds [' ', '1', '2', '.', '5'] text ∧ IsAmount text 1250000000) ↔
      parseMoney [' ', '1', '2', '.', '5'] = .ok 1250000000) :=
  ⟨(money_strings.1 1250000000 (by decide) (by decide)).1,
    (money_strings.2.1 [' ', '1', '2', '.', '5'] (by decide) 1250000000).symm⟩

end OxidMoneyStrings
