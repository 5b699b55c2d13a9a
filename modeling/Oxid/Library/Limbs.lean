import Mathlib.Data.Nat.ModEq
import Mathlib.Data.Nat.Size
import Mathlib.Tactic.Linarith
import Mathlib.Tactic.Ring

/-!
Numbers kept as limbs of some width, least significant first, and the arithmetic of the
schoolbook on them. Each operation is a number's, cut off at the width of the whole.
-/
namespace Limbs

variable {w : Nat}

def value : List (BitVec w) → Nat
  | [] => 0
  | x :: xs => x.toNat + 2 ^ w * value xs

theorem value_lt (xs : List (BitVec w)) : value xs < 2 ^ (w * xs.length) := by
  induction xs with
  | nil => simp [value]
  | cons x xs ih =>
    have limb := x.isLt
    rw [value, List.length_cons, Nat.mul_succ, Nat.add_comm (w * xs.length), pow_add]
    calc x.toNat + 2 ^ w * value xs < 2 ^ w + 2 ^ w * value xs := Nat.add_lt_add_right limb _
      _ = 2 ^ w * (value xs + 1) := by ring
      _ ≤ 2 ^ w * 2 ^ (w * xs.length) := Nat.mul_le_mul_left _ ih

@[simp] theorem value_replicate_zero (count : Nat) :
    value (List.replicate count 0#w) = 0 := by
  induction count with
  | zero => rfl
  | succ count ih =>
    rw [List.replicate_succ, value, ih]
    simp

section Addition

def complement (xs : List (BitVec w)) : List (BitVec w) := xs.map (~~~·)

/-- Count up until a limb does not become zero. -/
def increment : List (BitVec w) → List (BitVec w)
  | [] => []
  | x :: xs => if x + 1 = 0 then (x + 1) :: increment xs else (x + 1) :: xs

def add (carry : Nat) : List (BitVec w) → List (BitVec w) → List (BitVec w)
  | x :: xs, y :: ys =>
    let n := carry + x.toNat + y.toNat
    BitVec.ofNat w n :: add (n / 2 ^ w) xs ys
  | _, _ => []

def negate (xs : List (BitVec w)) : List (BitVec w) := increment (complement xs)

def subtract (xs ys : List (BitVec w)) : List (BitVec w) := add 0 xs (negate ys)

@[simp] theorem length_complement (xs : List (BitVec w)) : (complement xs).length = xs.length := by
  simp [complement]

@[simp] theorem length_increment (xs : List (BitVec w)) : (increment xs).length = xs.length := by
  induction xs with
  | nil => rfl
  | cons x xs ih =>
    rw [increment]
    split <;> simp [ih]

variable {xs ys : List (BitVec w)}

theorem length_add (carry : Nat) (same : xs.length = ys.length) :
    (add carry xs ys).length = xs.length := by
  induction xs generalizing carry ys with
  | nil => simp [add]
  | cons x xs ih =>
    cases ys with
    | nil => cases same
    | cons y ys =>
      rw [List.length_cons, List.length_cons, Nat.succ_inj] at same
      simp [add, ih _ same]

@[simp] theorem length_negate (xs : List (BitVec w)) : (negate xs).length = xs.length := by
  simp [negate]

theorem length_subtract (same : xs.length = ys.length) :
    (subtract xs ys).length = xs.length := length_add 0 (by simpa using same)

theorem value_complement (xs : List (BitVec w)) :
    value (complement xs) + value xs + 1 = 2 ^ (w * xs.length) := by
  induction xs with
  | nil => simp [complement, value]
  | cons x xs ih =>
    have flipped : (~~~x).toNat + x.toNat + 1 = 2 ^ w := by
      rw [BitVec.toNat_not]
      omega
    rw [complement, List.map_cons, value, value, List.length_cons, Nat.mul_succ,
      Nat.add_comm (w * xs.length), pow_add, ← ih, ← flipped]
    change _ + _ * value (complement xs) + _ + 1 = _
    ring

theorem mod_succ (count r m : Nat) :
    (r + 2 ^ w * m) % 2 ^ (w * (count + 1)) =
      r % 2 ^ w + 2 ^ w * ((r / 2 ^ w + m) % 2 ^ (w * count)) := by
  have base : 0 < 2 ^ w := Nat.two_pow_pos w
  rw [Nat.mul_succ, Nat.add_comm (w * count), pow_add, Nat.mod_mul, Nat.add_mul_mod_self_left,
    Nat.add_mul_div_left _ _ base]

theorem value_increment (xs : List (BitVec w)) :
    value (increment xs) = (value xs + 1) % 2 ^ (w * xs.length) := by
  induction xs with
  | nil => simp [increment, value]
  | cons x xs ih =>
    have limb := x.isLt
    have rest := value_lt xs
    have next : (x + 1).toNat = (x.toNat + 1) % 2 ^ w := by simp [BitVec.toNat_add]
    have digits : value (x :: xs) + 1 = x.toNat + 1 + 2 ^ w * value xs := by
      rw [value]
      ring
    rw [digits, List.length_cons, mod_succ, increment, ← next]
    split
    · rename_i wraps
      have last : x.toNat + 1 = 2 ^ w := by
        have zero := congrArg BitVec.toNat wraps
        rw [next] at zero
        have divides := Nat.dvd_of_mod_eq_zero zero
        exact le_antisymm limb (Nat.le_of_dvd (Nat.succ_pos _) divides)
      rw [value, ih, last, Nat.div_self (Nat.two_pow_pos w), Nat.add_comm 1]
    · rename_i stays
      have short : x.toNat + 1 < 2 ^ w := by
        refine lt_of_le_of_ne limb fun last => stays (BitVec.eq_of_toNat_eq ?_)
        simp [last]
      rw [value, Nat.div_eq_of_lt short, Nat.zero_add, Nat.mod_eq_of_lt rest]

theorem value_add (carry : Nat) (same : xs.length = ys.length) :
    value (add carry xs ys) = (carry + value xs + value ys) % 2 ^ (w * xs.length) := by
  induction xs generalizing carry ys with
  | nil => simp [add, value, Nat.mod_one]
  | cons x xs ih =>
    cases ys with
    | nil => cases same
    | cons y ys =>
      rw [List.length_cons, List.length_cons, Nat.succ_inj] at same
      have digits : carry + value (x :: xs) + value (y :: ys) =
          carry + x.toNat + y.toNat + 2 ^ w * (value xs + value ys) := by
        rw [value, value]
        ring
      rw [digits, List.length_cons, mod_succ, add, value, ih _ same, BitVec.toNat_ofNat,
        Nat.add_assoc ((carry + x.toNat + y.toNat) / 2 ^ w)]

theorem value_negate (xs : List (BitVec w)) :
    value (negate xs) = (2 ^ (w * xs.length) - value xs) % 2 ^ (w * xs.length) := by
  have flipped := value_complement xs
  rw [negate, value_increment, length_complement]
  congr 1
  omega

theorem value_subtract (same : xs.length = ys.length) (le : value ys ≤ value xs) :
    value (subtract xs ys) = value xs - value ys := by
  have left := value_lt xs
  have right := value_lt ys
  rw [subtract, value_add 0 (by simpa using same), value_negate, ← same, Nat.zero_add,
    Nat.add_mod_mod]
  rw [show value xs + (2 ^ (w * xs.length) - value ys) =
    value xs - value ys + 2 ^ (w * xs.length) by omega, Nat.add_mod_right,
    Nat.mod_eq_of_lt (by omega)]

end Addition

section Comparison

def compareTo : List (BitVec w) → List (BitVec w) → Int
  | x :: xs, y :: ys =>
    if compareTo xs ys ≠ 0 then compareTo xs ys
    else if x < y then -1 else if x > y then 1 else 0
  | _, _ => 0

theorem compareTo_spec {xs ys : List (BitVec w)} (same : xs.length = ys.length) :
    compareTo xs ys =
      if value xs < value ys then -1 else if value xs > value ys then 1 else 0 := by
  induction xs generalizing ys with
  | nil =>
    cases ys with
    | nil => simp [compareTo]
    | cons y ys => cases same
  | cons x xs ih =>
    cases ys with
    | nil => cases same
    | cons y ys =>
      rw [List.length_cons, List.length_cons, Nat.succ_inj] at same
      rw [compareTo, ih same, value, value]
      simp only [gt_iff_lt, BitVec.lt_def]
      rcases Nat.lt_trichotomy (value xs) (value ys) with less | equal | more
      · have gap : 2 ^ w * (value xs + 1) ≤ 2 ^ w * value ys := Nat.mul_le_mul_left _ less
        rw [Nat.mul_succ] at gap
        rw [if_pos less, if_pos (by decide), if_pos (by omega)]
      · rw [equal]
        simp
      · have gap : 2 ^ w * (value ys + 1) ≤ 2 ^ w * value xs := Nat.mul_le_mul_left _ more
        rw [Nat.mul_succ] at gap
        rw [if_neg (Nat.lt_asymm more), if_pos more, if_pos (by decide), if_neg (by omega),
          if_pos (by omega)]

def topBit : Nat → BitVec w → Nat
  | 0, _ => 1
  | bit + 1, x => if x.getLsbD (bit + 1) then bit + 2 else topBit bit x

def bits : List (BitVec w) → Nat
  | [] => 0
  | x :: xs =>
    if bits xs ≠ 0 then w + bits xs else if x ≠ 0 then topBit (w - 1) x else 0

theorem topBit_spec {x : BitVec w} (nonzero : x ≠ 0) {bit : Nat} (small : x.toNat < 2 ^ (bit + 1)) :
    topBit bit x = x.toNat.size := by
  have positive : 0 < x.toNat := by
    rw [Nat.pos_iff_ne_zero]
    exact fun zero => nonzero (BitVec.eq_of_toNat_eq zero)
  induction bit with
  | zero =>
    have one : x.toNat = 1 := by omega
    rw [topBit, one, Nat.size_one]
  | succ bit ih =>
    rw [topBit]
    by_cases set : x.getLsbD (bit + 1) = true
    · rw [if_pos set]
      have least : 2 ^ (bit + 1) ≤ x.toNat := Nat.ge_two_pow_of_testBit set
      exact le_antisymm (Nat.lt_size.mpr least) (Nat.size_le.mpr small)
    · rw [if_neg set]
      refine ih ?_
      by_contra large
      have top := Nat.testBit_of_two_pow_le_and_two_pow_add_one_gt (not_lt.mp large) small
      exact set top

theorem bits_eq_size (xs : List (BitVec w)) : bits xs = (value xs).size := by
  induction xs with
  | nil => simp [bits, value]
  | cons x xs ih =>
    have limb := x.isLt
    rw [bits, ih, value]
    by_cases high : value xs = 0
    · rw [high, Nat.size_zero, if_neg (by simp), Nat.mul_zero, Nat.add_zero]
      by_cases zero : x = 0
      · rw [if_neg (by simp [zero]), zero]
        simp
      · have wide : 0 < w := by
          rcases Nat.eq_zero_or_pos w with none' | some'
          · subst none'
            exact absurd (BitVec.eq_nil x) (by simpa using zero)
          · exact some'
        rw [if_pos zero, topBit_spec zero]
        rw [Nat.sub_add_cancel wide]
        exact limb
    · have positive : (value xs).size ≠ 0 := fun none' => high (Nat.size_eq_zero.mp none')
      rw [if_pos positive]
      apply le_antisymm
      · have top := Nat.lt_size.mp (Nat.sub_one_lt positive)
        have place : w + (value xs).size = w + ((value xs).size - 1) + 1 := by omega
        rw [place, Nat.succ_le_iff, Nat.lt_size, pow_add]
        exact le_trans (Nat.mul_le_mul_left _ top) (Nat.le_add_left _ _)
      · rw [Nat.size_le, pow_add]
        have below := Nat.lt_size_self (value xs)
        calc x.toNat + 2 ^ w * value xs < 2 ^ w + 2 ^ w * value xs := Nat.add_lt_add_right limb _
          _ = 2 ^ w * (value xs + 1) := by ring
          _ ≤ 2 ^ w * 2 ^ (value xs).size := Nat.mul_le_mul_left _ below

end Comparison

section Shifts

/-- The bit at a place of the whole number. -/
def bitAt (pn : List (BitVec w)) (n : Nat) : Bool := (pn.getD (n / w) 0#w).getLsbD (n % w)

def orAt (pn : List (BitVec w)) (j : Nat) (x : BitVec w) : List (BitVec w) :=
  pn.modify j (· ||| x)

/-- Each limb goes up by whole limbs; the bits that leave it at the top go to the next. -/
def shiftLeft (a : List (BitVec w)) (shift : Nat) : List (BitVec w) :=
  let k := shift / w
  let s := shift % w
  (List.range a.length).foldl (fun pn i =>
    let pn := if i + k + 1 < a.length ∧ s ≠ 0 then orAt pn (i + k + 1) (a.getD i 0#w >>> (w - s))
      else pn
    if i + k < a.length then orAt pn (i + k) (a.getD i 0#w <<< s) else pn)
    (List.replicate a.length 0#w)

/-- Each limb goes down by whole limbs; the bits that leave it at the bottom go to the one
    below. -/
def shiftRight (a : List (BitVec w)) (shift : Nat) : List (BitVec w) :=
  let k := shift / w
  let s := shift % w
  (List.range a.length).foldl (fun pn i =>
    let pn := if k + 1 ≤ i ∧ s ≠ 0 then orAt pn (i - k - 1) (a.getD i 0#w <<< (w - s)) else pn
    if k ≤ i then orAt pn (i - k) (a.getD i 0#w >>> s) else pn)
    (List.replicate a.length 0#w)

@[simp] theorem length_orAt (pn : List (BitVec w)) (j : Nat) (x : BitVec w) :
    (orAt pn j x).length = pn.length := by
  simp [orAt]

theorem testBit_value (wide : 0 < w) (xs : List (BitVec w)) (n : Nat) :
    (value xs).testBit n = bitAt xs n := by
  unfold bitAt
  induction xs generalizing n with
  | nil => simp [value]
  | cons x xs ih =>
    rw [value, Nat.add_comm, Nat.testBit_two_pow_mul_add _ x.isLt]
    by_cases low : n < w
    · rw [if_pos low, Nat.div_eq_of_lt low, Nat.mod_eq_of_lt low]
      rfl
    · have place : n / w = (n - w) / w + 1 := by
        rw [← Nat.sub_add_cancel (not_lt.mp low), Nat.add_div_right _ wide]
        simp
      have digit : (n - w) % w = n % w := (Nat.mod_eq_sub_mod (not_lt.mp low)).symm
      rw [if_neg low, ih, place, digit, List.getD_cons_succ]

variable {pn : List (BitVec w)} {n : Nat}

theorem bitAt_orAt (inside : n / w < pn.length) (j : Nat) (x : BitVec w) : bitAt (orAt pn j x) n =
      (bitAt pn n || (decide (n / w = j) && x.getLsbD (n % w))) := by
  unfold bitAt orAt
  rw [List.getD_eq_getElem?_getD, List.getD_eq_getElem?_getD, List.getElem?_modify,
    List.getElem?_eq_getElem inside]
  by_cases here : n / w = j
  · simp [here]
  · have other : j ≠ n / w := fun same => here same.symm
    simp [here, other]

@[simp] theorem bitAt_zero (count n : Nat) : bitAt (List.replicate count 0#w) n = false := by
  unfold bitAt
  rw [List.getD_eq_getElem?_getD, List.getElem?_replicate]
  split <;> simp

theorem bitAt_orIf (inside : n / w < pn.length) (here : Prop) [Decidable here] (j : Nat)
    (x : BitVec w) :
    bitAt (if here then orAt pn j x else pn) n =
      (bitAt pn n || (decide (here ∧ n / w = j) && x.getLsbD (n % w))) := by
  by_cases true' : here
  · rw [if_pos true', bitAt_orAt inside]
    simp [true']
  · rw [if_neg true']
    simp [true']

theorem add_digits (wide : 0 < w) (m shift : Nat) :
    (m % w + shift % w < w ∧ (m + shift) / w = m / w + shift / w ∧
        (m + shift) % w = m % w + shift % w) ∨
      (w ≤ m % w + shift % w ∧ (m + shift) / w = m / w + shift / w + 1 ∧
        (m + shift) % w + w = m % w + shift % w) := by
  rcases Nat.lt_or_ge (m % w + shift % w) w with fits | carries
  · refine Or.inl ⟨fits, ?_, Nat.add_mod_of_add_mod_lt fits⟩
    rw [Nat.add_div wide, if_neg (not_le.mpr fits), Nat.add_zero]
  · refine Or.inr ⟨carries, ?_, Nat.add_mod_add_of_le_add_mod carries⟩
    rw [Nat.add_div wide, if_pos carries]

theorem raised (wide : 0 < w) (a : List (BitVec w)) (shift i : Nat) (inside : n / w < a.length) :
    (decide ((i + shift / w + 1 < a.length ∧ shift % w ≠ 0) ∧ n / w = i + shift / w + 1) &&
        (a.getD i 0#w >>> (w - shift % w)).getLsbD (n % w) ||
      decide (i + shift / w < a.length ∧ n / w = i + shift / w) &&
        (a.getD i 0#w <<< (shift % w)).getLsbD (n % w)) =
      (decide (shift ≤ n ∧ (n - shift) / w = i) && bitAt a (n - shift)) := by
  have below := Nat.mod_lt n wide
  have room := Nat.mod_lt shift wide
  rw [BitVec.getLsbD_ushiftRight, BitVec.getLsbD_shiftLeft]
  by_cases le : shift ≤ n
  · obtain ⟨m, rfl⟩ := Nat.exists_eq_add_of_le' le
    have digit := Nat.mod_lt m wide
    unfold bitAt
    rcases add_digits wide m shift with ⟨fits, place, rest⟩ | ⟨carries, place, rest⟩
    · have gone : (a.getD i 0#w).getLsbD (w - shift % w + (m + shift) % w) = false :=
        BitVec.getLsbD_of_ge _ _ (by omega)
      have bit : (m + shift) % w - shift % w = m % w := by omega
      have whole : ¬(m + shift) % w < shift % w := by omega
      have target : decide (i + shift / w < a.length ∧ (m + shift) / w = i + shift / w) =
          decide (shift ≤ m + shift ∧ m / w = i) := decide_eq_decide.mpr (by omega)
      rw [gone, Bool.and_false, Bool.false_or, bit, decide_eq_true below,
        decide_eq_false whole, target]
      by_cases here : m / w = i
      · simp [here]
      · simp [here]
    · have bit : w - shift % w + (m + shift) % w = m % w := by omega
      have part : (m + shift) % w < shift % w := by omega
      have target : decide ((i + shift / w + 1 < a.length ∧ shift % w ≠ 0) ∧
          (m + shift) / w = i + shift / w + 1) = decide (shift ≤ m + shift ∧ m / w = i) :=
        decide_eq_decide.mpr (by omega)
      rw [bit, decide_eq_true part, target]
      by_cases here : m / w = i
      · simp [here]
      · simp [here]
  · have quotient := Nat.div_le_div_right (c := w) (le_of_not_ge le)
    have first : ¬((i + shift / w + 1 < a.length ∧ shift % w ≠ 0) ∧ n / w = i + shift / w + 1) := by
      omega
    have second : (i + shift / w < a.length ∧ n / w = i + shift / w) → n % w < shift % w := by
      rintro ⟨-, place⟩
      have same : n / w = shift / w := by omega
      have left := Nat.div_add_mod n w
      have right := Nat.div_add_mod shift w
      rw [same] at left
      omega
    rw [decide_eq_false first, decide_eq_false (show ¬(shift ≤ n ∧ _) from fun both => le both.1)]
    by_cases clause : i + shift / w < a.length ∧ n / w = i + shift / w
    · simp [second clause]
    · simp [clause]

theorem lowered (wide : 0 < w) (a : List (BitVec w)) (shift i n : Nat) :
    (decide ((shift / w + 1 ≤ i ∧ shift % w ≠ 0) ∧ n / w = i - shift / w - 1) &&
        (a.getD i 0#w <<< (w - shift % w)).getLsbD (n % w) ||
      decide (shift / w ≤ i ∧ n / w = i - shift / w) &&
        (a.getD i 0#w >>> (shift % w)).getLsbD (n % w)) =
      (decide ((n + shift) / w = i) && bitAt a (n + shift)) := by
  have below := Nat.mod_lt n wide
  have room := Nat.mod_lt shift wide
  rw [BitVec.getLsbD_ushiftRight, BitVec.getLsbD_shiftLeft]
  unfold bitAt
  rcases add_digits wide n shift with ⟨fits, place, rest⟩ | ⟨carries, place, rest⟩
  · have part : n % w < w - shift % w := by omega
    have target : decide (shift / w ≤ i ∧ n / w = i - shift / w) =
        decide ((n + shift) / w = i) := by
      rw [place, decide_eq_decide]
      generalize n / w = quotient
      omega
    rw [decide_eq_true part, rest, target, Nat.add_comm (shift % w)]
    by_cases here : (n + shift) / w = i
    · simp [here]
    · simp [here]
  · have gone : (a.getD i 0#w).getLsbD (shift % w + n % w) = false :=
      BitVec.getLsbD_of_ge _ _ (by omega)
    have whole : ¬n % w < w - shift % w := by omega
    have bit : n % w - (w - shift % w) = (n + shift) % w := by omega
    have target : decide ((shift / w + 1 ≤ i ∧ shift % w ≠ 0) ∧ n / w = i - shift / w - 1) =
        decide ((n + shift) / w = i) := by
      rw [place, decide_eq_decide]
      generalize n / w = quotient
      omega
    rw [gone, Bool.and_false, Bool.or_false, bit, decide_eq_true below, decide_eq_false whole,
      target]
    by_cases here : (n + shift) / w = i
    · simp [here]
    · simp [here]

theorem gathered {length : Nat} {step : List (BitVec w) → Nat → List (BitVec w)}
    {source : Nat → Nat} {bit : Nat → Bool}
    (keeps : ∀ pn i, pn.length = length → (step pn i).length = length)
    (adds : ∀ pn i n, pn.length = length → n / w < length →
      bitAt (step pn i) n = (bitAt pn n || decide (source n = i) && bit n)) (count : Nat) :
    ((List.range count).foldl step (List.replicate length 0#w)).length = length ∧
      ∀ n, n / w < length →
        bitAt ((List.range count).foldl step (List.replicate length 0#w)) n =
          (decide (source n < count) && bit n) := by
  induction count with
  | zero => simp
  | succ count ih =>
    obtain ⟨whole, before⟩ := ih
    rw [List.range_succ, List.foldl_append, List.foldl_cons, List.foldl_nil]
    refine ⟨keeps _ count whole, fun n inside => ?_⟩
    rw [adds _ count n whole inside, before n inside]
    by_cases earlier : source n < count
    · simp [earlier, Nat.lt_succ_of_lt earlier, Nat.ne_of_lt earlier]
    · by_cases here : source n = count
      · simp [here]
      · have later : ¬source n < count + 1 := by omega
        simp [earlier, here, later]

theorem bitAt_ge (beyond : pn.length ≤ n / w) :
    bitAt pn n = false := by
  unfold bitAt
  rw [List.getD_eq_getElem?_getD, List.getElem?_eq_none beyond]
  simp

section
variable (wide : 0 < w) (a : List (BitVec w)) (shift : Nat)
include wide a shift

theorem shiftLeft_gathered :
    (shiftLeft a shift).length = a.length ∧ ∀ n, n / w < a.length →
      bitAt (shiftLeft a shift) n =
        (decide ((n - shift) / w < a.length) && (decide (shift ≤ n) && bitAt a (n - shift))) := by
  unfold shiftLeft
  refine gathered (fun pn i whole => ?_) (fun pn i n whole inside => ?_) a.length
  · split <;> split <;> simp [whole]
  · have first : n / w < pn.length := by rw [whole]; exact inside
    have second : n / w < (if i + shift / w + 1 < a.length ∧ shift % w ≠ 0 then
        orAt pn (i + shift / w + 1) (a.getD i 0#w >>> (w - shift % w)) else pn).length := by
      split
      · rw [length_orAt]
        exact first
      · exact first
    rw [bitAt_orIf second, bitAt_orIf first, Bool.or_assoc, raised wide a shift i inside]
    by_cases le : shift ≤ n <;> simp [le]

theorem shiftRight_gathered :
    (shiftRight a shift).length = a.length ∧ ∀ n, n / w < a.length →
      bitAt (shiftRight a shift) n =
        (decide ((n + shift) / w < a.length) && bitAt a (n + shift)) := by
  unfold shiftRight
  refine gathered (fun pn i whole => ?_) (fun pn i n whole inside => ?_) a.length
  · split <;> split <;> simp [whole]
  · have first : n / w < pn.length := by rw [whole]; exact inside
    have second : n / w < (if shift / w + 1 ≤ i ∧ shift % w ≠ 0 then
        orAt pn (i - shift / w - 1) (a.getD i 0#w <<< (w - shift % w)) else pn).length := by
      split
      · rw [length_orAt]
        exact first
      · exact first
    rw [bitAt_orIf second, bitAt_orIf first, Bool.or_assoc, lowered wide a shift i n]

theorem length_shiftLeft :
    (shiftLeft a shift).length = a.length := (shiftLeft_gathered wide a shift).1

theorem length_shiftRight :
    (shiftRight a shift).length = a.length := (shiftRight_gathered wide a shift).1

theorem value_shiftLeft : value (shiftLeft a shift) = value a * 2 ^ shift % 2 ^ (w * a.length) := by
  obtain ⟨length, bitsThere⟩ := shiftLeft_gathered wide a shift
  apply Nat.eq_of_testBit_eq
  intro n
  rw [testBit_value wide, Nat.testBit_mod_two_pow, Nat.mul_comm (value a),
    Nat.testBit_two_pow_mul, testBit_value wide]
  have width : n < w * a.length ↔ n / w < a.length := by
    rw [Nat.div_lt_iff_lt_mul wide, Nat.mul_comm]
  by_cases inside : n / w < a.length
  · have source : (n - shift) / w < a.length :=
      lt_of_le_of_lt (Nat.div_le_div_right (Nat.sub_le n shift)) inside
    rw [bitsThere n inside, decide_eq_true source, decide_eq_true (width.mpr inside)]
  · rw [bitAt_ge (by omega), decide_eq_false fun low => inside (width.mp low), Bool.false_and]

theorem value_shiftRight : value (shiftRight a shift) = value a / 2 ^ shift := by
  obtain ⟨length, bitsThere⟩ := shiftRight_gathered wide a shift
  apply Nat.eq_of_testBit_eq
  intro n
  rw [testBit_value wide, Nat.testBit_div_two_pow, testBit_value wide]
  by_cases inside : n / w < a.length
  · rw [bitsThere n inside]
    by_cases source : (n + shift) / w < a.length
    · rw [decide_eq_true source, Bool.true_and]
    · have beyond : bitAt a (n + shift) = false := bitAt_ge (by omega)
      rw [beyond, Bool.and_false]
  · have further : n / w ≤ (n + shift) / w := Nat.div_le_div_right (Nat.le_add_right n shift)
    have beyond : bitAt a (n + shift) = false := bitAt_ge (by omega)
    rw [bitAt_ge (by omega), beyond]

end

theorem bitAt_bit (wide : 0 < w) (bit n : Nat) :
    (decide (n / w = bit / w) && (1#w <<< (bit % w)).getLsbD (n % w)) = decide (bit = n) := by
  have digit := Nat.mod_lt n wide
  have left := Nat.div_add_mod n w
  have right := Nat.div_add_mod bit w
  rw [BitVec.getLsbD_shiftLeft, BitVec.getLsbD_one, decide_eq_true digit, decide_eq_true wide]
  by_cases same : bit = n
  · simp [same]
  · by_cases place : n / w = bit / w
    · rw [place] at left
      by_cases below : n % w < bit % w
      · simp [same, below]
      · have above : n % w - bit % w ≠ 0 := by omega
        simp [same, above]
    · simp [same, place]

theorem value_orBit (wide : 0 < w) {bit : Nat} (inside : bit / w < pn.length) {high : Nat}
    (clear : value pn = 2 ^ (bit + 1) * high) :
    value (orAt pn (bit / w) (1#w <<< (bit % w))) = value pn + 2 ^ bit := by
  have less : 2 ^ bit < 2 ^ (bit + 1) := Nat.pow_lt_pow_right (by decide) (Nat.lt_succ_self bit)
  rw [clear, Nat.two_pow_add_eq_or_of_lt less, ← clear]
  apply Nat.eq_of_testBit_eq
  intro n
  rw [Nat.testBit_or, Nat.testBit_two_pow, testBit_value wide, testBit_value wide]
  by_cases within : n / w < pn.length
  · rw [bitAt_orAt within, bitAt_bit wide]
  · have apart : bit ≠ n := fun same => within (same ▸ inside)
    rw [bitAt_ge (by rw [length_orAt]; omega), bitAt_ge (by omega), decide_eq_false apart]
    rfl

end Shifts

section Division

/-- Subtract the divisor at each place from some place down, where it is not larger: the
    quotient's bits and what is left. -/
def divideFrom (d : Nat) : Nat → Nat → Nat → Nat × Nat
  | 0, num, quotient => (quotient, num)
  | shift + 1, num, quotient =>
    if d * 2 ^ shift ≤ num then divideFrom d shift (num - d * 2 ^ shift) (quotient + 2 ^ shift)
    else divideFrom d shift num quotient

theorem divideFrom_spec {d shift num : Nat} (small : num < d * 2 ^ shift) (quotient : Nat) :
    divideFrom d shift num quotient = (quotient + num / d, num % d) := by
  induction shift generalizing num quotient with
  | zero =>
    rw [pow_zero, Nat.mul_one] at small
    rw [divideFrom, Nat.div_eq_of_lt small, Nat.mod_eq_of_lt small, Nat.add_zero]
  | succ shift ih =>
    have positive : 0 < d := Nat.pos_of_mul_pos_right (lt_of_le_of_lt (Nat.zero_le _) small)
    rw [divideFrom]
    by_cases fits : d * 2 ^ shift ≤ num
    · have double : d * 2 ^ (shift + 1) = d * 2 ^ shift + d * 2 ^ shift := by
        ring
      have whole : num = num - d * 2 ^ shift + d * 2 ^ shift := (Nat.sub_add_cancel fits).symm
      have quotients : num / d = (num - d * 2 ^ shift) / d + 2 ^ shift := by
        rw [whole, Nat.add_mul_div_left _ _ positive, Nat.add_sub_cancel]
      have remainders : num % d = (num - d * 2 ^ shift) % d := by
        rw [whole, Nat.add_mul_mod_self_left, Nat.add_sub_cancel]
      rw [if_pos fits, ih (by omega), quotients, remainders, Nat.add_assoc,
        Nat.add_comm (2 ^ shift)]
    · rw [if_neg fits, ih (not_le.mp fits)]

end Division

end Limbs
