import Mathlib.Data.Nat.Bitwise
import Mathlib.Tactic.Ring

/-!
Fields of one width packed into a number, the first one highest, and read back by a
shift and a remainder.
-/
namespace Packing

variable {width : Nat}

def packFrom (width : Nat) : Nat → List Nat → Nat
  | packed, [] => packed
  | packed, field :: rest => packFrom width (packed <<< width ||| field) rest

theorem packFrom_append (packed : Nat) (front back : List Nat) :
    packFrom width packed (front ++ back) = packFrom width (packFrom width packed front) back := by
  induction front generalizing packed with
  | nil => rfl
  | cons field rest ih => exact ih _

variable {field : Nat}

theorem pushed_eq (packed : Nat) (fits : field < 2 ^ width) :
    packed <<< width ||| field = packed * 2 ^ width + field := by
  rw [← Nat.shiftLeft_add_eq_or_of_lt fits, Nat.shiftLeft_eq]

theorem pushed_shiftRight (packed : Nat) (fits : field < 2 ^ width) :
    (packed <<< width ||| field) >>> width = packed := by
  have positive := Nat.two_pow_pos width
  rw [pushed_eq packed fits, Nat.shiftRight_eq_div_pow, Nat.mul_comm,
    Nat.mul_add_div positive, Nat.div_eq_of_lt fits, Nat.add_zero]

theorem pushed_mod (packed : Nat) (fits : field < 2 ^ width) :
    (packed <<< width ||| field) % 2 ^ width = field := by
  rw [pushed_eq packed fits, Nat.mul_comm, Nat.mul_add_mod, Nat.mod_eq_of_lt fits]

theorem packFrom_shiftRight (packed : Nat) {back : List Nat}
    (fits : ∀ field ∈ back, field < 2 ^ width) :
    packFrom width packed back >>> (width * back.length) = packed := by
  induction back generalizing packed with
  | nil => simp [packFrom]
  | cons field rest ih =>
    have later := ih (packed <<< width ||| field)
      (fun other member => fits other (List.mem_cons_of_mem _ member))
    have split : width * (field :: rest).length = width * rest.length + width := by
      rw [List.length_cons, Nat.mul_succ]
    rw [split, Nat.shiftRight_add]
    unfold packFrom
    rw [later, pushed_shiftRight packed (fits field List.mem_cons_self)]

theorem field_at (packed : Nat) {front back : List Nat}
    (fits : ∀ other ∈ front ++ field :: back, other < 2 ^ width) :
    (packFrom width packed (front ++ field :: back) >>> (width * back.length)) % 2 ^ width =
      field := by
  have here : field < 2 ^ width := fits field (by simp)
  have behind : ∀ other ∈ back, other < 2 ^ width := by
    intro other member
    exact fits other (by simp [member])
  rw [packFrom_append]
  unfold packFrom
  rw [packFrom_shiftRight _ behind, pushed_mod _ here]

theorem toNat_foldl {bits : Nat} {fields : List Nat} {word : BitVec bits}
    (fits : ∀ field ∈ fields, field < 2 ^ width)
    (room : word.toNat * 2 ^ (width * fields.length) + 2 ^ (width * fields.length) ≤ 2 ^ bits) :
    (fields.foldl (fun (packed : BitVec bits) field =>
        packed <<< width ||| BitVec.ofNat bits field) word).toNat =
      packFrom width word.toNat fields := by
  induction fields generalizing word with
  | nil => rfl
  | cons field rest ih =>
    have here := fits field List.mem_cons_self
    have positive := Nat.two_pow_pos (width * rest.length)
    have split : 2 ^ (width * (field :: rest).length) = 2 ^ (width * rest.length) * 2 ^ width := by
      rw [List.length_cons, Nat.mul_succ, Nat.pow_add]
    have room' : (word.toNat * 2 ^ width + 2 ^ width) * 2 ^ (width * rest.length) ≤ 2 ^ bits := by
      rw [split] at room
      have same : (word.toNat * 2 ^ width + 2 ^ width) * 2 ^ (width * rest.length) =
          word.toNat * (2 ^ (width * rest.length) * 2 ^ width) +
            2 ^ (width * rest.length) * 2 ^ width := by ring
      omega
    have whole : word.toNat * 2 ^ width + 2 ^ width ≤ 2 ^ bits :=
      Nat.le_trans (Nat.le_mul_of_pos_right _ positive) room'
    have pushed : (word <<< width ||| BitVec.ofNat bits field).toNat =
        word.toNat <<< width ||| field := by
      rw [BitVec.toNat_or, BitVec.toNat_shiftLeft, BitVec.toNat_ofNat,
        Nat.mod_eq_of_lt (by rw [Nat.shiftLeft_eq]; omega), Nat.mod_eq_of_lt (by omega)]
    rw [List.foldl_cons, ih (fun other member => fits other (List.mem_cons_of_mem _ member)),
      pushed]
    · rfl
    · rw [pushed, pushed_eq _ here]
      have less : (word.toNat * 2 ^ width + field + 1) * 2 ^ (width * rest.length) ≤
          (word.toNat * 2 ^ width + 2 ^ width) * 2 ^ (width * rest.length) :=
        Nat.mul_le_mul_right _ (by omega)
      have same : (word.toNat * 2 ^ width + field) * 2 ^ (width * rest.length) +
          2 ^ (width * rest.length) =
            (word.toNat * 2 ^ width + field + 1) * 2 ^ (width * rest.length) := by ring
      omega

end Packing
