import Mathlib.Data.List.TakeWhile

/-!
What the text functions of the node take from the C library: a text ends at the first zero
byte, and the C locale tells spaces and digits.
-/
namespace OxidCStrings

def isspace (c : Char) : Bool :=
  c == ' ' || c == '\t' || c == '\n' || c == '\x0b' || c == '\x0c' || c == '\r'

def cStr (str : List Char) : List Char := str.takeWhile (· != '\x00')

def Surrounds (str text : List Char) : Prop :=
  ∃ before after, str = before ++ text ++ after ∧
    (∀ c ∈ before, isspace c = true) ∧ ∀ c ∈ after, isspace c = true

theorem cStr_self {str : List Char} (whole : '\x00' ∉ str) : cStr str = str := by
  unfold cStr
  rw [List.takeWhile_eq_self_iff]
  intro c member
  rw [bne_iff_ne]
  intro zero
  exact whole (zero ▸ member)

theorem cStr_whole (str : List Char) : '\x00' ∉ cStr str := by
  intro member
  simpa using List.mem_takeWhile_imp member

theorem isspace_not_digit {c : Char} (space : isspace c = true) : c.isDigit = false := by
  simp only [isspace, Bool.or_eq_true, beq_iff_eq] at space
  rcases space with ((((rfl | rfl) | rfl) | rfl) | rfl) | rfl <;> rfl

theorem isspace_not_point {c : Char} (space : isspace c = true) : c ≠ '.' := by
  rintro rfl
  cases space

theorem digit_not_space {c : Char} (digit : c.isDigit = true) : isspace c = false := by
  by_contra space
  rw [isspace_not_digit (by simpa using space)] at digit
  cases digit

theorem skip_spaces {before text : List Char} (spaces : ∀ c ∈ before, isspace c = true)
    (begins : ∀ c ∈ text.head?, isspace c = false) :
    (before ++ text).dropWhile isspace = text := by
  rw [List.dropWhile_append_of_pos spaces]
  cases text with
  | nil => rfl
  | cons c rest => exact List.dropWhile_cons_of_neg (by simpa using begins c rfl)

theorem skip_all {spaces : List Char} (all : ∀ c ∈ spaces, isspace c = true) :
    spaces.dropWhile isspace = [] :=
  List.dropWhile_eq_nil_iff.mpr all

end OxidCStrings
