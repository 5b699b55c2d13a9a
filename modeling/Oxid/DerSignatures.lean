import Oxid.Library.Der
import Oxid.SignatureEncoding

/-!
The signatures whose encoding is valid.
-/
namespace OxidDerSignatures
open OxidScriptNum OxidSignatureEncoding

def layout (compound total tagR lenR : UInt8) (R : List UInt8) (tagS lenS : UInt8)
    (S : List UInt8) (hashType : UInt8) : Element :=
  compound :: total :: tagR :: lenR :: (R ++ tagS :: lenS :: (S ++ [hashType]))

theorem signBit_low (byte : UInt8) : signBit byte = false ↔ byte < 0x80 := by
  rw [← Bool.not_eq_true, signBit_iff, UInt8.lt_iff_toNat_lt, Nat.not_le]
  rfl

theorem signBit_high (byte : UInt8) : signBit byte = true ↔ 0x80 ≤ byte := by
  rw [signBit_iff, UInt8.le_iff_toNat_le]
  rfl

theorem isDerInteger_iff (before body after : Element) (tag size : UInt8) :
    isDerInteger (before ++ tag :: size :: (body ++ after)) (before.length + 2) body.length =
        some true ↔ tag = 0x02 ∧ Der.Minimal body := by
  have tagged : (before ++ tag :: size :: (body ++ after))[before.length + 2 - 2]? = some tag := by
    simp
  have inner (n : Nat) : (before ++ tag :: size :: (body ++ after))[before.length + 2 + n]? =
      (body ++ after)[n]? := by
    rw [List.getElem?_append_right (by omega),
      show before.length + 2 + n - before.length = n + 2 by omega]
    rfl
  unfold isDerInteger
  rw [tagged, Option.bind_some, passes_true, passes_true, beq_iff_eq]
  cases body with
  | nil => simp [Der.Minimal]
  | cons head rest =>
    have first : (before ++ tag :: size :: (head :: rest ++ after))[before.length + 2]? =
        some head := inner 0
    rw [first, Option.bind_some, passes_true]
    cases rest with
    | nil => simp [Der.Minimal, signBit_low]
    | cons second later =>
      have next : (before ++ tag :: size :: (head :: second :: later ++ after))[
          before.length + 2 + 1]? = some second := inner 1
      rw [next, Option.bind_some]
      by_cases zero : head = 0
      · simp [Der.Minimal, zero, signBit_high, signBit_low]
      · simp [Der.Minimal, zero, signBit_low]

theorem bind_passes {first next : Option Bool} :
    (first.bind fun valid => passes valid next) = some true ↔
      first = some true ∧ next = some true := by
  cases first with
  | none => simp
  | some valid => simp [passes_true]

theorem valid_layout (compound total tagR lenR tagS lenS hashType : UInt8) (R S : List UInt8)
    (sizeR : R.length = lenR.toNat) (sizeS : S.length = lenS.toNat) :
    isValidSignatureEncoding (layout compound total tagR lenR R tagS lenS S hashType) = some true ↔
      9 ≤ R.length + S.length + 7 ∧ R.length + S.length + 7 ≤ 73 ∧ compound = 0x30 ∧
        total.toNat = R.length + S.length + 4 ∧ (tagR = 0x02 ∧ Der.Minimal R) ∧
        tagS = 0x02 ∧ Der.Minimal S := by
  have size : (layout compound total tagR lenR R tagS lenS S hashType).length =
      R.length + S.length + 7 := by
    simp [layout]
    omega
  have third : (layout compound total tagR lenR R tagS lenS S hashType)[3]? = some lenR := rfl
  have fifth : (layout compound total tagR lenR R tagS lenS S hashType)[5 + lenR.toNat]? =
      some lenS := by
    simp [layout, ← sizeR, show 5 + R.length = R.length + 1 + 1 + 1 + 1 + 1 by omega]
  have integerR : isDerInteger (layout compound total tagR lenR R tagS lenS S hashType) 4
      lenR.toNat = some true ↔ tagR = 0x02 ∧ Der.Minimal R := by
    rw [← sizeR]
    exact isDerInteger_iff [compound, total] R (tagS :: lenS :: (S ++ [hashType])) tagR lenR
  have integerS : isDerInteger (layout compound total tagR lenR R tagS lenS S hashType)
      (lenR.toNat + 6) lenS.toNat = some true ↔ tagS = 0x02 ∧ Der.Minimal S := by
    have apart := isDerInteger_iff (compound :: total :: tagR :: lenR :: R) S [hashType] tagS lenS
    rw [← sizeR, ← sizeS]
    exact apart
  have opening : (layout compound total tagR lenR R tagS lenS S hashType)[0]? = some compound := rfl
  have second : (layout compound total tagR lenR R tagS lenS S hashType)[1]? = some total := rfl
  unfold isValidSignatureEncoding
  simp only [opening, second, third, Option.bind_some, fifth, passes_true, bind_passes, integerR,
    integerS, size, decide_eq_true_eq, beq_iff_eq]
  constructor
  · rintro ⟨least, most, sequence, total, _, _, validR, validS⟩
    exact ⟨least, most, sequence, by omega, validR, validS⟩
  · rintro ⟨least, most, sequence, total, validR, validS⟩
    exact ⟨least, most, sequence, by omega, by omega, by omega, validR, validS⟩

theorem valid_taken {sig : Element} (valid : isValidSignatureEncoding sig = some true) :
    ∃ compound total tagR lenR R tagS lenS S hashType, R.length = UInt8.toNat lenR ∧
      S.length = UInt8.toNat lenS ∧
        sig = layout compound total tagR lenR R tagS lenS S hashType := by
  unfold isValidSignatureEncoding at valid
  simp only [passes_true, Option.bind_eq_some_iff, decide_eq_true_eq, beq_iff_eq] at valid
  obtain ⟨least, most, compound, opening, _, total, second, _, lenR, third, within, lenS, fifth,
    whole, _⟩ := valid
  match sig, least, third with
  | a :: b :: c :: d :: rest, least, third =>
    have same : d = lenR := by simpa using third
    subst same
    obtain ⟨R, later, rfl, sizeR⟩ : ∃ R later, rest = R ++ later ∧ R.length = d.toNat :=
      ⟨rest.take d.toNat, rest.drop d.toNat, (List.take_append_drop _ _).symm, by
        simp at within ⊢
        omega⟩
    simp only [List.length_cons, List.length_append] at whole
    have remaining : later.length = lenS.toNat + 3 := by omega
    match later, remaining with
    | tagS :: last :: tail, remaining =>
      have length : last = lenS := by
        simpa [← sizeR, show 5 + R.length = R.length + 1 + 1 + 1 + 1 + 1 by omega] using fifth
      subst length
      obtain ⟨S, hashType, rfl⟩ := List.eq_nil_or_concat tail |>.resolve_left (by
        rintro rfl
        simp at remaining)
      refine ⟨a, b, c, d, R, tagS, last, S, hashType, sizeR, ?_, ?_⟩
      · simpa using remaining
      · simp [layout]

def encoded (R S : Nat) : List UInt8 := Der.sequence [Der.integer R, Der.integer S]

theorem encoded_layout {R S : Nat} (hashType : UInt8)
    (short : (Der.contents R).length + (Der.contents S).length + 4 < 128) :
    encoded R S ++ [hashType] =
      layout 0x30 (UInt8.ofNat ((Der.contents R).length + (Der.contents S).length + 4)) 0x02
        (UInt8.ofNat (Der.contents R).length) (Der.contents R) 0x02
        (UInt8.ofNat (Der.contents S).length) (Der.contents S) hashType := by
  have sizeR := @Der.length_short (Der.contents R).length (by omega)
  have sizeS := @Der.length_short (Der.contents S).length (by omega)
  have size : (Der.integer R ++ Der.integer S).length =
      (Der.contents R).length + (Der.contents S).length + 4 := by
    simp [Der.integer, Der.tagged, sizeR, sizeS]
    omega
  rw [encoded, Der.sequence, List.flatten_cons, List.flatten_cons, List.flatten_nil,
    List.append_nil, Der.tagged, size, Der.length_short short]
  simp [layout, Der.integer, Der.tagged, sizeR, sizeS]

theorem encoded_length (R S : Nat) (hashType : UInt8) :
    (Der.contents R).length + (Der.contents S).length + 7 ≤ (encoded R S ++ [hashType]).length := by
  have positive (size : Nat) : 1 ≤ (Der.length size).length := by
    unfold Der.length
    split <;> simp
  have sizeR := positive (Der.contents R).length
  have sizeS := positive (Der.contents S).length
  have whole := positive (Der.integer R ++ Der.integer S).length
  simp only [encoded, Der.sequence, Der.integer, Der.tagged, List.flatten_cons, List.flatten_nil,
    List.append_nil, List.length_append, List.length_cons, List.length_nil] at whole ⊢
  omega

/-- Valid are the encodings of two integers with a byte behind, in the sizes of signatures; and
    whatever the bytes are, none is read outside them. -/
theorem valid_iff_encoded (sig : Element) : (isValidSignatureEncoding sig).isSome = true ∧
    (isValidSignatureEncoding sig = some true ↔
      ∃ R S hashType, sig = encoded R S ++ [hashType] ∧ 9 ≤ sig.length ∧ sig.length ≤ 73) := by
  refine ⟨isValidSignatureEncoding_defined sig, ?_⟩
  constructor
  · intro valid
    obtain ⟨compound, total, tagR, lenR, R, tagS, lenS, S, hashType, sizeR, sizeS, rfl⟩ :=
      valid_taken valid
    obtain ⟨least, most, rfl, whole, ⟨rfl, minimalR⟩, rfl, minimalS⟩ :=
      (valid_layout _ _ _ _ _ _ _ _ _ sizeR sizeS).mp valid
    obtain ⟨r, rfl⟩ := (Der.minimal_iff R).mp minimalR
    obtain ⟨s, rfl⟩ := (Der.minimal_iff S).mp minimalS
    refine ⟨r, s, hashType, ?_, ?_, ?_⟩
    · rw [encoded_layout hashType (by omega), ← whole, sizeR, sizeS]
      simp
    · simp [layout]
      omega
    · simp [layout]
      omega
  · rintro ⟨r, s, hashType, rfl, least, most⟩
    have size := encoded_length r s hashType
    have small (n : Nat) (fits : n < 256) : (UInt8.ofNat n).toNat = n := by
      rw [UInt8.toNat_ofNat', Nat.mod_eq_of_lt fits]
    rw [encoded_layout hashType (by omega)] at least ⊢
    rw [valid_layout _ _ _ _ _ _ _ _ _ (small _ (by omega)).symm (small _ (by omega)).symm,
      small _ (by omega)]
    simp only [layout, List.length_cons, List.length_append, List.length_nil] at least
    exact ⟨by omega, by omega, rfl, rfl, ⟨rfl, (Der.minimal_iff _).mpr ⟨r, rfl⟩⟩, rfl,
      (Der.minimal_iff _).mpr ⟨s, rfl⟩⟩

end OxidDerSignatures
