import Mathlib.Data.Set.Function
import Oxid.Compressor
import Oxid.Node

/-!
What the compressed forms of amounts and scripts give back. The special codes stand for the
scripts of four forms and for no others.
-/
namespace OxidCompressedForms
open OxidPrimitives OxidChainParams OxidNode OxidScript OxidCompressor Serialize VarInts

section Amounts

def moneyAmounts (params : ChainParams) : Set UInt64 :=
  { nAmount | moneyRange params nAmount.toNat = true }

variable {params : ChainParams} (money : params.nMaxMoneyOut = 89000000 * COIN)
include money

theorem mem_moneyAmounts {nAmount : UInt64} :
    nAmount ∈ moneyAmounts params ↔ nAmount.toNat ≤ 8900000000000000 := by
  have limit : 89000000 * COIN = 8900000000000000 := by decide
  change moneyRange params nAmount.toNat = true ↔ _
  rw [moneyRange, money, limit, Bool.and_eq_true, decide_eq_true_eq, decide_eq_true_eq]
  omega

theorem compressedValue_fits {nAmount : UInt64} (member : nAmount ∈ moneyAmounts params) :
    compressedValue nAmount.toNat < 2 ^ 64 := by
  rw [mem_moneyAmounts money] at member
  have bound := compressedValue_le nAmount.toNat
  omega

/-- In the money range amounts come back, by the arithmetic of the natural numbers, no two
    are compressed to one word, and compressed amounts come back too. -/
theorem compressAmount_exact :
    (∀ nAmount ∈ moneyAmounts params, decompressAmount (compressAmount nAmount) = nAmount ∧
      (compressAmount nAmount).toNat = compressedValue nAmount.toNat ∧
      (decompressAmount (compressAmount nAmount)).toNat =
        decompressedValue (compressAmount nAmount).toNat) ∧
    Set.InjOn compressAmount (moneyAmounts params) ∧
    ∀ x ∈ compressAmount '' moneyAmounts params, compressAmount (decompressAmount x) = x := by
  have back : ∀ nAmount ∈ moneyAmounts params,
      decompressAmount (compressAmount nAmount) = nAmount := fun nAmount member =>
    (decompressAmount_compressed (compressedValue_fits money member)).2
  refine ⟨fun nAmount member => ?_, ?_, ?_⟩
  · have word := (decompressAmount_compressed (compressedValue_fits money member)).1
    refine ⟨back nAmount member, word, ?_⟩
    rw [back nAmount member, word, decompressedValue_compressedValue]
  · intro first firstMember second secondMember same
    rw [← back first firstMember, same, back second secondMember]
  · rintro x ⟨nAmount, member, rfl⟩
    rw [back nAmount member]

end Amounts

theorem mainAmounts_exact :
    (∀ nAmount ∈ moneyAmounts mainParams, decompressAmount (compressAmount nAmount) = nAmount ∧
      (compressAmount nAmount).toNat = compressedValue nAmount.toNat ∧
      (decompressAmount (compressAmount nAmount)).toNat =
        decompressedValue (compressAmount nAmount).toNat) ∧
    Set.InjOn compressAmount (moneyAmounts mainParams) ∧
    ∀ x ∈ compressAmount '' moneyAmounts mainParams, compressAmount (decompressAmount x) = x :=
  compressAmount_exact rfl

section Scripts

variable {keys : PubKeyLibrary}

inductive SpecialForm (keys : PubKeyLibrary) : CScript → Prop
  | toKeyID {keyID : Bytes} (size : keyID.length = 20) :
      SpecialForm keys ([OP_DUP, OP_HASH160, 20] ++ keyID ++ [OP_EQUALVERIFY, OP_CHECKSIG])
  | toScriptID {scriptID : Bytes} (size : scriptID.length = 20) :
      SpecialForm keys ([OP_HASH160, 20] ++ scriptID ++ [OP_EQUAL])
  | toPubKey {header : UInt8} {coordinate : Bytes} (parity : header = 2 ∨ header = 3)
      (size : coordinate.length = 32) :
      SpecialForm keys (33 :: (header :: coordinate) ++ [OP_CHECKSIG])
  | toFullPubKey {coordinates : Bytes} (size : coordinates.length = 64)
      (valid : keys.isFullyValid (4 :: coordinates) = true) :
      SpecialForm keys (65 :: (4 :: coordinates) ++ [OP_CHECKSIG])

variable {script : CScript}

theorem SpecialForm.short (special : SpecialForm keys script) :
    script.length ≤ 67 := by
  cases special with
  | toKeyID size => simp [size]
  | toScriptID size => simp [size]
  | toPubKey _ size => simp [size]
  | toFullPubKey size _ => simp [size]

theorem isToPubKey_special {script pubkey : Bytes} (found : isToPubKey keys script = some pubkey) :
    SpecialForm keys script := by
  obtain ⟨header, whole, ⟨rfl, size, parity⟩ | ⟨rfl, size, full, valid⟩⟩ := isToPubKey_back found
  · cases pubkey with
    | nil => simp at size
    | cons first coordinate =>
      rw [whole]
      exact .toPubKey (by simpa using parity) (by simpa using size)
  · cases pubkey with
    | nil => simp at size
    | cons first coordinates =>
      cases full
      rw [whole]
      exact .toFullPubKey (by simpa using size) valid

theorem isToKeyID_of {keyID : Bytes} (size : keyID.length = 20) :
    isToKeyID ([OP_DUP, OP_HASH160, 20] ++ keyID ++ [OP_EQUALVERIFY, OP_CHECKSIG]) = some keyID := by
  have middle : ([OP_DUP, OP_HASH160, 20] ++ keyID ++ [OP_EQUALVERIFY, OP_CHECKSIG]).drop 3 =
      keyID ++ [OP_EQUALVERIFY, OP_CHECKSIG] := rfl
  unfold isToKeyID
  rw [if_pos ⟨by simp [size], rfl, List.drop_left' (by simp [size])⟩, middle, List.take_left' size]

theorem isToScriptID_of {scriptID : Bytes} (size : scriptID.length = 20) :
    isToScriptID ([OP_HASH160, 20] ++ scriptID ++ [OP_EQUAL]) = some scriptID := by
  have middle : ([OP_HASH160, 20] ++ scriptID ++ [OP_EQUAL]).drop 2 = scriptID ++ [OP_EQUAL] := rfl
  unfold isToScriptID
  rw [if_pos ⟨by simp [size], rfl, List.drop_left' (by simp [size])⟩, middle, List.take_left' size]

theorem isToPubKey_of {header : UInt8} {coordinate : Bytes} (parity : header = 2 ∨ header = 3)
    (size : coordinate.length = 32) :
    isToPubKey keys (33 :: (header :: coordinate) ++ [OP_CHECKSIG]) =
      some (header :: coordinate) := by
  unfold isToPubKey
  have back : (33 :: (header :: coordinate) ++ [OP_CHECKSIG]).drop 34 = [OP_CHECKSIG] :=
    List.drop_left' (by simp [size])
  rw [if_pos ⟨by simp [size], rfl, back, by simpa using parity⟩, List.cons_append, List.drop_one,
    List.tail_cons, List.take_left' (by simp [size])]

theorem isToFullPubKey_of {coordinates : Bytes} (size : coordinates.length = 64)
    (valid : keys.isFullyValid (4 :: coordinates) = true) :
    isToPubKey keys (65 :: (4 :: coordinates) ++ [OP_CHECKSIG]) = some (4 :: coordinates) := by
  unfold isToPubKey
  have back : (65 :: (4 :: coordinates) ++ [OP_CHECKSIG]).drop 66 = [OP_CHECKSIG] :=
    List.drop_left' (by simp [size])
  have pubkey : ((65 :: (4 :: coordinates) ++ [OP_CHECKSIG]).drop 1).take 65 = 4 :: coordinates := by
    rw [List.cons_append, List.drop_one, List.tail_cons, List.take_left' (by simp [size])]
  rw [if_neg fun shape => by simp [size] at shape, if_pos ⟨by simp [size], rfl, back, rfl⟩]
  rw [pubkey, if_pos valid]

theorem isToKeyID_length (other : script.length ≠ 25) :
    isToKeyID script = none := by
  unfold isToKeyID
  rw [if_neg fun shape => other shape.1]

theorem isToScriptID_length (other : script.length ≠ 23) :
    isToScriptID script = none := by
  unfold isToScriptID
  rw [if_neg fun shape => other shape.1]

theorem SpecialForm.compressed (special : SpecialForm keys script) :
    (compress keys script).isSome = true := by
  unfold compress
  cases special with
  | toKeyID size =>
    rw [isToKeyID_of size]
    rfl
  | toScriptID size =>
    rw [isToKeyID_length (by simp [size]), isToScriptID_of size]
    rfl
  | toPubKey parity size =>
    rw [isToKeyID_length (by simp [size]), isToScriptID_length (by simp [size]),
      isToPubKey_of parity size]
    dsimp only
    rw [List.headD_cons, if_pos parity]
    rfl
  | toFullPubKey size valid =>
    rw [isToKeyID_length (by simp [size]), isToScriptID_length (by simp [size]),
      isToFullPubKey_of size valid]
    rfl

theorem compress_isSome_iff (script : CScript) :
    (compress keys script).isSome = true ↔ SpecialForm keys script := by
  refine ⟨fun short => ?_, SpecialForm.compressed⟩
  unfold compress at short
  split at short
  · rename_i keyID found
    obtain ⟨size, whole⟩ := isToKeyID_back found
    exact whole ▸ .toKeyID size
  · split at short
    · rename_i scriptID found
      obtain ⟨size, whole⟩ := isToScriptID_back found
      exact whole ▸ .toScriptID size
    · split at short
      · cases short
      · rename_i pubkey found
        exact isToPubKey_special found

theorem writeScript_generic (generic : ¬SpecialForm keys script) :
    writeScript keys script = writeVarInt (scriptSize script) ++ script := by
  unfold writeScript
  cases short : compress keys script with
  | some compr =>
    exact absurd ((compress_isSome_iff script).mp (by rw [short]; rfl)) generic
  | none => rfl

theorem readScript_long (long : 2 ^ 32 ≤ script.length + nSpecialScripts) (rest : Bytes) :
    scriptSize script + 2 ^ 32 ≤ script.length + nSpecialScripts ∧
      readScript keys (writeScript keys script ++ rest) =
        if scriptSize script < nSpecialScripts then
          (OxidCompressor.readData (getSpecialSize (scriptSize script)) (script ++ rest)).bind
            fun (vch, left) => some ((decompress keys (scriptSize script) vch).getD [], left)
        else OxidCompressor.readData (scriptSize script - nSpecialScripts) (script ++ rest) := by
  have codes : nSpecialScripts = 6 := rfl
  have generic : ¬SpecialForm keys script := fun special => by
    have short := special.short
    omega
  have size : scriptSize script < 2 ^ 32 := Nat.mod_lt _ (by decide)
  constructor
  · unfold scriptSize
    omega
  · rw [writeScript_generic generic, List.append_assoc]
    unfold readScript
    rw [readVarInt_writeVarInt size]
    rfl

theorem readScript_wrapped (long : 2 ^ 32 ≤ script.length + nSpecialScripts) :
    readScript keys (writeScript keys script) ≠ some (script, []) := by
  have codes : nSpecialScripts = 6 := rfl
  obtain ⟨wrapped, reads⟩ := @readScript_long keys script long []
  rw [List.append_nil, List.append_nil] at reads
  rw [reads]
  intro read
  have smaller : getSpecialSize (scriptSize script) ≤ 32 := by
    unfold getSpecialSize
    split
    · decide
    · split <;> decide
  split at read
  · unfold OxidCompressor.readData at read
    rw [if_neg (by omega), Option.bind_some, Option.some.injEq, Prod.mk.injEq] at read
    have rest := congrArg List.length read.2
    rw [List.length_drop, List.length_nil] at rest
    omega
  · unfold OxidCompressor.readData at read
    rw [if_neg (by omega), Option.some.injEq, Prod.mk.injEq] at read
    have rest := congrArg List.length read.2
    rw [List.length_drop, List.length_nil] at rest
    omega

end Scripts

def generator : Bytes :=
  [0x04, 0x79, 0xbe, 0x66, 0x7e, 0xf9, 0xdc, 0xbb, 0xac, 0x55, 0xa0, 0x62, 0x95, 0xce, 0x87, 0x0b,
    0x07, 0x02, 0x9b, 0xfc, 0xdb, 0x2d, 0xce, 0x28, 0xd9, 0x59, 0xf2, 0x81, 0x5b, 0x16, 0xf8, 0x17,
    0x98, 0x48, 0x3a, 0xda, 0x77, 0x26, 0xa3, 0xc4, 0x65, 0x5d, 0xa4, 0xfb, 0xfc, 0x0e, 0x11, 0x08,
    0xa8, 0xfd, 0x17, 0xb4, 0x48, 0xa6, 0x85, 0x54, 0x19, 0x9c, 0x47, 0xd0, 0x8f, 0xfb, 0x10, 0xd4,
    0xb8]

def generatorKeys : PubKeyLibrary where
  isFullyValid key := key == generator
  decompress key := if key = 0x02 :: (generator.drop 1).take 32 then some generator else none

theorem generatorKeys_lawful : generatorKeys.Lawful := by
  intro key _ _ valid
  have same : key = generator := by simpa [generatorKeys] using valid
  rw [same]
  decide +kernel

end OxidCompressedForms
