import Oxid.Library.VarInt
import Oxid.Script

/-!
`CScriptCompressor` and `CTxOutCompressor`: the short forms in which the coins database
keeps outputs, and what is read back from them. The curve arithmetic behind public keys is
a parameter.
-/
namespace OxidCompressor
open OxidPrimitives OxidScript Serialize VarInts

/-- What the node asks of the curve about serialized public keys. -/
structure PubKeyLibrary where
  isFullyValid : Bytes → Bool
  decompress : Bytes → Option Bytes

/-- A full key is the one that its first coordinate and the parity of the other decompress
    to. -/
def PubKeyLibrary.Lawful (keys : PubKeyLibrary) : Prop :=
  ∀ key : Bytes, key.length = 65 → key.head? = some 4 → keys.isFullyValid key = true →
    keys.decompress ((2 + key.getD 64 0 % 2) :: (key.drop 1).take 32) = some key

def nSpecialScripts : Nat := 6

def isToKeyID (script : CScript) : Option Bytes :=
  if script.length = 25 ∧ script.take 3 = [OP_DUP, OP_HASH160, 20] ∧
      script.drop 23 = [OP_EQUALVERIFY, OP_CHECKSIG] then
    some ((script.drop 3).take 20)
  else none

def isToScriptID (script : CScript) : Option Bytes :=
  if script.length = 23 ∧ script.take 2 = [OP_HASH160, 20] ∧ script.drop 22 = [OP_EQUAL] then
    some ((script.drop 2).take 20)
  else none

def isToPubKey (keys : PubKeyLibrary) (script : CScript) : Option Bytes :=
  if script.length = 35 ∧ script.head? = some 33 ∧ script.drop 34 = [OP_CHECKSIG] ∧
      (script[1]? = some 2 ∨ script[1]? = some 3) then
    some ((script.drop 1).take 33)
  else if script.length = 67 ∧ script.head? = some 65 ∧ script.drop 66 = [OP_CHECKSIG] ∧
      script[1]? = some 4 then
    let pubkey := (script.drop 1).take 65
    if keys.isFullyValid pubkey then some pubkey else none
  else none

def compress (keys : PubKeyLibrary) (script : CScript) : Option Bytes :=
  match isToKeyID script with
  | some keyID => some (0x00 :: keyID)
  | none =>
    match isToScriptID script with
    | some scriptID => some (0x01 :: scriptID)
    | none =>
      match isToPubKey keys script with
      | none => none
      | some pubkey =>
        let head := pubkey.headD 0
        if head = 2 ∨ head = 3 then some (head :: (pubkey.drop 1).take 32)
        else if head = 4 then some ((0x04 ||| (pubkey.getD 64 0 &&& 0x01)) :: (pubkey.drop 1).take 32)
        else none

def getSpecialSize (nSize : Nat) : Nat :=
  if nSize = 0 ∨ nSize = 1 then 20
  else if nSize = 2 ∨ nSize = 3 ∨ nSize = 4 ∨ nSize = 5 then 32
  else 0

def decompress (keys : PubKeyLibrary) (nSize : Nat) (payload : Bytes) : Option CScript :=
  match nSize with
  | 0 => some ([OP_DUP, OP_HASH160, 20] ++ payload.take 20 ++ [OP_EQUALVERIFY, OP_CHECKSIG])
  | 1 => some ([OP_HASH160, 20] ++ payload.take 20 ++ [OP_EQUAL])
  | 2 => some ([33, 2] ++ payload.take 32 ++ [OP_CHECKSIG])
  | 3 => some ([33, 3] ++ payload.take 32 ++ [OP_CHECKSIG])
  | 4 => (keys.decompress (2 :: payload.take 32)).map fun pubkey => 65 :: pubkey ++ [OP_CHECKSIG]
  | 5 => (keys.decompress (3 :: payload.take 32)).map fun pubkey => 65 :: pubkey ++ [OP_CHECKSIG]
  | _ => none

def scriptSize (script : CScript) : Nat := (script.length + nSpecialScripts) % 2 ^ 32

def writeScript (keys : PubKeyLibrary) (script : CScript) : Bytes :=
  match compress keys script with
  | some compr => compr
  | none => writeVarInt (scriptSize script) ++ script

def sizeOfScript (keys : PubKeyLibrary) (script : CScript) : Nat :=
  match compress keys script with
  | some compr => compr.length
  | none => script.length + sizeOfVarInt (scriptSize script)

def readData (count : Nat) (stream : Bytes) : Option (Bytes × Bytes) :=
  if stream.length < count then none else some (stream.take count, stream.drop count)

def readScript (keys : PubKeyLibrary) (stream : Bytes) : Option (CScript × Bytes) := do
  let (nSize, rest) ← readVarInt 32 stream
  if nSize < nSpecialScripts then
    let (vch, rest) ← readData (getSpecialSize nSize) rest
    some ((decompress keys nSize vch).getD [], rest)
  else readData (nSize - nSpecialScripts) rest

/-- The loop that divides by ten, at most so many times: what is left and how often. -/
def stripTens : Nat → Nat → Nat × Nat
  | 0, n => (n, 0)
  | left + 1, n =>
    if n % 10 = 0 then
      let (stripped, e) := stripTens left (n / 10)
      (stripped, e + 1)
    else (n, 0)

def compressAmount (nAmount : UInt64) : UInt64 :=
  if nAmount = 0 then 0
  else
    let (n, e) := stripTens 9 nAmount.toNat
    if e < 9 then UInt64.ofNat (1 + (n / 10 * 9 + n % 10 - 1) * 10 + e)
    else UInt64.ofNat (1 + (n - 1) * 10 + 9)

def decompressAmount (nAmount : UInt64) : UInt64 :=
  if nAmount = 0 then 0
  else
    let x := nAmount.toNat - 1
    let e := x % 10
    let n := if e < 9 then x / 10 / 9 * 10 + x / 10 % 9 + 1 else x / 10 + 1
    UInt64.ofNat (n * 10 ^ e)

def amountBits (nValue : Int) : UInt64 := UInt64.ofInt nValue

def writeTxOut (keys : PubKeyLibrary) (txout : CTxOut) : Bytes :=
  writeVarInt (compressAmount (amountBits txout.nValue)).toNat ++ writeScript keys txout.scriptPubKey

def sizeOfTxOut (keys : PubKeyLibrary) (txout : CTxOut) : Nat :=
  sizeOfVarInt (compressAmount (amountBits txout.nValue)).toNat +
    sizeOfScript keys txout.scriptPubKey

def readAmount (nVal : Nat) : Int := (decompressAmount (UInt64.ofNat nVal)).toInt64.toInt

def readTxOut (keys : PubKeyLibrary) (stream : Bytes) : Option (CTxOut × Bytes) := do
  let (nVal, rest) ← readVarInt 64 stream
  let (script, rest) ← readScript keys rest
  some ({ CTxOut.null with nValue := readAmount nVal, scriptPubKey := script }, rest)

theorem around (items : Bytes) {front back : Nat} (ordered : front ≤ back) :
    items = items.take front ++ (items.drop front).take (back - front) ++ items.drop back := by
  have middle : (items.drop front).take (back - front) ++ items.drop back = items.drop front := by
    have rest : items.drop back = (items.drop front).drop (back - front) := by
      rw [List.drop_drop, Nat.add_sub_cancel' ordered]
    rw [rest, List.take_append_drop]
  rw [List.append_assoc, middle, List.take_append_drop]

theorem isToKeyID_back {script keyID : Bytes} (found : isToKeyID script = some keyID) :
    keyID.length = 20 ∧
      [OP_DUP, OP_HASH160, 20] ++ keyID ++ [OP_EQUALVERIFY, OP_CHECKSIG] = script := by
  unfold isToKeyID at found
  split at found
  · rename_i shape
    obtain ⟨size, front, back⟩ := shape
    cases found
    refine ⟨by simp [size], ?_⟩
    rw [← front, ← back]
    exact (around script (show 3 ≤ 23 by decide)).symm
  · cases found

theorem isToScriptID_back {script scriptID : Bytes} (found : isToScriptID script = some scriptID) :
    scriptID.length = 20 ∧ [OP_HASH160, 20] ++ scriptID ++ [OP_EQUAL] = script := by
  unfold isToScriptID at found
  split at found
  · rename_i shape
    obtain ⟨size, front, back⟩ := shape
    cases found
    refine ⟨by simp [size], ?_⟩
    rw [← front, ← back]
    exact (around script (show 2 ≤ 22 by decide)).symm
  · cases found

variable {keys : PubKeyLibrary} {script : CScript} {txout : CTxOut}

theorem isToPubKey_back {script pubkey : Bytes} (found : isToPubKey keys script = some pubkey) :
    ∃ header : UInt8, script = header :: pubkey ++ [OP_CHECKSIG] ∧
      ((header = 33 ∧ pubkey.length = 33 ∧ (pubkey.head? = some 2 ∨ pubkey.head? = some 3)) ∨
        (header = 65 ∧ pubkey.length = 65 ∧ pubkey.head? = some 4 ∧
          keys.isFullyValid pubkey = true)) := by
  unfold isToPubKey at found
  split at found
  · rename_i shape
    obtain ⟨size, front, back, header⟩ := shape
    cases found
    refine ⟨33, ?_, .inl ⟨rfl, by simp [size], ?_⟩⟩
    · have whole := around script (show 1 ≤ 34 by decide)
      rw [back, List.take_one, front] at whole
      exact whole
    · rw [List.head?_take, List.head?_drop]
      simpa using header
  · split at found
    · rename_i shape
      obtain ⟨size, front, back, header⟩ := shape
      dsimp only at found
      split at found
      · rename_i valid
        cases found
        refine ⟨65, ?_, .inr ⟨rfl, by simp [size], ?_, valid⟩⟩
        · have whole := around script (show 1 ≤ 66 by decide)
          rw [back, List.take_one, front] at whole
          exact whole
        · rw [List.head?_take, List.head?_drop]
          simpa using header
      · cases found
    · cases found

theorem parity_cases (last : UInt8) : (0x04 ||| (last &&& 0x01) = 4 ∧ 2 + last % 2 = 2) ∨
    (0x04 ||| (last &&& 0x01) = 5 ∧ 2 + last % 2 = 3) := by
  have low : last &&& 0x01 = last % 2 := by
    apply UInt8.toNat_inj.mp
    exact Nat.and_one_is_mod _
  have parity : last % 2 = 0 ∨ last % 2 = 1 := by
    rcases Nat.mod_two_eq_zero_or_one last.toNat with even | odd
    · exact .inl (UInt8.toNat_inj.mp (by rw [UInt8.toNat_mod]; exact even))
    · exact .inr (UInt8.toNat_inj.mp (by rw [UInt8.toNat_mod]; exact odd))
  rw [low]
  rcases parity with even | odd
  · rw [even]
    exact .inl (by decide)
  · rw [odd]
    exact .inr (by decide)

section Back
variable {keys : PubKeyLibrary} {script compr : Bytes}

def GoesBack (keys : PubKeyLibrary) (script compr : Bytes) : Prop :=
  ∃ nSize payload, compr = UInt8.ofNat nSize :: payload ∧ nSize < nSpecialScripts ∧
    payload.length = getSpecialSize nSize ∧ decompress keys nSize payload = some script

theorem shortKey_back {parity : UInt8} {coordinates : Bytes} (code : parity = 2 ∨ parity = 3)
    (size : coordinates.length = 32) :
    GoesBack keys (33 :: (parity :: coordinates) ++ [OP_CHECKSIG])
      (parity :: coordinates.take 32) := by
  have all : coordinates.take 32 = coordinates := List.take_of_length_le (by omega)
  rw [all]
  rcases code with rfl | rfl
  · refine ⟨2, coordinates, rfl, by decide, size, ?_⟩
    change some ([33, 2] ++ coordinates.take 32 ++ [OP_CHECKSIG]) = _
    rw [all]
    rfl
  · refine ⟨3, coordinates, rfl, by decide, size, ?_⟩
    change some ([33, 3] ++ coordinates.take 32 ++ [OP_CHECKSIG]) = _
    rw [all]
    rfl

theorem fullKey_back (lawful : keys.Lawful) {coordinates : Bytes}
    (size : coordinates.length = 64) (valid : keys.isFullyValid (4 :: coordinates) = true) :
    GoesBack keys (65 :: (4 :: coordinates) ++ [OP_CHECKSIG])
      ((0x04 ||| ((4 :: coordinates).getD 64 0 &&& 0x01)) :: coordinates.take 32) := by
  have known := lawful (4 :: coordinates) (by rw [List.length_cons, size]) rfl valid
  rw [List.drop_one, List.tail_cons] at known
  have again : (coordinates.take 32).take 32 = coordinates.take 32 := by
    rw [List.take_take, Nat.min_self]
  have half : (coordinates.take 32).length = 32 := List.length_take_of_le (by omega)
  rcases parity_cases ((4 :: coordinates).getD 64 0) with ⟨four, two⟩ | ⟨five, three⟩
  · rw [two] at known
    refine ⟨4, coordinates.take 32, by rw [four]; rfl, by decide, half, ?_⟩
    change (keys.decompress (2 :: (coordinates.take 32).take 32)).map _ = _
    rw [again, known]
    rfl
  · rw [three] at known
    refine ⟨5, coordinates.take 32, by rw [five]; rfl, by decide, half, ?_⟩
    change (keys.decompress (3 :: (coordinates.take 32).take 32)).map _ = _
    rw [again, known]
    rfl

theorem compress_back (lawful : keys.Lawful) (short : compress keys script = some compr) :
    GoesBack keys script compr := by
  unfold compress at short
  cases keyHash : isToKeyID script with
  | some keyID =>
    rw [keyHash] at short
    cases short
    obtain ⟨size, whole⟩ := isToKeyID_back keyHash
    refine ⟨0, keyID, rfl, by decide, size, ?_⟩
    unfold decompress
    rw [List.take_of_length_le (by omega), whole]
    rfl
  | none =>
    rw [keyHash] at short
    cases scriptHash : isToScriptID script with
    | some scriptID =>
      rw [scriptHash] at short
      cases short
      obtain ⟨size, whole⟩ := isToScriptID_back scriptHash
      refine ⟨1, scriptID, rfl, by decide, size, ?_⟩
      unfold decompress
      rw [List.take_of_length_le (by omega), whole]
      rfl
    | none =>
      rw [scriptHash] at short
      cases key : isToPubKey keys script with
      | none =>
        rw [key] at short
        cases short
      | some pubkey =>
        rw [key] at short
        dsimp only at short
        obtain ⟨header, whole, found⟩ := isToPubKey_back key
        cases pubkey with
        | nil => simp at found
        | cons first coordinates =>
          rw [List.headD_cons, List.drop_one, List.tail_cons] at short
          rcases found with ⟨rfl, size, parity⟩ | ⟨rfl, size, full, valid⟩
          · have code : first = 2 ∨ first = 3 := by simpa using parity
            rw [if_pos code] at short
            cases short
            exact whole ▸ shortKey_back code (Nat.succ_inj.mp size)
          · cases full
            cases short
            exact whole ▸ fullKey_back lawful (Nat.succ_inj.mp size) valid

end Back

theorem length_writeScript (keys : PubKeyLibrary) (script : CScript) :
    (writeScript keys script).length = sizeOfScript keys script := by
  unfold writeScript sizeOfScript
  split
  · rfl
  · rw [List.length_append, length_writeVarInt, Nat.add_comm]

theorem length_writeTxOut (keys : PubKeyLibrary) (txout : CTxOut) :
    (writeTxOut keys txout).length = sizeOfTxOut keys txout := by
  unfold writeTxOut sizeOfTxOut
  rw [List.length_append, length_writeVarInt, length_writeScript]

theorem readData_append (data rest : Bytes) :
    readData data.length (data ++ rest) = some (data, rest) := by
  unfold readData
  rw [if_neg (by simp), List.take_left, List.drop_left]

theorem readScript_written (lawful : keys.Lawful) (fits : script.length + nSpecialScripts < 2 ^ 32)
    (rest : Bytes) :
    readScript keys (writeScript keys script ++ rest) = some (script, rest) := by
  unfold writeScript
  cases short : compress keys script with
  | some compr =>
    obtain ⟨nSize, payload, first, special, size, back⟩ := compress_back lawful short
    have small : nSpecialScripts = 6 := rfl
    have header : writeVarInt (nSize : Int) = [UInt8.ofNat nSize] := by
      unfold writeVarInt
      rw [if_pos (by omega), show ((nSize : Int) % 128).toNat = nSize by omega]
    have split : compr ++ rest = writeVarInt (nSize : Int) ++ (payload ++ rest) := by
      rw [first, header]
      rfl
    unfold readScript
    rw [split, readVarInt_writeVarInt (by omega)]
    simp only [Option.bind_eq_bind, Option.bind_some]
    rw [if_pos special, ← size, readData_append, Option.bind_some, back]
    rfl
  | none =>
    have whole : scriptSize script = script.length + nSpecialScripts := Nat.mod_eq_of_lt fits
    unfold readScript
    rw [List.append_assoc, readVarInt_writeVarInt (by omega)]
    simp only [Option.bind_eq_bind, Option.bind_some]
    rw [whole, if_neg (by omega), Nat.add_sub_cancel, readData_append]

theorem readScript_writeScript (lawful : keys.Lawful) (fits : script.length ≤ maxSize)
    (rest : Bytes) :
    readScript keys (writeScript keys script ++ rest) = some (script, rest) := by
  have limit : maxSize = 0x02000000 := rfl
  have small : nSpecialScripts = 6 := rfl
  exact readScript_written lawful (by omega) rest

/-- An output as it comes back: its memory-only field is a new output's. -/
def keptTxOut (txout : CTxOut) : CTxOut :=
  { CTxOut.null with
    nValue := readAmount (compressAmount (amountBits txout.nValue)).toNat
    scriptPubKey := txout.scriptPubKey }

theorem readTxOut_writeTxOut (lawful : keys.Lawful) (fits : txout.scriptPubKey.length ≤ maxSize)
    (rest : Bytes) :
    readTxOut keys (writeTxOut keys txout ++ rest) = some (keptTxOut txout, rest) := by
  unfold readTxOut writeTxOut
  rw [List.append_assoc, readVarInt_writeVarInt (UInt64.toNat_lt _)]
  simp only [Option.bind_eq_bind, Option.bind_some]
  rw [readScript_writeScript lawful fits]
  rfl

theorem stripTens_spec (left n : Nat) :
    n = (stripTens left n).1 * 10 ^ (stripTens left n).2 ∧ (stripTens left n).2 ≤ left ∧
      ((stripTens left n).2 < left → (stripTens left n).1 % 10 ≠ 0) := by
  induction left generalizing n with
  | zero => simp [stripTens]
  | succ left ih =>
    obtain ⟨whole, bound, last⟩ := ih (n / 10)
    unfold stripTens
    split
    · rename_i divides
      generalize stripTens left (n / 10) = stripped at whole bound last ⊢
      dsimp only at whole bound last ⊢
      refine ⟨?_, by omega, fun more => last (by omega)⟩
      rw [Nat.pow_succ, ← Nat.mul_assoc, ← whole]
      omega
    · rename_i remains
      exact ⟨by simp, Nat.zero_le _, fun _ => remains⟩

def compressedValue (n : Nat) : Nat :=
  if n = 0 then 0
  else
    let (m, e) := stripTens 9 n
    if e < 9 then 1 + (m / 10 * 9 + m % 10 - 1) * 10 + e
    else 1 + (m - 1) * 10 + 9

def decompressedValue (x : Nat) : Nat :=
  if x = 0 then 0
  else
    let e := (x - 1) % 10
    let n := if e < 9 then (x - 1) / 10 / 9 * 10 + (x - 1) / 10 % 9 + 1 else (x - 1) / 10 + 1
    n * 10 ^ e

theorem compressedValue_cases {n : Nat} (positive : 0 < n) : ∃ m e, 0 < m ∧ n = m * 10 ^ e ∧
    (e < 9 ∧ m % 10 ≠ 0 ∧ compressedValue n = 1 + (m / 10 * 9 + m % 10 - 1) * 10 + e ∨
      e = 9 ∧ compressedValue n = 1 + (m - 1) * 10 + 9) := by
  obtain ⟨whole, bound, last⟩ := stripTens_spec 9 n
  unfold compressedValue
  rw [if_neg (Nat.ne_of_gt positive)]
  generalize stripTens 9 n = stripped at whole bound last ⊢
  obtain ⟨m, e⟩ := stripped
  refine ⟨m, e, ?_, whole, ?_⟩
  · rcases Nat.eq_zero_or_pos m with none' | some'
    · rw [none', Nat.zero_mul] at whole
      omega
    · exact some'
  · by_cases more : e < 9
    · exact .inl ⟨more, last more, if_pos more⟩
    · exact .inr ⟨by omega, if_neg more⟩

theorem compressedValue_le (n : Nat) : compressedValue n ≤ 9 * n := by
  rcases Nat.eq_zero_or_pos n with none' | some'
  · rw [none']
    decide
  · obtain ⟨m, e, positive, whole, ⟨more, digit, value⟩ | ⟨nine, value⟩⟩ :=
      compressedValue_cases some'
    · have scaled : m * (e + 1) ≤ n := by
        rw [whole]
        exact Nat.mul_le_mul_left m (Nat.lt_pow_self (by decide))
      have exponent : e ≤ m * e := Nat.le_mul_of_pos_left e positive
      rw [Nat.mul_succ] at scaled
      omega
    · subst nine
      omega

theorem decompressedValue_compressedValue (n : Nat) :
    decompressedValue (compressedValue n) = n := by
  rcases Nat.eq_zero_or_pos n with none' | some'
  · rw [none']
    rfl
  · obtain ⟨m, e, positive, whole, ⟨more, digit, value⟩ | ⟨nine, value⟩⟩ :=
      compressedValue_cases some'
    · rw [value]
      unfold decompressedValue
      rw [if_neg (by omega)]
      dsimp only
      rw [show (1 + (m / 10 * 9 + m % 10 - 1) * 10 + e - 1) % 10 = e by omega, if_pos more,
        show (1 + (m / 10 * 9 + m % 10 - 1) * 10 + e - 1) / 10 / 9 * 10 +
          (1 + (m / 10 * 9 + m % 10 - 1) * 10 + e - 1) / 10 % 9 + 1 = m by omega, ← whole]
    · subst nine
      rw [value]
      unfold decompressedValue
      rw [if_neg (by omega)]
      dsimp only
      rw [show (1 + (m - 1) * 10 + 9 - 1) % 10 = 9 by omega, if_neg (by decide),
        show (1 + (m - 1) * 10 + 9 - 1) / 10 + 1 = m by omega, ← whole]

theorem compressAmount_eq (n : UInt64) :
    compressAmount n = UInt64.ofNat (compressedValue n.toNat) := by
  unfold compressAmount compressedValue
  by_cases zero : n = 0
  · rw [if_pos zero, if_pos (by rw [zero]; rfl)]
    rfl
  · have positive : n.toNat ≠ 0 := fun none' => zero (UInt64.toNat_inj.mp none')
    rw [if_neg zero, if_neg positive]
    dsimp only
    split
    · rfl
    · rfl

theorem decompressAmount_eq (x : UInt64) :
    decompressAmount x = UInt64.ofNat (decompressedValue x.toNat) := by
  unfold decompressAmount decompressedValue
  by_cases zero : x = 0
  · rw [if_pos zero, if_pos (by rw [zero]; rfl)]
    rfl
  · have positive : x.toNat ≠ 0 := fun none' => zero (UInt64.toNat_inj.mp none')
    rw [if_neg zero, if_neg positive]

theorem decompressAmount_compressed {n : UInt64} (fits : compressedValue n.toNat < 2 ^ 64) :
    (compressAmount n).toNat = compressedValue n.toNat ∧
      decompressAmount (compressAmount n) = n := by
  have word : (compressAmount n).toNat = compressedValue n.toNat := by
    rw [compressAmount_eq]
    exact UInt64.toNat_ofNat_of_lt' fits
  refine ⟨word, ?_⟩
  rw [decompressAmount_eq, word, decompressedValue_compressedValue, UInt64.ofNat_toNat]

theorem decompressAmount_compressAmount {n : Nat} (small : n ≤ 10 ^ 18) :
    decompressAmount (compressAmount (UInt64.ofNat n)) = UInt64.ofNat n := by
  have word : (UInt64.ofNat n).toNat = n := UInt64.toNat_ofNat_of_lt' (by
    have : UInt64.size = 2 ^ 64 := rfl
    omega)
  have bound := compressedValue_le n
  exact (decompressAmount_compressed (by rw [word]; omega)).2

theorem keptTxOut_value (least : 0 ≤ txout.nValue) (most : txout.nValue ≤ 10 ^ 18) :
    (keptTxOut txout).nValue = txout.nValue := by
  obtain ⟨n, same⟩ := Int.eq_ofNat_of_zero_le least
  unfold keptTxOut readAmount amountBits
  have bits : UInt64.ofInt (n : Int) = UInt64.ofNat n := by
    have inside : ((n : Int) % 2 ^ 64).toNat = n := by omega
    exact congrArg UInt64.ofNat inside
  rw [same, UInt64.ofNat_toNat, bits, decompressAmount_compressAmount (by omega),
    UInt64.toInt64_ofNat', Int64.toInt_ofNat_of_lt (by omega)]

end OxidCompressor
