import Mathlib.Data.List.Basic
import Oxid.SignatureEncoding

/-!
The bytes a signature signs. The serializer of the source writes a transaction with the
changes of the hash type made on the way; the construction of its tests changes a copy
and serializes it. The hash type is an `int`, by its bits; sizes and indices of vectors
are naturals. Where the hash type needs an input or output that is not there, both
return one without hashing.
-/
namespace OxidSignatureHash
open OxidPrimitives OxidScript OxidSignatureEncoding Serialize

def serializeOutPoint (out : COutPoint) : Bytes :=
  littleEndian 32 out.hash.toNat ++ littleEndian 4 out.n.toNat

def serializeScript (script : CScript) : Bytes := writeCompactSize script.length ++ script

def serializeTxIn (txin : CTxIn) : Bytes :=
  serializeOutPoint txin.prevout ++ serializeScript txin.scriptSig ++
    littleEndian 4 txin.nSequence.toNat

def serializeTxOut (txout : CTxOut) : Bytes :=
  littleEndian 8 (txout.nValue % 2 ^ 64).toNat ++ serializeScript txout.scriptPubKey

def serializeVector {α : Type} (write : α → Bytes) (items : List α) : Bytes :=
  writeCompactSize items.length ++ items.flatMap write

def serializeTransaction (tx : CTransaction) : Bytes :=
  littleEndian 4 tx.nVersion.toUInt32.toNat ++ serializeVector serializeTxIn tx.vin ++
    serializeVector serializeTxOut tx.vout ++ littleEndian 4 tx.nLockTime.toNat

def nullTxIn : CTxIn := ⟨COutPoint.null, [], 0xffffffff⟩

def hashTypeIs (nHashType : UInt32) (kind : UInt8) : Bool := nHashType &&& 0x1f == kind.toUInt32

def anyoneCanPay (nHashType : UInt32) : Bool := nHashType &&& SIGHASH_ANYONECANPAY.toUInt32 != 0

structure CTransactionSignatureSerializer where
  txTo : CTransaction
  scriptCode : CScript
  nIn : Nat
  fAnyoneCanPay : Bool
  fHashSingle : Bool
  fHashNone : Bool

def CTransactionSignatureSerializer.of (txTo : CTransaction) (scriptCode : CScript) (nIn : Nat)
    (nHashType : UInt32) : CTransactionSignatureSerializer where
  txTo := txTo
  scriptCode := scriptCode
  nIn := nIn
  fAnyoneCanPay := anyoneCanPay nHashType
  fHashSingle := hashTypeIs nHashType SIGHASH_SINGLE
  fHashNone := hashTypeIs nHashType SIGHASH_NONE

def countSeparators (it : CScript) : Nat :=
  if (getOp it).fRet = true then
    (if (getOp it).opcodeRet = OP_CODESEPARATOR then 1 else 0) + countSeparators (getOp it).pc
  else 0
termination_by it.length
decreasing_by
  rename_i read
  exact getOp_shorter it read

/-- The second pass: the bytes from `itBegin` to before each separator, and the rest up
    to where the last read stopped. -/
def writeSegments (itBegin it : CScript) : Bytes :=
  if (getOp it).fRet = true then
    if (getOp it).opcodeRet = OP_CODESEPARATOR then
      itBegin.take (itBegin.length - (getOp it).pc.length - 1) ++
        writeSegments (getOp it).pc (getOp it).pc
    else writeSegments itBegin (getOp it).pc
  else if itBegin.isEmpty then []
  else itBegin.take (itBegin.length - (getOp it).pc.length)
termination_by it.length
decreasing_by
  all_goals
    rename_i read _
    exact getOp_shorter it read

namespace CTransactionSignatureSerializer

variable (serializer : CTransactionSignatureSerializer)

def serializeScriptCode : Bytes :=
  writeCompactSize (serializer.scriptCode.length - countSeparators serializer.scriptCode) ++
    writeSegments serializer.scriptCode serializer.scriptCode

def inputIndex (n : Nat) : Nat := if serializer.fAnyoneCanPay then serializer.nIn else n

def serializeInput (n : Nat) : Bytes :=
  let nInput := serializer.inputIndex n
  let txin := serializer.txTo.vin.getD nInput nullTxIn
  serializeOutPoint txin.prevout ++
    (if nInput ≠ serializer.nIn then serializeScript [] else serializer.serializeScriptCode) ++
    (if nInput ≠ serializer.nIn ∧ (serializer.fHashSingle || serializer.fHashNone) = true then
      littleEndian 4 0
    else littleEndian 4 txin.nSequence.toNat)

def serializeOutput (nOutput : Nat) : Bytes :=
  if serializer.fHashSingle = true ∧ nOutput ≠ serializer.nIn then serializeTxOut CTxOut.null
  else serializeTxOut (serializer.txTo.vout.getD nOutput CTxOut.null)

def nInputs : Nat := if serializer.fAnyoneCanPay then 1 else serializer.txTo.vin.length

def nOutputs : Nat :=
  if serializer.fHashNone then 0
  else if serializer.fHashSingle then serializer.nIn + 1
  else serializer.txTo.vout.length

def serialize : Bytes :=
  littleEndian 4 serializer.txTo.nVersion.toUInt32.toNat ++
    (writeCompactSize serializer.nInputs ++
      (List.range serializer.nInputs).flatMap serializer.serializeInput) ++
    (writeCompactSize serializer.nOutputs ++
      (List.range serializer.nOutputs).flatMap serializer.serializeOutput) ++
    littleEndian 4 serializer.txTo.nLockTime.toNat

end CTransactionSignatureSerializer

/-- What `SignatureHash` writes to the hash, unless it returns one. -/
def signedBytes (scriptCode : CScript) (txTo : CTransaction) (nIn : Nat) (nHashType : UInt32) :
    Option Bytes :=
  if nIn ≥ txTo.vin.length then none
  else if hashTypeIs nHashType SIGHASH_SINGLE = true ∧ nIn ≥ txTo.vout.length then none
  else some ((CTransactionSignatureSerializer.of txTo scriptCode nIn nHashType).serialize ++
    littleEndian 4 nHashType.toNat)

section Reference

def blankInputs (scriptCode : CScript) (nIn : Nat) (vin : List CTxIn) : List CTxIn :=
  (vin.map fun txin => { txin with scriptSig := [] }).modify nIn
    fun txin => { txin with scriptSig := scriptCode }

def freeSequences (nIn : Nat) (vin : List CTxIn) : List CTxIn :=
  vin.mapIdx fun i txin => if i ≠ nIn then { txin with nSequence := 0 } else txin

def onlyInput (nIn : Nat) (vin : List CTxIn) : List CTxIn := [vin.getD nIn nullTxIn]

def onlyOutput (nOut : Nat) (vout : List CTxOut) : List CTxOut :=
  (vout.take (nOut + 1)).mapIdx fun i txout => if i < nOut then CTxOut.null else txout

/-- The changes to the outputs and sequences, unless one is returned. -/
def applyHashType (nIn : Nat) (nHashType : UInt32) (txTmp : CTransaction) : Option CTransaction :=
  if hashTypeIs nHashType SIGHASH_NONE then
    some { txTmp with vout := [], vin := freeSequences nIn txTmp.vin }
  else if hashTypeIs nHashType SIGHASH_SINGLE then
    if nIn ≥ txTmp.vout.length then none
    else some { txTmp with vout := onlyOutput nIn txTmp.vout, vin := freeSequences nIn txTmp.vin }
  else some txTmp

def applyAnyoneCanPay (nIn : Nat) (nHashType : UInt32) (txTmp : CTransaction) : CTransaction :=
  if anyoneCanPay nHashType then { txTmp with vin := onlyInput nIn txTmp.vin } else txTmp

/-- What the reference `SignatureHashOld` writes to the hash, unless it returns one. -/
def signedBytesOld (scriptCode : CScript) (txTo : CTransaction) (nIn : Nat) (nHashType : UInt32) :
    Option Bytes :=
  if nIn ≥ txTo.vin.length then none
  else
    let scriptCode := (findAndDelete scriptCode [OP_CODESEPARATOR]).2
    let txTmp := { txTo with vin := blankInputs scriptCode nIn txTo.vin }
    (applyHashType nIn nHashType txTmp).map fun txTmp =>
      serializeTransaction (applyAnyoneCanPay nIn nHashType txTmp) ++
        littleEndian 4 nHashType.toNat

end Reference

def hashOrOne (hash : Bytes → Uint256) : Option Bytes → Uint256
  | none => 1
  | some bytes => hash bytes

def signatureHash (hash : Bytes → Uint256) (scriptCode : CScript) (txTo : CTransaction)
    (nIn : Nat) (nHashType : UInt32) : Uint256 :=
  hashOrOne hash (signedBytes scriptCode txTo nIn nHashType)

def signatureHashOld (hash : Bytes → Uint256) (scriptCode : CScript) (txTo : CTransaction)
    (nIn : Nat) (nHashType : UInt32) : Uint256 :=
  hashOrOne hash (signedBytesOld scriptCode txTo nIn nHashType)

def parsesToEnd (pc : CScript) : Bool :=
  if pc.isEmpty then true
  else if (getOp pc).fRet = true then parsesToEnd (getOp pc).pc
  else false
termination_by pc.length
decreasing_by
  rename_i read
  exact getOp_shorter pc read

def withoutSeparators (pc : CScript) : CScript :=
  if (getOp pc).fRet = true then
    (if (getOp pc).opcodeRet = OP_CODESEPARATOR then []
      else pc.take (pc.length - (getOp pc).pc.length)) ++ withoutSeparators (getOp pc).pc
  else pc
termination_by pc.length
decreasing_by
  rename_i read
  exact getOp_shorter pc read

section ScriptCode

theorem getOp_whole (pc : CScript) (read : (getOp pc).fRet = true) :
    pc = pc.take (pc.length - (getOp pc).pc.length) ++ (getOp pc).pc := by
  obtain ⟨operand, whole⟩ := getOp_pc_suffix pc read
  have size := congrArg List.length whole
  simp only [List.length_cons, List.length_append] at size
  have place : pc.length - (getOp pc).pc.length = operand.length + 1 := by omega
  have cut : pc.take (operand.length + 1) = (getOp pc).opcodeRet :: operand := by
    rw [congrArg (List.take (operand.length + 1)) whole]
    simp
  rw [place, cut]
  exact whole

variable {pc : CScript}

theorem separator_read (read : (getOp pc).fRet = true)
    (separator : (getOp pc).opcodeRet = OP_CODESEPARATOR) :
    pc = OP_CODESEPARATOR :: (getOp pc).pc := by
  obtain ⟨operand, whole⟩ := getOp_pc_suffix pc read
  rw [separator] at whole
  have plain := getOp_plain OP_CODESEPARATOR (operand ++ (getOp pc).pc) (by decide)
  rw [← whole] at plain
  have same : (getOp pc).pc = operand ++ (getOp pc).pc := congrArg OpRead.pc plain
  rw [← same] at whole
  exact whole

theorem separator_pc (rest : CScript) : (getOp (OP_CODESEPARATOR :: rest)).pc = rest := by
  rw [getOp_plain OP_CODESEPARATOR rest (by decide)]

theorem parsesToEnd_stops (parses : parsesToEnd pc = true) (failed : (getOp pc).fRet = false) :
    pc = [] := by
  rw [parsesToEnd] at parses
  by_cases done : pc.isEmpty = true
  · simpa using done
  · rw [if_neg done, if_neg (by simp [failed])] at parses
    nomatch parses

theorem parsesToEnd_reads (parses : parsesToEnd pc = true) (read : (getOp pc).fRet = true) :
    parsesToEnd (getOp pc).pc = true := by
  rw [parsesToEnd] at parses
  by_cases done : pc.isEmpty = true
  · have empty : pc = [] := by simpa using done
    rw [empty] at read
    nomatch read
  · rw [if_neg done, if_pos read] at parses
    exact parses

theorem withoutSeparators_length (pc : CScript) (parses : parsesToEnd pc = true) :
    (withoutSeparators pc).length + countSeparators pc = pc.length := by
  induction pc using script_induction with
  | stops pc failed =>
    rw [withoutSeparators, countSeparators, if_neg (by simp [failed]), if_neg (by simp [failed])]
    omega
  | reads pc read ih =>
    have later := ih (parsesToEnd_reads parses read)
    have shorter := getOp_shorter pc read
    rw [withoutSeparators, countSeparators, if_pos read, if_pos read, List.length_append]
    by_cases separator : (getOp pc).opcodeRet = OP_CODESEPARATOR
    · have size := congrArg List.length (separator_read read separator)
      rw [List.length_cons] at size
      rw [if_pos separator, if_pos separator, List.length_nil]
      omega
    · rw [if_neg separator, if_neg separator, List.length_take]
      omega

theorem writeSegments_eq (segment pc : CScript) (parses : parsesToEnd pc = true) :
    writeSegments (segment ++ pc) pc = segment ++ withoutSeparators pc := by
  induction pc using script_induction generalizing segment with
  | stops pc failed =>
    have ended : ¬ (getOp []).fRet = true := by decide
    rw [parsesToEnd_stops parses failed]
    rw [writeSegments, withoutSeparators, if_neg ended, if_neg ended]
    by_cases empty : (segment ++ []).isEmpty = true
    · rw [if_pos empty]
      have none : segment = [] := by simpa using empty
      rw [none]
      rfl
    · rw [if_neg empty]
      have place : (getOp []).pc.length = 0 := rfl
      rw [place]
      simp
  | reads pc read ih =>
    have later := parsesToEnd_reads parses read
    rw [writeSegments, withoutSeparators, if_pos read, if_pos read]
    by_cases separator : (getOp pc).opcodeRet = OP_CODESEPARATOR
    · rw [if_pos separator, if_pos separator]
      have size := congrArg List.length (separator_read read separator)
      rw [List.length_cons] at size
      have place : (segment ++ pc).length - (getOp pc).pc.length - 1 = segment.length := by
        rw [List.length_append]
        omega
      have next := ih [] later
      rw [List.nil_append, List.nil_append] at next
      rw [place, List.take_left, next, List.nil_append]
    · rw [if_neg separator, if_neg separator]
      have next := ih (segment ++ pc.take (pc.length - (getOp pc).pc.length)) later
      rw [List.append_assoc, ← getOp_whole pc read, List.append_assoc] at next
      exact next

theorem eraseHere_separator (rest : CScript) :
    (eraseHere [OP_CODESEPARATOR] (OP_CODESEPARATOR :: rest)).2 =
      (eraseHere [OP_CODESEPARATOR] rest).2 := by
  rw [eraseHere, if_pos (by simp)]
  simp

theorem eraseHere_other (other : pc.head? ≠ some OP_CODESEPARATOR) :
    eraseHere [OP_CODESEPARATOR] pc = (0, pc) := by
  rw [eraseHere, if_neg]
  rintro ⟨_, found⟩
  cases pc with
  | nil => simp at found
  | cons head rest =>
    have same : OP_CODESEPARATOR = head := by simpa using found
    exact other (by rw [same]; rfl)

theorem findAndDeleteFrom_separator (rest : CScript) :
    (findAndDeleteFrom [OP_CODESEPARATOR] (OP_CODESEPARATOR :: rest)).2 =
      (findAndDeleteFrom [OP_CODESEPARATOR] rest).2 := by
  rw [findAndDeleteFrom, findAndDeleteFrom, eraseHere_separator]
  split
  · rfl
  · exact eraseHere_separator rest

theorem findAndDelete_separators (script : CScript) (parses : parsesToEnd script = true) :
    (findAndDelete script [OP_CODESEPARATOR]).2 = withoutSeparators script := by
  have whole : (findAndDelete script [OP_CODESEPARATOR]).2 =
      (findAndDeleteFrom [OP_CODESEPARATOR] script).2 := rfl
  rw [whole]
  induction script using script_induction with
  | stops pc failed =>
    rw [parsesToEnd_stops parses failed, withoutSeparators, if_neg (by decide)]
    rw [findAndDeleteFrom, eraseHere_other (by simp), if_neg (by decide)]
  | reads pc read ih =>
    have later := parsesToEnd_reads parses read
    rw [withoutSeparators, if_pos read]
    by_cases separator : (getOp pc).opcodeRet = OP_CODESEPARATOR
    · have head := separator_read read separator
      rw [if_pos separator, List.nil_append, ← ih later rfl]
      rw [head, findAndDeleteFrom_separator, separator_pc]
    · have other : pc.head? ≠ some OP_CODESEPARATOR := by
        obtain ⟨operand, split⟩ := getOp_pc_suffix pc read
        rw [split]
        intro same
        exact separator (Option.some.inj same)
      rw [if_neg separator, findAndDeleteFrom, eraseHere_other other]
      dsimp only
      rw [if_pos read, ih later rfl]

theorem serializeScriptCode_eq (serializer : CTransactionSignatureSerializer)
    (parses : parsesToEnd serializer.scriptCode = true) :
    serializer.serializeScriptCode =
      serializeScript (findAndDelete serializer.scriptCode [OP_CODESEPARATOR]).2 := by
  have size := withoutSeparators_length serializer.scriptCode parses
  have segments := writeSegments_eq [] serializer.scriptCode parses
  rw [List.nil_append, List.nil_append] at segments
  have left : serializer.scriptCode.length - countSeparators serializer.scriptCode =
      (withoutSeparators serializer.scriptCode).length := by omega
  unfold CTransactionSignatureSerializer.serializeScriptCode serializeScript
  rw [findAndDelete_separators _ parses, segments, left]

end ScriptCode

section Transaction

theorem serializeVector_range {α : Type} {items : List α} {count : Nat} {byIndex : Nat → Bytes}
    {write : α → Bytes} (size : count = items.length)
    (each : ∀ i item, items[i]? = some item → byIndex i = write item) :
    writeCompactSize count ++ (List.range count).flatMap byIndex = serializeVector write items := by
  have same : (List.range items.length).map byIndex = items.map write := by
    apply List.ext_getElem
    · simp
    · intro i inRange inItems
      have inside : i < items.length := by simpa using inItems
      simpa using each i items[i] (List.getElem?_eq_getElem inside)
  unfold serializeVector
  rw [size, List.flatMap_def, List.flatMap_def, same]

variable {scriptCode : CScript} {txTo : CTransaction} {nIn : Nat} {nHashType : UInt32}

def referenceInput (script : CScript) (nIn : Nat) (nHashType : UInt32) (i : Nat) (txin : CTxIn) :
    CTxIn where
  prevout := txin.prevout
  scriptSig := if nIn = i then script else []
  nSequence :=
    if i ≠ nIn ∧ (hashTypeIs nHashType SIGHASH_NONE || hashTypeIs nHashType SIGHASH_SINGLE) = true
    then 0 else txin.nSequence

def freedInputs (script : CScript) (txTo : CTransaction) (nIn : Nat) (nHashType : UInt32) :
    List CTxIn :=
  if hashTypeIs nHashType SIGHASH_NONE || hashTypeIs nHashType SIGHASH_SINGLE then
    freeSequences nIn (blankInputs script nIn txTo.vin)
  else blankInputs script nIn txTo.vin

def referenceInputs (script : CScript) (txTo : CTransaction) (nIn : Nat) (nHashType : UInt32) :
    List CTxIn :=
  if anyoneCanPay nHashType then onlyInput nIn (freedInputs script txTo nIn nHashType)
  else freedInputs script txTo nIn nHashType

def referenceOutputs (txTo : CTransaction) (nIn : Nat) (nHashType : UInt32) : List CTxOut :=
  if hashTypeIs nHashType SIGHASH_NONE then []
  else if hashTypeIs nHashType SIGHASH_SINGLE then onlyOutput nIn txTo.vout
  else txTo.vout

theorem signedBytesOld_eq (inputs : nIn < txTo.vin.length)
    (outputs : hashTypeIs nHashType SIGHASH_SINGLE = true → nIn < txTo.vout.length) :
    signedBytesOld scriptCode txTo nIn nHashType =
      some (serializeTransaction { txTo with
        vin := referenceInputs (findAndDelete scriptCode [OP_CODESEPARATOR]).2 txTo nIn nHashType
        vout := referenceOutputs txTo nIn nHashType } ++ littleEndian 4 nHashType.toNat) := by
  unfold signedBytesOld applyHashType referenceInputs referenceOutputs freedInputs applyAnyoneCanPay
  rw [if_neg (by omega)]
  cases none : hashTypeIs nHashType SIGHASH_NONE with
  | true => cases anyone : anyoneCanPay nHashType <;> simp
  | false =>
    cases single : hashTypeIs nHashType SIGHASH_SINGLE with
    | true =>
      have enough : ¬ nIn ≥ txTo.vout.length := Nat.not_le.mpr (outputs single)
      cases anyone : anyoneCanPay nHashType <;> simp [enough]
    | false => cases anyone : anyoneCanPay nHashType <;> simp

theorem blankInputs_get (script : CScript) (vin : List CTxIn) (i : Nat) :
    (blankInputs script nIn vin)[i]? =
      vin[i]?.map fun txin => { txin with scriptSig := if nIn = i then script else [] } := by
  unfold blankInputs
  rw [List.getElem?_modify, List.getElem?_map]
  cases vin[i]? with
  | none => rfl
  | some txin => by_cases here : nIn = i <;> simp [here]

theorem freedInputs_get (script : CScript) (i : Nat) :
    (freedInputs script txTo nIn nHashType)[i]? =
      txTo.vin[i]?.map (referenceInput script nIn nHashType i) := by
  unfold freedInputs referenceInput freeSequences
  cases free : hashTypeIs nHashType SIGHASH_NONE || hashTypeIs nHashType SIGHASH_SINGLE with
  | true =>
    rw [if_pos rfl, List.getElem?_mapIdx, blankInputs_get]
    cases txTo.vin[i]? with
    | none => rfl
    | some txin => by_cases here : i = nIn <;> simp [here]
  | false =>
    rw [if_neg Bool.false_ne_true, blankInputs_get]
    simp

theorem freedInputs_length (script : CScript) :
    (freedInputs script txTo nIn nHashType).length = txTo.vin.length := by
  unfold freedInputs
  split <;> simp [freeSequences, blankInputs]

theorem serializeInput_eq {n i : Nat} {txin : CTxIn} (parses : parsesToEnd scriptCode = true)
    (place : (CTransactionSignatureSerializer.of txTo scriptCode nIn nHashType).inputIndex n = i)
    (found : txTo.vin[i]? = some txin) :
    (CTransactionSignatureSerializer.of txTo scriptCode nIn nHashType).serializeInput n =
      serializeTxIn (referenceInput (findAndDelete scriptCode [OP_CODESEPARATOR]).2 nIn nHashType
        i txin) := by
  have code := serializeScriptCode_eq
    (CTransactionSignatureSerializer.of txTo scriptCode nIn nHashType) parses
  have read : txTo.vin.getD i nullTxIn = txin := by
    rw [List.getD_eq_getElem?_getD, found]
    rfl
  unfold CTransactionSignatureSerializer.serializeInput serializeTxIn referenceInput
  rw [place, code]
  simp only [CTransactionSignatureSerializer.of, read]
  rw [Bool.or_comm]
  by_cases here : i = nIn
  · simp [here]
  · have other : ¬ nIn = i := fun same => here same.symm
    cases free : hashTypeIs nHashType SIGHASH_NONE || hashTypeIs nHashType SIGHASH_SINGLE <;>
      simp [here, other]

theorem referenceInputs_get {script : CScript} {i : Nat} {item : CTxIn}
    (inputs : nIn < txTo.vin.length)
    (found : (referenceInputs script txTo nIn nHashType)[i]? = some item) :
    ∃ txin, txTo.vin[if anyoneCanPay nHashType then nIn else i]? = some txin ∧
      item = referenceInput script nIn nHashType (if anyoneCanPay nHashType then nIn else i) txin := by
  unfold referenceInputs at found
  cases anyone : anyoneCanPay nHashType with
  | true =>
    rw [anyone, if_pos rfl] at found
    have signed := List.getElem?_eq_getElem inputs
    have only : item = (freedInputs script txTo nIn nHashType).getD nIn nullTxIn := by
      cases i with
      | zero => exact (Option.some.inj found).symm
      | succ i => nomatch found
    rw [List.getD_eq_getElem?_getD, freedInputs_get, signed] at only
    exact ⟨_, signed, only⟩
  | false =>
    rw [anyone, if_neg Bool.false_ne_true, freedInputs_get, Option.map_eq_some_iff] at found
    obtain ⟨txin, old, same⟩ := found
    exact ⟨txin, old, same.symm⟩

theorem serializeInputs_eq (parses : parsesToEnd scriptCode = true)
    (inputs : nIn < txTo.vin.length) :
    let serializer := CTransactionSignatureSerializer.of txTo scriptCode nIn nHashType
    writeCompactSize serializer.nInputs ++
        (List.range serializer.nInputs).flatMap serializer.serializeInput =
      serializeVector serializeTxIn
        (referenceInputs (findAndDelete scriptCode [OP_CODESEPARATOR]).2 txTo nIn nHashType) := by
  intro serializer
  apply serializeVector_range
  · unfold referenceInputs
    cases anyone : anyoneCanPay nHashType <;>
      simp [serializer, CTransactionSignatureSerializer.nInputs,
        CTransactionSignatureSerializer.of, anyone, onlyInput, freedInputs_length]
  · intro i item found
    obtain ⟨txin, old, same⟩ := referenceInputs_get inputs found
    rw [same]
    exact serializeInput_eq parses rfl old

theorem serializeOutputs_eq
    (outputs : hashTypeIs nHashType SIGHASH_SINGLE = true → nIn < txTo.vout.length) :
    let serializer := CTransactionSignatureSerializer.of txTo scriptCode nIn nHashType
    writeCompactSize serializer.nOutputs ++
        (List.range serializer.nOutputs).flatMap serializer.serializeOutput =
      serializeVector serializeTxOut (referenceOutputs txTo nIn nHashType) := by
  intro serializer
  unfold referenceOutputs
  apply serializeVector_range
  · cases none : hashTypeIs nHashType SIGHASH_NONE with
    | true => simp [serializer, CTransactionSignatureSerializer.nOutputs,
        CTransactionSignatureSerializer.of, none]
    | false =>
      cases single : hashTypeIs nHashType SIGHASH_SINGLE with
      | true =>
        have enough := outputs single
        simp [serializer, CTransactionSignatureSerializer.nOutputs,
          CTransactionSignatureSerializer.of, none, single, onlyOutput]
        omega
      | false => simp [serializer, CTransactionSignatureSerializer.nOutputs,
          CTransactionSignatureSerializer.of, none, single]
  · intro i item found
    unfold CTransactionSignatureSerializer.serializeOutput
    simp only [serializer, CTransactionSignatureSerializer.of]
    cases none : hashTypeIs nHashType SIGHASH_NONE with
    | true => simp [none] at found
    | false =>
      cases single : hashTypeIs nHashType SIGHASH_SINGLE with
      | true =>
        simp only [none, single, Bool.false_eq_true, if_false, if_true, onlyOutput,
          List.getElem?_mapIdx, Option.map_eq_some_iff] at found
        obtain ⟨txout, old, same⟩ := found
        have place : i < nIn + 1 := by
          have inside := (List.getElem?_eq_some_iff.mp old).1
          rw [List.length_take] at inside
          omega
        rw [List.getElem?_take_of_lt place] at old
        rw [List.getD_eq_getElem?_getD, old, ← same]
        by_cases here : i = nIn
        · simp [here]
        · rw [if_pos ⟨rfl, here⟩, if_pos (by omega)]
      | false =>
        simp only [none, single, Bool.false_eq_true, if_false] at found
        rw [List.getD_eq_getElem?_getD, found]
        simp

theorem signedBytes_eq (parses : parsesToEnd scriptCode = true) :
    signedBytes scriptCode txTo nIn nHashType = signedBytesOld scriptCode txTo nIn nHashType := by
  unfold signedBytes
  by_cases inputs : nIn < txTo.vin.length
  · rw [if_neg (by omega)]
    by_cases missing : hashTypeIs nHashType SIGHASH_SINGLE = true ∧ nIn ≥ txTo.vout.length
    · rw [if_pos missing]
      have other : hashTypeIs nHashType SIGHASH_NONE = false := by
        have single := missing.1
        unfold hashTypeIs at single ⊢
        rw [beq_iff_eq] at single
        rw [single]
        decide
      unfold signedBytesOld applyHashType
      rw [if_neg (by omega), other, missing.1]
      simp [missing.2]
    · have outputs : hashTypeIs nHashType SIGHASH_SINGLE = true → nIn < txTo.vout.length := by
        intro single
        by_contra short
        exact missing ⟨single, by omega⟩
      rw [if_neg missing, signedBytesOld_eq inputs outputs]
      unfold serializeTransaction CTransactionSignatureSerializer.serialize
      rw [serializeInputs_eq parses inputs, serializeOutputs_eq outputs]
      rfl
  · unfold signedBytesOld
    rw [if_pos (by omega), if_pos (by omega)]

end Transaction

/-- For a script code that parses to its end the serializer writes the bytes of the
    reference construction, and the two return one without hashing in the same cases. -/
theorem signatureHash_reference (scriptCode : CScript) (parses : parsesToEnd scriptCode = true)
    (txTo : CTransaction) (nIn : Nat) (nHashType : UInt32) :
    signedBytes scriptCode txTo nIn nHashType = signedBytesOld scriptCode txTo nIn nHashType ∧
      ∀ hash, signatureHash hash scriptCode txTo nIn nHashType =
        signatureHashOld hash scriptCode txTo nIn nHashType := by
  have same := @signedBytes_eq scriptCode txTo nIn nHashType parses
  refine ⟨same, ?_⟩
  intro hash
  unfold signatureHash signatureHashOld
  rw [same]

def sampleCode : CScript :=
  [OP_1, OP_CODESEPARATOR, 0x02, OP_CODESEPARATOR, 0x07, OP_CODESEPARATOR, OP_CHECKSIG]

def sampleSpend : CTransaction where
  nVersion := 1
  vin := [⟨⟨7, 0⟩, [OP_1], 0xffffffff⟩, ⟨⟨8, 1⟩, [], 5⟩]
  vout := [⟨3, [OP_1], 0⟩, ⟨4, [], 2⟩, ⟨5, [], 2⟩]
  nLockTime := 9

theorem sample_signed_alike :
    countSeparators sampleCode = 2 ∧
      (signedBytes sampleCode sampleSpend 1 0x83).map List.length = some 78 ∧
      ∀ hash, signatureHash hash sampleCode sampleSpend 1 0x83 =
        signatureHashOld hash sampleCode sampleSpend 1 0x83 :=
  ⟨by decide +kernel, by decide +kernel,
    (signatureHash_reference sampleCode (by decide +kernel) sampleSpend 1 0x83).2⟩

end OxidSignatureHash
