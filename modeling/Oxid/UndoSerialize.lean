import Oxid.CoinsSerialize
import Oxid.CompressedForms
import Oxid.LedgerView
import Oxid.Library.Restoring

/-!
The form in which undo records are kept in the undo files. The height and the two flags are
one code; the version follows it where the height is not zero.
-/
namespace OxidUndoSerialize
open OxidPrimitives OxidCoins OxidCompressor OxidCompressedForms OxidCoinsSerialize
open OxidUtxoView OxidDisconnectBlock OxidCoinTrips OxidBlockRoundTrip OxidLedgerView
open Serialize VarInts

/-- `nHeight * 4 + (fCoinBase ? 2 : 0) + (fCoinStake ? 1 : 0)`, an `unsigned int`. -/
def undoCode (undo : CTxInUndo) : UInt32 :=
  undo.nHeight * 4 + (if undo.fCoinBase then 2 else 0) + (if undo.fCoinStake then 1 else 0)

def sizeOfTxInUndo (keys : PubKeyLibrary) (undo : CTxInUndo) : Nat :=
  sizeOfVarInt (undoCode undo).toNat +
    (if undo.nHeight > 0 then sizeOfVarInt undo.nVersion.toInt else 0) +
    sizeOfTxOut keys undo.txout

def writeVersion (undo : CTxInUndo) : Bytes :=
  if undo.nHeight > 0 then writeVarInt undo.nVersion.toInt else []

def writeTxInUndo (keys : PubKeyLibrary) (undo : CTxInUndo) : Bytes :=
  writeVarInt (undoCode undo).toNat ++ writeVersion undo ++ writeTxOut keys undo.txout

def readVersion (nHeight : UInt32) (stream : Bytes) : Option (Int32 × Bytes) :=
  if nHeight > 0 then readInt stream else some (0, stream)

def readTxInUndo (keys : PubKeyLibrary) (stream : Bytes) : Option (CTxInUndo × Bytes) := do
  let (nCode, stream) ← readVarInt 32 stream
  let nHeight := UInt32.ofNat (nCode / 4)
  let (nVersion, stream) ← readVersion nHeight stream
  let (txout, stream) ← readTxOut keys stream
  some (⟨txout, nCode.testBit 1, nCode.testBit 0, nHeight, nVersion⟩, stream)

def writeTxUndo (keys : PubKeyLibrary) (txundo : CTxUndo) : Bytes :=
  writeVector (writeTxInUndo keys) txundo.vprevout

def readTxUndo (keys : PubKeyLibrary) (stream : Bytes) : Option (CTxUndo × Bytes) :=
  (readVector (readTxInUndo keys) stream).map fun (vprevout, rest) => (⟨vprevout⟩, rest)

def writeBlockUndo (keys : PubKeyLibrary) (blockundo : CBlockUndo) : Bytes :=
  writeVector (writeTxUndo keys) blockundo.vtxundo

def readBlockUndo (keys : PubKeyLibrary) (stream : Bytes) : Option (CBlockUndo × Bytes) :=
  (readVector (readTxUndo keys) stream).map fun (vtxundo, rest) => (⟨vtxundo⟩, rest)

section Records

theorem undoCode_toNat (undo : CTxInUndo) : (undoCode undo).toNat =
    4 * (undo.nHeight.toNat % 2 ^ 30) + (if undo.fCoinBase then 2 else 0) +
      if undo.fCoinStake then 1 else 0 := by
  unfold undoCode
  cases undo.fCoinBase <;> cases undo.fCoinStake <;> simp <;> omega

theorem undoCode_fields (undo : CTxInUndo) :
    (undoCode undo).toNat / 4 = undo.nHeight.toNat % 2 ^ 30 ∧
      (undoCode undo).toNat.testBit 1 = undo.fCoinBase ∧
      (undoCode undo).toNat.testBit 0 = undo.fCoinStake := by
  rw [undoCode_toNat]
  simp only [Nat.testBit_eq_decide_div_mod_eq]
  cases undo.fCoinBase <;> cases undo.fCoinStake <;> simp <;> omega

structure OutFits (txout : CTxOut) : Prop where
  amount : readAmount (compressAmount (amountBits txout.nValue)).toNat = txout.nValue
  script : txout.scriptPubKey.length + nSpecialScripts < 2 ^ 32

/-- What must hold of a height and a version. Height zero says that there is no version. -/
structure MetadataFits (nHeight : UInt32) (nVersion : Int32) : Prop where
  height : nHeight.toNat < 2 ^ 30
  version : 0 ≤ nVersion.toInt
  unset : nHeight = 0 → nVersion = 0

structure Restorable (undo : CTxInUndo) : Prop where
  out : OutFits undo.txout
  metadata : MetadataFits undo.nHeight undo.nVersion

/-- `assert(pubkey.size() == 65)` after a key is decompressed. -/
def FullKeys (keys : PubKeyLibrary) : Prop :=
  ∀ key pubkey, keys.decompress key = some pubkey → pubkey.length = 65

variable {keys : PubKeyLibrary}

theorem decompress_short (full : FullKeys keys) {nSize : Nat} {payload : Bytes} {script : CScript}
    (special : decompress keys nSize payload = some script) : script.length ≤ 67 := by
  unfold decompress at special
  split at special
  case h_1 | h_2 | h_3 | h_4 =>
    cases special
    simp only [List.length_append, List.length_cons, List.length_take, List.length_nil]
    omega
  case h_5 | h_6 =>
    obtain ⟨pubkey, found, rfl⟩ := Option.map_eq_some_iff.mp special
    simp [full _ pubkey found]
  case h_7 => cases special

theorem readScript_shorter (full : FullKeys keys) {script back : CScript} {rest left : Bytes}
    (long : 2 ^ 32 ≤ script.length + nSpecialScripts)
    (read : readScript keys (writeScript keys script ++ rest) = some (back, left)) :
    back.length < script.length := by
  have codes : nSpecialScripts = 6 := rfl
  obtain ⟨wrapped, reads⟩ := @readScript_long keys script long rest
  rw [reads] at read
  split at read
  · obtain ⟨⟨vch, behind⟩, data, same⟩ := Option.bind_eq_some_iff.mp read
    rw [Option.some.injEq, Prod.mk.injEq] at same
    rw [← same.1]
    cases special : decompress keys (scriptSize script) vch with
    | none =>
      rw [Option.getD_none, List.length_nil]
      omega
    | some found =>
      have short := decompress_short full special
      rw [Option.getD_some]
      omega
  · unfold OxidCompressor.readData at read
    split at read
    · cases read
    · rw [Option.some.injEq, Prod.mk.injEq] at read
      rw [← read.1, List.length_take]
      omega

theorem restores_txOut (lawful : keys.Lawful) (full : FullKeys keys) :
    Restores (writeTxOut keys) (readTxOut keys) stored OutFits where
  back txout rest fits := by
    unfold readTxOut writeTxOut
    rw [List.append_assoc, readVarInt_writeVarInt (UInt64.toNat_lt _)]
    simp only [Option.bind_eq_bind, Option.bind_some]
    rw [readScript_written lawful fits.script, Option.bind_some, fits.amount]
    rfl
  only txout rest left back := by
    unfold readTxOut writeTxOut at back
    rw [List.append_assoc, readVarInt_writeVarInt (UInt64.toNat_lt _)] at back
    simp only [Option.bind_eq_bind, Option.bind_some, Option.bind_eq_some_iff,
      Option.some.injEq, Prod.mk.injEq] at back
    obtain ⟨⟨script, behind⟩, read, same, rfl⟩ := back
    have scripts : script = txout.scriptPubKey := congrArg CTxOut.scriptPubKey same
    refine ⟨congrArg CTxOut.nValue same, ?_⟩
    by_contra wrapped
    have shorter := readScript_shorter full (not_lt.mp wrapped) read
    rw [scripts] at shorter
    exact lt_irrefl _ shorter

def keptTxInUndo (undo : CTxInUndo) : CTxInUndo := { undo with txout := stored undo.txout }

theorem readTxInUndo_written (undo : CTxInUndo) (rest : Bytes) :
    readTxInUndo keys (writeTxInUndo keys undo ++ rest) =
      (readVersion (UInt32.ofNat (undo.nHeight.toNat % 2 ^ 30))
        (writeVersion undo ++ (writeTxOut keys undo.txout ++ rest))).bind fun (nVersion, stream) =>
          (readTxOut keys stream).bind fun (txout, left) =>
            some (⟨txout, undo.fCoinBase, undo.fCoinStake,
              UInt32.ofNat (undo.nHeight.toNat % 2 ^ 30), nVersion⟩, left) := by
  obtain ⟨height, coinBase, coinStake⟩ := undoCode_fields undo
  unfold readTxInUndo writeTxInUndo
  rw [List.append_assoc, List.append_assoc, readVarInt_writeVarInt (UInt32.toNat_lt _)]
  simp only [Option.bind_eq_bind, Option.bind_some, height, coinBase, coinStake]

theorem readVersion_written (undo : CTxInUndo) (rest : Bytes) :
    readVersion undo.nHeight (writeVersion undo ++ rest) =
      some (if undo.nHeight > 0 then keptInt undo.nVersion else 0, rest) := by
  unfold readVersion writeVersion
  by_cases set : undo.nHeight > 0
  · rw [if_pos set, if_pos set, if_pos set, readInt_written]
  · rw [if_neg set, if_neg set, if_neg set, List.nil_append]

theorem version_kept_iff (nHeight : UInt32) (nVersion : Int32) :
    (if nHeight > 0 then keptInt nVersion else 0) = nVersion ↔
      0 ≤ nVersion.toInt ∧ (nHeight = 0 → nVersion = 0) := by
  by_cases set : nHeight > 0
  · rw [if_pos set, keptInt_iff]
    refine ⟨fun nonneg => ⟨nonneg, fun zero => ?_⟩, And.left⟩
    rw [zero] at set
    exact absurd set (by decide)
  · have zero : nHeight = 0 := by
      have small : ¬0 < nHeight.toNat := fun more => set (UInt32.lt_iff_toNat_lt.mpr more)
      exact UInt32.toNat_inj.mp (Nat.eq_zero_of_not_pos small)
    rw [if_neg set]
    constructor
    · intro same
      rw [← same]
      exact ⟨by decide, fun _ => rfl⟩
    · rintro ⟨-, unset⟩
      exact (unset zero).symm

theorem restores_txInUndo (lawful : keys.Lawful) (full : FullKeys keys) :
    Restores (writeTxInUndo keys) (readTxInUndo keys) keptTxInUndo Restorable where
  back undo rest fits := by
    have height : UInt32.ofNat (undo.nHeight.toNat % 2 ^ 30) = undo.nHeight := by
      rw [Nat.mod_eq_of_lt fits.metadata.height, UInt32.ofNat_toNat]
    have version := (version_kept_iff undo.nHeight undo.nVersion).mpr
      ⟨fits.metadata.version, fits.metadata.unset⟩
    rw [readTxInUndo_written, height, readVersion_written, version, Option.bind_some]
    dsimp only
    rw [(restores_txOut lawful full).back undo.txout rest fits.out]
    rfl
  only undo rest left back := by
    rw [readTxInUndo_written] at back
    obtain ⟨⟨nVersion, behind⟩, version, back⟩ := Option.bind_eq_some_iff.mp back
    obtain ⟨⟨txout, left'⟩, out, same⟩ := Option.bind_eq_some_iff.mp back
    unfold keptTxInUndo at same
    rw [Option.some.injEq, Prod.mk.injEq, CTxInUndo.mk.injEq] at same
    obtain ⟨⟨sameOut, -, -, height, sameVersion⟩, -⟩ := same
    have bounded : undo.nHeight.toNat < 2 ^ 30 := by
      have word : UInt32.size = 2 ^ 32 := rfl
      rw [← height, UInt32.toNat_ofNat_of_lt' (by omega)]
      omega
    rw [height, readVersion_written, Option.some.injEq, Prod.mk.injEq, sameVersion] at version
    rw [sameOut, ← version.2] at out
    obtain ⟨nonneg, unset⟩ := (version_kept_iff _ _).mp version.1
    exact ⟨(restores_txOut lawful full).only _ _ _ out, bounded, nonneg, unset⟩

theorem restores_txUndo (lawful : keys.Lawful) (full : FullKeys keys) :
    Restores (writeTxUndo keys) (readTxUndo keys)
      (fun txundo => ⟨txundo.vprevout.map keptTxInUndo⟩)
      fun txundo => txundo.vprevout.length ≤ maxSize ∧ ∀ undo ∈ txundo.vprevout, Restorable undo :=
  (restores_txInUndo lawful full).vector.wrap fun _ => rfl

def keptBlockUndo (blockundo : CBlockUndo) : CBlockUndo :=
  ⟨blockundo.vtxundo.map fun txundo => ⟨txundo.vprevout.map keptTxInUndo⟩⟩

theorem restores_blockUndo (lawful : keys.Lawful) (full : FullKeys keys) :
    Restores (writeBlockUndo keys) (readBlockUndo keys) keptBlockUndo
      fun blockundo => blockundo.vtxundo.length ≤ maxSize ∧ ∀ txundo ∈ blockundo.vtxundo,
        txundo.vprevout.length ≤ maxSize ∧ ∀ undo ∈ txundo.vprevout, Restorable undo :=
  (restores_txUndo lawful full).vector.wrap fun _ => rfl

end Records

section Spending

def TakesAll (inputs : List CTxIn) (txid : Uint256) (coins : CCoins) : Prop :=
  ∀ n out, coins.output n = some out →
    ∃ txin ∈ inputs, txin.prevout.hash = txid ∧ txin.prevout.n.toNat = n

/-- The inputs spend outputs that fit, and take all of a transaction's outputs only where its
    height and version fit. -/
structure InputsFit (inputs : List CTxIn) (view : UtxoView) : Prop where
  outs : ∀ txin ∈ inputs, ∀ out,
    (view.coins txin.prevout.hash).output txin.prevout.n.toNat = some out → OutFits out
  metadata : ∀ txin ∈ inputs,
    TakesAll inputs txin.prevout.hash (view.coins txin.prevout.hash) →
      MetadataFits (view.coins txin.prevout.hash).nHeight.toUInt32
        (view.coins txin.prevout.hash).nVersion

variable {undo : CTxInUndo} {undos : List CTxInUndo} {view final : UtxoView} {inputs : List CTxIn}
variable {spent : CCoins} {txid : Uint256}

theorem restorable_spend {coins spent : CCoins} {out : COutPoint}
    (run : coins.spend out = some (spent, undo)) : Restorable undo ↔
      OutFits undo.txout ∧
        (spent.isPruned = true → MetadataFits coins.nHeight.toUInt32 coins.nVersion) := by
  have blank : MetadataFits 0 0 := ⟨by decide, by decide, fun _ => rfl⟩
  unfold CCoins.spend at run
  split at run
  · cases run
  · split at run
    · cases run
    · rename_i txout _ _
      have pruned := CCoins.clean_isPruned _
        (CCoins.clean_cleanup { coins with vout := coins.vout.set out.n.toNat CTxOut.null })
      dsimp only at run
      split at run
      · rename_i empty
        cases run
        rw [pruned]
        exact ⟨fun fits => ⟨fits.out, fun _ => fits.metadata⟩, fun fits => ⟨fits.1, fits.2 empty⟩⟩
      · rename_i rest
        cases run
        rw [pruned]
        exact ⟨fun fits => ⟨fits.out, fun empty => absurd empty rest⟩, fun fits => ⟨fits.1, blank⟩⟩

theorem spent_output {view : UtxoView} {txin : CTxIn}
    (run : (view.coins txin.prevout.hash).spend txin.prevout = some (spent, undo)) {n : Nat}
    {out : CTxOut} (left : ((view.setCoins txin.prevout.hash spent).coins txid).output n = some out)
    :
    (view.coins txid).output n = some out ∧
      ¬(txid = txin.prevout.hash ∧ n = txin.prevout.n.toNat) := by
  obtain ⟨-, -, outputs, -, -, -⟩ := spend_cases run
  have moved := congrFun (congrFun (outputsOf_setCoins view txin.prevout.hash spent) txid) n
  unfold outputsOf at moved
  rw [moved] at left
  by_cases same : txid = txin.prevout.hash
  · subst same
    rw [Function.update_self, outputs] at left
    split at left
    · cases left
    · rename_i other
      exact ⟨left, fun both => other both.2⟩
  · rw [Function.update_of_ne same] at left
    exact ⟨left, fun both => same both.1⟩

theorem spendInputs_present (run : spendInputs inputs view = some (final, undos)) :
    ∀ txin ∈ inputs, ∃ out,
      (view.coins txin.prevout.hash).output txin.prevout.n.toNat = some out := by
  induction inputs generalizing view undos with
  | nil => exact fun txin member => absurd member List.not_mem_nil
  | cons txin rest ih =>
    obtain ⟨spent, undo, later, spending, tail, -⟩ := spendInputs_cons run
    intro other member
    rcases List.mem_cons.mp member with rfl | member
    · exact ⟨undo.txout, (spend_cases spending).1⟩
    · obtain ⟨out, present⟩ := ih tail other member
      exact ⟨out, (spent_output spending present).1⟩

theorem spent_coins {view : UtxoView} {txin : CTxIn}
    (run : (view.coins txin.prevout.hash).spend txin.prevout = some (spent, undo)) {n : Nat}
    {out : CTxOut} (left : ((view.setCoins txin.prevout.hash spent).coins txid).output n = some out)
    :
    CCoins.SameMetadata ((view.setCoins txin.prevout.hash spent).coins txid) (view.coins txid) ∧
      ∀ m, ¬(txid = txin.prevout.hash ∧ m = txin.prevout.n.toNat) →
        ((view.setCoins txin.prevout.hash spent).coins txid).output m =
          (view.coins txid).output m := by
  obtain ⟨-, -, outputs, metadata, clean, -⟩ := spend_cases run
  rw [coins_setCoins] at left ⊢
  by_cases same : txid = txin.prevout.hash
  · subst same
    rw [if_pos rfl] at left ⊢
    have kept : settle (isFresh view txin.prevout.hash) (fallback view txin.prevout.hash) spent =
        spent := by
      have unpruned : ¬spent.isPruned = true := by
        intro pruned
        have shown := settle_output (isFresh_sound view txin.prevout.hash) spent
        rw [shown, (CCoins.isPruned_iff_output spent).mp pruned] at left
        cases left
      unfold settle
      rw [if_neg fun both => unpruned both.2, clean]
    rw [kept]
    refine ⟨metadata, fun m other => ?_⟩
    rw [outputs, if_neg fun here => other ⟨rfl, here⟩]
  · rw [if_neg same]
    exact ⟨CCoins.sameMetadata_refl _, fun _ _ => rfl⟩

section Input
variable {txin : CTxIn} {rest : List CTxIn} {view : UtxoView} {spent : CCoins} {undo : CTxInUndo}
  (run : (view.coins txin.prevout.hash).spend txin.prevout = some (spent, undo))
include run

theorem takesAll_later {txid : Uint256} {n : Nat} {out : CTxOut}
    (left : ((view.setCoins txin.prevout.hash spent).coins txid).output n = some out) :
    TakesAll rest txid ((view.setCoins txin.prevout.hash spent).coins txid) ↔
      TakesAll (txin :: rest) txid (view.coins txid) := by
  obtain ⟨-, same⟩ := spent_coins run left
  constructor
  · intro takes m found shown
    by_cases mine : txid = txin.prevout.hash ∧ m = txin.prevout.n.toNat
    · exact ⟨txin, List.mem_cons_self, mine.1.symm, mine.2.symm⟩
    · rw [← same m mine] at shown
      obtain ⟨taker, among, named⟩ := takes m found shown
      exact ⟨taker, List.mem_cons_of_mem _ among, named⟩
  · intro takes m found shown
    obtain ⟨before, apart⟩ := spent_output run shown
    obtain ⟨taker, among, hash, place⟩ := takes m found before
    rcases List.mem_cons.mp among with rfl | among
    · exact absurd ⟨hash.symm, place.symm⟩ apart
    · exact ⟨taker, among, hash, place⟩

theorem metadata_later {txid : Uint256} {n : Nat} {out : CTxOut}
    (left : ((view.setCoins txin.prevout.hash spent).coins txid).output n = some out) :
    (TakesAll rest txid ((view.setCoins txin.prevout.hash spent).coins txid) →
      MetadataFits ((view.setCoins txin.prevout.hash spent).coins txid).nHeight.toUInt32
        ((view.setCoins txin.prevout.hash spent).coins txid).nVersion) ↔
    (TakesAll (txin :: rest) txid (view.coins txid) →
      MetadataFits (view.coins txid).nHeight.toUInt32 (view.coins txid).nVersion) := by
  obtain ⟨metadata, -⟩ := spent_coins run left
  rw [takesAll_later run left, metadata.2.2.1, metadata.2.2.2]

theorem takesAll_of_pruned (pruned : spent.isPruned = true) :
    TakesAll (txin :: rest) txin.prevout.hash (view.coins txin.prevout.hash) := by
  obtain ⟨-, -, outputs, -, -, -⟩ := spend_cases run
  intro n out found
  have gone := (CCoins.isPruned_iff_output spent).mp pruned n
  rw [outputs] at gone
  split at gone
  · rename_i same
    exact ⟨txin, List.mem_cons_self, rfl, same.symm⟩
  · rw [found] at gone
    cases gone

theorem pruned_of_takesAll (alone : ∀ taker ∈ rest, taker.prevout.hash ≠ txin.prevout.hash)
    (takes : TakesAll (txin :: rest) txin.prevout.hash (view.coins txin.prevout.hash)) :
    spent.isPruned = true := by
  obtain ⟨-, -, outputs, -, -, -⟩ := spend_cases run
  refine (CCoins.isPruned_iff_output spent).mpr fun n => ?_
  rw [outputs]
  split
  · rfl
  · rename_i apart
    cases found : (view.coins txin.prevout.hash).output n with
    | none => rfl
    | some out =>
      obtain ⟨taker, among, hash, place⟩ := takes n out found
      rcases List.mem_cons.mp among with rfl | among
      · exact absurd place.symm apart
      · exact absurd hash (alone taker among)

theorem inputsFit_cons (present : ∀ other ∈ rest, ∃ out, ((view.setCoins txin.prevout.hash
      spent).coins other.prevout.hash).output other.prevout.n.toNat = some out) :
    InputsFit (txin :: rest) view ↔
      Restorable undo ∧ InputsFit rest (view.setCoins txin.prevout.hash spent) := by
  obtain ⟨here, -, -, -, -, -⟩ := spend_cases run
  rw [restorable_spend run]
  constructor
  · intro fit
    refine ⟨⟨fit.outs txin List.mem_cons_self _ here, fun pruned =>
      fit.metadata txin List.mem_cons_self (takesAll_of_pruned run pruned)⟩, ?_, ?_⟩
    · intro other member out found
      exact fit.outs other (List.mem_cons_of_mem _ member) out (spent_output run found).1
    · intro other member
      obtain ⟨out, left⟩ := present other member
      exact (metadata_later run left).mpr (fit.metadata other (List.mem_cons_of_mem _ member))
  · rintro ⟨⟨outFits, metadataFits⟩, fit⟩
    have later : ∀ other ∈ rest,
        TakesAll (txin :: rest) other.prevout.hash (view.coins other.prevout.hash) →
          MetadataFits (view.coins other.prevout.hash).nHeight.toUInt32
            (view.coins other.prevout.hash).nVersion := by
      intro other member
      obtain ⟨out, left⟩ := present other member
      exact (metadata_later run left).mp (fit.metadata other member)
    refine ⟨fun other member out found => ?_, fun other member => ?_⟩
    · rcases List.mem_cons.mp member with rfl | member
      · rw [here, Option.some.injEq] at found
        exact found ▸ outFits
      · obtain ⟨shown, left⟩ := present other member
        have same := (spent_output run left).1
        rw [found, Option.some.injEq] at same
        exact fit.outs other member out (same ▸ left)
    · rcases List.mem_cons.mp member with rfl | member
      · by_cases shared : ∃ taker ∈ rest, taker.prevout.hash = other.prevout.hash
        · obtain ⟨taker, among, hash⟩ := shared
          exact hash ▸ later taker among
        · exact fun takes => metadataFits (pruned_of_takesAll run
            (fun taker among same => shared ⟨taker, among, same⟩) takes)
      · exact later other member

end Input

/-- The records of a transaction's inputs are restorable exactly if its inputs fit the view
    that it is applied to. -/
theorem spendInputs_restorable_iff (run : spendInputs inputs view = some (final, undos)) :
    (∀ undo ∈ undos, Restorable undo) ↔ InputsFit inputs view := by
  induction inputs generalizing view undos with
  | nil =>
    cases run
    exact ⟨fun _ => ⟨nofun, nofun⟩, fun _ => nofun⟩
  | cons txin rest ih =>
    obtain ⟨spent, undo, later, spending, tail, rfl⟩ := spendInputs_cons run
    rw [inputsFit_cons spending (spendInputs_present tail), List.forall_mem_cons, ih tail]

end Spending

section Blocks

variable {txHash : CTransaction → Uint256} {nHeight : Int32} {keys : PubKeyLibrary}

/-- A transaction whose undo data comes back when it is applied to a view. -/
structure TxFits (tx : CTransaction) (view : UtxoView) : Prop where
  count : (inputsSpent tx).length ≤ maxSize
  inputs : InputsFit (inputsSpent tx) view

variable {view updated : UtxoView} {tx : CTransaction} {txundo : CTxUndo} {txs : List CTransaction}
variable {undos : List CTxUndo}

theorem updateCoins_undo (run : updateCoins txHash nHeight tx view = some (updated, txundo)) :
    ∃ spent, spendInputs (inputsSpent tx) view = some (spent, txundo.vprevout) := by
  obtain ⟨⟨spent, undos⟩, spending, same⟩ := Option.map_eq_some_iff.mp run
  rw [Prod.mk.injEq] at same
  rw [← same.2]
  exact ⟨spent, spending⟩

theorem updateCoins_fits_iff (run : updateCoins txHash nHeight tx view = some (updated, txundo)) :
    (txundo.vprevout.length ≤ maxSize ∧ ∀ undo ∈ txundo.vprevout, Restorable undo) ↔
      TxFits tx view := by
  obtain ⟨spent, spending⟩ := updateCoins_undo run
  rw [(spendInputs_alongside spending).2, spendInputs_restorable_iff spending]
  exact ⟨fun fits => ⟨fits.1, fits.2⟩, fun fits => ⟨fits.count, fits.inputs⟩⟩

def EachFits (txHash : CTransaction → Uint256) (nHeight : Int32) (txs : List CTransaction)
    (view : UtxoView) : Prop :=
  ∀ before tx after seen undos, txs = before ++ tx :: after →
    applyTxs txHash nHeight before view = some (seen, undos) → TxFits tx seen

theorem eachFits_cons {rest : List CTransaction}
    (run : updateCoins txHash nHeight tx view = some (updated, txundo)) :
    EachFits txHash nHeight (tx :: rest) view ↔
      TxFits tx view ∧ EachFits txHash nHeight rest updated := by
  constructor
  · intro fits
    refine ⟨fits [] tx rest view [] rfl rfl, fun before other after seen undos split applied => ?_⟩
    refine fits (tx :: before) other after seen (txundo :: undos) (by rw [split]; rfl) ?_
    rw [applyTxs, run]
    dsimp only
    rw [applied]
    rfl
  · rintro ⟨first, later⟩ before other after seen undos split applied
    cases before with
    | nil =>
      rw [List.nil_append, List.cons.injEq] at split
      cases applied
      exact split.1 ▸ first
    | cons head before =>
      rw [List.cons_append, List.cons.injEq] at split
      obtain ⟨rfl, split⟩ := split
      obtain ⟨updated', undo', later', first', applied', -⟩ := applyTxs_cons applied
      rw [run, Option.some.injEq, Prod.mk.injEq] at first'
      rw [← first'.1] at applied'
      exact later before other after seen later' split applied'

variable {view final : UtxoView}

theorem applyTxs_fits_iff (run : applyTxs txHash nHeight txs view = some (final, undos)) :
    (∀ txundo ∈ undos,
      txundo.vprevout.length ≤ maxSize ∧ ∀ undo ∈ txundo.vprevout, Restorable undo) ↔
      EachFits txHash nHeight txs view := by
  induction txs generalizing view undos with
  | nil =>
    cases run
    refine ⟨fun _ before tx after seen undos split => ?_, fun _ => nofun⟩
    exact absurd split.symm (List.append_ne_nil_of_right_ne_nil _ (List.cons_ne_nil _ _))
  | cons tx rest ih =>
    obtain ⟨updated, txundo, later, first, tail, rfl⟩ := applyTxs_cons run
    rw [List.forall_mem_cons, updateCoins_fits_iff first, ih tail, eachFits_cons first]

theorem length_applyTxs (run : applyTxs txHash nHeight txs view = some (final, undos)) :
    undos.length = txs.length := by
  induction txs generalizing view undos with
  | nil =>
    cases run
    rfl
  | cons tx rest ih =>
    obtain ⟨updated, txundo, later, -, tail, rfl⟩ := applyTxs_cons run
    rw [List.length_cons, List.length_cons, ih tail]

/-- The transactions behind the first one, whose undo data is not kept, each fit the view that
    the ones before it leave. -/
def BlockFits (txHash : CTransaction → Uint256) (nHeight : Int32) (block : CBlock)
    (view : UtxoView) : Prop :=
  ∀ first before tx after seen undos, block.vtx = first :: (before ++ tx :: after) →
    applyTxs txHash nHeight (first :: before) view = some (seen, undos) → TxFits tx seen

theorem applyBlock_fits_iff {block : CBlock} {blockundo : CBlockUndo}
    (run : applyBlock txHash nHeight block view = some (final, blockundo)) :
    (∀ txundo ∈ blockundo.vtxundo,
      txundo.vprevout.length ≤ maxSize ∧ ∀ undo ∈ txundo.vprevout, Restorable undo) ↔
      BlockFits txHash nHeight block view := by
  obtain ⟨⟨final', undos⟩, applied, same⟩ := Option.map_eq_some_iff.mp run
  rw [Prod.mk.injEq] at same
  rw [← same.2]
  unfold BlockFits
  cases vtx : block.vtx with
  | nil =>
    rw [vtx] at applied
    cases applied
    exact ⟨fun _ first before tx after seen undos split => absurd split.symm (List.cons_ne_nil _ _),
      fun _ => nofun⟩
  | cons first rest =>
    rw [vtx] at applied
    obtain ⟨updated, txundo, later, updating, tail, rfl⟩ := applyTxs_cons applied
    rw [List.drop_one, List.tail_cons, applyTxs_fits_iff tail]
    constructor
    · intro fits other before tx after seen undos split applied
      rw [List.cons.injEq] at split
      obtain ⟨rfl, split⟩ := split
      obtain ⟨updated', undo', later', updating', tail', -⟩ := applyTxs_cons applied
      rw [updating, Option.some.injEq, Prod.mk.injEq] at updating'
      rw [← updating'.1] at tail'
      exact fits before tx after seen later' split tail'
    · intro fits before tx after seen undos split applied
      refine fits first before tx after seen (txundo :: undos) (by rw [split]) ?_
      rw [applyTxs, updating]
      dsimp only
      rw [applied]
      rfl

/-- The undo records of a transaction, and the undo data of a block, come back exactly where
    the inputs fit the views that they are spent from, and no vector is too long. -/
theorem undo_restored_iff (lawful : keys.Lawful) (full : FullKeys keys) :
    (∀ tx view updated txundo, updateCoins txHash nHeight tx view = some (updated, txundo) →
      ((∀ undo ∈ txundo.vprevout, ∀ rest,
          readTxInUndo keys (writeTxInUndo keys undo ++ rest) = some (keptTxInUndo undo, rest)) ↔
        InputsFit (inputsSpent tx) view)) ∧
    ∀ block view final blockundo,
      applyBlock txHash nHeight block view = some (final, blockundo) →
      ((∀ rest, readBlockUndo keys (writeBlockUndo keys blockundo ++ rest) =
          some (keptBlockUndo blockundo, rest)) ↔
        block.vtx.length - 1 ≤ maxSize ∧ BlockFits txHash nHeight block view) := by
  constructor
  · intro tx view updated txundo run
    obtain ⟨spent, spending⟩ := updateCoins_undo run
    rw [← spendInputs_restorable_iff spending]
    exact forall₂_congr fun undo _ => (restores_txInUndo lawful full).iff undo
  · intro block view final blockundo run
    have count : blockundo.vtxundo.length = block.vtx.length - 1 := by
      obtain ⟨⟨final', undos⟩, applied, same⟩ := Option.map_eq_some_iff.mp run
      rw [Prod.mk.injEq] at same
      rw [← same.2, List.length_drop, length_applyTxs applied]
    rw [(restores_blockUndo lawful full).iff, count, applyBlock_fits_iff run]

/-- Coins made by the node's own blocks lose nothing: amounts of the money range, scripts that
    a reader takes, a height above zero and a version that is not negative. -/
theorem inputsFit_ordinary {inputs : List CTxIn} {view : UtxoView}
    (outs : ∀ txin ∈ inputs, ∀ out,
      (view.coins txin.prevout.hash).output txin.prevout.n.toNat = some out →
        0 ≤ out.nValue ∧ out.nValue ≤ 10 ^ 18 ∧ out.scriptPubKey.length ≤ maxSize)
    (heights : ∀ txin ∈ inputs, 0 < (view.coins txin.prevout.hash).nHeight.toInt ∧
      (view.coins txin.prevout.hash).nHeight.toInt < 2 ^ 30)
    (versions : ∀ txin ∈ inputs, 0 ≤ (view.coins txin.prevout.hash).nVersion.toInt) :
    InputsFit inputs view where
  outs txin member out found := by
    obtain ⟨least, most, short⟩ := outs txin member out found
    have limit : maxSize = 0x02000000 := rfl
    have codes : nSpecialScripts = 6 := rfl
    exact ⟨keptTxOut_value least most, by omega⟩
  metadata txin member _ := by
    obtain ⟨positive, small⟩ := heights txin member
    generalize (view.coins txin.prevout.hash).nHeight = nHeight at positive small ⊢
    have word : nHeight.toUInt32.toNat = nHeight.toInt.toNat :=
      Int32.toNat_toUInt32_of_le (Int32.le_iff_toInt_le.mpr (le_of_lt positive))
    refine ⟨by omega, versions txin member, fun zero => ?_⟩
    rw [zero] at word
    have none' : (0 : UInt32).toNat = 0 := rfl
    omega

end Blocks

section Payments

def paymentView (nVersion nHeight : Int32) : UtxoView where
  cacheCoins := ∅
  hashBlock := 0
  base txid := if txid = 1 then some (CCoins.fromTx (payment nVersion 1) nHeight) else none
  baseBestBlock := 0
  fresh_over_pruned := by simp

def reward : CTransaction :=
  ⟨1, [⟨COutPoint.null, [0x51, 0x51], 0⟩], [⟨5 * COIN, [0x51], -10⟩], 0⟩

def paymentBlock : CBlock where
  nVersion := 4
  hashPrevBlock := 0
  hashMerkleRoot := 0
  nTime := 0
  nBits := 0
  nNonce := 0
  nAccumulatorCheckpoint := 0
  vtx := [reward, payment 1 1]
  vchBlockSig := []

def paymentHash (tx : CTransaction) : Uint256 := if tx = reward then 2 else 3

theorem noKeys_full : FullKeys noKeys := fun _ _ found => absurd found (Option.some_ne_none _).symm

theorem paymentBlock_restored : ∃ final blockundo,
    applyBlock paymentHash 200 paymentBlock (paymentView 1 100) = some (final, blockundo) ∧
      ∀ rest, readBlockUndo noKeys (writeBlockUndo noKeys blockundo ++ rest) =
        some (keptBlockUndo blockundo, rest) := by
  have applied : ∃ final blockundo, applyBlock paymentHash 200 paymentBlock (paymentView 1 100) =
      some (final, blockundo) := ⟨_, _, rfl⟩
  obtain ⟨final, blockundo, run⟩ := applied
  refine ⟨final, blockundo, run, ((undo_restored_iff noKeys_lawful noKeys_full).2 paymentBlock
    (paymentView 1 100) final blockundo run).mpr ⟨by decide, ?_⟩⟩
  intro first before tx after seen undos split applied
  cases before with
  | cons head before =>
    simp [paymentBlock] at split
  | nil =>
    obtain ⟨rfl, rfl, rfl⟩ := split
    cases applied
    refine ⟨by decide, inputsFit_ordinary ?_ ?_ ?_⟩
    · rintro txin member out found
      rw [List.mem_singleton.mp member] at found
      cases found
      decide
    · rintro txin member
      rw [List.mem_singleton.mp member]
      decide
    · rintro txin member
      rw [List.mem_singleton.mp member]
      decide

theorem payment_record (nVersion nHeight : Int32) :
    ∃ updated, updateCoins paymentHash 200 (payment 1 1) (paymentView nVersion nHeight) =
      some (updated, ⟨[⟨⟨100000000, [OxidScript.OP_DUP], -10⟩, false, false,
        nHeight.toUInt32, nVersion⟩]⟩) := ⟨_, rfl⟩

def RecordLost (nVersion nHeight : Int32) : Prop :=
  ∃ updated txundo, updateCoins paymentHash 200 (payment 1 1) (paymentView nVersion nHeight) =
      some (updated, txundo) ∧
    ¬∀ undo ∈ txundo.vprevout, ∀ rest,
      readTxInUndo noKeys (writeTxInUndo noKeys undo ++ rest) = some (keptTxInUndo undo, rest)

theorem recordLost_of_unfit {nVersion nHeight : Int32}
    (unfit : ¬MetadataFits nHeight.toUInt32 nVersion) : RecordLost nVersion nHeight := by
  obtain ⟨updated, run⟩ := payment_record nVersion nHeight
  refine ⟨updated, _, run, fun back => ?_⟩
  have fits := ((restores_txInUndo noKeys_lawful noKeys_full).iff _).mp
    (back _ List.mem_cons_self)
  exact unfit fits.metadata

theorem metadata_lost : RecordLost (-1) 100 ∧ RecordLost 1 1073741824 :=
  ⟨recordLost_of_unfit fun fits => absurd fits.version (by decide),
    recordLost_of_unfit fun fits => absurd fits.height (by decide)⟩

end Payments

end OxidUndoSerialize
