import Oxid.UtxoView
import Oxid.Zerocoin

/-!
Applying a block's transactions to a coins view with `UpdateCoins`, and taking them back
with `DisconnectBlock`. A failed disconnect has already erased records, so its state is
returned with the failure.
-/
namespace OxidDisconnectBlock
open OxidPrimitives OxidCoins OxidZerocoin OxidUtxoView

structure CTxUndo where
  vprevout : List CTxInUndo
deriving DecidableEq, Repr

structure CBlockUndo where
  vtxundo : List CTxUndo
deriving DecidableEq, Repr

/-- The guard of both loops over inputs: neither coinbases nor zerocoin spends
    have inputs in the coins view. -/
def spendsInputs (tx : CTransaction) : Bool := !tx.isCoinBase && !tx.isZerocoinSpend

def spendInputs : List CTxIn → UtxoView → Option (UtxoView × List CTxInUndo)
  | [], view => some (view, [])
  | txin :: rest, view =>
    match (view.coins txin.prevout.hash).spend txin.prevout with
    | none => none
    | some (spent, undo) =>
      (spendInputs rest (view.setCoins txin.prevout.hash spent)).map fun (view', undos) =>
        (view', undo :: undos)

theorem spendInputs_cons {txin : CTxIn} {rest : List CTxIn} {view final : UtxoView}
    {undos : List CTxInUndo} (run : spendInputs (txin :: rest) view = some (final, undos)) :
    ∃ spent undo later, (view.coins txin.prevout.hash).spend txin.prevout = some (spent, undo) ∧
      spendInputs rest (view.setCoins txin.prevout.hash spent) = some (final, later) ∧
      undos = undo :: later := by
  rw [spendInputs] at run
  cases spending : (view.coins txin.prevout.hash).spend txin.prevout with
  | none => simp [spending] at run
  | some result =>
    obtain ⟨spent, undo⟩ := result
    simp only [spending, Option.map_eq_some_iff, Prod.mk.injEq] at run
    obtain ⟨⟨view', later⟩, tail, rfl, rfl⟩ := run
    exact ⟨spent, undo, later, rfl, tail, rfl⟩

def updateCoins (txHash : CTransaction → Uint256) (nHeight : Int32) (tx : CTransaction)
    (view : UtxoView) : Option (UtxoView × CTxUndo) :=
  (spendInputs (if spendsInputs tx then tx.vin else []) view).map fun (spent, undos) =>
    (spent.setCoins (txHash tx) (CCoins.fromTx tx nHeight), ⟨undos⟩)

def applyTxs (txHash : CTransaction → Uint256) (nHeight : Int32) :
    List CTransaction → UtxoView → Option (UtxoView × List CTxUndo)
  | [], view => some (view, [])
  | tx :: rest, view =>
    match updateCoins txHash nHeight tx view with
    | none => none
    | some (view', undo) =>
      (applyTxs txHash nHeight rest view').map fun (final, undos) => (final, undo :: undos)

theorem applyTxs_cons {txHash : CTransaction → Uint256} {nHeight : Int32} {tx : CTransaction}
    {rest : List CTransaction} {view final : UtxoView} {undos : List CTxUndo}
    (run : applyTxs txHash nHeight (tx :: rest) view = some (final, undos)) :
    ∃ updated undo later, updateCoins txHash nHeight tx view = some (updated, undo) ∧
      applyTxs txHash nHeight rest updated = some (final, later) ∧ undos = undo :: later := by
  rw [applyTxs] at run
  cases updating : updateCoins txHash nHeight tx view with
  | none => simp [updating] at run
  | some result =>
    obtain ⟨updated, undo⟩ := result
    simp only [updating, Option.map_eq_some_iff, Prod.mk.injEq] at run
    obtain ⟨⟨view', later⟩, tail, rfl, rfl⟩ := run
    exact ⟨updated, undo, later, rfl, tail, rfl⟩

def applyBlock (txHash : CTransaction → Uint256) (nHeight : Int32) (block : CBlock)
    (view : UtxoView) : Option (UtxoView × CBlockUndo) :=
  (applyTxs txHash nHeight block.vtx view).map fun (final, undos) => (final, ⟨undos.drop 1⟩)

inductive DisconnectFailure where
  | error (message : String)
  | thrown
  | assertion
  | outOfRange
deriving DecidableEq, Repr

structure DisconnectState where
  view : UtxoView
  zerocoinDB : CZerocoinDB
  fClean : Bool

def eraseSpends (zerocoin : ZerocoinLibrary) :
    List CTxIn → CZerocoinDB → CZerocoinDB × Option DisconnectFailure
  | [], db => (db, none)
  | txin :: rest, db =>
    if CScript.isZerocoinSpend txin.scriptSig then
      match zerocoin.txInToZerocoinSpend txin with
      | none => (db, some .thrown)
      | some spend => eraseSpends zerocoin rest (db.eraseCoinSpend spend.coinSerialNumber)
    else eraseSpends zerocoin rest db

def eraseMints (zerocoin : ZerocoinLibrary) :
    List CTxOut → CZerocoinDB → CZerocoinDB × Option DisconnectFailure
  | [], db => (db, none)
  | txout :: rest, db =>
    if CScript.isZerocoinMint txout.scriptPubKey then
      match txOutToPublicCoin zerocoin txout with
      | none => (db, some (.error "DisconnectBlock(): TxOutToPublicCoin() failed"))
      | some pubCoin => eraseMints zerocoin rest (db.eraseCoinMint pubCoin.value)
    else eraseMints zerocoin rest db

def undoZerocoin (zerocoin : ZerocoinLibrary) (tx : CTransaction) (db : CZerocoinDB) :
    CZerocoinDB × Option DisconnectFailure :=
  match eraseSpends zerocoin (if tx.isZerocoinSpend then tx.vin else []) db with
  | (db', some failure) => (db', some failure)
  | (db', none) => eraseMints zerocoin (if tx.isZerocoinMint then tx.vout else []) db'

def removeOutputs (txHash : CTransaction → Uint256) (nHeight : Int32) (tx : CTransaction)
    (state : DisconnectState) : DisconnectState :=
  let outs := (state.view.coins (txHash tx)).clearUnspendable
  let outsBlock := CCoins.fromTx tx nHeight
  let outs := if outsBlock.nVersion < 0 then { outs with nVersion := outsBlock.nVersion } else outs
  { state with
    view := state.view.setCoins (txHash tx) CCoins.empty
    fClean := state.fClean && outs.same outsBlock }

/-- Put one spent output back. The record of a last spend carries a height, and
    then the coins are rebuilt from it. No vector the node reads has 2^32 entries,
    so the source's `out.n + 1` does not wrap. -/
def restoreCoins (coins : CCoins) (out : COutPoint) (undo : CTxInUndo) : CCoins × Bool :=
  let found := if undo.nHeight ≠ 0 then coins.isPruned else !coins.isPruned
  let coins := if undo.nHeight ≠ 0 then
      { CCoins.empty with
        fCoinBase := undo.fCoinBase, nHeight := undo.nHeight.toInt32, nVersion := undo.nVersion }
    else coins
  let resized := if coins.vout.length < out.n.toNat + 1 then
      coins.vout ++ List.replicate (out.n.toNat + 1 - coins.vout.length) CTxOut.null
    else coins.vout
  ({ coins with vout := resized.set out.n.toNat undo.txout }, found && !coins.isAvailable out.n)

def restoreInput (txin : CTxIn) (undo : CTxInUndo) (state : DisconnectState) : DisconnectState :=
  let (coins, clean) := restoreCoins (state.view.coins txin.prevout.hash) txin.prevout undo
  { state with
    view := state.view.setCoins txin.prevout.hash coins
    fClean := state.fClean && clean }

def restoreInputs (inputs : List (CTxIn × CTxInUndo)) (state : DisconnectState) :
    DisconnectState :=
  inputs.foldr (fun (txin, undo) later => restoreInput txin undo later) state

def disconnectTx (zerocoin : ZerocoinLibrary) (txHash : CTransaction → Uint256) (nHeight : Int32)
    (tx : CTransaction) (txundo : Option CTxUndo) (state : DisconnectState) :
    DisconnectState × Option DisconnectFailure :=
  match undoZerocoin zerocoin tx state.zerocoinDB with
  | (db, some failure) => ({ state with zerocoinDB := db }, some failure)
  | (db, none) =>
    let removed := removeOutputs txHash nHeight tx { state with zerocoinDB := db }
    if spendsInputs tx then
      match txundo with
      | none => (removed, some .outOfRange)
      | some txundo =>
        if txundo.vprevout.length ≠ tx.vin.length then
          (removed, some (.error
            s!"DisconnectBlock() : transaction and undo data inconsistent - txundo.vprevout.siz={txundo.vprevout.length} tx.vin.siz={tx.vin.length}"))
        else (restoreInputs (tx.vin.zip txundo.vprevout) removed, none)
    else (removed, none)

def disconnectTxs (zerocoin : ZerocoinLibrary) (txHash : CTransaction → Uint256)
    (nHeight : Int32) : List (CTransaction × Option CTxUndo) → DisconnectState →
    DisconnectState × Option DisconnectFailure
  | [], state => (state, none)
  | (tx, txundo) :: rest, state =>
    match disconnectTxs zerocoin txHash nHeight rest state with
    | (later, some failure) => (later, some failure)
    | (later, none) => disconnectTx zerocoin txHash nHeight tx txundo later

/-- What `DisconnectBlock` reads of the index entry and its parent. -/
structure DisconnectTarget where
  blockHash : Uint256
  prevHash : Uint256
  nHeight : Int32
  hasUndoPos : Bool
  nAccumulatorCheckpoint : Uint256
  prevAccumulatorCheckpoint : Uint256
  fVerifyingBlocks : Bool
deriving DecidableEq, Repr

/-- `DisconnectBlock` on the undo data read from disk, if that succeeded. Without
    failure the source returns `fClean`, or true when the caller takes it separately. -/
def disconnectBlock (zerocoin : ZerocoinLibrary) (txHash : CTransaction → Uint256)
    (block : CBlock) (target : DisconnectTarget) (readUndo : Option CBlockUndo) (view : UtxoView)
    (zerocoinDB : CZerocoinDB) : DisconnectState × Option DisconnectFailure :=
  let start : DisconnectState := ⟨view, zerocoinDB, true⟩
  if target.blockHash ≠ view.getBestBlock then (start, some .assertion)
  else if !target.hasUndoPos then
    (start, some (.error "DisconnectBlock() : no undo data available"))
  else
    match readUndo with
    | none => (start, some (.error "DisconnectBlock() : failure reading undo data"))
    | some blockUndo =>
      if blockUndo.vtxundo.length + 1 ≠ block.vtx.length then
        (start, some (.error "DisconnectBlock() : block and undo data inconsistent"))
      else
        match disconnectTxs zerocoin txHash target.nHeight
            (block.vtx.zip (none :: blockUndo.vtxundo.map some)) start with
        | (final, some failure) => (final, some failure)
        | (final, none) =>
          let moved := { final with view := final.view.setBestBlock target.prevHash }
          if !target.fVerifyingBlocks &&
              target.nAccumulatorCheckpoint != target.prevAccumulatorCheckpoint then
            ({ moved with
              zerocoinDB := eraseAccumulatorValues moved.zerocoinDB target.nAccumulatorCheckpoint
                target.prevAccumulatorCheckpoint }, none)
          else (moved, none)

end OxidDisconnectBlock
