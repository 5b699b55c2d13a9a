import Oxid.CheckBlock

/-!
`ConnectBlock`, check by check and write by write. A refused call leaves the state with what
it had written by then. Written data stand for their places on disk; the undo data of an
entry are there once its status says so.
-/
namespace OxidConnectBlock
open OxidPrimitives OxidCoins OxidUtxoView OxidDisconnectBlock OxidZerocoin OxidChainParams
open OxidNode OxidCheckBlock Attempt

def SLOW_START_BLOCK : Int := 10000
def MAX_REWARD : Int := 10

def getBlockValue (nHeight : Int) : Int :=
  if nHeight = 0 then 2650000 * COIN
  else if 0 < nHeight ∧ nHeight ≤ SLOW_START_BLOCK then COIN / 10
  else if SLOW_START_BLOCK < nHeight ∧ nHeight ≤ 262800 then MAX_REWARD * COIN
  else if 262800 < nHeight ∧ nHeight ≤ 525600 then 8 * COIN
  else if 525600 < nHeight ∧ nHeight ≤ 788400 then 6 * COIN
  else if 788400 < nHeight then 4 * COIN
  else 0 * COIN

/-- Keys of `mapInvalidOutPoints` and `mapInvalidSerials`. -/
structure InvalidMaps where
  outPoints : COutPoint → Bool
  serials : Int → Bool

abbrev AccumulatorValues := UInt32 → Option Int

/-- The arguments of a call, whether each of its disk writes succeeds, and the routines it hands
    the accumulators and the invalid outpoints to. -/
structure ConnectCall where
  block : CBlock
  ancestry : List CBlockIndex
  phashBlock : Option Uint256
  fJustCheck : Bool
  fAlreadyChecked : Bool
  coinSpendWritten : Bool
  blockIndexWritten : Bool
  undoPosFound : Bool
  undoWritten : Bool
  txIndexWritten : Bool
  calculateAccumulatorCheckpoint :
    Int → InvalidMaps → AccumulatorValues → AccumulatorValues × Option Uint256
  reindexAccumulators : InvalidMaps → AccumulatorValues → AccumulatorValues × Bool
  populateInvalidOutPointMap : InvalidMaps → InvalidMaps

structure ConnectState where
  view : UtxoView
  zerocoinDB : CZerocoinDB
  blockTree : Uint256 → Option CBlockIndex
  txIndex : TxIndex
  pindex : CBlockIndex
  undo : Option CBlockUndo
  fDirty : Bool
  invalid : InvalidMaps

structure BlockTotals where
  nFees : Int
  nValueIn : Int
  nValueOut : Int
  nSigOps : Nat
  vtxundo : List CTxUndo
  fScriptsPass : Bool

def BlockTotals.init : BlockTotals := ⟨0, 0, 0, 0, [], true⟩

abbrev Connecting := EStateM Failure ConnectState

def haveInputs (coins : Uint256 → CCoins) (tx : CTransaction) : Bool :=
  !spendsInputs tx || tx.vin.all fun txin => (coins txin.prevout.hash).isAvailable txin.prevout.n

def getOutputFor (coins : Uint256 → CCoins) (txin : CTxIn) : CTxOut :=
  ((coins txin.prevout.hash).vout[txin.prevout.n.toNat]?).getD CTxOut.null

def getValueIn (coins : Uint256 → CCoins) (tx : CTransaction) : Int :=
  (tx.vin.map fun txin => (getOutputFor coins txin).nValue).sum

def validOutPoint (params : ChainParams) (invalid : InvalidMaps) (out : COutPoint)
    (nHeight : Int) : Bool :=
  !(decide (params.nBlockEnforceInvalidUTXO ≤ nHeight) && invalid.outPoints out)

def INT_MAX : Int := 2147483647

section Calls

variable (machinery : Machinery) (node : Node) (call : ConnectCall)

def hashPrevBlock : Uint256 := (call.ancestry.head?.map CBlockIndex.hash).getD 0

def enforceBIP30 (nHeight : Int) : Bool :=
  match call.phashBlock with
  | none => true
  | some hash =>
    !((nHeight == 91842 &&
        hash == 0x00000000000a4d0a398161ffc163c503763b1f4360639393e0e4c8e300e0caec) ||
      (nHeight == 91880 &&
        hash == 0x00000000000743f190a18c5577a3c2d2a1f610ae9601ac046a38084ccb7cd721))

def checkBefore (state : ConnectState) : Except Failure Unit := do
  require (decide (call.block.isProofOfStake = true → node.params.nLastPOWBlock <
      state.pindex.nHeight)) (.dos 100 REJECT_INVALID "PoS-early" false)
  require (decide (call.block.isProofOfWork = true → state.pindex.nHeight ≤
      node.params.nLastPOWBlock)) (.dos 100 REJECT_INVALID "PoW-ended" false)
  require (!enforceBIP30 call state.pindex.nHeight || call.block.vtx.all fun tx =>
      (state.view.coins (machinery.txHash tx)).isPruned)
    (.dos 100 REJECT_INVALID "bad-txns-BIP30" false)

def scriptFlags (pindex : CBlockIndex) : ScriptFlags where
  p2sh := decide (1333238400 ≤ pindex.getBlockTime)
  derSig := decide (3 ≤ call.block.nVersion) && isSuperMajority node.params 3 call.ancestry
    node.params.nEnforceBlockUpgradeMajority

def checkInputValues (coins : Uint256 → CCoins) (nSpendHeight : Int) :
    List CTxIn → Int → Except Failure Int
  | [], nValueIn => .ok nValueIn
  | txin :: rest, nValueIn => do
    let spent := coins txin.prevout.hash
    require (!(spent.fCoinBase || spent.fCoinStake) ||
        decide (node.params.nMaturity ≤ nSpendHeight - spent.nHeight.toInt))
      (.refused (CValidationState.init.invalid REJECT_INVALID
        "bad-txns-premature-spend-of-coinbase"))
    let nValue := (getOutputFor coins txin).nValue
    require (moneyRange node.params nValue && moneyRange node.params (nValueIn + nValue))
      (.dos 100 REJECT_INVALID "bad-txns-inputvalues-outofrange" false)
    checkInputValues coins nSpendHeight rest (nValueIn + nValue)

def REJECT_NONSTANDARD : UInt8 := 0x40

/-- The verdict on one input's script when it is checked at once. A retry without
    the optional flag that succeeds reports its own outcome. -/
def checkScript (coins : Uint256 → CCoins) (tx : CTransaction) (flags : ScriptFlags)
    (nIn : Nat) (txin : CTxIn) : Except Failure Unit :=
  let spent := coins txin.prevout.hash
  match machinery.verifyScript tx nIn spent flags with
  | none => .ok ()
  | some scriptError =>
    if flags.derSig &&
        (machinery.verifyScript tx nIn spent { flags with derSig := false }).isNone then
      .error (.refused (CValidationState.init.invalid REJECT_NONSTANDARD
        "non-mandatory-script-verify-flag (No error)"))
    else
      .error (.dos 100 REJECT_INVALID s!"mandatory-script-verify-flag-failed ({scriptError})" false)

def checkScripts (coins : Uint256 → CCoins) (tx : CTransaction) (flags : ScriptFlags) :
    Nat → List CTxIn → Except Failure Unit
  | _, [] => .ok ()
  | nIn, txin :: rest => do
    checkScript machinery coins tx flags nIn txin
    checkScripts coins tx flags (nIn + 1) rest

def scriptsPass (coins : Uint256 → CCoins) (tx : CTransaction) (flags : ScriptFlags) : Bool :=
  tx.vin.zipIdx.all fun (txin, nIn) =>
    (machinery.verifyScript tx nIn (coins txin.prevout.hash) flags).isNone

def checkTxFee (tx : CTransaction) (nValueIn : Int) : Except Failure Unit :=
  if tx.isCoinStake then .ok ()
  else do
    let nValueOut ← getValueOut tx
    require (decide (nValueOut ≤ nValueIn)) (.dos 100 REJECT_INVALID "bad-txns-in-belowout" false)
    require (moneyRange node.params (nValueIn - nValueOut))
      (.dos 100 REJECT_INVALID "bad-txns-fee-outofrange" false)

/-- `CheckInputs` on a transaction that spends inputs, with the verdict of the
    script checks it queued. -/
def checkInputs (view : UtxoView) (tx : CTransaction) (fScriptChecks : Bool)
    (flags : ScriptFlags) : Except Failure Bool := do
  require (haveInputs view.coins tx) (.refused (CValidationState.init.invalid 0 ""))
  match node.mapBlockIndex view.getBestBlock with
  | none => .error .crashed
  | some pindexPrev => do
    let nValueIn ← checkInputValues node view.coins (pindexPrev.nHeight + 1) tx.vin 0
    checkTxFee node tx nValueIn
    if !fScriptChecks then .ok true
    else if 0 < node.nScriptCheckThreads then
      .ok (scriptsPass machinery view.coins tx flags)
    else do
      checkScripts machinery view.coins tx flags 0 tx.vin
      .ok true

def getTxFee (tx : CTransaction) (nValueIn : Int) : Except Failure Int :=
  if tx.isCoinStake then .ok 0
  else do
    let nValueOut ← getValueOut tx
    .ok (nValueIn - nValueOut)

def connectInputs (state : ConnectState) (tx : CTransaction) (totals : BlockTotals) :
    Except Failure BlockTotals := do
  let flags := scriptFlags node call state.pindex
  require (haveInputs state.view.coins tx)
    (.dos 100 REJECT_INVALID "bad-txns-inputs-missingorspent" false)
  require (tx.vin.all fun txin => validOutPoint node.params state.invalid txin.prevout
      state.pindex.nHeight) (.dos 100 REJECT_INVALID "bad-txns-invalid-inputs" false)
  let nSigOps :=
    if flags.p2sh then totals.nSigOps + machinery.p2shSigOpCount tx state.view.coins
    else totals.nSigOps
  require (decide (nSigOps ≤ MAX_BLOCK_SIGOPS_CURRENT))
    (.dos 100 REJECT_INVALID "bad-blk-sigops" false)
  let nValueIn := getValueIn state.view.coins tx
  let nTxFee ← getTxFee tx nValueIn
  let fScriptChecks := decide (node.nTotalBlocksEstimate ≤ state.pindex.nHeight)
  let passed ← checkInputs machinery node state.view tx fScriptChecks flags
  .ok { totals with
    nFees := totals.nFees + nTxFee
    nValueIn := totals.nValueIn + nValueIn
    nSigOps := nSigOps
    fScriptsPass := totals.fScriptsPass && passed }

def alreadyInChain (nHeight : Int) (found : Option Int) : Bool :=
  found.any fun nHeightTx => !node.fVerifyingBlocks || decide (nHeightTx < nHeight)

def checkSpend (state : ConnectState) (spend : CoinSpend) : Except Failure Unit := do
  require (machinery.hasValidSerial spend ||
    decide (state.pindex.nHeight < node.params.nBlockEnforceSerialRange)) .ban
  require (!alreadyInChain node state.pindex.nHeight
    (isSerialInBlockchain machinery node state.txIndex state.zerocoinDB spend.coinSerialNumber))
    .ban
  require call.coinSpendWritten .plain

def recordSpend (serial : Int) (txid : Uint256) (state : ConnectState) : ConnectState :=
  { state with zerocoinDB := state.zerocoinDB.writeCoinSpend serial txid }

def connectSpend (txid : Uint256) (txin : CTxIn) (nValueIn : Int) : Connecting Int :=
  if CScript.isZerocoinSpend txin.scriptSig then do
    let spend ← check (txInToZerocoinSpend machinery txin)
    let state ← reading id
    check (checkSpend machinery node call state spend)
    update (recordSpend spend.coinSerialNumber txid)
    pure (nValueIn + zerocoinDenominationToInt spend.denomination * COIN)
  else pure nValueIn

def connectSpends (tx : CTransaction) (totals : BlockTotals) : Connecting BlockTotals := do
  let state ← reading id
  check (require (!alreadyInChain node state.pindex.nHeight
      (isTransactionInChain machinery node state.txIndex (machinery.txHash tx)))
    (.dos 100 REJECT_INVALID "bad-txns-inputs-missingorspent" false))
  let nValueIn ← forEach (connectSpend machinery node call (machinery.txHash tx)) tx.vin
    totals.nValueIn
  pure { totals with nValueIn := nValueIn }

/-- `UpdateCoins` on the view. A failed assertion ends the process. -/
def connectCoins (tx : CTransaction) : Connecting CTxUndo := do
  let state ← reading id
  match updateCoins machinery.txHash (Int32.ofInt state.pindex.nHeight) tx state.view with
  | none => failing .crashed
  | some (view, undo) => do
    update fun state => { state with view := view }
    pure undo

def connectKind (tx : CTransaction) (totals : BlockTotals) : Connecting BlockTotals :=
  if tx.isZerocoinSpend then connectSpends machinery node call tx totals
  else if tx.isCoinBase then pure totals
  else do
    let state ← reading id
    check (connectInputs machinery node call state tx totals)

def countSigOps (tx : CTransaction) (totals : BlockTotals) : BlockTotals :=
  { totals with nSigOps := totals.nSigOps + machinery.legacySigOpCount tx }

def connectTx (tx : CTransaction) (totals : BlockTotals) : Connecting BlockTotals := do
  check (require (decide ((countSigOps machinery tx totals).nSigOps ≤ MAX_BLOCK_SIGOPS_CURRENT))
    (.dos 100 REJECT_INVALID "bad-blk-sigops" false))
  let totals ← connectKind machinery node call tx (countSigOps machinery tx totals)
  let nValueOut ← check (getValueOut tx)
  let undo ← connectCoins machinery tx
  pure { totals with
    nValueOut := totals.nValueOut + nValueOut
    vtxundo := totals.vtxundo ++ [undo] }

def connectTxs : Connecting BlockTotals :=
  forEach (connectTx machinery node call) call.block.vtx BlockTotals.init

/-- The mints of a transaction's outputs from an index on, and whether every one
    of them had a denomination. -/
def mintsOfOutputs (fFilterInvalid : Bool) (invalid : InvalidMaps) (txid : Uint256) :
    List CTxOut → Nat → List CoinDenomination × Bool
  | [], _ => ([], true)
  | txOut :: rest, i =>
    if fFilterInvalid &&
        !validOutPoint node.params invalid ⟨txid, UInt32.ofNat i⟩ INT_MAX then ([], true)
    else if CScript.isZerocoinMint txOut.scriptPubKey then
      match txOutToPublicCoin machinery.zerocoin txOut with
      | none => ([], false)
      | some pubCoin =>
        let (mints, valid) := mintsOfOutputs fFilterInvalid invalid txid rest (i + 1)
        (pubCoin.denomination :: mints, valid)
    else mintsOfOutputs fFilterInvalid invalid txid rest (i + 1)

def blockToZerocoinMintList (fFilterInvalid : Bool) (invalid : InvalidMaps) :
    List CTransaction → List CoinDenomination
  | [] => []
  | tx :: rest =>
    if !tx.isZerocoinMint || (fFilterInvalid && !tx.vin.all fun txin =>
        validOutPoint node.params invalid txin.prevout INT_MAX) then
      blockToZerocoinMintList fFilterInvalid invalid rest
    else
      match mintsOfOutputs machinery node fFilterInvalid invalid (machinery.txHash tx) tx.vout 0 with
      | (mints, false) => mints
      | (mints, true) => mints ++ blockToZerocoinMintList fFilterInvalid invalid rest

/-- Inputs the spend list leaves out: no spends, or spends of a marked serial. -/
def skipsInput (fFilterInvalid : Bool) (invalid : InvalidMaps) (txin : CTxIn) :
    Except Failure Bool :=
  if !CScript.isZerocoinSpend txin.scriptSig then .ok true
  else if fFilterInvalid then do
    let spend ← txInToZerocoinSpend machinery txin
    .ok (invalid.serials spend.coinSerialNumber)
  else .ok false

def spendsOfInputs (fFilterInvalid : Bool) (invalid : InvalidMaps) :
    List CTxIn → Except Failure (List CoinDenomination)
  | [] => .ok []
  | txin :: rest => do
    let skipped ← skipsInput machinery fFilterInvalid invalid txin
    let later ← spendsOfInputs fFilterInvalid invalid rest
    .ok (if skipped then later else intToZerocoinDenomination txin.nSequence.toNat :: later)

def zerocoinSpendListFromBlock (fFilterInvalid : Bool) (invalid : InvalidMaps) :
    List CTransaction → Except Failure (List CoinDenomination)
  | [] => .ok []
  | tx :: rest => do
    let vSpends ←
      spendsOfInputs machinery fFilterInvalid invalid (if tx.isZerocoinSpend then tx.vin else [])
    let later ← zerocoinSpendListFromBlock fFilterInvalid invalid rest
    .ok (vSpends ++ later)

def editIndex (edit : CBlockIndex → CBlockIndex) (state : ConnectState) : ConnectState :=
  { state with pindex := edit state.pindex }

/-- The supply starts over from the parent's only above header version 3. -/
def inheritSupply (parent pindex : CBlockIndex) : CBlockIndex :=
  if 3 < parent.nVersion then
    { pindex with
      mapZerocoinSupply := fun denom =>
        if denom ∈ zerocoinDenomList then parent.mapZerocoinSupply denom
        else pindex.mapZerocoinSupply denom }
  else pindex

def addToSupply (denom : CoinDenomination) (change : Int) (pindex : CBlockIndex) : CBlockIndex :=
  { pindex with
    mapZerocoinSupply := Function.update pindex.mapZerocoinSupply denom
      (pindex.mapZerocoinSupply denom + change) }

def addMints (mints : List CoinDenomination) (pindex : CBlockIndex) : CBlockIndex :=
  mints.foldl (fun pindex denom =>
    addToSupply denom 1 { pindex with
      vMintDenominationsInBlock := pindex.vMintDenominationsInBlock ++ [denom] }) pindex

def removeSpend (denom : CoinDenomination) (_ : Unit) : Connecting Unit := do
  check (require (decide (denom ∈ zerocoinDenomList)) .thrown)
  update (editIndex (addToSupply denom (-1)))
  let state ← reading id
  check (require (decide (0 ≤ state.pindex.mapZerocoinSupply denom)) .ban)

def trackZerocoinSupply : Connecting Unit := do
  let state ← reading id
  let fFilterInvalid := decide (node.params.nBlockRecalculateAccumulators ≤ state.pindex.nHeight)
  let listMints := blockToZerocoinMintList machinery node fFilterInvalid state.invalid
    call.block.vtx
  let listSpends ← check
    (zerocoinSpendListFromBlock machinery fFilterInvalid state.invalid call.block.vtx)
  match call.ancestry with
  | [] => update (editIndex fun pindex => { pindex with vMintDenominationsInBlock := [] })
  | parent :: _ => do
    update (editIndex fun pindex => addMints listMints
      { inheritSupply parent pindex with vMintDenominationsInBlock := [] })
    forEach removeSpend listSpends ()

def recordMoneySupply (totals : BlockTotals) : Connecting Unit := do
  let nMoneySupplyPrev := (call.ancestry.head?.map CBlockIndex.nMoneySupply).getD 0
  update (editIndex fun pindex =>
    { pindex with
      nMoneySupply := nMoneySupplyPrev + totals.nValueOut - totals.nValueIn
      nMint := nMoneySupplyPrev + totals.nValueOut - totals.nValueIn - nMoneySupplyPrev +
        totals.nFees })
  check (require call.blockIndexWritten .plain)
  update fun state =>
    { state with blockTree := Function.update state.blockTree state.pindex.hash state.pindex }

def getBudgetPaymentCycleBlocks (params : ChainParams) : Int :=
  if params.mainNet then 43200 else 144

/-- `IsBudgetPaymentBlock`: some finalized budget that covers the height has votes
    of more than a twentieth of what `CountEnabled` is asked for. -/
def isBudgetPaymentBlock (nBlockHeight : Int) : Bool :=
  let nFivePercent : Int := (node.nMasternodesEnabled / 20 : Nat)
  let nHighestCount := node.mapFinalizedBudgets.foldl (fun nHighestCount budget =>
    if nHighestCount < budget.nVoteCount ∧ budget.nBlockStart ≤ nBlockHeight ∧
        nBlockHeight ≤ budget.nBlockEnd then budget.nVoteCount
    else nHighestCount) (-1)
  decide (nFivePercent < nHighestCount)

def isBlockValueValid (nExpectedValue nMinted : Int) : Bool :=
  match node.tip with
  | none => true
  | some pindexPrev =>
    let nHeight := heightOfChild node pindexPrev call.block.hashPrevBlock
    if nHeight = SLOW_START_BLOCK + 1 then decide (nMinted ≤ MAX_REWARD * COIN)
    else if !node.fMasternodeSynced then
      decide (nHeight % getBudgetPaymentCycleBlocks node.params < 100) ||
        decide (nMinted ≤ nExpectedValue)
    else isBudgetPaymentBlock node nHeight || decide (nMinted ≤ nExpectedValue)

def checkReward (parent : CBlockIndex) (totals : BlockTotals) (pindex : CBlockIndex) :
    Except Failure Unit :=
  let nExpectedMint := getBlockValue parent.nHeight +
    if call.block.isProofOfWork then totals.nFees else 0
  require (isBlockValueValid node call nExpectedMint pindex.nMint)
    (.dos 100 REJECT_INVALID "bad-cb-amount" false)

def setAccumulators (values : AccumulatorValues) (state : ConnectState) : ConnectState :=
  { state with zerocoinDB := { state.zerocoinDB with accumulatorValues := values } }

def calculateCheckpoint : Connecting (Option Uint256) := do
  let state ← reading id
  let (values, nCheckpoint) := call.calculateAccumulatorCheckpoint state.pindex.nHeight
    state.invalid state.zerocoinDB.accumulatorValues
  update (setAccumulators values)
  pure nCheckpoint

def recalculateCheckpoint : Connecting Uint256 := do
  let state ← reading id
  let nHeight := state.pindex.nHeight
  check (require (decide (nHeight < node.params.nBlockRecalculateAccumulators + 20) &&
    decide (node.params.nBlockLastGoodCheckpoint < nHeight)) .ban)
  let (values, reindexed) :=
    call.reindexAccumulators state.invalid state.zerocoinDB.accumulatorValues
  update (setAccumulators values)
  check (require reindexed .ban)
  let again ← calculateCheckpoint call
  match again with
  | none => failing .ban
  | some nCheckpointCalculated => pure nCheckpointCalculated

def checkpointOrRetry (calculated : Option Uint256) : Connecting Uint256 :=
  match calculated with
  | some nCheckpoint => pure nCheckpoint
  | none => recalculateCheckpoint node call

def populateInvalid (state : ConnectState) : ConnectState :=
  if state.pindex.nHeight = node.params.nBlockRecalculateAccumulators then
    { state with invalid := call.populateInvalidOutPointMap state.invalid }
  else state

def checkAccumulator (parent : CBlockIndex) : Connecting Unit := do
  let state ← reading id
  let nHeight := state.pindex.nHeight
  if !node.fVerifyingBlocks && decide (node.params.nZerocoinStartHeight ≤ nHeight) &&
      decide (nHeight % 10 = 0) then do
    update (populateInvalid node call)
    let calculated ← calculateCheckpoint call
    let nCheckpointCalculated ← checkpointOrRetry node call calculated
    check (require (nCheckpointCalculated == call.block.nAccumulatorCheckpoint) .ban)
  else
    check (require (node.fVerifyingBlocks ||
      call.block.nAccumulatorCheckpoint == parent.nAccumulatorCheckpoint) .ban)

def haveUndo (blockundo : CBlockUndo) (state : ConnectState) : ConnectState :=
  { state with
    undo := some blockundo
    pindex := { state.pindex with nStatus := { state.pindex.nStatus with haveUndo := true } } }

/-- Undo data go to disk once. Later connects find the status set. -/
def writeUndoData (blockundo : CBlockUndo) (stored : Bool) : Connecting Unit :=
  if stored then pure ()
  else do
    check (require call.undoPosFound .plain)
    check (require call.undoWritten (.abort "Failed to write undo data"))
    update (haveUndo blockundo)

def raiseScripts (state : ConnectState) : ConnectState :=
  { state with pindex := state.pindex.raiseValidity BLOCK_VALID_SCRIPTS, fDirty := true }

def writeUndo (blockundo : CBlockUndo) : Connecting Unit := do
  let state ← reading id
  if state.pindex.nStatus.haveUndo && state.pindex.isValid BLOCK_VALID_SCRIPTS then pure ()
  else do
    writeUndoData call blockundo state.pindex.nStatus.haveUndo
    update raiseScripts

def indexTransactions (hashBlock : Uint256) (txIndex : TxIndex) : TxIndex :=
  call.block.vtx.foldl (fun txIndex tx =>
    Function.update txIndex (machinery.txHash tx) (some (hashBlock, tx))) txIndex

def writeTxIndex : Connecting Unit :=
  if node.fTxIndex then do
    check (require call.txIndexWritten (.abort "Failed to write transaction index"))
    update fun state =>
      { state with txIndex := indexTransactions machinery call state.pindex.hash state.txIndex }
  else pure ()

def markOutPoints (txid : Uint256) (count : Nat) (invalid : InvalidMaps) : InvalidMaps :=
  { invalid with
    outPoints := fun out =>
      invalid.outPoints out || (out.hash == txid && decide (out.n.toNat < count)) }

def markSerial (serial : Int) (invalid : InvalidMaps) : InvalidMaps :=
  { invalid with serials := Function.update invalid.serials serial true }

/-- One spend with an invalid serial. The marks on its own transaction are skipped
    when the transaction of the derived serial is recorded but not found. -/
def markInvalidSpend (state : ConnectState) (tx : CTransaction) (spend : CoinSpend)
    (invalid : InvalidMaps) : InvalidMaps :=
  let marked := markSerial spend.coinSerialNumber invalid
  let bnActualSerial := machinery.calculateValidSerial spend
  match state.zerocoinDB.coinSpends bnActualSerial with
  | none => markOutPoints (machinery.txHash tx) tx.vout.length marked
  | some txHash =>
    let marked := markSerial bnActualSerial marked
    match (getTransaction machinery node state.txIndex txHash).found with
    | none => marked
    | some txPrev =>
      markOutPoints (machinery.txHash tx) tx.vout.length
        (markOutPoints (machinery.txHash txPrev) txPrev.vout.length marked)

def addInvalidSpends (state : ConnectState) (tx : CTransaction) :
    List CTxIn → InvalidMaps → Except Failure InvalidMaps
  | [], invalid => .ok invalid
  | txin :: rest, invalid =>
    if CScript.isZerocoinSpend txin.scriptSig then do
      let spend ← txInToZerocoinSpend machinery txin
      addInvalidSpends state tx rest
        (if machinery.hasValidSerial spend then invalid
        else markInvalidSpend machinery node state tx spend invalid)
    else addInvalidSpends state tx rest invalid

def addInvalidSpendsToMap (state : ConnectState) :
    List CTransaction → InvalidMaps → Except Failure InvalidMaps
  | [], invalid => .ok invalid
  | tx :: rest, invalid => do
    let marked ← addInvalidSpends machinery node state tx
      (if tx.containsZerocoins then tx.vin else []) invalid
    addInvalidSpendsToMap state rest marked

def followInvalidSpends : Connecting Unit := do
  let state ← reading id
  if node.params.nBlockFirstFraudulent ≤ state.pindex.nHeight ∧
      state.pindex.nHeight ≤ node.params.nBlockRecalculateAccumulators + 1 then do
    let invalid ← check (addInvalidSpendsToMap machinery node state call.block.vtx state.invalid)
    update fun state => { state with invalid := invalid }
  else pure ()

def setBest (state : ConnectState) : ConnectState :=
  { state with view := state.view.setBestBlock state.pindex.hash }

def recordConnected (totals : BlockTotals) : Connecting Unit := do
  writeUndo call ⟨totals.vtxundo.drop 1⟩
  writeTxIndex machinery node call
  update setBest
  followInvalidSpends machinery node call

def checkAfter (totals : BlockTotals) : Connecting Unit :=
  match call.ancestry with
  | [] => failing .crashed
  | parent :: _ => do
    let state ← reading id
    check (checkReward node call parent totals state.pindex)
    checkAccumulator node call parent
    check (require totals.fScriptsPass .ban)

def connectChecks : Connecting BlockTotals := do
  let state ← reading id
  check (checkBefore machinery node call state)
  let totals ← connectTxs machinery node call
  trackZerocoinSupply machinery node call
  recordMoneySupply call totals
  checkAfter node call totals
  pure totals

/-- `ConnectBlock` past the genesis case. -/
def connectTransactions : Connecting Unit := do
  let totals ← connectChecks machinery node call
  if call.fJustCheck then pure () else recordConnected machinery node call totals

def checkAgain (state : ConnectState) : Except Failure Unit :=
  if call.fAlreadyChecked then .ok ()
  else checkBlock machinery node state.zerocoinDB call.block (!call.fJustCheck)

def connectBlock : Connecting Unit := do
  let state ← reading id
  check (checkAgain machinery node call state)
  check (require (hashPrevBlock call == state.view.getBestBlock) .crashed)
  if machinery.blockHash call.block.toCBlockHeader = node.params.hashGenesisBlock then
    update setBest
  else connectTransactions machinery node call

end Calls

end OxidConnectBlock
