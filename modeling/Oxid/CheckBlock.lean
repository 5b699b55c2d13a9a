import Oxid.Node
import Oxid.Pow

/-!
The checks on a transaction and on a block that need no parent. They read the node and the
zerocoin database and write nothing.
-/
namespace OxidCheckBlock
open OxidPrimitives OxidZerocoin OxidChainParams OxidNode OxidPow Attempt

def MAX_BLOCK_SIZE_CURRENT : Nat := 2000000
def MAX_BLOCK_SIGOPS_CURRENT : Nat := 2000000 / 50
def MAX_BLOCK_SIGOPS_LEGACY : Nat := 1000000 / 50
def MAX_ZEROCOIN_TX_SIZE : Nat := 150000

/-- The loop over a spend's inputs: serials seen, amount redeemed, whether any
    input was a zerocoin spend. -/
def checkSpendInputs (machinery : Machinery) (zerocoinDB : CZerocoinDB) (fVerifySignature : Bool)
    (hashTxOut : Uint256) :
    List CTxIn → List Int × Int × Bool → Except Failure (List Int × Int × Bool)
  | [], totals => .ok totals
  | txin :: rest, (serials, nTotalRedeemed, fValidated) =>
    if CScript.isZerocoinSpend txin.scriptSig then do
      let newSpend ← txInToZerocoinSpend machinery txin
      require (newSpend.denomination != .ZQ_ERROR) .ban
      require (zerocoinDenominationToInt newSpend.denomination == (txin.nSequence.toNat : Int)) .ban
      require (machinery.spendTxOutHash newSpend == hashTxOut) .ban
      let verified :=
        match zerocoinDB.accumulatorValues newSpend.accumulatorChecksum with
        | none => false
        | some bnAccumulatorValue => machinery.verifySpend newSpend bnAccumulatorValue
      require (!fVerifySignature || verified) .ban
      require (!serials.contains newSpend.coinSerialNumber) .ban
      checkSpendInputs machinery zerocoinDB fVerifySignature hashTxOut rest
        (newSpend.coinSerialNumber :: serials,
          nTotalRedeemed + zerocoinDenominationToAmount newSpend.denomination, true)
    else
      checkSpendInputs machinery zerocoinDB fVerifySignature hashTxOut rest
        (serials, nTotalRedeemed, fValidated)

def checkZerocoinSpend (machinery : Machinery) (zerocoinDB : CZerocoinDB) (tx : CTransaction)
    (fVerifySignature : Bool) : Except Failure Unit := do
  let outs := tx.vout.countP fun out => !out.isZerocoinMint
  require (!(decide (2 < tx.vout.length) && decide (2 < outs))) .ban
  let (_, nTotalRedeemed, fValidated) ←
    checkSpendInputs machinery zerocoinDB fVerifySignature (machinery.outputsHash tx.vout) tx.vin
      ([], 0, false)
  let nValueOut ← getValueOut tx
  require (decide (nValueOut ≤ nTotalRedeemed)) .ban
  require fValidated .plain

def checkOutputs (params : ChainParams) (tx : CTransaction) (fZerocoinActive : Bool) :
    List CTxOut → Int × Nat → Except Failure (Int × Nat)
  | [], totals => .ok totals
  | txout :: rest, (nValueOut, nZCSpendCount) => do
    require (!txout.isEmpty || tx.isCoinBase || tx.isCoinStake) .ban
    require (decide (0 ≤ txout.nValue)) (.dos 100 REJECT_INVALID "bad-txns-vout-negative" false)
    require (decide (txout.nValue ≤ params.nMaxMoneyOut))
      (.dos 100 REJECT_INVALID "bad-txns-vout-toolarge" false)
    require (moneyRange params (nValueOut + txout.nValue))
      (.dos 100 REJECT_INVALID "bad-txns-txouttotal-toolarge" false)
    checkOutputs params tx fZerocoinActive rest
      (nValueOut + txout.nValue,
        if fZerocoinActive && CScript.isZerocoinSpend txout.scriptPubKey then nZCSpendCount + 1
        else nZCSpendCount)

def checkDuplicateInputs : List CTxIn → List COutPoint → Except Failure Unit
  | [], _ => .ok ()
  | txin :: rest, vInOutPoints => do
    require (!vInOutPoints.contains txin.prevout)
      (.dos 100 REJECT_INVALID "bad-txns-inputs-duplicate" false)
    checkDuplicateInputs rest
      (if CScript.isZerocoinSpend txin.scriptSig then vInOutPoints
      else txin.prevout :: vInOutPoints)

def verifySignatures (node : Node) : Except Failure Bool :=
  if node.fInitialBlockDownload then .ok false
  else
    match node.tip with
    | none => .error .crashed
    | some tip => .ok (decide (node.nTime - tip.getBlockTime < 60 * 60 * 24))

def checkSpendRules (machinery : Machinery) (node : Node) (zerocoinDB : CZerocoinDB)
    (tx : CTransaction) : Except Failure Unit := do
  require (tx.vin.all fun txin => CScript.isZerocoinSpend txin.scriptSig) .ban
  let fVerifySignature ← verifySignatures node
  match checkZerocoinSpend machinery zerocoinDB tx fVerifySignature with
  | .ok () => .ok ()
  | .error failure => .error (failure.again 100 0 "" false)

def checkZerocoinRules (machinery : Machinery) (node : Node) (zerocoinDB : CZerocoinDB)
    (tx : CTransaction) (fZerocoinActive : Bool) (nZCSpendCount : Nat) : Except Failure Unit :=
  if fZerocoinActive then do
    require (decide (nZCSpendCount ≤ node.params.nMaxZerocoinSpendsPerTransaction)) .ban
    if tx.isZerocoinSpend then checkSpendRules machinery node zerocoinDB tx else .ok ()
  else .ok ()

def checkKind (params : ChainParams) (tx : CTransaction) (fZerocoinActive : Bool) :
    Except Failure Unit :=
  if tx.isCoinBase then
    let size := (tx.vin.head?.map fun txin => txin.scriptSig.length).getD 0
    require (decide (2 ≤ size) && decide (size ≤ 150))
      (.dos 100 REJECT_INVALID "bad-cb-length" false)
  else if fZerocoinActive && tx.isZerocoinSpend then
    require (decide (1 ≤ tx.vin.length) &&
        decide (tx.vin.length ≤ params.nMaxZerocoinSpendsPerTransaction))
      (.dos 10 REJECT_INVALID "bad-zerocoinspend" false)
  else
    require (tx.vin.all fun txin => !(txin.prevout.isNull &&
        (fZerocoinActive && !CScript.isZerocoinSpend txin.scriptSig)))
      (.dos 10 REJECT_INVALID "bad-txns-prevout-null" false)

/-- `CheckTransaction`. No output reaches the mint check, as `CTxOut::IsZerocoinMint`
    is constant, and nothing reads `fRejectBadUTXO`. -/
def checkTransaction (machinery : Machinery) (node : Node) (zerocoinDB : CZerocoinDB)
    (tx : CTransaction) (fZerocoinActive : Bool) : Except Failure Unit := do
  require (!tx.vin.isEmpty) (.dos 10 REJECT_INVALID "bad-txns-vin-empty" false)
  require (!tx.vout.isEmpty) (.dos 10 REJECT_INVALID "bad-txns-vout-empty" false)
  require (decide (machinery.txSize tx ≤ MAX_ZEROCOIN_TX_SIZE))
    (.dos 100 REJECT_INVALID "bad-txns-oversize" false)
  let (_, nZCSpendCount) ← checkOutputs node.params tx fZerocoinActive tx.vout (0, 0)
  checkZerocoinRules machinery node zerocoinDB tx fZerocoinActive nZCSpendCount
  checkDuplicateInputs tx.vin []
  checkKind node.params tx fZerocoinActive

def isBlockPayeeValid (node : Node) (block : CBlock) (nBlockHeight : Int) : Bool :=
  if !node.fMasternodeSynced then true
  else
    let txNew := if node.params.nLastPOWBlock < nBlockHeight then block.vtx[1]? else block.vtx[0]?
    if txNew.any fun tx => node.masternodePaymentsValid tx nBlockHeight then true
    else !node.fPaymentEnforcement

def heightOfChild (node : Node) (tip : CBlockIndex) (hashPrevBlock : Uint256) : Int :=
  if tip.hash = hashPrevBlock then tip.nHeight + 1
  else
    match node.mapBlockIndex hashPrevBlock with
    | none => 0
    | some pindexPrev => pindexPrev.nHeight + 1

def checkPayee (node : Node) (block : CBlock) : Except Failure Unit :=
  match node.tip with
  | none => .ok ()
  | some pindexPrev =>
    let nHeight := heightOfChild node pindexPrev block.hashPrevBlock
    if nHeight ≠ 0 ∧ node.fInitialBlockDownload = false then
      require (isBlockPayeeValid node block nHeight) (.dos 0 REJECT_INVALID "bad-cb-payee" false)
    else .ok ()

def checkBlockSerials (machinery : Machinery) :
    List CTxIn → List Int → Except Failure (List Int)
  | [], vBlockSerials => .ok vBlockSerials
  | txin :: rest, vBlockSerials =>
    if CScript.isZerocoinSpend txin.scriptSig then do
      let spend ← txInToZerocoinSpend machinery txin
      require (!vBlockSerials.contains spend.coinSerialNumber) .ban
      checkBlockSerials machinery rest (spend.coinSerialNumber :: vBlockSerials)
    else checkBlockSerials machinery rest vBlockSerials

def checkTransactions (machinery : Machinery) (node : Node) (zerocoinDB : CZerocoinDB)
    (fZerocoinActive : Bool) : List CTransaction → List Int → Except Failure (List Int)
  | [], vBlockSerials => .ok vBlockSerials
  | tx :: rest, vBlockSerials => do
    checkTransaction machinery node zerocoinDB tx fZerocoinActive
    let vBlockSerials ←
      checkBlockSerials machinery (if tx.isZerocoinSpend then tx.vin else []) vBlockSerials
    checkTransactions machinery node zerocoinDB fZerocoinActive rest vBlockSerials

def checkProofOfStakeShape (block : CBlock) : Except Failure Unit :=
  if block.isProofOfStake then do
    require (block.vtx.head?.any fun tx => tx.vout.length == 1 && tx.vout.all CTxOut.isEmpty) .ban
    require (block.vtx[1]?.any CTransaction.isCoinStake) .ban
    require ((block.vtx.drop 2).all fun tx => !tx.isCoinStake) .ban
  else .ok ()

def checkLockedInputs (machinery : Machinery) (node : Node) (block : CBlock) :
    Except Failure Unit :=
  require (!node.fInstantTxFiltering || block.vtx.all fun tx => tx.isCoinBase ||
      tx.vin.all fun txin => (node.mapLockedInputs txin.prevout).all (· == machinery.txHash tx))
    (.dos 0 REJECT_INVALID "conflicting-tx-ix" false)

def checkMerkleRoot (machinery : Machinery) (block : CBlock) (fCheckMerkleRoot : Bool) :
    Except Failure Unit :=
  if fCheckMerkleRoot then do
    let (hashMerkleRoot2, mutated) := machinery.buildMerkleTree block.vtx
    require (block.hashMerkleRoot == hashMerkleRoot2)
      (.dos 100 REJECT_INVALID "bad-txnmrklroot" true)
    require (!mutated) (.dos 100 REJECT_INVALID "bad-txns-duplicate" true)
  else .ok ()

def checkHeader (machinery : Machinery) (node : Node) (block : CBlock) : Except Failure Unit :=
  match checkBlockHeader node.params (machinery.blockHash block.toCBlockHeader)
      block.toCBlockHeader block.isProofOfWork with
  | .ok () => .ok ()
  | .error state => .error (.refused (state.dos 100 REJECT_INVALID "bad-header" true))

def zerocoinActive (params : ChainParams) (block : CBlock) : Bool :=
  decide (params.nZerocoinStartTime < (block.nTime.toNat : Int))

def checkBlock (machinery : Machinery) (node : Node) (zerocoinDB : CZerocoinDB) (block : CBlock)
    (fCheckMerkleRoot : Bool) : Except Failure Unit := do
  checkHeader machinery node block
  require (decide ((block.nTime.toNat : Int) ≤
      node.nAdjustedTime + if block.isProofOfStake then 180 else 7200))
    (.refused (CValidationState.init.invalid REJECT_INVALID "time-too-new"))
  checkMerkleRoot machinery block fCheckMerkleRoot
  require (!block.vtx.isEmpty && decide (block.vtx.length ≤ MAX_BLOCK_SIZE_CURRENT) &&
      decide (machinery.blockSize block ≤ MAX_BLOCK_SIZE_CURRENT))
    (.dos 100 REJECT_INVALID "bad-blk-length" false)
  require (block.vtx.head?.any CTransaction.isCoinBase)
    (.dos 100 REJECT_INVALID "bad-cb-missing" false)
  require ((block.vtx.drop 1).all fun tx => !tx.isCoinBase)
    (.dos 100 REJECT_INVALID "bad-cb-multiple" false)
  checkProofOfStakeShape block
  checkLockedInputs machinery node block
  checkPayee node block
  let _ ← checkTransactions machinery node zerocoinDB (zerocoinActive node.params block) block.vtx []
  require (decide ((block.vtx.map machinery.legacySigOpCount).sum ≤
      if zerocoinActive node.params block then MAX_BLOCK_SIGOPS_CURRENT
      else MAX_BLOCK_SIGOPS_LEGACY))
    (.dos 100 REJECT_INVALID "bad-blk-sigops" true)

end OxidCheckBlock
