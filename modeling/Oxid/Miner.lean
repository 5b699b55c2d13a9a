import Mathlib.Data.Finset.Basic
import Oxid.BlockValidity
import Oxid.Library.FrontHeap
import Oxid.Mempool

/-!
`CreateNewBlock`: a scan of the memory pool, a loop that takes the queue's front into the
block and lets dependents follow, and the validation of the result. Pointers to orphans are
named by the hash their transactions stand under. Arithmetic on doubles is a parameter.
-/
namespace OxidMiner
open OxidPrimitives OxidCoins OxidZerocoin OxidUtxoView OxidDisconnectBlock OxidChainParams
open OxidNode OxidPow OxidCheckBlock OxidConnectBlock OxidMempool OxidBlockValidity
open OrderedMaps OxidMapKeys FrontHeap

structure Doubles (Double : Type) where
  zero : Double
  less : Double → Double → Bool
  equal : Double → Double → Bool
  add : Double → Double → Double
  safeAddition : Double → Double → Double
  product : Int → Int → Double
  quotient : Double → Nat → Double
  allowFreeThreshold : Double

variable {Double : Type}

structure TxPriority (Double : Type) where
  dPriority : Double
  feeRate : Int
  ptx : CTransaction

structure COrphan (Double : Type) where
  ptx : CTransaction
  setDependsOn : Finset Uint256
  feeRate : Int
  dPriority : Double

def txPriorityCompare (doubles : Doubles Double) (byFee : Bool) (a b : TxPriority Double) : Bool :=
  if byFee then
    if a.feeRate = b.feeRate then doubles.less a.dPriority b.dPriority
    else decide (a.feeRate < b.feeRate)
  else
    if doubles.equal a.dPriority b.dPriority then decide (a.feeRate < b.feeRate)
    else doubles.less a.dPriority b.dPriority

/-- `CFeeRate(nFeePaid, nSize)`, in satoshis per thousand bytes. The division is
    that of unsigned 64-bit words. -/
def cFeeRate (nFeePaid : Int) (nSize : Nat) : Int :=
  if 0 < nSize then Int.bmod (nFeePaid * 1000 % 2 ^ 64 / nSize) (2 ^ 64) else 0

def calculateModifiedSize (tx : CTransaction) (nTxSize : Nat) : Nat :=
  tx.vin.foldl (fun nTxSize txin =>
    let offset := 41 + min 110 txin.scriptSig.length
    if offset < nTxSize then nTxSize - offset else nTxSize) nTxSize

def computePriority (machinery : Machinery) (doubles : Doubles Double) (tx : CTransaction)
    (dPriorityInputs : Double) (nTxSize : Nat) : Double :=
  let nTxSize :=
    calculateModifiedSize tx (if nTxSize = 0 then machinery.txSize tx else nTxSize)
  if nTxSize = 0 then doubles.zero else doubles.quotient dPriorityInputs nTxSize

/-- The arguments of a call, the settings and globals it reads, and the routines
    of the wallet, the masternodes and the validation. -/
structure MinerCall (Double : Type) where
  scriptPubKeyIn : CScript
  fProofOfStake : Bool
  fDebug : Bool
  nBlockMaxSizeArg : Nat
  nBlockPrioritySizeArg : Nat
  nBlockMinSizeArg : Nat
  minRelayTxFee : Int
  mempool : CTxMemPool
  mapDeltas : Uint256 → Option (Double × Int)
  doubles : Doubles Double
  heap : Heap (TxPriority Double)
  globals : Globals
  rules : ContextRules
  nLastCoinStakeSearchTime : Int
  pCheckpointCache : Int × Uint256 × Uint256
  createCoinStake : UInt32 → Int → Option (CTransaction × UInt32)
  fillBlockPayee : CTransaction → Int → CTransaction
  validation : ConnectCall

section Calls

variable (machinery : Machinery) (node : Node) (call : MinerCall Double)

def applyDeltas (hash : Uint256) (dPriority : Double) (nFee : Int) : Double × Int :=
  match call.mapDeltas hash with
  | none => (dPriority, nFee)
  | some (dPriorityDelta, nFeeDelta) =>
    (call.doubles.add dPriority dPriorityDelta, nFee + nFeeDelta)

def nBlockMaxSize : Nat := max 1000 (min (MAX_BLOCK_SIZE_CURRENT - 1000) call.nBlockMaxSizeArg)

def nBlockPrioritySize : Nat := min (nBlockMaxSize call) call.nBlockPrioritySizeArg

def nBlockMinSize : Nat := min (nBlockMaxSize call) call.nBlockMinSizeArg

structure ScanState (Double : Type) where
  vOrphan : OrderedMap Uint256 (COrphan Double)
  mapDependers : OrderedMap Uint256 (List Uint256)
  vecPriority : List (TxPriority Double)

/-- The same while the inputs of one transaction are read, and its own sums. -/
structure InputScan (Double : Type) where
  vOrphan : OrderedMap Uint256 (COrphan Double)
  mapDependers : OrderedMap Uint256 (List Uint256)
  dPriority : Double
  nTotalIn : Int
  fMissingInputs : Bool

def haveCoins (coins : Uint256 → CCoins) (txid : Uint256) : Bool := !(coins txid).vout.isEmpty

def outValue (vout : List CTxOut) (n : UInt32) : Int := ((vout[n.toNat]?).getD CTxOut.null).nValue

def dependOn (hash : Uint256) (tx : CTransaction) (prevout : COutPoint) (parent : CTxMemPoolEntry)
    (scan : InputScan Double) : InputScan Double :=
  let porphan := (scan.vOrphan.find? hash).getD ⟨tx, ∅, 0, call.doubles.zero⟩
  { scan with
    vOrphan := scan.vOrphan.set hash
      { porphan with setDependsOn := insert prevout.hash porphan.setDependsOn }
    mapDependers := scan.mapDependers.edit prevout.hash fun dependers =>
      dependers.getD [] ++ [hash]
    nTotalIn := scan.nTotalIn + outValue parent.tx.vout prevout.n }

def addInput (nHeight : Int) (coins : CCoins) (prevout : COutPoint) (scan : InputScan Double) :
    InputScan Double :=
  let nValueIn := outValue coins.vout prevout.n
  { scan with
    nTotalIn := scan.nTotalIn + nValueIn
    dPriority := call.doubles.safeAddition scan.dPriority
      (call.doubles.product nValueIn (nHeight - coins.nHeight.toInt)) }

/-- The loop over the inputs of one transaction. Both of its early exits mark the
    transaction; only the first takes its orphan off. -/
def scanInputs (nHeight : Int) (coins : Uint256 → CCoins) (hash : Uint256) (tx : CTransaction) :
    List CTxIn → InputScan Double → Except Failure (InputScan Double)
  | [], scan => .ok scan
  | txin :: rest, scan =>
    if !haveCoins coins txin.prevout.hash then
      match call.mempool.mapTx.find? txin.prevout.hash with
      | none =>
        if call.fDebug then .error .crashed
        else .ok { scan with vOrphan := scan.vOrphan.erase hash, fMissingInputs := true }
      | some parent =>
        scanInputs nHeight coins hash tx rest (dependOn call hash tx txin.prevout parent scan)
    else if call.globals.invalid.outPoints txin.prevout then
      .ok { scan with fMissingInputs := true }
    else
      scanInputs nHeight coins hash tx rest
        (addInput call nHeight (coins txin.prevout.hash) txin.prevout scan)

/-- A transaction whose inputs have been read: an orphan gets its priority, and any
    other goes to the queue. -/
def fileTx (hash : Uint256) (tx : CTransaction) (nValueOut : Int) (scan : InputScan Double)
    (vecPriority : List (TxPriority Double)) : ScanState Double :=
  let nTxSize := machinery.txSize tx
  let (dPriority, nTotalIn) := applyDeltas call (machinery.txHash tx)
    (computePriority machinery call.doubles tx scan.dPriority nTxSize) scan.nTotalIn
  let feeRate := cFeeRate (nTotalIn - nValueOut) nTxSize
  match scan.vOrphan.find? hash with
  | some porphan =>
    { vOrphan := scan.vOrphan.set hash { porphan with dPriority := dPriority, feeRate := feeRate }
      mapDependers := scan.mapDependers
      vecPriority := vecPriority }
  | none =>
    { vOrphan := scan.vOrphan
      mapDependers := scan.mapDependers
      vecPriority := vecPriority ++ [⟨dPriority, feeRate, tx⟩] }

def passesOver (nHeight : Int) (tx : CTransaction) : Bool :=
  tx.isCoinBase || tx.isCoinStake || !isFinalTx node tx nHeight 0

def scanTx (nHeight : Int) (coins : Uint256 → CCoins) (item : Uint256 × CTxMemPoolEntry)
    (state : ScanState Double) : Except Failure (ScanState Double) :=
  if passesOver node nHeight item.2.tx then .ok state
  else do
    let scan ← scanInputs call nHeight coins item.1 item.2.tx item.2.tx.vin
      ⟨state.vOrphan, state.mapDependers, call.doubles.zero, 0, false⟩
    if scan.fMissingInputs then
      .ok ⟨scan.vOrphan, scan.mapDependers, state.vecPriority⟩
    else do
      let nValueOut ← getValueOut item.2.tx
      .ok (fileTx machinery call item.1 item.2.tx nValueOut scan state.vecPriority)

def scanPool (nHeight : Int) (coins : Uint256 → CCoins) :
    List (Uint256 × CTxMemPoolEntry) → ScanState Double → Except Failure (ScanState Double)
  | [], state => .ok state
  | item :: rest, state => do
    let next ← scanTx machinery node call nHeight coins item state
    scanPool nHeight coins rest next

/-- The block as it is put together. The first entries of the template's two lists
    are left to the end. -/
structure Collection (Double : Type) where
  vecPriority : List (TxPriority Double)
  vOrphan : OrderedMap Uint256 (COrphan Double)
  mapDependers : OrderedMap Uint256 (List Uint256)
  view : UtxoView
  fSortedByFee : Bool
  nBlockSize : Nat
  nBlockSigOps : Nat
  nFees : Int
  vtx : List CTransaction
  vTxFees : List Int
  vTxSigOps : List Nat

def skipsFree (item : TxPriority Double) (nSize : Nat) (fSortedByFee : Bool) : Bool :=
  let (dPriorityDelta, nFeeDelta) :=
    applyDeltas call (machinery.txHash item.ptx) call.doubles.zero 0
  !item.ptx.isZerocoinSpend && fSortedByFee &&
    !call.doubles.less call.doubles.zero dPriorityDelta && decide (nFeeDelta ≤ 0) &&
    decide (item.feeRate < call.minRelayTxFee) && decide (nBlockMinSize call ≤ nSize)

def sortsByFee (item : TxPriority Double) (nSize : Nat) (fSortedByFee : Bool) : Bool :=
  fSortedByFee || decide (nBlockPrioritySize call ≤ nSize) ||
    !call.doubles.less call.doubles.allowFreeThreshold item.dPriority

def getZerocoinSpent : List CTxIn → Except Failure Int
  | [] => .ok 0
  | txin :: rest => do
    let spend ← txInToZerocoinSpend machinery txin
    let later ← getZerocoinSpent rest
    .ok (zerocoinDenominationToAmount spend.denomination + later)

/-- `CCoinsViewCache::GetValueIn`. -/
def viewValueIn (coins : Uint256 → CCoins) (tx : CTransaction) : Except Failure Int :=
  if tx.isCoinBase then .ok 0
  else if tx.isZerocoinSpend then getZerocoinSpent machinery tx.vin
  else .ok (getValueIn coins tx)

/-- `CheckInputs` as the miner calls it: scripts at once, under the mandatory flags. -/
def minerCheckInputs (view : UtxoView) (tx : CTransaction) : Except Failure Bool :=
  if spendsInputs tx then
    checkInputs machinery { node with nScriptCheckThreads := 0 } view tx true ⟨true, false⟩
  else .ok true

def release (hash : Uint256) (state : Collection Double) (name : Uint256) : Collection Double :=
  match state.vOrphan.find? name with
  | none => state
  | some porphan =>
    if porphan.setDependsOn = ∅ then state
    else
      let setDependsOn := porphan.setDependsOn.erase hash
      { state with
        vOrphan := state.vOrphan.set name { porphan with setDependsOn := setDependsOn }
        vecPriority :=
          if setDependsOn = ∅ then
            state.vecPriority ++ [⟨porphan.dPriority, porphan.feeRate, porphan.ptx⟩]
          else state.vecPriority }

def releaseDependers (hash : Uint256) (state : Collection Double) : Collection Double :=
  ((state.mapDependers.find? hash).getD []).foldl (release hash) state

def addTx (tx : CTransaction) (nTxFees : Int) (nTxSigOps : Nat) (view : UtxoView)
    (state : Collection Double) : Collection Double :=
  { state with
    view := view
    nBlockSize := state.nBlockSize + machinery.txSize tx
    nBlockSigOps := state.nBlockSigOps + nTxSigOps
    nFees := state.nFees + nTxFees
    vtx := state.vtx ++ [tx]
    vTxFees := state.vTxFees ++ [nTxFees]
    vTxSigOps := state.vTxSigOps ++ [nTxSigOps] }

def admitTx (nHeight : Int) (tx : CTransaction) (nTxFees : Int) (nTxSigOps : Nat)
    (state : Collection Double) : Except Failure (Collection Double) :=
  match minerCheckInputs machinery node state.view tx with
  | .error (.refused _) => .ok state
  | .error failure => .error failure
  | .ok _ =>
    match updateCoins machinery.txHash (Int32.ofInt nHeight) tx state.view with
    | none => .error .crashed
    | some (view, _) =>
      .ok (releaseDependers (machinery.txHash tx)
        (addTx machinery tx nTxFees nTxSigOps view state))

def weighTx (nHeight : Int) (tx : CTransaction) (state : Collection Double) :
    Except Failure (Collection Double) :=
  if !haveInputs state.view.coins tx then .ok state
  else do
    let nValueIn ← viewValueIn machinery state.view.coins tx
    let nValueOut ← getValueOut tx
    let nTxSigOps :=
      machinery.legacySigOpCount tx + machinery.p2shSigOpCount tx state.view.coins
    if MAX_BLOCK_SIGOPS_CURRENT ≤ state.nBlockSigOps + nTxSigOps then .ok state
    else admitTx machinery node nHeight tx (nValueIn - nValueOut) nTxSigOps state

def considerTx (nHeight : Int) (item : TxPriority Double) (state : Collection Double) :
    Except Failure (Collection Double) :=
  let nSize := state.nBlockSize + machinery.txSize item.ptx
  if nBlockMaxSize call ≤ nSize then .ok state
  else if MAX_BLOCK_SIGOPS_CURRENT ≤ state.nBlockSigOps + machinery.legacySigOpCount item.ptx then
    .ok state
  else if skipsFree machinery call item nSize state.fSortedByFee then .ok state
  else
    weighTx machinery node nHeight item.ptx
      { state with fSortedByFee := sortsByFee call item nSize state.fSortedByFee }

/-- The loop over the queue, with at most as many rounds as its argument says. -/
def collectLoop (nHeight : Int) : Nat → Collection Double → Except Failure (Collection Double)
  | 0, state => .ok state
  | rounds + 1, state =>
    match call.heap.popHeap (txPriorityCompare call.doubles state.fSortedByFee)
        state.vecPriority with
    | none => .ok state
    | some (item, rest) => do
      let next ← considerTx machinery node call nHeight item { state with vecPriority := rest }
      collectLoop nHeight rounds next

def startCollection (scanned : ScanState Double) (view : UtxoView) : Collection Double where
  vecPriority := scanned.vecPriority
  vOrphan := scanned.vOrphan
  mapDependers := scanned.mapDependers
  view := view
  fSortedByFee := nBlockPrioritySize call == 0
  nBlockSize := 1000
  nBlockSigOps := 100
  nFees := 0
  vtx := []
  vTxFees := []
  vTxSigOps := []

/-- The memory pool transactions of the block. Each pooled transaction is at the
    front of the queue at most once, which bounds the rounds. -/
def collectTransactions (nHeight : Int) : Except Failure (Collection Double) := do
  let view := viewOver node.coinsTip call.globals.coinsBestBlock
  let scanned ← scanPool machinery node call nHeight view.coins call.mempool.mapTx.entries
    ⟨∅, ∅, []⟩
  collectLoop machinery node call nHeight call.mempool.mapTx.size
    (startCollection call scanned view)

structure CBlockTemplate where
  block : CBlock
  vTxFees : List Int
  vTxSigOps : List Nat

/-- What a call leaves behind. The template is the null pointer when nothing could
    be staked or the block did not validate. -/
structure MinerOutcome where
  pblocktemplate : Option CBlockTemplate
  mempool : CTxMemPool
  nFees : Int
  nLastCoinStakeSearchTime : Int
  pCheckpointCache : Int × Uint256 × Uint256
  validated : Option ConnectState

def nextWorkRequired (ancestry : List CBlockIndex) : Except Failure UInt32 :=
  match getNextWorkRequired node.params ancestry with
  | none => .error .crashed
  | some nBits => .ok nBits

/-- The search for a coinstake, which covers the time since the last search. -/
def searchCoinStake (nBits : UInt32) : Option (CTransaction × UInt32) × Int :=
  if call.nLastCoinStakeSearchTime ≤ node.nAdjustedTime then
    (call.createCoinStake nBits (node.nAdjustedTime - call.nLastCoinStakeSearchTime),
      node.nAdjustedTime)
  else (none, call.nLastCoinStakeSearchTime)

def coinbaseTx (nHeight nFees : Int) : CTransaction :=
  let scriptSig := pushInt nHeight ++ [OP_0]
  let txNew : CTransaction :=
    ⟨1, [⟨COutPoint.null, [], 0xffffffff⟩], [⟨-1, call.scriptPubKeyIn, -10⟩], 0⟩
  let txNew :=
    if call.fProofOfStake then { txNew with vout := [⟨0, [], -10⟩] }
    else call.fillBlockPayee txNew nFees
  { txNew with vin := txNew.vin.modifyHead fun txin => { txin with scriptSig := scriptSig } }

/-- The accumulator checkpoint to use, which is the parent's unless a cached one is
    still good. -/
def checkpointCache (nHeight : Int) (pindexPrev : CBlockIndex) :
    Except Failure (Int × Uint256 × Uint256) :=
  let aHeight := nHeight - nHeight % 10 - 10
  let (nCached, hashCached, nCheckpoint) := call.pCheckpointCache
  if aHeight ≤ 0 then .ok (nCached, hashCached, nCheckpoint)
  else
    match node.at? aHeight with
    | none => .error .crashed
    | some pindex =>
      .ok (nCached, hashCached,
        if nCached ≤ nHeight ∨ hashCached ≠ pindex.hash then pindexPrev.nAccumulatorCheckpoint
        else nCheckpoint)

def assembleBlock (nHeight : Int) (ancestry : List CBlockIndex) (pindexPrev : CBlockIndex)
    (nBits : UInt32) (nAccumulatorCheckpoint : Uint256) (vtxStaked : List CTransaction)
    (nStakeTime : UInt32) (collected : Collection Double) : CBlock where
  nVersion := 3
  hashPrevBlock := pindexPrev.hash
  hashMerkleRoot := 0
  nTime :=
    if call.fProofOfStake then nStakeTime
    else UInt32.ofNat (max (getMedianTimePast ancestry + 1) node.nAdjustedTime).toNat
  nBits := nBits
  nNonce := 0
  nAccumulatorCheckpoint := nAccumulatorCheckpoint
  vtx := coinbaseTx call nHeight collected.nFees :: vtxStaked ++ collected.vtx
  vchBlockSig := []

def templateOf (block : CBlock) (collected : Collection Double) : CBlockTemplate where
  block := block
  vTxFees := (if call.fProofOfStake then -1 else -collected.nFees) :: collected.vTxFees
  vTxSigOps :=
    (block.vtx.head?.map machinery.legacySigOpCount).getD 0 :: collected.vTxSigOps

def finishTemplate (ancestry : List CBlockIndex) (pindexPrev : CBlockIndex)
    (nSearched : Int) (cache : Int × Uint256 × Uint256) (collected : Collection Double)
    (block : CBlock) : Except Failure MinerOutcome :=
  match testBlockValidity machinery call.rules node call.validation block ancestry false
      (testState machinery node call.globals block pindexPrev) with
  | .ok _ validated =>
    .ok ⟨some (templateOf machinery call block collected), call.mempool, collected.nFees, nSearched,
      cache, some validated⟩
  | .error (.refused _) validated =>
    .ok ⟨none, call.mempool.clear, collected.nFees, nSearched, cache, some validated⟩
  | .error failure _ => .error failure

def fillTemplate (vtxStaked : List CTransaction) (nStakeTime : UInt32) (nSearched : Int) :
    Except Failure MinerOutcome :=
  match node.chainActive.reverse with
  | [] => .error .crashed
  | pindexPrev :: older => do
    let nHeight := pindexPrev.nHeight + 1
    let collected ← collectTransactions machinery node call nHeight
    let nBits ← nextWorkRequired node (pindexPrev :: older)
    let cache ← checkpointCache node call nHeight pindexPrev
    finishTemplate machinery node call (pindexPrev :: older) pindexPrev nSearched cache collected
      (assembleBlock node call nHeight (pindexPrev :: older) pindexPrev nBits cache.2.2 vtxStaked
        nStakeTime collected)

def createNewBlock : Except Failure MinerOutcome :=
  if call.fProofOfStake then do
    let nBits ← nextWorkRequired node node.chainActive.reverse
    match searchCoinStake node call nBits with
    | (none, nSearched) =>
      .ok ⟨none, call.mempool, 0, nSearched, call.pCheckpointCache, none⟩
    | (some (txCoinStake, nTxNewTime), nSearched) =>
      fillTemplate machinery node call [txCoinStake] nTxNewTime nSearched
  else fillTemplate machinery node call [] 0 call.nLastCoinStakeSearchTime

end Calls

end OxidMiner
