import Mathlib.Data.List.Sort
import Oxid.ConnectBlock

/-!
The checks of a block against its parent, and `TestBlockValidity`, which makes every check
there is on a block that is not in the index.
-/
namespace OxidBlockValidity
open OxidPrimitives OxidCoins OxidUtxoView OxidZerocoin OxidChainParams OxidNode
open OxidCheckBlock OxidConnectBlock Attempt

def LOCKTIME_THRESHOLD : Int := 500000000

def OP_0 : UInt8 := 0x00

/-- The checkpoints of a network, by ascending height, and the reorganisation depth
    a node allows. -/
structure ContextRules where
  fCheckpointsEnabled : Bool
  mapCheckpoints : List (Int × Uint256)
  nMaxReorgDepth : Int

namespace ContextRules

def checkBlock (rules : ContextRules) (nHeight : Int) (hash : Uint256)
    (fMatchesCheckpoint : Bool) : Bool :=
  if !rules.fCheckpointsEnabled then true
  else
    match rules.mapCheckpoints.find? fun checkpoint => checkpoint.1 == nHeight with
    | none => !fMatchesCheckpoint
    | some checkpoint => hash == checkpoint.2

def getLastCheckpoint (rules : ContextRules) (mapBlockIndex : Uint256 → Option CBlockIndex) :
    Option CBlockIndex :=
  if !rules.fCheckpointsEnabled then none
  else rules.mapCheckpoints.reverse.findSome? fun checkpoint => mapBlockIndex checkpoint.2

end ContextRules

def getMedianTimePast (ancestry : List CBlockIndex) : Int :=
  let times := ((ancestry.take 11).map CBlockIndex.getBlockTime).insertionSort (· ≤ ·)
  (times[times.length / 2]?).getD 0

def isFinalTx (node : Node) (tx : CTransaction) (nBlockHeight nBlockTime : Int) : Bool :=
  let nBlockHeight := if nBlockHeight = 0 then node.height else nBlockHeight
  let nBlockTime := if nBlockTime = 0 then node.nAdjustedTime else nBlockTime
  let nLockTime : Int := tx.nLockTime.toNat
  decide (tx.nLockTime = 0) ||
    decide (nLockTime < if nLockTime < LOCKTIME_THRESHOLD then nBlockHeight else nBlockTime) ||
    tx.vin.all fun txin => txin.nSequence == 0xffffffff

def scriptNumBytes : Nat → Nat → List UInt8
  | 0, _ => []
  | fuel + 1, absvalue =>
    if absvalue = 0 then []
    else UInt8.ofNat absvalue :: scriptNumBytes fuel (absvalue / 256)

def scriptNumSerialize (value : Int) : List UInt8 :=
  let result := scriptNumBytes 8 value.natAbs
  match result.getLast? with
  | none => []
  | some last =>
    if 0x80 ≤ last then result ++ [if value < 0 then 0x80 else 0]
    else if value < 0 then result.dropLast ++ [last ||| 0x80]
    else result

def pushInt (n : Int) : CScript :=
  if n = -1 ∨ 1 ≤ n ∧ n ≤ 16 then [UInt8.ofNat (n + 0x50).toNat]
  else if n = 0 then [OP_0]
  else UInt8.ofNat (scriptNumSerialize n).length :: scriptNumSerialize n

section Checks

variable (machinery : Machinery) (rules : ContextRules) (node : Node)

def outdated (nVersion minVersion : Int32) (ancestry : List CBlockIndex) : Bool :=
  decide (nVersion < minVersion) &&
    isSuperMajority node.params minVersion ancestry node.params.nRejectBlockOutdatedMajority

def contextualCheckBlockHeader (block : CBlockHeader) (ancestry : List CBlockIndex) :
    Except Failure Unit :=
  let hash := machinery.blockHash block
  if hash = node.params.hashGenesisBlock then .ok ()
  else
    match ancestry with
    | [] => .error .crashed
    | pindexPrev :: _ => do
      let nHeight := pindexPrev.nHeight + 1
      require (decide (node.height - nHeight < rules.nMaxReorgDepth)) (.dos 1 0 "" false)
      require (decide (getMedianTimePast ancestry < (block.nTime.toNat : Int)))
        (.refused (CValidationState.init.invalid REJECT_INVALID "time-too-old"))
      require (rules.checkBlock nHeight hash false)
        (.dos 100 REJECT_CHECKPOINT "checkpoint mismatch" false)
      require ((rules.getLastCheckpoint node.mapBlockIndex).all fun pcheckpoint =>
        decide (pcheckpoint.nHeight ≤ nHeight)) (.dos 0 0 "" false)
      require (!outdated node block.nVersion 2 ancestry)
        (.refused (CValidationState.init.invalid REJECT_OBSOLETE "bad-version"))
      require (!outdated node block.nVersion 3 ancestry)
        (.refused (CValidationState.init.invalid REJECT_OBSOLETE "bad-version"))

def coinbaseScript (block : CBlock) : CScript :=
  ((block.vtx.head?.bind fun tx => tx.vin.head?).map CTxIn.scriptSig).getD []

def contextualCheckBlock (block : CBlock) (ancestry : List CBlockIndex) : Except Failure Unit := do
  let nHeight := (ancestry.head?.map fun pindexPrev => pindexPrev.nHeight + 1).getD 0
  require (block.vtx.all fun tx => isFinalTx node tx nHeight block.nTime.toNat)
    (.dos 10 REJECT_INVALID "bad-txns-nonfinal" false)
  require (!(decide (2 ≤ block.nVersion) && isSuperMajority node.params 2 ancestry
      node.params.nEnforceBlockUpgradeMajority) ||
    (pushInt nHeight).isPrefixOf (coinbaseScript block))
    (.dos 100 REJECT_INVALID "bad-cb-height" false)

/-- The index entry `TestBlockValidity` makes up. It is in no index. -/
def indexDummy (block : CBlock) (pindexPrev : CBlockIndex) : CBlockIndex where
  hash := machinery.blockHash block.toCBlockHeader
  pprev := some pindexPrev.hash
  nHeight := pindexPrev.nHeight + 1
  nVersion := block.nVersion
  nTime := block.nTime
  nBits := block.nBits
  nAccumulatorCheckpoint := if 3 < block.nVersion then block.nAccumulatorCheckpoint else 0
  nChainWork := 0
  nTx := 0
  nChainTx := 0
  nStatus := BlockStatus.init
  nSequenceId := 0
  nMint := 0
  nMoneySupply := 0
  mapZerocoinSupply _ := 0
  vMintDenominationsInBlock := []

/-- `CCoinsViewCache view(pcoinsTip)`. -/
def viewOver (coinsTip : Uint256 → Option CCoins) (bestBlock : Uint256) : UtxoView where
  cacheCoins := ∅
  hashBlock := 0
  base := coinsTip
  baseBestBlock := bestBlock
  fresh_over_pruned := by simp

/-- What a validation works on besides the node: the best block of the coins tip,
    the databases and the invalid outpoints. -/
structure Globals where
  coinsBestBlock : Uint256
  zerocoinDB : CZerocoinDB
  blockTree : Uint256 → Option CBlockIndex
  txIndex : TxIndex
  invalid : InvalidMaps

def testState (globals : Globals) (block : CBlock) (pindexPrev : CBlockIndex) : ConnectState where
  view := viewOver node.coinsTip globals.coinsBestBlock
  zerocoinDB := globals.zerocoinDB
  blockTree := globals.blockTree
  txIndex := globals.txIndex
  pindex := indexDummy machinery block pindexPrev
  undo := none
  fDirty := false
  invalid := globals.invalid

def justCheck (call : ConnectCall) (block : CBlock) (ancestry : List CBlockIndex) : ConnectCall :=
  { call with
    block := block
    ancestry := ancestry
    phashBlock := none
    fJustCheck := true
    fAlreadyChecked := false }

/-- `TestBlockValidity` on top of the tip. The connect call it is given stands for
    the disk and the accumulators. -/
def testBlockValidity (call : ConnectCall) (block : CBlock) (ancestry : List CBlockIndex)
    (fCheckMerkleRoot : Bool) : Connecting Unit := do
  let state ← reading id
  check (contextualCheckBlockHeader machinery rules node block.toCBlockHeader ancestry)
  check (checkBlock machinery node state.zerocoinDB block fCheckMerkleRoot)
  check (contextualCheckBlock node block ancestry)
  connectBlock machinery node (justCheck call block ancestry)

end Checks

end OxidBlockValidity
