import Oxid.ChainParams
import Oxid.DisconnectBlock
import Oxid.Library.Attempt

/-!
What block validation finds around the block: functions of data the node computes, taken as
parameters, and the node's surroundings at the time of a call. The active chain is a list of
entries by height. A position in a block file stands for what is read there.
-/
namespace OxidNode
open OxidPrimitives OxidCoins OxidZerocoin OxidChainParams

structure ScriptFlags where
  p2sh : Bool
  derSig : Bool
deriving DecidableEq, Repr

structure Machinery where
  txHash : CTransaction → Uint256
  blockHash : CBlockHeader → Uint256
  outputsHash : List CTxOut → Uint256
  buildMerkleTree : List CTransaction → Uint256 × Bool
  txSize : CTransaction → Nat
  blockSize : CBlock → Nat
  legacySigOpCount : CTransaction → Nat
  p2shSigOpCount : CTransaction → (Uint256 → CCoins) → Nat
  /-- The script error of one input, if it has one. -/
  verifyScript : CTransaction → Nat → CCoins → ScriptFlags → Option String
  zerocoin : ZerocoinLibrary
  hasValidSerial : CoinSpend → Bool
  calculateValidSerial : CoinSpend → Int
  spendTxOutHash : CoinSpend → Uint256
  verifySpend : CoinSpend → Int → Bool

structure FinalizedBudget where
  nVoteCount : Int
  nBlockStart : Int
  nBlockEnd : Int
deriving DecidableEq, Repr

structure Node where
  params : ChainParams
  fVerifyingBlocks : Bool
  fTxIndex : Bool
  fInitialBlockDownload : Bool
  fMasternodeSynced : Bool
  fInstantTxFiltering : Bool
  fPaymentEnforcement : Bool
  nScriptCheckThreads : Nat
  nAdjustedTime : Int
  nTime : Int
  nTotalBlocksEstimate : Int
  mapLockedInputs : COutPoint → Option Uint256
  masternodePaymentsValid : CTransaction → Int → Bool
  mapFinalizedBudgets : List FinalizedBudget
  nMasternodesEnabled : Nat
  chainActive : List CBlockIndex
  mapBlockIndex : Uint256 → Option CBlockIndex
  mempool : Uint256 → Option CTransaction
  readBlockFromDisk : Uint256 → Option CBlock
  coinsTip : Uint256 → Option CCoins

/-- How a call ends short of success: refused with a validation state, left by an
    exception, or stopped by an assertion or a null pointer. -/
inductive Failure where
  | refused (state : CValidationState)
  | thrown
  | crashed
deriving DecidableEq, Repr

namespace Failure

def dos (level : Int) (chRejectCode : UInt8) (strRejectReason : String) (corruption : Bool) :
    Failure := refused (CValidationState.init.dos level chRejectCode strRejectReason corruption)

/-- `state.DoS(100, error(...))` without a reason. -/
def ban : Failure := dos 100 0 "" false

/-- `return error(...)`, which leaves the state alone. -/
def plain : Failure := refused CValidationState.init

def abort (reason : String) : Failure :=
  refused { CValidationState.init with mode := .error, strRejectReason := reason }

/-- A caller's `state.DoS` on a state that a check has refused with. -/
def again (level : Int) (chRejectCode : UInt8) (strRejectReason : String) (corruption : Bool) :
    Failure → Failure
  | refused state => refused (state.dos level chRejectCode strRejectReason corruption)
  | thrown => thrown
  | crashed => crashed

end Failure

def moneyRange (params : ChainParams) (nValue : Int) : Bool :=
  decide (0 ≤ nValue) && decide (nValue ≤ params.nMaxMoneyOut)

def getValueOut (tx : CTransaction) : Except Failure Int :=
  match tx.getValueOut with
  | none => .error .thrown
  | some nValueOut => .ok nValueOut

def txInToZerocoinSpend (machinery : Machinery) (txin : CTxIn) : Except Failure CoinSpend :=
  match machinery.zerocoin.txInToZerocoinSpend txin with
  | none => .error .thrown
  | some spend => .ok spend

namespace Node

def tip (node : Node) : Option CBlockIndex := node.chainActive.getLast?

def height (node : Node) : Int := (node.chainActive.length : Int) - 1

/-- `chainActive[nHeight]`. -/
def at? (node : Node) (nHeight : Int) : Option CBlockIndex :=
  if nHeight < 0 then none else node.chainActive[nHeight.toNat]?

def contains (node : Node) (pindex : CBlockIndex) : Bool :=
  (node.at? pindex.nHeight).any fun found => found.hash == pindex.hash

end Node

/-- What `GetTransaction` reports. The block hash stays 0 for a transaction in
    the memory pool, and is set by the index even when the transaction differs. -/
structure Lookup where
  found : Option CTransaction
  hashBlock : Uint256

abbrev TxIndex := Uint256 → Option (Uint256 × CTransaction)

def scanBlock (machinery : Machinery) (node : Node) (hash : Uint256) : Lookup :=
  match node.coinsTip hash with
  | none => ⟨none, 0⟩
  | some coins =>
    if 0 < coins.nHeight.toInt then
      match node.at? coins.nHeight.toInt with
      | none => ⟨none, 0⟩
      | some pindexSlow =>
        match node.readBlockFromDisk pindexSlow.hash with
        | none => ⟨none, 0⟩
        | some block =>
          match block.vtx.find? fun tx => machinery.txHash tx == hash with
          | none => ⟨none, 0⟩
          | some tx => ⟨some tx, pindexSlow.hash⟩
    else ⟨none, 0⟩

def getTransaction (machinery : Machinery) (node : Node) (txIndex : TxIndex) (hash : Uint256) :
    Lookup :=
  match node.mempool hash with
  | some tx => ⟨some tx, 0⟩
  | none =>
    if node.fTxIndex then
      match txIndex hash with
      | none => ⟨none, 0⟩
      | some (hashBlock, tx) =>
        if machinery.txHash tx == hash then ⟨some tx, hashBlock⟩ else ⟨none, hashBlock⟩
    else scanBlock machinery node hash

def inActiveChain (node : Node) (hashBlock : Uint256) : Option CBlockIndex :=
  (node.mapBlockIndex hashBlock).filter node.contains

def isBlockHashInChain (node : Node) (hashBlock : Uint256) : Option CBlockIndex :=
  if hashBlock = 0 then none else inActiveChain node hashBlock

def isTransactionInChain (machinery : Machinery) (node : Node) (txIndex : TxIndex)
    (txId : Uint256) : Option Int :=
  (isBlockHashInChain node (getTransaction machinery node txIndex txId).hashBlock).map
    CBlockIndex.nHeight

def isSerialInBlockchain (machinery : Machinery) (node : Node) (txIndex : TxIndex)
    (zerocoinDB : CZerocoinDB) (bnSerial : Int) : Option Int :=
  match zerocoinDB.coinSpends bnSerial with
  | none => none
  | some txHash =>
    let lookup := getTransaction machinery node txIndex txHash
    if lookup.found.isSome then
      (inActiveChain node lookup.hashBlock).map CBlockIndex.nHeight
    else none

def isSuperMajority (params : ChainParams) (minVersion : Int32) (ancestry : List CBlockIndex)
    (nRequired : Nat) : Bool :=
  decide (nRequired ≤
    (ancestry.take params.nToCheckBlockUpgradeMajority).countP fun pindex =>
      decide (minVersion ≤ pindex.nVersion))

end OxidNode
