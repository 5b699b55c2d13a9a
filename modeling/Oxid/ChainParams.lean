import Oxid.Zerocoin

/-!
Consensus parameters, index entries and validation results. Heights and times are integers;
an index entry names its parent by hash.
-/
namespace OxidChainParams
open OxidPrimitives OxidZerocoin

structure ChainParams where
  bnProofOfWorkLimit : Uint256
  fSkipProofOfWorkCheck : Bool
  hashGenesisBlock : Uint256
  nMaxReorganizationDepth : Int
  nEnforceBlockUpgradeMajority : Nat
  nRejectBlockOutdatedMajority : Nat
  nToCheckBlockUpgradeMajority : Nat
  nMaturity : Int
  nMaxMoneyOut : Int
  nLastPOWBlock : Int
  nBlockRecalculateAccumulators : Int
  nBlockFirstFraudulent : Int
  nBlockLastGoodCheckpoint : Int
  nBlockEnforceInvalidUTXO : Int
  nBlockEnforceSerialRange : Int
  nZerocoinStartHeight : Int
  nZerocoinStartTime : Int
  nZerocoinHeaderVersion : Int32
  nMaxZerocoinSpendsPerTransaction : Nat
  mainNet : Bool
  limit_above_target : (~~~(0 : Uint256)) >>> 24 ≤ bnProofOfWorkLimit
  pow_era : nLastPOWBlock ≤ 68588

def mainParams : ChainParams where
  bnProofOfWorkLimit := (~~~(0 : Uint256)) >>> 20
  fSkipProofOfWorkCheck := false
  hashGenesisBlock := 0x0000090d50e2cdb1bda79aae7d9e3b052a0058d66d7af890dd35f97949c012e0
  nMaxReorganizationDepth := 100
  nEnforceBlockUpgradeMajority := 1006
  nRejectBlockOutdatedMajority := 1007
  nToCheckBlockUpgradeMajority := 1008
  nMaturity := 10
  nMaxMoneyOut := 89000000 * COIN
  nLastPOWBlock := 1000
  nBlockRecalculateAccumulators := 1005
  nBlockFirstFraudulent := 1003
  nBlockLastGoodCheckpoint := 1005
  nBlockEnforceInvalidUTXO := 1001
  nBlockEnforceSerialRange := 1004
  nZerocoinStartHeight := 44000000
  nZerocoinStartTime := 4102444799
  nZerocoinHeaderVersion := 4
  nMaxZerocoinSpendsPerTransaction := 7
  mainNet := true
  limit_above_target := by decide
  pow_era := by decide

def testNetParams : ChainParams :=
  { mainParams with
    hashGenesisBlock := 0x0000010e505bd636c2e300a35f5cd79ed7575163b5f3f37dbb5d6f71e061f324
    nEnforceBlockUpgradeMajority := 51
    nRejectBlockOutdatedMajority := 75
    nToCheckBlockUpgradeMajority := 100
    nMaturity := 15
    nLastPOWBlock := 100
    mainNet := false
    pow_era := by decide }

def regTestParams : ChainParams :=
  { testNetParams with
    bnProofOfWorkLimit := (~~~(0 : Uint256)) >>> 1
    hashGenesisBlock := 0x00000905393b6a275550951332fb206f0ab078648078757d26da62e40685b58d
    nEnforceBlockUpgradeMajority := 750
    nRejectBlockOutdatedMajority := 950
    nToCheckBlockUpgradeMajority := 1000
    limit_above_target := by decide }

inductive ValidationMode where
  | valid | invalid | error
deriving DecidableEq, Repr

structure CValidationState where
  mode : ValidationMode
  nDoS : Int
  strRejectReason : String
  chRejectCode : UInt8
  corruptionPossible : Bool
deriving DecidableEq, Repr

def REJECT_INVALID : UInt8 := 0x10
def REJECT_OBSOLETE : UInt8 := 0x11
def REJECT_CHECKPOINT : UInt8 := 0x43

namespace CValidationState

def init : CValidationState := ⟨.valid, 0, "", 0, false⟩

def dos (state : CValidationState) (level : Int) (chRejectCode : UInt8) (strRejectReason : String)
    (corruptionIn : Bool) : CValidationState :=
  let noted := { state with chRejectCode, strRejectReason, corruptionPossible := corruptionIn }
  if state.mode = .error then noted
  else { noted with nDoS := state.nDoS + level, mode := .invalid }

def invalid (state : CValidationState) (chRejectCode : UInt8) (strRejectReason : String) :
    CValidationState := state.dos 0 chRejectCode strRejectReason false

def isInvalid (state : CValidationState) : Bool := state.mode == .invalid

end CValidationState

/-- The outcome of a check called with a fresh state: success, or refusal with
    what the state then says. -/
abbrev Check := Except CValidationState Unit

def fail (state : CValidationState) : Check := .error state

/-- `nStatus`, one field for its validity level and one for each flag. -/
structure BlockStatus where
  valid : Nat
  haveData : Bool
  haveUndo : Bool
  failedValid : Bool
  failedChild : Bool
deriving DecidableEq, Repr

def BLOCK_VALID_TREE : Nat := 2
def BLOCK_VALID_TRANSACTIONS : Nat := 3
def BLOCK_VALID_CHAIN : Nat := 4
def BLOCK_VALID_SCRIPTS : Nat := 5

namespace BlockStatus

def init : BlockStatus := ⟨0, false, false, false, false⟩

def failed (status : BlockStatus) : Bool := status.failedValid || status.failedChild

end BlockStatus

structure CBlockIndex where
  hash : Uint256
  pprev : Option Uint256
  nHeight : Int
  nVersion : Int32
  nTime : UInt32
  nBits : UInt32
  nAccumulatorCheckpoint : Uint256
  nChainWork : Nat
  nTx : Nat
  nChainTx : Nat
  nStatus : BlockStatus
  nSequenceId : Nat
  nMint : Int
  nMoneySupply : Int
  mapZerocoinSupply : CoinDenomination → Int
  vMintDenominationsInBlock : List CoinDenomination

namespace CBlockIndex

def getBlockTime (pindex : CBlockIndex) : Int := pindex.nTime.toNat

def isValid (pindex : CBlockIndex) (nUpTo : Nat) : Bool :=
  !pindex.nStatus.failed && decide (nUpTo ≤ pindex.nStatus.valid)

def raiseValidity (pindex : CBlockIndex) (nUpTo : Nat) : CBlockIndex :=
  if pindex.nStatus.failed then pindex
  else if pindex.nStatus.valid < nUpTo then
    { pindex with nStatus := { pindex.nStatus with valid := nUpTo } }
  else pindex

end CBlockIndex

end OxidChainParams
