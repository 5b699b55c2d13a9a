import Oxid.BudgetThreshold
import Oxid.InstantTX
import Oxid.Script

/-!
The fee that stands behind a proposal or a finalized budget: a transaction with an output
that burns it under the object's hash, buried or locked deep enough.
-/
namespace OxidBudgetCollateral
open OxidPrimitives OxidMapKeys OxidBudgetThreshold OxidInstantTX OxidScript OrderedMaps

def PROPOSAL_FEE_TX : Int := 50 * COIN
def BUDGET_FEE_CONFIRMATIONS : Int := 6

structure BudgetView extends BudgetQuery where
  /-- `GetTransaction`: the transaction, and the hash of its block. -/
  getTransaction : Uint256 → Option (CTransaction × Uint256)
  /-- The height and time of a block of the active chain. -/
  activeBlock : Uint256 → Option (Int × Int)
  locks : LockMaps
  nInstantTXDepth : Int
  transactionString : CTransaction → String
  hashString : Uint256 → String

/-- What a check answers, with the error and the time it leaves behind. -/
structure Verdict where
  valid : Bool
  strError : String
  nTime : Int
  nConf : Int

def asInt (value : Int) : Int := value.bmod (2 ^ 32)

theorem asInt_fits {value : Int} (low : -2 ^ 31 ≤ value) (high : value < 2 ^ 31) :
    asInt value = value :=
  Int.bmod_eq_of_le (by omega) (by omega)

theorem asInt_range (value : Int) : -2 ^ 31 ≤ asInt value ∧ asInt value < 2 ^ 31 := by
  unfold asInt Int.bmod
  dsimp only
  split_ifs
  · omega
  · omega

def toByteVector (hash : Uint256) : List UInt8 := Serialize.littleEndian 32 hash.toNat

section Check

variable (view : BudgetView)

def getIXConfirmations (nTXHash : Uint256) : Int :=
  let sigs := match view.locks.mapTxLocks.find? nTXHash with
    | none => 0
    | some lock => lock.countSignatures
  if sigs ≥ INSTANTTX_SIGNATURES_REQUIRED then view.nInstantTXDepth else 0

def findScript (nExpectedHash : Uint256) : CScript :=
  OP_RETURN :: pushOf (toByteVector nExpectedHash)

def strayScript (o : CTxOut) : Bool :=
  !isNormalPaymentScript o.scriptPubKey && !o.scriptPubKey.isUnspendable

def findOpReturn (nExpectedHash : Uint256) : Bool → List CTxOut → Option Bool
  | foundOpReturn, [] => some foundOpReturn
  | foundOpReturn, o :: rest =>
    if strayScript o then none
    else findOpReturn nExpectedHash
      (foundOpReturn || (o.scriptPubKey == findScript nExpectedHash &&
        decide (o.nValue ≥ PROPOSAL_FEE_TX))) rest

/-- The confirmations of a transaction in this block, and the block's time where it is in
    the active chain. -/
def confirmations (nTxCollateralHash nBlockHash : Uint256) (nTime : Int) : Int × Int :=
  let conf := getIXConfirmations view nTxCollateralHash
  if nBlockHash = 0 then (conf, nTime)
  else match view.activeBlock nBlockHash with
    | none => (conf, nTime)
    | some (nHeight, blockTime) => (conf + (view.tipHeight.getD (-1) - nHeight + 1), blockTime)

def isBudgetCollateralValid (nTxCollateralHash nExpectedHash : Uint256) (strError : String)
    (nTime : Int) : Verdict :=
  match view.getTransaction nTxCollateralHash with
  | none => ⟨false, "Can't find collateral tx " ++
      view.transactionString CTransaction.fresh, nTime, 0⟩
  | some (txCollateral, nBlockHash) =>
    if txCollateral.vout.length < 1 then ⟨false, strError, nTime, 0⟩
    else if txCollateral.nLockTime ≠ 0 then ⟨false, strError, nTime, 0⟩
    else match findOpReturn nExpectedHash false txCollateral.vout with
      | none =>
        ⟨false, "Invalid Script " ++ view.transactionString txCollateral, nTime, 0⟩
      | some false =>
        ⟨false, "Couldn't find opReturn " ++ view.hashString nExpectedHash ++ " in " ++
          view.transactionString txCollateral, nTime, 0⟩
      | some true =>
        let (conf, nTime) := confirmations view nTxCollateralHash nBlockHash nTime
        if conf ≥ BUDGET_FEE_CONFIRMATIONS then ⟨true, strError, nTime, conf⟩
        else ⟨false, "Collateral requires at least " ++ toString BUDGET_FEE_CONFIRMATIONS ++
          " confirmations - " ++ toString conf ++ " confirmations", nTime, conf⟩

end Check

section Samples

def payee : CScript := [0x76, 0xa9, 0x14] ++ List.replicate 20 7 ++ [0x88, 0xac]

def feeTransaction (nExpectedHash : Uint256) : CTransaction :=
  ⟨1, [⟨⟨4, 0⟩, [], 0xffffffff⟩], [⟨50 * COIN, findScript nExpectedHash, -10⟩], 0⟩

def feeView (params : OxidChainParams.ChainParams) (nExpectedHash : Uint256) : BudgetView where
  params := params
  sporks := ⟨true, true⟩
  man := twentyMasternodes
  tipHeight := some 300
  time := 1600000000
  getTransaction hash := if hash = 5 then some (feeTransaction nExpectedHash, 8) else none
  activeBlock hash := if hash = 8 then some (200, 1500000000) else none
  locks := ⟨∅, ∅, ∅, ∅, ∅, 0⟩
  nInstantTXDepth := 5
  transactionString _ := "transaction"
  hashString _ := "hash"

end Samples

end OxidBudgetCollateral
