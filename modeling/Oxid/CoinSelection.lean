import Mathlib.Data.Option.Basic
import Oxid.Library.Selection
import Oxid.Masternode
import Oxid.Wallet

/-!
How a wallet selects the coins of a transaction. What a selection finds of the chain, the
keys and the locks are answers of the wallet. The random bits are arguments.
-/
namespace OxidCoinSelection
open OxidPrimitives OxidMapKeys OxidMasternode OxidWallet OrderedMaps Selection

inductive AvailableCoinsType where
  | ALL_COINS
  | ONLY_DENOMINATED
  | ONLY_NOT10000IFMN
  | ONLY_NONDENOMINATED_NOT10000IFMN
  | ONLY_5000
  | STAKABLE_COINS
deriving DecidableEq

abbrev isminetype := UInt8

def ISMINE_NO : isminetype := 0
def ISMINE_WATCH_ONLY : isminetype := 1
def ISMINE_MULTISIG : isminetype := 2
def ISMINE_SPENDABLE : isminetype := 4

def OBFUSCATION_COLLATERAL : Int := 10 * COIN

def obfuScationDenominations : List Int :=
  [10000 * COIN + 10000000, 1000 * COIN + 1000000, 100 * COIN + 100000, 10 * COIN + 10000,
    COIN + 1000, 10000000 + 100]

def isDenominatedAmount (nInputAmount : Int) : Bool :=
  obfuScationDenominations.contains nInputAmount

def isCollateralAmount (nInputAmount : Int) : Bool :=
  nInputAmount != 0 && nInputAmount.tmod OBFUSCATION_COLLATERAL == 0 &&
    decide (nInputAmount < OBFUSCATION_COLLATERAL * 5) &&
    decide (OBFUSCATION_COLLATERAL < nInputAmount)

inductive CTxDestination where
  | noDestination
  | keyID (hash : List UInt8)
  | scriptID (hash : List UInt8)
deriving DecidableEq

structure CCoinControl where
  destChange : CTxDestination
  setSelected : List COutPoint
  fSplitBlock : Bool
  nSplitBlock : Int32
  fAllowOtherInputs : Bool

namespace CCoinControl

def hasSelected (control : CCoinControl) : Bool := !control.setSelected.isEmpty

def isSelected (control : CCoinControl) (hash : Uint256) (n : Nat) : Bool :=
  control.setSelected.contains ⟨hash, UInt32.ofNat n⟩

end CCoinControl

/-- The wallet and its settings. Each transaction stands under its hash. -/
structure SpendingWallet where
  mapWallet : OrderedMap Uint256 CWalletTx
  txHash : CTransaction → Uint256
  keyed : ∀ entry ∈ mapWallet.entries, txHash entry.2.tx = entry.1
  sized : ∀ entry ∈ mapWallet.entries, entry.2.tx.vout.length < 2 ^ 32
  checkFinalTx : CTransaction → Bool
  isTrusted : CWalletTx → Bool
  getBlocksToMaturity : CWalletTx → Int
  getDepthInMainChain : CWalletTx → Bool → Int
  inMempool : CWalletTx → Bool
  isFromMe : CWalletTx → Bool
  isMine : CTxOut → isminetype
  isSpent : Uint256 → Nat → Bool
  isLockedCoin : Uint256 → Nat → Bool
  getInputObfuscationRounds : CTxIn → Int
  fMasterNode : Bool
  nZeromintPercentage : Int
  bSpendZeroConfChange : Bool

/-- The transaction pointed to is told by where it stands in `mapWallet`. -/
structure COutput where
  hash : Uint256
  tx : CWalletTx
  i : Nat
  nDepth : Int
  fSpendable : Bool

namespace COutput

def value (out : COutput) : Int := (out.tx.tx.vout.getD out.i CTxOut.null).nValue

def coin (out : COutput) : Uint256 × Nat := (out.hash, out.i)

end COutput

namespace SpendingWallet

variable (wallet : SpendingWallet)

def createTxIn (out : COutput) : CTxIn :=
  ⟨⟨wallet.txHash out.tx.tx, UInt32.ofNat out.i⟩, [], 0xffffffff⟩

def txAvailable (fOnlyConfirmed fUseIX : Bool) (pcoin : CWalletTx) : Bool :=
  wallet.checkFinalTx pcoin.tx &&
    !(fOnlyConfirmed && !wallet.isTrusted pcoin) &&
    !((pcoin.tx.isCoinBase || pcoin.tx.isCoinStake) &&
      decide (0 < wallet.getBlocksToMaturity pcoin)) &&
    !(fUseIX && decide (wallet.getDepthInMainChain pcoin false < 6)) &&
    !(wallet.getDepthInMainChain pcoin false == 0 && !wallet.inMempool pcoin)

def typeFound (nCoinType : AvailableCoinsType) (nValue : Int) : Bool :=
  match nCoinType with
  | .ONLY_DENOMINATED => isDenominatedAmount nValue
  | .ONLY_NOT10000IFMN => !(wallet.fMasterNode && CMasternode.hasValidCollateral nValue)
  | .ONLY_NONDENOMINATED_NOT10000IFMN =>
    !isCollateralAmount nValue && !isDenominatedAmount nValue &&
      !(wallet.fMasterNode && CMasternode.hasValidCollateral nValue)
  | .ONLY_5000 => CMasternode.hasValidCollateral nValue
  | .ALL_COINS => true
  | .STAKABLE_COINS => true

/-- The checks of `AvailableCoins` on an output. -/
def outAvailable (coinControl : Option CCoinControl) (fIncludeZeroValue : Bool)
    (nCoinType : AvailableCoinsType) (hash : Uint256) (i : Nat) (out : CTxOut) : Bool :=
  let mine := wallet.isMine out
  wallet.typeFound nCoinType out.nValue &&
    !(nCoinType == .STAKABLE_COINS && out.isZerocoinMint) &&
    !wallet.isSpent hash i &&
    mine != ISMINE_NO && mine != ISMINE_WATCH_ONLY &&
    !(wallet.isLockedCoin hash i && nCoinType != .ONLY_5000) &&
    !(decide (out.nValue ≤ 0) && !fIncludeZeroValue) &&
    !coinControl.any fun control =>
      control.hasSelected && !control.fAllowOtherInputs && !control.isSelected hash i

def coinsOf (coinControl : Option CCoinControl) (fIncludeZeroValue : Bool)
    (nCoinType : AvailableCoinsType) (entry : Uint256 × CWalletTx) : List COutput :=
  (List.range entry.2.tx.vout.length).filterMap fun i =>
    let out := entry.2.tx.vout.getD i CTxOut.null
    if wallet.outAvailable coinControl fIncludeZeroValue nCoinType entry.1 i out then
      some ⟨entry.1, entry.2, i, wallet.getDepthInMainChain entry.2 false,
        wallet.isMine out &&& ISMINE_SPENDABLE != ISMINE_NO ||
          wallet.isMine out &&& ISMINE_MULTISIG != ISMINE_NO⟩
    else none

def availableCoins (fOnlyConfirmed : Bool) (coinControl : Option CCoinControl)
    (fIncludeZeroValue : Bool) (nCoinType : AvailableCoinsType) (fUseIX : Bool) : List COutput :=
  (wallet.mapWallet.entries.filter fun entry =>
    wallet.txAvailable fOnlyConfirmed fUseIX entry.2).flatMap
      (wallet.coinsOf coinControl fIncludeZeroValue nCoinType)

end SpendingWallet

structure Approximation where
  vfIncluded : List Bool
  nTotal : Int
  fReachedTarget : Bool
  vfBest : List Bool
  nBest : Int

namespace Approximation

def tryCoin (nTargetValue : Int) (i : Nat) (nValue : Int) (approx : Approximation) :
    Approximation :=
  let nTotal := approx.nTotal + nValue
  let vfIncluded := approx.vfIncluded.set i true
  if nTargetValue ≤ nTotal then
    { vfIncluded := vfIncluded.set i false
      nTotal := nTotal - nValue
      fReachedTarget := true
      vfBest := if nTotal < approx.nBest then vfIncluded else approx.vfBest
      nBest := if nTotal < approx.nBest then nTotal else approx.nBest }
  else { approx with vfIncluded, nTotal }

def pass (nTargetValue : Int) (includes : Nat → Bool → Bool) :
    List COutput → Nat → Approximation → Approximation
  | [], _, approx => approx
  | coin :: rest, i, approx =>
    pass nTargetValue includes rest (i + 1)
      (if includes i (approx.vfIncluded.getD i false) then
        approx.tryCoin nTargetValue i coin.value
      else approx)

def repetition (nTargetValue : Int) (insecureRand : Nat → Bool) (vValue : List COutput)
    (approx : Approximation) : Approximation :=
  let started := { approx with
    vfIncluded := List.replicate vValue.length false, nTotal := 0, fReachedTarget := false }
  let first := started.pass nTargetValue (fun i _ => insecureRand i) vValue 0
  if first.fReachedTarget then first
  else first.pass nTargetValue (fun _ included => !included) vValue 0

def repetitions (nTargetValue : Int) (insecureRand : Nat → Nat → Bool) (vValue : List COutput) :
    Nat → Nat → Approximation → Approximation
  | 0, _, approx => approx
  | iterations + 1, nRep, approx =>
    if approx.nBest = nTargetValue then approx
    else
      repetitions nTargetValue insecureRand vValue iterations (nRep + 1)
        (approx.repetition nTargetValue (insecureRand nRep) vValue)

end Approximation

def approximateBestSubset (insecureRand : Nat → Nat → Bool) (vValue : List COutput)
    (nTotalLower nTargetValue : Int) (iterations : Nat) : Approximation :=
  Approximation.repetitions nTargetValue insecureRand vValue iterations 0
    ⟨[], 0, false, List.replicate vValue.length true, nTotalLower⟩

def lessThenDenom (out1 out2 : COutput) : Bool :=
  let found1 := isDenominatedAmount out1.value
  let found2 := isDenominatedAmount out2.value
  !found1 && found2

/-- What is random in a call of `SelectCoinsMinConf`: the shuffle, and the bits of each
    approximation by repetition and coin. -/
structure MinConfDraws where
  randomShuffle : Reorder COutput
  insecureRand : Nat → Nat → Nat → Bool

/-- A coin of just the amount, or the coins below it and the least one above. -/
inductive Scan where
  | exact (coin : COutput)
  | sorted (vValue : List COutput) (nTotalLower : Int) (coinLowestLarger : Option COutput)

/-- A selection, with its value: `none` where the call returns false. -/
abbrev CoinsRet := Option (List COutput × Int)

namespace SpendingWallet

variable (wallet : SpendingWallet)

def passedBy (nConfMine nConfTheirs : Int) (fNonDenom : Bool) (output : COutput) : Bool :=
  !output.fSpendable ||
    decide (output.nDepth < if wallet.isFromMe output.tx then nConfMine else nConfTheirs) ||
    fNonDenom && isDenominatedAmount output.value

def scanCoins (nTargetValue nConfMine nConfTheirs : Int) (fNonDenom : Bool) :
    List COutput → List COutput → Int → Option COutput → Scan
  | [], vValue, nTotalLower, coinLowestLarger => .sorted vValue nTotalLower coinLowestLarger
  | output :: rest, vValue, nTotalLower, coinLowestLarger =>
    if wallet.passedBy nConfMine nConfTheirs fNonDenom output then
      scanCoins nTargetValue nConfMine nConfTheirs fNonDenom rest vValue nTotalLower
        coinLowestLarger
    else if output.value = nTargetValue then .exact output
    else if output.value < nTargetValue + CENT then
      scanCoins nTargetValue nConfMine nConfTheirs fNonDenom rest (vValue ++ [output])
        (nTotalLower + output.value) coinLowestLarger
    else if output.value < coinLowestLarger.elim maxInt64 COutput.value then
      scanCoins nTargetValue nConfMine nConfTheirs fNonDenom rest vValue nTotalLower
        (some output)
    else
      scanCoins nTargetValue nConfMine nConfTheirs fNonDenom rest vValue nTotalLower
        coinLowestLarger

end SpendingWallet

def gatherAll (coins : List COutput) : List COutput × Int :=
  gather COutput.coin COutput.value (fun _ _ => true) coins ([], 0)

def bestSubset (insecureRand : Nat → Nat → Nat → Bool) (nTargetValue : Int)
    (vValue : List COutput) (nTotalLower : Int) : Approximation :=
  let first := approximateBestSubset (insecureRand 0) vValue nTotalLower nTargetValue 1000
  if first.nBest ≠ nTargetValue ∧ nTargetValue + CENT ≤ nTotalLower then
    approximateBestSubset (insecureRand 1) vValue nTotalLower (nTargetValue + CENT) 1000
  else first

def solveSubsetSum (insecureRand : Nat → Nat → Nat → Bool) (nTargetValue : Int)
    (vValue : List COutput) (nTotalLower : Int) (coinLowestLarger : Option COutput) :
    List COutput × Int :=
  let vValue := vValue.insertionSort fun coin1 coin2 => coin2.value ≤ coin1.value
  let best := bestSubset insecureRand nTargetValue vValue nTotalLower
  match coinLowestLarger with
  | some larger =>
    if (best.nBest ≠ nTargetValue ∧ best.nBest < nTargetValue + CENT) ∨
        larger.value ≤ best.nBest then gatherAll [larger]
    else gatherAll (picked best.vfBest vValue)
  | none => gatherAll (picked best.vfBest vValue)

def tryScan (insecureRand : Nat → Nat → Nat → Bool) (nTargetValue : Int) (otherwise : CoinsRet) :
    Scan → CoinsRet
  | .exact coin => some (gatherAll [coin])
  | .sorted vValue nTotalLower coinLowestLarger =>
    if nTotalLower = nTargetValue then some (gatherAll vValue)
    else if nTotalLower < nTargetValue then
      match coinLowestLarger with
      | none => otherwise
      | some larger => some (gatherAll [larger])
    else some (solveSubsetSum insecureRand nTargetValue vValue nTotalLower coinLowestLarger)

def toDouble (nAmount : Int) : Int :=
  let unit := 2 ^ (nAmount.natAbs.log2 - 52)
  let units := nAmount.natAbs / unit
  let rest := nAmount.natAbs % unit
  let up := unit < 2 * rest ∨ (2 * rest = unit ∧ units % 2 = 1)
  nAmount.sign * ((units + if up then 1 else 0) * unit : Nat)

namespace SpendingWallet

variable (wallet : SpendingWallet)

def selectCoinsMinConf (draws : MinConfDraws) (nTargetValue nConfMine nConfTheirs : Int)
    (vCoins : List COutput) : CoinsRet :=
  let vCoins := (draws.randomShuffle.order vCoins).insertionSort fun out1 out2 =>
    lessThenDenom out2 out1 = false
  let scan fNonDenom :=
    wallet.scanCoins nTargetValue nConfMine nConfTheirs fNonDenom vCoins [] 0 none
  tryScan draws.insecureRand nTargetValue
    (tryScan draws.insecureRand nTargetValue none (scan false)) (scan true)

def anonymized (out : COutput) : Bool :=
  decide (wallet.nZeromintPercentage ≤ wallet.getInputObfuscationRounds (wallet.createTxIn out))

def takesSelected (coinType : AvailableCoinsType) (_nValueRet : Int) (out : COutput) : Bool :=
  out.fSpendable && !(coinType == .ONLY_DENOMINATED && !wallet.anonymized out)

def takesDenomination (nTargetValue v nValueRet : Int) (out : COutput) : Bool :=
  out.value == v &&
    decide (toDouble (nValueRet + out.value) <
      toDouble (toDouble (toDouble nTargetValue + 10000000) + 100)) &&
    wallet.anonymized out

def gatherDenominated (nTargetValue : Int) (vCoins : List COutput) :
    List Int → List COutput × Int → List COutput × Int
  | [], state => state
  | v :: rest, state =>
    gatherDenominated nTargetValue vCoins rest
      (gather COutput.coin COutput.value (wallet.takesDenomination nTargetValue v) vCoins state)

def covering (nTargetValue : Int) (ret : List COutput × Int) : CoinsRet :=
  if nTargetValue ≤ ret.2 then some ret else none

def selectCoins (draws : Nat → MinConfDraws) (nTargetValue : Int)
    (coinControl : Option CCoinControl) (coinType : AvailableCoinsType) (useIX : Bool) :
    CoinsRet :=
  let vCoins := wallet.availableCoins true coinControl false coinType useIX
  if coinControl.any CCoinControl.hasSelected then
    covering nTargetValue
      (gather COutput.coin COutput.value (wallet.takesSelected coinType) vCoins ([], 0))
  else if coinType = .ONLY_DENOMINATED then
    covering nTargetValue
      (wallet.gatherDenominated nTargetValue vCoins obfuScationDenominations ([], 0))
  else
    (wallet.selectCoinsMinConf (draws 0) nTargetValue 1 6 vCoins) <|>
      (wallet.selectCoinsMinConf (draws 1) nTargetValue 1 1 vCoins) <|>
      (if wallet.bSpendZeroConfChange then
        wallet.selectCoinsMinConf (draws 2) nTargetValue 0 1 vCoins
      else none)

end SpendingWallet

structure Approximates (nTargetValue : Int) (vValue : List COutput) (approx : Approximation) :
    Prop where
  sized : approx.vfIncluded.length = vValue.length
  total : worth COutput.value (picked approx.vfIncluded vValue) = approx.nTotal
  enough : nTargetValue ≤ worth COutput.value (picked approx.vfBest vValue)

namespace Approximation

variable {nTargetValue : Int} {vValue : List COutput} {approx : Approximation}

theorem tryCoin_apart {i j : Nat} (apart : i ≠ j) (nValue : Int) :
    (approx.tryCoin nTargetValue i nValue).vfIncluded[j]? = approx.vfIncluded[j]? := by
  unfold tryCoin
  dsimp only
  split
  · rw [List.getElem?_set_ne apart, List.getElem?_set_ne apart]
  · rw [List.getElem?_set_ne apart]

theorem tryCoin_keeps {i : Nat} {coin : COutput}
    (approximates : Approximates nTargetValue vValue approx) (standing : vValue[i]? = some coin)
    (left : approx.vfIncluded[i]? = some false) :
    Approximates nTargetValue vValue (approx.tryCoin nTargetValue i coin.value) := by
  have added := @worth_set _ COutput.value _ _ _ _ left standing
  rw [approximates.total] at added
  have back : (approx.vfIncluded.set i true).set i false = approx.vfIncluded := by
    obtain ⟨inside, here⟩ := List.getElem?_eq_some_iff.mp left
    rw [List.set_set, ← here, List.set_getElem_self]
  unfold tryCoin
  dsimp only
  split
  · rename_i reached
    refine ⟨?_, ?_, ?_⟩
    · rw [back]
      exact approximates.sized
    · dsimp only
      rw [back, approximates.total]
      omega
    · dsimp only
      split
      · rw [added]
        exact reached
      · exact approximates.enough
  · refine ⟨?_, added, approximates.enough⟩
    rw [List.length_set]
    exact approximates.sized

structure KeptBy (nTargetValue : Int) (vValue : List COutput) (P : Approximation → Prop) : Prop where
  sized : ∀ approx, P approx → approx.vfIncluded.length = vValue.length
  tried : ∀ approx i coin, P approx → vValue[i]? = some coin →
    approx.vfIncluded[i]? = some false → P (approx.tryCoin nTargetValue i coin.value)

theorem approximates_kept : KeptBy nTargetValue vValue (Approximates nTargetValue vValue) :=
  ⟨fun _ approximates => approximates.sized,
    fun _ _ _ approximates standing left => tryCoin_keeps approximates standing left⟩

section Kept

variable {P : Approximation → Prop} (kept : KeptBy nTargetValue vValue P)
include kept

theorem KeptBy.pass {includes : Nat → Bool → Bool} {rest : List COutput} {i : Nat}
    (holds : P approx) (from_here : vValue.drop i = rest)
    (asks : (∀ j, includes j true = false) ∨
      ∀ j, i ≤ j → j < vValue.length → approx.vfIncluded[j]? = some false) :
    P (approx.pass nTargetValue includes rest i) := by
  induction rest generalizing i approx with
  | nil => exact holds
  | cons coin rest ih =>
    have standing : vValue[i]? = some coin := by
      rw [← List.head?_drop, from_here, List.head?_cons]
    have inside : i < vValue.length := (List.getElem?_eq_some_iff.mp standing).1
    have onward : vValue.drop (i + 1) = rest := by
      rw [← List.tail_drop, from_here, List.tail_cons]
    rw [Approximation.pass]
    split
    · rename_i included
      have left : approx.vfIncluded[i]? = some false := by
        rcases asks with never | empty
        · have there : i < approx.vfIncluded.length := by
            rw [kept.sized approx holds]
            exact inside
          rw [List.getD_eq_getElem?_getD, List.getElem?_eq_getElem there] at included
          rw [List.getElem?_eq_getElem there]
          cases bit : approx.vfIncluded[i] with
          | true =>
            rw [bit, Option.getD_some, never] at included
            cases included
          | false => rfl
        · exact empty i (le_refl i) inside
      refine ih (kept.tried approx i coin holds standing left) onward ?_
      apply asks.imp id
      intro empty j later bound
      rw [tryCoin_apart (by omega)]
      exact empty j (by omega) bound
    · exact ih holds onward (asks.imp id fun empty j later => empty j (by omega))

theorem KeptBy.repetition {insecureRand : Nat → Bool} (started : P { approx with
      vfIncluded := List.replicate vValue.length false, nTotal := 0, fReachedTarget := false }) :
    P (approx.repetition nTargetValue insecureRand vValue) := by
  have first := @KeptBy.pass _ _ _ _ kept (fun i _ => insecureRand i) _ 0 started rfl (.inr ?_)
  · unfold Approximation.repetition
    dsimp only
    split
    · exact first
    · exact kept.pass first rfl (.inl fun _ => rfl)
  · intro j _ bound
    rw [List.getElem?_replicate, if_pos bound]

end Kept

theorem started_approximates
    (enough : nTargetValue ≤ worth COutput.value (picked approx.vfBest vValue)) :
    Approximates nTargetValue vValue { approx with
      vfIncluded := List.replicate vValue.length false, nTotal := 0, fReachedTarget := false } := by
  refine ⟨List.length_replicate, ?_, enough⟩
  rw [picked_none]
  rfl

theorem repetitions_keeps {P : Approximation → Prop}
    (repeated : ∀ approx insecureRand, P approx →
      P (repetition nTargetValue insecureRand vValue approx))
    {insecureRand : Nat → Nat → Bool} {iterations nRep : Nat} (holds : P approx) :
    P (repetitions nTargetValue insecureRand vValue iterations nRep approx) := by
  induction iterations generalizing nRep approx with
  | zero => exact holds
  | succ iterations ih =>
    rw [repetitions]
    split
    · exact holds
    · exact ih (repeated approx _ holds)

theorem repetitions_enough {insecureRand : Nat → Nat → Bool} {iterations nRep : Nat}
    (enough : nTargetValue ≤ worth COutput.value (picked approx.vfBest vValue)) :
    nTargetValue ≤ worth COutput.value
      (picked (repetitions nTargetValue insecureRand vValue iterations nRep approx).vfBest
        vValue) :=
  @repetitions_keeps _ _ _ (fun approx => nTargetValue ≤ worth COutput.value
      (picked approx.vfBest vValue))
    (fun _ _ enough => (approximates_kept.repetition (started_approximates enough)).enough)
    _ _ _ enough

end Approximation

theorem approximateBestSubset_enough {insecureRand : Nat → Nat → Bool} {vValue : List COutput}
    {nTotalLower nTargetValue : Int} {iterations : Nat}
    (enough : nTargetValue ≤ worth COutput.value vValue) :
    nTargetValue ≤ worth COutput.value (picked
      (approximateBestSubset insecureRand vValue nTotalLower nTargetValue iterations).vfBest
        vValue) := by
  apply Approximation.repetitions_enough
  rw [picked_all]
  exact enough

structure Covers (vCoins : List COutput) (nTargetValue : Int) (ret : List COutput × Int) :
    Prop where
  chosen : Chosen COutput.coin COutput.value vCoins ret.1 ret.2
  covered : nTargetValue ≤ ret.2

section Selecting

variable {vCoins : List COutput} {nTargetValue : Int}

theorem gatherAll_covers {coins : List COutput} (distinct : (coins.map COutput.coin).Nodup)
    (within : ∀ coin ∈ coins, coin ∈ vCoins) (enough : nTargetValue ≤ worth COutput.value coins) :
    Covers vCoins nTargetValue (gatherAll coins) := by
  refine ⟨gather_chosen _ (Chosen.nil vCoins) within ?_, ?_⟩
  · simpa using distinct
  · unfold gatherAll
    rw [gather_all]
    simpa using enough

theorem single_covers {coin : COutput} (within : coin ∈ vCoins)
    (enough : nTargetValue ≤ coin.value) : Covers vCoins nTargetValue (gatherAll [coin]) := by
  apply gatherAll_covers
  · exact List.nodup_singleton _
  · intro other member
    rw [List.mem_singleton] at member
    exact member ▸ within
  · simpa using enough

structure Sorted (vCoins : List COutput) (nTargetValue : Int) (vValue : List COutput)
    (nTotalLower : Int) (coinLowestLarger : Option COutput) : Prop where
  distinct : (vValue.map COutput.coin).Nodup
  within : ∀ coin ∈ vValue, coin ∈ vCoins
  total : worth COutput.value vValue = nTotalLower
  larger : ∀ coin ∈ coinLowestLarger, coin ∈ vCoins ∧ nTargetValue ≤ coin.value

def Scan.Found (vCoins : List COutput) (nTargetValue : Int) : Scan → Prop
  | .exact coin => coin ∈ vCoins ∧ coin.value = nTargetValue
  | .sorted vValue nTotalLower coinLowestLarger =>
    Sorted vCoins nTargetValue vValue nTotalLower coinLowestLarger

variable {insecureRand : Nat → Nat → Nat → Bool} {coinLowestLarger : Option COutput}
variable {vValue : List COutput} {nTotalLower : Int}

theorem scanCoins_found (wallet : SpendingWallet) (nConfMine nConfTheirs : Int) (fNonDenom : Bool)
    {rest vValue : List COutput}
    (sorted : Sorted vCoins nTargetValue vValue nTotalLower coinLowestLarger)
    (distinct : ((vValue ++ rest).map COutput.coin).Nodup) (within : ∀ coin ∈ rest, coin ∈ vCoins) :
    (wallet.scanCoins nTargetValue nConfMine nConfTheirs fNonDenom rest vValue nTotalLower
      coinLowestLarger).Found vCoins nTargetValue := by
  induction rest generalizing vValue nTotalLower coinLowestLarger with
  | nil => exact sorted
  | cons output rest ih =>
    have here : output ∈ vCoins := within output List.mem_cons_self
    have later := fun coin member => within coin (List.mem_cons_of_mem output member)
    have passed : ((vValue ++ rest).map COutput.coin).Nodup := by
      apply List.Nodup.sublist _ distinct
      exact ((List.sublist_cons_self output rest).append_left vValue).map COutput.coin
    rw [SpendingWallet.scanCoins]
    split
    · exact ih sorted passed later
    · split
      · rename_i same
        exact ⟨here, same⟩
      · split
        · refine ih ⟨?_, ?_, ?_, sorted.larger⟩ ?_ later
          · apply List.Nodup.sublist _ distinct
            rw [List.append_cons vValue output rest]
            exact (List.sublist_append_left (vValue ++ [output]) rest).map COutput.coin
          · intro coin member
            rcases List.mem_append.mp member with old | new
            · exact sorted.within coin old
            · rw [List.mem_singleton] at new
              exact new ▸ here
          · rw [worth_append, sorted.total]
            simp
          · rw [List.append_assoc]
            exact distinct
        · rename_i above
          split
          · refine ih ⟨sorted.distinct, sorted.within, sorted.total, ?_⟩ passed later
            intro coin same
            rw [Option.mem_some_iff] at same
            subst same
            refine ⟨here, ?_⟩
            unfold CENT at above
            omega
          · exact ih sorted passed later

theorem bestSubset_enough (enough : nTargetValue ≤ worth COutput.value vValue) :
    nTargetValue ≤ worth COutput.value (picked
      (bestSubset insecureRand nTargetValue vValue (worth COutput.value vValue)).vfBest
        vValue) := by
  unfold bestSubset
  dsimp only
  split
  · rename_i second
    have further := @approximateBestSubset_enough (insecureRand 1) vValue
      (worth COutput.value vValue) (nTargetValue + CENT) 1000 second.2
    unfold CENT at further ⊢
    omega
  · exact approximateBestSubset_enough enough

theorem solveSubsetSum_covers
    (sorted : Sorted vCoins nTargetValue vValue nTotalLower coinLowestLarger)
    (more : nTargetValue ≤ nTotalLower) :
    Covers vCoins nTargetValue
      (solveSubsetSum insecureRand nTargetValue vValue nTotalLower coinLowestLarger) := by
  unfold solveSubsetSum
  generalize descending : (vValue.insertionSort fun coin1 coin2 => coin2.value ≤ coin1.value) =
    ordered
  have same : ordered.Perm vValue := descending ▸ List.perm_insertionSort _ vValue
  have total : worth COutput.value ordered = nTotalLower := (worth_perm same).trans sorted.total
  have enough := @bestSubset_enough nTargetValue insecureRand ordered (total ▸ more)
  rw [total] at enough
  dsimp only
  generalize bestSubset insecureRand nTargetValue ordered nTotalLower = best at enough ⊢
  have subset : Covers vCoins nTargetValue (gatherAll (picked best.vfBest ordered)) := by
    have sub := picked_sublist best.vfBest ordered
    apply gatherAll_covers _ _ enough
    · exact ((same.map COutput.coin).nodup_iff.mpr sorted.distinct).sublist (sub.map _)
    · intro coin member
      exact sorted.within coin (same.mem_iff.mp (sub.subset member))
  cases coinLowestLarger with
  | none => exact subset
  | some larger =>
    dsimp only
    split
    · obtain ⟨within, above⟩ := sorted.larger larger rfl
      exact single_covers within above
    · exact subset

theorem tryScan_covers {otherwise : CoinsRet} {scan : Scan} {ret : List COutput × Int}
    (found : scan.Found vCoins nTargetValue)
    (later : otherwise = some ret → Covers vCoins nTargetValue ret)
    (selected : tryScan insecureRand nTargetValue otherwise scan = some ret) :
    Covers vCoins nTargetValue ret := by
  cases scan with
  | exact coin =>
    cases selected
    exact single_covers found.1 (le_of_eq found.2.symm)
  | sorted vValue nTotalLower coinLowestLarger =>
    unfold tryScan at selected
    dsimp only at selected
    split at selected
    · rename_i same
      cases selected
      exact gatherAll_covers found.distinct found.within (le_of_eq (found.total.trans same).symm)
    · split at selected
      · cases coinLowestLarger with
        | none => exact later selected
        | some larger =>
          cases selected
          obtain ⟨within, above⟩ := found.larger larger rfl
          exact single_covers within above
      · cases selected
        exact solveSubsetSum_covers found (by omega)

end Selecting

namespace SpendingWallet

variable {wallet : SpendingWallet} {vCoins : List COutput} {nTargetValue : Int}
variable {ret : List COutput × Int}

theorem selectCoinsMinConf_covers {draws : MinConfDraws} {nConfMine nConfTheirs : Int}
    (distinct : (vCoins.map COutput.coin).Nodup)
    (selected : wallet.selectCoinsMinConf draws nTargetValue nConfMine nConfTheirs vCoins =
      some ret) : Covers vCoins nTargetValue ret := by
  unfold selectCoinsMinConf at selected
  generalize shuffled : ((draws.randomShuffle.order vCoins).insertionSort fun out1 out2 =>
    lessThenDenom out2 out1 = false) = ordered at selected
  have same : ordered.Perm vCoins :=
    shuffled ▸ (List.perm_insertionSort _ _).trans (draws.randomShuffle.perm vCoins)
  have found (fNonDenom : Bool) : (wallet.scanCoins nTargetValue nConfMine nConfTheirs fNonDenom
      ordered [] 0 none).Found vCoins nTargetValue := by
    apply scanCoins_found
    · refine ⟨List.nodup_nil, ?_, rfl, ?_⟩
      · intro coin member
        cases member
      · intro coin none'
        cases none'
    · exact (same.map COutput.coin).nodup_iff.mpr distinct
    · intro coin member
      exact same.mem_iff.mp member
  apply tryScan_covers (found true) _ selected
  intro second
  apply tryScan_covers (found false) _ second
  intro nothing
  cases nothing

theorem covering_covers {ret taken : List COutput × Int}
    (chosen : Chosen COutput.coin COutput.value vCoins taken.1 taken.2)
    (selected : covering nTargetValue taken = some ret) : Covers vCoins nTargetValue ret := by
  unfold covering at selected
  split at selected
  · rename_i covered
    cases selected
    exact ⟨chosen, covered⟩
  · cases selected

theorem gatherDenominated_chosen (distinct : (vCoins.map COutput.coin).Nodup)
    {denominations earlier : List Int} {state : List COutput × Int}
    (apart : (earlier ++ denominations).Nodup)
    (chosen : Chosen COutput.coin COutput.value vCoins state.1 state.2)
    (before : ∀ coin ∈ state.1, coin.value ∈ earlier) :
    Chosen COutput.coin COutput.value vCoins
      (wallet.gatherDenominated nTargetValue vCoins denominations state).1
      (wallet.gatherDenominated nTargetValue vCoins denominations state).2 := by
  induction denominations generalizing earlier state with
  | nil => exact chosen
  | cons v rest ih =>
    have new : v ∉ earlier := by
      rw [List.nodup_middle, List.nodup_cons] at apart
      exact fun member => apart.1 (List.mem_append_left rest member)
    have needed : ∀ total item, wallet.takesDenomination nTargetValue v total item = true →
        (item.value == v) = true := by
      intro total item takes
      unfold takesDenomination at takes
      simp only [Bool.and_eq_true] at takes
      exact takes.1.1
    rw [gatherDenominated, gather_filter needed]
    have same {first second : COutput} (left : first ∈ vCoins) (right : second ∈ vCoins) :=
      List.inj_on_of_nodup_map distinct left right
    generalize denominated : vCoins.filter (fun item => item.value == v) = items
    have valued : ∀ item ∈ items, item ∈ vCoins ∧ item.value = v := by
      intro item member
      rw [← denominated, List.mem_filter, beq_iff_eq] at member
      exact member
    refine @ih (earlier ++ [v]) _ ?_ (gather_chosen _ chosen (fun item member => (valued item
      member).1) ?_) ?_
    · rw [List.append_assoc]
      exact apart
    · rw [List.nodup_append]
      refine ⟨chosen.distinct, ?_, ?_⟩
      · rw [← denominated]
        exact List.Nodup.sublist (List.filter_sublist.map COutput.coin) distinct
      · intro old taken coin member alike
        obtain ⟨first, standing, rfl⟩ := List.mem_map.mp taken
        obtain ⟨second, here, rfl⟩ := List.mem_map.mp member
        obtain ⟨within, value⟩ := valued second here
        have one := same (chosen.within first standing) within alike
        exact new (value ▸ one ▸ before first standing)
    · intro coin member
      rcases gather_mem _ member with old | ⟨here, _⟩
      · exact List.mem_append_left _ (before coin old)
      · rw [(valued coin here).2]
        exact List.mem_append_right _ (List.mem_singleton_self v)

section Available

variable {coinControl : Option CCoinControl} {fOnlyConfirmed fIncludeZeroValue fUseIX : Bool}
  {nCoinType : AvailableCoinsType}

theorem coinsOf_mem {entry : Uint256 × CWalletTx} {coin : COutput}
    (member : coin ∈ wallet.coinsOf coinControl fIncludeZeroValue nCoinType entry) :
    coin.hash = entry.1 ∧ coin.tx = entry.2 ∧ coin.i < entry.2.tx.vout.length ∧
      (fIncludeZeroValue = false → 0 < coin.value) := by
  obtain ⟨i, inside, here⟩ := List.mem_filterMap.mp member
  dsimp only at here
  split at here
  · rename_i available
    cases here
    refine ⟨rfl, rfl, List.mem_range.mp inside, ?_⟩
    intro positive
    unfold outAvailable at available
    simp only [positive, Bool.and_eq_true, Bool.not_false, Bool.and_true, Bool.not_eq_true',
      decide_eq_false_iff_not] at available
    exact not_le.mp available.1.2
  · cases here

theorem availableCoins_mem {coin : COutput}
    (member : coin ∈ wallet.availableCoins fOnlyConfirmed coinControl fIncludeZeroValue nCoinType
      fUseIX) :
    (coin.hash, coin.tx) ∈ wallet.mapWallet.entries ∧ coin.i < coin.tx.tx.vout.length ∧
      (fIncludeZeroValue = false → 0 < coin.value) := by
  obtain ⟨entry, standing, here⟩ := List.mem_flatMap.mp member
  obtain ⟨hash, tx, inside, positive⟩ := coinsOf_mem here
  rw [hash, tx]
  exact ⟨(List.mem_filter.mp standing).1, inside, positive⟩

theorem availableCoins_distinct :
    ((wallet.availableCoins fOnlyConfirmed coinControl fIncludeZeroValue nCoinType fUseIX).map
      COutput.coin).Nodup := by
  unfold availableCoins
  rw [List.map_flatMap, List.nodup_flatMap]
  constructor
  · intro entry _
    unfold coinsOf
    rw [List.map_filterMap]
    apply List.Nodup.filterMap _ List.nodup_range
    intro first second coin left right
    obtain ⟨one, here, rfl⟩ := Option.map_eq_some_iff.mp left
    obtain ⟨two, there, alike⟩ := Option.map_eq_some_iff.mp right
    dsimp only at here there
    split at here
    · split at there
      · cases here
        cases there
        exact (congrArg Prod.snd alike).symm
      · cases there
    · cases here
  · apply (wallet.mapWallet.ascending.filter _).imp
    intro first second before coin left right
    obtain ⟨one, here, rfl⟩ := List.mem_map.mp left
    obtain ⟨two, there, alike⟩ := List.mem_map.mp right
    have hash : second.1 = first.1 := by
      rw [← (coinsOf_mem here).1, ← (coinsOf_mem there).1]
      exact congrArg Prod.fst alike
    rw [hash] at before
    omega

end Available

theorem selectCoins_covers {draws : Nat → MinConfDraws} {coinControl : Option CCoinControl}
    {coinType : AvailableCoinsType} {useIX : Bool}
    (selected : wallet.selectCoins draws nTargetValue coinControl coinType useIX = some ret) :
    Covers (wallet.availableCoins true coinControl false coinType useIX) nTargetValue ret := by
  have distinct := @availableCoins_distinct wallet coinControl true false useIX coinType
  unfold selectCoins at selected
  generalize wallet.availableCoins true coinControl false coinType useIX = vCoins at *
  split at selected
  · refine covering_covers (gather_chosen _ (Chosen.nil vCoins) (fun coin member => member) ?_)
      selected
    exact distinct
  · split at selected
    · refine covering_covers (@gatherDenominated_chosen wallet vCoins nTargetValue distinct
        obfuScationDenominations [] ([], 0) (by decide) (Chosen.nil vCoins) ?_) selected
      intro coin member
      cases member
    · rcases (Option.orElse_eq_some _ _ _).mp selected with first | ⟨_, later⟩
      · exact selectCoinsMinConf_covers distinct first
      · rcases (Option.orElse_eq_some _ _ _).mp later with second | ⟨_, third⟩
        · exact selectCoinsMinConf_covers distinct second
        · split at third
          · exact selectCoinsMinConf_covers distinct third
          · cases third

end SpendingWallet

end OxidCoinSelection
