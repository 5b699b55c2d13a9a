import Oxid.Library.Search
import Oxid.PayeeAgreement
import Oxid.SignatureHash
import Oxid.Standard

/-!
How a wallet makes a coinstake. The outputs and the credit built for one stakable input are
what the next one starts from. Each input comes with what the calls made for it give. Reads
past the end of a vector and through a null pointer are an outcome of their own.
-/
namespace OxidCoinStake
open OxidPrimitives OxidScript OxidStandard OxidConnectBlock OxidMasternode
open OxidMasternodePayments OxidPayeeAgreement OxidSignatureHash Searches

def DEFAULT_BLOCK_MAX_SIZE : Nat := 750000

structure COxidStake where
  txFrom : CTransaction
  nPosition : UInt32
  placed : nPosition.toNat < txFrom.vout.length
  inRange : 0 ≤ (txFrom.vout.get ⟨nPosition.toNat, placed⟩).nValue

structure StakingWallet where
  getKey : valtype → Option valtype
  nStakeSplitThreshold : UInt64

namespace COxidStake

def out (stake : COxidStake) : CTxOut :=
  stake.txFrom.vout.get ⟨stake.nPosition.toNat, stake.placed⟩

def createTxIn (stake : COxidStake) (txHash : CTransaction → Uint256) : CTxIn :=
  ⟨⟨txHash stake.txFrom, stake.nPosition⟩, [], 0xffffffff⟩

def getValue (stake : COxidStake) : Int := stake.out.nValue

/-- The script of the outputs that `CreateTxOuts` makes. -/
inductive KernelScript where
  | outOfRange
  | refused
  | pays (scriptPubKey : CScript)
deriving DecidableEq

def scriptPubKey (stake : COxidStake) (wallet : StakingWallet) : KernelScript :=
  match solver stake.out.scriptPubKey with
  | .outOfRange => .outOfRange
  | .unsolved => .refused
  | .solved whichType vSolutions =>
    if whichType ≠ .TX_PUBKEY ∧ whichType ≠ .TX_PUBKEYHASH then .refused
    else if whichType = .TX_PUBKEYHASH then
      match wallet.getKey (vSolutions.headD []) with
      | none => .refused
      | some key => .pays (pushOf key ++ [OP_CHECKSIG])
    else .pays stake.out.scriptPubKey

end COxidStake

/-- The threshold is unsigned, its product with `COIN` wraps around. -/
def StakingWallet.splits (wallet : StakingWallet) (nTotal : Int) : Bool :=
  decide ((wallet.nStakeSplitThreshold * 100000000).toInt64.toInt < nTotal.tdiv 2)

inductive TxOuts where
  | outOfRange
  | refused
  | made (vout : List CTxOut)

def COxidStake.createTxOuts (stake : COxidStake) (wallet : StakingWallet) (nTotal : Int) :
    TxOuts :=
  match stake.scriptPubKey wallet with
  | .outOfRange => .outOfRange
  | .refused => .refused
  | .pays script =>
    .made (⟨0, script, -10⟩ :: if wallet.splits nTotal then [⟨0, script, -10⟩] else [])

/-- A stakable input, and what the calls of its turn in the loop give. -/
structure Candidate where
  stakeInput : COxidStake
  /-- The wallet is locked or a shutdown was requested. -/
  fStopped : Bool
  /-- The height of the block the input comes from. -/
  pindexFrom : Option Int
  /-- What `Stake` returns, and the time it leaves. -/
  fStake : Bool
  nTxTime : UInt32
  /-- The tip. -/
  nHeight : Nat
  nMedianTimePast : Int
  payments : CMasternodePayments
  currentMasternode : UInt32 → Option CScript
  /-- What `CreateTxIn` returns. It is virtual, and true for a `COxidStake`. -/
  fTxIn : Bool

structure CoinStakeCall where
  txNew : CTransaction
  nTxNewTime : UInt32
  wallet : StakingWallet
  nBalance : Int
  /-- The option `-reservebalance`, if given: the amount it is parsed to. -/
  reserveBalance : Option (Option Int)
  nReserveBalance : Int
  selectStakeCoins : Int → Option (List Candidate)
  txHash : CTransaction → Uint256
  getWalletTx : Uint256 → Option CTransaction
  /-- The `scriptSig` that `SignSignature` sets, if it returns true. -/
  signSignature : CTransaction → CTransaction → Nat → Option CScript

structure StakeState where
  txNew : CTransaction
  nCredit : Int
  nTxNewTime : UInt32

/-- The coinstake, and its outputs before `FillBlockPayee`. -/
structure Kernel where
  txNew : CTransaction
  nTxNewTime : UInt32
  staked : List CTxOut

inductive Ending where
  | outOfRange
  | failed
deriving DecidableEq

def halfOf (nCredit : Int) : Int := ((nCredit.tdiv 2).tdiv CENT) * CENT

def setAmounts (nCredit : Int) (vout : List CTxOut) : Option (List CTxOut) :=
  if vout.length = 3 then
    some (valueAt 2 (nCredit - halfOf nCredit) (valueAt 1 (halfOf nCredit) vout))
  else if vout.length < 2 then none
  else some (valueAt 1 nCredit vout)

namespace Candidate

def nReward (candidate : Candidate) : Int := getBlockValue (candidate.nHeight + 1)

def fillBlockPayee (candidate : Candidate) (vout : List CTxOut) : List CTxOut :=
  OxidPayeeAgreement.fillBlockPayee candidate.payments candidate.currentMasternode
    candidate.nHeight true vout

end Candidate

def putTxIn (txHash : CTransaction → Uint256) (candidate : Candidate)
    (txNew : CTransaction) : Turn StakeState Kernel Ending :=
  let paid := { txNew with vout := candidate.fillBlockPayee txNew.vout }
  if !candidate.fTxIn then .next ⟨{ paid with vin := [], vout := [] }, 0, candidate.nTxTime⟩
  else
    .found ⟨{ paid with vin := paid.vin ++ [candidate.stakeInput.createTxIn txHash] },
      candidate.nTxTime, txNew.vout⟩

def putKernel (wallet : StakingWallet) (txHash : CTransaction → Uint256) (candidate : Candidate)
    (state : StakeState) : Turn StakeState Kernel Ending :=
  let nCredit := state.nCredit + candidate.stakeInput.getValue + candidate.nReward
  match candidate.stakeInput.createTxOuts wallet nCredit with
  | .outOfRange => .stop .outOfRange
  | .refused => .next ⟨state.txNew, nCredit, candidate.nTxTime⟩
  | .made vout =>
    match setAmounts nCredit (state.txNew.vout ++ vout) with
    | none => .stop .outOfRange
    | some vout =>
      let txNew := { state.txNew with vout := vout }
      if DEFAULT_BLOCK_MAX_SIZE / 5 ≤ (serializeTransaction txNew).length then .stop .failed
      else putTxIn txHash candidate txNew

def tryCandidate (wallet : StakingWallet) (txHash : CTransaction → Uint256)
    (candidate : Candidate) (state : StakeState) : Turn StakeState Kernel Ending :=
  if candidate.fStopped then .stop .failed
  else
    match candidate.pindexFrom with
    | none => .next state
    | some nHeight =>
      if nHeight < 1 then .next state
      else if !candidate.fStake then .next { state with nTxNewTime := candidate.nTxTime }
      else if (candidate.nTxTime.toNat : Int) ≤ candidate.nMedianTimePast then
        .next { state with nTxNewTime := candidate.nTxTime }
      else putKernel wallet txHash candidate state

/-- What `CreateCoinStake` returns, and leaves in its arguments where it returns true. The
    kernel, and the inputs passed by before it, are listed with them. -/
inductive CoinStaking where
  | outOfRange
  | failed
  | created (txNew : CTransaction) (nTxNewTime : UInt32) (kernel : Candidate)
      (earlier : List Candidate) (staked : List CTxOut)

namespace CoinStakeCall

/-- The loop over the inputs, and `SignSignature`'s own write. -/
def signInputs (call : CoinStakeCall) : List CTxIn → Nat → CTransaction →
    Except Ending CTransaction
  | [], _, txNew => .ok txNew
  | txIn :: rest, nIn, txNew =>
    match call.getWalletTx txIn.prevout.hash with
    | none => .error .outOfRange
    | some wtx =>
      match call.signSignature wtx txNew nIn with
      | none => .error .failed
      | some scriptSig =>
        call.signInputs rest (nIn + 1)
          { txNew with vin := txNew.vin.modify nIn fun txin => { txin with scriptSig } }

def marked (call : CoinStakeCall) : CTransaction :=
  { call.txNew with vin := [], vout := [⟨0, [], -10⟩] }

def findKernel (call : CoinStakeCall) (listInputs : List Candidate) :
    Search Candidate Kernel Ending :=
  search (tryCandidate call.wallet call.txHash) listInputs ⟨call.marked, 0, call.nTxNewTime⟩

def stake (call : CoinStakeCall) (listInputs : List Candidate) : CoinStaking :=
  match call.findKernel listInputs with
  | .stopped .outOfRange => .outOfRange
  | .stopped .failed => .failed
  | .exhausted => .failed
  | .found earlier kernel result =>
    match call.signInputs result.txNew.vin 0 result.txNew with
    | .error .outOfRange => .outOfRange
    | .error .failed => .failed
    | .ok txNew => .created txNew result.nTxNewTime kernel earlier result.staked

def createCoinStake (call : CoinStakeCall) : CoinStaking :=
  match call.reserveBalance.getD (some call.nReserveBalance) with
  | none => .failed
  | some nReserveBalance =>
    if 0 < call.nBalance ∧ call.nBalance ≤ nReserveBalance then .failed
    else
      match call.selectStakeCoins (call.nBalance - nReserveBalance) with
      | none => .failed
      | some listInputs => if listInputs.isEmpty then .failed else call.stake listInputs

end CoinStakeCall

def Candidate.inTime (candidate : Candidate) : Bool :=
  !candidate.fStopped && candidate.pindexFrom.any (fun nHeight => decide (1 ≤ nHeight)) &&
    candidate.fStake && decide (candidate.nMedianTimePast < candidate.nTxTime.toNat)

def Candidate.credit (candidate : Candidate) : Int :=
  candidate.stakeInput.getValue + candidate.nReward

def StakingWallet.lastStake (wallet : StakingWallet) (nCredit : Int) : Int :=
  if wallet.splits nCredit then nCredit - halfOf nCredit else nCredit

def Candidate.covers (candidate : Candidate) (wallet : StakingWallet) : Prop :=
  tierShare candidate.nHeight + tierShare candidate.nHeight ≤ wallet.lastStake candidate.credit

def shared (wallet : StakingWallet) (nCredit : Int) (script : CScript) : List CTxOut :=
  ⟨0, [], -10⟩ :: if wallet.splits nCredit then
    [⟨halfOf nCredit, script, -10⟩, ⟨nCredit - halfOf nCredit, script, -10⟩]
  else [⟨nCredit, script, -10⟩]

structure ValueLaw (txHash : CTransaction → Uint256) (txNew : CTransaction) (kernel : Candidate)
    (staked : List CTxOut) : Prop where
  first : txNew.vout.head? = some ⟨0, [], -10⟩
  single : txNew.vin.map CTxIn.prevout = [(kernel.stakeInput.createTxIn txHash).prevout]
  nonneg : ∀ out ∈ txNew.vout, 0 ≤ out.nValue
  conserved : (staked.map CTxOut.nValue).sum = kernel.credit
  paid : txNew.vout = kernel.fillBlockPayee staked

section Turns

variable {wallet : StakingWallet} {txHash : CTransaction → Uint256} {candidate : Candidate}
  {state : StakeState}

theorem getBlockValue_pos {nHeight : Int} (above : 0 < nHeight) : 0 < getBlockValue nHeight := by
  unfold getBlockValue MAX_REWARD SLOW_START_BLOCK COIN
  split_ifs <;> omega

theorem credit_pos (candidate : Candidate) : 0 < candidate.credit := by
  have value : 0 ≤ candidate.stakeInput.getValue := candidate.stakeInput.inRange
  have reward : 0 < candidate.nReward := getBlockValue_pos (by omega)
  unfold Candidate.credit
  omega

theorem tryCandidate_late (late : candidate.inTime = false) :
    tryCandidate wallet txHash candidate state = .stop .failed ∨
      ∃ time, tryCandidate wallet txHash candidate state =
        .next { state with nTxNewTime := time } := by
  unfold tryCandidate
  unfold Candidate.inTime at late
  cases stopped : candidate.fStopped with
  | true => exact Or.inl rfl
  | false =>
    right
    cases index : candidate.pindexFrom with
    | none => exact ⟨state.nTxNewTime, rfl⟩
    | some nHeight =>
      by_cases low : nHeight < 1
      · exact ⟨state.nTxNewTime, by simp [low]⟩
      · refine ⟨candidate.nTxTime, ?_⟩
        by_cases staked : candidate.fStake = true
        · have past : (candidate.nTxTime.toNat : Int) ≤ candidate.nMedianTimePast := by
            have high : 1 ≤ nHeight := by omega
            rw [stopped, index, staked] at late
            simpa [high] using late
          simp [low, staked, past]
        · simp [low, staked]

theorem tryCandidate_inTime (inTime : candidate.inTime = true) :
    tryCandidate wallet txHash candidate state = putKernel wallet txHash candidate state := by
  unfold Candidate.inTime at inTime
  simp only [Bool.and_eq_true, Bool.not_eq_true', decide_eq_true_eq] at inTime
  obtain ⟨⟨⟨going, from'⟩, staked⟩, time⟩ := inTime
  have past : ¬ (candidate.nTxTime.toNat : Int) ≤ candidate.nMedianTimePast := by omega
  cases index : candidate.pindexFrom with
  | none =>
    rw [index] at from'
    cases from'
  | some nHeight =>
    rw [index] at from'
    have high : 1 ≤ nHeight := of_decide_eq_true from'
    have low : ¬ nHeight < 1 := by omega
    unfold tryCandidate
    simp [going, index, low, staked, past]

variable {after : StakeState} {result : Kernel} {txNew : CTransaction} {script : CScript}
variable {nCredit : Int}

theorem putKernel_next (next : putKernel wallet txHash candidate state = .next after) :
    after.txNew = state.txNew ∧ after.nCredit = state.nCredit + candidate.credit ∨
      after.txNew.vin = [] ∧ after.txNew.vout = [] := by
  unfold putKernel at next
  dsimp only at next
  split at next
  · cases next
  · cases next
    left
    exact ⟨rfl, Int.add_assoc _ _ _⟩
  · split at next
    · cases next
    · split at next
      · cases next
      · right
        unfold putTxIn at next
        split at next
        · cases next
          exact ⟨rfl, rfl⟩
        · cases next

theorem putKernel_found (found : putKernel wallet txHash candidate state = .found result) :
    ∃ script, candidate.stakeInput.scriptPubKey wallet = .pays script ∧
      setAmounts (state.nCredit + candidate.credit) (state.txNew.vout ++ ⟨0, script, -10⟩ ::
        if wallet.splits (state.nCredit + candidate.credit) then [⟨0, script, -10⟩] else []) =
          some result.staked ∧
      result.txNew.vout = candidate.fillBlockPayee result.staked ∧
      result.txNew.vin = state.txNew.vin ++ [candidate.stakeInput.createTxIn txHash] := by
  have total : state.nCredit + candidate.stakeInput.getValue + candidate.nReward =
      state.nCredit + candidate.credit := Int.add_assoc _ _ _
  unfold putKernel COxidStake.createTxOuts at found
  rw [total] at found
  cases pays : candidate.stakeInput.scriptPubKey wallet with
  | outOfRange =>
    rw [pays] at found
    cases found
  | refused =>
    rw [pays] at found
    cases found
  | pays script =>
    rw [pays] at found
    dsimp only at found
    refine ⟨script, rfl, ?_⟩
    split at found
    · cases found
    · rename_i vout amounts
      split at found
      · cases found
      · unfold putTxIn at found
        split at found
        · cases found
        · cases found
          exact ⟨amounts, rfl, rfl⟩

theorem scriptPubKey_filled {stake : COxidStake} (pays : stake.scriptPubKey wallet = .pays script) :
    script ≠ [] := by
  have empty : solver [] = .unsolved := by decide +kernel
  unfold COxidStake.scriptPubKey at pays
  split at pays
  · cases pays
  · cases pays
  · rename_i solved
    split at pays
    · cases pays
    · split at pays
      · split at pays
        · cases pays
        · cases pays
          simp
      · cases pays
        intro none'
        rw [none', empty] at solved
        cases solved

/-- The candidates passed by before a kernel leave what the loop started from, if none of
    their kernels was found in time. -/
def Untouched (state : StakeState) : Prop :=
  state.txNew.vin = [] ∧ state.txNew.vout = [⟨0, [], -10⟩] ∧ state.nCredit = 0

/-- The first output is gone, or the credit of a candidate stays. -/
def Spoiled (state : StakeState) : Prop :=
  state.txNew.vin = [] ∧
    (state.txNew.vout = [] ∨ state.txNew.vout = [⟨0, [], -10⟩] ∧ 0 < state.nCredit)

def Going (state : StakeState) : Prop := Untouched state ∨ Spoiled state

theorem late_kept (late : candidate.inTime = false)
    (next : tryCandidate wallet txHash candidate state = .next after) :
    after.txNew = state.txNew ∧ after.nCredit = state.nCredit := by
  rcases @tryCandidate_late wallet txHash candidate state late with stop | ⟨time, same⟩
  · rw [stop] at next
    cases next
  · rw [same] at next
    cases next
    exact ⟨rfl, rfl⟩

theorem untouched_kept (late : candidate.inTime = false) (untouched : Untouched state)
    (next : tryCandidate wallet txHash candidate state = .next after) : Untouched after := by
  obtain ⟨sameTx, sameCredit⟩ := late_kept late next
  unfold Untouched
  rw [sameTx, sameCredit]
  exact untouched

theorem spoils (inTime : candidate.inTime = true) (going : Going state)
    (next : tryCandidate wallet txHash candidate state = .next after) : Spoiled after := by
  have credit := credit_pos candidate
  rw [tryCandidate_inTime inTime] at next
  unfold Spoiled
  rcases putKernel_next next with ⟨sameTx, added⟩ | ⟨noIn, noOut⟩
  · rw [sameTx, added]
    rcases going with ⟨noIn, outs, nothing⟩ | ⟨noIn, gone | ⟨outs, something⟩⟩
    · exact ⟨noIn, Or.inr ⟨outs, by omega⟩⟩
    · exact ⟨noIn, Or.inl gone⟩
    · exact ⟨noIn, Or.inr ⟨outs, by omega⟩⟩
  · exact ⟨noIn, Or.inl noOut⟩

theorem spoiled_stays (spoiled : Spoiled state)
    (next : tryCandidate wallet txHash candidate state = .next after) : Spoiled after := by
  cases inTime : candidate.inTime with
  | true => exact spoils inTime (Or.inr spoiled) next
  | false =>
    obtain ⟨sameTx, sameCredit⟩ := late_kept inTime next
    unfold Spoiled
    rw [sameTx, sameCredit]
    exact spoiled

theorem going_kept (going : Going state)
    (next : tryCandidate wallet txHash candidate state = .next after) : Going after := by
  cases inTime : candidate.inTime with
  | true => exact Or.inr (spoils inTime going next)
  | false =>
    rcases going with untouched | spoiled
    · exact Or.inl (untouched_kept inTime untouched next)
    · exact Or.inr (spoiled_stays spoiled next)

theorem setAmounts_marked (nCredit : Int) (script : CScript) :
    setAmounts nCredit ([⟨0, [], -10⟩] ++ ⟨0, script, -10⟩ ::
        if wallet.splits nCredit then [⟨0, script, -10⟩] else []) =
      some (shared wallet nCredit script) := by
  unfold shared
  cases wallet.splits nCredit <;> rfl

theorem setAmounts_cleared {staked : List CTxOut}
    (amounts : setAmounts nCredit ([] ++ ⟨0, script, -10⟩ ::
        if wallet.splits nCredit then [⟨0, script, -10⟩] else []) = some staked) :
    staked = [⟨0, script, -10⟩, ⟨nCredit, script, -10⟩] := by
  cases split : wallet.splits nCredit with
  | true =>
    rw [split] at amounts
    cases amounts
    rfl
  | false =>
    rw [split] at amounts
    cases amounts

theorem fillBlockPayee_head (first second : CTxOut) (rest : List CTxOut) :
    (candidate.fillBlockPayee (first :: second :: rest)).head? = some first := by
  unfold Candidate.fillBlockPayee
  rw [fillBlockPayee_stake _ _ _ (List.cons_ne_nil _ _)]
  rfl

theorem halfOf_bounds (some' : 0 ≤ nCredit) :
    0 ≤ halfOf nCredit ∧ halfOf nCredit ≤ nCredit := by
  unfold halfOf CENT
  rw [Int.tdiv_eq_ediv_of_nonneg some', Int.tdiv_eq_ediv_of_nonneg (by omega)]
  omega

theorem shared_sum (nCredit : Int) (script : CScript) :
    ((shared wallet nCredit script).map CTxOut.nValue).sum = nCredit := by
  unfold shared
  cases wallet.splits nCredit with
  | true =>
    simp only [if_true, List.map_cons, List.map_nil, List.sum_cons, List.sum_nil]
    omega
  | false => simp

theorem shared_covers (script : CScript) :
    (∀ out ∈ candidate.fillBlockPayee (shared wallet candidate.credit script), 0 ≤ out.nValue) ↔
      candidate.covers wallet := by
  have credit := credit_pos candidate
  have half := halfOf_bounds (Int.le_of_lt credit)
  have share := tierShare_nonneg candidate.nHeight
  have masternode := (tierOutput_value (payeeOf candidate.payments candidate.currentMasternode
    candidate.nHeight MASTERNODE) share).1
  have supernode := (tierOutput_value (payeeOf candidate.payments candidate.currentMasternode
    candidate.nHeight SUPERNODE) share).1
  unfold Candidate.fillBlockPayee Candidate.covers StakingWallet.lastStake shared
  rw [fillBlockPayee_stake _ _ _ (List.cons_ne_nil _ _)]
  cases wallet.splits candidate.credit with
  | true =>
    simp only [if_true, subtractAt, List.length_cons, List.length_nil, Nat.zero_add,
      Nat.reduceAdd, Nat.reduceSub, List.modify_succ_cons, List.modify_zero_cons,
      List.cons_append, List.nil_append, List.forall_mem_cons, List.not_mem_nil,
      false_implies, implies_true, and_true]
    omega
  | false =>
    simp only [Bool.false_eq_true, if_false, subtractAt, List.length_cons, List.length_nil,
      Nat.zero_add, Nat.reduceAdd, Nat.reduceSub, List.modify_succ_cons, List.modify_zero_cons,
      List.cons_append, List.nil_append, List.forall_mem_cons, List.not_mem_nil,
      false_implies, implies_true, and_true]
    omega

theorem untouched_law (untouched : Untouched state)
    (found : putKernel wallet txHash candidate state = .found result)
    (sameOut : txNew.vout = result.txNew.vout)
    (sameIn : txNew.vin.map CTxIn.prevout = result.txNew.vin.map CTxIn.prevout) :
    ValueLaw txHash txNew candidate result.staked ↔ candidate.covers wallet := by
  obtain ⟨noIn, outs, nothing⟩ := untouched
  obtain ⟨script, pays, amounts, paid, input⟩ := putKernel_found found
  rw [outs, nothing, Int.zero_add, setAmounts_marked] at amounts
  have staked : result.staked = shared wallet candidate.credit script :=
    (Option.some.inj amounts).symm
  rw [noIn, List.nil_append] at input
  rw [paid, staked] at sameOut
  constructor
  · intro law
    have nonneg := law.nonneg
    rw [sameOut] at nonneg
    exact (shared_covers script).mp nonneg
  · intro covers
    constructor
    · rw [sameOut]
      unfold shared
      split
      · exact fillBlockPayee_head _ _ _
      · exact fillBlockPayee_head _ _ _
    · rw [sameIn, input]
      rfl
    · rw [sameOut]
      exact (shared_covers script).mpr covers
    · rw [staked]
      exact shared_sum _ _
    · rw [staked]
      exact sameOut

theorem spoiled_law (spoiled : Spoiled state)
    (found : putKernel wallet txHash candidate state = .found result)
    (sameOut : txNew.vout = result.txNew.vout) :
    ¬ ValueLaw txHash txNew candidate result.staked := by
  intro law
  obtain ⟨script, pays, amounts, paid, input⟩ := putKernel_found found
  rcases spoiled.2 with gone | ⟨outs, something⟩
  · rw [gone] at amounts
    have first := law.first
    rw [sameOut, paid, setAmounts_cleared amounts, fillBlockPayee_head] at first
    exact scriptPubKey_filled pays (by simpa using first)
  · rw [outs, setAmounts_marked] at amounts
    have staked : result.staked = shared wallet (state.nCredit + candidate.credit) script :=
      (Option.some.inj amounts).symm
    have conserved := law.conserved
    rw [staked, shared_sum] at conserved
    omega

end Turns

section Calls

variable {call : CoinStakeCall}

theorem prevouts_modify (vin : List CTxIn) (nIn : Nat) (scriptSig : CScript) :
    (vin.modify nIn fun txin => { txin with scriptSig }).map CTxIn.prevout =
      vin.map CTxIn.prevout := by
  apply List.ext_getElem?
  intro index
  rw [List.getElem?_map, List.getElem?_modify, List.getElem?_map]
  cases vin[index]? with
  | none => rfl
  | some txin =>
    split
    · rfl
    · rfl

theorem signInputs_keeps {txins : List CTxIn} {nIn : Nat} {before txNew : CTransaction}
    (signed : call.signInputs txins nIn before = .ok txNew) :
    txNew.vout = before.vout ∧
      txNew.vin.map CTxIn.prevout = before.vin.map CTxIn.prevout := by
  induction txins generalizing nIn before with
  | nil =>
    cases signed
    exact ⟨rfl, rfl⟩
  | cons txIn rest ih =>
    unfold CoinStakeCall.signInputs at signed
    split at signed
    · cases signed
    · split at signed
      · cases signed
      · obtain ⟨sameOut, sameIn⟩ := ih signed
        exact ⟨sameOut, sameIn.trans (prevouts_modify _ _ _)⟩

theorem createCoinStake_created {txNew : CTransaction} {nTxNewTime : UInt32} {kernel : Candidate}
    {earlier : List Candidate} {staked : List CTxOut}
    (created : call.createCoinStake = .created txNew nTxNewTime kernel earlier staked) :
    ∃ nTarget listInputs result, call.selectStakeCoins nTarget = some listInputs ∧
      call.findKernel listInputs = .found earlier kernel result ∧
      call.signInputs result.txNew.vin 0 result.txNew = .ok txNew ∧ result.staked = staked := by
  unfold CoinStakeCall.createCoinStake at created
  split at created
  · cases created
  · split at created
    · cases created
    · split at created
      · cases created
      · rename_i listInputs selected
        split at created
        · cases created
        · unfold CoinStakeCall.stake at created
          split at created
          · cases created
          · cases created
          · cases created
          · rename_i result found
            split at created
            · cases created
            · cases created
            · rename_i signed
              cases created
              exact ⟨_, listInputs, result, selected, found, signed, rfl⟩

/-- A coinstake obeys the value law exactly if no kernel before its own was found in time,
    and its last output covers the payments taken from it. -/
theorem coinstake_value_iff {txNew : CTransaction} {nTxNewTime : UInt32} {kernel : Candidate}
    {earlier : List Candidate} {staked : List CTxOut}
    (created : call.createCoinStake = .created txNew nTxNewTime kernel earlier staked) :
    ValueLaw call.txHash txNew kernel staked ↔
      (∀ candidate ∈ earlier, candidate.inTime = false) ∧ kernel.covers call.wallet := by
  obtain ⟨_, listInputs, result, _, search, signed, same⟩ := createCoinStake_created created
  obtain ⟨_, last, passes, hit⟩ := search_found search
  obtain ⟨sameOut, sameIn⟩ := signInputs_keeps signed
  subst same
  have start : Untouched ⟨call.marked, 0, call.nTxNewTime⟩ := ⟨rfl, rfl, rfl⟩
  have inTime : kernel.inTime = true := by
    cases late : kernel.inTime with
    | true => rfl
    | false =>
      rcases @tryCandidate_late call.wallet call.txHash kernel last late with stop | ⟨time, next⟩
      · rw [stop] at hit
        cases hit
      · rw [next] at hit
        cases hit
  rw [tryCandidate_inTime inTime] at hit
  by_cases late : ∀ candidate ∈ earlier, candidate.inTime = false
  · have untouched := passes.keep (fun _ _ _ => untouched_kept) late start
    rw [untouched_law untouched hit sameOut sameIn]
    exact (and_iff_right late).symm
  · have marking : ∃ candidate ∈ earlier, candidate.inTime = true := by simpa using late
    have spoiled := passes.mark (fun _ _ _ => going_kept) (fun _ _ _ => spoils)
      (fun _ _ _ => spoiled_stays) marking (Or.inl start)
    constructor
    · intro law
      exact absurd law (spoiled_law spoiled hit sameOut)
    · intro condition
      exact absurd condition.1 late

def CoinStaking.values : CoinStaking → Option (Int × Int)
  | .created _ _ kernel _ staked => some ((staked.map CTxOut.nValue).sum, kernel.credit)
  | _ => none

theorem values_some {staking : CoinStaking} {sum credit : Int}
    (values : staking.values = some (sum, credit)) :
    ∃ txNew nTxNewTime kernel earlier staked,
      staking = .created txNew nTxNewTime kernel earlier staked ∧
        (staked.map CTxOut.nValue).sum = sum ∧ kernel.credit = credit := by
  cases staking with
  | outOfRange => cases values
  | failed => cases values
  | created txNew nTxNewTime kernel earlier staked =>
    cases values
    exact ⟨txNew, nTxNewTime, kernel, earlier, staked, rfl, rfl, rfl⟩

end Calls

def publicKey : valtype := 2 :: List.replicate 32 7

def timelyCandidate (script : CScript) : Candidate where
  stakeInput := ⟨⟨1, [], [⟨10 * COIN, script, -10⟩], 0⟩, 0, Nat.one_pos,
    show 0 ≤ 10 * COIN by decide⟩
  fStopped := false
  pindexFrom := some 50
  fStake := true
  nTxTime := 1000
  nHeight := 20000
  nMedianTimePast := 900
  payments := ⟨∅, ∅, ∅⟩
  currentMasternode _ := none
  fTxIn := true

def callWith (listInputs : List Candidate) : CoinStakeCall where
  txNew := ⟨1, [], [], 0⟩
  nTxNewTime := 0
  wallet := ⟨fun _ => none, 500⟩
  nBalance := 20 * COIN
  reserveBalance := none
  nReserveBalance := 0
  selectStakeCoins _ := some listInputs
  txHash _ := 1
  getWalletTx _ := some ⟨1, [], [], 0⟩
  signSignature _ _ _ := some [1]

def paysPublicKey : Candidate := timelyCandidate (pushOf publicKey ++ [OP_CHECKSIG])

def paysMultisig : Candidate :=
  timelyCandidate (OP_1 :: pushOf publicKey ++ [OP_1, OP_CHECKMULTISIG])

theorem lone_kernel_values :
    ∃ txNew nTxNewTime kernel earlier staked,
      (callWith [paysPublicKey]).createCoinStake =
          .created txNew nTxNewTime kernel earlier staked ∧
        (ValueLaw (callWith [paysPublicKey]).txHash txNew kernel staked ↔
          (∀ candidate ∈ earlier, candidate.inTime = false) ∧
            kernel.covers (callWith [paysPublicKey]).wallet) := by
  have values : (callWith [paysPublicKey]).createCoinStake.values =
      some (20 * COIN, 20 * COIN) := by decide +kernel
  obtain ⟨txNew, nTxNewTime, kernel, earlier, staked, created, _⟩ := values_some values
  exact ⟨txNew, nTxNewTime, kernel, earlier, staked, created, coinstake_value_iff created⟩

theorem refused_credit_carried :
    ∃ txNew nTxNewTime kernel earlier staked,
      (callWith [paysMultisig, paysPublicKey]).createCoinStake =
          .created txNew nTxNewTime kernel earlier staked ∧
        ¬ ValueLaw (callWith [paysMultisig, paysPublicKey]).txHash txNew kernel staked := by
  have values : (callWith [paysMultisig, paysPublicKey]).createCoinStake.values =
      some (40 * COIN, 20 * COIN) := by decide +kernel
  obtain ⟨txNew, nTxNewTime, kernel, earlier, staked, created, sum, credit⟩ := values_some values
  refine ⟨txNew, nTxNewTime, kernel, earlier, staked, created, ?_⟩
  intro law
  have conserved := law.conserved
  rw [sum, credit] at conserved
  exact absurd conserved (by decide)

end OxidCoinStake
