import Oxid.BudgetCollateral
import Mathlib.Data.Int.CardIntervalMod
import Mathlib.Data.Int.ConditionallyCompleteOrder
import Mathlib.Data.Set.Card

/-!
How often a proposal is paid: in the cycles whose whole span lies between its start and end
block. The end has a block to spare for each payment, and the start is compared as it is
given.
-/
namespace OxidProposalCycles
open OxidPrimitives OxidChainParams OxidMapKeys OxidConnectBlock OxidScript
open OxidBudgetThreshold OxidBudgetCollateral OrderedMaps

/-- A proposal with what the count of votes does not read of it. -/
structure CBudgetProposalBroadcast extends CBudgetProposal where
  strProposalName : String
  strURL : String
  address : CScript

namespace CBudgetProposalBroadcast

def make (params : ChainParams) (strProposalNameIn strURLIn : String) (nPaymentCount : Int32)
    (addressIn : CScript) (nAmountIn : Int) (nBlockStartIn : Int32) (nFeeTXHashIn : Uint256) :
    CBudgetProposalBroadcast :=
  let nBlockStart := nBlockStartIn.toInt
  let nCycleStart := nBlockStart - nBlockStart.tmod (getBudgetPaymentCycleBlocks params)
  { nAlloted := 0
    fValid := true
    nBlockStart := nBlockStart
    nBlockEnd := asInt (nCycleStart +
      (getBudgetPaymentCycleBlocks params + 1) * nPaymentCount.toInt)
    nAmount := nAmountIn
    nTime := 0
    nFeeTXHash := nFeeTXHashIn
    mapVotes := ∅
    strProposalName := strProposalNameIn
    strURL := strURLIn
    address := addressIn }

def getBlockStartCycle (params : ChainParams) (proposal : CBudgetProposalBroadcast) : Int :=
  proposal.nBlockStart - proposal.nBlockStart.tmod (getBudgetPaymentCycleBlocks params)

def getBlockEndCycle (proposal : CBudgetProposalBroadcast) : Int := proposal.nBlockEnd

def getTotalPaymentCount (params : ChainParams) (proposal : CBudgetProposalBroadcast) : Int :=
  (proposal.getBlockEndCycle - proposal.getBlockStartCycle params).tdiv
    (getBudgetPaymentCycleBlocks params)

def getHash (proposalHash : String × String × Int × Int × Int × CScript → Uint256)
    (proposal : CBudgetProposalBroadcast) : Uint256 :=
  proposalHash (proposal.strProposalName, proposal.strURL, proposal.nBlockStart,
    proposal.nBlockEnd, proposal.nAmount, proposal.address)

def isValid (view : BudgetView)
    (proposalHash : String × String × Int × Int × Int × CScript → Uint256) (strError : String)
    (fCheckCollateral : Bool) (proposal : CBudgetProposalBroadcast) : Verdict :=
  let titled (text : String) : String := "Proposal " ++ proposal.strProposalName ++ ": " ++ text
  if (proposal.getNays : Int) - proposal.getYeas >
      (countAsked view.sporks view.man.vMasternodes / 10 : Nat) then
    ⟨false, titled "Active removal", proposal.nTime, 0⟩
  else if proposal.nBlockStart < 0 then ⟨false, "Invalid Proposal", proposal.nTime, 0⟩
  else if proposal.nBlockEnd < proposal.nBlockStart then
    ⟨false, titled "Invalid nBlockEnd (end before start)", proposal.nTime, 0⟩
  else if proposal.nAmount < 10 * COIN then
    ⟨false, titled "Invalid nAmount", proposal.nTime, 0⟩
  else if proposal.address = [] then
    ⟨false, titled "Invalid Payment Address", proposal.nTime, 0⟩
  else
    let collateral := if fCheckCollateral then
        isBudgetCollateralValid view proposal.nFeeTXHash (proposal.getHash proposalHash) strError
          proposal.nTime
      else ⟨true, strError, proposal.nTime, 0⟩
    if !collateral.valid then ⟨false, titled "Invalid collateral", collateral.nTime, 0⟩
    else if isPayToScriptHash proposal.address then
      ⟨false, titled "Multisig is not currently supported.", collateral.nTime, 0⟩
    else if proposal.nAmount > getTotalBudget view.params proposal.nBlockStart then
      ⟨false, titled "Payment more than max", collateral.nTime, 0⟩
    else match view.tipHeight with
      | none => ⟨true, titled "Tip is NULL", collateral.nTime, 0⟩
      | some nHeight =>
        let nProposalEnd := asInt (proposal.nBlockStart +
          getBudgetPaymentCycleBlocks view.params * proposal.getTotalPaymentCount view.params)
        if nProposalEnd < nHeight then
          ⟨false, titled ("Invalid nBlockEnd (" ++ toString nProposalEnd ++
            ") < current height (" ++ toString nHeight ++ ")"), collateral.nTime, 0⟩
        else ⟨true, collateral.strError, collateral.nTime, 0⟩

end CBudgetProposalBroadcast

def Superblock (params : ChainParams) (height : Int) : Prop :=
  ∃ nHeight : Int, 0 ≤ nHeight ∧ height = nextCycle params nHeight

/-- The window of `GetBudget`'s first check. -/
def InWindow (params : ChainParams) (proposal : CBudgetProposal) (height : Int) : Prop :=
  proposal.nBlockStart ≤ height ∧
    proposal.nBlockEnd ≥ height + getBudgetPaymentCycleBlocks params - 1

def payableHeights (params : ChainParams) (proposal : CBudgetProposal) : Set Int :=
  {height | Superblock params height ∧ InWindow params proposal height}

/-- The proposal is paid in this many cycles, one after the other, and says so. -/
structure PaidExactly (params : ChainParams) (proposal : CBudgetProposalBroadcast)
    (payments : Int) : Prop where
  count : ((payableHeights params proposal.toCBudgetProposal).ncard : Int) = payments
  consecutive : ∀ first ∈ payableHeights params proposal.toCBudgetProposal,
    ∀ last ∈ payableHeights params proposal.toCBudgetProposal,
      ∀ height, Superblock params height → first ≤ height → height ≤ last →
        height ∈ payableHeights params proposal.toCBudgetProposal
  total : proposal.getTotalPaymentCount params = payments

def StartsCycle (params : ChainParams) (nBlockStart : Int) : Prop :=
  getBudgetPaymentCycleBlocks params ∣ nBlockStart ∧ 0 < nBlockStart

instance (params : ChainParams) (nBlockStart : Int) :
    Decidable (StartsCycle params nBlockStart) :=
  inferInstanceAs (Decidable (_ ∧ _))

/-- The spare blocks stay short of a cycle, or make up for a first cycle that is missed. -/
def RightSlack (params : ChainParams) (nBlockStart nPaymentCount : Int) : Prop :=
  if StartsCycle params nBlockStart then
    nPaymentCount + 1 < getBudgetPaymentCycleBlocks params
  else nPaymentCount + 1 = getBudgetPaymentCycleBlocks params

instance (params : ChainParams) (nBlockStart nPaymentCount : Int) :
    Decidable (RightSlack params nBlockStart nPaymentCount) :=
  inferInstanceAs (Decidable (ite _ _ _))

section Cycles

variable {params : ChainParams}

theorem cycle_cases (params : ChainParams) :
    getBudgetPaymentCycleBlocks params = 43200 ∨ getBudgetPaymentCycleBlocks params = 144 := by
  unfold getBudgetPaymentCycleBlocks
  split_ifs
  · exact Or.inl rfl
  · exact Or.inr rfl

theorem superblock_iff {height : Int} :
    Superblock params height ↔ getBudgetPaymentCycleBlocks params ∣ height ∧ 0 < height := by
  unfold Superblock nextCycle
  constructor
  · rintro ⟨nHeight, old, rfl⟩
    rcases cycle_cases params with cycle | cycle
    · rw [cycle]
      omega
    · rw [cycle]
      omega
  · rintro ⟨⟨index, rfl⟩, positive⟩
    refine ⟨getBudgetPaymentCycleBlocks params * index - getBudgetPaymentCycleBlocks params, ?_⟩
    rcases cycle_cases params with cycle | cycle
    · rw [cycle] at positive ⊢
      omega
    · rw [cycle] at positive ⊢
      omega

theorem payableHeights_eq (proposal : CBudgetProposal) :
    payableHeights params proposal =
      {height ∈ Finset.Ioc (max (proposal.nBlockStart - 1) 0)
        (proposal.nBlockEnd - getBudgetPaymentCycleBlocks params + 1) |
          getBudgetPaymentCycleBlocks params ∣ height} := by
  ext height
  unfold payableHeights InWindow
  simp only [Set.mem_ofPred_eq, superblock_iff, Finset.coe_filter, Finset.mem_Ioc]
  constructor
  · rintro ⟨⟨whole, positive⟩, starts, ends⟩
    exact ⟨⟨by omega, by omega⟩, whole⟩
  · rintro ⟨⟨starts, ends⟩, whole⟩
    exact ⟨⟨whole, by omega⟩, by omega, by omega⟩

theorem payableHeights_ncard (proposal : CBudgetProposal) :
    ((payableHeights params proposal).ncard : Int) =
      max ((proposal.nBlockEnd - getBudgetPaymentCycleBlocks params + 1) /
          getBudgetPaymentCycleBlocks params -
        max (proposal.nBlockStart - 1) 0 / getBudgetPaymentCycleBlocks params) 0 := by
  have positive : 0 < getBudgetPaymentCycleBlocks params := by
    rcases cycle_cases params with cycle | cycle <;> omega
  rw [payableHeights_eq, Set.ncard_coe_finset]
  rw [Int.Ioc_filter_dvd_card _ _ positive]
  obtain ⟨blocks, whole⟩ := Int.eq_ofNat_of_zero_le positive.le
  rw [whole, Int.cast_natCast, Rat.floor_intCast_div_natCast, Rat.floor_intCast_div_natCast]

theorem payableHeights_consecutive (proposal : CBudgetProposal) {first last height : Int}
    (start : first ∈ payableHeights params proposal)
    (stop : last ∈ payableHeights params proposal) (superblock : Superblock params height)
    (after : first ≤ height) (before : height ≤ last) :
    height ∈ payableHeights params proposal := by
  refine ⟨superblock, ?_, ?_⟩
  · exact start.2.1.trans after
  · have ends := stop.2.2
    omega

end Cycles

section Made

variable {view : BudgetView}
  {proposalHash : String × String × Int × Int × Int × CScript → Uint256}
  {strError : String} {fCheckCollateral : Bool} {proposal : CBudgetProposalBroadcast}

theorem isValid_blocks
    (accepted : (proposal.isValid view proposalHash strError fCheckCollateral).valid = true) :
    0 ≤ proposal.nBlockStart ∧ proposal.nBlockStart ≤ proposal.nBlockEnd := by
  unfold CBudgetProposalBroadcast.isValid at accepted
  dsimp only at accepted
  constructor
  · by_contra early
    rw [if_pos (not_le.mp early)] at accepted
    split_ifs at accepted
  · by_contra reversed
    rw [if_pos (not_le.mp reversed)] at accepted
    split_ifs at accepted

theorem asInt_wraps (value : Int) : ∃ turns : Int, asInt value = value - turns * 2 ^ 32 := by
  unfold asInt Int.bmod
  dsimp only
  split_ifs
  · exact ⟨value / 2 ^ 32, by omega⟩
  · exact ⟨value / 2 ^ 32 + 1, by omega⟩

variable {cycle start payments stop : Int}

theorem end_exact (length : cycle = 43200 ∨ cycle = 144) (started : 0 ≤ start)
    (startInt : start < 2 ^ 31) (some : 1 ≤ payments) (paymentsInt : payments < 2 ^ 31)
    (made : stop = asInt (start - start % cycle + (cycle + 1) * payments)) (ordered : start ≤ stop)
    (told : payments < cycle ∨ (stop - (start - start % cycle)) / cycle = payments) :
    stop = start - start % cycle + (cycle + 1) * payments ∧ payments < cycle := by
  obtain ⟨turns, wrapped⟩ := asInt_wraps (start - start % cycle + (cycle + 1) * payments)
  have range := asInt_range (start - start % cycle + (cycle + 1) * payments)
  rcases length with rfl | rfl
  · have unturned : turns = 0 := by omega
    omega
  · have unturned : turns = 0 := by omega
    omega

theorem count_iff (length : cycle = 43200 ∨ cycle = 144) (started : 0 ≤ start) (some : 1 ≤ payments)
    (short : payments < cycle) (stops : stop = start - start % cycle + (cycle + 1) * payments) :
    max ((stop - cycle + 1) / cycle - max (start - 1) 0 / cycle) 0 = payments ↔
      (cycle ∣ start ∧ 0 < start → payments + 1 < cycle) ∧
        (¬ (cycle ∣ start ∧ 0 < start) → payments + 1 = cycle) := by
  rcases length with rfl | rfl
  · omega
  · omega

theorem total_short (length : cycle = 43200 ∨ cycle = 144) (some : 1 ≤ payments)
    (short : payments < cycle) (stops : stop = start - start % cycle + (cycle + 1) * payments) :
    (stop - (start - start % cycle)) / cycle = payments := by
  rcases length with rfl | rfl
  · omega
  · omega

theorem getTotalPaymentCount_floor (params : ChainParams)
    (started : 0 ≤ proposal.nBlockStart) (ordered : proposal.nBlockStart ≤ proposal.nBlockEnd) :
    proposal.getTotalPaymentCount params =
      (proposal.nBlockEnd - (proposal.nBlockStart -
        proposal.nBlockStart % getBudgetPaymentCycleBlocks params)) /
        getBudgetPaymentCycleBlocks params := by
  unfold CBudgetProposalBroadcast.getTotalPaymentCount
    CBudgetProposalBroadcast.getBlockStartCycle CBudgetProposalBroadcast.getBlockEndCycle
  rw [Int.tmod_eq_emod_of_nonneg started]
  have positive : 0 ≤ proposal.nBlockStart % getBudgetPaymentCycleBlocks params := by
    rcases cycle_cases params with cycle | cycle
    · rw [cycle]
      omega
    · rw [cycle]
      omega
  rw [Int.tdiv_eq_ediv_of_nonneg (by omega)]

theorem rightSlack_iff {params : ChainParams} {start payments : Int} :
    RightSlack params start payments ↔
      (StartsCycle params start → payments + 1 < getBudgetPaymentCycleBlocks params) ∧
        (¬ StartsCycle params start → payments + 1 = getBudgetPaymentCycleBlocks params) := by
  unfold RightSlack
  split_ifs with starts
  · simp [starts]
  · simp [starts]

end Made

theorem paid_exactly_iff (view : BudgetView)
    (proposalHash : String × String × Int × Int × Int × CScript → Uint256) (strError : String)
    (fCheckCollateral : Bool) (strProposalName strURL : String) (nPaymentCount : Int32)
    (address : CScript) (nAmount : Int) (nBlockStart : Int32) (nFeeTXHash : Uint256)
    (some : 1 ≤ nPaymentCount.toInt)
    (accepted : ((CBudgetProposalBroadcast.make view.params strProposalName strURL nPaymentCount
      address nAmount nBlockStart nFeeTXHash).isValid view proposalHash strError
        fCheckCollateral).valid = true) :
    PaidExactly view.params (.make view.params strProposalName strURL nPaymentCount address
        nAmount nBlockStart nFeeTXHash) nPaymentCount.toInt ↔
      RightSlack view.params nBlockStart.toInt nPaymentCount.toInt := by
  obtain ⟨started, ordered⟩ := isValid_blocks accepted
  have length := cycle_cases view.params
  have startInt := nBlockStart.toInt_lt
  have paymentsInt := nPaymentCount.toInt_lt
  have floor := getTotalPaymentCount_floor view.params started ordered
  generalize proposed : CBudgetProposalBroadcast.make view.params strProposalName strURL
    nPaymentCount address nAmount nBlockStart nFeeTXHash = proposal at *
  have begins : proposal.nBlockStart = nBlockStart.toInt := by
    rw [← proposed]
    rfl
  have made : proposal.nBlockEnd = asInt (nBlockStart.toInt -
      nBlockStart.toInt % getBudgetPaymentCycleBlocks view.params +
        (getBudgetPaymentCycleBlocks view.params + 1) * nPaymentCount.toInt) := by
    rw [begins] at started
    rw [← Int.tmod_eq_emod_of_nonneg started, ← proposed]
    rfl
  rw [begins] at started ordered floor
  have count : ((payableHeights view.params proposal.toCBudgetProposal).ncard : Int) = _ :=
    payableHeights_ncard proposal.toCBudgetProposal
  rw [begins] at count
  rw [rightSlack_iff]
  constructor
  · intro paid
    have told := floor.symm.trans paid.total
    obtain ⟨stops, short⟩ := end_exact length started startInt some paymentsInt made ordered
      (Or.inr told)
    exact (count_iff length started some short stops).mp (count.symm.trans paid.count)
  · intro slack
    have short : nPaymentCount.toInt < getBudgetPaymentCycleBlocks view.params := by
      by_cases starts : StartsCycle view.params nBlockStart.toInt
      · have less := slack.1 starts
        omega
      · have equal := slack.2 starts
        omega
    obtain ⟨stops, _⟩ := end_exact length started startInt some paymentsInt made ordered
      (Or.inl short)
    refine ⟨?_, ?_, ?_⟩
    · exact count.trans ((count_iff length started some short stops).mpr slack)
    · intro first start last stop height superblock after before
      exact payableHeights_consecutive _ start stop superblock after before
    · exact floor.trans (total_short length some short stops)

section Samples

def testProposal (nPaymentCount : Int32) : CBudgetProposalBroadcast :=
  .make testNetParams "test" "url" nPaymentCount payee (20 * COIN) 288 5

theorem two_payments_exact : PaidExactly testNetParams (testProposal 2) 2 :=
  (paid_exactly_iff (feeView testNetParams 99) (fun _ => 99) "" true "test" "url" 2 payee
    (20 * COIN) 288 5 (by decide) (by decide +kernel)).mpr (by decide +kernel)

theorem long_proposal_overpaid :
    ((testProposal 143).isValid (feeView testNetParams 99) (fun _ => 99) "" true).valid = true ∧
      ¬ PaidExactly testNetParams (testProposal 143) 143 := by
  refine ⟨by decide +kernel, fun paid => ?_⟩
  have count := paid.count
  rw [payableHeights_ncard] at count
  exact absurd count (by decide +kernel)

end Samples

end OxidProposalCycles
