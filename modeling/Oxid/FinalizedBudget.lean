import Oxid.BudgetCollateral
import Oxid.Library.WrappedSum

/-!
What a finalized budget may pay. Its total is kept in 64 bits, and only the total is
compared with the budget of the month.
-/
namespace OxidFinalizedBudget
open OxidPrimitives OxidChainParams OxidMapKeys OxidConnectBlock OxidBudgetVotes
open OxidBudgetThreshold OxidBudgetCollateral OrderedMaps WrappedSum

structure CTxBudgetPayment where
  nProposalHash : Uint256
  payee : CScript
  nAmount : Int64
deriving DecidableEq, Repr

structure CFinalizedBudget where
  strBudgetName : String
  nBlockStart : Int
  vecBudgetPayments : List CTxBudgetPayment
  mapVotes : OrderedMap Uint256 CFinalizedBudgetVote
  nFeeTXHash : Uint256
  nTime : Int

namespace CFinalizedBudget

def getBlockEnd (budget : CFinalizedBudget) : Int :=
  budget.nBlockStart + asInt (budget.vecBudgetPayments.length - 1)

def amounts (budget : CFinalizedBudget) : List Int64 :=
  budget.vecBudgetPayments.map CTxBudgetPayment.nAmount

def getTotalPayout (budget : CFinalizedBudget) : Int64 := wrappedSum 0 budget.amounts

def getHash (budgetHash : String × Int × List CTxBudgetPayment → Uint256)
    (budget : CFinalizedBudget) : Uint256 :=
  budgetHash (budget.strBudgetName, budget.nBlockStart, budget.vecBudgetPayments)

section Valid

variable (view : BudgetView)
  (budgetHash : String × Int × List CTxBudgetPayment → Uint256)

def isValid (strError : String) (fCheckCollateral : Bool) (budget : CFinalizedBudget) :
    Verdict :=
  let refuse (strError : String) : Verdict := ⟨false, strError, budget.nTime, 0⟩
  if budget.nBlockStart.tmod (getBudgetPaymentCycleBlocks view.params) ≠ 0 then
    refuse "Invalid BlockStart"
  else if budget.getBlockEnd - budget.nBlockStart > 100 then refuse "Invalid BlockEnd"
  else if asInt budget.vecBudgetPayments.length > 100 then
    refuse "Invalid budget payments count (too many)"
  else if budget.strBudgetName = "" then refuse "Invalid Budget Name"
  else if budget.nBlockStart = 0 then
    refuse ("Budget " ++ budget.strBudgetName ++ " Invalid BlockStart == 0")
  else if budget.nFeeTXHash = 0 then
    refuse ("Budget " ++ budget.strBudgetName ++ " Invalid FeeTx == 0")
  else if budget.getTotalPayout.toInt > getTotalBudget view.params budget.nBlockStart then
    refuse ("Budget " ++ budget.strBudgetName ++ " Invalid Payout (more than max)")
  else if fCheckCollateral then
    let collateral := isBudgetCollateralValid view budget.nFeeTXHash
      (budget.getHash budgetHash) "" budget.nTime
    if collateral.valid then ⟨true, strError, collateral.nTime, 0⟩
    else ⟨false, "Budget " ++ budget.strBudgetName ++ " Invalid Collateral : " ++
      collateral.strError, collateral.nTime, 0⟩
  else ⟨true, strError, budget.nTime, 0⟩

structure Formed (fCheckCollateral : Bool) (budget : CFinalizedBudget) : Prop where
  starts : budget.nBlockStart.tmod (getBudgetPaymentCycleBlocks view.params) = 0
  ends : budget.getBlockEnd - budget.nBlockStart ≤ 100
  few : asInt budget.vecBudgetPayments.length ≤ 100
  named : budget.strBudgetName ≠ ""
  started : budget.nBlockStart ≠ 0
  paid : budget.nFeeTXHash ≠ 0
  backed : fCheckCollateral = true → (isBudgetCollateralValid view budget.nFeeTXHash
    (budget.getHash budgetHash) "" budget.nTime).valid = true

end Valid

end CFinalizedBudget

section Payout

variable {view : BudgetView}
  {budgetHash : String × Int × List CTxBudgetPayment → Uint256}
  {strError : String} {fCheckCollateral : Bool} {budget : CFinalizedBudget}

theorem refused_unless {refused : Prop} [Decidable refused] {refusal next : Verdict}
    (refuses : refusal.valid = false) :
    (if refused then refusal else next).valid = true ↔ ¬ refused ∧ next.valid = true := by
  by_cases hit : refused
  · rw [if_pos hit, refuses]
    exact iff_of_false Bool.false_ne_true fun both => both.1 hit
  · rw [if_neg hit]
    exact (and_iff_right hit).symm

theorem isValid_iff :
    (budget.isValid view budgetHash strError fCheckCollateral).valid = true ↔
      budget.Formed view budgetHash fCheckCollateral ∧
        budget.getTotalPayout.toInt ≤ getTotalBudget view.params budget.nBlockStart := by
  unfold CFinalizedBudget.isValid
  dsimp only
  rw [refused_unless rfl, refused_unless rfl, refused_unless rfl, refused_unless rfl,
    refused_unless rfl, refused_unless rfl, refused_unless rfl]
  constructor
  · intro passed
    obtain ⟨starts, ends, few, named, started, paid, payout, backed⟩ := passed
    refine ⟨⟨not_not.mp starts, not_lt.mp ends, not_lt.mp few, named, started, paid, ?_⟩,
      not_lt.mp payout⟩
    intro checked
    rw [if_pos checked] at backed
    split at backed
    · assumption
    · cases backed
  · intro both
    obtain ⟨formed, payout⟩ := both
    refine ⟨not_not.mpr formed.starts, not_lt.mpr formed.ends, not_lt.mpr formed.few,
      formed.named, formed.started, formed.paid, not_lt.mpr payout, ?_⟩
    split
    · rename_i checked
      rw [if_pos (formed.backed checked)]
    · rfl

/-- The amounts read one by one: none below zero, and together within the month's budget,
    with a register that is exact throughout. -/
structure PaysWithin (params : ChainParams) (budget : CFinalizedBudget) : Prop where
  nonnegative : ∀ payment ∈ budget.vecBudgetPayments, 0 ≤ payment.nAmount.toInt
  within : exactSum budget.amounts ≤ getTotalBudget params budget.nBlockStart
  exact : NeverWraps budget.amounts

/-- Some other check refuses the budget, or the total does as the register has it, or the
    register has the truth: no amount is negative, and together they fit. -/
def SafePayout (view : BudgetView)
    (budgetHash : String × Int × List CTxBudgetPayment → Uint256) (fCheckCollateral : Bool)
    (budget : CFinalizedBudget) : Prop :=
  ¬ budget.Formed view budgetHash fCheckCollateral ∨
    getTotalBudget view.params budget.nBlockStart < (exactSum budget.amounts).bmod (2 ^ 64) ∨
    (∀ payment ∈ budget.vecBudgetPayments, 0 ≤ payment.nAmount.toInt) ∧
      exactSum budget.amounts < 2 ^ 63

theorem amounts_nonneg
    (nonnegative : ∀ payment ∈ budget.vecBudgetPayments, 0 ≤ payment.nAmount.toInt) :
    ∀ amount ∈ budget.amounts, 0 ≤ amount.toInt := by
  intro amount member
  obtain ⟨payment, listed, rfl⟩ := List.mem_map.mp member
  exact nonnegative payment listed

end Payout

section Overflowing

def overflowing : CFinalizedBudget where
  strBudgetName := "main"
  nBlockStart := 86400
  vecBudgetPayments := [⟨1, payee, 9223372036854775807⟩, ⟨2, payee, 9223372036854775807⟩,
    ⟨3, payee, 2⟩]
  mapVotes := ∅
  nFeeTXHash := 5
  nTime := 0

end Overflowing

end OxidFinalizedBudget
