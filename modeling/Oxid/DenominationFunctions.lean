import Mathlib.Data.List.Perm.Subperm
import Mathlib.Order.Bounds.Defs
import Oxid.Library.Greedy
import Oxid.Zerocoin

/-!
How a wallet selects the mints of a zerocoin spend. A map from denominations to counts is a
function, amounts are unbounded, and a loop over one denomination takes coins of it while
its test says so.
-/
namespace OxidDenominationFunctions
open OxidPrimitives OxidZerocoin GreedyCoins

structure CZerocoinMint where
  denomination : CoinDenomination
  value : Int
  serialNumber : Int
  isUsed : Bool
deriving DecidableEq, Repr

namespace CZerocoinMint

def getDenominationAsAmount (mint : CZerocoinMint) : Int :=
  zerocoinDenominationToAmount mint.denomination

end CZerocoinMint

abbrev DenomMap := CoinDenomination → Nat

def getNumberOfCoinsUsed (mapChange : DenomMap) : Nat := coins zerocoinDenomList mapChange

def getMaxDenomHeld (mapCoinsHeld : DenomMap) : CoinDenomination :=
  (zerocoinDenomList.reverse.find? fun coin => mapCoinsHeld coin != 0).getD .ZQ_ERROR

def getSpendCoins (nValueTarget : Int) (mapOfDenomsHeld : DenomMap) : DenomMap :=
  (sweep zerocoinDenominationToAmount
    (fun coin nRemainingValue => decide (zerocoinDenominationToAmount coin ≤ nRemainingValue))
    mapOfDenomsHeld zerocoinDenomList.reverse nValueTarget).1

/-- No limit: an amount is never made of more coins than it has units. -/
def getChange (nValueTarget : Int) : DenomMap :=
  getSpendCoins nValueTarget fun _ => nValueTarget.toNat

def idealSpendsOf (coin : CoinDenomination) : List CZerocoinMint → Int → Nat × Int
  | [], nRemainingValue => (0, nRemainingValue)
  | mint :: later, nRemainingValue =>
    if mint.isUsed then idealSpendsOf coin later nRemainingValue
    else if zerocoinDenominationToAmount coin ≤ nRemainingValue ∧ coin = mint.denomination then
      let nRemainingValue := nRemainingValue - mint.getDenominationAsAmount
      if nRemainingValue < zerocoinDenominationToAmount coin then (1, nRemainingValue)
      else
        let rest := idealSpendsOf coin later nRemainingValue
        (rest.1 + 1, rest.2)
    else if nRemainingValue < zerocoinDenominationToAmount coin then (0, nRemainingValue)
    else idealSpendsOf coin later nRemainingValue

def idealSpends (listMints : List CZerocoinMint) : List CoinDenomination → Int → DenomMap × Int
  | [], nRemainingValue => (fun _ => 0, nRemainingValue)
  | coin :: later, nRemainingValue =>
    let here := idealSpendsOf coin listMints nRemainingValue
    let rest := idealSpends listMints later here.2
    (Function.update rest.1 coin here.1, rest.2)

def getIdealSpends (nValueTarget : Int) (listMints : List CZerocoinMint) : DenomMap × Bool :=
  let ideal := idealSpends listMints zerocoinDenomList.reverse nValueTarget
  (ideal.1, decide (ideal.2 = 0))

def spendPass (coin : CoinDenomination) : List CZerocoinMint → Nat → List CZerocoinMint × Nat
  | [], wanted => ([], wanted)
  | mint :: later, wanted =>
    if mint.isUsed then spendPass coin later wanted
    else if coin = mint.denomination ∧ wanted ≠ 0 then
      let rest := spendPass coin later (wanted - 1)
      (mint :: rest.1, rest.2)
    else spendPass coin later wanted

/-- The list is gone through again while mints are wanted: forever where it has none, which is the
    answer `none`. -/
def spendPasses (coin : CoinDenomination) (listMints : List CZerocoinMint) :
    Nat → Nat → Option (List CZerocoinMint)
  | 0, _ => none
  | passes + 1, wanted =>
    let pass := spendPass coin listMints wanted
    if pass.2 = 0 then some pass.1
    else (spendPasses coin listMints passes pass.2).map (pass.1 ++ ·)

def spendDenoms (listMints : List CZerocoinMint) (mapOfDenomsUsed : DenomMap) :
    List CoinDenomination → Option (List CZerocoinMint × Int)
  | [] => some ([], 0)
  | coin :: later => do
    let here ← spendPasses coin listMints (mapOfDenomsUsed coin + 1) (mapOfDenomsUsed coin)
    let rest ← spendDenoms listMints mapOfDenomsUsed later
    some (here ++ rest.1, here.length * zerocoinDenominationToAmount coin + rest.2)

def getSpends (listMints : List CZerocoinMint) (mapOfDenomsUsed : DenomMap) :
    Option (List CZerocoinMint × Int) :=
  spendDenoms listMints mapOfDenomsUsed zerocoinDenomList.reverse

def getNextLowerDenomHeld (this_denom : CoinDenomination) (mapCoinsHeld : DenomMap) :
    CoinDenomination :=
  (zerocoinDenomList.reverse.find? fun denom =>
    decide (zerocoinDenominationToInt denom < zerocoinDenominationToInt this_denom) &&
      mapCoinsHeld denom != 0).getD .ZQ_ERROR

def closeBelow (nextToMaxDenom : CoinDenomination) (nValueTarget : Int)
    (mapOfDenomsHeld : DenomMap) : DenomMap × Int :=
  sweep zerocoinDenominationToAmount
    (fun denom nRemainingValue =>
      decide (zerocoinDenominationToInt denom ≤ zerocoinDenominationToInt nextToMaxDenom) &&
        decide (zerocoinDenominationToAmount denom < nRemainingValue))
    mapOfDenomsHeld zerocoinDenomList.reverse nValueTarget

def fillIn (mapOfDenomsHeld : DenomMap) :
    List CoinDenomination → DenomMap → Int → DenomMap × Int
  | [], mapOfDenomsUsed, nRemainingValue => (mapOfDenomsUsed, nRemainingValue)
  | denom :: later, mapOfDenomsUsed, nRemainingValue =>
    let nValue := zerocoinDenominationToAmount denom
    let taken := nRemainingValue < nValue ∧ mapOfDenomsUsed denom < mapOfDenomsHeld denom
    let mapOfDenomsUsed := if taken then
      Function.update mapOfDenomsUsed denom (mapOfDenomsUsed denom + 1) else mapOfDenomsUsed
    let nRemainingValue := if taken then nRemainingValue - nValue else nRemainingValue
    if nRemainingValue < 0 then (mapOfDenomsUsed, nRemainingValue)
    else fillIn mapOfDenomsHeld later mapOfDenomsUsed nRemainingValue

def altAmountUsed (nextToMaxDenom : CoinDenomination) (nValueTarget : Int)
    (mapOfDenomsHeld : DenomMap) : Int :=
  let below := closeBelow nextToMaxDenom nValueTarget mapOfDenomsHeld
  let filled := fillIn mapOfDenomsHeld zerocoinDenomList below.1 below.2
  let mapOfDenomsUsed := filled.1
  -- whatever lowers the remaining value raises the amount used
  let AmountUsed := nValueTarget - filled.2
  let mapAltChange := getChange (AmountUsed - nValueTarget)
  -- one coin of each goes while there is one on both sides
  AmountUsed - total zerocoinDenominationToAmount zerocoinDenomList
    fun denom => min (mapAltChange denom) (mapOfDenomsUsed denom)

def minimizeChange (nMaxNumberOfSpends nChangeCount : Nat) (nextToMaxDenom : CoinDenomination)
    (nValueTarget : Int) (mapOfDenomsHeld savedMapOfDenomsUsed : DenomMap) : Nat × DenomMap :=
  let AmountUsed := altAmountUsed nextToMaxDenom nValueTarget mapOfDenomsHeld
  let mapOfDenomsUsed := getSpendCoins AmountUsed mapOfDenomsHeld
  let nCoinCount := getNumberOfCoinsUsed mapOfDenomsUsed
  let AltChangeCount := getNumberOfCoinsUsed (getChange (AmountUsed - nValueTarget))
  if AltChangeCount < nChangeCount ∧ nCoinCount ≤ nMaxNumberOfSpends then
    (AltChangeCount, mapOfDenomsUsed)
  else (nChangeCount, savedMapOfDenomsUsed)

def differentWay (nValueTarget : Int) (mapOfDenomsHeld : DenomMap) : DenomMap × Int :=
  sweep zerocoinDenominationToAmount (fun _ nRemainingValue => decide (0 < nRemainingValue))
    mapOfDenomsHeld zerocoinDenomList.reverse nValueTarget

def oneCoin (denom : CoinDenomination) : DenomMap := Function.update (fun _ => 0) denom 1

def calculateChange (nMaxNumberOfSpends : Nat) (fMinimizeChange : Bool) (nValueTarget : Int)
    (mapOfDenomsHeld : DenomMap) : Nat × DenomMap :=
  match zerocoinDenomList.find? fun denom =>
      decide (nValueTarget < zerocoinDenominationToAmount denom) && mapOfDenomsHeld denom != 0 with
  | some minDenomOverTarget =>
    let mapOfDenomsUsed := oneCoin minDenomOverTarget
    let nChangeAmount := zerocoinDenominationToAmount minDenomOverTarget - nValueTarget
    let nChangeCount := getNumberOfCoinsUsed (getChange nChangeAmount)
    if fMinimizeChange then
      let newChange := minimizeChange nMaxNumberOfSpends nChangeCount
        (getNextLowerDenomHeld minDenomOverTarget mapOfDenomsHeld) nValueTarget mapOfDenomsHeld
        mapOfDenomsUsed
      if newChange.1 < nChangeCount then newChange else (nChangeCount, mapOfDenomsUsed)
    else (nChangeCount, mapOfDenomsUsed)
  | none =>
    let way := differentWay nValueTarget mapOfDenomsHeld
    let mapOfDenomsUsed := way.1
    let nCoinCount := getNumberOfCoinsUsed mapOfDenomsUsed
    let AmountUsed := nValueTarget - way.2
    let nMaxChangeCount := getNumberOfCoinsUsed (getChange (AmountUsed - nValueTarget))
    let newChange := minimizeChange nMaxNumberOfSpends nMaxChangeCount
      (getMaxDenomHeld mapOfDenomsHeld) nValueTarget mapOfDenomsHeld mapOfDenomsUsed
    let nNumSpends := getNumberOfCoinsUsed newChange.2
    if !fMinimizeChange && decide (nCoinCount < nNumSpends) then (nMaxChangeCount, mapOfDenomsUsed)
    else newChange

structure MintSelection where
  vSelectedMints : List CZerocoinMint
  nSelectedValue : Int
  nCoinsReturned : Nat
  nNeededSpends : Nat
deriving DecidableEq, Repr

/-- `nSelectedValue` is the caller's, and stays where nothing is selected. -/
def selectMintsFromList (nValueTarget nSelectedValue : Int) (nMaxNumberOfSpends : Nat)
    (fMinimizeChange : Bool) (listMints : List CZerocoinMint) (mapOfDenomsHeld : DenomMap) :
    Option MintSelection := do
  let ideal := getIdealSpends nValueTarget listMints
  let exactly ← if ideal.2 then (getSpends listMints ideal.1).map some else some none
  match exactly with
  | some (vSelectedMints, nSelectedValue) =>
    if vSelectedMints.length ≤ nMaxNumberOfSpends then
      some ⟨vSelectedMints, nSelectedValue, 0, 0⟩
    else withChange nSelectedValue vSelectedMints.length
  | none => withChange nSelectedValue 0
where
  withChange (nSelectedValue : Int) (nNeededSpends : Nat) : Option MintSelection :=
    let change := calculateChange nMaxNumberOfSpends fMinimizeChange nValueTarget mapOfDenomsHeld
    if change.1 = 0 then some ⟨[], nSelectedValue, 0, nNeededSpends⟩
    else (getSpends listMints change.2).map fun spends =>
      ⟨spends.1, spends.2, change.1, nNeededSpends⟩

/-- What the wallet passes as held: the mints of each denomination that are not used. -/
def getMyZerocoinDistribution (listMints : List CZerocoinMint) : DenomMap := fun denom =>
  listMints.countP fun mint => !mint.isUsed && decide (denom = mint.denomination)

theorem denominations_chain : Chain zerocoinDenominationToAmount zerocoinDenomList.reverse where
  positive := by decide
  divides := by decide
  distinct := by decide

theorem denominations_positive :
    ∀ denom ∈ zerocoinDenomList, 0 < zerocoinDenominationToAmount denom := by
  decide

section Counts
variable {listMints : List CZerocoinMint} {coin : CoinDenomination}

theorem idealSpendsOf_grab (coin : CoinDenomination) (listMints : List CZerocoinMint)
    (nRemainingValue : Int) :
    idealSpendsOf coin listMints nRemainingValue =
      grab (fun left => decide (zerocoinDenominationToAmount coin ≤ left))
        (zerocoinDenominationToAmount coin) (getMyZerocoinDistribution listMints coin)
        nRemainingValue := by
  induction listMints generalizing nRemainingValue with
  | nil => rfl
  | cons mint later ih =>
    unfold idealSpendsOf
    unfold getMyZerocoinDistribution at ih ⊢
    rw [List.countP_cons]
    cases used : mint.isUsed with
    | true => simpa using ih nRemainingValue
    | false =>
      by_cases fits : zerocoinDenominationToAmount coin ≤ nRemainingValue
      · by_cases same : coin = mint.denomination
        · have worth : mint.getDenominationAsAmount = zerocoinDenominationToAmount coin :=
            congrArg zerocoinDenominationToAmount same.symm
          rw [if_neg Bool.false_ne_true, if_pos ⟨fits, same⟩, worth, decide_eq_true same]
          dsimp only
          rw [Bool.not_false, Bool.true_and, if_pos rfl, grab, if_pos (decide_eq_true fits)]
          split
          · rename_i small
            rw [@grab_idle (fun left => decide (zerocoinDenominationToAmount coin ≤ left)) _
              (by simpa using small)]
          · rw [ih]
        · rw [if_neg Bool.false_ne_true, if_neg fun both => same both.2, if_neg (not_lt.mpr fits),
            decide_eq_false same]
          exact ih nRemainingValue
      · rw [if_neg Bool.false_ne_true, if_neg fun both => fits both.1, if_pos (not_le.mp fits),
          @grab_idle (fun left => decide (zerocoinDenominationToAmount coin ≤ left)) _
            (by simpa using fits)]

theorem idealSpends_sweep (listMints : List CZerocoinMint) (denoms : List CoinDenomination)
    (nRemainingValue : Int) :
    idealSpends listMints denoms nRemainingValue =
      sweep zerocoinDenominationToAmount
        (fun coin left => decide (zerocoinDenominationToAmount coin ≤ left))
        (getMyZerocoinDistribution listMints) denoms nRemainingValue := by
  induction denoms generalizing nRemainingValue with
  | nil => rfl
  | cons coin later ih =>
    unfold idealSpends
    rw [sweep_cons, idealSpendsOf_grab]
    dsimp only
    rw [ih]

def unusedOf (coin : CoinDenomination) (listMints : List CZerocoinMint) : List CZerocoinMint :=
  listMints.filter fun mint => !mint.isUsed && decide (coin = mint.denomination)

theorem unusedOf_length (coin : CoinDenomination) (listMints : List CZerocoinMint) :
    (unusedOf coin listMints).length = getMyZerocoinDistribution listMints coin :=
  List.countP_eq_length_filter.symm

theorem spendPass_take (coin : CoinDenomination) (listMints : List CZerocoinMint) (wanted : Nat) :
    spendPass coin listMints wanted =
      ((unusedOf coin listMints).take wanted, wanted - (unusedOf coin listMints).length) := by
  induction listMints generalizing wanted with
  | nil => simp [spendPass, unusedOf]
  | cons mint later ih =>
    unfold spendPass
    unfold unusedOf at ih ⊢
    rw [List.filter_cons]
    cases used : mint.isUsed with
    | true => simpa using ih wanted
    | false =>
      by_cases same : coin = mint.denomination
      · rw [if_neg Bool.false_ne_true, decide_eq_true same]
        cases wanted with
        | zero => simpa using ih 0
        | succ wanted =>
          rw [if_pos ⟨same, Nat.succ_ne_zero wanted⟩, Nat.add_sub_cancel, ih wanted]
          simp
      · rw [if_neg Bool.false_ne_true, if_neg fun both => same both.1, decide_eq_false same]
        exact ih wanted

theorem spendPasses_take {passes wanted : Nat}
    (held : wanted ≤ getMyZerocoinDistribution listMints coin) :
    spendPasses coin listMints (passes + 1) wanted =
      some ((unusedOf coin listMints).take wanted) := by
  unfold spendPasses
  rw [spendPass_take, unusedOf_length, Nat.sub_eq_zero_of_le held]
  rfl

theorem taken_subperm (mapOfDenomsUsed : DenomMap) {denoms : List CoinDenomination}
    (distinct : denoms.Nodup) (listMints : List CZerocoinMint) :
    (denoms.flatMap fun coin => (unusedOf coin listMints).take (mapOfDenomsUsed coin)).Subperm
      listMints := by
  induction denoms generalizing listMints with
  | nil => exact List.nil_subperm
  | cons coin later ih =>
    obtain ⟨apart, distinct⟩ := List.nodup_cons.mp distinct
    have rest : (later.flatMap fun other => (unusedOf other listMints).take
        (mapOfDenomsUsed other)) = later.flatMap fun other =>
          (unusedOf other (listMints.filter fun mint => !decide (mint.denomination = coin))).take
            (mapOfDenomsUsed other) := by
      refine List.flatMap_congr fun other member => ?_
      unfold unusedOf
      rw [List.filter_filter]
      congr 1
      refine List.filter_congr fun mint _ => ?_
      by_cases same : other = mint.denomination
      · have differ : mint.denomination ≠ coin := fun equal => apart (equal ▸ same ▸ member)
        rw [decide_eq_false differ, Bool.not_false, Bool.and_true]
      · rw [decide_eq_false same, Bool.and_false, Bool.false_and]
    rw [List.flatMap_cons, rest]
    have here : (unusedOf coin listMints).Sublist
        (listMints.filter fun mint => decide (mint.denomination = coin)) :=
      List.monotone_filter_right _ fun mint unused =>
        decide_eq_true (of_decide_eq_true (Bool.and_eq_true_iff.mp unused).2).symm
    exact (((List.take_sublist _ _).trans here).subperm.append (ih distinct _)).trans
      (List.filter_append_perm _ listMints).subperm

structure Spends (listMints : List CZerocoinMint) (mapOfDenomsUsed : DenomMap)
    (vSelectedMints : List CZerocoinMint) : Prop where
  distinct : vSelectedMints.Subperm listMints
  unused : ∀ mint ∈ vSelectedMints, mint.isUsed = false
  worth : (vSelectedMints.map CZerocoinMint.getDenominationAsAmount).sum =
    total zerocoinDenominationToAmount zerocoinDenomList mapOfDenomsUsed
  counted : vSelectedMints.length = getNumberOfCoinsUsed mapOfDenomsUsed

theorem unusedOf_worth {mint : CZerocoinMint} (member : mint ∈ unusedOf coin listMints) :
    mint.getDenominationAsAmount = zerocoinDenominationToAmount coin :=
  congrArg zerocoinDenominationToAmount
    (of_decide_eq_true (Bool.and_eq_true_iff.mp (List.mem_filter.mp member).2).2).symm

section Held
variable {mapOfDenomsUsed : DenomMap}
  (held : ∀ coin ∈ zerocoinDenomList,
    mapOfDenomsUsed coin ≤ getMyZerocoinDistribution listMints coin)
  {denoms : List CoinDenomination} (listed : ∀ coin ∈ denoms, coin ∈ zerocoinDenomList)
include held listed

theorem taken_counted :
    (denoms.flatMap fun coin => (unusedOf coin listMints).take (mapOfDenomsUsed coin)).length =
      coins denoms mapOfDenomsUsed := by
  induction denoms with
  | nil => rfl
  | cons coin later ih =>
    rw [List.flatMap_cons, List.length_append, coins_cons, List.length_take, unusedOf_length,
      Nat.min_eq_left (held coin (listed coin List.mem_cons_self)),
      ih fun other member => listed other (List.mem_cons_of_mem _ member)]

theorem taken_worth :
    ((denoms.flatMap fun coin => (unusedOf coin listMints).take (mapOfDenomsUsed coin)).map
      CZerocoinMint.getDenominationAsAmount).sum =
      total zerocoinDenominationToAmount denoms mapOfDenomsUsed := by
  induction denoms with
  | nil => rfl
  | cons coin later ih =>
    have here : ((unusedOf coin listMints).take (mapOfDenomsUsed coin)).map
        CZerocoinMint.getDenominationAsAmount =
          List.replicate (mapOfDenomsUsed coin) (zerocoinDenominationToAmount coin) := by
      refine List.eq_replicate_iff.mpr ⟨?_, ?_⟩
      · rw [List.length_map, List.length_take, unusedOf_length,
          Nat.min_eq_left (held coin (listed coin List.mem_cons_self))]
      · intro amount member
        obtain ⟨mint, taken, rfl⟩ := List.mem_map.mp member
        exact unusedOf_worth (List.mem_of_mem_take taken)
    rw [List.flatMap_cons, List.map_append, List.sum_append, here, List.sum_replicate,
      nsmul_eq_mul, total_cons, ih fun other member => listed other (List.mem_cons_of_mem _ member)]

theorem spendDenoms_held :
    spendDenoms listMints mapOfDenomsUsed denoms =
      some (denoms.flatMap fun coin => (unusedOf coin listMints).take (mapOfDenomsUsed coin),
        total zerocoinDenominationToAmount denoms mapOfDenomsUsed) := by
  induction denoms with
  | nil => rfl
  | cons coin later ih =>
    have here := held coin (listed coin List.mem_cons_self)
    unfold spendDenoms
    rw [spendPasses_take here, ih fun other member => listed other (List.mem_cons_of_mem _ member),
      total_cons]
    simp only [Option.bind_eq_bind, Option.bind_some, List.length_take, unusedOf_length,
      Nat.min_eq_left here, List.flatMap_cons]

end Held

theorem getSpends_held {mapOfDenomsUsed : DenomMap} (held : ∀ coin ∈ zerocoinDenomList,
      mapOfDenomsUsed coin ≤ getMyZerocoinDistribution listMints coin) :
    ∃ vSelectedMints, getSpends listMints mapOfDenomsUsed = some (vSelectedMints,
        total zerocoinDenominationToAmount zerocoinDenomList mapOfDenomsUsed) ∧
      Spends listMints mapOfDenomsUsed vSelectedMints := by
  have listed : ∀ coin ∈ zerocoinDenomList.reverse, coin ∈ zerocoinDenomList :=
    fun coin member => List.mem_reverse.mp member
  refine ⟨_, (spendDenoms_held held listed).trans (by rw [total_reverse]), ?_, ?_, ?_, ?_⟩
  · exact taken_subperm mapOfDenomsUsed denominations_chain.distinct listMints
  · intro mint member
    obtain ⟨coin, -, member⟩ := List.mem_flatMap.mp member
    have unused := (List.mem_filter.mp (List.mem_of_mem_take member)).2
    simpa using (Bool.and_eq_true_iff.mp unused).1
  · rw [taken_worth held listed, total_reverse]
  · rw [taken_counted held listed, coins_reverse]
    rfl

end Counts

theorem whole_total (used : DenomMap) :
    COIN ∣ total zerocoinDenominationToAmount zerocoinDenomList used :=
  dvd_total (fun denom _ => Dvd.intro (zerocoinDenominationToInt denom) rfl) used

def changeCounts (nChangeAmount : Int) : Set Nat :=
  { n | ∃ mapChange, total zerocoinDenominationToAmount zerocoinDenomList mapChange =
    nChangeAmount ∧ coins zerocoinDenomList mapChange = n }

variable {nValueTarget : Int} {mapOfDenomsHeld used : DenomMap} {nChangeAmount : Int}
variable {denom : CoinDenomination}

theorem getSpendCoins_meets (held : ∀ denom ∈ zerocoinDenomList, used denom ≤ mapOfDenomsHeld denom)
    (met : total zerocoinDenominationToAmount zerocoinDenomList used = nValueTarget) :
    (∀ denom ∈ zerocoinDenomList,
      getSpendCoins nValueTarget mapOfDenomsHeld denom ≤ mapOfDenomsHeld denom) ∧
    total zerocoinDenominationToAmount zerocoinDenomList
      (getSpendCoins nValueTarget mapOfDenomsHeld) = nValueTarget ∧
    getNumberOfCoinsUsed (getSpendCoins nValueTarget mapOfDenomsHeld) ≤
      getNumberOfCoinsUsed used := by
  have least := @sweep_least _ _ _ mapOfDenomsHeld _ denominations_chain used nValueTarget
    (fun denom member => held denom (List.mem_reverse.mp member)) (by rw [total_reverse, met])
  have spent := @sweep_spent _ zerocoinDenominationToAmount _
    (fun coin left => decide (zerocoinDenominationToAmount coin ≤ left)) mapOfDenomsHeld _
    denominations_chain.distinct nValueTarget
  rw [least.1, total_reverse] at spent
  have fewer := least.2
  rw [coins_reverse, coins_reverse] at fewer
  exact ⟨fun denom member => sweep_room nValueTarget denom (List.mem_reverse.mpr member),
    by unfold getSpendCoins; omega, fewer⟩

theorem getChange_least (nonneg : 0 ≤ nChangeAmount) (whole : COIN ∣ nChangeAmount) :
    total zerocoinDenominationToAmount zerocoinDenomList (getChange nChangeAmount) =
      nChangeAmount ∧
    IsLeast (changeCounts nChangeAmount) (getNumberOfCoinsUsed (getChange nChangeAmount)) := by
  have bounded : ∀ used, total zerocoinDenominationToAmount zerocoinDenomList used =
      nChangeAmount → ∀ denom ∈ zerocoinDenomList, used denom ≤ nChangeAmount.toNat := by
    intro used met denom member
    have small := le_total denominations_positive used denom member
    omega
  have single : total zerocoinDenominationToAmount zerocoinDenomList
      (Function.update (fun _ => 0) .ZQ_ONE (nChangeAmount / COIN).toNat) = nChangeAmount := by
    obtain ⟨ones, rfl⟩ := whole
    have ones_nonneg : 0 ≤ ones := nonneg_of_mul_nonneg_right nonneg (by decide)
    rw [Int.mul_ediv_cancel_left ones (by decide)]
    simp [total, zerocoinDenomList, zerocoinDenominationToAmount, zerocoinDenominationToInt,
      ones_nonneg, mul_comm]
  obtain ⟨-, met, -⟩ := getSpendCoins_meets (bounded _ single) single
  refine ⟨met, ⟨_, met, rfl⟩, ?_⟩
  rintro n ⟨used, exactly', rfl⟩
  exact (getSpendCoins_meets (bounded used exactly') exactly').2.2

theorem getChange_nothing (nothing : nChangeAmount ≤ 0) :
    getNumberOfCoinsUsed (getChange nChangeAmount) = 0 := by
  unfold getNumberOfCoinsUsed getChange getSpendCoins
  rw [sweep_idle fun denom member => decide_eq_false (not_le.mpr
    (nothing.trans_lt (denominations_chain.positive denom member)))]
  exact coins_zero _

theorem getChange_something (some' : 0 < nChangeAmount) (whole : COIN ∣ nChangeAmount) :
    getNumberOfCoinsUsed (getChange nChangeAmount) ≠ 0 :=
  Nat.ne_of_gt (@coins_pos _ zerocoinDenominationToAmount _ _ (by
    rw [(getChange_least (le_of_lt some') whole).1]
    exact some'))

theorem fillIn_one {mapOfDenomsHeld mapOfDenomsUsed : DenomMap} {denoms : List CoinDenomination}
    {nRemainingValue : Int} (open' : 0 ≤ nRemainingValue)
    (spare : ∃ denom ∈ denoms, nRemainingValue < zerocoinDenominationToAmount denom ∧
      mapOfDenomsUsed denom < mapOfDenomsHeld denom) :
    ∃ denom ∈ denoms, mapOfDenomsUsed denom < mapOfDenomsHeld denom ∧
      nRemainingValue < zerocoinDenominationToAmount denom ∧
      fillIn mapOfDenomsHeld denoms mapOfDenomsUsed nRemainingValue =
        (Function.update mapOfDenomsUsed denom (mapOfDenomsUsed denom + 1),
          nRemainingValue - zerocoinDenominationToAmount denom) := by
  induction denoms with
  | nil => simp at spare
  | cons first later ih =>
    by_cases taken : nRemainingValue < zerocoinDenominationToAmount first ∧
        mapOfDenomsUsed first < mapOfDenomsHeld first
    · refine ⟨first, List.mem_cons_self, taken.2, taken.1, ?_⟩
      unfold fillIn
      dsimp only
      rw [if_pos taken, if_pos taken, if_pos (by omega)]
    · obtain ⟨denom, member, more, short⟩ := spare
      have later' : denom ∈ later := (List.mem_cons.mp member).resolve_left fun same =>
        taken (same ▸ ⟨more, short⟩)
      obtain ⟨found, listed, fits⟩ := ih ⟨denom, later', more, short⟩
      refine ⟨found, List.mem_cons_of_mem _ listed, ?_⟩
      unfold fillIn
      dsimp only
      rw [if_neg taken, if_neg taken, if_neg (not_lt.mpr open')]
      exact fits

theorem altAmountUsed_covers {nextToMaxDenom : CoinDenomination} {mapOfDenomsHeld : DenomMap}
    (positive : 0 < nValueTarget) (whole : COIN ∣ nValueTarget)
    (spare : ∃ denom ∈ zerocoinDenomList,
      (closeBelow nextToMaxDenom nValueTarget mapOfDenomsHeld).2 <
        zerocoinDenominationToAmount denom ∧
      (closeBelow nextToMaxDenom nValueTarget mapOfDenomsHeld).1 denom < mapOfDenomsHeld denom) :
    nValueTarget ≤ altAmountUsed nextToMaxDenom nValueTarget mapOfDenomsHeld ∧
    ∃ used, (∀ denom ∈ zerocoinDenomList, used denom ≤ mapOfDenomsHeld denom) ∧
      total zerocoinDenominationToAmount zerocoinDenomList used =
        altAmountUsed nextToMaxDenom nValueTarget mapOfDenomsHeld := by
  have left : 0 < (closeBelow nextToMaxDenom nValueTarget mapOfDenomsHeld).2 :=
    sweep_leaves (fun _ _ _ went => of_decide_eq_true (Bool.and_eq_true_iff.mp went).2) positive
  have spent : (closeBelow nextToMaxDenom nValueTarget mapOfDenomsHeld).2 = nValueTarget -
      total zerocoinDenominationToAmount zerocoinDenomList
        (closeBelow nextToMaxDenom nValueTarget mapOfDenomsHeld).1 :=
    (sweep_spent denominations_chain.distinct _).trans (by rw [total_reverse]; rfl)
  have held : ∀ denom ∈ zerocoinDenomList,
      (closeBelow nextToMaxDenom nValueTarget mapOfDenomsHeld).1 denom ≤ mapOfDenomsHeld denom :=
    fun denom member => sweep_room _ denom (List.mem_reverse.mpr member)
  unfold altAmountUsed
  generalize closeBelow nextToMaxDenom nValueTarget mapOfDenomsHeld = below
    at left spent held spare ⊢
  obtain ⟨denom, listed, short, more, filled⟩ := fillIn_one (le_of_lt left) spare
  dsimp only
  rw [filled]
  dsimp only
  have amount := total_more zerocoinDenominationToAmount (by decide) below.1 listed
  have fits : ∀ other ∈ zerocoinDenomList,
      Function.update below.1 denom (below.1 denom + 1) other ≤ mapOfDenomsHeld other := by
    intro other member
    by_cases same : other = denom
    · rw [same, Function.update_self]
      exact short
    · rw [Function.update_of_ne same]
      exact held other member
  have AmountUsed : nValueTarget - (below.2 - zerocoinDenominationToAmount denom) =
      total zerocoinDenominationToAmount zerocoinDenomList
        (Function.update below.1 denom (below.1 denom + 1)) := by
    omega
  rw [AmountUsed]
  generalize Function.update below.1 denom (below.1 denom + 1) = used at amount fits AmountUsed ⊢
  have change : COIN ∣ total zerocoinDenominationToAmount zerocoinDenomList used - nValueTarget :=
    Int.dvd_sub (whole_total used) whole
  obtain ⟨exactly', -⟩ := getChange_least (by omega) change
  generalize getChange (total zerocoinDenominationToAmount zerocoinDenomList used - nValueTarget)
    = mapAltChange at exactly' ⊢
  have overlap : total zerocoinDenominationToAmount zerocoinDenomList
      (fun coin => min (mapAltChange coin) (used coin)) ≤
        total zerocoinDenominationToAmount zerocoinDenomList mapAltChange :=
    total_mono denominations_positive fun _ _ => Nat.min_le_left _ _
  refine ⟨by omega, fun coin => used coin - min (mapAltChange coin) (used coin), ?_, ?_⟩
  · exact fun coin member => (Nat.sub_le _ _).trans (fits coin member)
  · exact total_sub zerocoinDenominationToAmount fun _ _ => Nat.min_le_right _ _

/-- Coins that are held, reach the target, and leave the least change. -/
structure Covers (nValueTarget : Int) (mapOfDenomsHeld : DenomMap) (nChangeCount : Nat)
    (mapOfDenomsUsed : DenomMap) : Prop where
  held : ∀ denom ∈ zerocoinDenomList, mapOfDenomsUsed denom ≤ mapOfDenomsHeld denom
  covers : nValueTarget ≤
    total zerocoinDenominationToAmount zerocoinDenomList mapOfDenomsUsed
  least : IsLeast (changeCounts (total zerocoinDenominationToAmount zerocoinDenomList
    mapOfDenomsUsed - nValueTarget)) nChangeCount

/-- What covers the target is within the limit, or no more than going down would use. -/
def Settled (nMaxNumberOfSpends : Nat) (nValueTarget : Int) (mapOfDenomsHeld : DenomMap)
    (change : Nat × DenomMap) : Prop :=
  Covers nValueTarget mapOfDenomsHeld change.1 change.2 ∧
    (getNumberOfCoinsUsed change.2 ≤ nMaxNumberOfSpends ∨
      (differentWay nValueTarget mapOfDenomsHeld).2 < 0 ∧ change.1 ≠ 0 ∧
        getNumberOfCoinsUsed change.2 ≤
          getNumberOfCoinsUsed (differentWay nValueTarget mapOfDenomsHeld).1)

theorem getMaxDenomHeld_most {mapCoinsHeld : DenomMap} (listed : denom ∈ zerocoinDenomList)
    (held : mapCoinsHeld denom ≠ 0) :
    zerocoinDenominationToInt denom ≤
      zerocoinDenominationToInt (getMaxDenomHeld mapCoinsHeld) := by
  unfold getMaxDenomHeld
  cases found : zerocoinDenomList.reverse.find? fun coin => mapCoinsHeld coin != 0 with
  | none =>
    have none' := List.find?_eq_none.mp found denom (List.mem_reverse.mpr listed)
    simp [held] at none'
  | some maxDenom =>
    obtain ⟨-, above, rest, split', empty⟩ := List.find?_eq_some_iff_append.mp found
    have ordered : zerocoinDenomList.reverse.Pairwise fun high low =>
        zerocoinDenominationToInt low ≤ zerocoinDenominationToInt high := by decide
    have member := List.mem_reverse.mpr listed
    rw [split'] at member ordered
    have below := (List.pairwise_append.mp ordered).2.1
    rcases List.mem_append.mp member with before | after
    · have nothing := empty denom before
      simp [held] at nothing
    · rcases List.mem_cons.mp after with same | later
      · rw [same]
        exact le_refl _
      · exact (List.pairwise_cons.mp below).1 denom later

theorem getNextLowerDenomHeld_lower (mapCoinsHeld : DenomMap) {this_denom : CoinDenomination}
    (listed : this_denom ∈ zerocoinDenomList) :
    zerocoinDenominationToInt (getNextLowerDenomHeld this_denom mapCoinsHeld) <
      zerocoinDenominationToInt this_denom := by
  unfold getNextLowerDenomHeld
  cases found : zerocoinDenomList.reverse.find? fun denom =>
      decide (zerocoinDenominationToInt denom < zerocoinDenominationToInt this_denom) &&
        mapCoinsHeld denom != 0 with
  | none =>
    have positive : ∀ denom ∈ zerocoinDenomList, 0 < zerocoinDenominationToInt denom := by decide
    exact positive this_denom listed
  | some denom =>
    have chosen := List.find?_some found
    rw [Bool.and_eq_true_iff] at chosen
    exact of_decide_eq_true chosen.1

theorem oneCoin_count : ∀ denom ∈ zerocoinDenomList, getNumberOfCoinsUsed (oneCoin denom) = 1 := by
  decide

theorem oneCoin_worth (listed : denom ∈ zerocoinDenomList) :
    total zerocoinDenominationToAmount zerocoinDenomList (oneCoin denom) =
      zerocoinDenominationToAmount denom := by
  have more := total_more zerocoinDenominationToAmount (by decide) (fun _ => 0) listed
  rw [total_zero, zero_add, zero_add] at more
  exact more

theorem differentWay_spent (nValueTarget : Int) (mapOfDenomsHeld : DenomMap) :
    (differentWay nValueTarget mapOfDenomsHeld).2 = nValueTarget -
      total zerocoinDenominationToAmount zerocoinDenomList
        (differentWay nValueTarget mapOfDenomsHeld).1 :=
  (sweep_spent denominations_chain.distinct _).trans (by rw [total_reverse]; rfl)

theorem differentWay_fewest (positive : 0 < nValueTarget)
    (held : ∀ denom ∈ zerocoinDenomList, used denom ≤ mapOfDenomsHeld denom)
    (covers : nValueTarget ≤ total zerocoinDenominationToAmount zerocoinDenomList used) :
    getNumberOfCoinsUsed (differentWay nValueTarget mapOfDenomsHeld).1 ≤
      getNumberOfCoinsUsed used := by
  have fewest := @sweep_fewest _ _ _ mapOfDenomsHeld _ denominations_chain used nValueTarget
    (zerocoinDenominationToAmount .ZQ_FIVE_THOUSAND) 0 (le_of_lt positive) (by decide) (by decide)
    (fun denom member => held denom (List.mem_reverse.mp member))
    (by rw [total_reverse]; simpa using covers)
  rw [coins_reverse, coins_reverse] at fewest
  exact fewest

theorem closeBelow_spares {mapOfDenomsHeld : DenomMap} {minDenomOverTarget : CoinDenomination}
    (listed : minDenomOverTarget ∈ zerocoinDenomList)
    (held : mapOfDenomsHeld minDenomOverTarget ≠ 0)
    (large : nValueTarget < zerocoinDenominationToAmount minDenomOverTarget) :
    (closeBelow (getNextLowerDenomHeld minDenomOverTarget mapOfDenomsHeld) nValueTarget
      mapOfDenomsHeld).2 < zerocoinDenominationToAmount minDenomOverTarget ∧
    (closeBelow (getNextLowerDenomHeld minDenomOverTarget mapOfDenomsHeld) nValueTarget
      mapOfDenomsHeld).1 minDenomOverTarget < mapOfDenomsHeld minDenomOverTarget := by
  have lower := getNextLowerDenomHeld_lower mapOfDenomsHeld listed
  constructor
  · unfold closeBelow
    rw [sweep_spent denominations_chain.distinct]
    have worth := total_nonneg denominations_chain.positive (closeBelow
      (getNextLowerDenomHeld minDenomOverTarget mapOfDenomsHeld) nValueTarget mapOfDenomsHeld).1
    unfold closeBelow at worth
    omega
  · unfold closeBelow
    rw [sweep_refused fun left => by rw [decide_eq_false (not_le.mpr lower), Bool.false_and]]
    omega

section Target
variable {nValueTarget : Int} {mapOfDenomsHeld : DenomMap} (positive : 0 < nValueTarget)
  (whole : COIN ∣ nValueTarget)
include whole

theorem covers_of_change {mapOfDenomsUsed : DenomMap}
    (held : ∀ denom ∈ zerocoinDenomList, mapOfDenomsUsed denom ≤ mapOfDenomsHeld denom)
    (covers : nValueTarget ≤ total zerocoinDenominationToAmount zerocoinDenomList mapOfDenomsUsed) :
    Covers nValueTarget mapOfDenomsHeld (getNumberOfCoinsUsed (getChange
      (total zerocoinDenominationToAmount zerocoinDenomList mapOfDenomsUsed - nValueTarget)))
      mapOfDenomsUsed where
  held := held
  covers := covers
  least := (getChange_least (by omega)
    (Int.dvd_sub (whole_total mapOfDenomsUsed) whole)).2

include positive

theorem minimizeChange_cases {nMaxNumberOfSpends nChangeCount : Nat}
    {nextToMaxDenom : CoinDenomination} (savedMapOfDenomsUsed : DenomMap)
    (spare : ∃ denom ∈ zerocoinDenomList,
      (closeBelow nextToMaxDenom nValueTarget mapOfDenomsHeld).2 <
        zerocoinDenominationToAmount denom ∧
      (closeBelow nextToMaxDenom nValueTarget mapOfDenomsHeld).1 denom < mapOfDenomsHeld denom) :
    minimizeChange nMaxNumberOfSpends nChangeCount nextToMaxDenom nValueTarget mapOfDenomsHeld
      savedMapOfDenomsUsed = (nChangeCount, savedMapOfDenomsUsed) ∨
    ∃ AltChangeCount mapOfDenomsUsed,
      minimizeChange nMaxNumberOfSpends nChangeCount nextToMaxDenom nValueTarget mapOfDenomsHeld
        savedMapOfDenomsUsed = (AltChangeCount, mapOfDenomsUsed) ∧
      AltChangeCount < nChangeCount ∧
      Covers nValueTarget mapOfDenomsHeld AltChangeCount mapOfDenomsUsed ∧
      getNumberOfCoinsUsed mapOfDenomsUsed ≤ nMaxNumberOfSpends := by
  obtain ⟨reached, used, held, amount⟩ := altAmountUsed_covers positive whole spare
  obtain ⟨fits, met, -⟩ := getSpendCoins_meets held amount
  unfold minimizeChange
  dsimp only
  split
  · rename_i better
    have covers := covers_of_change whole fits (by rw [met]; exact reached)
    rw [met] at covers
    exact .inr ⟨_, _, rfl, better.1, covers, better.2⟩
  · exact .inl rfl

variable {nMaxNumberOfSpends : Nat} {fMinimizeChange : Bool}

theorem calculateChange_one {minDenomOverTarget : CoinDenomination}
    (found : (zerocoinDenomList.find? fun denom =>
      decide (nValueTarget < zerocoinDenominationToAmount denom) && mapOfDenomsHeld denom != 0) =
        some minDenomOverTarget) :
    Settled nMaxNumberOfSpends nValueTarget mapOfDenomsHeld
      (calculateChange nMaxNumberOfSpends fMinimizeChange nValueTarget mapOfDenomsHeld) := by
  have listed := List.mem_of_find?_eq_some found
  have chosen := List.find?_some found
  rw [Bool.and_eq_true_iff, decide_eq_true_eq, bne_iff_ne] at chosen
  obtain ⟨large, held⟩ := chosen
  have beyond : (differentWay nValueTarget mapOfDenomsHeld).2 < 0 :=
    sweep_passes denominations_chain positive (List.mem_reverse.mpr listed) held large
  have covers := @covers_of_change _ mapOfDenomsHeld whole (oneCoin minDenomOverTarget) (by
      intro denom _
      by_cases same : denom = minDenomOverTarget
      · rw [same, oneCoin, Function.update_self]
        omega
      · rw [oneCoin, Function.update_of_ne same]
        exact Nat.zero_le _) (by rw [oneCoin_worth listed]; omega)
  have change := (Int.dvd_sub (whole_total (oneCoin minDenomOverTarget)) whole)
  rw [oneCoin_worth listed] at covers change
  have back : Settled nMaxNumberOfSpends nValueTarget mapOfDenomsHeld
      (getNumberOfCoinsUsed (getChange
        (zerocoinDenominationToAmount minDenomOverTarget - nValueTarget)),
        oneCoin minDenomOverTarget) := by
    refine ⟨covers, .inr ⟨beyond, getChange_something (by omega) change, ?_⟩⟩
    rw [oneCoin_count minDenomOverTarget listed]
    have spent := differentWay_spent nValueTarget mapOfDenomsHeld
    exact @coins_pos _ zerocoinDenominationToAmount _ _ (by omega)
  unfold calculateChange
  rw [found]
  dsimp only
  split
  · rcases @minimizeChange_cases _ _ positive whole nMaxNumberOfSpends
      (getNumberOfCoinsUsed (getChange
        (zerocoinDenominationToAmount minDenomOverTarget - nValueTarget)))
      _ (oneCoin minDenomOverTarget)
      ⟨minDenomOverTarget, listed, closeBelow_spares listed held large⟩
      with same | ⟨AltChangeCount, used, alt, less, covers', limited⟩
    · rw [same, if_neg (Nat.lt_irrefl _)]
      exact back
    · rw [alt, if_pos less]
      exact ⟨covers', .inl limited⟩
  · exact back

theorem calculateChange_down
    (none' : (zerocoinDenomList.find? fun denom =>
      decide (nValueTarget < zerocoinDenominationToAmount denom) && mapOfDenomsHeld denom != 0) =
        none) :
    0 ≤ (differentWay nValueTarget mapOfDenomsHeld).2 ∧
      (calculateChange nMaxNumberOfSpends fMinimizeChange nValueTarget mapOfDenomsHeld).1 = 0 ∨
    Settled nMaxNumberOfSpends nValueTarget mapOfDenomsHeld
      (calculateChange nMaxNumberOfSpends fMinimizeChange nValueTarget mapOfDenomsHeld) := by
  have spent := differentWay_spent nValueTarget mapOfDenomsHeld
  have AmountUsed : nValueTarget - (differentWay nValueTarget mapOfDenomsHeld).2 - nValueTarget =
      total zerocoinDenominationToAmount zerocoinDenomList
        (differentWay nValueTarget mapOfDenomsHeld).1 - nValueTarget := by omega
  unfold calculateChange
  rw [none']
  dsimp only
  rw [AmountUsed]
  rcases lt_or_ge (differentWay nValueTarget mapOfDenomsHeld).2 0 with beyond | short
  · right
    have covers := @covers_of_change _ mapOfDenomsHeld whole
      (differentWay nValueTarget mapOfDenomsHeld).1
      (fun denom member => sweep_room _ denom (List.mem_reverse.mpr member)) (by omega)
    have back : Settled nMaxNumberOfSpends nValueTarget mapOfDenomsHeld
        (getNumberOfCoinsUsed (getChange (total zerocoinDenominationToAmount zerocoinDenomList
          (differentWay nValueTarget mapOfDenomsHeld).1 - nValueTarget)),
          (differentWay nValueTarget mapOfDenomsHeld).1) :=
      ⟨covers, .inr ⟨beyond, getChange_something (by omega)
        (Int.dvd_sub (whole_total _) whole), Nat.le_refl _⟩⟩
    split
    · exact back
    · obtain ⟨denom, listed, more, spare⟩ := @sweep_spare _ _ _ _ _ _ denominations_chain
        (fun denom => decide (zerocoinDenominationToInt denom ≤
          zerocoinDenominationToInt (getMaxDenomHeld mapOfDenomsHeld))) positive
        (fun denom member held => decide_eq_true
          (getMaxDenomHeld_most (List.mem_reverse.mp member) held)) beyond
      rcases @minimizeChange_cases _ _ positive whole nMaxNumberOfSpends
        (getNumberOfCoinsUsed (getChange
          (total zerocoinDenominationToAmount zerocoinDenomList
            (differentWay nValueTarget mapOfDenomsHeld).1 - nValueTarget)))
        _ (differentWay nValueTarget mapOfDenomsHeld).1
        ⟨denom, List.mem_reverse.mp listed, more, spare⟩
        with same | ⟨AltChangeCount, used, alt, less, covers', limited⟩
      · rw [same]
        exact back
      · rw [alt]
        exact ⟨covers', .inl limited⟩
  · left
    refine ⟨short, ?_⟩
    rw [@getChange_nothing (total zerocoinDenominationToAmount zerocoinDenomList
      (differentWay nValueTarget mapOfDenomsHeld).1 - nValueTarget) (by omega)]
    split
    · rfl
    · unfold minimizeChange
      rw [if_neg fun better => Nat.not_lt_zero _ better.1]

theorem calculateChange_settled (nMaxNumberOfSpends : Nat) (fMinimizeChange : Bool) :
    0 ≤ (differentWay nValueTarget mapOfDenomsHeld).2 ∧
      (calculateChange nMaxNumberOfSpends fMinimizeChange nValueTarget mapOfDenomsHeld).1 = 0 ∨
    Settled nMaxNumberOfSpends nValueTarget mapOfDenomsHeld
      (calculateChange nMaxNumberOfSpends fMinimizeChange nValueTarget mapOfDenomsHeld) := by
  cases found : zerocoinDenomList.find? fun denom =>
      decide (nValueTarget < zerocoinDenominationToAmount denom) && mapOfDenomsHeld denom != 0 with
  | some minDenomOverTarget => exact .inr (calculateChange_one positive whole found)
  | none => exact calculateChange_down positive whole found

end Target

def unusedFromHighest (listMints : List CZerocoinMint) : List Int :=
  zerocoinDenomList.reverse.flatMap fun denom =>
    (unusedOf denom listMints).map CZerocoinMint.getDenominationAsAmount

/-- So many of the most valuable mints, no fewer than the limit, fall short of the target, and
    one more goes beyond it. -/
def TooManyNeeded (nMaxNumberOfSpends : Nat) (nValueTarget : Int)
    (listMints : List CZerocoinMint) : Prop :=
  ∃ n, nMaxNumberOfSpends ≤ n ∧ n < (unusedFromHighest listMints).length ∧
    ((unusedFromHighest listMints).take n).sum < nValueTarget ∧
    nValueTarget < ((unusedFromHighest listMints).take (n + 1)).sum

structure ProperSelection (nValueTarget : Int) (nMaxNumberOfSpends : Nat)
    (listMints : List CZerocoinMint) (selection : MintSelection) : Prop where
  distinct : selection.vSelectedMints.Subperm listMints
  unused : ∀ mint ∈ selection.vSelectedMints, mint.isUsed = false
  worth : (selection.vSelectedMints.map CZerocoinMint.getDenominationAsAmount).sum =
    selection.nSelectedValue
  covers : nValueTarget ≤ selection.nSelectedValue
  limited : selection.vSelectedMints.length ≤ nMaxNumberOfSpends
  change : IsLeast (changeCounts (selection.nSelectedValue - nValueTarget))
    selection.nCoinsReturned

section Selections
variable {nValueTarget nSelectedValue : Int} {nMaxNumberOfSpends : Nat} {fMinimizeChange : Bool}
  {listMints : List CZerocoinMint}

theorem tooManyNeeded_iff (positive : 0 < nValueTarget) :
    TooManyNeeded nMaxNumberOfSpends nValueTarget listMints ↔
      (differentWay nValueTarget (getMyZerocoinDistribution listMints)).2 < 0 ∧
      nMaxNumberOfSpends < getNumberOfCoinsUsed
        (differentWay nValueTarget (getMyZerocoinDistribution listMints)).1 := by
  have listed : unusedFromHighest listMints = zerocoinDenomList.reverse.flatMap fun denom =>
      List.replicate (getMyZerocoinDistribution listMints denom)
        (zerocoinDenominationToAmount denom) := by
    refine List.flatMap_congr fun denom _ => List.eq_replicate_iff.mpr ⟨?_, ?_⟩
    · rw [List.length_map, unusedOf_length]
    · intro amount member
      obtain ⟨mint, unused, rfl⟩ := List.mem_map.mp member
      exact unusedOf_worth unused
  have amounts : ∀ amount ∈ unusedFromHighest listMints, 0 < amount := by
    intro amount member
    rw [listed] at member
    obtain ⟨denom, here, member⟩ := List.mem_flatMap.mp member
    rw [List.eq_of_mem_replicate member]
    exact denominations_chain.positive denom here
  have reached : reach (unusedFromHighest listMints) nValueTarget =
      (getNumberOfCoinsUsed
        (differentWay nValueTarget (getMyZerocoinDistribution listMints)).1,
        (differentWay nValueTarget (getMyZerocoinDistribution listMints)).2) := by
    rw [listed, sweep_reach denominations_chain.distinct, coins_reverse]
    rfl
  have beyond := fun n => reach_beyond amounts positive n
  rw [reached] at beyond
  constructor
  · rintro ⟨n, many, passes⟩
    obtain ⟨past, count⟩ := (beyond n).mpr passes
    exact ⟨past, by omega⟩
  · rintro ⟨past, many⟩
    exact ⟨_, by omega, (beyond (getNumberOfCoinsUsed
      (differentWay nValueTarget (getMyZerocoinDistribution listMints)).1 - 1)).mp
        ⟨past, by omega⟩⟩

theorem proper_of_covers {mapOfDenomsUsed : DenomMap} {nCoinsReturned nNeededSpends : Nat}
    {vSelectedMints : List CZerocoinMint}
    (covers : Covers nValueTarget (getMyZerocoinDistribution listMints) nCoinsReturned
      mapOfDenomsUsed)
    (spends : Spends listMints mapOfDenomsUsed vSelectedMints)
    (limited : getNumberOfCoinsUsed mapOfDenomsUsed ≤ nMaxNumberOfSpends) :
    ProperSelection nValueTarget nMaxNumberOfSpends listMints ⟨vSelectedMints,
      total zerocoinDenominationToAmount zerocoinDenomList mapOfDenomsUsed, nCoinsReturned,
      nNeededSpends⟩ where
  distinct := spends.distinct
  unused := spends.unused
  worth := spends.worth
  covers := covers.covers
  limited := spends.counted.trans_le limited
  change := covers.least

theorem getIdealSpends_meets
    (exactly' : (getIdealSpends nValueTarget listMints).2 = true) :
    (∀ denom ∈ zerocoinDenomList, (getIdealSpends nValueTarget listMints).1 denom ≤
      getMyZerocoinDistribution listMints denom) ∧
    total zerocoinDenominationToAmount zerocoinDenomList
      (getIdealSpends nValueTarget listMints).1 = nValueTarget := by
  unfold getIdealSpends at exactly' ⊢
  dsimp only at exactly' ⊢
  rw [decide_eq_true_eq] at exactly'
  rw [idealSpends_sweep] at exactly' ⊢
  have spent := @sweep_spent _ zerocoinDenominationToAmount _
    (fun coin left => decide (zerocoinDenominationToAmount coin ≤ left))
    (getMyZerocoinDistribution listMints) _ denominations_chain.distinct nValueTarget
  rw [exactly', total_reverse] at spent
  exact ⟨fun denom member => sweep_room _ denom (List.mem_reverse.mpr member), by omega⟩

theorem selectMints_cases :
    (∃ used vSelectedMints,
      selectMintsFromList nValueTarget nSelectedValue nMaxNumberOfSpends fMinimizeChange listMints
        (getMyZerocoinDistribution listMints) = some ⟨vSelectedMints,
          total zerocoinDenominationToAmount zerocoinDenomList used, 0, 0⟩ ∧
      (∀ denom ∈ zerocoinDenomList, used denom ≤ getMyZerocoinDistribution listMints denom) ∧
      total zerocoinDenominationToAmount zerocoinDenomList used = nValueTarget ∧
      Spends listMints used vSelectedMints ∧ getNumberOfCoinsUsed used ≤ nMaxNumberOfSpends) ∨
    ∃ nValue nNeededSpends,
      selectMintsFromList nValueTarget nSelectedValue nMaxNumberOfSpends fMinimizeChange listMints
        (getMyZerocoinDistribution listMints) = selectMintsFromList.withChange nValueTarget
          nMaxNumberOfSpends fMinimizeChange listMints (getMyZerocoinDistribution listMints)
          nValue nNeededSpends := by
  unfold selectMintsFromList
  dsimp only
  cases ideal : (getIdealSpends nValueTarget listMints).2 with
  | false => exact .inr ⟨nSelectedValue, 0, rfl⟩
  | true =>
    obtain ⟨held, met⟩ := getIdealSpends_meets ideal
    obtain ⟨vSelectedMints, selected, spends⟩ := getSpends_held held
    rw [if_pos rfl, selected]
    simp only [Option.map_some, Option.bind_eq_bind, Option.bind_some]
    by_cases few : vSelectedMints.length ≤ nMaxNumberOfSpends
    · rw [if_pos few]
      exact .inl ⟨_, vSelectedMints, rfl, held, met, spends, spends.counted ▸ few⟩
    · rw [if_neg few]
      exact .inr ⟨_, _, rfl⟩

/-- A selection is what it promises unless the limit is passed on the way down. -/
theorem selection_proper_iff (nValueTarget nSelectedValue : Int) (nMaxNumberOfSpends : Nat)
    (fMinimizeChange : Bool) (listMints : List CZerocoinMint) (positive : 0 < nValueTarget)
    (whole : COIN ∣ nValueTarget) :
    (∀ selection,
      selectMintsFromList nValueTarget nSelectedValue nMaxNumberOfSpends fMinimizeChange listMints
        (getMyZerocoinDistribution listMints) = some selection →
      selection.vSelectedMints ≠ [] →
      ProperSelection nValueTarget nMaxNumberOfSpends listMints selection) ↔
    ¬TooManyNeeded nMaxNumberOfSpends nValueTarget listMints := by
  rw [tooManyNeeded_iff positive]
  have settled := @calculateChange_settled _ (getMyZerocoinDistribution listMints) positive whole
    nMaxNumberOfSpends fMinimizeChange
  constructor
  · rintro proper ⟨past, many⟩
    rcases @selectMints_cases nValueTarget nSelectedValue nMaxNumberOfSpends fMinimizeChange
      listMints with ⟨used, vSelectedMints, -, held, met, -, few⟩ | ⟨nValue, needed, same⟩
    · have fewest := differentWay_fewest positive held (le_of_eq met.symm)
      omega
    · obtain ⟨covers, limited⟩ := settled.resolve_left fun short => absurd past (not_lt.mpr short.1)
      have fewest := differentWay_fewest positive covers.held covers.covers
      obtain ⟨-, some', -⟩ := limited.resolve_left (by omega)
      obtain ⟨vSelectedMints, selected, spends⟩ := getSpends_held covers.held
      rw [same] at proper
      unfold selectMintsFromList.withChange at proper
      rw [if_neg some', selected] at proper
      have limited := (proper _ rfl (by
        intro empty
        have counted := spends.counted
        dsimp only at empty
        rw [empty, List.length_nil] at counted
        omega)).limited
      have counted := spends.counted
      dsimp only at limited
      omega
  · intro few selection selected some'
    rcases @selectMints_cases nValueTarget nSelectedValue nMaxNumberOfSpends fMinimizeChange
      listMints with ⟨used, vSelectedMints, same, held, met, spends, limited⟩ |
        ⟨nValue, needed, same⟩
    · rw [same] at selected
      obtain rfl := Option.some.inj selected
      have covers := covers_of_change whole held (le_of_eq met.symm)
      rw [met, Int.sub_self, getChange_nothing (le_refl 0)] at covers
      exact proper_of_covers covers spends limited
    · rw [same] at selected
      unfold selectMintsFromList.withChange at selected
      dsimp only at selected
      rcases settled with ⟨-, none'⟩ | ⟨covers, limited⟩
      · rw [if_pos none'] at selected
        obtain rfl := Option.some.inj selected
        exact absurd rfl some'
      · split at selected
        · obtain rfl := Option.some.inj selected
          exact absurd rfl some'
        · obtain ⟨vSelectedMints, spent, spends⟩ := getSpends_held covers.held
          rw [spent] at selected
          obtain rfl := Option.some.inj selected
          refine proper_of_covers covers spends ?_
          rcases limited with limited | ⟨past, -, fewer⟩
          · exact limited
          · exact fewer.trans (not_lt.mp fun many => few ⟨past, many⟩)

def fives (n : Nat) : List CZerocoinMint :=
  (List.range n).map fun k => ⟨.ZQ_FIVE, k, k, false⟩

theorem three_fives_proper : ProperSelection (15 * COIN) 7 (fives 4)
    ⟨(fives 4).take 3, 15 * COIN, 0, 0⟩ := by
  refine (selection_proper_iff (15 * COIN) 0 7 true (fives 4) (by decide) (by decide)).mpr ?_
    _ (by decide +kernel) (by decide)
  rintro ⟨n, many, listed, -⟩
  have four : (unusedFromHighest (fives 4)).length = 4 := by decide +kernel
  omega

theorem nine_fives_selected : ¬∀ (nValueTarget nSelectedValue : Int) (nMaxNumberOfSpends : Nat)
    (fMinimizeChange : Bool) (listMints : List CZerocoinMint) (selection : MintSelection),
    0 < nValueTarget → COIN ∣ nValueTarget →
    selectMintsFromList nValueTarget nSelectedValue nMaxNumberOfSpends fMinimizeChange listMints
      (getMyZerocoinDistribution listMints) = some selection →
    selection.vSelectedMints ≠ [] →
    ProperSelection nValueTarget nMaxNumberOfSpends listMints selection := by
  intro promised
  have proper := promised (41 * COIN) 0 7 true (fives 9) ⟨fives 9, 45 * COIN, 4, 0⟩
    (by decide) (by decide) (by decide +kernel) (by decide)
  exact absurd proper.limited (by decide)

end Selections

end OxidDenominationFunctions
