import Oxid.DenominationFunctions

/-!
Spends of an exact amount. Each denomination divides the next higher one.
-/
namespace OxidExactSpend
open OxidPrimitives OxidZerocoin OxidDenominationFunctions GreedyCoins

def unusedMints (listMints : List CZerocoinMint) : List CZerocoinMint :=
  listMints.filter fun mint => !mint.isUsed

def Attainable (nValueTarget : Int) (listMints : List CZerocoinMint) : Prop :=
  ∃ chosen : List CZerocoinMint, chosen.Subperm (unusedMints listMints) ∧
    (chosen.map CZerocoinMint.getDenominationAsAmount).sum = nValueTarget

def countsOf (chosen : List CZerocoinMint) : DenomMap := fun denom =>
  chosen.countP fun mint => decide (denom = mint.denomination)

theorem countsOf_cons (mint : CZerocoinMint) (chosen : List CZerocoinMint) :
    countsOf (mint :: chosen) = Function.update (countsOf chosen) mint.denomination
      (countsOf chosen mint.denomination + 1) := by
  funext denom
  unfold countsOf
  rw [List.countP_cons]
  by_cases same : denom = mint.denomination
  · rw [← same, Function.update_self, if_pos (by simp)]
  · rw [Function.update_of_ne same, if_neg (by simpa using same), Nat.add_zero]

theorem unlisted_worth {denom : CoinDenomination} (unlisted : denom ∉ zerocoinDenomList) :
    zerocoinDenominationToAmount denom = 0 := by
  cases denom <;> first | rfl | exact absurd (by decide) unlisted

theorem total_countsOf (chosen : List CZerocoinMint) :
    total zerocoinDenominationToAmount zerocoinDenomList (countsOf chosen) =
      (chosen.map CZerocoinMint.getDenominationAsAmount).sum := by
  induction chosen with
  | nil => exact total_zero _ _
  | cons mint later ih =>
    rw [List.map_cons, List.sum_cons, ← ih, countsOf_cons]
    by_cases listed : mint.denomination ∈ zerocoinDenomList
    · rw [total_more _ (by decide) _ listed, Int.add_comm]
      rfl
    · have worth : mint.getDenominationAsAmount = 0 := unlisted_worth listed
      rw [worth, Int.zero_add]
      exact total_congr _ fun denom member =>
        Function.update_of_ne (fun same : denom = mint.denomination => listed (same ▸ member)) _ _

theorem countsOf_held {chosen listMints : List CZerocoinMint}
    (among : chosen.Subperm (unusedMints listMints)) (denom : CoinDenomination) :
    countsOf chosen denom ≤ getMyZerocoinDistribution listMints denom := by
  have fewer := among.countP_le fun mint => decide (denom = mint.denomination)
  unfold unusedMints at fewer
  rw [List.countP_filter] at fewer
  unfold getMyZerocoinDistribution countsOf
  simpa only [Bool.and_comm] using fewer

theorem spends_attain {nValueTarget : Int} {listMints vSelectedMints : List CZerocoinMint}
    {mapOfDenomsUsed : DenomMap} (spends : Spends listMints mapOfDenomsUsed vSelectedMints)
    (met : total zerocoinDenominationToAmount zerocoinDenomList mapOfDenomsUsed = nValueTarget) :
    Attainable nValueTarget listMints := by
  refine ⟨vSelectedMints, ?_, spends.worth.trans met⟩
  have kept : vSelectedMints.filter (fun mint => !mint.isUsed) = vSelectedMints :=
    List.filter_eq_self.mpr fun mint member => by rw [spends.unused mint member]; rfl
  rw [← kept]
  exact spends.distinct.filter _

theorem getIdealSpends_iff (nValueTarget : Int) (listMints : List CZerocoinMint) :
    (getIdealSpends nValueTarget listMints).2 = true ↔ Attainable nValueTarget listMints := by
  constructor
  · intro success
    obtain ⟨held, met⟩ := getIdealSpends_meets success
    obtain ⟨vSelectedMints, -, spends⟩ := getSpends_held held
    exact spends_attain spends met
  · rintro ⟨chosen, among, worth⟩
    unfold getIdealSpends
    rw [idealSpends_sweep]
    exact decide_eq_true (sweep_least denominations_chain
      (fun denom _ => countsOf_held among denom)
      (by rw [total_reverse, total_countsOf, worth])).1

theorem getSpendCoins_held (nValueTarget : Int) (mapOfDenomsHeld : DenomMap) :
    ∀ denom ∈ zerocoinDenomList,
      getSpendCoins nValueTarget mapOfDenomsHeld denom ≤ mapOfDenomsHeld denom := by
  intro denom member
  exact sweep_room nValueTarget denom (List.mem_reverse.mpr member)

theorem getSpendCoins_exact {nValueTarget : Int} {listMints : List CZerocoinMint}
    (attainable : Attainable nValueTarget listMints) :
    ∃ vSelectedMints,
      getSpends listMints (getSpendCoins nValueTarget (getMyZerocoinDistribution listMints)) =
        some (vSelectedMints, nValueTarget) ∧
      Spends listMints (getSpendCoins nValueTarget (getMyZerocoinDistribution listMints))
        vSelectedMints ∧
      (vSelectedMints.map CZerocoinMint.getDenominationAsAmount).sum = nValueTarget := by
  obtain ⟨chosen, among, worth⟩ := attainable
  obtain ⟨held, met, -⟩ := getSpendCoins_meets (fun denom _ => countsOf_held among denom)
    ((total_countsOf chosen).trans worth)
  obtain ⟨vSelectedMints, selected, spends⟩ := getSpends_held held
  rw [met] at selected
  exact ⟨vSelectedMints, selected, spends, spends.worth.trans met⟩

/-- `getIdealSpends` succeeds exactly for amounts that some of the unused mints are worth.
    `getSpendCoins` never takes more of a denomination than are held, and for such an amount
    it takes mints that are worth it. -/
theorem exact_spend_iff (nValueTarget : Int) (listMints : List CZerocoinMint) :
    ((getIdealSpends nValueTarget listMints).2 = true ↔ Attainable nValueTarget listMints) ∧
    (∀ denom ∈ zerocoinDenomList,
      getSpendCoins nValueTarget (getMyZerocoinDistribution listMints) denom ≤
        getMyZerocoinDistribution listMints denom) ∧
    (Attainable nValueTarget listMints → ∃ vSelectedMints,
      getSpends listMints (getSpendCoins nValueTarget (getMyZerocoinDistribution listMints)) =
        some (vSelectedMints, nValueTarget) ∧
      Spends listMints (getSpendCoins nValueTarget (getMyZerocoinDistribution listMints))
        vSelectedMints ∧
      (vSelectedMints.map CZerocoinMint.getDenominationAsAmount).sum = nValueTarget) :=
  ⟨getIdealSpends_iff nValueTarget listMints, getSpendCoins_held nValueTarget _,
    getSpendCoins_exact⟩

def fiveFiveOne : List CZerocoinMint :=
  [⟨.ZQ_FIVE, 1, 1, false⟩, ⟨.ZQ_ONE, 2, 2, false⟩, ⟨.ZQ_FIVE, 3, 3, false⟩]

theorem six_coins_spent : ∃ vSelectedMints,
    getSpends fiveFiveOne (getSpendCoins (6 * COIN) (getMyZerocoinDistribution fiveFiveOne)) =
      some (vSelectedMints, 6 * COIN) ∧
    Spends fiveFiveOne (getSpendCoins (6 * COIN) (getMyZerocoinDistribution fiveFiveOne))
      vSelectedMints ∧
    (vSelectedMints.map CZerocoinMint.getDenominationAsAmount).sum = 6 * COIN :=
  (exact_spend_iff (6 * COIN) fiveFiveOne).2.2
    ⟨[⟨.ZQ_FIVE, 1, 1, false⟩, ⟨.ZQ_ONE, 2, 2, false⟩],
      (List.Sublist.subperm (by decide)), by decide⟩

end OxidExactSpend
