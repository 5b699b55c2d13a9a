import Oxid.ExactSpend

/-!
What a spend of given counts takes from the list of mints, and what change is made of.
-/
namespace OxidChangeCounts
open OxidPrimitives OxidZerocoin OxidDenominationFunctions OxidExactSpend GreedyCoins

section Counts
variable {listMints : List CZerocoinMint} {mapOfDenomsUsed : DenomMap}

theorem countsOf_append (front back : List CZerocoinMint) (coin : CoinDenomination) :
    countsOf (front ++ back) coin = countsOf front coin + countsOf back coin :=
  List.countP_append

variable {coin : CoinDenomination}

theorem taken_denomination {wanted : Nat} {mint : CZerocoinMint}
    (member : mint ∈ (unusedOf coin listMints).take wanted) : coin = mint.denomination :=
  of_decide_eq_true
    (Bool.and_eq_true_iff.mp (List.mem_filter.mp (List.mem_of_mem_take member)).2).2

theorem countsOf_same {wanted : Nat} (held : wanted ≤ getMyZerocoinDistribution listMints coin) :
    countsOf ((unusedOf coin listMints).take wanted) coin = wanted := by
  unfold countsOf
  rw [List.countP_eq_length.mpr fun mint member => decide_eq_true (taken_denomination member),
    List.length_take, unusedOf_length, Nat.min_eq_left held]

theorem countsOf_apart {chosen : List CZerocoinMint}
    (apart : ∀ mint ∈ chosen, mint.denomination ≠ coin) : countsOf chosen coin = 0 := by
  unfold countsOf
  rw [List.countP_eq_zero]
  intro mint member same
  exact apart mint member (of_decide_eq_true same).symm

theorem taken_from {denoms : List CoinDenomination} {mint : CZerocoinMint}
    (member : mint ∈ denoms.flatMap fun coin =>
      (unusedOf coin listMints).take (mapOfDenomsUsed coin)) : mint.denomination ∈ denoms := by
  obtain ⟨coin, listed, taken⟩ := List.mem_flatMap.mp member
  rw [← taken_denomination taken]
  exact listed

theorem taken_counts {denoms : List CoinDenomination} (distinct : denoms.Nodup)
    (held : ∀ coin ∈ denoms, mapOfDenomsUsed coin ≤ getMyZerocoinDistribution listMints coin)
    (listed : coin ∈ denoms) :
    countsOf (denoms.flatMap fun coin => (unusedOf coin listMints).take (mapOfDenomsUsed coin))
      coin = mapOfDenomsUsed coin := by
  induction denoms with
  | nil => cases listed
  | cons first later ih =>
    obtain ⟨apart, distinct⟩ := List.nodup_cons.mp distinct
    rw [List.flatMap_cons, countsOf_append]
    by_cases same : coin = first
    · subst same
      have none : countsOf (later.flatMap fun coin =>
          (unusedOf coin listMints).take (mapOfDenomsUsed coin)) coin = 0 := by
        refine countsOf_apart fun mint member equal => apart ?_
        rw [← equal]
        exact taken_from member
      rw [countsOf_same (held coin List.mem_cons_self), none, Nat.add_zero]
    · have none : countsOf ((unusedOf first listMints).take (mapOfDenomsUsed first)) coin = 0 := by
        refine countsOf_apart fun mint member equal => same ?_
        rw [← equal, taken_denomination member]
      rw [none, Nat.zero_add]
      exact ih distinct (fun other member => held other (List.mem_cons_of_mem _ member))
        (List.mem_of_ne_of_mem same listed)

end Counts

/-- A spend of counts that are held ends with so many mints of each denomination, unused and
    from different places of the list. The change of an amount is made of the fewest coins,
    and of none below zero. -/
theorem spends_change_exact :
    (∀ (listMints : List CZerocoinMint) (mapOfDenomsUsed : DenomMap),
      (∀ coin ∈ zerocoinDenomList,
        mapOfDenomsUsed coin ≤ getMyZerocoinDistribution listMints coin) →
      ∃ vSelectedMints nCoinsSpentValue,
        getSpends listMints mapOfDenomsUsed = some (vSelectedMints, nCoinsSpentValue) ∧
        vSelectedMints.Subperm listMints ∧
        (∀ mint ∈ vSelectedMints, mint.isUsed = false ∧ mint.denomination ∈ zerocoinDenomList) ∧
        ∀ coin ∈ zerocoinDenomList, countsOf vSelectedMints coin = mapOfDenomsUsed coin) ∧
    ∀ nValueTarget, zerocoinDenominationToAmount .ZQ_ONE ∣ nValueTarget →
      (0 ≤ nValueTarget →
        total zerocoinDenominationToAmount zerocoinDenomList (getChange nValueTarget) =
          nValueTarget ∧
        IsLeast (changeCounts nValueTarget) (getNumberOfCoinsUsed (getChange nValueTarget))) ∧
      (nValueTarget < 0 → getNumberOfCoinsUsed (getChange nValueTarget) = 0) := by
  refine ⟨?_, ?_⟩
  · intro listMints mapOfDenomsUsed held
    have listed : ∀ coin ∈ zerocoinDenomList.reverse, coin ∈ zerocoinDenomList :=
      fun coin member => List.mem_reverse.mp member
    have distinct := denominations_chain.distinct
    refine ⟨_, _, spendDenoms_held held listed, taken_subperm mapOfDenomsUsed distinct listMints,
      ?_, ?_⟩
    · intro mint member
      obtain ⟨coin, -, taken⟩ := List.mem_flatMap.mp member
      have unused := (List.mem_filter.mp (List.mem_of_mem_take taken)).2
      exact ⟨by simpa using (Bool.and_eq_true_iff.mp unused).1, listed _ (taken_from member)⟩
    · intro coin member
      exact taken_counts distinct (fun other among => held other (listed other among))
        (List.mem_reverse.mpr member)
  · intro nValueTarget whole
    have multiple : COIN ∣ nValueTarget := whole
    exact ⟨fun nonneg => getChange_least nonneg multiple,
      fun negative => getChange_nothing negative.le⟩

theorem five_and_one_taken :
    (∃ vSelectedMints nCoinsSpentValue,
      getSpends fiveFiveOne (getMyZerocoinDistribution fiveFiveOne) =
        some (vSelectedMints, nCoinsSpentValue) ∧
      vSelectedMints.Subperm fiveFiveOne ∧
      (∀ mint ∈ vSelectedMints, mint.isUsed = false ∧ mint.denomination ∈ zerocoinDenomList) ∧
      ∀ coin ∈ zerocoinDenomList,
        countsOf vSelectedMints coin = getMyZerocoinDistribution fiveFiveOne coin) ∧
    IsLeast (changeCounts (11 * COIN)) (getNumberOfCoinsUsed (getChange (11 * COIN))) :=
  ⟨spends_change_exact.1 fiveFiveOne _ fun _ _ => le_refl _,
    ((spends_change_exact.2 (11 * COIN) (by decide)).1 (by decide)).2⟩

theorem negative_change : ¬∀ nValueTarget, zerocoinDenominationToAmount .ZQ_ONE ∣ nValueTarget →
    total zerocoinDenominationToAmount zerocoinDenomList (getChange nValueTarget) =
      nValueTarget := by
  intro sums
  have worth := sums (-COIN) (by decide)
  have positive := total_nonneg denominations_positive (getChange (-COIN))
  rw [worth] at positive
  exact absurd positive (by decide)

end OxidChangeCounts
