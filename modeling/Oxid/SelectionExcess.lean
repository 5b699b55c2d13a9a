import Oxid.CoinSelection

/-!
When a wallet finds the coins of an amount, and by how much it goes over.
-/
namespace OxidSelectionExcess
open OxidPrimitives OxidWallet OxidCoinSelection Selection

def NoDust (nTargetValue amount : Int) : Prop :=
  amount = nTargetValue ∨ nTargetValue + CENT ≤ amount

structure Tracks (nTargetValue : Int) (vValue : List COutput) (approx : Approximation) : Prop where
  approximates : Approximates nTargetValue vValue approx
  best : worth COutput.value (picked approx.vfBest vValue) = approx.nBest

section Approximating
variable {nTargetValue : Int} {vValue : List COutput}

theorem tryCoin_tracks {approx : Approximation} {i : Nat} {coin : COutput}
    (tracks : Tracks nTargetValue vValue approx) (standing : vValue[i]? = some coin)
    (left : approx.vfIncluded[i]? = some false) :
    Tracks nTargetValue vValue (approx.tryCoin nTargetValue i coin.value) := by
  refine ⟨Approximation.tryCoin_keeps tracks.approximates standing left, ?_⟩
  have added := @worth_set _ COutput.value _ _ _ _ left standing
  rw [tracks.approximates.total] at added
  unfold Approximation.tryCoin
  dsimp only
  split
  · dsimp only
    split
    · exact added
    · exact tracks.best
  · exact tracks.best

theorem tracks_kept :
    Approximation.KeptBy nTargetValue vValue (Tracks nTargetValue vValue) :=
  ⟨fun _ tracks => tracks.approximates.sized,
    fun _ _ _ tracks standing left => tryCoin_tracks tracks standing left⟩

theorem approximateBestSubset_best {insecureRand : Nat → Nat → Bool} {iterations : Nat}
    (enough : nTargetValue ≤ worth COutput.value vValue) :
    worth COutput.value (picked (approximateBestSubset insecureRand vValue
        (worth COutput.value vValue) nTargetValue iterations).vfBest vValue) =
      (approximateBestSubset insecureRand vValue (worth COutput.value vValue) nTargetValue
        iterations).nBest := by
  have kept := @Approximation.repetitions_keeps nTargetValue vValue
    ⟨[], 0, false, List.replicate vValue.length true, worth COutput.value vValue⟩
    (fun approx => nTargetValue ≤ worth COutput.value (picked approx.vfBest vValue) ∧
      worth COutput.value (picked approx.vfBest vValue) = approx.nBest) ?_ insecureRand iterations
    0 ?_
  · exact kept.2
  · rintro approx rand ⟨covers, best⟩
    have tracks := @Approximation.KeptBy.repetition _ _ _ _ tracks_kept rand
      ⟨Approximation.started_approximates covers, best⟩
    exact ⟨tracks.approximates.enough, tracks.best⟩
  · dsimp only
    rw [picked_all]
    exact ⟨enough, rfl⟩

theorem picked_le (nonnegative : ∀ coin ∈ vValue, 0 ≤ coin.value) (mask : List Bool) :
    worth COutput.value (picked mask vValue) ≤ worth COutput.value vValue := by
  apply ((picked_sublist mask vValue).map COutput.value).sum_le_sum
  intro amount member
  obtain ⟨coin, standing, rfl⟩ := List.mem_map.mp member
  exact nonnegative coin standing

/-- A best total short of the target and a cent was not looked for again: the coins together
    fall short of it too, or the total is the target. -/
theorem bestSubset_short {insecureRand : Nat → Nat → Nat → Bool}
    (enough : nTargetValue ≤ worth COutput.value vValue)
    (nonnegative : ∀ coin ∈ vValue, 0 ≤ coin.value) :
    let best := bestSubset insecureRand nTargetValue vValue (worth COutput.value vValue)
    worth COutput.value (picked best.vfBest vValue) = best.nBest ∧
      (best.nBest = nTargetValue ∨ nTargetValue + CENT ≤ best.nBest ∨
        best.nBest < nTargetValue + CENT ∧ worth COutput.value vValue < nTargetValue + CENT) := by
  unfold bestSubset
  dsimp only
  have first := @approximateBestSubset_best nTargetValue vValue (insecureRand 0) 1000 enough
  split
  · rename_i again
    have second := @approximateBestSubset_best (nTargetValue + CENT) vValue (insecureRand 1) 1000
      again.2
    have reached := @approximateBestSubset_enough (insecureRand 1) vValue
      (worth COutput.value vValue) (nTargetValue + CENT) 1000 again.2
    exact ⟨second, .inr (.inl (second ▸ reached))⟩
  · rename_i once
    refine ⟨first, ?_⟩
    have most := picked_le nonnegative (approximateBestSubset (insecureRand 0) vValue
      (worth COutput.value vValue) nTargetValue 1000).vfBest
    by_cases met : (approximateBestSubset (insecureRand 0) vValue (worth COutput.value vValue)
        nTargetValue 1000).nBest = nTargetValue
    · exact .inl met
    · have few : ¬ nTargetValue + CENT ≤ worth COutput.value vValue := fun more =>
        once ⟨met, more⟩
      exact .inr (.inr ⟨by omega, by omega⟩)

end Approximating

theorem gatherAll_worth (coins : List COutput) :
    (gatherAll coins).2 = worth COutput.value coins := by
  unfold gatherAll
  rw [gather_all, Int.zero_add]

theorem solveSubsetSum_noDust {insecureRand : Nat → Nat → Nat → Bool} {vValue : List COutput}
    {nTotalLower nTargetValue : Int} {coinLowestLarger : Option COutput}
    (total : worth COutput.value vValue = nTotalLower)
    (nonnegative : ∀ coin ∈ vValue, 0 ≤ coin.value)
    (larger : ∀ coin ∈ coinLowestLarger, nTargetValue + CENT ≤ coin.value)
    (more : nTargetValue ≤ nTotalLower)
    (enough : coinLowestLarger = none → nTargetValue + CENT ≤ nTotalLower) :
    NoDust nTargetValue
      (solveSubsetSum insecureRand nTargetValue vValue nTotalLower coinLowestLarger).2 := by
  unfold solveSubsetSum
  generalize descending : (vValue.insertionSort fun coin1 coin2 => coin2.value ≤ coin1.value) =
    ordered
  have same : ordered.Perm vValue := descending ▸ List.perm_insertionSort _ vValue
  rw [← (worth_perm same).trans total] at more enough ⊢
  obtain ⟨picks, cases⟩ := @bestSubset_short nTargetValue ordered insecureRand more
    fun coin member => nonnegative coin (same.mem_iff.mp member)
  dsimp only at picks cases ⊢
  cases coinLowestLarger with
  | none =>
    rw [gatherAll_worth, picks]
    rcases cases with met | beyond | short
    · exact .inl met
    · exact .inr beyond
    · exact absurd (enough rfl) (not_le.mpr short.2)
  | some coin =>
    have above := larger coin rfl
    dsimp only
    split
    · rw [gatherAll_worth, worth_cons, worth_nil, Int.add_zero]
      exact .inr above
    · rename_i subset
      rw [gatherAll_worth, picks]
      rw [not_or, not_and_or, not_not, not_lt] at subset
      exact subset.1.imp id id

def meetsThreshold (wallet : SpendingWallet) (nConfMine nConfTheirs : Int) (output : COutput) :
    Bool :=
  output.fSpendable &&
    decide ((if wallet.isFromMe output.tx then nConfMine else nConfTheirs) ≤ output.nDepth)

def considered (wallet : SpendingWallet) (nConfMine nConfTheirs : Int) (fNonDenom : Bool)
    (vCoins : List COutput) : List COutput :=
  vCoins.filter fun output => meetsThreshold wallet nConfMine nConfTheirs output &&
    !(fNonDenom && isDenominatedAmount output.value)

def arranged (draws : MinConfDraws) (vCoins : List COutput) : List COutput :=
  (draws.randomShuffle.order vCoins).insertionSort fun out1 out2 => lessThenDenom out2 out1 = false

def passRet (wallet : SpendingWallet) (draws : MinConfDraws)
    (nTargetValue nConfMine nConfTheirs : Int) (vCoins : List COutput) (fNonDenom : Bool) :
    CoinsRet :=
  tryScan draws.insecureRand nTargetValue none
    (wallet.scanCoins nTargetValue nConfMine nConfTheirs fNonDenom (arranged draws vCoins) [] 0
      none)

/-- The coins considered in the last pass: the second one is made where the first one selects
    nothing. -/
def lastConsidered (wallet : SpendingWallet) (draws : MinConfDraws)
    (nTargetValue nConfMine nConfTheirs : Int) (vCoins : List COutput) : List COutput :=
  considered wallet nConfMine nConfTheirs
    (passRet wallet draws nTargetValue nConfMine nConfTheirs vCoins true).isSome vCoins

theorem tryScan_or (insecureRand : Nat → Nat → Nat → Bool) (nTargetValue : Int)
    (otherwise : CoinsRet) (scan : Scan) :
    tryScan insecureRand nTargetValue otherwise scan =
      (tryScan insecureRand nTargetValue none scan).or otherwise := by
  cases scan with
  | exact coin => rfl
  | sorted vValue nTotalLower coinLowestLarger =>
    unfold tryScan
    dsimp only
    split
    · rfl
    · split
      · cases coinLowestLarger <;> rfl
      · rfl

theorem selectCoinsMinConf_passes (wallet : SpendingWallet) (draws : MinConfDraws)
    (nTargetValue nConfMine nConfTheirs : Int) (vCoins : List COutput) :
    wallet.selectCoinsMinConf draws nTargetValue nConfMine nConfTheirs vCoins =
      (passRet wallet draws nTargetValue nConfMine nConfTheirs vCoins true).or
        (passRet wallet draws nTargetValue nConfMine nConfTheirs vCoins false) :=
  tryScan_or _ _ _ _

section Passes
variable {wallet : SpendingWallet} {nTargetValue nConfMine nConfTheirs : Int} {fNonDenom : Bool}

theorem passedBy_eq (output : COutput) :
    wallet.passedBy nConfMine nConfTheirs fNonDenom output =
      !(meetsThreshold wallet nConfMine nConfTheirs output &&
        !(fNonDenom && isDenominatedAmount output.value)) := by
  unfold SpendingWallet.passedBy meetsThreshold
  rw [Bool.not_and, Bool.not_and, Bool.not_not]
  rw [← decide_not]
  simp

theorem scanCoins_considered (rest vValue : List COutput) (nTotalLower : Int)
    (coinLowestLarger : Option COutput) :
    wallet.scanCoins nTargetValue nConfMine nConfTheirs fNonDenom rest vValue nTotalLower
        coinLowestLarger =
      wallet.scanCoins nTargetValue nConfMine nConfTheirs fNonDenom
        (considered wallet nConfMine nConfTheirs fNonDenom rest) vValue nTotalLower
        coinLowestLarger := by
  induction rest generalizing vValue nTotalLower coinLowestLarger with
  | nil => rfl
  | cons output rest ih =>
    have passes := @passedBy_eq wallet nConfMine nConfTheirs fNonDenom output
    unfold considered at ih ⊢
    rw [List.filter_cons]
    by_cases meets : (meetsThreshold wallet nConfMine nConfTheirs output &&
        !(fNonDenom && isDenominatedAmount output.value)) = true
    · rw [if_pos meets]
      unfold SpendingWallet.scanCoins
      simp [ih]
    · rw [if_neg meets]
      rw [Bool.not_eq_true] at meets
      rw [SpendingWallet.scanCoins, passes, meets]
      exact ih _ _ _

theorem scanCoins_rest {rest vValue below : List COutput} {nTotalLower total : Int}
    {coinLowestLarger larger : Option COutput} (bounded : ∀ coin ∈ rest, coin.value < maxInt64)
    (above : ∀ coin ∈ coinLowestLarger, nTargetValue + CENT ≤ coin.value)
    (scanned : wallet.scanCoins nTargetValue nConfMine nConfTheirs fNonDenom
      (considered wallet nConfMine nConfTheirs fNonDenom rest) vValue nTotalLower
      coinLowestLarger = .sorted below total larger) :
    (∀ coin ∈ larger, nTargetValue + CENT ≤ coin.value) ∧
      (larger = none → coinLowestLarger = none ∧
        below = vValue ++ considered wallet nConfMine nConfTheirs fNonDenom rest) := by
  induction rest generalizing vValue nTotalLower coinLowestLarger with
  | nil =>
    cases scanned
    exact ⟨above, fun none' => ⟨none', (List.append_nil _).symm⟩⟩
  | cons output rest ih =>
    have later := fun coin member => bounded coin (List.mem_cons_of_mem output member)
    have passes := @passedBy_eq wallet nConfMine nConfTheirs fNonDenom output
    unfold considered at ih scanned ⊢
    rw [List.filter_cons] at scanned ⊢
    by_cases meets : (meetsThreshold wallet nConfMine nConfTheirs output &&
        !(fNonDenom && isDenominatedAmount output.value)) = true
    · rw [if_pos meets] at scanned ⊢
      rw [SpendingWallet.scanCoins, passes, meets, if_neg (by decide)] at scanned
      split at scanned
      · cases scanned
      · split at scanned
        · obtain ⟨largest, all⟩ := ih later above scanned
          refine ⟨largest, fun none' => ⟨(all none').1, ?_⟩⟩
          rw [(all none').2, List.append_assoc, List.singleton_append]
        · rename_i high
          split at scanned
          · obtain ⟨largest, all⟩ := ih later (by
              intro coin same
              rw [← Option.mem_some_iff.mp same]
              exact not_lt.mp high) scanned
            exact ⟨largest, fun none' => absurd (all none').1 (Option.some_ne_none output)⟩
          · rename_i notLower
            obtain ⟨largest, all⟩ := ih later above scanned
            refine ⟨largest, fun none' => ?_⟩
            rw [(all none').1] at notLower
            exact absurd (bounded output List.mem_cons_self) notLower
    · rw [if_neg meets] at scanned ⊢
      exact ih later above scanned

structure Scanned (coins : List COutput) (nTargetValue : Int) (below : List COutput)
    (nTotalLower : Int) (larger : Option COutput) : Prop where
  sorted : Sorted coins nTargetValue below nTotalLower larger
  above : ∀ coin ∈ larger, nTargetValue + CENT ≤ coin.value
  all : larger = none → nTotalLower = worth COutput.value coins

variable {insecureRand : Nat → Nat → Nat → Bool} {coins below : List COutput}
variable {larger : Option COutput} {nTotalLower : Int}

theorem tryScan_noDust {ret : List COutput × Int}
    (scanned : Scanned coins nTargetValue below nTotalLower larger)
    (nonnegative : ∀ coin ∈ coins, 0 ≤ coin.value)
    (enough : nTargetValue + CENT ≤ worth COutput.value coins)
    (selected : tryScan insecureRand nTargetValue none (.sorted below nTotalLower larger) =
      some ret) : NoDust nTargetValue ret.2 := by
  unfold tryScan at selected
  dsimp only at selected
  split at selected
  · rename_i met
    cases selected
    rw [gatherAll_worth, scanned.sorted.total]
    exact .inl met
  · split at selected
    · cases larger with
      | none => cases selected
      | some coin =>
        cases selected
        rw [gatherAll_worth, worth_cons, worth_nil, Int.add_zero]
        exact .inr (scanned.above coin rfl)
    · cases selected
      exact solveSubsetSum_noDust scanned.sorted.total
        (fun coin member => nonnegative coin (scanned.sorted.within coin member)) scanned.above
        (by omega) fun none' => scanned.all none' ▸ enough

theorem tryScan_none (scanned : Scanned coins nTargetValue below nTotalLower larger)
    (selected : tryScan insecureRand nTargetValue none (.sorted below nTotalLower larger) = none) :
    worth COutput.value coins < nTargetValue := by
  unfold tryScan at selected
  dsimp only at selected
  split at selected
  · cases selected
  · split at selected
    · rename_i less
      cases larger with
      | none => rw [← scanned.all rfl]; exact less
      | some coin => cases selected
    · cases selected

variable {draws : MinConfDraws} {vCoins : List COutput}

theorem arranged_perm (draws : MinConfDraws) (vCoins : List COutput) :
    (arranged draws vCoins).Perm vCoins :=
  (List.perm_insertionSort _ _).trans (draws.randomShuffle.perm vCoins)

theorem considered_perm (draws : MinConfDraws) (vCoins : List COutput) :
    (considered wallet nConfMine nConfTheirs fNonDenom (arranged draws vCoins)).Perm
      (considered wallet nConfMine nConfTheirs fNonDenom vCoins) :=
  (arranged_perm draws vCoins).filter _

section Pass
variable (distinct : (vCoins.map COutput.coin).Nodup)
  (range : ∀ coin ∈ vCoins, 0 ≤ coin.value ∧ coin.value < maxInt64)
include distinct range

theorem scan_cases :
    (∃ coin, wallet.scanCoins nTargetValue nConfMine nConfTheirs fNonDenom
        (arranged draws vCoins) [] 0 none = .exact coin ∧
      coin ∈ considered wallet nConfMine nConfTheirs fNonDenom vCoins ∧
      coin.value = nTargetValue) ∨
    ∃ below nTotalLower larger, wallet.scanCoins nTargetValue nConfMine nConfTheirs fNonDenom
        (arranged draws vCoins) [] 0 none = .sorted below nTotalLower larger ∧
      Scanned (considered wallet nConfMine nConfTheirs fNonDenom vCoins) nTargetValue below
        nTotalLower larger := by
  have same := @considered_perm wallet nConfMine nConfTheirs fNonDenom draws vCoins
  have found := @scanCoins_found (considered wallet nConfMine nConfTheirs fNonDenom vCoins)
    nTargetValue none 0 wallet nConfMine nConfTheirs fNonDenom
    (considered wallet nConfMine nConfTheirs fNonDenom (arranged draws vCoins)) []
    ⟨List.nodup_nil, fun _ member => absurd member List.not_mem_nil, rfl,
      fun _ member => absurd member (Option.not_mem_none _)⟩
    ((same.map COutput.coin).nodup_iff.mpr
      (distinct.sublist (List.filter_sublist.map COutput.coin)))
    fun _ member => same.mem_iff.mp member
  have bounded : ∀ coin ∈ arranged draws vCoins, coin.value < maxInt64 := fun coin member =>
    (range coin ((arranged_perm draws vCoins).mem_iff.mp member)).2
  rw [← scanCoins_considered] at found
  cases scanned : wallet.scanCoins nTargetValue nConfMine nConfTheirs fNonDenom
      (arranged draws vCoins) [] 0 none with
  | exact coin =>
    rw [scanned] at found
    exact .inl ⟨coin, rfl, found⟩
  | sorted below nTotalLower larger =>
    rw [scanned] at found
    rw [scanCoins_considered] at scanned
    obtain ⟨above, all⟩ := scanCoins_rest bounded
      (fun _ member => absurd member (Option.not_mem_none _)) scanned
    refine .inr ⟨below, nTotalLower, larger, rfl, found, above, fun none' => ?_⟩
    rw [← worth_perm same, ← found.total, (all none').2, List.nil_append]

theorem passRet_some {ret : List COutput × Int}
    (selected : passRet wallet draws nTargetValue nConfMine nConfTheirs vCoins fNonDenom =
      some ret) :
    Covers (considered wallet nConfMine nConfTheirs fNonDenom vCoins) nTargetValue ret ∧
      (nTargetValue + CENT ≤
          worth COutput.value (considered wallet nConfMine nConfTheirs fNonDenom vCoins) →
        NoDust nTargetValue ret.2) := by
  have nonnegative : ∀ coin ∈ considered wallet nConfMine nConfTheirs fNonDenom vCoins,
      0 ≤ coin.value := fun coin member => (range coin (List.mem_of_mem_filter member)).1
  unfold passRet at selected
  rcases @scan_cases wallet nTargetValue nConfMine nConfTheirs fNonDenom draws vCoins distinct
    range with ⟨coin, scanned, member, met⟩ | ⟨below, nTotalLower, larger, scanned, found⟩
  · rw [scanned] at selected
    cases selected
    refine ⟨single_covers member (le_of_eq met.symm), fun _ => ?_⟩
    rw [gatherAll_worth, worth_cons, worth_nil, Int.add_zero]
    exact .inl met
  · rw [scanned] at selected
    refine ⟨?_, fun enough => tryScan_noDust found nonnegative enough selected⟩
    refine @tryScan_covers _ _ _ none (.sorted below nTotalLower larger) _ found.sorted ?_ selected
    intro nothing
    cases nothing

theorem passRet_isSome_iff :
    (passRet wallet draws nTargetValue nConfMine nConfTheirs vCoins fNonDenom).isSome = true ↔
      nTargetValue ≤
        worth COutput.value (considered wallet nConfMine nConfTheirs fNonDenom vCoins) := by
  constructor
  · intro selects
    obtain ⟨ret, selected⟩ := Option.isSome_iff_exists.mp selects
    have covers := (passRet_some distinct range selected).1
    exact covers.covered.trans (covers.chosen.bounded fun coin member =>
      (range coin (List.mem_of_mem_filter member)).1)
  · intro enough
    by_contra refuses
    have selected := Option.not_isSome_iff_eq_none.mp refuses
    unfold passRet at selected
    rcases @scan_cases wallet nTargetValue nConfMine nConfTheirs fNonDenom draws vCoins distinct
      range with ⟨coin, scanned, -⟩ | ⟨below, nTotalLower, larger, scanned, found⟩
    · rw [scanned] at selected
      cases selected
    · rw [scanned] at selected
      exact absurd (tryScan_none found selected) (not_lt.mpr enough)

end Pass

theorem considered_within (fNonDenom : Bool) :
    (considered wallet nConfMine nConfTheirs fNonDenom vCoins).Sublist
      (vCoins.filter (meetsThreshold wallet nConfMine nConfTheirs)) := by
  unfold considered
  rw [← List.filter_filter]
  exact List.filter_sublist.filter _

theorem considered_all :
    considered wallet nConfMine nConfTheirs false vCoins =
      vCoins.filter (meetsThreshold wallet nConfMine nConfTheirs) := by
  unfold considered
  congr 1
  funext output
  rw [Bool.false_and, Bool.not_false, Bool.and_true]

end Passes

/-- A selection is found where the coins that meet the threshold come to the target. It is of
    such coins, each taken once, and what goes over the target is nothing or a cent or more
    where the coins of the last pass come to a cent over the target. The values of the coins
    are those of checked transactions: neither negative nor beyond all amounts. -/
theorem selectCoinsMinConf_exact (wallet : SpendingWallet) (draws : MinConfDraws)
    (nTargetValue nConfMine nConfTheirs : Int) (vCoins : List COutput)
    (distinct : (vCoins.map COutput.coin).Nodup)
    (range : ∀ coin ∈ vCoins, 0 ≤ coin.value ∧ coin.value < maxInt64) :
    ((wallet.selectCoinsMinConf draws nTargetValue nConfMine nConfTheirs vCoins).isSome = true ↔
      nTargetValue ≤
        worth COutput.value (vCoins.filter (meetsThreshold wallet nConfMine nConfTheirs))) ∧
    ∀ ret, wallet.selectCoinsMinConf draws nTargetValue nConfMine nConfTheirs vCoins = some ret →
      Covers (vCoins.filter (meetsThreshold wallet nConfMine nConfTheirs)) nTargetValue ret ∧
      (nTargetValue + CENT ≤ worth COutput.value
          (lastConsidered wallet draws nTargetValue nConfMine nConfTheirs vCoins) →
        NoDust nTargetValue ret.2) := by
  have within := fun fNonDenom => @considered_within wallet nConfMine nConfTheirs vCoins fNonDenom
  have wider : ∀ {ret fNonDenom},
      Covers (considered wallet nConfMine nConfTheirs fNonDenom vCoins) nTargetValue ret →
      Covers (vCoins.filter (meetsThreshold wallet nConfMine nConfTheirs)) nTargetValue ret :=
    fun covers => ⟨covers.chosen.mono fun _ member => (within _).subset member, covers.covered⟩
  rw [selectCoinsMinConf_passes]
  unfold lastConsidered
  cases first : passRet wallet draws nTargetValue nConfMine nConfTheirs vCoins true with
  | some taken =>
    obtain ⟨covers, clean⟩ := passRet_some distinct range first
    have enough := (wider covers).covered.trans ((wider covers).chosen.bounded fun coin member =>
      (range coin (List.mem_of_mem_filter member)).1)
    refine ⟨⟨fun _ => enough, fun _ => rfl⟩, ?_⟩
    intro ret selected
    cases selected
    exact ⟨wider covers, clean⟩
  | none =>
    rw [Option.none_or, ← considered_all]
    refine ⟨passRet_isSome_iff distinct range, ?_⟩
    intro ret selected
    exact passRet_some distinct range selected

def quietWallet : SpendingWallet where
  mapWallet := ⟨[], List.Pairwise.nil⟩
  txHash _ := 0
  keyed := by simp
  sized := by simp
  checkFinalTx _ := true
  isTrusted _ := true
  getBlocksToMaturity _ := 0
  getDepthInMainChain _ _ := 10
  inMempool _ := false
  isFromMe _ := false
  isMine _ := ISMINE_SPENDABLE
  isSpent _ _ := false
  isLockedCoin _ _ := false
  getInputObfuscationRounds _ := 0
  fMasterNode := false
  nZeromintPercentage := 10
  bSpendZeroConfChange := false

def threeAndFour : List COutput :=
  let tx := CWalletTx.ofTransaction
    ⟨1, [], [⟨3 * CENT, [0xac], -10⟩, ⟨4 * CENT, [0xac], -10⟩], 0⟩
  [⟨7, tx, 0, 10, true⟩, ⟨7, tx, 1, 10, true⟩]

theorem five_cents_selected : ∃ ret,
    quietWallet.selectCoinsMinConf ⟨Reorder.same, fun _ _ _ => false⟩ (5 * CENT) 1 6 threeAndFour =
      some ret ∧ NoDust (5 * CENT) ret.2 := by
  have distinct : (threeAndFour.map COutput.coin).Nodup := by decide
  have range : ∀ coin ∈ threeAndFour, 0 ≤ coin.value ∧ coin.value < maxInt64 := by decide
  obtain ⟨found, clean⟩ := selectCoinsMinConf_exact quietWallet
    ⟨Reorder.same, fun _ _ _ => false⟩ (5 * CENT) 1 6 threeAndFour distinct range
  obtain ⟨ret, selected⟩ := Option.isSome_iff_exists.mp (found.mpr (by decide))
  refine ⟨ret, selected, (clean ret selected).2 ?_⟩
  decide

end OxidSelectionExcess
