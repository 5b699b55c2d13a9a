import Oxid.AccumulatorWitness

/-!
The coins of a generated witness against those of its accumulator. Both start from the
checkpoint for the blocks below the mint's ten; the witness leaves the coin out by its
value.
-/
namespace OxidWitnessCoins
open OxidPrimitives OxidChainParams OxidNode OxidZerocoin OxidConnectBlock OxidChainRun
open OxidAccumulators OxidCheckpointChain OxidAccumulatorWitness

section Counting

variable {call : WitnessCall} {coin : PublicCoin} {database : Nat → AccumulatorValues}
variable {coins : List PublicCoin} {nHeightMintAdded nHeight : Int} {machinery : Machinery}
variable {invalid : InvalidMaps} {fFilterInvalid : Bool}

theorem pubcoinsOfOutputs_denominations {node : Node} {txid : Uint256} {vout : List CTxOut}
    {i : Nat}
    (read : pubcoinsOfOutputs machinery node.params invalid fFilterInvalid txid vout i = some coins)
    :
    mintsOfOutputs machinery node fFilterInvalid invalid txid vout i =
      (coins.map PublicCoin.denomination, true) := by
  induction vout generalizing i coins with
  | nil =>
    cases read
    rfl
  | cons txOut rest ih =>
    unfold pubcoinsOfOutputs at read
    unfold mintsOfOutputs
    split at read
    · rename_i filtered
      cases read
      rw [if_pos filtered]
      rfl
    · rename_i kept
      rw [if_neg kept]
      split at read
      · rename_i isMint
        rw [if_pos isMint]
        cases decoded : txOutToPublicCoin machinery.zerocoin txOut with
        | none =>
          rw [decoded] at read
          cases read
        | some pubCoin =>
          rw [decoded] at read
          obtain ⟨later, tail, rfl⟩ := Option.map_eq_some_iff.mp read
          dsimp only
          rw [ih tail]
          rfl
      · rename_i other
        rw [if_neg other]
        exact ih read

theorem blockToPubcoinList_denominations {node : Node} {vtx : List CTransaction}
    (read : blockToPubcoinList machinery node.params invalid fFilterInvalid vtx = some coins) :
    blockToZerocoinMintList machinery node fFilterInvalid invalid vtx =
      coins.map PublicCoin.denomination := by
  induction vtx generalizing coins with
  | nil =>
    cases read
    rfl
  | cons tx rest ih =>
    unfold blockToPubcoinList at read
    unfold blockToZerocoinMintList
    split at read
    · rename_i skipped
      rw [if_pos skipped]
      exact ih read
    · rename_i counted
      rw [if_neg counted]
      split at read
      · cases read
      · rename_i mints outputs
        obtain ⟨later, tail, rfl⟩ := Option.map_eq_some_iff.mp read
        rw [pubcoinsOfOutputs_denominations outputs, ih tail, List.map_append]

theorem witnessValues_unlisted
    (unlisted : (coins.map PublicCoin.denomination).contains coin.denomination = false) :
    witnessValues coin nHeightMintAdded nHeight coins = [] := by
  unfold witnessValues
  rw [List.map_eq_nil_iff, List.filter_eq_nil_iff]
  intro pubcoin member
  have other : pubcoin.denomination ≠ coin.denomination := by
    intro same
    have listed : coin.denomination ∈ coins.map PublicCoin.denomination :=
      List.mem_map.mpr ⟨pubcoin, member, same⟩
    rw [← List.contains_iff_mem, unlisted] at listed
    cases listed
  simp [other]

theorem addedAt_started (kept : CheckpointedNode call database) {nHeightMintAdded : Int}
    {height : Nat} (started : call.node.params.nZerocoinStartHeight ≤ height) :
    addedAt call coin nHeightMintAdded height = witnessValues coin nHeightMintAdded height
      (mintsAt call.machinery call.node call.invalid true height) := by
  have repaired := kept.settled.repaired
  unfold addedAt mintsAt
  rw [if_neg (by omega)]
  cases here : call.node.chainActive[height]? with
  | none => rfl
  | some pindex =>
    have place := kept.chain.placed height pindex here
    rw [Option.bind_some, Option.bind_some]
    unfold pubcoinsToAdd
    rw [place]
    cases read : pubcoinsOf call.machinery call.node call.invalid true pindex with
    | none =>
      split
      · rfl
      · rfl
    | some coins =>
      split
      · rfl
      · rename_i unlisted
        obtain ⟨block, stored, listed⟩ := Option.bind_eq_some_iff.mp read
        have counted := kept.listed height pindex block here stored
        rw [decide_eq_true (by omega), blockToPubcoinList_denominations listed] at counted
        rw [counted] at unlisted
        exact (witnessValues_unlisted (by simpa using unlisted)).symm

theorem coinsOf_cons (denom : CoinDenomination) (other : PublicCoin) (rest : List PublicCoin) :
    coinsOf denom (other :: rest) =
      if other.denomination = denom then other.value :: coinsOf denom rest
      else coinsOf denom rest := by
  unfold coinsOf
  by_cases same : other.denomination = denom
  · simp [same]
  · simp [same]

theorem witnessValues_cons (nHeightMintAdded nHeight : Int) (other : PublicCoin)
    (rest : List PublicCoin) :
    witnessValues coin nHeightMintAdded nHeight (other :: rest) =
      if other.denomination = coin.denomination ∧ ¬ (nHeight = nHeightMintAdded ∧ other = coin)
      then other.value :: witnessValues coin nHeightMintAdded nHeight rest
      else witnessValues coin nHeightMintAdded nHeight rest := by
  have whole : other.denomination = coin.denomination →
      (other = coin ↔ other.value = coin.value) := by
    intro denom
    cases other
    cases coin
    simp only [PublicCoin.mk.injEq] at denom ⊢
    exact and_iff_left denom
  unfold witnessValues
  by_cases denom : other.denomination = coin.denomination
  · by_cases own : nHeight = nHeightMintAdded ∧ other.value = coin.value
    · simp [denom, whole denom, own]
    · have apart : nHeight = nHeightMintAdded → ¬ other.value = coin.value :=
        fun here same => own ⟨here, same⟩
      by_cases here : nHeight = nHeightMintAdded
      · simp [denom, whole denom, here, apart here]
      · simp [denom, here]
  · simp [denom]

theorem witnessValues_elsewhere (elsewhere : nHeight ≠ nHeightMintAdded) (coins : List PublicCoin) :
    witnessValues coin nHeightMintAdded nHeight coins = coinsOf coin.denomination coins := by
  induction coins with
  | nil => rfl
  | cons other rest ih =>
    rw [witnessValues_cons, coinsOf_cons, ih]
    simp [elsewhere]

theorem witnessValues_own (nHeight : Int) (coins : List PublicCoin) :
    (coinsOf coin.denomination coins : Multiset Int) =
      (witnessValues coin nHeight nHeight coins : Multiset Int) +
        Multiset.replicate (coins.count coin) coin.value := by
  induction coins with
  | nil => rfl
  | cons other rest ih =>
    rw [coinsOf_cons, witnessValues_cons]
    by_cases same : other = coin
    · subst same
      rw [if_pos rfl, if_neg (by simp), List.count_cons_self, Multiset.replicate_succ,
        Multiset.add_cons, ← ih]
      rfl
    · rw [List.count_cons_of_ne same]
      by_cases denom : other.denomination = coin.denomination
      · rw [if_pos denom, if_pos ⟨denom, fun own => same own.2⟩, ← Multiset.cons_coe,
          ← Multiset.cons_coe, Multiset.cons_add, ih]
      · rw [if_neg denom, if_neg (fun own => denom own.1), ih]

theorem mintsBetween_added (kept : CheckpointedNode call database) {nHeightMintAdded lowest : Nat}
    (started : call.node.params.nZerocoinStartHeight ≤ lowest) (count : Nat) :
    (coinsOf coin.denomination (mintsBetween call.machinery call.node call.invalid
        (fun _ => true) lowest count) : Multiset Int) =
      (addedBetween call coin nHeightMintAdded lowest count : Multiset Int) +
        if lowest ≤ nHeightMintAdded ∧ nHeightMintAdded < lowest + count then
          Multiset.replicate ((mintsAt call.machinery call.node call.invalid true
            nHeightMintAdded).count coin) coin.value
        else 0 := by
  induction count generalizing lowest with
  | zero =>
    rw [if_neg (by omega)]
    rfl
  | succ count ih =>
    have later := @ih (lowest + 1) (by omega)
    rw [mintsBetween_succ, coinsOf_append, addedBetween_cons, ← Multiset.coe_add, ← Multiset.coe_add, later,
      addedAt_started kept started]
    by_cases here : lowest = nHeightMintAdded
    · subst here
      rw [if_neg (by omega), if_pos (by omega), witnessValues_own (lowest : Int), add_zero]
      exact add_right_comm _ _ _
    · have inside : lowest + 1 ≤ nHeightMintAdded ∧ nHeightMintAdded < lowest + 1 + count ↔
          lowest ≤ nHeightMintAdded ∧ nHeightMintAdded < lowest + (count + 1) := by
        omega
      rw [witnessValues_elsewhere (by omega), if_congr inside rfl rfl, add_assoc]

theorem mintsBetween_early (kept : CheckpointedNode call database) {nHeightMintAdded : Nat}
    (early : (nHeightMintAdded : Int) < call.node.params.nZerocoinStartHeight)
    (lowest count : Nat) :
    (coinsOf coin.denomination (mintsBetween call.machinery call.node call.invalid
        (fun _ => true) lowest count)).length ≤
      (addedBetween call coin nHeightMintAdded lowest count).length := by
  induction count generalizing lowest with
  | zero => exact Nat.le_refl _
  | succ count ih =>
    have later := ih (lowest + 1)
    rw [mintsBetween_succ, coinsOf_append, addedBetween_cons, List.length_append, List.length_append]
    by_cases started : call.node.params.nZerocoinStartHeight ≤ lowest
    · rw [addedAt_started kept started, witnessValues_elsewhere (by omega)]
      omega
    · have none' : mintsAt call.machinery call.node call.invalid true lowest = [] := by
        unfold mintsAt
        rw [if_pos (by omega)]
      rw [none']
      have nothing : (coinsOf coin.denomination []).length = 0 := rfl
      omega

end Counting

/-- The accumulator holds what the witness does and the coin, so the witness verifies. -/
structure WitnessFits (call : WitnessCall) (coin : PublicCoin) (generated : GeneratedWitness) :
    Prop where
  coins : accumulatedIn call.machinery call.node call.invalid coin.denomination
      generated.accumulator.pindex =
    accumulatedIn call.machinery call.node call.invalid coin.denomination generated.start.pindex +
      (generated.added : Multiset Int) + {coin.value}
  verifies : call.rules.increment (generated.witnessValue call.rules) coin.value =
    generated.accumulator.value

/-- The block of the coin's transaction on record mints it once, filtered mints left out. -/
def MintedOnce (call : WitnessCall) (coin : PublicCoin) : Prop :=
  ∃ nHeight : Nat, heightOfMint call coin = .ok nHeight ∧
    (mintsAt call.machinery call.node call.invalid true nHeight).count coin = 1

/-- The values of accumulator and witness are those of the coins they are said to hold. -/
structure Tracked (call : WitnessCall) (coin : PublicCoin) (generated : GeneratedWitness) :
    Prop where
  accumulator : Accumulates call.rules generated.accumulator.value
    (accumulatedIn call.machinery call.node call.invalid coin.denomination
      generated.accumulator.pindex)
  witness : Accumulates call.rules (generated.witnessValue call.rules)
    (accumulatedIn call.machinery call.node call.invalid coin.denomination generated.start.pindex +
      (generated.added : Multiset Int))

section Generating

variable {call : WitnessCall} {coin : PublicCoin} {database : Nat → AccumulatorValues}
variable {generated : GeneratedWitness} {nHeightMintAdded stop : Nat} {pindex : CBlockIndex}
variable {rules : AccumulatorRules} {coins : Multiset Int} {height : Nat}

theorem accumulates_added {value : Int} (accumulated : Accumulates rules value coins)
    (added : List Int) :
    Accumulates rules (added.foldl rules.increment value) (coins + (added : Multiset Int)) := by
  obtain ⟨order, same, result⟩ := accumulated
  refine ⟨order ++ added, ?_, ?_⟩
  · rw [← Multiset.coe_add, same]
  · rw [List.foldl_append, result]

theorem accumulates_unique {first second : Int}
    (commutes : ∀ value a b, rules.increment (rules.increment value a) b =
      rules.increment (rules.increment value b) a) (one : Accumulates rules first coins)
    (other : Accumulates rules second coins) :
    first = second := by
  obtain ⟨order, same, result⟩ := one
  obtain ⟨order', same', result'⟩ := other
  have right : RightCommutative rules.increment := ⟨commutes⟩
  have perm : order.Perm order' := Multiset.coe_eq_coe.mp (same.trans same'.symm)
  rw [result, result', perm.foldl_eq]

theorem denomination_listed {denom : CoinDenomination} (valid : denom ≠ .ZQ_ERROR) :
    denom ∈ zerocoinDenomList := by
  cases denom
  case ZQ_ERROR => exact absurd rfl valid
  all_goals decide

theorem accumulatedIn_at (kept : CheckpointedNode call database)
    (here : call.node.chainActive[height]? = some pindex) (tenth : height % 10 = 0)
    (denom : CoinDenomination) :
    accumulatedIn call.machinery call.node call.invalid denom (some pindex) =
      (coinsOf denom (acceptedMints call.machinery call.node call.invalid height) :
        Multiset Int) := by
  have tens : height / 10 * 10 = height := by omega
  unfold accumulatedIn
  dsimp only
  rw [kept.chain.placed height pindex here, Int.toNat_natCast, tens]

section
variable (kept : CheckpointedNode call database) (valid : coin.denomination ≠ .ZQ_ERROR)
  (here : call.node.chainActive[height]? = some pindex) (tenth : height % 10 = 0)
include kept valid here tenth

theorem read_at {value : Int}
    (read : call.zerocoinDB.accumulatorValues
      (parseChecksum pindex.nAccumulatorCheckpoint coin.denomination) = some value) :
    value = fromScratch call.rules call.machinery call.node call.invalid height
      coin.denomination := by
  have tens : height / 10 * 10 = height := by omega
  have carries := carried kept here
  rw [tens] at carries
  rw [carries] at read
  exact presents_read (kept.present height tenth (reached_height here)) (denomination_listed valid)
    read

theorem valueBeforeMint_at (nAccStartHeight : Int) :
    (valueBeforeMint call coin ⟨some pindex, nAccStartHeight⟩).value =
        fromScratch call.rules call.machinery call.node call.invalid height coin.denomination ∧
      accumulatedIn call.machinery call.node call.invalid coin.denomination
          (valueBeforeMint call coin ⟨some pindex, nAccStartHeight⟩).pindex =
        (coinsOf coin.denomination
          (acceptedMints call.machinery call.node call.invalid height) : Multiset Int) := by
  have positive := kept.positive height coin.denomination
  unfold valueBeforeMint
  dsimp only [Option.map_some, Option.getD_some]
  rw [getAccumulatorValue_stored kept]
  cases stored : call.zerocoinDB.accumulatorValues
      (parseChecksum pindex.nAccumulatorCheckpoint coin.denomination) with
  | some value =>
    have scratch := read_at kept valid here tenth stored
    dsimp only [Option.getD_some]
    rw [if_pos (by omega)]
    exact ⟨scratch, accumulatedIn_at kept here tenth coin.denomination⟩
  | none =>
    have unminted : acceptedMints call.machinery call.node call.invalid height = [] := by
      by_contra some'
      have tens : height / 10 * 10 = height := by omega
      have carries := carried kept here
      rw [tens] at carries
      rw [carries, presents_held (kept.present height tenth (reached_height here)) some'
        (denomination_listed valid)] at stored
      cases stored
    dsimp only [Option.getD_none]
    rw [if_neg (by omega), fromScratch_none unminted, unminted]
    exact ⟨rfl, rfl⟩

end

theorem checkpointBeforeMint_settled (settled : SettledHeights call.node.params)
    (nHeightMintAdded : Int) :
    checkpointBeforeMint call nHeightMintAdded =
      (findCheckpoint call.node.height nHeightMintAdded
        (entriesFrom call.node nHeightMintAdded)).map fun walked =>
          ⟨walked.2, nHeightMintAdded - nHeightMintAdded % 10⟩ := by
  have valid := settled.valid
  unfold checkpointBeforeMint
  dsimp only
  cases walked : findCheckpoint call.node.height nHeightMintAdded
      (entriesFrom call.node nHeightMintAdded) with
  | error ending => rfl
  | ok pair =>
    dsimp only
    rw [if_neg (by omega)]
    rfl

theorem walked_start {walk : Except Ending (CBlockIndex × Option CBlockIndex)}
    {nAccStartHeight : Int} {start : WitnessStart}
    (begun : (walk.map fun walked => (⟨walked.2, nAccStartHeight⟩ : WitnessStart)) = .ok start) :
    ∃ pindex, walk = .ok (pindex, start.pindex) ∧ start.nAccStartHeight = nAccStartHeight := by
  cases walk with
  | error ending => cases begun
  | ok pair =>
    cases begun
    exact ⟨pair.1, rfl, rfl⟩

structure Generated (call : WitnessCall) (coin : PublicCoin) (generated : GeneratedWitness)
    (nHeightMintAdded stop : Nat) : Prop where
  minted : heightOfMint call coin = .ok (nHeightMintAdded : Int)
  beyond : nHeightMintAdded < stop
  stops : StopsAt call coin nHeightMintAdded (nHeightMintAdded / 10 * 10) stop
    ⟨generated.start, []⟩ ⟨generated.accumulator, generated.added⟩
  start : ∃ pindex nAccStartHeight,
    call.node.chainActive[nHeightMintAdded / 10 * 10 + 10]? = some pindex ∧
      generated.start = valueBeforeMint call coin ⟨some pindex, nAccStartHeight⟩

theorem generate_generated (kept : CheckpointedNode call database)
    (required : 0 < call.nRequiredAccumulation) {nSecurityLevel random : Int}
    (returned : generateAccumulatorWitness call coin nSecurityLevel random = .ok generated) :
    ∃ nHeightMintAdded stop, Generated call coin generated nHeightMintAdded stop := by
  unfold generateAccumulatorWitness at returned
  cases minted : heightOfMint call coin with
  | error ending =>
    rw [minted] at returned
    cases returned
  | ok nHeight =>
    rw [minted] at returned
    dsimp only at returned
    cases begun : checkpointBeforeMint call nHeight with
    | error ending =>
      rw [begun] at returned
      cases returned
    | ok start =>
      rw [begun] at returned
      dsimp only at returned
      split at returned
      · cases returned
      · rename_i walked adding
        split at returned
        · cases returned
        · rename_i enough
          split at returned
          · cases returned
          · cases returned
            rw [checkpointBeforeMint_settled kept.settled] at begun
            obtain ⟨pindex, walk, starting⟩ := walked_start begun
            have natural : 0 ≤ nHeight := by
              by_contra negative
              unfold entriesFrom at walk
              rw [if_pos (by omega)] at walk
              cases walk
            obtain ⟨nHeightMintAdded, rfl⟩ := Int.eq_ofNat_of_zero_le natural
            have lowest : start.nAccStartHeight = (nHeightMintAdded / 10 * 10 : Nat) := by omega
            rw [lowest] at adding
            have placed := entriesFrom_placed kept.chain.placed (nHeightMintAdded / 10 * 10)
            have inside : ((nHeightMintAdded / 10 * 10 : Nat) : Int) ≤ heightStop call.node := by
              by_contra above
              have nothing := addPubcoins_beyond placed (by omega) adding
              rw [nothing] at enough
              exact enough required
            obtain ⟨stop, stops⟩ :=
              addPubcoins_stops kept (by omega) placed inside (.inl rfl) adding
            have further : nHeightMintAdded / 10 * 10 ≠ stop := by
              intro same
              have added := stops.added
              rw [← same, Nat.sub_self] at added
              rw [added] at enough
              exact enough required
            have order := stops.order
            have tenth := stops.tenth
            rcases findCheckpoint_spec (entriesFrom_placed kept.chain.placed nHeightMintAdded)
              (Nat.le_refl _) (by omega) walk with ⟨found, here⟩ | ⟨_, high⟩
            · refine ⟨nHeightMintAdded, stop, minted, by omega, stops, pindex,
                start.nAccStartHeight, here, ?_⟩
              rw [← found]
            · unfold heightStop at inside
              omega

theorem added_coin_iff (kept : CheckpointedNode call database)
    (minted : heightOfMint call coin = .ok (nHeightMintAdded : Int))
    (beyond : nHeightMintAdded < stop) :
    (coinsOf coin.denomination (mintsBetween call.machinery call.node call.invalid (fun _ => true)
        (nHeightMintAdded / 10 * 10) (stop - nHeightMintAdded / 10 * 10)) : Multiset Int) =
      (addedBetween call coin nHeightMintAdded (nHeightMintAdded / 10 * 10)
        (stop - nHeightMintAdded / 10 * 10) : Multiset Int) + {coin.value} ↔
    MintedOnce call coin := by
  have once : MintedOnce call coin ↔
      (mintsAt call.machinery call.node call.invalid true nHeightMintAdded).count coin = 1 := by
    constructor
    · rintro ⟨nHeight, named, one⟩
      rw [minted] at named
      have same : nHeightMintAdded = nHeight := Int.ofNat.inj (Except.ok.inj named)
      rw [same]
      exact one
    · exact fun one => ⟨nHeightMintAdded, minted, one⟩
  have tens := kept.settled.start
  rw [once]
  by_cases started : call.node.params.nZerocoinStartHeight ≤ nHeightMintAdded
  · have own := @mintsBetween_added call coin database kept nHeightMintAdded
      (nHeightMintAdded / 10 * 10) (by omega) (stop - nHeightMintAdded / 10 * 10)
    rw [own, if_pos (by omega), add_right_inj]
    constructor
    · intro same
      simpa using congrArg Multiset.card same
    · intro one
      rw [one, Multiset.replicate_one]
  · have none' : mintsAt call.machinery call.node call.invalid true nHeightMintAdded = [] := by
      unfold mintsAt
      rw [if_pos (by omega)]
    have fewer := @mintsBetween_early call coin database kept nHeightMintAdded
      (Int.not_le.mp started) (nHeightMintAdded / 10 * 10) (stop - nHeightMintAdded / 10 * 10)
    rw [none', List.count_nil]
    constructor
    · intro same
      have sizes := congrArg Multiset.card same
      rw [Multiset.card_add, Multiset.coe_card, Multiset.coe_card, Multiset.card_singleton] at sizes
      omega
    · intro absurd'
      omega

structure Anchored (call : WitnessCall) (coin : PublicCoin) (anchor : AccumulatorAt)
    (nHeight : Nat) : Prop where
  value : anchor.value =
    fromScratch call.rules call.machinery call.node call.invalid nHeight coin.denomination
  coins : accumulatedIn call.machinery call.node call.invalid coin.denomination anchor.pindex =
    (coinsOf coin.denomination (acceptedMints call.machinery call.node call.invalid nHeight) :
      Multiset Int)

theorem generated_anchored (kept : CheckpointedNode call database)
    (valid : coin.denomination ≠ .ZQ_ERROR)
    (done : Generated call coin generated nHeightMintAdded stop) :
    Anchored call coin generated.start (nHeightMintAdded / 10 * 10 + 10) ∧
      Anchored call coin generated.accumulator (stop + 10) := by
  have tenth := done.stops.tenth
  obtain ⟨pindex, nAccStartHeight, here, starting⟩ := done.start
  obtain ⟨later, above, named, read⟩ := done.stops.read
  dsimp only at named read
  obtain ⟨startValue, startCoins⟩ := valueBeforeMint_at kept valid here (by omega) nAccStartHeight
  have stopCoins := accumulatedIn_at kept above (by omega) coin.denomination
  constructor
  · rw [starting]
    exact ⟨startValue, startCoins⟩
  · rw [← named] at stopCoins
    exact ⟨read_at kept valid above (by omega) read, stopCoins⟩

theorem anchored_accumulates {anchor : AccumulatorAt} {nHeight : Nat}
    (anchored : Anchored call coin anchor nHeight) :
    Accumulates call.rules anchor.value
      (accumulatedIn call.machinery call.node call.invalid coin.denomination anchor.pindex) := by
  rw [anchored.value, anchored.coins]
  exact fromScratch_accumulates coin.denomination

section
variable (kept : CheckpointedNode call database) (valid : coin.denomination ≠ .ZQ_ERROR)
  (done : Generated call coin generated nHeightMintAdded stop)
include kept valid done

theorem generated_tracked : Tracked call coin generated := by
  obtain ⟨start, accumulator⟩ := generated_anchored kept valid done
  exact ⟨anchored_accumulates accumulator,
    accumulates_added (anchored_accumulates start) generated.added⟩

theorem generated_coins_iff :
    accumulatedIn call.machinery call.node call.invalid coin.denomination
          generated.accumulator.pindex =
        accumulatedIn call.machinery call.node call.invalid coin.denomination
            generated.start.pindex + (generated.added : Multiset Int) + {coin.value} ↔
      MintedOnce call coin := by
  obtain ⟨start, accumulator⟩ := generated_anchored kept valid done
  have added : generated.added = addedBetween call coin nHeightMintAdded
      (nHeightMintAdded / 10 * 10) (stop - nHeightMintAdded / 10 * 10) := done.stops.added
  rw [accumulator.coins, start.coins, acceptedMints_split kept.settled done.stops.order,
    coinsOf_append, ← Multiset.coe_add, add_assoc, add_right_inj, added]
  exact added_coin_iff kept done.minted done.beyond

end

end Generating

def coinBlock (copies nHeight : Nat) : CBlock :=
  { mintingBlock nHeight with
    vtx := [⟨1, [⟨⟨BitVec.ofNat 256 nHeight, 0⟩, [], 0⟩],
      List.replicate copies ⟨COIN, [OP_ZEROCOINMINT], -10⟩, 0⟩] }

def copiesAt (copies nHeight : Nat) : Nat :=
  if nHeight = 44000012 then copies
  else if nHeight = 44000013 ∨ nHeight = 44000014 then 1
  else 0

def coinCheckpoint (copies tens : Nat) : Uint256 :=
  if tens < 4400003 then 0 else getCheckpoint countingRules (ones (4 + copies))

def coinEntry (copies nHeight : Nat) : CBlockIndex :=
  { entryAt (coinCheckpoint copies) nHeight with
    vMintDenominationsInBlock := List.replicate (copiesAt copies nHeight) .ZQ_ONE }

def chainLength : Nat := 44000052

def coinNode (copies : Nat) : Node :=
  { syncingNode ((List.range chainLength).map (coinEntry copies)) with
    fTxIndex := true
    mapBlockIndex := fun hash =>
      if hash.toNat < chainLength then some (coinEntry copies hash.toNat) else none
    readBlockFromDisk := fun hash => some (coinBlock (copiesAt copies hash.toNat) hash.toNat) }

def coinCall (copies : Nat) : WitnessCall where
  rules := countingRules
  machinery := labelMachinery
  node := coinNode copies
  invalid := noneInvalid
  txIndex _ := ((coinBlock copies 44000012).vtx.head?).map fun tx => (44000012, tx)
  zerocoinDB := { CZerocoinDB.empty with
    coinMints := fun _ => some 1
    accumulatorValues := countingValues }
  mapAccumulatorValues _ := none
  nRequiredAccumulation := 2

def theCoin : PublicCoin := ⟨0, .ZQ_ONE⟩

section Samples

variable {copies : Nat}

theorem coinNode_entry {height : Nat} (inside : height < chainLength) :
    (coinNode copies).chainActive[height]? = some (coinEntry copies height) := by
  unfold coinNode syncingNode
  rw [List.getElem?_map, List.getElem?_range inside]
  rfl

theorem coinNode_inside {height : Nat} {pindex : CBlockIndex}
    (found : (coinNode copies).chainActive[height]? = some pindex) :
    height < chainLength ∧ pindex = coinEntry copies height := by
  have length : (coinNode copies).chainActive.length = chainLength := by
    unfold coinNode syncingNode
    rw [List.length_map, List.length_range]
  have inside : height < chainLength := by
    rw [← length]
    exact (List.getElem?_eq_some_iff.mp found).1
  rw [coinNode_entry inside] at found
  exact ⟨inside, (Option.some.inj found).symm⟩

theorem coinNode_at (height : Int) :
    (coinNode copies).at? height =
      if 0 ≤ height ∧ height < chainLength then some (coinEntry copies height.toNat) else none := by
  unfold Node.at?
  by_cases inside : 0 ≤ height ∧ height < chainLength
  · rw [if_neg (by omega), if_pos inside, coinNode_entry (by omega)]
  · rw [if_neg inside]
    split
    · rfl
    · cases found : (coinNode copies).chainActive[height.toNat]? with
      | none => rfl
      | some pindex =>
        have low := (coinNode_inside found).1
        omega

theorem coinNode_from {lowest count : Nat} (whole : lowest + count = chainLength) :
    entriesFrom (coinNode copies) lowest = (List.range' lowest count).map (coinEntry copies) := by
  unfold entriesFrom coinNode syncingNode
  rw [if_neg (by omega), Int.toNat_natCast, ← List.map_drop, List.range_eq_range',
    List.drop_range', show chainLength - lowest = count by omega]
  simp

theorem coinNode_height : (coinNode copies).height = 44000051 := by
  unfold Node.height coinNode syncingNode
  rw [List.length_map, List.length_range]
  rfl

def addsTwo : Except Ending Walked → Bool
  | .ok walked => decide (2 ≤ walked.added.length)
  | .error _ => false

theorem addsTwo_ok {walk : Except Ending Walked} (adds : addsTwo walk = true) :
    ∃ walked, walk = .ok walked ∧ 2 ≤ walked.added.length := by
  cases walk with
  | error ending => cases adds
  | ok walked => exact ⟨walked, rfl, of_decide_eq_true adds⟩

theorem generate_returns {call : WitnessCall} {coin : PublicCoin} {nSecurityLevel random : Int}
    {nHeightMintAdded : Int} {start : WitnessStart} {walked : Walked} {nMintsAdded : Nat}
    (minted : heightOfMint call coin = .ok nHeightMintAdded)
    (begun : checkpointBeforeMint call nHeightMintAdded = .ok start)
    (adding : addPubcoins call coin call.node.at? nHeightMintAdded start.nAccStartHeight
      (heightStop call.node) (randomSecurityLevel nSecurityLevel random)
      (entriesFrom call.node start.nAccStartHeight) 0 ⟨valueBeforeMint call coin start, []⟩ =
        .ok walked)
    (enough : ¬ walked.added.length < call.nRequiredAccumulation)
    (counted : countMints coin start.nAccStartHeight
      (entriesFrom call.node call.node.params.nZerocoinStartHeight) walked.added.length =
        .ok nMintsAdded) :
    generateAccumulatorWitness call coin nSecurityLevel random =
      .ok ⟨walked.accumulator, valueBeforeMint call coin start, walked.added, nMintsAdded⟩ := by
  unfold generateAccumulatorWitness
  rw [minted]
  dsimp only
  rw [begun]
  dsimp only
  rw [adding]
  dsimp only
  rw [if_neg enough, counted]

theorem coin_minted (copies : Nat) (some' : copies = 1 ∨ copies = 2) :
    heightOfMint (coinCall copies) theCoin = .ok (44000012 : Nat) := by
  rcases some' with rfl | rfl
  · decide +kernel
  · decide +kernel

def walkEnds : Except Ending (CBlockIndex × Option CBlockIndex) → Bool
  | .ok _ => true
  | .error _ => false

theorem coin_walk (some' : copies = 1 ∨ copies = 2) :
    walkEnds (findCheckpoint 44000051 (44000012 : Nat)
      ((List.range' 44000012 40).map (coinEntry copies))) = true := by
  rcases some' with rfl | rfl
  · decide +kernel
  · decide +kernel

theorem coin_adds (some' : copies = 1 ∨ copies = 2) :
    addsTwo (addPubcoins (coinCall copies) theCoin
      (fun (height : Int) =>
        if 0 ≤ height ∧ height < chainLength then some (coinEntry copies height.toNat) else none)
      (44000012 : Nat) 44000010 44000030 100
      ((List.range' 44000010 42).map (coinEntry copies)) 0
      ⟨valueBeforeMint (coinCall copies) theCoin ⟨some (coinEntry copies 44000020), 44000010⟩, []⟩) =
        true := by
  rcases some' with rfl | rfl
  · decide +kernel
  · decide +kernel

theorem countMints_ends {coin : PublicCoin} {nAccStartHeight : Int} {entries : List CBlockIndex}
    {pindex : CBlockIndex} (member : pindex ∈ entries) (above : ¬ pindex.nHeight < nAccStartHeight)
    (nMintsAdded : Nat) :
    ∃ counted, countMints coin nAccStartHeight entries nMintsAdded = .ok counted := by
  induction entries generalizing nMintsAdded with
  | nil => cases member
  | cons entry rest ih =>
    unfold countMints
    by_cases low : entry.nHeight < nAccStartHeight
    · rw [if_pos low]
      rcases List.mem_cons.mp member with same | later
      · exact absurd (same ▸ low) above
      · exact ih later _
    · rw [if_neg low]
      exact ⟨_, rfl⟩

theorem coinBelow_from {nHeight : Nat} (low : 20 ≤ nHeight) (high : nHeight < chainLength) :
    entriesFrom (below (coinNode copies) nHeight) ((nHeight : Int) - 20) =
      (List.range' (nHeight - 20) 20).map (coinEntry copies) := by
  unfold entriesFrom below coinNode syncingNode
  rw [if_neg (by omega), show ((nHeight : Int) - 20).toNat = nHeight - 20 by omega, ← List.map_take,
    ← List.map_drop, List.take_range, List.range_eq_range', List.drop_range',
    show min nHeight chainLength - (nHeight - 20) = 20 by omega]
  simp

theorem coinBelow_at {nHeight : Nat} (low : 20 ≤ nHeight) (high : nHeight < chainLength) :
    (below (coinNode copies) nHeight).at? ((nHeight : Int) - 1) =
      some (coinEntry copies (nHeight - 1)) := by
  rw [show (nHeight : Int) - 1 = (nHeight - 1 : Nat) by omega, below_at (by omega),
    coinNode_entry (by omega)]

theorem coin_calculated (some' : copies = 1 ∨ copies = 2) {tens : Nat} (low : 4400000 ≤ tens)
    (high : 10 * tens < chainLength) :
    checkpointOf (calculateAccumulatorCheckpoint countingRules labelMachinery
      (below (coinNode copies) (10 * tens)) noneInvalid (fun _ => false) (10 * tens : Nat)
        countingValues) = some (coinCheckpoint copies tens) := by
  have inside : 20 ≤ 10 * tens := by omega
  unfold calculateAccumulatorCheckpoint foldStart
  rw [coinBelow_at inside high, coinBelow_from inside high]
  have which : tens = 4400000 ∨ tens = 4400001 ∨ tens = 4400002 ∨ tens = 4400003 ∨
      tens = 4400004 ∨ tens = 4400005 := by
    unfold chainLength at high
    omega
  rcases some' with rfl | rfl
  · rcases which with rfl | rfl | rfl | rfl | rfl | rfl <;> decide +kernel
  · rcases which with rfl | rfl | rfl | rfl | rfl | rfl <;> decide +kernel

theorem coin_chain (some' : copies = 1 ∨ copies = 2) :
    CheckpointChain countingRules labelMachinery (coinNode copies) noneInvalid
      (fun _ => countingValues) := by
  constructor
  · intro height pindex found
    rw [(coinNode_inside found).2]
    rfl
  · intro pindex found
    rw [(coinNode_inside found).2]
    rfl
  · intro height previous pindex before found same
    rw [(coinNode_inside before).2, (coinNode_inside found).2]
    change coinCheckpoint copies ((height + 1) / 10) = coinCheckpoint copies (height / 10)
    have start : (coinNode copies).params.nZerocoinStartHeight = 44000000 := rfl
    unfold coinCheckpoint
    by_cases tenth : (height + 1) % 10 = 0
    · rw [if_pos (by omega), if_pos (by omega)]
    · rw [show (height + 1) / 10 = height / 10 by omega]
  · intro height pindex found started tenth
    have start : (coinNode copies).params.nZerocoinStartHeight = 44000000 := rfl
    obtain ⟨inside, same⟩ := coinNode_inside found
    obtain ⟨tens, rfl⟩ := Nat.dvd_of_mod_eq_zero tenth
    obtain ⟨values, result⟩ :=
      checkpointOf_some (@coin_calculated copies some' tens (by omega) inside)
    refine ⟨fun _ => false, values, ?_⟩
    rw [same, result]
    change Except.ok (coinCheckpoint copies tens, values) =
      Except.ok (coinCheckpoint copies (10 * tens / 10), values)
    rw [Nat.mul_div_cancel_left tens (by decide)]

theorem counting_presents {machinery : Machinery} {node : Node} {invalid : InvalidMaps}
    (nHeight : Nat) : Presents countingRules machinery node invalid countingValues nHeight := by
  constructor
  · intro _ denom _
    have value := @counting_fromScratch machinery node invalid nHeight denom
    unfold Counted at value
    unfold countingValues
    rw [counting_checksum, if_pos (by omega)]
    congr 1
    omega
  · intro _ value stored
    cases stored

theorem noneInvalid_valid (params : ChainParams) (out : COutPoint) (nHeight : Int) :
    validOutPoint params noneInvalid out nHeight = true := by
  unfold validOutPoint noneInvalid
  rw [Bool.and_false]
  rfl

theorem coinOutputs_mints (fFilterInvalid : Bool) (txid : Uint256) (count i : Nat) :
    mintsOfOutputs labelMachinery (coinNode copies) fFilterInvalid noneInvalid txid
      (List.replicate count ⟨COIN, [OP_ZEROCOINMINT], -10⟩) i =
        (List.replicate count .ZQ_ONE, true) := by
  induction count generalizing i with
  | zero => rfl
  | succ count ih =>
    rw [List.replicate_succ, List.replicate_succ]
    unfold mintsOfOutputs
    rw [noneInvalid_valid, Bool.not_true, Bool.and_false, ih]
    rfl

theorem coinBlock_mints (fFilterInvalid : Bool) (count nHeight : Nat) :
    blockToZerocoinMintList labelMachinery (coinNode copies) fFilterInvalid noneInvalid
      (coinBlock count nHeight).vtx = List.replicate count .ZQ_ONE := by
  cases count with
  | zero => rfl
  | succ count =>
    have minting : CTransaction.isZerocoinMint ⟨1, [⟨⟨BitVec.ofNat 256 nHeight, 0⟩, [], 0⟩],
        List.replicate (count + 1) ⟨COIN, [OP_ZEROCOINMINT], -10⟩, 0⟩ = true := by
      rw [List.replicate_succ]
      rfl
    unfold coinBlock blockToZerocoinMintList
    dsimp only
    rw [minting, coinOutputs_mints]
    simp [noneInvalid_valid, blockToZerocoinMintList]

theorem coinEntry_hash {copies height : Nat} (inside : height < chainLength) :
    (coinEntry copies height).hash.toNat = height := by
  change (BitVec.ofNat 256 height).toNat = height
  unfold chainLength at inside
  rw [BitVec.toNat_ofNat]
  omega

theorem coin_kept (some' : copies = 1 ∨ copies = 2) :
    CheckpointedNode (coinCall copies) fun _ => countingValues := by
  constructor
  · exact networks_settled.1
  · exact coin_chain some'
  · exact fun height _ _ => counting_presents (height - 10)
  · intro height pindex block found stored
    obtain ⟨inside, same⟩ := coinNode_inside found
    have read : some (coinBlock (copiesAt copies pindex.hash.toNat) pindex.hash.toNat) =
      some block := stored
    cases read
    rw [same, coinEntry_hash inside]
    exact (coinBlock_mints _ _ height).symm
  · exact fun height _ _ => counting_presents height
  · exact fun height denom => (counting_fromScratch height denom).1
  · intro _ _ memory
    cases memory

theorem counting_commutes (value a b : Int) :
    countingRules.increment (countingRules.increment value a) b =
      countingRules.increment (countingRules.increment value b) a := rfl

theorem coin_begins (some' : copies = 1 ∨ copies = 2) :
    checkpointBeforeMint (coinCall copies) (44000012 : Nat) =
      .ok ⟨some (coinEntry copies 44000020), 44000010⟩ := by
  have walks := coin_walk some'
  have placed := entriesFrom_placed (coin_kept some').chain.placed 44000012
  have entries : entriesFrom (coinCall copies).node (44000012 : Nat) =
      (List.range' 44000012 40).map (coinEntry copies) := @coinNode_from copies 44000012 40 rfl
  rw [checkpointBeforeMint_settled (coin_kept some').settled,
    show (coinCall copies).node.height = 44000051 from coinNode_height, entries]
  rw [entries] at placed
  generalize (List.range' 44000012 40).map (coinEntry copies) = entries at walks placed
  cases walked : findCheckpoint 44000051 (44000012 : Nat) entries with
  | error ending =>
    rw [walked] at walks
    cases walks
  | ok pair =>
    obtain ⟨pindex, found⟩ := pair
    rcases findCheckpoint_spec placed (Nat.le_refl _) (by decide) walked with
      ⟨same, here⟩ | ⟨_, high⟩
    · have entry := (coinNode_inside here).2
      rw [same, entry]
      rfl
    · exact absurd high (by decide)

theorem coin_returns (some' : copies = 1 ∨ copies = 2) :
    ∃ generated, generateAccumulatorWitness (coinCall copies) theCoin 100 0 = .ok generated := by
  have adds := coin_adds some'
  have at' : (coinCall copies).node.at? = fun (height : Int) =>
      if 0 ≤ height ∧ height < chainLength then some (coinEntry copies height.toNat) else none :=
    funext coinNode_at
  have entries : entriesFrom (coinCall copies).node 44000010 =
      (List.range' 44000010 42).map (coinEntry copies) := @coinNode_from copies 44000010 42 rfl
  have first : entriesFrom (coinCall copies).node
        (coinCall copies).node.params.nZerocoinStartHeight =
      (List.range' 44000000 52).map (coinEntry copies) := @coinNode_from copies 44000000 52 rfl
  have stop : heightStop (coinCall copies).node = 44000030 := by
    unfold heightStop
    rw [show (coinCall copies).node.height = 44000051 from coinNode_height]
    rfl
  have level : randomSecurityLevel 100 0 = 100 := rfl
  have member : coinEntry copies 44000010 ∈ (List.range' 44000000 52).map (coinEntry copies) :=
    List.mem_map_of_mem (List.mem_range'_1.mpr ⟨by decide, by decide⟩)
  rw [← at', ← entries, ← stop, ← level] at adds
  rw [← first] at member
  obtain ⟨walked, adding, enough⟩ := addsTwo_ok adds
  obtain ⟨counted, counts⟩ := @countMints_ends theCoin 44000010 _ _ member (Int.lt_irrefl _)
    walked.added.length
  exact ⟨_, generate_returns (coin_minted copies some') (coin_begins some') adding
    (Nat.not_lt.mpr enough) counts⟩

theorem coin_once (some' : copies = 1 ∨ copies = 2) :
    MintedOnce (coinCall copies) theCoin ↔ copies = 1 := by
  have counts : (mintsAt labelMachinery (coinNode copies) noneInvalid true 44000012).count theCoin =
      copies := by
    have started : ¬ ((44000012 : Nat) : Int) < (coinNode copies).params.nZerocoinStartHeight :=
      show ¬ ((44000012 : Nat) : Int) < 44000000 by decide
    unfold mintsAt
    rw [if_neg started, coinNode_entry (by decide), Option.bind_some]
    rcases some' with rfl | rfl
    · decide +kernel
    · decide +kernel
  unfold MintedOnce
  rw [coin_minted copies some']
  constructor
  · rintro ⟨nHeight, named, one⟩
    have same : (44000012 : Nat) = nHeight := Int.ofNat.inj (Except.ok.inj named)
    rw [← same] at one
    exact counts.symm.trans one
  · intro one
    exact ⟨44000012, rfl, counts.trans one⟩

end Samples

end OxidWitnessCoins
