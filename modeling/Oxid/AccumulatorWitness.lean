import Oxid.CheckpointChain

/-!
`GenerateAccumulatorWitness`. The witness starts from the first checkpoint after the mint's
block and takes the mints from there to where it stops; the accumulator is read from the
checkpoint ten blocks above. A value that was read is kept with the block whose checkpoint
named it. The random number is an argument.
-/
namespace OxidAccumulatorWitness
open OxidPrimitives OxidChainParams OxidNode OxidZerocoin OxidConnectBlock
open OxidAccumulators OxidCheckpointChain

/-- A value, and the block whose checkpoint it was read for, if it is not the initial one. -/
structure AccumulatorAt where
  value : Int
  pindex : Option CBlockIndex

structure WitnessStart where
  pindex : Option CBlockIndex
  nAccStartHeight : Int

structure Walked where
  accumulator : AccumulatorAt
  added : List Int

structure GeneratedWitness where
  accumulator : AccumulatorAt
  start : AccumulatorAt
  added : List Int
  nMintsAdded : Nat

def GeneratedWitness.witnessValue (rules : AccumulatorRules) (generated : GeneratedWitness) : Int :=
  generated.added.foldl rules.increment generated.start.value

/-- What a call reads: the chain, the invalid maps, the index, the database and the
    checksums in memory. -/
structure WitnessCall where
  rules : AccumulatorRules
  machinery : Machinery
  node : Node
  invalid : InvalidMaps
  txIndex : TxIndex
  zerocoinDB : CZerocoinDB
  mapAccumulatorValues : AccumulatorValues
  nRequiredAccumulation : Nat

section Calls

variable (call : WitnessCall) (coin : PublicCoin)

def getTransactionQuick (hash : Uint256) : Lookup :=
  match call.node.mempool hash with
  | some tx => ⟨some tx, 0⟩
  | none =>
    if call.node.fTxIndex then
      match call.txIndex hash with
      | none => ⟨none, 0⟩
      | some (hashBlock, tx) =>
        if call.machinery.txHash tx == hash then ⟨some tx, hashBlock⟩ else ⟨none, hashBlock⟩
    else ⟨none, 0⟩

def heightOfMint : Except Ending Int :=
  match call.zerocoinDB.coinMints coin.value with
  | none => .error .failed
  | some txid =>
    let lookup := getTransactionQuick call txid
    match lookup.found with
    | none => .error .failed
    | some _ =>
      match call.node.mapBlockIndex lookup.hashBlock with
      | none => .error .nullPointer
      | some pindex => .ok pindex.nHeight

/-- The walk to the next checkpoint block above the mint's, if it is met two blocks below the tip
    or earlier. -/
def findCheckpoint (nHeightTip nHeightMintAdded : Int) :
    List CBlockIndex → Except Ending (CBlockIndex × Option CBlockIndex)
  | [] => .error .nullPointer
  | pindex :: rest =>
    if pindex.nHeight < nHeightTip - 1 then
      if pindex.nHeight = nHeightMintAdded then findCheckpoint nHeightTip nHeightMintAdded rest
      else if pindex.nHeight % 10 = 0 then .ok (pindex, some pindex)
      else findCheckpoint nHeightTip nHeightMintAdded rest
    else .ok (pindex, none)

def checkpointBeforeMint (nHeightMintAdded : Int) : Except Ending WitnessStart :=
  let params := call.node.params
  match findCheckpoint call.node.height nHeightMintAdded
      (entriesFrom call.node nHeightMintAdded) with
  | .error ending => .error ending
  | .ok (pindex, found) =>
    if pindex.nHeight < params.nBlockRecalculateAccumulators - 10 ∧
        params.nBlockLastGoodCheckpoint < pindex.nHeight then
      match call.node.at? params.nBlockLastGoodCheckpoint with
      | none => .error .nullPointer
      | some lastGood => .ok ⟨some lastGood, params.nBlockLastGoodCheckpoint - 10⟩
    else .ok ⟨found, nHeightMintAdded - nHeightMintAdded % 10⟩

def getAccumulatorValueFromChecksum (nChecksum : UInt32) : Int :=
  match call.mapAccumulatorValues nChecksum with
  | some bnAccValue => bnAccValue
  | none => (call.zerocoinDB.accumulatorValues nChecksum).getD 0

def valueBeforeMint (start : WitnessStart) : AccumulatorAt :=
  let nCheckpointBeforeMint := (start.pindex.map CBlockIndex.nAccumulatorCheckpoint).getD 0
  let bnAccValue := getAccumulatorValueFromChecksum call
    (parseChecksum nCheckpointBeforeMint coin.denomination)
  if 0 < bnAccValue then ⟨bnAccValue, start.pindex⟩ else ⟨call.rules.accumulatorBase, none⟩

def randomSecurityLevel (nSecurityLevel random : Int) : Int :=
  if nSecurityLevel < 100 then
    if 100 ≤ nSecurityLevel + random then 99 else nSecurityLevel + random
  else nSecurityLevel

def heightStop (node : Node) : Int := node.height - node.height % 10 - 20

def invalidCheckpointRange (params : ChainParams) (nHeight : Int) : Bool :=
  decide (params.nBlockLastGoodCheckpoint < nHeight) &&
    decide (nHeight < params.nBlockRecalculateAccumulators)

def checkpointsAdded (chainAt : Int → Option CBlockIndex) (nAccStartHeight : Int)
    (pindex : CBlockIndex) (nCheckpointsAdded : Nat) : Option Nat :=
  if pindex.nHeight = nAccStartHeight then some nCheckpointsAdded
  else
    (chainAt (pindex.nHeight - 1)).map fun pprev =>
      if pprev.nAccumulatorCheckpoint ≠ pindex.nAccumulatorCheckpoint then nCheckpointsAdded + 1
      else nCheckpointsAdded

def stopsAt (params : ChainParams) (nHeightStop nSecurityLevel : Int) (pindex : CBlockIndex)
    (nCheckpointsAdded : Nat) : Bool :=
  !invalidCheckpointRange params pindex.nHeight &&
    (decide (nHeightStop ≤ pindex.nHeight) ||
      (decide (nSecurityLevel ≠ 100) && decide (nSecurityLevel ≤ nCheckpointsAdded)))

def readAccumulator (chainAt : Int → Option CBlockIndex) (pindex : CBlockIndex) :
    Except Ending AccumulatorAt :=
  match chainAt (pindex.nHeight + 10) with
  | none => .error .nullPointer
  | some later =>
    match call.zerocoinDB.accumulatorValues
        (parseChecksum later.nAccumulatorCheckpoint coin.denomination) with
    | none => .error .failed
    | some bnAccValue => .ok ⟨bnAccValue, some later⟩

/-- The raw values of a block's mints of the denomination, the coin's own left out. -/
def witnessValues (nHeightMintAdded nHeight : Int) (listPubcoins : List PublicCoin) : List Int :=
  (listPubcoins.filter fun pubcoin => pubcoin.denomination == coin.denomination &&
    !(nHeight == nHeightMintAdded && pubcoin.value == coin.value)).map PublicCoin.value

def pubcoinsToAdd (nHeightMintAdded : Int) (pindex : CBlockIndex) : Option (List Int) :=
  if pindex.vMintDenominationsInBlock.contains coin.denomination then
    (pubcoinsOf call.machinery call.node call.invalid true pindex).map
      (witnessValues coin nHeightMintAdded pindex.nHeight)
  else some []

def addPubcoins (chainAt : Int → Option CBlockIndex)
    (nHeightMintAdded nAccStartHeight nHeightStop nSecurityLevel : Int) :
    List CBlockIndex → Nat → Walked → Except Ending Walked
  | [], _, _ => .error .nullPointer
  | pindex :: rest, nCheckpointsAdded, walked =>
    if pindex.nHeight < nHeightStop + 1 then
      match checkpointsAdded chainAt nAccStartHeight pindex nCheckpointsAdded with
      | none => .error .nullPointer
      | some nCheckpointsAdded =>
        if stopsAt call.node.params nHeightStop nSecurityLevel pindex nCheckpointsAdded then
          match readAccumulator call coin chainAt pindex with
          | .error ending => .error ending
          | .ok accumulator => .ok { walked with accumulator := accumulator }
        else
          match pubcoinsToAdd call coin nHeightMintAdded pindex with
          | none => .error .failed
          | some values =>
            addPubcoins chainAt nHeightMintAdded nAccStartHeight nHeightStop nSecurityLevel rest
              nCheckpointsAdded { walked with added := walked.added ++ values }
    else .ok walked

def countMints (nAccStartHeight : Int) : List CBlockIndex → Nat → Except Ending Nat
  | [], _ => .error .nullPointer
  | pindex :: rest, nMintsAdded =>
    if pindex.nHeight < nAccStartHeight then
      countMints nAccStartHeight rest
        (nMintsAdded + pindex.vMintDenominationsInBlock.count coin.denomination)
    else .ok nMintsAdded

def generateAccumulatorWitness (nSecurityLevel random : Int) : Except Ending GeneratedWitness :=
  match heightOfMint call coin with
  | .error ending => .error ending
  | .ok nHeightMintAdded =>
    match checkpointBeforeMint call nHeightMintAdded with
    | .error ending => .error ending
    | .ok start =>
      let before := valueBeforeMint call coin start
      match addPubcoins call coin call.node.at? nHeightMintAdded start.nAccStartHeight
          (heightStop call.node) (randomSecurityLevel nSecurityLevel random)
          (entriesFrom call.node start.nAccStartHeight) 0 ⟨before, []⟩ with
      | .error ending => .error ending
      | .ok walked =>
        if walked.added.length < call.nRequiredAccumulation then .error .failed
        else
          match countMints coin start.nAccStartHeight
              (entriesFrom call.node call.node.params.nZerocoinStartHeight)
              walked.added.length with
          | .error ending => .error ending
          | .ok nMintsAdded => .ok ⟨walked.accumulator, before, walked.added, nMintsAdded⟩

end Calls

section Contents

variable (rules : AccumulatorRules) (machinery : Machinery) (node : Node) (invalid : InvalidMaps)

def coinsOf (denom : CoinDenomination) (coins : List PublicCoin) : List Int :=
  (coins.filter fun coin => coin.denomination == denom).map PublicCoin.value

def Accumulates (value : Int) (coins : Multiset Int) : Prop :=
  ∃ order : List Int, (order : Multiset Int) = coins ∧
    value = order.foldl rules.increment rules.accumulatorBase

def accumulatedIn (denom : CoinDenomination) : Option CBlockIndex → Multiset Int
  | none => 0
  | some pindex =>
    (coinsOf denom (acceptedMints machinery node invalid (pindex.nHeight.toNat / 10 * 10)) :
      Multiset Int)

/-- The database has the values of the checkpoint of a height, and under checksum 0 the initial
    one or none while there is no mint. -/
structure Presents (values : AccumulatorValues) (nHeight : Nat) : Prop where
  present : acceptedMints machinery node invalid nHeight ≠ [] → ∀ denom ∈ zerocoinDenomList,
    values (rules.getChecksum (fromScratch rules machinery node invalid nHeight denom)) =
      some (fromScratch rules machinery node invalid nHeight denom)
  blank : acceptedMints machinery node invalid nHeight = [] → ∀ value, values 0 = some value →
    value = rules.accumulatorBase

variable {rules machinery node invalid} {values : AccumulatorValues} {nHeight : Nat}

theorem coinsOf_append (denom : CoinDenomination) (coins later : List PublicCoin) :
    coinsOf denom (coins ++ later) = coinsOf denom coins ++ coinsOf denom later := by
  unfold coinsOf
  rw [List.filter_append, List.map_append]

theorem accumulateAll_value (coins : List PublicCoin) (map : AccumulatorMap)
    (denom : CoinDenomination) :
    accumulateAll rules map coins denom =
      (coinsOf denom coins).foldl rules.increment (map denom) := by
  induction coins generalizing map with
  | nil => rfl
  | cons coin rest ih =>
    have stepped : accumulateAll rules map (coin :: rest) =
        accumulateAll rules (increase rules map coin) rest := rfl
    rw [stepped, ih]
    unfold coinsOf increase
    by_cases own : coin.denomination = denom
    · subst own
      simp
    · rw [Function.update_of_ne (Ne.symm own)]
      simp [own]

theorem fromScratch_accumulates (denom : CoinDenomination) :
    Accumulates rules (fromScratch rules machinery node invalid nHeight denom)
      (coinsOf denom (acceptedMints machinery node invalid nHeight)) :=
  ⟨_, rfl, accumulateAll_value _ _ denom⟩

variable {denom : CoinDenomination}

section
variable (presents : Presents rules machinery node invalid values nHeight)
include presents

theorem presents_read (member : denom ∈ zerocoinDenomList) {value : Int}
    (read : values (parseChecksum (scratchCheckpoint rules machinery node invalid nHeight) denom) =
      some value) : value = fromScratch rules machinery node invalid nHeight denom := by
  unfold scratchCheckpoint at read
  by_cases none' : acceptedMints machinery node invalid nHeight = []
  · rw [if_pos none', parseChecksum_zero] at read
    rw [fromScratch_none none', presents.blank none' value read]
    rfl
  · rw [if_neg none', parseChecksum_getCheckpoint rules _ member,
      presents.present none' denom member] at read
    exact (Option.some.inj read).symm

theorem presents_held (some' : acceptedMints machinery node invalid nHeight ≠ [])
    (member : denom ∈ zerocoinDenomList) :
    values (parseChecksum (scratchCheckpoint rules machinery node invalid nHeight) denom) =
      some (fromScratch rules machinery node invalid nHeight denom) := by
  unfold scratchCheckpoint
  rw [if_neg some', parseChecksum_getCheckpoint rules _ member]
  exact presents.present some' denom member

theorem presents_load
    (loaded : (load values (scratchCheckpoint rules machinery node invalid nHeight)
      (reset rules)).2 = true) :
    Same (load values (scratchCheckpoint rules machinery node invalid nHeight) (reset rules)).1
      (fromScratch rules machinery node invalid nHeight) :=
  fun _ member => presents_read presents member (load_values loaded member)

theorem presents_loadPrevious {mapAccumulators : AccumulatorMap}
    (loaded : loadPrevious rules values (scratchCheckpoint rules machinery node invalid nHeight) =
      .ok mapAccumulators) :
    Same mapAccumulators (fromScratch rules machinery node invalid nHeight) := by
  unfold loadPrevious at loaded
  dsimp only at loaded
  split at loaded
  · rename_i success
    cases loaded
    exact presents_load presents success
  · rename_i failure
    split at loaded
    · cases loaded
      by_cases none' : acceptedMints machinery node invalid nHeight = []
      · rw [fromScratch_none none']
        exact fun _ _ => rfl
      · refine absurd (loadFrom_held (fun denom member => ?_) (reset rules)) failure
        rw [presents_held presents none' member]
        rfl
    · cases loaded

end

end Contents

/-- Zerocoins start after the repair of the accumulators, at a checkpoint block, and no
    checkpoint is in the range of the invalid ones. -/
structure SettledHeights (params : ChainParams) : Prop where
  start : params.nZerocoinStartHeight % 10 = 0
  recalculate : 20 ≤ params.nBlockRecalculateAccumulators
  repaired : params.nBlockRecalculateAccumulators < params.nZerocoinStartHeight
  lastGood : 20 ≤ params.nBlockLastGoodCheckpoint
  valid : params.nBlockRecalculateAccumulators ≤ params.nBlockLastGoodCheckpoint + 1

theorem networks_settled :
    SettledHeights mainParams ∧ SettledHeights testNetParams ∧ SettledHeights regTestParams := by
  refine ⟨?_, ?_, ?_⟩
  all_goals constructor <;> decide

/-- A node whose chain carries the checkpoints calculated for it and lists the mints that were
    counted. -/
structure CheckpointedNode (call : WitnessCall) (database : Nat → AccumulatorValues) : Prop where
  settled : SettledHeights call.node.params
  chain : CheckpointChain call.rules call.machinery call.node call.invalid database
  held : ∀ height : Nat, height % 10 = 0 → height ≤ call.node.height →
    Presents call.rules call.machinery call.node call.invalid (database height) (height - 10)
  listed : ∀ (height : Nat) pindex block, call.node.chainActive[height]? = some pindex →
    call.node.readBlockFromDisk pindex.hash = some block →
      pindex.vMintDenominationsInBlock = blockToZerocoinMintList call.machinery call.node
        (decide (call.node.params.nBlockRecalculateAccumulators ≤ height)) call.invalid block.vtx
  present : ∀ height : Nat, height % 10 = 0 → height ≤ call.node.height →
    Presents call.rules call.machinery call.node call.invalid call.zerocoinDB.accumulatorValues
      height
  positive : ∀ height denom,
    0 < fromScratch call.rules call.machinery call.node call.invalid height denom
  remembered : ∀ checksum value, call.mapAccumulatorValues checksum = some value →
    call.zerocoinDB.accumulatorValues checksum = some value

section Settled

variable {call : WitnessCall} {database : Nat → AccumulatorValues}

theorem settled_unrecalculated (settled : SettledHeights call.node.params) (nHeight : Nat) :
    ¬ Recalculated call.node nHeight := by
  have repaired := settled.repaired
  unfold Recalculated
  omega

theorem settled_late (settled : SettledHeights call.node.params) :
    LateActivation call.node.params := by
  have recalculate := settled.recalculate
  have repaired := settled.repaired
  exact ⟨by omega, recalculate, settled.lastGood⟩

theorem reached_height {node : Node} {height : Nat} {pindex : CBlockIndex}
    (read : node.chainActive[height]? = some pindex) : (height : Int) ≤ node.height := by
  have inside := (List.getElem?_eq_some_iff.mp read).1
  unfold Node.height
  omega

theorem node_carries (kept : CheckpointedNode call database) {nHeight : Nat}
    (reached : (nHeight : Int) ≤ call.node.height + 1) :
    CarriesBelow call.rules call.machinery call.node call.invalid nHeight := by
  have startHigh := (settled_late kept.settled).start
  have repaired := kept.settled.repaired
  refine chain_scratch kept.chain (settled_late kept.settled) ?_ ?_
  · intro height low started tenth earlier
    constructor
    · intro pindex read mapAccumulators loaded
      have scratch := earlier (height - 1) pindex (by omega) read
      rw [show (height - 1) / 10 * 10 = height - 10 by omega] at scratch
      rw [scratch] at loaded
      exact presents_loadPrevious (kept.held height tenth (by omega)) loaded
    · intro here
      omega
  · intro forced
    exact absurd forced (settled_unrecalculated kept.settled nHeight)

theorem carried (kept : CheckpointedNode call database) {height : Nat} {pindex : CBlockIndex}
    (read : call.node.chainActive[height]? = some pindex) :
    pindex.nAccumulatorCheckpoint =
      scratchCheckpoint call.rules call.machinery call.node call.invalid (height / 10 * 10) := by
  have reached := reached_height read
  have below' : ((height + 1 : Nat) : Int) ≤ call.node.height + 1 := by omega
  exact node_carries kept below' height pindex (Nat.lt_succ_self height) read

theorem settled_filtered (settled : SettledHeights call.node.params) {nHeight height : Nat}
    (started : call.node.params.nZerocoinStartHeight ≤ height) :
    filteredAt call.node nHeight height = true := by
  have repaired := settled.repaired
  unfold filteredAt
  rw [Bool.or_eq_true, decide_eq_true_iff, decide_eq_true_iff]
  omega

theorem acceptedMints_settled (settled : SettledHeights call.node.params) (nHeight : Nat) :
    acceptedMints call.machinery call.node call.invalid nHeight =
      mintsBetween call.machinery call.node call.invalid (fun _ => true) 0 (nHeight - 10) := by
  apply List.flatMap_congr
  intro height _
  by_cases started : call.node.params.nZerocoinStartHeight ≤ height
  · rw [settled_filtered settled started]
  · unfold mintsAt
    rw [if_pos (by omega), if_pos (by omega)]

theorem acceptedMints_split (settled : SettledHeights call.node.params) {lower upper : Nat}
    (order : lower ≤ upper) :
    acceptedMints call.machinery call.node call.invalid (upper + 10) =
      acceptedMints call.machinery call.node call.invalid (lower + 10) ++
        mintsBetween call.machinery call.node call.invalid (fun _ => true) lower
          (upper - lower) := by
  rw [acceptedMints_settled settled, acceptedMints_settled settled,
    show upper + 10 - 10 = lower + (upper - lower) by omega, mintsBetween_append,
    show 0 + lower = lower by omega, show lower + 10 - 10 = lower by omega]

theorem getAccumulatorValue_stored (kept : CheckpointedNode call database) (nChecksum : UInt32) :
    getAccumulatorValueFromChecksum call nChecksum =
      (call.zerocoinDB.accumulatorValues nChecksum).getD 0 := by
  unfold getAccumulatorValueFromChecksum
  cases memory : call.mapAccumulatorValues nChecksum with
  | none => rfl
  | some bnAccValue =>
    rw [kept.remembered nChecksum bnAccValue memory]
    rfl

end Settled

section Walk

variable {call : WitnessCall} {coin : PublicCoin}

def PlacedFrom (node : Node) (lowest : Nat) (entries : List CBlockIndex) : Prop :=
  ∀ index pindex, entries[index]? = some pindex →
    node.chainActive[lowest + index]? = some pindex ∧ pindex.nHeight = (lowest + index : Nat)

variable {pindex : CBlockIndex} {entries : List CBlockIndex} {database : Nat → AccumulatorValues}
variable {before after : Walked} {node : Node}

theorem placedFrom_cons {lowest : Nat} {rest : List CBlockIndex}
    (placed : PlacedFrom node lowest (pindex :: rest)) :
    (node.chainActive[lowest]? = some pindex ∧ pindex.nHeight = lowest) ∧
      PlacedFrom node (lowest + 1) rest := by
  constructor
  · exact placed 0 pindex rfl
  · intro index other found
    have shifted := placed (index + 1) other (by simpa using found)
    rw [show lowest + (index + 1) = lowest + 1 + index by omega] at shifted
    exact shifted

theorem entriesFrom_placed
    (placed : ∀ (height : Nat) (pindex : CBlockIndex),
      node.chainActive[height]? = some pindex → pindex.nHeight = height) (lowest : Nat) :
    PlacedFrom node lowest (entriesFrom node lowest) := by
  intro index pindex found
  unfold entriesFrom at found
  rw [if_neg (by omega), Int.toNat_natCast, List.getElem?_drop] at found
  exact ⟨found, placed _ _ found⟩

theorem findCheckpoint_spec {nHeightTip : Int} {nHeightMintAdded lowest : Nat}
    {found : Option CBlockIndex} (placed : PlacedFrom node lowest entries)
    (above : nHeightMintAdded ≤ lowest) (near : lowest ≤ nHeightMintAdded / 10 * 10 + 10)
    (walked : findCheckpoint nHeightTip nHeightMintAdded entries = .ok (pindex, found)) :
    (found = some pindex ∧
        node.chainActive[nHeightMintAdded / 10 * 10 + 10]? = some pindex) ∨
      found = none ∧ nHeightTip - 1 ≤ (nHeightMintAdded / 10 * 10 + 10 : Nat) := by
  induction entries generalizing lowest with
  | nil => cases walked
  | cons entry rest ih =>
    obtain ⟨⟨here, height⟩, later⟩ := placedFrom_cons placed
    unfold findCheckpoint at walked
    split at walked
    · split at walked
      · rename_i own
        exact ih later (by omega) (by omega) walked
      · rename_i other
        split at walked
        · rename_i tenth
          cases walked
          have at' : lowest = nHeightMintAdded / 10 * 10 + 10 := by omega
          exact .inl ⟨rfl, at' ▸ here⟩
        · rename_i untenth
          exact ih later (by omega) (by omega) walked
    · rename_i high
      cases walked
      exact .inr ⟨rfl, by omega⟩

def addedAt (call : WitnessCall) (coin : PublicCoin) (nHeightMintAdded : Int) (height : Nat) :
    List Int :=
  ((call.node.chainActive[height]?).bind (pubcoinsToAdd call coin nHeightMintAdded)).getD []

def addedBetween (call : WitnessCall) (coin : PublicCoin) (nHeightMintAdded : Int)
    (lowest count : Nat) : List Int :=
  (List.range' lowest count).flatMap (addedAt call coin nHeightMintAdded)

theorem addedBetween_cons (nHeightMintAdded : Int) (lowest count : Nat) :
    addedBetween call coin nHeightMintAdded lowest (count + 1) =
      addedAt call coin nHeightMintAdded lowest ++
        addedBetween call coin nHeightMintAdded (lowest + 1) count := by
  unfold addedBetween
  rw [List.range'_succ, List.flatMap_cons]

theorem settled_range (settled : SettledHeights call.node.params) (nHeight : Int) :
    invalidCheckpointRange call.node.params nHeight = false := by
  have valid := settled.valid
  unfold invalidCheckpointRange
  rw [Bool.and_eq_false_iff, decide_eq_false_iff_not, decide_eq_false_iff_not]
  omega

theorem heightStop_tenth (node : Node) : heightStop node % 10 = 0 := by
  unfold heightStop
  omega

theorem checkpointsAdded_tenth (kept : CheckpointedNode call database) {nAccStartHeight : Int}
    {height : Nat} {nBefore nAfter : Nat} (here : call.node.chainActive[height]? = some pindex)
    (place : pindex.nHeight = height)
    (passed : checkpointsAdded call.node.at? nAccStartHeight pindex nBefore = some nAfter)
    (more : nBefore < nAfter) : height % 10 = 0 := by
  unfold checkpointsAdded at passed
  split at passed
  · cases passed
    omega
  · obtain ⟨pprev, read, counted⟩ := Option.map_eq_some_iff.mp passed
    split at counted
    · rename_i changed
      by_contra untenth
      apply changed
      unfold Node.at? at read
      split at read
      · cases read
      · rw [place, show ((height : Int) - 1).toNat = height - 1 by omega] at read
        rw [carried kept read, carried kept here,
          show (height - 1) / 10 * 10 = height / 10 * 10 by omega]
    · omega

theorem readAccumulator_read {height : Nat} {accumulator : AccumulatorAt}
    (place : pindex.nHeight = height)
    (read : readAccumulator call coin call.node.at? pindex = .ok accumulator) :
    ∃ later, call.node.chainActive[height + 10]? = some later ∧
      accumulator.pindex = some later ∧
      call.zerocoinDB.accumulatorValues
        (parseChecksum later.nAccumulatorCheckpoint coin.denomination) =
          some accumulator.value := by
  unfold readAccumulator at read
  rw [place] at read
  split at read
  · cases read
  · rename_i later above
    split at read
    · cases read
    · rename_i bnAccValue stored
      cases read
      refine ⟨later, ?_, rfl, stored⟩
      unfold Node.at? at above
      rw [if_neg (by omega), show ((height : Int) + 10).toNat = height + 10 by omega] at above
      exact above

/-- Where the loop stops: at a tenth block, with the mints before it added and the accumulator
    read ten blocks above. -/
structure StopsAt (call : WitnessCall) (coin : PublicCoin) (nHeightMintAdded : Int)
    (lowest stop : Nat) (before after : Walked) : Prop where
  order : lowest ≤ stop
  tenth : stop % 10 = 0
  added : after.added =
    before.added ++ addedBetween call coin nHeightMintAdded lowest (stop - lowest)
  read : ∃ later, call.node.chainActive[stop + 10]? = some later ∧
    after.accumulator.pindex = some later ∧
    call.zerocoinDB.accumulatorValues
      (parseChecksum later.nAccumulatorCheckpoint coin.denomination) =
        some after.accumulator.value

theorem addPubcoins_stops (kept : CheckpointedNode call database)
    {nHeightMintAdded nSecurityLevel : Int} {nAccStartHeight lowest nCheckpointsAdded : Nat}
    (tens : nAccStartHeight % 10 = 0) (placed : PlacedFrom call.node lowest entries)
    (inside : (lowest : Int) ≤ heightStop call.node)
    (waiting : lowest = nAccStartHeight ∨ nSecurityLevel = 100 ∨
      (nCheckpointsAdded : Int) < nSecurityLevel)
    (walked : addPubcoins call coin call.node.at? nHeightMintAdded nAccStartHeight
      (heightStop call.node) nSecurityLevel entries nCheckpointsAdded before = .ok after) :
    ∃ stop, StopsAt call coin nHeightMintAdded lowest stop before after := by
  induction entries generalizing lowest nCheckpointsAdded before with
  | nil => cases walked
  | cons pindex rest ih =>
    obtain ⟨⟨here, place⟩, later⟩ := placedFrom_cons placed
    unfold addPubcoins at walked
    rw [if_pos (by omega)] at walked
    cases passed : checkpointsAdded call.node.at? nAccStartHeight pindex nCheckpointsAdded with
    | none =>
      rw [passed] at walked
      cases walked
    | some nPassed =>
      rw [passed] at walked
      dsimp only at walked
      have stopping : stopsAt call.node.params (heightStop call.node) nSecurityLevel pindex
            nPassed = true ↔
          heightStop call.node ≤ lowest ∨ nSecurityLevel ≠ 100 ∧ nSecurityLevel ≤ nPassed := by
        unfold stopsAt
        rw [settled_range kept.settled, place]
        simp
      split at walked
      · rename_i stops
        cases reading : readAccumulator call coin call.node.at? pindex with
        | error ending =>
          rw [reading] at walked
          cases walked
        | ok accumulator =>
          rw [reading] at walked
          cases walked
          refine ⟨lowest, Nat.le_refl _, ?_, ?_, readAccumulator_read place reading⟩
          · rcases stopping.mp stops with high | ⟨level, enough⟩
            · have tenth := heightStop_tenth call.node
              omega
            · by_cases more : nCheckpointsAdded < nPassed
              · exact checkpointsAdded_tenth kept here place passed more
              · rcases waiting with start | level' | short
                · omega
                · exact absurd level' level
                · omega
          · rw [Nat.sub_self]
            exact (List.append_nil _).symm
      · rename_i goes
        have low : ¬ heightStop call.node ≤ lowest := fun high => goes (stopping.mpr (.inl high))
        cases adding : pubcoinsToAdd call coin nHeightMintAdded pindex with
        | none =>
          rw [adding] at walked
          cases walked
        | some values =>
          rw [adding] at walked
          have next : nSecurityLevel = 100 ∨ (nPassed : Int) < nSecurityLevel := by
            by_cases level : nSecurityLevel = 100
            · exact .inl level
            · right
              by_contra enough
              exact goes (stopping.mpr (.inr ⟨level, by omega⟩))
          obtain ⟨stop, stops⟩ := ih later (by omega) (.inr next) walked
          have order := stops.order
          refine ⟨stop, by omega, stops.tenth, ?_, stops.read⟩
          have added : addedAt call coin nHeightMintAdded lowest = values := by
            unfold addedAt
            rw [here, Option.bind_some, adding, Option.getD_some]
          rw [stops.added, show stop - lowest = stop - (lowest + 1) + 1 by omega,
            addedBetween_cons, added, List.append_assoc]

theorem addPubcoins_beyond {nHeightMintAdded nAccStartHeight nSecurityLevel : Int}
    {lowest nCheckpointsAdded : Nat} (placed : PlacedFrom call.node lowest entries)
    (beyond : heightStop call.node < lowest)
    (walked : addPubcoins call coin call.node.at? nHeightMintAdded nAccStartHeight
      (heightStop call.node) nSecurityLevel entries nCheckpointsAdded before = .ok after) :
    after = before := by
  cases entries with
  | nil => cases walked
  | cons pindex rest =>
    obtain ⟨⟨_, place⟩, _⟩ := placedFrom_cons placed
    unfold addPubcoins at walked
    rw [if_neg (by omega)] at walked
    cases walked
    rfl

end Walk

end OxidAccumulatorWitness
