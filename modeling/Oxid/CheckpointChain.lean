import Oxid.Accumulators
import Oxid.ChainRun

/-!
The checkpoint that `CalculateAccumulatorCheckpoint` builds from the one before it against
the accumulation of every mint from the start on. A window of ten blocks is folded in twenty
blocks after it began; a recalculation folds blocks in once more, with the filter.
-/
namespace OxidCheckpointChain
open OxidPrimitives OxidChainParams OxidNode OxidZerocoin OxidConnectBlock OxidChainRun
open OxidAccumulators Packing

section Checksums

variable (rules : AccumulatorRules)

def checksums (mapAccumulators : AccumulatorMap) : List Nat :=
  zerocoinDenomList.map fun denom => (rules.getChecksum (mapAccumulators denom)).toNat

theorem checksums_fit (mapAccumulators : AccumulatorMap) :
    ∀ field ∈ checksums rules mapAccumulators, field < 2 ^ 32 := by
  intro field member
  obtain ⟨denom, _, same⟩ := List.mem_map.mp member
  rw [← same]
  exact UInt32.toNat_lt _

theorem getCheckpoint_toNat (mapAccumulators : AccumulatorMap) :
    (getCheckpoint rules mapAccumulators).toNat =
      packFrom 32 0 (checksums rules mapAccumulators) := by
  have packed := @toNat_foldl 32 256 (checksums rules mapAccumulators) 0
    (checksums_fit rules mapAccumulators) (by rw [checksums, List.length_map]; decide)
  exact packed

theorem parseChecksum_getCheckpoint (mapAccumulators : AccumulatorMap) {denom : CoinDenomination}
    (member : denom ∈ zerocoinDenomList) :
    parseChecksum (getCheckpoint rules mapAccumulators) denom =
      rules.getChecksum (mapAccumulators denom) := by
  obtain ⟨front, back, split, fresh⟩ := List.eq_append_cons_of_mem member
  have position : zerocoinDenomList.idxOf denom = front.length := by
    rw [split, List.idxOf_append_of_notMem fresh, List.idxOf_cons_self, Nat.add_zero]
  have behind : zerocoinDenomList.length - 1 - front.length = back.length := by
    rw [split, List.length_append, List.length_cons]
    omega
  have fields : checksums rules mapAccumulators =
      front.map (fun denom => (rules.getChecksum (mapAccumulators denom)).toNat) ++
        (rules.getChecksum (mapAccumulators denom)).toNat ::
          back.map fun denom => (rules.getChecksum (mapAccumulators denom)).toNat := by
    unfold checksums
    rw [split, List.map_append, List.map_cons]
  have field := field_at 0 (fun other member => checksums_fit rules mapAccumulators other
    (by rw [fields]; exact member))
  rw [← fields, List.length_map] at field
  unfold parseChecksum
  dsimp only
  rw [position, behind, BitVec.toNat_ushiftRight, getCheckpoint_toNat]
  apply UInt32.toNat_inj.mp
  exact field

end Checksums

section Loading

variable {rules : AccumulatorRules}

def Same (first second : AccumulatorMap) : Prop :=
  ∀ denom ∈ zerocoinDenomList, first denom = second denom

def accumulateAll (rules : AccumulatorRules) (mapAccumulators : AccumulatorMap)
    (coins : List PublicCoin) : AccumulatorMap :=
  coins.foldl (increase rules) mapAccumulators

theorem getCheckpoint_same {first second : AccumulatorMap} (same : Same first second) :
    getCheckpoint rules first = getCheckpoint rules second := by
  have fields : checksums rules first = checksums rules second := by
    apply List.map_congr_left
    intro denom member
    rw [same denom member]
  apply BitVec.eq_of_toNat_eq
  rw [getCheckpoint_toNat, getCheckpoint_toNat, fields]

theorem accumulateAll_same (coins : List PublicCoin) {first second : AccumulatorMap}
    (same : Same first second) :
    Same (accumulateAll rules first coins) (accumulateAll rules second coins) := by
  induction coins generalizing first second with
  | nil => exact same
  | cons coin rest ih =>
    apply ih
    intro denom member
    unfold increase
    by_cases own : denom = coin.denomination
    · subst own
      rw [Function.update_self, Function.update_self, same _ member]
    · rw [Function.update_of_ne own, Function.update_of_ne own]
      exact same denom member

theorem accumulateCoins_all {coins : List PublicCoin} {before after : AccumulatorMap}
    (accumulated : accumulateCoins rules coins before = some after) :
    after = accumulateAll rules before coins := by
  induction coins generalizing before with
  | nil =>
    cases accumulated
    rfl
  | cons coin rest ih =>
    unfold accumulateCoins accumulate at accumulated
    by_cases invalid : coin.denomination = .ZQ_ERROR
    · rw [if_pos invalid] at accumulated
      cases accumulated
    · rw [if_neg invalid] at accumulated
      exact ih accumulated

variable {values : AccumulatorValues} {nCheckpoint : Uint256} {denoms : List CoinDenomination}
variable {before : AccumulatorMap}

theorem loadFrom_values (fresh : denoms.Nodup)
    (loaded : (loadFrom values nCheckpoint denoms before).2 = true) :
    (∀ denom ∈ denoms, values (parseChecksum nCheckpoint denom) =
        some ((loadFrom values nCheckpoint denoms before).1 denom)) ∧
      ∀ denom, denom ∉ denoms →
        (loadFrom values nCheckpoint denoms before).1 denom = before denom := by
  induction denoms generalizing before with
  | nil => exact ⟨fun _ member => absurd member List.not_mem_nil, fun _ _ => rfl⟩
  | cons first rest ih =>
    obtain ⟨new, freshRest⟩ := List.nodup_cons.mp fresh
    unfold loadFrom at loaded ⊢
    cases found : values (parseChecksum nCheckpoint first) with
    | none =>
      rw [found] at loaded
      cases loaded
    | some bnValue =>
      rw [found] at loaded
      obtain ⟨inside, outside⟩ := ih freshRest loaded
      constructor
      · intro denom member
        rcases List.mem_cons.mp member with same | later
        · rw [same, outside first new, Function.update_self, found]
        · exact inside denom later
      · intro denom absent
        rw [List.mem_cons, not_or] at absent
        rw [outside denom absent.2, Function.update_of_ne absent.1]

theorem load_values (loaded : (load values nCheckpoint before).2 = true) {denom : CoinDenomination}
    (member : denom ∈ zerocoinDenomList) :
    values (parseChecksum nCheckpoint denom) = some ((load values nCheckpoint before).1 denom) :=
  (loadFrom_values (by decide) loaded).1 denom member

theorem loadFrom_held
    (held : ∀ denom ∈ denoms, (values (parseChecksum nCheckpoint denom)).isSome = true)
    (before : AccumulatorMap) : (loadFrom values nCheckpoint denoms before).2 = true := by
  induction denoms generalizing before with
  | nil => rfl
  | cons first rest ih =>
    obtain ⟨bnValue, found⟩ := Option.isSome_iff_exists.mp (held first List.mem_cons_self)
    unfold loadFrom
    rw [found]
    exact ih (fun denom member => held denom (List.mem_cons_of_mem _ member)) _

end Loading

section Chain

variable (rules : AccumulatorRules) (machinery : Machinery) (node : Node) (invalid : InvalidMaps)

def mintsAt (fFilterInvalid : Bool) (nHeight : Nat) : List PublicCoin :=
  if (nHeight : Int) < node.params.nZerocoinStartHeight then []
  else
    ((node.chainActive[nHeight]?).bind (pubcoinsOf machinery node invalid fFilterInvalid)).getD []

def mintsBetween (filtered : Nat → Bool) (nHeight count : Nat) : List PublicCoin :=
  (List.range' nHeight count).flatMap fun height =>
    mintsAt machinery node invalid (filtered height) height

def Recalculated (nHeight : Nat) : Prop :=
  node.params.nBlockRecalculateAccumulators % 10 = 0 ∧
    node.params.nZerocoinStartHeight ≤ node.params.nBlockRecalculateAccumulators ∧
    node.params.nBlockRecalculateAccumulators ≤ nHeight

instance (nHeight : Nat) : Decidable (Recalculated node nHeight) :=
  inferInstanceAs (Decidable (_ ∧ _ ∧ _))

def filteredAt (nHeight height : Nat) : Bool :=
  decide (Recalculated node nHeight ∧ node.params.nBlockLastGoodCheckpoint - 10 ≤ height) ||
    decide (node.params.nBlockRecalculateAccumulators ≤ (height / 10 * 10 + 20 : Nat))

/-- Every accepted mint that the checkpoint of a height is for, in the order of the blocks. -/
def acceptedMints (nHeight : Nat) : List PublicCoin :=
  mintsBetween machinery node invalid (filteredAt node nHeight) 0 (nHeight - 10)

def fromScratch (nHeight : Nat) : AccumulatorMap :=
  accumulateAll rules (reset rules) (acceptedMints machinery node invalid nHeight)

def scratchCheckpoint (nHeight : Nat) : Uint256 :=
  if acceptedMints machinery node invalid nHeight = [] then 0
  else getCheckpoint rules (fromScratch rules machinery node invalid nHeight)

def below (nHeight : Nat) : Node := { node with chainActive := node.chainActive.take nHeight }

structure Stored (values : AccumulatorValues) (nHeight : Nat) (nCheckpoint : Uint256) : Prop where
  sound : ∀ checksum value, values checksum = some value → rules.getChecksum value = checksum
  held : acceptedMints machinery node invalid nHeight ≠ [] → ∀ denom ∈ zerocoinDenomList,
    (values (parseChecksum nCheckpoint denom)).isSome = true
  blank : acceptedMints machinery node invalid nHeight = [] → ∀ value, values 0 = some value →
    value = rules.accumulatorBase

def occurring (values : AccumulatorValues) : Set Int :=
  {value | (∃ checksum, values checksum = some value) ∨
    ∃ nHeight, ∃ denom ∈ zerocoinDenomList,
      fromScratch rules machinery node invalid nHeight denom = value}

end Chain

section Windows

variable {rules : AccumulatorRules} {machinery : Machinery} {node : Node} {invalid : InvalidMaps}

theorem mintsBetween_append (filtered : Nat → Bool) (nHeight first second : Nat) :
    mintsBetween machinery node invalid filtered nHeight (first + second) =
      mintsBetween machinery node invalid filtered nHeight first ++
        mintsBetween machinery node invalid filtered (nHeight + first) second := by
  unfold mintsBetween
  rw [← List.range'_append_1, List.flatMap_append]

theorem mintsBetween_succ (filtered : Nat → Bool) (nHeight count : Nat) :
    mintsBetween machinery node invalid filtered nHeight (count + 1) =
      mintsAt machinery node invalid (filtered nHeight) nHeight ++
        mintsBetween machinery node invalid filtered (nHeight + 1) count := by
  unfold mintsBetween
  rw [List.range'_succ, List.flatMap_cons]

theorem mintsBetween_congr {filtered filtered' : Nat → Bool} {nHeight count : Nat}
    (same : ∀ height, nHeight ≤ height → height < nHeight + count →
      filtered height = filtered' height) :
    mintsBetween machinery node invalid filtered nHeight count =
      mintsBetween machinery node invalid filtered' nHeight count := by
  apply List.flatMap_congr
  intro height member
  obtain ⟨low, high⟩ := List.mem_range'_1.mp member
  rw [same height low high]

theorem accumulateAll_append (coins later : List PublicCoin) (map : AccumulatorMap) :
    accumulateAll rules map (coins ++ later) =
      accumulateAll rules (accumulateAll rules map coins) later := List.foldl_append

theorem accumulateBlocks_window {fShutdown : CBlockIndex → Bool} {fFilterInvalid : Bool}
    {nHeight lowest : Nat} {entries : List CBlockIndex} {before after : AccumulatorMap}
    {nTotal nMints : Nat}
    (placed : ∀ index pindex, entries[index]? = some pindex →
      node.chainActive[lowest + index]? = some pindex ∧ pindex.nHeight = (lowest + index : Nat))
    (accumulated : accumulateBlocks rules machinery (below node nHeight) invalid fShutdown
      fFilterInvalid nHeight entries before nTotal = .ok (after, nMints)) :
    after = accumulateAll rules before (mintsBetween machinery node invalid
        (fun _ => fFilterInvalid) lowest (nHeight - 10 - lowest)) ∧
      nMints = nTotal + (mintsBetween machinery node invalid (fun _ => fFilterInvalid) lowest
        (nHeight - 10 - lowest)).length := by
  induction entries generalizing lowest before nTotal with
  | nil => cases accumulated
  | cons pindex rest ih =>
    obtain ⟨here, height⟩ := placed 0 pindex rfl
    have later : ∀ index other, rest[index]? = some other →
        node.chainActive[lowest + 1 + index]? = some other ∧
          other.nHeight = (lowest + 1 + index : Nat) := by
      intro index other found
      have shifted := placed (index + 1) other (by simpa using found)
      rw [show lowest + (index + 1) = lowest + 1 + index by omega] at shifted
      exact shifted
    unfold accumulateBlocks at accumulated
    rw [Nat.add_zero] at height here
    rw [height] at accumulated
    by_cases inside : (lowest : Int) < nHeight - 10
    · have count : nHeight - 10 - lowest = 1 + (nHeight - 10 - (lowest + 1)) := by omega
      have first : mintsBetween machinery node invalid (fun _ => fFilterInvalid) lowest
          (nHeight - 10 - lowest) = mintsAt machinery node invalid fFilterInvalid lowest ++
            mintsBetween machinery node invalid (fun _ => fFilterInvalid) (lowest + 1)
              (nHeight - 10 - (lowest + 1)) := by
        rw [count, mintsBetween_append]
        simp [mintsBetween]
      rw [if_pos inside] at accumulated
      split at accumulated
      · cases accumulated
      · by_cases early : (lowest : Int) < node.params.nZerocoinStartHeight
        · have started : (lowest : Int) < (below node nHeight).params.nZerocoinStartHeight := early
          rw [if_pos started] at accumulated
          have none' : mintsAt machinery node invalid fFilterInvalid lowest = [] := by
            unfold mintsAt
            rw [if_pos early]
          rw [first, none', List.nil_append]
          exact ih later accumulated
        · have started : ¬ (lowest : Int) < (below node nHeight).params.nZerocoinStartHeight := early
          rw [if_neg started] at accumulated
          cases read : pubcoinsOf machinery (below node nHeight) invalid fFilterInvalid pindex with
          | none =>
            rw [read] at accumulated
            cases accumulated
          | some listPubcoins =>
            rw [read] at accumulated
            dsimp only at accumulated
            cases coins : accumulateCoins rules listPubcoins before with
            | none =>
              rw [coins] at accumulated
              cases accumulated
            | some middle =>
              rw [coins] at accumulated
              have mints : mintsAt machinery node invalid fFilterInvalid lowest = listPubcoins := by
                have same : pubcoinsOf machinery node invalid fFilterInvalid pindex =
                  some listPubcoins := read
                unfold mintsAt
                rw [if_neg early, here, Option.bind_some, same, Option.getD_some]
              obtain ⟨all, total⟩ := ih later accumulated
              rw [first, mints, accumulateAll_append, ← accumulateCoins_all coins,
                List.length_append]
              exact ⟨all, by omega⟩
    · rw [if_neg inside] at accumulated
      cases accumulated
      have count : nHeight - 10 - lowest = 0 := by omega
      rw [count]
      exact ⟨rfl, rfl⟩

end Windows

section Steps

variable {rules : AccumulatorRules} {machinery : Machinery} {node : Node} {invalid : InvalidMaps}
  {values : AccumulatorValues} {nHeight : Nat} {nCheckpoint : Uint256}

theorem parseChecksum_zero (denom : CoinDenomination) : parseChecksum 0 denom = 0 := by
  cases denom <;> decide

theorem fromScratch_none (none' : acceptedMints machinery node invalid nHeight = []) :
    fromScratch rules machinery node invalid nHeight = reset rules := by
  unfold fromScratch
  rw [none']
  rfl

section
variable (stored : Stored rules machinery node invalid values nHeight nCheckpoint)
  (distinct : Set.InjOn rules.getChecksum (occurring rules machinery node invalid values))
  (scratch : nCheckpoint = scratchCheckpoint rules machinery node invalid nHeight)
include stored distinct scratch

theorem load_scratch (loaded : (load values nCheckpoint (reset rules)).2 = true) :
    Same (load values nCheckpoint (reset rules)).1
      (fromScratch rules machinery node invalid nHeight) := by
  intro denom member
  have read := load_values loaded member
  unfold scratchCheckpoint at scratch
  by_cases none' : acceptedMints machinery node invalid nHeight = []
  · rw [if_pos none'] at scratch
    rw [fromScratch_none none']
    refine stored.blank none' _ ?_
    rw [← read, scratch, parseChecksum_zero]
  · rw [if_neg none'] at scratch
    have named : parseChecksum nCheckpoint denom =
        rules.getChecksum (fromScratch rules machinery node invalid nHeight denom) := by
      rw [scratch]
      exact parseChecksum_getCheckpoint rules _ member
    have same := stored.sound _ _ read
    rw [named] at same
    exact distinct (Or.inl ⟨_, read⟩) (Or.inr ⟨nHeight, denom, member, rfl⟩) same

theorem loadPrevious_scratch {mapAccumulators : AccumulatorMap}
    (loaded : loadPrevious rules values nCheckpoint = .ok mapAccumulators) :
    Same mapAccumulators (fromScratch rules machinery node invalid nHeight) := by
  unfold loadPrevious at loaded
  dsimp only at loaded
  split at loaded
  · rename_i success
    cases loaded
    exact load_scratch stored distinct scratch success
  · rename_i failure
    split at loaded
    · cases loaded
      by_cases none' : acceptedMints machinery node invalid nHeight = []
      · rw [fromScratch_none none']
        exact fun _ _ => rfl
      · exact absurd (loadFrom_held (stored.held none') (reset rules)) failure
    · cases loaded

end

theorem below_at {height : Nat} (inside : height < nHeight) :
    (below node nHeight).at? height = node.chainActive[height]? := by
  unfold Node.at? below
  rw [if_neg (by omega), Int.toNat_natCast, List.getElem?_take_of_lt inside]

theorem entriesFrom_below (placed : ∀ (height : Nat) (pindex : CBlockIndex),
      node.chainActive[height]? = some pindex → pindex.nHeight = height) {lowest index : Nat} {pindex : CBlockIndex}
    (found : (entriesFrom (below node nHeight) lowest)[index]? = some pindex) :
    node.chainActive[lowest + index]? = some pindex ∧ pindex.nHeight = (lowest + index : Nat) := by
  unfold entriesFrom below at found
  rw [if_neg (by omega), Int.toNat_natCast, List.getElem?_drop, List.getElem?_take] at found
  split at found
  · exact ⟨found, placed _ _ found⟩
  · cases found

end Steps

/-- A chain whose blocks carry the checkpoints that connecting them asks for. -/
structure CheckpointChain (rules : AccumulatorRules) (machinery : Machinery) (node : Node)
    (invalid : InvalidMaps) (database : Nat → AccumulatorValues) : Prop where
  placed : ∀ (height : Nat) (pindex : CBlockIndex),
    node.chainActive[height]? = some pindex → pindex.nHeight = height
  genesis : ∀ pindex : CBlockIndex, node.chainActive[0]? = some pindex → pindex.nAccumulatorCheckpoint = 0
  kept : ∀ (height : Nat) (previous pindex : CBlockIndex), node.chainActive[height]? = some previous →
    node.chainActive[height + 1]? = some pindex →
    ((height + 1 : Nat) : Int) < node.params.nZerocoinStartHeight ∨ (height + 1) % 10 ≠ 0 →
    pindex.nAccumulatorCheckpoint = previous.nAccumulatorCheckpoint
  calculated : ∀ (height : Nat) (pindex : CBlockIndex), node.chainActive[height]? = some pindex →
    node.params.nZerocoinStartHeight ≤ height → height % 10 = 0 →
    ∃ fShutdown values, calculateAccumulatorCheckpoint rules machinery (below node height) invalid
      fShutdown height (database height) = .ok (pindex.nAccumulatorCheckpoint, values)

/-- Heights at which the parameters activate zerocoins and their repair. -/
structure LateActivation (params : ChainParams) : Prop where
  start : 20 ≤ params.nZerocoinStartHeight
  recalculate : 20 ≤ params.nBlockRecalculateAccumulators
  lastGood : 20 ≤ params.nBlockLastGoodCheckpoint

structure DatabaseHolds (rules : AccumulatorRules) (machinery : Machinery) (node : Node)
    (invalid : InvalidMaps) (values : AccumulatorValues) (nHeight : Nat) : Prop where
  previous : ∀ pindex, node.chainActive[nHeight - 1]? = some pindex →
    Stored rules machinery node invalid values (nHeight - 10) pindex.nAccumulatorCheckpoint
  lastGood : node.params.nBlockRecalculateAccumulators = nHeight →
    ∀ pindex, node.chainActive[node.params.nBlockLastGoodCheckpoint.toNat]? = some pindex →
      Stored rules machinery node invalid values node.params.nBlockLastGoodCheckpoint.toNat
        pindex.nAccumulatorCheckpoint
  distinct : Set.InjOn rules.getChecksum (occurring rules machinery node invalid values)

def GoodRecalculation (machinery : Machinery) (node : Node) (invalid : InvalidMaps)
    (nHeight : Nat) : Prop :=
  Recalculated node nHeight →
    node.params.nBlockLastGoodCheckpoint % 10 = 0 ∧
      mintsBetween machinery node invalid (fun _ => true)
        (node.params.nBlockLastGoodCheckpoint.toNat - 10)
        (node.params.nBlockRecalculateAccumulators.toNat -
          node.params.nBlockLastGoodCheckpoint.toNat) ≠ []

def CarriesBelow (rules : AccumulatorRules) (machinery : Machinery) (node : Node)
    (invalid : InvalidMaps) (nHeight : Nat) : Prop :=
  ∀ (height : Nat) pindex, height < nHeight → node.chainActive[height]? = some pindex →
    pindex.nAccumulatorCheckpoint =
      scratchCheckpoint rules machinery node invalid (height / 10 * 10)

structure Loads (rules : AccumulatorRules) (machinery : Machinery) (node : Node)
    (invalid : InvalidMaps) (values : AccumulatorValues) (nHeight : Nat) : Prop where
  previous : ∀ pindex, node.chainActive[nHeight - 1]? = some pindex → ∀ mapAccumulators,
    loadPrevious rules values pindex.nAccumulatorCheckpoint = .ok mapAccumulators →
      Same mapAccumulators (fromScratch rules machinery node invalid (nHeight - 10))
  lastGood : node.params.nBlockRecalculateAccumulators = nHeight →
    node.params.nBlockLastGoodCheckpoint.toNat < nHeight →
    ∀ pindex, node.chainActive[node.params.nBlockLastGoodCheckpoint.toNat]? = some pindex →
      (load values pindex.nAccumulatorCheckpoint (reset rules)).2 = true →
        Same (load values pindex.nAccumulatorCheckpoint (reset rules)).1
          (fromScratch rules machinery node invalid node.params.nBlockLastGoodCheckpoint.toNat)

section Folding

variable {rules : AccumulatorRules} {machinery : Machinery} {node : Node} {invalid : InvalidMaps}
  {nHeight : Nat}

theorem acceptedMints_window (multiple : nHeight % 10 = 0) (high : 20 ≤ nHeight)
    (other : node.params.nBlockRecalculateAccumulators ≠ nHeight) :
    acceptedMints machinery node invalid nHeight =
      acceptedMints machinery node invalid (nHeight - 10) ++
        mintsBetween machinery node invalid
          (fun _ => decide (node.params.nBlockRecalculateAccumulators ≤ nHeight))
          (nHeight - 20) 10 := by
  have count : nHeight - 10 = (nHeight - 10 - 10) + 10 := by omega
  have lowest : 0 + (nHeight - 10 - 10) = nHeight - 20 := by omega
  unfold acceptedMints
  rw [show mintsBetween machinery node invalid (filteredAt node nHeight) 0 (nHeight - 10) =
    mintsBetween machinery node invalid (filteredAt node nHeight) 0 ((nHeight - 10 - 10) + 10) by
      rw [← count], mintsBetween_append, lowest]
  congr 1
  · apply mintsBetween_congr
    intro height _ _
    have same : Recalculated node nHeight ↔ Recalculated node (nHeight - 10) := by
      unfold Recalculated
      omega
    unfold filteredAt
    simp [same]
  · apply mintsBetween_congr
    intro height low inside
    have folded : height / 10 * 10 + 20 = nHeight := by omega
    unfold filteredAt Recalculated
    rw [folded, ← Bool.decide_or, decide_eq_decide]
    omega

theorem acceptedMints_recalculated {nLastGood : Nat} (multiple : nHeight % 10 = 0)
    (here : node.params.nBlockRecalculateAccumulators = nHeight)
    (started : node.params.nZerocoinStartHeight ≤ nHeight)
    (good : node.params.nBlockLastGoodCheckpoint = nLastGood) (tens : nLastGood % 10 = 0)
    (high : 20 ≤ nLastGood) (low : nLastGood < nHeight) :
    acceptedMints machinery node invalid nHeight =
      acceptedMints machinery node invalid nLastGood ++
        mintsBetween machinery node invalid (fun _ => true) (nLastGood - 10)
          (nHeight - nLastGood) := by
  have count : nHeight - 10 = (nLastGood - 10) + (nHeight - nLastGood) := by omega
  have lowest : 0 + (nLastGood - 10) = nLastGood - 10 := by omega
  have forced : Recalculated node nHeight := by
    unfold Recalculated
    omega
  unfold acceptedMints
  rw [count, mintsBetween_append, lowest]
  congr 1
  · apply mintsBetween_congr
    intro height _ below'
    have unfiltered : ¬ node.params.nBlockRecalculateAccumulators ≤
        (height / 10 * 10 + 20 : Nat) := by omega
    have near : ¬ node.params.nBlockLastGoodCheckpoint - 10 ≤ height := by omega
    simp only [filteredAt, unfiltered, near, and_false, decide_false]
  · apply mintsBetween_congr
    intro height above _
    unfold filteredAt
    rw [decide_eq_true ⟨forced, by omega⟩, Bool.true_or]

variable {values : AccumulatorValues} {nCheckpoint : Uint256} {start : FoldStart}

theorem folded_checkpoint {before after : AccumulatorMap} {earlier nHeight' : Nat}
    {window : List PublicCoin} {nMints : Nat}
    (same : Same before (fromScratch rules machinery node invalid earlier))
    (mints : acceptedMints machinery node invalid nHeight' =
      acceptedMints machinery node invalid earlier ++ window)
    (accumulated : after = accumulateAll rules before window) (total : nMints = window.length)
    (previous : nMints = 0 → nCheckpoint = scratchCheckpoint rules machinery node invalid earlier) :
    (if nMints = 0 then nCheckpoint else getCheckpoint rules after) =
      scratchCheckpoint rules machinery node invalid nHeight' := by
  by_cases nothing : nMints = 0
  · have empty : window = [] := List.length_eq_zero_iff.mp (by omega)
    rw [empty, List.append_nil] at mints
    rw [if_pos nothing, previous nothing]
    unfold scratchCheckpoint fromScratch
    rw [mints]
  · have filled : acceptedMints machinery node invalid nHeight' ≠ [] := by
      rw [mints]
      intro none'
      have empty := (List.append_eq_nil_iff.mp none').2
      rw [empty] at total
      exact nothing total
    have all := @accumulateAll_same rules window _ _ same
    have whole : fromScratch rules machinery node invalid nHeight' =
        accumulateAll rules (fromScratch rules machinery node invalid earlier) window := by
      unfold fromScratch
      rw [mints, accumulateAll_append]
    rw [if_neg nothing, accumulated]
    unfold scratchCheckpoint
    rw [if_neg filled, whole, getCheckpoint_same all]

structure StartsAt (rules : AccumulatorRules) (machinery : Machinery) (node : Node)
    (invalid : InvalidMaps) (nHeight earlier : Nat) (start : FoldStart) : Prop where
  same : Same start.mapAccumulators (fromScratch rules machinery node invalid earlier)
  entries : start.entries = entriesFrom (below node nHeight) (earlier - 10 : Nat)
  mints : acceptedMints machinery node invalid nHeight =
    acceptedMints machinery node invalid earlier ++
      mintsBetween machinery node invalid
        (fun _ => decide (node.params.nBlockRecalculateAccumulators ≤ nHeight)) (earlier - 10)
        (nHeight - 10 - (earlier - 10))

theorem recalculation_starts (late : LateActivation node.params) (multiple : nHeight % 10 = 0)
    (here : node.params.nBlockRecalculateAccumulators = nHeight)
    (started : node.params.nZerocoinStartHeight ≤ nHeight)
    (tens : node.params.nBlockLastGoodCheckpoint % 10 = 0)
    (loads : Loads rules machinery node invalid values nHeight)
    (recalculated : recalculation rules (below node nHeight) nHeight values = .ok start) :
    StartsAt rules machinery node invalid nHeight
      node.params.nBlockLastGoodCheckpoint.toNat start := by
  have high := late.lastGood
  obtain ⟨nLastGood, good⟩ := Int.eq_ofNat_of_zero_le
    (show 0 ≤ node.params.nBlockLastGoodCheckpoint by omega)
  have good' : (below node nHeight).params.nBlockLastGoodCheckpoint = nLastGood := good
  unfold recalculation at recalculated
  dsimp only at recalculated
  rw [good'] at recalculated
  rw [good, Int.toNat_natCast]
  cases read : (below node nHeight).at? nLastGood with
  | none =>
    rw [read] at recalculated
    cases recalculated
  | some lastGood =>
    rw [read] at recalculated
    dsimp only at recalculated
    split at recalculated
    · cases recalculated
    · rename_i loaded
      have loaded : (load values lastGood.nAccumulatorCheckpoint (reset rules)).2 = true := by
        simpa using loaded
      split at recalculated
      · cases recalculated
      · rename_i erased
        cases recalculated
        have low : nLastGood < nHeight := by
          unfold eraseCheckpoints at erased
          split at erased
          · cases erased
          · rename_i reached
            have length : (below node nHeight).chainActive.length ≤ nHeight :=
              List.length_take_le _ _
            unfold Node.height at reached
            omega
        rw [below_at low] at read
        have same := loads.lastGood here (by rw [good]; exact low) lastGood (by rw [good]; exact read)
          loaded
        rw [good, Int.toNat_natCast] at same
        constructor
        · exact same
        · rw [show ((nLastGood : Int) - 10) = (nLastGood - 10 : Nat) by omega]
        · have count : nHeight - 10 - (nLastGood - 10) = nHeight - nLastGood := by omega
          rw [count, decide_eq_true (by omega)]
          exact acceptedMints_recalculated multiple here started good (by omega) (by omega) low

theorem foldStart_starts {previous : CBlockIndex} (multiple : nHeight % 10 = 0)
    (high : 20 ≤ nHeight) (other : node.params.nBlockRecalculateAccumulators ≠ nHeight)
    (loads : Loads rules machinery node invalid values nHeight)
    (read : node.chainActive[nHeight - 1]? = some previous)
    (ready : foldStart rules (below node nHeight) nHeight values previous.nAccumulatorCheckpoint =
      .ok start) :
    StartsAt rules machinery node invalid nHeight (nHeight - 10) start := by
  unfold foldStart at ready
  cases loaded : loadPrevious rules values previous.nAccumulatorCheckpoint with
  | error ending =>
    rw [loaded] at ready
    cases ready
  | ok mapAccumulators =>
    have elsewhere : ¬ (nHeight : Int) =
        (below node nHeight).params.nBlockRecalculateAccumulators := fun same => other same.symm
    rw [loaded] at ready
    dsimp only at ready
    rw [if_neg elsewhere] at ready
    cases ready
    constructor
    · exact loads.previous previous read mapAccumulators loaded
    · rw [show ((nHeight : Int) - 20) = (nHeight - 10 - 10 : Nat) by omega]
    · have count : nHeight - 10 - (nHeight - 10 - 10) = 10 := by omega
      have lowest : nHeight - 10 - 10 = nHeight - 20 := by omega
      rw [count, lowest]
      exact acceptedMints_window multiple high other

/-- The step of the chain: what is calculated from checkpoints that stand for the mints before
    them stands for the mints up to its height. -/
theorem calculated_scratch {values after : AccumulatorValues} {fShutdown : CBlockIndex → Bool}
    (placed : ∀ (height : Nat) (pindex : CBlockIndex),
      node.chainActive[height]? = some pindex → pindex.nHeight = height)
    (late : LateActivation node.params) (multiple : nHeight % 10 = 0)
    (started : node.params.nZerocoinStartHeight ≤ nHeight)
    (good : GoodRecalculation machinery node invalid nHeight)
    (loads : Loads rules machinery node invalid values nHeight)
    (earlier : CarriesBelow rules machinery node invalid nHeight)
    (calculated : calculateAccumulatorCheckpoint rules machinery (below node nHeight) invalid
      fShutdown nHeight values = .ok (nCheckpoint, after)) :
    nCheckpoint = scratchCheckpoint rules machinery node invalid nHeight := by
  have startHigh := late.start
  have high : 20 ≤ nHeight := by omega
  have reached : ¬ (nHeight : Int) < (below node nHeight).params.nZerocoinStartHeight := by
    show ¬ (nHeight : Int) < node.params.nZerocoinStartHeight
    omega
  have tenth : ¬ (nHeight : Int) % 10 ≠ 0 := by omega
  unfold calculateAccumulatorCheckpoint at calculated
  rw [if_neg reached, show ((nHeight : Int) - 1) = (nHeight - 1 : Nat) by omega,
    below_at (by omega)] at calculated
  cases read : node.chainActive[nHeight - 1]? with
  | none =>
    rw [read] at calculated
    cases calculated
  | some previous =>
    rw [read] at calculated
    dsimp only at calculated
    rw [if_neg tenth] at calculated
    have scratch := earlier (nHeight - 1) previous (by omega) read
    rw [show (nHeight - 1) / 10 * 10 = nHeight - 10 by omega] at scratch
    cases ready : foldStart rules (below node nHeight) nHeight values
      previous.nAccumulatorCheckpoint with
    | error ending =>
      rw [ready] at calculated
      cases calculated
    | ok start =>
      rw [ready] at calculated
      dsimp only at calculated
      split at calculated
      · cases calculated
      · rename_i mapAccumulators nMints folded
        cases calculated
        have filter : decide ((below node nHeight).params.nBlockRecalculateAccumulators ≤
          (nHeight : Int)) = decide (node.params.nBlockRecalculateAccumulators ≤ nHeight) := rfl
        rw [filter] at folded
        by_cases here : node.params.nBlockRecalculateAccumulators = nHeight
        · obtain ⟨tens, found⟩ := good ⟨by omega, by omega, by omega⟩
          have recalculated : recalculation rules (below node nHeight) nHeight values =
              .ok start := by
            unfold foldStart at ready
            split at ready
            · cases ready
            · have same : (nHeight : Int) =
                  (below node nHeight).params.nBlockRecalculateAccumulators := here.symm
              rw [if_pos same] at ready
              exact ready
          have starts := recalculation_starts late multiple here started tens loads
            recalculated
          rw [starts.entries] at folded
          obtain ⟨all, total⟩ := accumulateBlocks_window
            (fun index pindex => entriesFrom_below placed) folded
          refine folded_checkpoint starts.same starts.mints all (by omega) ?_
          intro nothing
          have count : nHeight - 10 - (node.params.nBlockLastGoodCheckpoint.toNat - 10) =
              node.params.nBlockRecalculateAccumulators.toNat -
                node.params.nBlockLastGoodCheckpoint.toNat := by
            have lastGood := late.lastGood
            omega
          rw [decide_eq_true (by omega), count] at total
          exact absurd (List.length_eq_zero_iff.mp (by omega)) found
        · have starts := foldStart_starts multiple high here loads read ready
          rw [starts.entries] at folded
          obtain ⟨all, total⟩ := accumulateBlocks_window
            (fun index pindex => entriesFrom_below placed) folded
          exact folded_checkpoint starts.same starts.mints all (by omega) (fun _ => scratch)

theorem acceptedMints_early
    (early : (nHeight : Int) ≤ node.params.nZerocoinStartHeight + 10) :
    acceptedMints machinery node invalid nHeight = [] := by
  unfold acceptedMints mintsBetween
  rw [List.flatMap_eq_nil_iff]
  intro height member
  have inside := (List.mem_range'_1.mp member).2
  unfold mintsAt
  rw [if_pos (by omega)]

theorem recalculated_later {later : Nat} (above : nHeight ≤ later)
    (good : GoodRecalculation machinery node invalid later) :
    GoodRecalculation machinery node invalid nHeight := by
  intro forced
  apply good
  unfold Recalculated at forced ⊢
  omega

theorem loads_of_holds (late : LateActivation node.params) (multiple : nHeight % 10 = 0)
    (started : node.params.nZerocoinStartHeight ≤ nHeight)
    (good : GoodRecalculation machinery node invalid nHeight)
    (holds : DatabaseHolds rules machinery node invalid values nHeight)
    (earlier : CarriesBelow rules machinery node invalid nHeight) :
    Loads rules machinery node invalid values nHeight := by
  have startHigh := late.start
  constructor
  · intro pindex read mapAccumulators loaded
    have scratch := earlier (nHeight - 1) pindex (by omega) read
    rw [show (nHeight - 1) / 10 * 10 = nHeight - 10 by omega] at scratch
    exact loadPrevious_scratch (holds.previous pindex read) holds.distinct scratch loaded
  · intro here low pindex read loaded
    obtain ⟨tens, _⟩ := good ⟨by omega, by omega, by omega⟩
    have scratch := earlier _ pindex low read
    rw [show node.params.nBlockLastGoodCheckpoint.toNat / 10 * 10 =
      node.params.nBlockLastGoodCheckpoint.toNat by omega] at scratch
    exact load_scratch (holds.lastGood here pindex read) holds.distinct scratch loaded

theorem chain_scratch {database : Nat → AccumulatorValues}
    (chain : CheckpointChain rules machinery node invalid database)
    (late : LateActivation node.params)
    (loads : ∀ height < nHeight, node.params.nZerocoinStartHeight ≤ height → height % 10 = 0 →
      CarriesBelow rules machinery node invalid height →
        Loads rules machinery node invalid (database height) height)
    (good : GoodRecalculation machinery node invalid nHeight) :
    CarriesBelow rules machinery node invalid nHeight := by
  intro height
  induction height using Nat.strong_induction_on with
  | _ height ih =>
    intro pindex inside read
    cases height with
    | zero =>
      rw [chain.genesis pindex read]
      rfl
    | succ height =>
      by_cases calculated : node.params.nZerocoinStartHeight ≤ ((height + 1 : Nat) : Int) ∧
          (height + 1) % 10 = 0
      · obtain ⟨fShutdown, values, found⟩ :=
          chain.calculated (height + 1) pindex read calculated.1 calculated.2
        rw [show (height + 1) / 10 * 10 = height + 1 by omega]
        have earlier : CarriesBelow rules machinery node invalid (height + 1) := by
          intro lower entry under at'
          exact ih lower under entry (Nat.lt_trans under inside) at'
        exact calculated_scratch chain.placed late calculated.2 calculated.1
          (recalculated_later (Nat.le_of_lt inside) good)
          (loads _ inside calculated.1 calculated.2 earlier) earlier found
      · have present : height < node.chainActive.length := by
          have length := (List.getElem?_eq_some_iff.mp read).1
          omega
        have previous := List.getElem?_eq_getElem present
        rw [chain.kept height _ pindex previous read (by omega),
          ih height (Nat.lt_succ_self _) _ (by omega) previous]
        by_cases tenth : (height + 1) % 10 = 0
        · unfold scratchCheckpoint
          rw [if_pos (acceptedMints_early (by omega)), if_pos (acceptedMints_early (by omega))]
        · rw [show (height + 1) / 10 = height / 10 by omega]

end Folding

def countingRules : AccumulatorRules where
  accumulatorBase := 2
  increment value _ := min (value + 1) 999
  getChecksum value := UInt32.ofNat value.toNat

def countingValues : AccumulatorValues := fun checksum =>
  if 0 < checksum.toNat ∧ checksum.toNat < 1000 then some checksum.toNat else none

def Counted (value : Int) : Prop := 0 < value ∧ value < 1000

theorem counting_checksum (value : Int) :
    (countingRules.getChecksum value).toNat = value.toNat % 2 ^ 32 := UInt32.toNat_ofNat'

theorem counting_accumulated {map : AccumulatorMap} (coins : List PublicCoin)
    (inside : ∀ denom, Counted (map denom)) (denom : CoinDenomination) :
    Counted (accumulateAll countingRules map coins denom) := by
  induction coins generalizing map with
  | nil => exact inside denom
  | cons coin rest ih =>
    apply ih
    intro other
    unfold increase
    by_cases own : other = coin.denomination
    · have value := inside coin.denomination
      rw [own, Function.update_self]
      unfold Counted at value ⊢
      show 0 < min (map coin.denomination + 1) 999 ∧ min (map coin.denomination + 1) 999 < 1000
      omega
    · rw [Function.update_of_ne own]
      exact inside other

theorem countingValues_some {checksum : UInt32} {value : Int}
    (stored : countingValues checksum = some value) :
    Counted value ∧ countingRules.getChecksum value = checksum := by
  unfold countingValues at stored
  split at stored
  · rename_i bounds
    cases stored
    unfold Counted
    exact ⟨by omega, UInt32.ofNat_toNat⟩
  · cases stored

section Counting

variable {machinery : Machinery} {node : Node} {invalid : InvalidMaps}

theorem counting_fromScratch (nHeight : Nat) (denom : CoinDenomination) :
    Counted (fromScratch countingRules machinery node invalid nHeight denom) :=
  counting_accumulated _ (fun _ => (by decide : (0 : Int) < 2 ∧ (2 : Int) < 1000)) denom

theorem counting_distinct :
    Set.InjOn countingRules.getChecksum
      (occurring countingRules machinery node invalid countingValues) := by
  have inside : ∀ value ∈ occurring countingRules machinery node invalid countingValues,
      Counted value := by
    rintro value (⟨checksum, stored⟩ | ⟨nHeight, denom, _, same⟩)
    · exact (countingValues_some stored).1
    · rw [← same]
      exact counting_fromScratch nHeight denom
  intro first firstIn second secondIn same
  have firstBounds := inside first firstIn
  have secondBounds := inside second secondIn
  have words := congrArg UInt32.toNat same
  rw [counting_checksum, counting_checksum] at words
  unfold Counted at firstBounds secondBounds
  omega

theorem counting_stored {map : AccumulatorMap} (inside : ∀ denom, Counted (map denom))
    (nHeight : Nat) :
    Stored countingRules machinery node invalid countingValues nHeight
      (getCheckpoint countingRules map) := by
  constructor
  · exact fun checksum value stored => (countingValues_some stored).2
  · intro _ denom member
    have value := inside denom
    rw [parseChecksum_getCheckpoint _ _ member]
    unfold countingValues
    rw [counting_checksum, if_pos]
    · rfl
    · unfold Counted at value
      omega
  · intro _ value stored
    cases stored

theorem unminted_stored {nHeight : Nat} (nCheckpoint : Uint256)
    (none' : acceptedMints machinery node invalid nHeight = []) :
    Stored countingRules machinery node invalid countingValues nHeight nCheckpoint := by
  constructor
  · exact fun checksum value stored => (countingValues_some stored).2
  · exact fun some' => absurd none' some'
  · intro _ value stored
    cases stored

end Counting

def parametersWith (nStart nRecalculate nLastGood : Int) : ChainParams :=
  { mainParams with
    nZerocoinStartHeight := nStart
    nBlockRecalculateAccumulators := nRecalculate
    nBlockLastGoodCheckpoint := nLastGood }

def mintingBlock (nHeight : Nat) : CBlock where
  nVersion := 4
  hashPrevBlock := 0
  hashMerkleRoot := 0
  nTime := 0
  nBits := 0
  nNonce := 0
  nAccumulatorCheckpoint := 0
  vtx := [⟨1, [⟨⟨BitVec.ofNat 256 nHeight, 0⟩, [], 0⟩], [⟨COIN, [OP_ZEROCOINMINT], -10⟩], 0⟩]
  vchBlockSig := []

def entryAt (checkpointAt : Nat → Uint256) (nHeight : Nat) : CBlockIndex :=
  { headerEntry labelMachinery [] with
    hash := BitVec.ofNat 256 nHeight
    nHeight := nHeight
    nAccumulatorCheckpoint := checkpointAt (nHeight / 10) }

def mintingNode (params : ChainParams) (checkpointAt : Nat → Uint256) (minted : List Nat)
    (length : Nat) : Node :=
  { syncingNode ((List.range length).map (entryAt checkpointAt)) with
    params := params
    readBlockFromDisk := fun hash =>
      some (if minted.contains hash.toNat then mintingBlock hash.toNat
        else { mintingBlock hash.toNat with vtx := [] }) }

def checkpointOf : Except Ending (Uint256 × AccumulatorValues) → Option Uint256
  | .ok (nCheckpoint, _) => some nCheckpoint
  | .error _ => none

theorem checkpointOf_some {result : Except Ending (Uint256 × AccumulatorValues)}
    {nCheckpoint : Uint256} (calculated : checkpointOf result = some nCheckpoint) :
    ∃ values, result = .ok (nCheckpoint, values) := by
  cases result with
  | error ending => cases calculated
  | ok pair =>
    cases calculated
    exact ⟨pair.2, rfl⟩

def noneInvalid : InvalidMaps := ⟨fun _ => false, fun _ => false⟩

section Minting

variable {params : ChainParams} {checkpointAt : Nat → Uint256} {minted : List Nat} {length : Nat}
  {invalid : InvalidMaps}

theorem mintingNode_entry {height : Nat} {pindex : CBlockIndex}
    (found : (mintingNode params checkpointAt minted length).chainActive[height]? = some pindex) :
    height < length ∧ pindex = entryAt checkpointAt height := by
  unfold mintingNode syncingNode at found
  obtain ⟨inside, same⟩ := List.getElem?_eq_some_iff.mp found
  rw [List.length_map, List.length_range] at inside
  rw [List.getElem_map, List.getElem_range] at same
  exact ⟨inside, same.symm⟩

theorem mintingNode_chain
    (early : ∀ tens : Nat, (10 * tens : Nat) < params.nZerocoinStartHeight → checkpointAt tens = 0)
    (late : 0 < params.nZerocoinStartHeight)
    (calculated : ∀ tens : Nat, 10 * tens < length →
      params.nZerocoinStartHeight ≤ (10 * tens : Nat) →
        checkpointOf (calculateAccumulatorCheckpoint countingRules labelMachinery
          (below (mintingNode params checkpointAt minted length) (10 * tens)) invalid
          (fun _ => false) (10 * tens : Nat) countingValues) = some (checkpointAt tens)) :
    CheckpointChain countingRules labelMachinery (mintingNode params checkpointAt minted length)
      invalid (fun _ => countingValues) := by
  constructor
  · intro height pindex found
    rw [(mintingNode_entry found).2]
    rfl
  · intro pindex found
    rw [(mintingNode_entry found).2]
    exact early 0 late
  · intro height previous pindex before found same
    rw [(mintingNode_entry before).2, (mintingNode_entry found).2]
    show checkpointAt ((height + 1) / 10) = checkpointAt (height / 10)
    by_cases tenth : (height + 1) % 10 = 0
    · have low : ((height + 1 : Nat) : Int) < params.nZerocoinStartHeight := by
        rcases same with low | other
        · exact low
        · exact absurd tenth other
      rw [early ((height + 1) / 10) (by omega), early (height / 10) (by omega)]
    · rw [show (height + 1) / 10 = height / 10 by omega]
  · intro height pindex found started tenth
    obtain ⟨inside, same⟩ := mintingNode_entry found
    obtain ⟨tens, shape⟩ := Nat.dvd_of_mod_eq_zero tenth
    subst shape
    have carried : pindex.nAccumulatorCheckpoint = checkpointAt tens := by
      rw [same]
      show checkpointAt (10 * tens / 10) = checkpointAt tens
      rw [Nat.mul_div_cancel_left _ (by decide)]
    rw [carried]
    obtain ⟨values, result⟩ := checkpointOf_some (calculated tens inside started)
    exact ⟨fun _ => false, values, result⟩

def ones (count : Int) : AccumulatorMap := fun denom => if denom = .ZQ_ONE then count else 2

theorem ones_counted {count : Int} (counted : Counted count) (denom : CoinDenomination) :
    Counted (ones count denom) := by
  unfold ones
  split_ifs
  · exact counted
  · exact (by decide : (0 : Int) < 2 ∧ (2 : Int) < 1000)

theorem mintingNode_holds (start : params.nZerocoinStartHeight = 20)
    (lastGood : 40 ≤ params.nBlockLastGoodCheckpoint)
    (packed : ∀ tens, 3 < tens →
      ∃ count, Counted count ∧ checkpointAt tens = getCheckpoint countingRules (ones count))
    (height : Nat) :
    DatabaseHolds countingRules labelMachinery (mintingNode params checkpointAt minted length)
      invalid countingValues height := by
  have stored : ∀ (index : Nat) pindex, 3 < index / 10 → ∀ nHeight,
      (mintingNode params checkpointAt minted length).chainActive[index]? = some pindex →
        Stored countingRules labelMachinery (mintingNode params checkpointAt minted length) invalid
          countingValues nHeight pindex.nAccumulatorCheckpoint := by
    intro index pindex high nHeight found
    obtain ⟨count, counted, pack⟩ := packed (index / 10) high
    rw [(mintingNode_entry found).2, show (entryAt checkpointAt index).nAccumulatorCheckpoint =
      getCheckpoint countingRules (ones count) from pack]
    exact counting_stored (ones_counted counted) nHeight
  constructor
  · intro pindex found
    by_cases early : height ≤ 40
    · apply unminted_stored
      apply acceptedMints_early
      show ((height - 10 : Nat) : Int) ≤ params.nZerocoinStartHeight + 10
      omega
    · exact stored (height - 1) pindex (by omega) _ found
  · intro _ pindex found
    exact stored _ pindex (show 3 < params.nBlockLastGoodCheckpoint.toNat / 10 by omega) _ found
  · exact counting_distinct

end Minting

def countsAt (fourth fifth : Int) (tens : Nat) : Uint256 :=
  if tens < 4 then 0 else getCheckpoint countingRules (ones (if tens = 4 then fourth else fifth))

theorem countsAt_packed {fourth fifth : Int} (first : Counted fourth) (second : Counted fifth)
    (tens : Nat) (high : 3 < tens) :
    ∃ count, Counted count ∧
      countsAt fourth fifth tens = getCheckpoint countingRules (ones count) := by
  unfold countsAt
  rw [if_neg (by omega)]
  split_ifs
  · exact ⟨fourth, first, rfl⟩
  · exact ⟨fifth, second, rfl⟩

instance (value : Int) : Decidable (Counted value) := inferInstanceAs (Decidable (_ ∧ _))

def Departs (node : Node) (invalid : InvalidMaps) (nHeight : Nat) : Prop :=
  CheckpointChain countingRules labelMachinery node invalid (fun _ => countingValues) ∧
    LateActivation node.params ∧ nHeight % 10 = 0 ∧
    (∀ height, DatabaseHolds countingRules labelMachinery node invalid countingValues height) ∧
    ∃ nCheckpoint after,
      calculateAccumulatorCheckpoint countingRules labelMachinery (below node nHeight) invalid
        (fun _ => false) nHeight countingValues = .ok (nCheckpoint, after) ∧
      nCheckpoint ≠
        getCheckpoint countingRules (fromScratch countingRules labelMachinery node invalid nHeight)

section Departures

variable {params : ChainParams} {fourth fifth : Int} {minted : List Nat} {length : Nat}
  {invalid : InvalidMaps}

theorem minted_chain (start : params.nZerocoinStartHeight = 20) (short : length ≤ 60)
    (calculated : ∀ tens ∈ [2, 3, 4, 5], 10 * tens < length →
      checkpointOf (calculateAccumulatorCheckpoint countingRules labelMachinery
        (below (mintingNode params (countsAt fourth fifth) minted length) (10 * tens)) invalid
        (fun _ => false) (10 * tens : Nat) countingValues) = some (countsAt fourth fifth tens)) :
    CheckpointChain countingRules labelMachinery
      (mintingNode params (countsAt fourth fifth) minted length) invalid
      (fun _ => countingValues) := by
  apply mintingNode_chain
  · intro tens low
    unfold countsAt
    rw [if_pos (by omega)]
  · omega
  · intro tens inside started
    refine calculated tens ?_ inside
    have which : tens = 2 ∨ tens = 3 ∨ tens = 4 ∨ tens = 5 := by omega
    simpa using which

theorem departs {nHeight : Nat} {nCheckpoint : Uint256} (tenth : nHeight % 10 = 0)
    (start : params.nZerocoinStartHeight = 20)
    (recalculate : 20 ≤ params.nBlockRecalculateAccumulators)
    (lastGood : 40 ≤ params.nBlockLastGoodCheckpoint) (first : Counted fourth)
    (second : Counted fifth) (short : length ≤ 60)
    (calculated : ∀ tens ∈ [2, 3, 4, 5], 10 * tens < length →
      checkpointOf (calculateAccumulatorCheckpoint countingRules labelMachinery
        (below (mintingNode params (countsAt fourth fifth) minted length) (10 * tens)) invalid
        (fun _ => false) (10 * tens : Nat) countingValues) = some (countsAt fourth fifth tens))
    (result : checkpointOf (calculateAccumulatorCheckpoint countingRules labelMachinery
      (below (mintingNode params (countsAt fourth fifth) minted length) nHeight) invalid
      (fun _ => false) nHeight countingValues) = some nCheckpoint)
    (other : nCheckpoint ≠ getCheckpoint countingRules (fromScratch countingRules labelMachinery
      (mintingNode params (countsAt fourth fifth) minted length) invalid nHeight)) :
    Departs (mintingNode params (countsAt fourth fifth) minted length) invalid nHeight := by
  have activation : LateActivation params := ⟨by omega, recalculate, by omega⟩
  obtain ⟨after, same⟩ := checkpointOf_some result
  exact ⟨minted_chain start short calculated, activation, tenth,
    mintingNode_holds start lastGood (countsAt_packed first second), nCheckpoint, after, same,
    other⟩

end Departures

def firstMints : Node := mintingNode (parametersWith 20 1005 1005) (countsAt 4 4) [22, 25] 40

def betweenTens : Node := mintingNode (parametersWith 20 60 45) (countsAt 3 5) [22, 32, 36] 60

def allFiltered : Node := mintingNode (parametersWith 20 60 40) (countsAt 3 4) [22, 32] 60

def mintInvalid : InvalidMaps := ⟨fun out => out.hash == 32, fun _ => false⟩

end OxidCheckpointChain
