import Oxid.Pow
import Oxid.Library.RunningAverage

/-!
What `GetNextWorkRequired` does with the target before it, against what the formulas say in
whole numbers.
-/
namespace OxidRetargeting
open OxidPrimitives OxidChainParams OxidPow

def targetOf (pindex : CBlockIndex) : Nat := (setCompact pindex.nBits).bnTarget.toNat

section Staked

/-- An entry above the last proof-of-work height, its parent and the entries below. -/
structure StakedChain (params : ChainParams) where
  last : CBlockIndex
  prev : CBlockIndex
  older : List CBlockIndex
  tall : 24 ≤ last.nHeight
  staked : params.nLastPOWBlock < last.nHeight

def nTargetSpacing : Nat := 60
def nInterval : Nat := 40

variable {params : ChainParams}

namespace StakedChain
variable (chain : StakedChain params)

def nActualSpacing : Nat :=
  let spacing := chain.last.getBlockTime - chain.prev.getBlockTime
  if spacing < 0 then 1 else spacing.toNat

def multiplier : Nat :=
  (nInterval - 1) * nTargetSpacing + chain.nActualSpacing + chain.nActualSpacing

def exactTarget : Nat :=
  targetOf chain.last * chain.multiplier / ((nInterval + 1) * nTargetSpacing)

/-- The exact target, with the limit for what is above it and for nothing. -/
def cappedTarget : Nat :=
  if chain.exactTarget = 0 ∨ bnTargetLimit.toNat < chain.exactTarget then bnTargetLimit.toNat
  else chain.exactTarget

def nextBits : Option UInt32 :=
  getNextWorkRequired params (chain.last :: chain.prev :: chain.older)

/-- The next bits are the exact target's, and nothing on the way there wraps around. -/
structure RetargetsExactly : Prop where
  returned : chain.nextBits = some (getCompact (BitVec.ofNat 256 chain.cappedTarget))
  word : (UInt32.ofNat chain.multiplier).toNat = chain.multiplier
  product : ((setCompact chain.last.nBits).bnTarget * BitVec.ofNat 256 chain.multiplier).toNat =
    targetOf chain.last * chain.multiplier
  positive : ∀ nBits, chain.nextBits = some nBits →
    (setCompact nBits).fNegative = false ∧ (setCompact nBits).bnTarget ≠ 0

def Fits : Prop :=
  chain.multiplier < 2 ^ 32 ∧ targetOf chain.last * chain.multiplier < 2 ^ 256

end StakedChain

/-- Both chains retarget exactly, and from one old target the longer spacing does not give
    the smaller next one. -/
structure RetargetsSoundly (chain other : StakedChain params) : Prop where
  first : chain.RetargetsExactly
  second : other.RetargetsExactly
  monotone : chain.last.nBits = other.last.nBits → chain.nActualSpacing ≤ other.nActualSpacing →
    ∀ nBits nBits', chain.nextBits = some nBits → other.nextBits = some nBits' →
      (setCompact nBits).bnTarget ≤ (setCompact nBits').bnTarget

/-- A target of 1 that a short spacing brings to nothing, and so to the limit, and a longer
    one does not. -/
def Vanishes (chain other : StakedChain params) : Prop :=
  chain.last.nBits = other.last.nBits ∧ targetOf chain.last = 1 ∧
    chain.nActualSpacing < nTargetSpacing ∧ nTargetSpacing ≤ other.nActualSpacing

namespace StakedChain
variable {chain other : StakedChain params}

theorem nextBits_eq : chain.nextBits = some (retarget chain.last chain.prev) := by
  have tall := chain.tall
  unfold nextBits getNextWorkRequired
  dsimp only
  rw [if_neg (by omega), if_pos chain.staked]
  rfl

theorem limit_toNat : bnTargetLimit.toNat = 2 ^ 232 - 1 := by decide

theorem retarget_spacing (last prev : CBlockIndex) : retarget last prev =
    let spacing := last.getBlockTime - prev.getBlockTime
    let nActualSpacing : Nat := if spacing < 0 then 1 else spacing.toNat
    let factor := (39 * 60 + nActualSpacing + nActualSpacing) % 2 ^ 32
    let bnNew := (setCompact last.nBits).bnTarget * BitVec.ofNat 256 factor / BitVec.ofNat 256 2460
    getCompact (if bnNew = 0 ∨ bnTargetLimit < bnNew then bnTargetLimit else bnNew) := by
  unfold retarget
  generalize last.getBlockTime - prev.getBlockTime = spacing
  dsimp only
  have same : (39 * 60 + (if spacing < 0 then 1 else spacing) +
      (if spacing < 0 then 1 else spacing)) % 2 ^ 32 =
      (((39 * 60 + (if spacing < 0 then 1 else spacing.toNat) +
        (if spacing < 0 then 1 else spacing.toNat)) % 2 ^ 32 : Nat) : Int) := by
    split <;> omega
  rw [same]
  rfl

theorem cappedTarget_bounds : 0 < chain.cappedTarget ∧ chain.cappedTarget ≤ 2 ^ 232 - 1 := by
  unfold cappedTarget
  rw [limit_toNat]
  split
  · decide
  · omega

theorem cappedTarget_toNat : (BitVec.ofNat 256 chain.cappedTarget).toNat = chain.cappedTarget := by
  have bounds := @cappedTarget_bounds params chain
  exact Nat.mod_eq_of_lt (by omega)

theorem product_exact (fits : chain.Fits) :
    ((setCompact chain.last.nBits).bnTarget * BitVec.ofNat 256 chain.multiplier).toNat =
      targetOf chain.last * chain.multiplier := by
  obtain ⟨word, product⟩ := fits
  rw [BitVec.toNat_mul, BitVec.toNat_ofNat, Nat.mod_eq_of_lt (show chain.multiplier < 2 ^ 256 by omega)]
  exact Nat.mod_eq_of_lt product

theorem fits_retarget (fits : chain.Fits) :
    retarget chain.last chain.prev = getCompact (BitVec.ofNat 256 chain.cappedTarget) := by
  have word : chain.multiplier % 2 ^ 32 = chain.multiplier := Nat.mod_eq_of_lt fits.1
  have divided : ((setCompact chain.last.nBits).bnTarget * BitVec.ofNat 256 chain.multiplier /
      BitVec.ofNat 256 2460).toNat = chain.exactTarget := by
    rw [BitVec.toNat_udiv, product_exact fits]
    rfl
  rw [retarget_spacing]
  change getCompact (if (setCompact chain.last.nBits).bnTarget *
        BitVec.ofNat 256 (chain.multiplier % 2 ^ 32) / BitVec.ofNat 256 2460 = 0 ∨ bnTargetLimit <
          (setCompact chain.last.nBits).bnTarget *
            BitVec.ofNat 256 (chain.multiplier % 2 ^ 32) / BitVec.ofNat 256 2460
      then bnTargetLimit else (setCompact chain.last.nBits).bnTarget *
        BitVec.ofNat 256 (chain.multiplier % 2 ^ 32) / BitVec.ofNat 256 2460) = _
  rw [word]
  generalize (setCompact chain.last.nBits).bnTarget * BitVec.ofNat 256 chain.multiplier /
    BitVec.ofNat 256 2460 = bnNew at divided ⊢
  congr 1
  apply BitVec.eq_of_toNat_eq
  rw [cappedTarget_toNat]
  unfold cappedTarget
  have zero : bnNew = 0 ↔ chain.exactTarget = 0 := by
    rw [← divided]
    exact BitVec.toNat_eq
  have above : bnTargetLimit < bnNew ↔ bnTargetLimit.toNat < chain.exactTarget := by
    rw [← divided]
    exact BitVec.lt_def
  by_cases outside : chain.exactTarget = 0 ∨ bnTargetLimit.toNat < chain.exactTarget
  · rw [if_pos outside, if_pos (by rwa [zero, above])]
  · rw [if_neg outside, if_neg (by rwa [zero, above])]
    exact divided

theorem next_target {nBits : UInt32} (fits : chain.Fits) (next : chain.nextBits = some nBits) :
    (setCompact nBits).fNegative = false ∧ (setCompact nBits).bnTarget.toNat =
      (CompactNumber.decode (CompactNumber.encode chain.cappedTarget)).value := by
  rw [nextBits_eq, fits_retarget fits] at next
  obtain rfl := Option.some.inj next
  have positive : 0 < (BitVec.ofNat 256 chain.cappedTarget).toNat := by
    rw [cappedTarget_toNat]
    exact cappedTarget_bounds.1
  obtain ⟨sign, _, value⟩ := setCompact_getCompact positive
  rw [cappedTarget_toNat] at value
  exact ⟨sign, value⟩

theorem retargetsExactly_iff : chain.RetargetsExactly ↔ chain.Fits := by
  constructor
  · intro exact
    have word := exact.word
    have product := exact.product
    refine ⟨?_, ?_⟩
    · rw [← word]
      exact Nat.mod_lt _ (by norm_num)
    · rw [← product]
      exact BitVec.isLt _
  · intro fits
    refine ⟨?_, ?_, product_exact fits, ?_⟩
    · rw [nextBits_eq, fits_retarget fits]
    · rw [UInt32.toNat_ofNat']
      exact Nat.mod_eq_of_lt fits.1
    · intro nBits next
      obtain ⟨sign, value⟩ := next_target fits next
      have bounds := @cappedTarget_bounds params chain
      obtain ⟨_, _, positive, _⟩ := CompactNumber.decode_encode bounds.1 (by omega)
      refine ⟨sign, ?_⟩
      intro zero
      rw [zero] at value
      simp at value
      omega

end StakedChain

variable {chain other : StakedChain params}

theorem exactTarget_one (one : targetOf chain.last = 1) :
    chain.exactTarget = (2340 + chain.nActualSpacing + chain.nActualSpacing) / 2460 := by
  unfold StakedChain.exactTarget
  rw [one, Nat.one_mul]
  rfl

theorem vanishes_descends (fits : chain.Fits) (otherFits : other.Fits)
    (vanishes : Vanishes chain other) {nBits nBits' : UInt32}
    (next : chain.nextBits = some nBits) (otherNext : other.nextBits = some nBits') :
    (setCompact nBits').bnTarget < (setCompact nBits).bnTarget := by
  obtain ⟨bits, one, short, long⟩ := vanishes
  have otherOne : targetOf other.last = 1 := by
    unfold targetOf at one ⊢
    rw [← bits]
    exact one
  unfold nTargetSpacing at short long
  have nothing : chain.exactTarget = 0 := by
    rw [exactTarget_one one]
    omega
  have some' : other.exactTarget ≠ 0 ∧ other.exactTarget < 2 ^ 22 := by
    have word := otherFits.1
    unfold StakedChain.multiplier at word
    rw [exactTarget_one otherOne]
    omega
  have atLimit : chain.cappedTarget = 2 ^ 232 - 1 := by
    unfold StakedChain.cappedTarget
    rw [if_pos (Or.inl nothing), StakedChain.limit_toNat]
  have below : other.cappedTarget = other.exactTarget := by
    unfold StakedChain.cappedTarget
    rw [StakedChain.limit_toNat]
    exact if_neg (by omega)
  have high := (StakedChain.next_target fits next).2
  have low := (StakedChain.next_target otherFits otherNext).2
  have positive : 0 < other.cappedTarget := StakedChain.cappedTarget_bounds.1
  obtain ⟨_, _, _, least⟩ := CompactNumber.decode_encode positive (by omega)
  have limit : (CompactNumber.decode (CompactNumber.encode (2 ^ 232 - 1))).value =
      0xffff * 256 ^ 27 := by decide +kernel
  rw [atLimit, limit] at high
  rw [BitVec.lt_def, high, low]
  omega

theorem capped_mono (apart : ¬Vanishes chain other)
    (bits : chain.last.nBits = other.last.nBits)
    (longer : chain.nActualSpacing ≤ other.nActualSpacing) :
    chain.cappedTarget ≤ other.cappedTarget := by
  have old : targetOf other.last = targetOf chain.last := by
    unfold targetOf
    rw [bits]
  have exact : chain.exactTarget ≤ other.exactTarget := by
    unfold StakedChain.exactTarget StakedChain.multiplier
    rw [old]
    exact Nat.div_le_div_right (Nat.mul_le_mul_left _ (by omega))
  have nothing : chain.exactTarget = 0 → other.exactTarget = 0 := by
    intro zero
    rcases Nat.lt_trichotomy (targetOf chain.last) 1 with none' | one | more
    · unfold StakedChain.exactTarget
      rw [old, Nat.lt_one_iff.mp none']
      simp
    · have short : ¬(chain.nActualSpacing < nTargetSpacing ∧
          nTargetSpacing ≤ other.nActualSpacing) := fun between =>
        apart ⟨bits, one, between⟩
      unfold nTargetSpacing at short
      rw [exactTarget_one one] at zero
      rw [exactTarget_one (old.trans one)]
      omega
    · exfalso
      have product : 2 * chain.multiplier ≤ targetOf chain.last * chain.multiplier :=
        Nat.mul_le_mul_right _ more
      unfold StakedChain.exactTarget at zero
      unfold StakedChain.multiplier nInterval nTargetSpacing at zero product
      omega
  unfold StakedChain.cappedTarget
  split
  · rename_i outside
    rcases outside with zero | above
    · rw [if_pos (Or.inl (nothing zero))]
    · rw [if_pos (Or.inr (by omega))]
  · rename_i inside
    split
    · omega
    · exact exact

/-- From one entry to the next the retargeting is exact and monotone where nothing
    overflows, except around a target of 1 that rounds to nothing. -/
theorem retargets_soundly_iff (chain other : StakedChain params) :
    RetargetsSoundly chain other ↔ chain.Fits ∧ other.Fits ∧ ¬Vanishes chain other := by
  constructor
  · intro sound
    have fits := StakedChain.retargetsExactly_iff.mp sound.first
    have otherFits := StakedChain.retargetsExactly_iff.mp sound.second
    refine ⟨fits, otherFits, ?_⟩
    intro vanishes
    have longer : chain.nActualSpacing ≤ other.nActualSpacing := by
      have short := vanishes.2.2
      omega
    have risen := sound.monotone vanishes.1 longer _ _ StakedChain.nextBits_eq
      StakedChain.nextBits_eq
    have fallen := vanishes_descends fits otherFits vanishes StakedChain.nextBits_eq
      StakedChain.nextBits_eq
    rw [BitVec.le_def] at risen
    rw [BitVec.lt_def] at fallen
    omega
  · rintro ⟨fits, otherFits, apart⟩
    refine ⟨StakedChain.retargetsExactly_iff.mpr fits, StakedChain.retargetsExactly_iff.mpr otherFits,
      ?_⟩
    intro bits longer nBits nBits' next otherNext
    rw [BitVec.le_def, (StakedChain.next_target fits next).2,
      (StakedChain.next_target otherFits otherNext).2]
    have bounds := @StakedChain.cappedTarget_bounds params chain
    exact CompactNumber.decode_encode_mono bounds.1 (capped_mono apart bits longer)

def longGap : StakedChain mainParams where
  last := { genesisEntry with nHeight := 2001, nTime := 1548387567, nBits := 0x1e00ffff }
  prev := { genesisEntry with nHeight := 2000, nTime := 1540000000, nBits := 0x1e00ffff }
  older := []
  tall := by decide
  staked := by decide

theorem long_gap_hardens : ¬∀ (params : ChainParams) (chain other : StakedChain params),
    RetargetsSoundly chain other := by
  intro promised
  have returned := (promised mainParams longGap longGap).first.returned
  exact absurd returned (by decide +kernel)

example : longGap.nextBits = some 0x1c352d2a ∧
    getCompact (BitVec.ofNat 256 longGap.cappedTarget) = 0x1e00ffff := by decide +kernel

end Staked

section Mined
open RunningAverage

def PastBlocksMax : Nat := 24

/-- `Params().TargetSpacing()`. -/
def targetSpacing (params : ChainParams) : Int := if params.mainNet then 120 else 60

def targetTimespan (params : ChainParams) : Int := PastBlocksMax * targetSpacing params

/-- An entry of the proof-of-work heights with the window of entries the average is over. -/
structure MinedChain (params : ChainParams) where
  last : CBlockIndex
  older : List CBlockIndex
  tall : 24 ≤ last.nHeight
  mined : last.nHeight ≤ params.nLastPOWBlock
  linked : (last :: older).IsChain fun pindex pprev => pindex.nHeight = pprev.nHeight + 1
  long : PastBlocksMax ≤ older.length + 1

def sumTimespan : List CBlockIndex → Int → Int → Int
  | [], _, nActualTimespan => nActualTimespan
  | reading :: older, lastBlockTime, nActualTimespan =>
    sumTimespan older reading.getBlockTime
      (if 0 < lastBlockTime then nActualTimespan + (lastBlockTime - reading.getBlockTime)
      else nActualTimespan)

variable {params : ChainParams}

namespace MinedChain
variable (chain : MinedChain params)

def window : List CBlockIndex := (chain.last :: chain.older).take PastBlocksMax

def pastTargets : List Nat := chain.window.map targetOf

def averagePast : Nat := averageFrom exactStep chain.pastTargets 0 0

/-- `nActualTimespan` as it stands at the end, within a third and three times the target. -/
def actualTimespan : Int :=
  let nActualTimespan := sumTimespan chain.window 0 0
  let nActualTimespan := if nActualTimespan < targetTimespan params / 3 then
    targetTimespan params / 3 else nActualTimespan
  if targetTimespan params * 3 < nActualTimespan then targetTimespan params * 3
  else nActualTimespan

def scaledTarget : Nat :=
  chain.averagePast * chain.actualTimespan.toNat / (targetTimespan params).toNat

def nextBits : Option UInt32 := getNextWorkRequired params (chain.last :: chain.older)

end MinedChain

def limitedBits (params : ChainParams) (target : Nat) : UInt32 :=
  getCompact (BitVec.ofNat 256 (min target params.bnProofOfWorkLimit.toNat))

namespace MinedChain
variable (chain : MinedChain params)

/-- The average is that of the window's targets and within them, and the next bits are the
    average's, scaled by the timespan. -/
structure ScalesAverage : Prop where
  average : (averageTarget (chain.last :: chain.older) 0 0).toNat = chain.averagePast
  least : ∃ low ∈ chain.pastTargets, low ≤ chain.averagePast
  most : ∃ high ∈ chain.pastTargets, chain.averagePast ≤ high
  scaled : chain.nextBits = some (limitedBits params chain.scaledTarget)

def AverageFits : Prop := Fits (2 ^ 256) chain.pastTargets 0 0

/-- Under the limit and in compact form the scaling does not show. -/
def Unscaled : Prop :=
  limitedBits params chain.averagePast = limitedBits params chain.scaledTarget

end MinedChain

/-- Both chains scale their averages, and over one window of targets the slower blocks do
    not get the smaller next target. -/
structure ScalesSoundly (chain other : MinedChain params) : Prop where
  first : chain.ScalesAverage
  second : other.ScalesAverage
  monotone : chain.pastTargets = other.pastTargets → chain.actualTimespan ≤ other.actualTimespan →
    ∀ nBits nBits', chain.nextBits = some nBits → other.nextBits = some nBits' →
      (setCompact nBits).bnTarget ≤ (setCompact nBits').bnTarget

namespace MinedChain
variable {chain other : MinedChain params}

theorem window_length : chain.window.length = PastBlocksMax := by
  have long := chain.long
  unfold window
  rw [List.length_take, List.length_cons]
  omega

theorem linked_heights {entries : List CBlockIndex} {last : CBlockIndex}
    (linked : (last :: entries).IsChain fun pindex pprev => pindex.nHeight = pprev.nHeight + 1)
    (count : Nat) : ∀ pindex ∈ (last :: entries).take count,
      last.nHeight < pindex.nHeight + count := by
  induction count generalizing last entries with
  | zero => simp
  | succ count ih =>
    intro pindex member
    rw [List.take_succ_cons, List.mem_cons] at member
    rcases member with rfl | member
    · omega
    · cases entries with
      | nil => simp at member
      | cons next rest =>
        obtain ⟨step, later⟩ := List.isChain_cons_cons.mp linked
        have below := ih later pindex member
        omega

theorem window_above : ∀ pindex ∈ chain.window, 0 < pindex.nHeight := by
  intro pindex member
  have below := linked_heights chain.linked PastBlocksMax pindex member
  have tall := chain.tall
  unfold PastBlocksMax at below
  omega

end MinedChain

theorem average_step {count : Nat} (average bnTarget : Uint256) (few : count < 24) :
    (if count = 0 then bnTarget else (average * BitVec.ofNat 256 (count + 1) + bnTarget) /
      BitVec.ofNat 256 (count + 2)).toNat =
        wordStep (2 ^ 256) count average.toNat bnTarget.toNat := by
  unfold wordStep
  split
  · rfl
  · have next : (BitVec.ofNat 256 (count + 2)).toNat = count + 2 := by
      exact Nat.mod_eq_of_lt (by omega)
    rw [BitVec.toNat_udiv, BitVec.toNat_add, BitVec.toNat_mul, BitVec.toNat_ofNat, next,
      Nat.mod_eq_of_lt (show count + 1 < 2 ^ 256 by omega), Nat.mod_add_mod]

theorem averageTarget_toNat (window rest : List CBlockIndex) {count : Nat} (average : Uint256)
    (above : ∀ pindex ∈ window, 0 < pindex.nHeight) (full : count + window.length = 24) :
    (averageTarget (window ++ rest) count average).toNat =
      averageFrom (wordStep (2 ^ 256)) (window.map targetOf) count average.toNat := by
  induction window generalizing count average with
  | nil =>
    have stop : 24 ≤ count := by
      rw [List.length_nil] at full
      omega
    cases rest with
    | nil => rfl
    | cons reading older =>
      rw [List.nil_append]
      unfold averageTarget
      rw [if_pos (Or.inr stop)]
      rfl
  | cons reading older ih =>
    rw [List.length_cons] at full
    have height := above reading (by simp)
    rw [List.cons_append]
    unfold averageTarget
    rw [if_neg (by omega)]
    rw [ih _ (fun other member => above other (by simp [member])) (by omega),
      average_step average _ (by omega)]
    rfl

namespace MinedChain
variable {chain other : MinedChain params}

theorem nextBits_eq : chain.nextBits =
    some (limitedBits params (averageTarget (chain.last :: chain.older) 0 0).toNat) := by
  have tall := chain.tall
  have mined := chain.mined
  unfold nextBits getNextWorkRequired limitedBits
  dsimp only
  rw [if_neg (by omega), if_neg (by omega)]
  generalize averageTarget (chain.last :: chain.older) 0 0 = bnNew
  congr 2
  apply BitVec.eq_of_toNat_eq
  rw [BitVec.toNat_ofNat, Nat.mod_eq_of_lt (lt_of_le_of_lt (Nat.min_le_left _ _) bnNew.isLt)]
  split
  · rename_i above
    rw [BitVec.lt_def] at above
    omega
  · rename_i within
    rw [BitVec.lt_def] at within
    omega

theorem average_exact_iff : (averageTarget (chain.last :: chain.older) 0 0).toNat =
    chain.averagePast ↔ chain.AverageFits := by
  have length := @window_length params chain
  have whole : chain.window ++ (chain.last :: chain.older).drop PastBlocksMax =
      chain.last :: chain.older := List.take_append_drop _ _
  have words := averageTarget_toNat chain.window ((chain.last :: chain.older).drop PastBlocksMax)
    0 window_above (by rw [length]; rfl)
  rw [whole] at words
  rw [words]
  refine word_exact_iff chain.pastTargets ?_
  unfold pastTargets PastBlocksMax at *
  rw [List.length_map, length]
  decide

theorem averagePast_between : (∃ low ∈ chain.pastTargets, low ≤ chain.averagePast) ∧
    ∃ high ∈ chain.pastTargets, chain.averagePast ≤ high := by
  have some' : chain.pastTargets ≠ [] := by
    intro none'
    have length := @window_length params chain
    rw [List.map_eq_nil_iff.mp none'] at length
    cases length
  have between : chain.pastTargets.min some' ≤ chain.averagePast ∧
      chain.averagePast ≤ chain.pastTargets.max some' :=
    exact_between chain.pastTargets (fun none' => absurd none' (by decide)) (Or.inr some')
      (fun _ member => List.min_le_of_mem member) (fun _ member => List.le_max_of_mem member)
  exact ⟨⟨_, List.min_mem some', between.1⟩, ⟨_, List.max_mem some', between.2⟩⟩

theorem scalesAverage_iff : chain.ScalesAverage ↔ chain.AverageFits ∧ chain.Unscaled := by
  constructor
  · intro scales
    have next := scales.scaled
    rw [nextBits_eq, scales.average] at next
    exact ⟨average_exact_iff.mp scales.average, Option.some.inj next⟩
  · rintro ⟨fits, unscaled⟩
    have average := average_exact_iff.mpr fits
    refine ⟨average, averagePast_between.1, averagePast_between.2, ?_⟩
    rw [nextBits_eq, average]
    exact congrArg some unscaled

end MinedChain

variable {chain other : MinedChain params}

/-- The missing scaling stays hidden where it would not change the bits, and the average is
    right where no weighted sum wraps around. -/
theorem scales_soundly_iff (chain other : MinedChain params) : ScalesSoundly chain other ↔
    (chain.AverageFits ∧ chain.Unscaled) ∧ other.AverageFits ∧ other.Unscaled := by
  constructor
  · intro sound
    exact ⟨MinedChain.scalesAverage_iff.mp sound.first, MinedChain.scalesAverage_iff.mp sound.second⟩
  · rintro ⟨here, there⟩
    refine ⟨MinedChain.scalesAverage_iff.mpr here, MinedChain.scalesAverage_iff.mpr there, ?_⟩
    intro targets _ nBits nBits' next otherNext
    have same : chain.averagePast = other.averagePast := by
      unfold MinedChain.averagePast
      rw [targets]
    rw [MinedChain.nextBits_eq, MinedChain.average_exact_iff.mpr here.1] at next
    rw [MinedChain.nextBits_eq, MinedChain.average_exact_iff.mpr there.1] at otherNext
    rw [← Option.some.inj next, ← Option.some.inj otherNext, same]
    exact BitVec.le_refl _

def fastEntry (nHeight : Nat) : CBlockIndex :=
  { genesisEntry with
    nHeight := nHeight
    nTime := 1540710000 + 60 * UInt32.ofNat nHeight
    nBits := 0x1e0ffff0 }

def fastChain : MinedChain mainParams where
  last := fastEntry 30
  older := (List.range 30).reverse.map fastEntry
  tall := by decide
  mined := by decide
  linked := by decide
  long := by decide

theorem fast_blocks_unscaled : ¬∀ (params : ChainParams) (chain other : MinedChain params),
    ScalesSoundly chain other := by
  intro promised
  have scaled := (promised mainParams fastChain fastChain).first.scaled
  exact absurd scaled (by decide +kernel)

end Mined

end OxidRetargeting
