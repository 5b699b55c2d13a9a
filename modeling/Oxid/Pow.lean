import Oxid.ChainParams
import Oxid.Library.CompactNumber

/-!
Targets, retargeting and the checks a proof-of-work header passes. An ancestry
is the list of index entries from a block's parent down. The floating-point
comparison of two difficulties is a parameter; the hash comparison is absent
here as it is in the source, where it is commented out.
-/
namespace OxidPow
open OxidPrimitives OxidChainParams

structure CompactTarget where
  bnTarget : Uint256
  fNegative : Bool
  fOverflow : Bool
deriving DecidableEq, Repr

def setCompact (nCompact : UInt32) : CompactTarget :=
  let decoded := CompactNumber.decode nCompact.toNat
  ⟨BitVec.ofNat 256 decoded.value, decoded.negative, decoded.overflow⟩

def getCompact (bn : Uint256) : UInt32 := UInt32.ofNat (CompactNumber.encode bn.toNat)

/-- The target range test of `CheckProofOfWork`. -/
def InRange (params : ChainParams) (nBits : UInt32) : Prop :=
  (setCompact nBits).fNegative = false ∧ (setCompact nBits).bnTarget ≠ 0 ∧
    (setCompact nBits).fOverflow = false ∧
    (setCompact nBits).bnTarget ≤ params.bnProofOfWorkLimit

instance (params : ChainParams) (nBits : UInt32) : Decidable (InRange params nBits) :=
  inferInstanceAs (Decidable (_ ∧ _ ∧ _ ∧ _))

def checkProofOfWork (params : ChainParams) (_hash : Uint256) (nBits : UInt32) : Bool :=
  if params.fSkipProofOfWorkCheck then true
  else decide (InRange params nBits)

def bnTargetLimit : Uint256 := (~~~(0 : Uint256)) >>> 24

/-- The branch above the last proof-of-work height. The factor is an int64 that
    the multiplication takes as a uint32. -/
def retarget (last prev : CBlockIndex) : UInt32 :=
  let nActualSpacing := last.getBlockTime - prev.getBlockTime
  let nActualSpacing := if nActualSpacing < 0 then 1 else nActualSpacing
  let factor := (39 * 60 + nActualSpacing + nActualSpacing) % 2 ^ 32
  let bnNew := (setCompact last.nBits).bnTarget * BitVec.ofInt 256 factor / BitVec.ofNat 256 2460
  getCompact (if bnNew = 0 ∨ bnTargetLimit < bnNew then bnTargetLimit else bnNew)

/-- The loop over up to 24 entries. The timespan it also sums never reaches the
    result and is left out. -/
def averageTarget : List CBlockIndex → Nat → Uint256 → Uint256
  | [], _, average => average
  | reading :: older, count, average =>
    if reading.nHeight ≤ 0 ∨ 24 ≤ count then average
    else
      let bnTarget := (setCompact reading.nBits).bnTarget
      let next :=
        if count = 0 then bnTarget
        else (average * BitVec.ofNat 256 (count + 1) + bnTarget) / BitVec.ofNat 256 (count + 2)
      averageTarget older (count + 1) next

def getNextWorkRequired (params : ChainParams) : List CBlockIndex → Option UInt32
  | [] => some (getCompact params.bnProofOfWorkLimit)
  | last :: older =>
    if last.nHeight = 0 ∨ last.nHeight < 24 then some (getCompact params.bnProofOfWorkLimit)
    else if params.nLastPOWBlock < last.nHeight then
      older.head?.map (retarget last)
    else
      let bnNew := averageTarget (last :: older) 0 0
      some (getCompact (if params.bnProofOfWorkLimit < bnNew then params.bnProofOfWorkLimit
        else bnNew))

/-- `CheckWork`. `bitsApart` is the test `abs(n1 - n2) > n1 * 0.5` on the doubles
    of two compact targets. -/
def checkWork (params : ChainParams) (bitsApart : UInt32 → UInt32 → Bool) (block : CBlock)
    (ancestry : List CBlockIndex) : Bool :=
  match ancestry with
  | [] => false
  | prev :: _ =>
    match getNextWorkRequired params ancestry with
    | none => false
    | some nBitsRequired =>
      if block.isProofOfWork && decide (prev.nHeight + 1 ≤ 68589) then
        !bitsApart block.nBits nBitsRequired
      else block.nBits == nBitsRequired

def checkBlockHeader (params : ChainParams) (hash : Uint256) (block : CBlockHeader)
    (fCheckPOW : Bool) : Check :=
  if fCheckPOW && !checkProofOfWork params hash block.nBits then
    fail (CValidationState.init.dos 50 REJECT_INVALID "high-hash" false)
  else if params.nZerocoinStartTime < (block.nTime.toNat : Int) then
    if block.nVersion < params.nZerocoinHeaderVersion then
      fail (CValidationState.init.dos 50 REJECT_INVALID "block-version" false)
    else .ok ()
  else if params.nZerocoinHeaderVersion ≤ block.nVersion then
    fail (CValidationState.init.dos 50 REJECT_INVALID "block-version" false)
  else .ok ()

theorem getCompact_toNat (bn : Uint256) :
    (getCompact bn).toNat = CompactNumber.encode bn.toNat := by
  have size : bn.toNat < 256 ^ 32 := by
    omega
  unfold getCompact
  exact Nat.mod_eq_of_lt (CompactNumber.encode_lt size)

theorem setCompact_getCompact {bn : Uint256} (positive : 0 < bn.toNat) :
    (setCompact (getCompact bn)).fNegative = false ∧
      (setCompact (getCompact bn)).fOverflow = false ∧
      (setCompact (getCompact bn)).bnTarget.toNat =
        (CompactNumber.decode (CompactNumber.encode bn.toNat)).value := by
  have size : bn.toNat < 256 ^ 32 := by
    omega
  obtain ⟨sign, range, _, below⟩ := CompactNumber.decode_encode positive size
  unfold setCompact
  rw [getCompact_toNat]
  refine ⟨sign, range, ?_⟩
  refine Nat.mod_eq_of_lt ?_
  omega

theorem getCompact_inRange (params : ChainParams) {bn : Uint256} (positive : bn ≠ 0)
    (small : bn ≤ params.bnProofOfWorkLimit) : InRange params (getCompact bn) := by
  have size : bn.toNat < 256 ^ 32 := by
    omega
  have nonzero : 0 < bn.toNat := by
    rw [Nat.pos_iff_ne_zero]
    intro zero
    exact positive (BitVec.eq_of_toNat_eq zero)
  obtain ⟨_, _, above, below⟩ := CompactNumber.decode_encode nonzero size
  obtain ⟨sign, range, value⟩ := setCompact_getCompact nonzero
  refine ⟨sign, ?_, range, ?_⟩
  · intro zero
    rw [zero] at value
    simp at value
    omega
  · rw [BitVec.le_def] at small ⊢
    omega

theorem clamped_inRange (params : ChainParams) (bn : Uint256) :
    InRange params (getCompact (if bn = 0 ∨ bnTargetLimit < bn then bnTargetLimit else bn)) := by
  have limit := params.limit_above_target
  split
  · exact getCompact_inRange params (by decide) limit
  · rename_i inside
    rw [not_or] at inside
    refine getCompact_inRange params inside.1 ?_
    have below := inside.2
    rw [BitVec.lt_def] at below
    rw [BitVec.le_def] at limit ⊢
    unfold bnTargetLimit at below
    omega

theorem retarget_inRange (params : ChainParams) (last prev : CBlockIndex) :
    InRange params (retarget last prev) := by
  exact clamped_inRange params _

variable {params : ChainParams} {hash : Uint256}

theorem checkProofOfWork_inRange {nBits : UInt32}
    (checked : checkProofOfWork params hash nBits = true)
    (unskipped : params.fSkipProofOfWorkCheck = false) : InRange params nBits := by
  unfold checkProofOfWork at checked
  simpa [unskipped] using checked

theorem checkBlockHeader_pow {block : CBlockHeader}
    (accepted : checkBlockHeader params hash block true = .ok ()) :
    checkProofOfWork params hash block.nBits = true := by
  unfold checkBlockHeader at accepted
  split at accepted
  · cases accepted
  · rename_i passed
    simpa using passed

theorem getNextWorkRequired_late (params : ChainParams) (last : CBlockIndex)
    (older : List CBlockIndex) (late : 68589 < last.nHeight + 1) :
    getNextWorkRequired params (last :: older) = older.head?.map (retarget last) := by
  have era := params.pow_era
  unfold getNextWorkRequired
  dsimp only
  rw [if_neg (by omega), if_pos (by omega)]

theorem checkWork_retargeted {bitsApart : UInt32 → UInt32 → Bool} {block : CBlock}
    {prev : CBlockIndex} {older : List CBlockIndex}
    (accepted : checkWork params bitsApart block (prev :: older) = true)
    (late : 68589 < prev.nHeight + 1) : InRange params block.nBits := by
  have exact : decide (prev.nHeight + 1 ≤ 68589) = false := by
    rw [decide_eq_false_iff_not]
    omega
  unfold checkWork at accepted
  rw [getNextWorkRequired_late params prev older late] at accepted
  cases older with
  | nil => simp at accepted
  | cons before rest =>
    simp only [List.head?_cons, Option.map_some, exact, Bool.and_false, Bool.false_eq_true,
      if_false, beq_iff_eq] at accepted
    rw [accepted]
    exact retarget_inRange params prev before

/-- What a proof-of-work header promises: an honest target, met by its hash. -/
structure MeetsTarget (params : ChainParams) (hash : Uint256) (nBits : UInt32) : Prop where
  inRange : InRange params nBits
  met : hash ≤ (setCompact nBits).bnTarget

/-- A header that passed both checks on either path meets its target exactly when
    its hash is no larger than it and, where neither the range test nor the exact
    retarget was made, its bits are in range. -/
theorem accepted_header_meets_target_iff (params : ChainParams)
    (bitsApart : UInt32 → UInt32 → Bool) (hash : Uint256) (block : CBlock) (fCheckPOW : Bool)
    (prev : CBlockIndex) (older : List CBlockIndex)
    (header : checkBlockHeader params hash block.toCBlockHeader fCheckPOW = .ok ())
    (work : checkWork params bitsApart block (prev :: older) = true) :
    MeetsTarget params hash block.nBits ↔
      hash ≤ (setCompact block.nBits).bnTarget ∧
        (fCheckPOW = false ∨ params.fSkipProofOfWorkCheck = true → prev.nHeight + 1 ≤ 68589 →
          InRange params block.nBits) := by
  constructor
  · intro meets
    exact ⟨meets.met, fun _ _ => meets.inRange⟩
  · rintro ⟨met, unchecked⟩
    refine ⟨?_, met⟩
    by_cases late : 68589 < prev.nHeight + 1
    · exact checkWork_retargeted work late
    · by_cases ranged : fCheckPOW = true ∧ params.fSkipProofOfWorkCheck = false
      · rw [ranged.1] at header
        exact checkProofOfWork_inRange (checkBlockHeader_pow header) ranged.2
      · refine unchecked ?_ (by omega)
        rw [not_and_or] at ranged
        simpa using ranged

def genesisEntry : CBlockIndex where
  hash := mainParams.hashGenesisBlock
  pprev := none
  nHeight := 0
  nVersion := 1
  nTime := 1540710000
  nBits := 0x1e0ffff0
  nAccumulatorCheckpoint := 0
  nChainWork := 0
  nTx := 1
  nChainTx := 1
  nStatus := ⟨BLOCK_VALID_SCRIPTS, true, false, false, false⟩
  nSequenceId := 1
  nMint := 0
  nMoneySupply := 0
  mapZerocoinSupply := fun _ => 0
  vMintDenominationsInBlock := []

def easyBlock : CBlock :=
  ⟨⟨3, mainParams.hashGenesisBlock, 0, 1540711000, 0x1e0fffff, 0, 0⟩, [], []⟩

theorem unmet_target_accepted :
    checkBlockHeader mainParams (~~~0) easyBlock.toCBlockHeader true = .ok () ∧
      checkWork mainParams (fun n1 n2 => n1 != n2) easyBlock [genesisEntry] = true ∧
      ¬ MeetsTarget mainParams (~~~0) easyBlock.nBits := by
  refine ⟨rfl, by decide, ?_⟩
  intro meets
  exact absurd meets.met (by decide)

theorem met_target_accepted :
    MeetsTarget mainParams 1 easyBlock.nBits ↔
      1 ≤ (setCompact easyBlock.nBits).bnTarget ∧
        (true = false ∨ mainParams.fSkipProofOfWorkCheck = true → genesisEntry.nHeight + 1 ≤ 68589 →
          InRange mainParams easyBlock.nBits) :=
  accepted_header_meets_target_iff mainParams (fun n1 n2 => n1 != n2) 1 easyBlock true genesisEntry
    [] rfl (by decide)

end OxidPow
