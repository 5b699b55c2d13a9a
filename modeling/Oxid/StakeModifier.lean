import Oxid.Primitives

/-!
The stake modifier, as the kernel computes it over the ancestry of a block index entry. An
ancestry lists the entry first and its genesis block last. An entry keeps only what the
kernel reads. The seed of the first block after genesis is the address of a string literal,
so it belongs to the program run.
-/
namespace OxidStakeModifier
open OxidPrimitives

structure StakeIndex where
  hash : Uint256
  nHeight : Int
  nTime : UInt32
  fProofOfStake : Bool
  fGeneratedStakeModifier : Bool
  nStakeModifier : UInt64
deriving DecidableEq

namespace StakeIndex

def getBlockTime (pindex : StakeIndex) : Int := pindex.nTime.toNat

def getStakeEntropyBit (pindex : StakeIndex) : UInt64 :=
  UInt64.ofNat (pindex.hash.toNat % 2)

end StakeIndex

structure NodeRun where
  stakemodifierAddress : UInt64
  mapBlockIndex : Uint256 → Option StakeIndex

def nModifierUpdateBlock : Int := 0

def getIntervalVersion : Nat := 60

def modifierIntervalRatio : Nat := 3

def getStakeModifierSelectionIntervalSection (nSection : Nat) : Nat :=
  getIntervalVersion * 63 / (63 + (63 - nSection) * (modifierIntervalRatio - 1))

def getStakeModifierSelectionInterval : Nat :=
  ((List.range 64).map getStakeModifierSelectionIntervalSection).sum

def getLastStakeModifier : List StakeIndex → Option (UInt64 × Int)
  | [] => none
  | pindex :: ancestry =>
    if pindex.fGeneratedStakeModifier then some (pindex.nStakeModifier, pindex.getBlockTime)
    else getLastStakeModifier ancestry

def candidates (start : Int) (ancestry : List StakeIndex) : List (Int × Uint256) :=
  (ancestry.takeWhile fun pindex => start ≤ pindex.getBlockTime).map
    fun pindex => (pindex.getBlockTime, pindex.hash)

def sortedByTimestamp (found : List (Int × Uint256)) : List (Int × Uint256) :=
  found.reverse.mergeSort fun a b => a.1 < b.1 || (a.1 == b.1 && a.2 ≤ b.2)

section Selection
variable (hash : Uint256 → UInt64 → Uint256) (node : NodeRun)

def selectionHash (fModifierV2 : Bool) (prev : UInt64) (pindex : StakeIndex) : Uint256 :=
  let hashProof := if fModifierV2 then pindex.hash
    else if pindex.fProofOfStake then 0 else pindex.hash
  let hashSelection := hash hashProof prev
  if pindex.fProofOfStake then hashSelection >>> 32 else hashSelection

structure Selecting where
  fModifierV2 : Bool
  fFirstRun : Bool
  best : Option (Uint256 × StakeIndex)

def Selecting.start : Selecting := ⟨false, true, none⟩

def Selecting.settleVersion (state : Selecting) (pindex : StakeIndex) : Selecting :=
  if state.fFirstRun then
    { state with fModifierV2 := decide (nModifierUpdateBlock ≤ pindex.nHeight), fFirstRun := false }
  else state

def Selecting.offer (state : Selecting) (hashSelection : Uint256) (pindex : StakeIndex) :
    Selecting :=
  match state.best with
  | none => { state with best := some (hashSelection, pindex) }
  | some (hashBest, _) =>
    if hashSelection < hashBest then { state with best := some (hashSelection, pindex) } else state

/-- One pass over the candidates; `none` where a candidate has no index entry. -/
def selectFrom (mapSelectedBlocks : List Uint256) (stop : Int) (prev : UInt64) :
    Selecting → List (Int × Uint256) → Option Selecting
  | state, [] => some state
  | state, item :: rest =>
    match node.mapBlockIndex item.2 with
    | none => none
    | some pindex =>
      if state.best.isSome ∧ stop < pindex.getBlockTime then some state
      else
        let settled := state.settleVersion pindex
        if pindex.hash ∈ mapSelectedBlocks then
          selectFrom mapSelectedBlocks stop prev settled rest
        else
          selectFrom mapSelectedBlocks stop prev
            (settled.offer (selectionHash hash settled.fModifierV2 prev pindex) pindex) rest

def selectBlockFromCandidates (vSortedByTimestamp : List (Int × Uint256))
    (mapSelectedBlocks : List Uint256) (stop : Int) (prev : UInt64) : Option StakeIndex :=
  match selectFrom hash node mapSelectedBlocks stop prev .start vSortedByTimestamp with
  | none => none
  | some state => state.best.map Prod.snd

structure Rounds where
  nStakeModifierNew : UInt64
  nSelectionIntervalStop : Int
  mapSelectedBlocks : List Uint256

def selectRounds (vSortedByTimestamp : List (Int × Uint256)) (prev : UInt64) :
    Nat → Nat → Rounds → Option Rounds
  | 0, _, state => some state
  | left + 1, nRound, state =>
    let stop := state.nSelectionIntervalStop + getStakeModifierSelectionIntervalSection nRound
    match selectBlockFromCandidates hash node vSortedByTimestamp state.mapSelectedBlocks stop
      prev with
    | none => none
    | some pindex =>
      selectRounds vSortedByTimestamp prev left (nRound + 1)
        ⟨state.nStakeModifierNew ||| (pindex.getStakeEntropyBit <<< UInt64.ofNat nRound), stop,
          pindex.hash :: state.mapSelectedBlocks⟩

structure NextModifier where
  returned : Bool
  nStakeModifier : UInt64
  fGeneratedStakeModifier : Bool
deriving DecidableEq

/-- Everything past the two seeds: the last modifier while its interval lasts,
    and a selection over the ancestry after that. -/
def selectNextModifier (pindexPrev : StakeIndex) (ancestry : List StakeIndex) : NextModifier :=
  match getLastStakeModifier (pindexPrev :: ancestry) with
  | none => ⟨false, 0, false⟩
  | some (nStakeModifier, nModifierTime) =>
    let interval : Int := getIntervalVersion
    if pindexPrev.getBlockTime / interval ≤ nModifierTime / interval then
      ⟨true, nStakeModifier, false⟩
    else
      let start := pindexPrev.getBlockTime / interval * interval - getStakeModifierSelectionInterval
      let vSortedByTimestamp := sortedByTimestamp (candidates start (pindexPrev :: ancestry))
      match selectRounds hash node vSortedByTimestamp nStakeModifier
        (min 64 vSortedByTimestamp.length) 0 ⟨0, start, []⟩ with
      | none => ⟨false, nStakeModifier, false⟩
      | some state => ⟨true, state.nStakeModifierNew, true⟩

def computeNextStakeModifier : List StakeIndex → NextModifier
  | [] => ⟨true, 0, true⟩
  | pindexPrev :: ancestry =>
    if pindexPrev.nHeight = 0 then ⟨true, node.stakemodifierAddress, true⟩
    else selectNextModifier hash node pindexPrev ancestry

end Selection

/-- The block index answers every hash of the ancestry with the entry itself. -/
def Holds (node : NodeRun) (ancestry : List StakeIndex) : Prop :=
  ∀ pindex ∈ ancestry, node.mapBlockIndex pindex.hash = some pindex

section Agreement
variable {hash : Uint256 → UInt64 → Uint256} {first second : NodeRun}

def SameEntries (first second : NodeRun) (listed : List (Int × Uint256)) : Prop :=
  ∀ item ∈ listed, first.mapBlockIndex item.2 = second.mapBlockIndex item.2

variable {ancestry : List StakeIndex} {listed : List (Int × Uint256)}

theorem selectFrom_agree (mapSelectedBlocks : List Uint256) (stop : Int) (prev : UInt64)
    (same : SameEntries first second listed) (state : Selecting) :
    selectFrom hash first mapSelectedBlocks stop prev state listed =
      selectFrom hash second mapSelectedBlocks stop prev state listed := by
  induction listed generalizing state with
  | nil => rfl
  | cons item rest ih =>
    have here : first.mapBlockIndex item.2 = second.mapBlockIndex item.2 :=
      same item List.mem_cons_self
    have later : SameEntries first second rest := by
      intro other inside
      exact same other (List.mem_cons_of_mem item inside)
    simp only [selectFrom, here, ih later]

theorem selectRounds_agree (prev : UInt64) (same : SameEntries first second listed)
    (left nRound : Nat) (state : Rounds) :
    selectRounds hash first listed prev left nRound state =
      selectRounds hash second listed prev left nRound state := by
  induction left generalizing nRound state with
  | zero => rfl
  | succ left ih =>
    simp only [selectRounds, selectBlockFromCandidates, selectFrom_agree _ _ _ same, ih]

theorem candidates_held (start : Int) (held : Holds first ancestry)
    (alsoHeld : Holds second ancestry) :
    SameEntries first second (sortedByTimestamp (candidates start ancestry)) := by
  intro item listed
  have found : item ∈ candidates start ancestry := by
    simpa [sortedByTimestamp] using listed
  obtain ⟨pindex, taken, rfl⟩ := List.mem_map.mp found
  have inside : pindex ∈ ancestry := (List.takeWhile_sublist _).subset taken
  rw [held pindex inside, alsoHeld pindex inside]

theorem selectNextModifier_agree {pindexPrev : StakeIndex}
    (held : Holds first (pindexPrev :: ancestry)) (alsoHeld : Holds second (pindexPrev :: ancestry))
    :
    selectNextModifier hash first pindexPrev ancestry =
      selectNextModifier hash second pindexPrev ancestry := by
  have rounds : ∀ (start : Int) (prev : UInt64) (left : Nat) (state : Rounds),
      selectRounds hash first (sortedByTimestamp (candidates start (pindexPrev :: ancestry)))
          prev left 0 state =
        selectRounds hash second (sortedByTimestamp (candidates start (pindexPrev :: ancestry)))
          prev left 0 state := by
    intro start prev left state
    exact selectRounds_agree prev (candidates_held start held alsoHeld) left 0 state
  simp only [selectNextModifier, rounds]

def AfterGenesis (ancestry : List StakeIndex) : Prop :=
  ∃ genesis rest, ancestry = genesis :: rest ∧ genesis.nHeight = 0

theorem seed_apart (seeded : AfterGenesis ancestry) :
    computeNextStakeModifier hash first ancestry = computeNextStakeModifier hash second ancestry ↔
      first.stakemodifierAddress = second.stakemodifierAddress := by
  obtain ⟨genesis, rest, rfl, lowest⟩ := seeded
  simp [computeNextStakeModifier, lowest]

theorem later_agree (held : Holds first ancestry) (alsoHeld : Holds second ancestry)
    (unseeded : ¬ AfterGenesis ancestry) :
    computeNextStakeModifier hash first ancestry =
      computeNextStakeModifier hash second ancestry := by
  cases ancestry with
  | nil => rfl
  | cons pindexPrev rest =>
    have higher : pindexPrev.nHeight ≠ 0 := by
      intro lowest
      exact unseeded ⟨pindexPrev, rest, rfl, lowest⟩
    simp only [computeNextStakeModifier, higher, if_false]
    exact selectNextModifier_agree held alsoHeld

end Agreement

def sampleGenesis : StakeIndex := ⟨0x90d, 0, 1535000000, false, false, 0⟩

def loadedAt (stakemodifierAddress : UInt64) : NodeRun where
  stakemodifierAddress := stakemodifierAddress
  mapBlockIndex hash := if hash = sampleGenesis.hash then some sampleGenesis else none

theorem loaded_holds (address : UInt64) : Holds (loadedAt address) [sampleGenesis] := by
  intro pindex inside
  rw [List.mem_singleton.mp inside]
  simp [loadedAt]

end OxidStakeModifier
