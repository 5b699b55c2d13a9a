import Oxid.BlockValidity
import Oxid.Library.OrderStatistic

/-!
The median time past along a chain. A block's time has to be after the median of its parent.
-/
namespace OxidMedianTime
open OxidPrimitives OxidChainParams OxidNode OxidPow OxidBlockValidity OrderStatistic

/-- The time rule of `ContextualCheckBlockHeader` for every entry that has a parent. -/
def TimeRule : List CBlockIndex → Prop
  | [] => True
  | [_] => True
  | pindex :: pprev :: older =>
    getMedianTimePast (pprev :: older) < pindex.getBlockTime ∧ TimeRule (pprev :: older)

theorem getMedianTimePast_eq (ancestry : List CBlockIndex) : getMedianTimePast ancestry =
    (median ((ancestry.map CBlockIndex.getBlockTime).take 11)).getD 0 := by
  unfold getMedianTimePast median nth
  rw [List.map_take]
  dsimp only
  rw [List.length_insertionSort]

theorem median_exists (pindex : CBlockIndex) (older : List CBlockIndex) : ∃ value,
    median (((pindex :: older).map CBlockIndex.getBlockTime).take 11) = some value ∧
      getMedianTimePast (pindex :: older) = value := by
  have inside : (((pindex :: older).map CBlockIndex.getBlockTime).take 11).length / 2 <
      (((pindex :: older).map CBlockIndex.getBlockTime).take 11).length := by
    rw [List.length_take, List.length_map, List.length_cons]
    omega
  obtain ⟨value, found⟩ := nth_exists inside
  refine ⟨value, found, ?_⟩
  rw [getMedianTimePast_eq, median, found]
  rfl

variable {pindex pprev : CBlockIndex} {older : List CBlockIndex}

theorem median_step (later : getMedianTimePast (pprev :: older) < pindex.getBlockTime) :
    getMedianTimePast (pprev :: older) ≤ getMedianTimePast (pindex :: pprev :: older) := by
  obtain ⟨value, before, past⟩ := median_exists pprev older
  obtain ⟨value', after, present⟩ := median_exists pindex (pprev :: older)
  rw [past] at later ⊢
  rw [present]
  exact median_slide before (le_of_lt later) after

theorem TimeRule.suffix {chain lower : List CBlockIndex} (rule : TimeRule chain)
    (suffix : lower <:+ chain) : TimeRule lower := by
  induction chain with
  | nil =>
    rw [List.suffix_nil.mp suffix]
    trivial
  | cons pindex older ih =>
    rcases List.suffix_cons_iff.mp suffix with rfl | below
    · exact rule
    · cases older with
      | nil => exact ih trivial below
      | cons pprev older => exact ih rule.2 below

/-- Along a chain the median time past does not fall, and every block is after the median
    of its parent. -/
theorem median_nondecreasing {chain : List CBlockIndex} (rule : TimeRule chain) :
    (∀ lower upper, lower ≠ [] → lower <:+ upper → upper <:+ chain →
      getMedianTimePast lower ≤ getMedianTimePast upper) ∧
    ∀ pindex pprev older, pindex :: pprev :: older <:+ chain →
      getMedianTimePast (pprev :: older) < pindex.getBlockTime := by
  constructor
  · intro lower upper some' inside within
    have ruled := rule.suffix within
    clear within
    induction upper with
    | nil => exact absurd (List.suffix_nil.mp inside) some'
    | cons pindex older ih =>
      rcases List.suffix_cons_iff.mp inside with rfl | below
      · exact le_refl _
      · cases older with
        | nil => exact absurd (List.suffix_nil.mp below) some'
        | cons pprev older => exact (ih below ruled.2).trans (median_step ruled.1)
  · intro pindex pprev older within
    exact (rule.suffix within).1

def unevenChain : List CBlockIndex :=
  [{ genesisEntry with nHeight := 3, nTime := 1540000200 },
    { genesisEntry with nHeight := 2, nTime := 1540000300 },
    { genesisEntry with nHeight := 1, nTime := 1540000100 },
    { genesisEntry with nHeight := 0, nTime := 1540000000 }]

theorem uneven_nondecreasing : TimeRule unevenChain ∧
    (∀ lower upper, lower ≠ [] → lower <:+ upper → upper <:+ unevenChain →
      getMedianTimePast lower ≤ getMedianTimePast upper) ∧
    ∀ pindex pprev older, pindex :: pprev :: older <:+ unevenChain →
      getMedianTimePast (pprev :: older) < pindex.getBlockTime := by
  have rule : TimeRule unevenChain := ⟨by decide, by decide, by decide, trivial⟩
  exact ⟨rule, median_nondecreasing rule⟩

end OxidMedianTime
