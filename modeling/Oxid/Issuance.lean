import Oxid.ChainRun

/-!
Bounded issuance, except inside the two windows in which `IsBlockValueValid` lets every
amount pass.
-/
namespace OxidIssuance
open OxidPrimitives OxidUtxoView OxidZerocoin OxidChainParams OxidNode
open OxidCheckBlock OxidConnectBlock OxidConnectedBlock OxidChainRun Attempt Runs

def increase (entry parent : CBlockIndex) : Int := entry.nMoneySupply - parent.nMoneySupply

def blockFees (entry parent : CBlockIndex) : Int := entry.nMint - increase entry parent

/-- `IsBlockValueValid` passes any amount: a node without budget data near a cycle's
    start, or a node with a finalized budget that covers the height. -/
def AmountUnchecked (node : Node) (nHeight : Int) : Prop :=
  nHeight ≠ SLOW_START_BLOCK + 1 ∧
    if node.fMasternodeSynced then isBudgetPaymentBlock node nHeight = true
    else nHeight % getBudgetPaymentCycleBlocks node.params < 100

def issuanceLimit (block : CBlock) (nHeight nFees : Int) : Int :=
  (if nHeight = SLOW_START_BLOCK + 1 then MAX_REWARD * COIN else getBlockValue (nHeight - 1)) +
    if block.isProofOfWork then nFees else 0

variable {params : ChainParams} {machinery : Machinery} {node : Node} {call : ConnectCall}
variable {block : CBlock} {s : ChainState}

theorem isBlockValueValid_bound {tip : CBlockIndex} {nExpectedValue nMinted : Int}
    (top : node.tip = some tip) (child : call.block.hashPrevBlock = tip.hash)
    (valid : isBlockValueValid node call nExpectedValue nMinted = true)
    (bounded : ¬ AmountUnchecked node (tip.nHeight + 1)) :
    nMinted ≤ if tip.nHeight + 1 = SLOW_START_BLOCK + 1 then MAX_REWARD * COIN
      else nExpectedValue := by
  have height : heightOfChild node tip call.block.hashPrevBlock = tip.nHeight + 1 := by
    rw [heightOfChild, if_pos child.symm]
  unfold isBlockValueValid at valid
  simp only [top, height] at valid
  by_cases first : tip.nHeight + 1 = SLOW_START_BLOCK + 1
  · rw [if_pos first] at valid ⊢
    simpa using valid
  · rw [if_neg first] at valid ⊢
    unfold AmountUnchecked at bounded
    cases synced : node.fMasternodeSynced with
    | true =>
      simp only [first, synced, Bool.not_true, Bool.false_eq_true, if_false, Bool.or_eq_true,
        decide_eq_true_eq, not_false_eq_true, ne_eq, true_and, if_true] at valid bounded
      rcases valid with budget | within
      · exact absurd budget bounded
      · exact within
    | false =>
      simp only [first, synced, Bool.not_false, if_true, Bool.or_eq_true, decide_eq_true_eq,
        not_false_eq_true, ne_eq, true_and, Bool.false_eq_true, if_false] at valid bounded
      rcases valid with window | within
      · exact absurd window bounded
      · exact within

/-- One accepted block: its increase is value out minus value in, its fees are not
    negative, and where amounts are checked the limit holds. -/
structure Bounded (machinery : Machinery) (params : ChainParams) (block : CBlock)
    (entry parent : CBlockIndex) (node : Node) : Prop where
  params : node.params = params
  moved : ∃ view, increase entry parent = (block.vtx.map txValueOut).sum -
      sumAlong machinery.txHash (Int32.ofInt entry.nHeight) (txValueIn machinery) block.vtx view ∧
    blockFees entry parent =
      sumAlong machinery.txHash (Int32.ofInt entry.nHeight) txFee block.vtx view
  paid : 0 ≤ blockFees entry parent
  limited : ¬ AmountUnchecked node entry.nHeight →
    increase entry parent ≤ issuanceLimit block entry.nHeight (blockFees entry parent)

theorem bounded_congr {entry entry' parent parent' : CBlockIndex} (same : SameRecords entry' entry)
    (sameParent : SameRecords parent' parent)
    (bounded : Bounded machinery params block entry parent node) :
    Bounded machinery params block entry' parent' node := by
  have grown : increase entry' parent' = increase entry parent := by
    unfold increase
    rw [same.nMoneySupply, sameParent.nMoneySupply]
  have fees : blockFees entry' parent' = blockFees entry parent := by
    unfold blockFees
    rw [grown, same.nMint]
  constructor
  · exact bounded.params
  · rw [grown, fees, same.nHeight]
    exact bounded.moved
  · rw [fees]
    exact bounded.paid
  · rw [grown, fees, same.nHeight]
    exact bounded.limited

theorem nodeOn_tip (on : NodeOn params node s) : node.tip = some (s.entries s.active) := by
  obtain ⟨older, listed⟩ := ancestryOf_eq s.entries s.active
  unfold Node.tip
  rw [on.chain, listed]
  simp

theorem connect_bounded {state final : ConnectState}
    (connects : Connects machinery params s block node call state final) :
    Bounded machinery params block final.pindex (s.entries s.active) node := by
  have params' := connects.onNode.params
  have sameBlock := connects.sameBlock
  obtain ⟨older, totals, spends, view, _, connected⟩ := connects_connected connects
  have txs := connected.txs
  have entry := connected.entry
  have grown : increase final.pindex (s.entries s.active) =
      totals.nValueOut - totals.nValueIn := by
    unfold increase
    rw [entry]
    simp only [connectedIndex, moneyIndex]
    omega
  have fees : blockFees final.pindex (s.entries s.active) = totals.nFees := by
    unfold blockFees
    rw [grown, entry]
    simp only [connectedIndex, moneyIndex]
    omega
  have height : final.pindex.nHeight = state.pindex.nHeight := by
    rw [entry]
    rfl
  constructor
  · exact params'
  · refine ⟨state.view, ?_, ?_⟩
    · rw [grown, txs.valueOut, txs.valueIn, height, sameBlock]
      simp [BlockTotals.init]
    · rw [fees, txs.fees, height, sameBlock]
      simp [BlockTotals.init]
  · rw [fees, txs.fees]
    have paid := txs.feesPaid
    simpa [BlockTotals.init] using paid
  · intro bounded
    have rewarded := connected.rewarded
    unfold checkReward at rewarded
    rw [require_ok] at rewarded
    rw [height, connects.height] at bounded
    have top := nodeOn_tip connects.onNode
    have child : call.block.hashPrevBlock = (s.entries s.active).hash := by
      rw [sameBlock]
      exact connects.child
    have limit := isBlockValueValid_bound top child rewarded bounded
    have nonnegative := txs.feesPaid
    rw [grown, fees, height, connects.height]
    have charged := txs.fees
    simp only [BlockTotals.init, Int.zero_add] at charged
    unfold issuanceLimit
    rw [sameBlock] at limit
    simp only [connectedIndex, moneyIndex, Int.add_sub_cancel] at limit ⊢
    split
    · rename_i first
      split
      · omega
      · omega
    · rename_i later
      split
      · rename_i work
        omega
      · rename_i stake
        omega

def EveryBlockBounded (machinery : Machinery) (params : ChainParams) (s : ChainState) : Prop :=
  ∀ block rest, block :: rest <:+ s.active → ∃ node, s.connectedBy (block :: rest) = some node ∧
    Bounded machinery params block (s.entries (block :: rest)) (s.entries rest) node

theorem bounded_step {offered : Set CBlock} {s next : ChainState}
    (bounded : EveryBlockBounded machinery params s) (taken : Step machinery params offered s next)
    :
    EveryBlockBounded machinery params next := by
  intro block rest part
  cases taken with
  | @connect added node call state final _ connects =>
    unfold afterConnect at part ⊢
    dsimp only at part ⊢
    rcases suffix_cons_cases part with ⟨rfl, rfl⟩ | within
    · refine ⟨node, Function.update_self _ _ _, ?_⟩
      rw [Function.update_self, Function.update_of_ne (by simp)]
      exact connect_bounded connects
    · obtain ⟨other, recorded, limits⟩ := bounded block rest within
      have below : rest <:+ s.active := (List.suffix_cons block rest).trans within
      refine ⟨other, ?_, ?_⟩
      · rw [Function.update_of_ne (suffix_ne within added)]
        exact recorded
      · rw [Function.update_of_ne (suffix_ne within added),
          Function.update_of_ne (suffix_ne below added)]
        exact limits
  | @refuse refused node call state final _ refuses =>
    unfold afterRefusal at part ⊢
    dsimp only at part ⊢
    obtain ⟨other, recorded, limits⟩ := bounded block rest part
    have below : rest <:+ s.active := (List.suffix_cons block rest).trans part
    refine ⟨other, recorded, ?_⟩
    split
    · exact limits
    · rw [Function.update_of_ne (suffix_ne part refused),
        Function.update_of_ne (suffix_ne below refused)]
      exact limits
  | @disconnect removed below target view final disconnects =>
    refine bounded block rest ?_
    rw [disconnects.tip]
    exact List.IsSuffix.trans part (List.suffix_cons removed below)
  | touch same =>
    obtain ⟨other, recorded, limits⟩ := bounded block rest part
    exact ⟨other, recorded, bounded_congr (same _) (same _) limits⟩

/-- In every reachable state every block of the active chain adds at most the value
    of its parent's height, and its fees if it is proof-of-work, to the supply,
    unless the node that connected it was not checking amounts at its height. -/
theorem active_blocks_bounded (machinery : Machinery) (params : ChainParams)
    (offered : Set CBlock) (s : ChainState) (reached : Reached machinery params offered s) :
    EveryBlockBounded machinery params s := by
  refine reachable_invariant ?_ ?_ reached
  · intro first start block rest part
    rw [start.active] at part
    simp at part
  · intro state next _ bounded taken
    exact bounded_step bounded taken

def coinbaseBlock (nValue : Int) : CBlock :=
  ⟨⟨3, mainParams.hashGenesisBlock, 0, 1540711000, 0x1e0fffff, 7, 0⟩,
    [⟨1, [⟨COutPoint.null, [1, 1], 0⟩], [⟨nValue, [0x51], -10⟩], 0⟩], []⟩

theorem syncing_node_mints_freely :
    ∃ s block, Reached labelMachinery mainParams Set.univ s ∧ s.active = [block] ∧
      s.connectedBy [block] = some firstNode ∧ firstNode.mapFinalizedBudgets = [] ∧
      getBlockValue (s.entries [block]).nHeight + blockFees (s.entries [block]) (s.entries []) <
        increase (s.entries [block]) (s.entries []) := by
  refine ⟨afterConnect (genesisState labelMachinery) (coinbaseBlock (89000000 * COIN)) firstNode
    (firstFinal firstNode (coinbaseBlock (89000000 * COIN))), _, ?_, rfl, ?_, rfl, ?_⟩
  · exact .step (.start (genesisState_start labelMachinery))
      (.connect trivial (first_connects firstNode (coinbaseBlock (89000000 * COIN)) rfl (by decide)
        firstNode_on (by decide)))
  · exact afterConnect_connectedBy (genesisState labelMachinery)
      (coinbaseBlock (89000000 * COIN)) firstNode _
  · decide

theorem premine_bounded :
    EveryBlockBounded labelMachinery mainParams (afterConnect (genesisState labelMachinery)
      (coinbaseBlock (2650000 * COIN)) syncedNode
      (firstFinal syncedNode (coinbaseBlock (2650000 * COIN)))) :=
  active_blocks_bounded labelMachinery mainParams Set.univ _
    (.step (.start (genesisState_start labelMachinery))
      (.connect trivial (first_connects syncedNode (coinbaseBlock (2650000 * COIN)) rfl (by decide)
        syncedNode_on (by decide))))

end OxidIssuance
