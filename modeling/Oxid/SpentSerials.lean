import Oxid.VerifyRecords

/-!
The serials that the active chain reveals. A block that reveals one again is refused as long
as the transaction of its record is found in the chain. Without the transaction index, a
spend whose outputs are all spent is found no more.
-/
namespace OxidSpentSerials
open OxidPrimitives OxidCoins OxidUtxoView OxidDisconnectBlock OxidZerocoin OxidChainParams
open OxidNode OxidCheckBlock OxidConnectBlock OxidConnectedBlock
open OxidCheckedBlock OxidChainLedger OxidChainRun OxidVerifyRecords Attempt Patches Runs

def chainSerials (machinery : Machinery) : BlockPath → List Int
  | [] => []
  | block :: rest => blockSerials machinery block.vtx ++ chainSerials machinery rest

/-- `GetTransaction` finds a transaction in the active chain: it is not in the memory
    pool, and the transaction index names a block there, or without that index the
    coins that it has left do, and the block is read. -/
def FoundInChain (machinery : Machinery) (node : Node) (s : ChainState) (txid : Uint256) : Prop :=
  node.mempool txid = none ∧ ∃ block rest, block :: rest <:+ s.active ∧
    if node.fTxIndex then
      ∃ tx, machinery.txHash tx = txid ∧
        s.txIndex txid = some ((s.entries (block :: rest)).hash, tx)
    else
      (∃ coins, node.coinsTip txid = some coins ∧ coins.nHeight.toInt = rest.length + 1) ∧
        node.readBlockFromDisk (s.entries (block :: rest)).hash = some block ∧
        ∃ tx ∈ block.vtx, machinery.txHash tx = txid

/-- The transaction recorded with a serial is found, for every serial of the chain that
    the block reveals too. -/
def RecordsFound (machinery : Machinery) (s : ChainState) (block : CBlock) (node : Node) : Prop :=
  ∀ serial ∈ blockSerials machinery block.vtx, serial ∈ chainSerials machinery s.active →
    ∀ txid, s.zerocoinDB.coinSpends serial = some txid → FoundInChain machinery node s txid

def LooksUp (machinery : Machinery) (s next : ChainState) : Prop :=
  ∀ block node, next.active = block :: s.active →
    next.connectedBy next.active = some node → RecordsFound machinery s block node

section Lookup

variable {machinery : Machinery} {params : ChainParams} {node : Node} {s : ChainState}

theorem ancestryOf_length (entries : BlockPath → CBlockIndex) (path : BlockPath) :
    (ancestryOf entries path).length = path.length + 1 := by
  induction path with
  | nil => rfl
  | cons block rest ih => simp only [ancestryOf, List.length_cons, ih]

theorem ancestryOf_at (entries : BlockPath → CBlockIndex) {path active : BlockPath}
    (part : path <:+ active) :
    (ancestryOf entries active).reverse[path.length]? = some (entries path) ∧
      entries path ∈ ancestryOf entries active := by
  induction active with
  | nil =>
    rw [List.suffix_nil] at part
    subst part
    exact ⟨rfl, List.mem_singleton_self _⟩
  | cons block rest ih =>
    have length := ancestryOf_length entries rest
    simp only [ancestryOf, List.reverse_cons]
    rcases List.suffix_cons_iff.mp part with whole | within
    · subst whole
      constructor
      · rw [List.getElem?_append_right (by simp [length])]
        simp [length]
      · exact List.mem_cons_self
    · obtain ⟨standing, member⟩ := ih within
      have shorter := within.length_le
      constructor
      · rw [List.getElem?_append_left (by rw [List.length_reverse]; omega)]
        exact standing
      · exact List.mem_cons_of_mem _ member

theorem at_height (on : NodeOn params node s) {path : BlockPath} (part : path <:+ s.active) :
    node.at? path.length = some (s.entries path) := by
  unfold Node.at?
  rw [if_neg (by omega), Int.toNat_natCast, on.chain]
  exact (ancestryOf_at s.entries part).1

theorem inActiveChain_entry (on : NodeOn params node s) (identified : Identified machinery s)
    {path : BlockPath} (part : path <:+ s.active) :
    inActiveChain node (s.entries path).hash = some (s.entries path) := by
  have contained : node.contains (s.entries path) = true := by
    unfold Node.contains
    rw [identified.heights path, at_height on part]
    simp
  unfold inActiveChain
  rw [on.mapped _ (ancestryOf_at s.entries part).2]
  simp [contained]

theorem found_lookup (on : NodeOn params node s) {txid : Uint256}
    (found : FoundInChain machinery node s txid) :
    ∃ block rest, block :: rest <:+ s.active ∧
      (getTransaction machinery node s.txIndex txid).found.isSome = true ∧
      (getTransaction machinery node s.txIndex txid).hashBlock =
        (s.entries (block :: rest)).hash := by
  obtain ⟨unpooled, block, rest, part, found⟩ := found
  refine ⟨block, rest, part, ?_⟩
  unfold getTransaction
  rw [unpooled]
  cases indexed : node.fTxIndex with
  | true =>
    rw [indexed, if_pos rfl] at found
    obtain ⟨tx, named, present⟩ := found
    simp [present, named]
  | false =>
    rw [indexed, if_neg Bool.false_ne_true] at found
    obtain ⟨⟨coins, held, height⟩, read, tx, member, named⟩ := found
    have standing := at_height on part
    rw [List.length_cons] at standing
    simp only [Bool.false_eq_true, if_false, scanBlock, held, height]
    rw [if_pos (by omega), show (rest.length : Int) + 1 = ((rest.length + 1 : Nat) : Int) by omega,
      standing]
    simp only [read]
    cases scanned : block.vtx.find? fun tx => machinery.txHash tx == txid with
    | some other => exact ⟨rfl, rfl⟩
    | none =>
      have missed := List.find?_eq_none.mp scanned tx member
      simp [named] at missed

theorem found_alreadyInChain (on : NodeOn params node s) (identified : Identified machinery s)
    {serial : Int} {txid : Uint256} (recorded : s.zerocoinDB.coinSpends serial = some txid)
    (found : FoundInChain machinery node s txid) :
    alreadyInChain node (s.active.length + 1)
      (isSerialInBlockchain machinery node s.txIndex s.zerocoinDB serial) = true := by
  obtain ⟨block, rest, part, some, hash⟩ := found_lookup on found
  have below := part.length_le
  unfold isSerialInBlockchain
  rw [recorded]
  simp only [some, if_true, hash]
  rw [inActiveChain_entry on identified part]
  simp only [Option.map_some, alreadyInChain, Option.any_some, identified.heights, Bool.or_eq_true,
    decide_eq_true_eq]
  omega

end Lookup

section Blocks

variable {machinery : Machinery} {node : Node} {txIndex : TxIndex} {nHeight : Int} {serial : Int}
variable {db : CZerocoinDB} {spends : List CoinSpend} {txid : Uint256}

theorem isSerialInBlockchain_congr {db other : CZerocoinDB}
    (same : db.coinSpends serial = other.coinSpends serial) :
    isSerialInBlockchain machinery node txIndex db serial =
      isSerialInBlockchain machinery node txIndex other serial := by
  unfold isSerialInBlockchain
  rw [same]

theorem writeCoinSpend_other {serial other : Int} (different : other ≠ serial) (txid : Uint256) :
    (db.writeCoinSpend serial txid).coinSpends other = db.coinSpends other :=
  Function.update_of_ne different _ _

theorem freshSpends_mem (fresh : FreshSpends machinery node txIndex nHeight txid spends db)
    (revealed : serial ∈ spends.map CoinSpend.coinSerialNumber) :
    alreadyInChain node nHeight (isSerialInBlockchain machinery node txIndex db serial) =
      false := by
  induction spends generalizing db with
  | nil => cases revealed
  | cons spend rest ih =>
    obtain ⟨first, later⟩ := fresh
    by_cases same : serial = spend.coinSerialNumber
    · rw [same]
      exact first
    · have there : serial ∈ rest.map CoinSpend.coinSerialNumber := by
        simpa [same] using revealed
      rw [← ih later there]
      exact congrArg _ (isSerialInBlockchain_congr (writeCoinSpend_other same txid).symm)

theorem recordSpends_other (db : CZerocoinDB)
    (unrevealed : serial ∉ spends.map CoinSpend.coinSerialNumber) :
    (recordSpends txid spends db).coinSpends serial = db.coinSpends serial := by
  induction spends generalizing db with
  | nil => rfl
  | cons spend rest ih =>
    rw [List.map_cons, List.mem_cons, not_or] at unrevealed
    exact (ih _ unrevealed.2).trans (writeCoinSpend_other unrevealed.1 txid)

theorem freshBlock_mem {txs : List CTransaction}
    (fresh : FreshBlock machinery node txIndex nHeight txs db)
    (revealed : serial ∈ blockSerials machinery txs) :
    alreadyInChain node nHeight (isSerialInBlockchain machinery node txIndex db serial) =
      false := by
  induction txs generalizing db with
  | nil => cases revealed
  | cons tx rest ih =>
    obtain ⟨first, later⟩ := fresh
    by_cases here : serial ∈ (txSpends machinery tx).map CoinSpend.coinSerialNumber
    · exact freshSpends_mem first here
    · unfold blockSerials at revealed ih
      rw [List.flatMap_cons, List.mem_append] at revealed
      rw [← ih later (revealed.resolve_left here)]
      exact congrArg _ (isSerialInBlockchain_congr (recordSpends_other db here).symm)

end Blocks

section Records

variable {machinery : Machinery}

theorem blockEntries_serials (txs : List CTransaction) :
    (blockEntries machinery txs).map Prod.fst = blockSerials machinery txs := by
  simp only [blockEntries, blockSerials, txEntries, List.map_flatMap, List.map_map]
  rfl

theorem mem_txsErasure {txs : List CTransaction} {serial : Int} :
    serial ∈ (txsErasure machinery.zerocoin txs).serials ↔ serial ∈ blockSerials machinery txs := by
  have one : ∀ tx : CTransaction, (txErasure machinery.zerocoin tx).serials =
      (txSpends machinery tx).map CoinSpend.coinSerialNumber := by
    intro tx
    simp only [txErasure, spentSerials, txSpends, spendsOf]
    split
    · rfl
    · rfl
  induction txs with
  | nil => simp [txsErasure, Erasure.none, blockSerials]
  | cons tx rest ih =>
    unfold blockSerials at ih ⊢
    simp only [txsErasure, Erasure.append, List.mem_append, ih, one, List.flatMap_cons]
    exact Or.comm

end Records

section Runs

variable {machinery : Machinery} {params : ChainParams} {offered : Set CBlock}

structure SerialsKept (machinery : Machinery) (s : ChainState) : Prop where
  distinct : (chainSerials machinery s.active).Nodup
  recorded : ∀ serial ∈ chainSerials machinery s.active,
    (s.zerocoinDB.coinSpends serial).isSome = true

variable {state final : ConnectState} {s : ChainState} {block : CBlock} {call : ConnectCall}

theorem serialsKept_connect (identified : Identified machinery s) (kept : SerialsKept machinery s)
    {node : Node} (connects : Connects machinery params s block node call state final)
    (lookups : RecordsFound machinery s block node) :
    SerialsKept machinery (afterConnect s block node final) := by
  obtain ⟨older, totals, spends, view, _, connected⟩ := connects_connected connects
  have fresh := connected.txs.fresh
  rw [connects.sameBlock, connects.txIndex, connects.zerocoinDB, connects.height,
    identified.heights] at fresh
  have unseen : ∀ serial ∈ chainSerials machinery s.active,
      serial ∉ blockSerials machinery block.vtx := by
    intro serial listed revealed
    obtain ⟨txid, recorded⟩ := Option.isSome_iff_exists.mp (kept.recorded serial listed)
    have seen := found_alreadyInChain connects.onNode identified recorded
      (lookups serial revealed listed txid recorded)
    rw [freshBlock_mem fresh revealed] at seen
    cases seen
  constructor
  · apply List.nodup_append.mpr
    refine ⟨(calls_checked connects.toCalls connected.checked).serials, kept.distinct, ?_⟩
    intro serial revealed other listed same
    exact unseen other listed (same ▸ revealed)
  · intro serial member
    change (final.zerocoinDB.coinSpends serial).isSome = true
    have child : machinery.blockHash call.block.toCBlockHeader ≠ node.params.hashGenesisBlock := by
      rw [connects.sameBlock, connects.onNode.params]
      exact connects.notGenesis
    rw [(connectBlock_writes_all child connects.completed).coinSpends, connects.zerocoinDB,
      connects.sameBlock]
    apply writing_some
    rw [blockEntries_serials]
    rcases List.mem_append.mp member with here | there
    · exact .inl here
    · exact .inr (kept.recorded serial there)

theorem serialsKept_refuse (kept : SerialsKept machinery s) {node : Node}
    (refuses : Refuses machinery params s block node call state final) :
    SerialsKept machinery (afterRefusal s block call final) := by
  obtain ⟨entries, _, written⟩ := @connectBlock_writes machinery node call state
  rw [refuses.ended, refuses.zerocoinDB] at written
  constructor
  · exact kept.distinct
  · intro serial listed
    change (final.zerocoinDB.coinSpends serial).isSome = true
    rw [written.coinSpends]
    exact writing_some (.inr (kept.recorded serial listed))

theorem serialsKept_disconnect (kept : SerialsKept machinery s) {rest : BlockPath}
    {target : DisconnectTarget} {view : UtxoView} {final : DisconnectState}
    (disconnects : Disconnects machinery s block rest target view final) :
    SerialsKept machinery (afterDisconnect s rest final) := by
  have distinct := kept.distinct
  have recorded := kept.recorded
  rw [disconnects.tip] at distinct recorded
  have parts := List.nodup_append.mp distinct
  obtain ⟨taken, erased, _, all⟩ := @disconnectBlock_erases machinery.zerocoin machinery.txHash
    block target (s.undo (block :: rest)) view s.zerocoinDB
  rw [disconnects.completed] at erased all
  rw [all rfl] at erased
  constructor
  · exact parts.2.1
  · intro serial listed
    change (final.zerocoinDB.coinSpends serial).isSome = true
    have away : serial ∉ (txsErasure machinery.zerocoin block.vtx).serials := by
      intro gone
      exact parts.2.2 serial (mem_txsErasure.mp gone) serial listed rfl
    rw [erased.coinSpends]
    simp only [Patch.apply, erasing, if_neg away, Option.getD_none]
    exact recorded serial (List.mem_append_right _ listed)

theorem serialsKept_step {s next : ChainState} (identified : Identified machinery s)
    (kept : SerialsKept machinery s) (taken : Step machinery params offered s next)
    (lookups : LooksUp machinery s next) : SerialsKept machinery next := by
  cases taken with
  | @connect block node call state final _ connects =>
    refine serialsKept_connect identified kept connects (lookups block node rfl ?_)
    exact afterConnect_connectedBy s block node final
  | refuse _ refuses => exact serialsKept_refuse kept refuses
  | disconnect disconnects => exact serialsKept_disconnect kept disconnects
  | touch same => exact ⟨kept.distinct, kept.recorded⟩

end Runs

def reusingBlock (hashPrevBlock : Uint256) (nNonce label : UInt32) : CBlock :=
  ⟨⟨3, hashPrevBlock, 0, 1540711000, 0x1e0fffff, nNonce, 0⟩,
    [⟨1, [⟨COutPoint.null, [1, 1], 0⟩], [⟨0, [0x51], -10⟩], label⟩,
      ⟨1, [⟨COutPoint.null, [OP_ZEROCOINSPEND, 5], 1⟩], [⟨COIN, [0x51], -10⟩], label + 1⟩,
      ⟨1, [⟨⟨BitVec.ofNat 256 (label.toNat + 2), 0⟩, [], 0⟩], [⟨COIN, [OP_ZEROCOINMINT], -10⟩],
        label + 2⟩], []⟩

def spendingBlock : CBlock := reusingBlock mainParams.hashGenesisBlock 7 0

def spendingFinal : ConnectState := firstFinal firstNode spendingBlock

def spentState : ChainState :=
  afterConnect (genesisState labelMachinery) spendingBlock firstNode spendingFinal

theorem spending_connects : Connects labelMachinery mainParams (genesisState labelMachinery)
    spendingBlock firstNode (firstCall spendingBlock)
    (firstConnectState labelMachinery spendingBlock) spendingFinal :=
  first_connects firstNode spendingBlock rfl (by decide) firstNode_on (by decide)

def againBlock : CBlock :=
  reusingBlock (labelMachinery.blockHash spendingBlock.toCBlockHeader) 8 3

def secondNode : Node :=
  { syncingNode [headerEntry labelMachinery [], spendingFinal.pindex] with
    coinsTip := fun txid =>
      if (spendingFinal.view.coins txid).isPruned then none
      else some (spendingFinal.view.coins txid) }

def secondCall : ConnectCall :=
  connectCall labelMachinery againBlock [spendingFinal.pindex, headerEntry labelMachinery []]

def secondState : ConnectState :=
  { spendingFinal with pindex := headerEntry labelMachinery [againBlock, spendingBlock], undo := none }

def secondFinal : ConnectState := endState (connectBlock labelMachinery secondNode secondCall secondState)

theorem spentState_entries (path : BlockPath) :
    spentState.entries path =
      if path = [spendingBlock] then spendingFinal.pindex else headerEntry labelMachinery path := by
  unfold spentState afterConnect
  dsimp only
  rw [Function.update_apply]
  rfl

theorem spentState_ancestry : ancestryOf spentState.entries spentState.active =
    [spendingFinal.pindex, headerEntry labelMachinery []] := by
  change [spentState.entries [spendingBlock], spentState.entries []] = _
  rfl

theorem secondNode_on : NodeOn mainParams secondNode spentState := by
  constructor
  · rfl
  · rw [spentState_ancestry]
    rfl
  · intro known member
    rw [spentState_ancestry, List.mem_cons, List.mem_singleton] at member
    rcases member with top | bottom
    · rw [top]
      rfl
    · rw [bottom]
      rfl
  · intro txid
    change ((if (spendingFinal.view.coins txid).isPruned then none
      else some (spendingFinal.view.coins txid)).getD CCoins.empty).same
        (spendingFinal.view.coins txid) = true
    split
    · rename_i pruned
      simp [CCoins.same, pruned]
    · exact CCoins.same_refl _
  · intro block rest _ found read
    cases read

theorem again_connects : Connects labelMachinery mainParams spentState againBlock secondNode
    secondCall secondState secondFinal := by
  have entry : spentState.entries [spendingBlock] = spendingFinal.pindex :=
    spentState_entries [spendingBlock]
  constructor
  · constructor
    · rfl
    · change againBlock.hashPrevBlock = (spentState.entries [spendingBlock]).hash
      decide
    · decide
    · rw [spentState_ancestry]
      rfl
    · exact secondNode_on
    · exact fun txid => CCoins.same_refl _
    · rfl
    · rfl
    · change _ = (spentState.entries [spendingBlock]).nHeight + 1
      decide
    · intro hash named
      exact (Option.some.inj named).symm
    · nofun
  · rfl
  · exact (spentState_entries [againBlock, spendingBlock]).symm
  · rfl
  · exact completes_endState (by decide)

end OxidSpentSerials
