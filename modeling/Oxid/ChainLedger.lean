import Oxid.ChainRun
import Oxid.CheckedBlock

/-!
The coins of every reachable state are the ledger of its active chain, and the undo data
stored for a block take the ledger back to the chain below it.
-/
namespace OxidChainLedger
open OxidPrimitives OxidCoins OxidUtxoView OxidDisconnectBlock OxidZerocoin OxidChainParams
open OxidNode OxidCheckBlock OxidConnectBlock OxidConnectedBlock OxidConnectWrites
open OxidLedgerView OxidCheckedBlock OxidChainRun
open OxidBlockRoundTrip hiding blockEvents inputEvents
open OutputLedger Attempt Runs

def waivedBlocks : List Uint256 :=
  [0x00000000000a4d0a398161ffc163c503763b1f4360639393e0e4c8e300e0caec,
    0x00000000000743f190a18c5577a3c2d2a1f610ae9601ac046a38084ccb7cd721]

/-- What is asked of the hash functions on the blocks a node is offered: txids do not
    collide within a block, and no block has one of the two waived hashes. -/
structure HashesApart (machinery : Machinery) (offered : Set CBlock) : Prop where
  txids : ∀ block ∈ offered, ∀ tx ∈ block.vtx, ∀ other ∈ block.vtx,
    machinery.txHash tx = machinery.txHash other → tx = other
  unwaived : ∀ block ∈ offered, machinery.blockHash block.toCBlockHeader ∉ waivedBlocks

def chainLedger (txHash : CTransaction → Uint256) : BlockPath → CoinLedger
  | [] => fun _ => Slot.empty
  | block :: rest => blockLedger txHash block.vtx (chainLedger txHash rest)

def undoEvents (txHash : CTransaction → Uint256) (block : CBlock) (blockundo : CBlockUndo) :
    List CoinLedgerEvent :=
  blockEvents txHash (block.vtx.zip (none :: blockundo.vtxundo.map some))

structure Undoes (txHash : CTransaction → Uint256) (block : CBlock) (L : CoinLedger)
    (blockundo : CBlockUndo) : Prop where
  sound : ∀ undo ∈ blockundo.vtxundo, SoundUndo undo.vprevout
  fits : FitsAll (undoEvents txHash block blockundo) L
  applied : applyAll (undoEvents txHash block blockundo) L = blockLedger txHash block.vtx L

section Blocks

variable {machinery : Machinery}

theorem enforced_of_unwaived {call : ConnectCall} {nHeight : Int}
    (unwaived : ∀ hash, call.phashBlock = some hash → hash ∉ waivedBlocks) :
    enforceBIP30 call nHeight = true := by
  unfold enforceBIP30
  split
  · rfl
  · rename_i hash named
    have apart := unwaived hash named
    unfold waivedBlocks at apart
    rw [List.mem_cons, List.mem_singleton, not_or] at apart
    rw [beq_false_of_ne apart.1, beq_false_of_ne apart.2]
    simp

theorem undoEvents_drop {txHash : CTransaction → Uint256} {block : CBlock}
    {first : CTransaction} {others : List CTransaction} (shape : block.vtx = first :: others)
    (spendless : inputsSpent first = []) {undos : List CTxUndo}
    (lengths : undos.length = block.vtx.length) :
    undoEvents txHash block ⟨undos.drop 1⟩ =
      blockEvents txHash (block.vtx.zip (undos.map some)) := by
  cases undos with
  | nil =>
    rw [shape] at lengths
    simp at lengths
  | cons undo later =>
    unfold undoEvents
    rw [shape]
    simp only [List.drop_succ_cons, List.drop_zero, List.map_cons, List.zip_cons_cons, blockEvents,
      List.flatMap_cons]
    simp [txEvents, spendless, inputEvents]

theorem coinbase_spendless {tx : CTransaction} (coinbase : tx.isCoinBase = true) :
    inputsSpent tx = [] := by
  simp [inputsSpent, spendsInputs, coinbase]

theorem applied_undoes {block : CBlock} {nHeight : Int32} {view applied : UtxoView}
    {undos : List CTxUndo}
    (run : applyTxs machinery.txHash nHeight block.vtx view = some (applied, undos))
    (checked : Checked machinery block.vtx)
    (collisionFree : ∀ tx ∈ block.vtx, ∀ other ∈ block.vtx,
      machinery.txHash tx = machinery.txHash other → tx = other)
    (unspent : ∀ tx ∈ block.vtx, (view.coins (machinery.txHash tx)).isPruned = true) :
    CreatesFresh machinery.txHash block.vtx (outputsOf view.coins) ∧
      outputsOf applied.coins =
        blockLedger machinery.txHash block.vtx (outputsOf view.coins) ∧
      Undoes machinery.txHash block (outputsOf view.coins) ⟨undos.drop 1⟩ := by
  obtain ⟨sound, moved, events, finds, fits⟩ := applyTxs_events run
  have nothing : ∀ tx ∈ block.vtx, outputsOf view.coins (machinery.txHash tx) = Slot.empty := by
    intro tx member
    funext n
    exact (CCoins.isPruned_iff_output _).mp (unspent tx member) n
  have unrepeated := checked_unrepeated checked collisionFree nothing finds
  have fresh := createsFresh_of_distinct nothing (txids_distinct _ _ unrepeated)
  refine ⟨fresh, moved, ?_⟩
  cases shape : block.vtx with
  | nil =>
    have coinbase := checked.coinbase
    rw [shape] at coinbase
    cases coinbase
  | cons first others =>
    have coinbase := checked.coinbase
    rw [shape] at coinbase
    have dropped : undoEvents machinery.txHash block ⟨undos.drop 1⟩ =
        blockEvents machinery.txHash (block.vtx.zip (undos.map some)) :=
      undoEvents_drop shape (coinbase_spendless coinbase) (applyTxs_length _ _ run)
    constructor
    · intro undo member
      exact sound undo (List.mem_of_mem_drop member)
    · rw [dropped]
      exact fits fresh
    · rw [dropped]
      exact events

end Blocks

section Disconnecting

variable {zerocoin : ZerocoinLibrary} {txHash : CTransaction → Uint256} {block : CBlock}

theorem eraseAccumulatorValues_coinSpends (db : CZerocoinDB)
    (nCheckpointErase nCheckpointPrevious : Uint256) :
    (eraseAccumulatorValues db nCheckpointErase nCheckpointPrevious).coinSpends =
      db.coinSpends := by
  unfold eraseAccumulatorValues
  induction zerocoinDenomList generalizing db with
  | nil => rfl
  | cons denom rest ih =>
    rw [List.foldl_cons, ih]
    dsimp only
    split
    · rfl
    · rfl

variable {readUndo : Option CBlockUndo} {target : DisconnectTarget} {zerocoinDB : CZerocoinDB}
variable {final : DisconnectState} {view : UtxoView}

theorem disconnectBlock_ran
    (completed : disconnectBlock zerocoin txHash block target readUndo view zerocoinDB =
      (final, none)) :
    ∃ blockundo later, readUndo = some blockundo ∧
      disconnectTxs zerocoin txHash target.nHeight
        (block.vtx.zip (none :: blockundo.vtxundo.map some)) ⟨view, zerocoinDB, true⟩ =
          (later, none) ∧
      final.view.coins = later.view.coins ∧
      final.zerocoinDB.coinSpends = later.zerocoinDB.coinSpends := by
  unfold disconnectBlock at completed
  dsimp only at completed
  split at completed
  · cases completed
  · split at completed
    · cases completed
    · split at completed
      · cases completed
      · rename_i blockundo
        split at completed
        · cases completed
        · split at completed
          · cases completed
          · rename_i later loop
            refine ⟨blockundo, later, rfl, loop, ?_⟩
            split at completed
            · cases completed
              exact ⟨rfl, eraseAccumulatorValues_coinSpends _ _ _⟩
            · cases completed
              exact ⟨rfl, rfl⟩

theorem disconnectBlock_ledger {L : CoinLedger}
    (undoes : ∀ blockundo, readUndo = some blockundo → Undoes txHash block L blockundo)
    (onBlock : outputsOf view.coins = blockLedger txHash block.vtx L)
    (completed : disconnectBlock zerocoin txHash block target readUndo view zerocoinDB =
      (final, none)) :
    outputsOf final.view.coins = L := by
  obtain ⟨blockundo, later, stored, loop, coins, _⟩ := disconnectBlock_ran completed
  have undo := undoes blockundo stored
  have reverted := disconnectTxs_revert (fun pair member => ?_) loop
  · rw [coins, reverted, onBlock, ← undo.applied]
    exact revertAll_applyAll _ L undo.fits
  · have second := (List.of_mem_zip member).2
    rcases List.mem_cons.mp second with missing | there
    · rw [missing]
      nofun
    · obtain ⟨stored, within, same⟩ := List.mem_map.mp there
      rw [← same]
      exact undo.sound stored within

end Disconnecting

section Runs

variable {machinery : Machinery} {params : ChainParams} {offered : Set CBlock}

/-- The coins are the active chain's, and stored undo data fit. -/
structure Ledgered (machinery : Machinery) (s : ChainState) : Prop where
  coins : outputsOf s.coins = chainLedger machinery.txHash s.active
  undo : ∀ block rest blockundo, s.undo (block :: rest) = some blockundo →
    Undoes machinery.txHash block (chainLedger machinery.txHash rest) blockundo

variable {call : ConnectCall} {s : ChainState} {block : CBlock} {node : Node}
variable {state final : ConnectState}

theorem calls_checked {state : ConnectState}
    (calls : Calls machinery params s block node call state)
    (checked : checkAgain machinery node call state = .ok ()) : Checked machinery block.vtx := by
  unfold checkAgain at checked
  split at checked
  · rename_i already
    obtain ⟨other, db, _, passed⟩ := calls.checked already
    exact checkBlock_checked passed
  · rw [calls.sameBlock] at checked
    exact checkBlock_checked checked

theorem calls_ledger {state : ConnectState} (ledgered : Ledgered machinery s)
    (calls : Calls machinery params s block node call state) :
    outputsOf state.view.coins = chainLedger machinery.txHash s.active := by
  rw [outputsOf_congr calls.onCoins]
  exact ledgered.coins

/-- A call on the block's own entry that has come through the transactions has moved
    the ledger by the block and gathered its undo data. -/
theorem calls_undoes (apart : HashesApart machinery offered) {state reached : ConnectState}
    {totals : BlockTotals} (identified : Identified machinery s) (ledgered : Ledgered machinery s)
    (offer : block ∈ offered) (calls : Calls machinery params s block node call state)
    (entry : state.pindex = s.entries (block :: s.active))
    (checked : checkAgain machinery node call state = .ok ())
    (before : checkBefore machinery node call state = .ok ())
    (txs : TxsConnected machinery node call.block.vtx BlockTotals.init state totals reached) :
    CreatesFresh machinery.txHash block.vtx (chainLedger machinery.txHash s.active) ∧
      outputsOf reached.view.coins = chainLedger machinery.txHash (block :: s.active) ∧
      Undoes machinery.txHash block (chainLedger machinery.txHash s.active)
        ⟨totals.vtxundo.drop 1⟩ := by
  obtain ⟨undos, applied, gathered⟩ := txs.applied
  have listed : totals.vtxundo = undos := gathered
  have named : state.pindex.hash = machinery.blockHash block.toCBlockHeader := by
    rw [entry]
    exact identified.hashes block s.active
  have enforced : enforceBIP30 call state.pindex.nHeight = true := by
    refine enforced_of_unwaived fun hash called => ?_
    rw [calls.hash hash called, named]
    exact apart.unwaived block offer
  have unspent : ∀ tx ∈ block.vtx,
      (state.view.coins (machinery.txHash tx)).isPruned = true := by
    unfold checkBefore at before
    simp only [bind_ok, require_ok, exists_const, enforced, calls.sameBlock] at before
    simpa using before.2.2
  rw [calls.sameBlock] at applied
  have facts := applied_undoes applied (calls_checked calls checked)
    (apart.txids block offer) unspent
  rw [calls_ledger ledgered calls] at facts
  rw [listed]
  exact facts

theorem connects_ledger (apart : HashesApart machinery offered)
    (identified : Identified machinery s) (ledgered : Ledgered machinery s)
    (offer : block ∈ offered) (connects : Connects machinery params s block node call state final) :
    outputsOf final.view.coins = chainLedger machinery.txHash (block :: s.active) ∧
      ∀ blockundo, final.undo = some blockundo →
        Undoes machinery.txHash block (chainLedger machinery.txHash s.active) blockundo := by
  obtain ⟨older, totals, spends, view, _, connected⟩ := connects_connected connects
  have facts := calls_undoes apart identified ledgered offer connects.toCalls connects.entry
    connected.checked connected.before connected.txs
  constructor
  · rw [connected.view, connects.connecting]
    exact facts.2.1
  · intro blockundo stored
    rw [(connected.undo connects.connecting).2] at stored
    split at stored
    · rw [connects.undo] at stored
      exact ledgered.undo block s.active blockundo stored
    · rw [← Option.some.inj stored]
      exact facts.2.2

theorem refuses_undo (apart : HashesApart machinery offered) (identified : Identified machinery s)
    (ledgered : Ledgered machinery s) (offer : block ∈ offered)
    (refuses : Refuses machinery params s block node call state final)
    (connecting : call.fJustCheck = false) {blockundo : CBlockUndo}
    (stored : final.undo = some blockundo) :
    Undoes machinery.txHash block (chainLedger machinery.txHash s.active) blockundo := by
  obtain ⟨entry, undo⟩ := refuses.entry connecting
  have child : machinery.blockHash call.block.toCBlockHeader ≠ node.params.hashGenesisBlock := by
    rw [refuses.sameBlock, refuses.onNode.params]
    exact refuses.notGenesis
  rcases connectBlock_undo state child with
    kept | ⟨parent, older, totals, spends, middle, _, checked, passed, _, written, _⟩
  · rw [refuses.ended] at kept
    rw [kept.1, undo] at stored
    exact ledgered.undo block s.active blockundo stored
  · rw [refuses.ended, stored] at written
    rw [Option.some.inj written]
    exact (calls_undoes apart identified ledgered offer refuses.toCalls entry checked
      passed.before passed.txs).2.2

theorem ledgered_step (apart : HashesApart machinery offered) {s next : ChainState}
    (identified : Identified machinery s) (ledgered : Ledgered machinery s)
    (taken : Step machinery params offered s next) : Ledgered machinery next := by
  cases taken with
  | @connect added node call state final offer connects =>
    obtain ⟨coins, undo⟩ := connects_ledger apart identified ledgered offer connects
    constructor
    · exact coins
    · intro block rest blockundo stored
      unfold afterConnect at stored
      dsimp only at stored
      by_cases here : block :: rest = added :: s.active
      · rw [here, Function.update_self] at stored
        rw [List.cons.injEq] at here
        rw [here.1, here.2]
        exact undo blockundo stored
      · rw [Function.update_of_ne here] at stored
        exact ledgered.undo block rest blockundo stored
  | @refuse refused node call state final offer refuses =>
    constructor
    · exact ledgered.coins
    · intro block rest blockundo stored
      unfold afterRefusal at stored
      dsimp only at stored
      split at stored
      · exact ledgered.undo block rest blockundo stored
      · rename_i connecting
        by_cases here : block :: rest = refused :: s.active
        · rw [here, Function.update_self] at stored
          rw [List.cons.injEq] at here
          rw [here.1, here.2]
          exact refuses_undo apart identified ledgered offer refuses (by simpa using connecting)
            stored
        · rw [Function.update_of_ne here] at stored
          exact ledgered.undo block rest blockundo stored
  | @disconnect block rest target view final disconnects =>
    constructor
    · refine disconnectBlock_ledger (fun blockundo stored => ?_) ?_ disconnects.completed
      · exact ledgered.undo block rest blockundo stored
      · rw [outputsOf_congr disconnects.onCoins, ledgered.coins, disconnects.tip]
        rfl
    · exact ledgered.undo
  | touch same => exact ⟨ledgered.coins, ledgered.undo⟩

theorem reached_ledgered (apart : HashesApart machinery offered)
    (reached : Reached machinery params offered s) : Ledgered machinery s := by
  refine reachable_invariant ?_ ?_ reached
  · intro first start
    constructor
    · rw [start.active]
      funext txid n
      exact (CCoins.isPruned_iff_output _).mp (start.coins txid) n
    · intro block rest blockundo stored
      rw [start.undo] at stored
      cases stored
  · intro state next earlier ledgered taken
    exact ledgered_step apart (reached_identified earlier) ledgered taken

end Runs

end OxidChainLedger
