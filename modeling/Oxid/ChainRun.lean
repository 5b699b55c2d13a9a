import Oxid.ConnectWrites
import Oxid.Library.Runs

/-!
The active chain as connects, refused and just-check connects, and disconnects move it. An
index entry is named by its block and the blocks below it, genesis excluded. What the node
keeps elsewhere is free to change between steps. The record of the node that connected a
block is for statements only.
-/
namespace OxidChainRun
open OxidPrimitives OxidCoins OxidUtxoView OxidDisconnectBlock OxidZerocoin OxidChainParams
open OxidNode OxidCheckBlock OxidConnectBlock OxidConnectedBlock OxidConnectWrites Attempt Runs

abbrev BlockPath := List CBlock

structure ChainState where
  active : BlockPath
  entries : BlockPath → CBlockIndex
  undo : BlockPath → Option CBlockUndo
  coins : Uint256 → CCoins
  zerocoinDB : CZerocoinDB
  txIndex : TxIndex
  connectedBy : BlockPath → Option Node

def ancestryOf (entries : BlockPath → CBlockIndex) : BlockPath → List CBlockIndex
  | [] => [entries []]
  | block :: rest => entries (block :: rest) :: ancestryOf entries rest

theorem ancestryOf_eq (entries : BlockPath → CBlockIndex) (path : BlockPath) :
    ∃ older, ancestryOf entries path = entries path :: older := by
  cases path with
  | nil => exact ⟨[], rfl⟩
  | cons block rest => exact ⟨ancestryOf entries rest, rfl⟩

/-- A node whose active chain and coins are the state's. -/
structure NodeOn (params : ChainParams) (node : Node) (s : ChainState) : Prop where
  params : node.params = params
  chain : node.chainActive = (ancestryOf s.entries s.active).reverse
  mapped : ∀ entry ∈ ancestryOf s.entries s.active, node.mapBlockIndex entry.hash = some entry
  coins : ∀ txid, ((node.coinsTip txid).getD CCoins.empty).same (s.coins txid) = true
  disk : ∀ block rest, block :: rest <:+ s.active →
    ∀ found, node.readBlockFromDisk (s.entries (block :: rest)).hash = some found → found = block

def OnCoins (view : UtxoView) (s : ChainState) : Prop :=
  ∀ txid, (view.coins txid).same (s.coins txid) = true

/-- A `ConnectBlock` call for a child of the tip. A block that is not checked again
    has passed `CheckBlock` on this network. -/
structure Calls (machinery : Machinery) (params : ChainParams) (s : ChainState) (block : CBlock)
    (node : Node) (call : ConnectCall) (state : ConnectState) : Prop where
  sameBlock : call.block = block
  child : block.hashPrevBlock = (s.entries s.active).hash
  notGenesis : machinery.blockHash block.toCBlockHeader ≠ params.hashGenesisBlock
  ancestry : call.ancestry = ancestryOf s.entries s.active
  onNode : NodeOn params node s
  onCoins : OnCoins state.view s
  zerocoinDB : state.zerocoinDB = s.zerocoinDB
  txIndex : state.txIndex = s.txIndex
  height : state.pindex.nHeight = (s.entries s.active).nHeight + 1
  hash : ∀ hash, call.phashBlock = some hash → hash = state.pindex.hash
  checked : call.fAlreadyChecked = true → ∃ other db, other.params = params ∧
    checkBlock machinery other db block true = .ok ()

/-- A connect that completes: the call is made on the entry of the block, with the
    undo data stored for it. -/
structure Connects (machinery : Machinery) (params : ChainParams) (s : ChainState)
    (block : CBlock) (node : Node) (call : ConnectCall) (state final : ConnectState) : Prop
    extends Calls machinery params s block node call state where
  connecting : call.fJustCheck = false
  entry : state.pindex = s.entries (block :: s.active)
  undo : state.undo = s.undo (block :: s.active)
  completed : Completes (connectBlock machinery node call) state () final

def afterConnect (s : ChainState) (block : CBlock) (node : Node) (final : ConnectState) :
    ChainState where
  active := block :: s.active
  entries := Function.update s.entries (block :: s.active) final.pindex
  undo := Function.update s.undo (block :: s.active) final.undo
  coins := final.view.coins
  zerocoinDB := final.zerocoinDB
  txIndex := final.txIndex
  connectedBy := Function.update s.connectedBy (block :: s.active) (some node)

section
variable (s : ChainState) (block : CBlock) (node : Node) (final : ConnectState)
include s block node final

theorem afterConnect_entries :
    (afterConnect s block node final).entries (block :: s.active) = final.pindex := by
  exact Function.update_self (block :: s.active) final.pindex s.entries

theorem afterConnect_undo :
    (afterConnect s block node final).undo (block :: s.active) = final.undo := by
  exact Function.update_self (block :: s.active) final.undo s.undo

theorem afterConnect_connectedBy :
    (afterConnect s block node final).connectedBy (block :: s.active) = some node := by
  exact Function.update_self (block :: s.active) (some node) s.connectedBy

end

/-- A call that fails, or that only checks: the view is dropped, the databases stay
    as the call left them, and so does the entry unless it was a dummy. -/
structure Refuses (machinery : Machinery) (params : ChainParams) (s : ChainState)
    (block : CBlock) (node : Node) (call : ConnectCall) (state final : ConnectState) : Prop
    extends Calls machinery params s block node call state where
  ended : endState (connectBlock machinery node call state) = final
  failed : call.fJustCheck = false → ¬ Completes (connectBlock machinery node call) state () final
  entry : call.fJustCheck = false → state.pindex = s.entries (block :: s.active) ∧
    state.undo = s.undo (block :: s.active)

def afterRefusal (s : ChainState) (block : CBlock) (call : ConnectCall) (final : ConnectState) :
    ChainState :=
  { s with
    entries := if call.fJustCheck then s.entries
      else Function.update s.entries (block :: s.active) final.pindex
    undo := if call.fJustCheck then s.undo
      else Function.update s.undo (block :: s.active) final.undo
    zerocoinDB := final.zerocoinDB
    txIndex := final.txIndex }

/-- `DisconnectBlock` on the tip, with the stored undo data, ending clean. -/
structure Disconnects (machinery : Machinery) (s : ChainState) (block : CBlock)
    (rest : BlockPath) (target : DisconnectTarget) (view : UtxoView) (final : DisconnectState) :
    Prop where
  tip : s.active = block :: rest
  onCoins : OnCoins view s
  blockHash : target.blockHash = (s.entries (block :: rest)).hash
  prevHash : target.prevHash = (s.entries rest).hash
  nHeight : target.nHeight = Int32.ofInt (s.entries (block :: rest)).nHeight
  hasUndoPos : target.hasUndoPos = (s.entries (block :: rest)).nStatus.haveUndo
  completed : disconnectBlock machinery.zerocoin machinery.txHash block target
    (s.undo (block :: rest)) view s.zerocoinDB = (final, none)
  clean : final.fClean = true

def afterDisconnect (s : ChainState) (rest : BlockPath) (final : DisconnectState) : ChainState :=
  { s with active := rest, coins := final.view.coins, zerocoinDB := final.zerocoinDB }

structure SameRecords (a b : CBlockIndex) : Prop where
  hash : a.hash = b.hash
  nHeight : a.nHeight = b.nHeight
  nMint : a.nMint = b.nMint
  nMoneySupply : a.nMoneySupply = b.nMoneySupply
  haveUndo : a.nStatus.haveUndo = b.nStatus.haveUndo

inductive Step (machinery : Machinery) (params : ChainParams) (offered : Set CBlock) :
    ChainState → ChainState → Prop where
  | connect {s : ChainState} {block : CBlock} {node : Node} {call : ConnectCall}
      {state final : ConnectState} (offer : block ∈ offered)
      (connects : Connects machinery params s block node call state final) :
      Step machinery params offered s (afterConnect s block node final)
  | refuse {s : ChainState} {block : CBlock} {node : Node} {call : ConnectCall}
      {state final : ConnectState} (offer : block ∈ offered)
      (refuses : Refuses machinery params s block node call state final) :
      Step machinery params offered s (afterRefusal s block call final)
  | disconnect {s : ChainState} {block : CBlock} {rest : BlockPath} {target : DisconnectTarget}
      {view : UtxoView} {final : DisconnectState}
      (disconnects : Disconnects machinery s block rest target view final) :
      Step machinery params offered s (afterDisconnect s rest final)
  | touch {s : ChainState} {entries : BlockPath → CBlockIndex}
      (same : ∀ path, SameRecords (entries path) (s.entries path)) :
      Step machinery params offered s { s with entries := entries }

/-- After the genesis block: nothing in the view, nothing recorded. -/
structure Start (machinery : Machinery) (s : ChainState) : Prop where
  active : s.active = []
  heights : ∀ path, (s.entries path).nHeight = path.length
  hashes : ∀ block rest, (s.entries (block :: rest)).hash =
    machinery.blockHash block.toCBlockHeader
  unconnected : ∀ path, (s.entries path).nStatus.haveUndo = false
  undo : ∀ path, s.undo path = none
  supply : (s.entries []).nMoneySupply = 0
  coins : ∀ txid, (s.coins txid).isPruned = true
  coinSpends : ∀ serial, s.zerocoinDB.coinSpends serial = none
  txIndex : ∀ txid, s.txIndex txid = none

def Reached (machinery : Machinery) (params : ChainParams) (offered : Set CBlock)
    (s : ChainState) : Prop := Reachable (Start machinery) (Step machinery params offered) s

structure Identified (machinery : Machinery) (s : ChainState) : Prop where
  heights : ∀ path, (s.entries path).nHeight = path.length
  hashes : ∀ block rest, (s.entries (block :: rest)).hash =
    machinery.blockHash block.toCBlockHeader

variable {machinery : Machinery} {params : ChainParams} {state final : ConnectState}
variable {offered : Set CBlock} {s next : ChainState} {call : ConnectCall}

theorem identified_congr
    (same : ∀ path, (next.entries path).nHeight = (s.entries path).nHeight ∧
      (next.entries path).hash = (s.entries path).hash) (identified : Identified machinery s) :
    Identified machinery next := by
  constructor
  · intro path
    rw [(same path).1]
    exact identified.heights path
  · intro block rest
    rw [(same _).2]
    exact identified.hashes block rest

theorem update_identity (entries : BlockPath → CBlockIndex) {changed : BlockPath}
    {pindex : CBlockIndex} (same : SamePlace (entries changed) pindex) (path : BlockPath) :
    (Function.update entries changed pindex path).nHeight = (entries path).nHeight ∧
      (Function.update entries changed pindex path).hash = (entries path).hash := by
  by_cases here : path = changed
  · subst here
    rw [Function.update_self]
    exact ⟨same.nHeight.symm, same.hash.symm⟩
  · rw [Function.update_of_ne here]
    exact ⟨rfl, rfl⟩

theorem endState_completed {node : Node}
    (completed : Completes (connectBlock machinery node call) state () final) :
    endState (connectBlock machinery node call state) = final := by
  rw [completed]
  rfl

theorem identified_step (identified : Identified machinery s)
    (taken : Step machinery params offered s next) :
    Identified machinery next := by
  cases taken with
  | @connect block node call state final _ connects =>
    have kept := connectBlock_place machinery node call state
    rw [endState_completed connects.completed, connects.entry] at kept
    exact identified_congr (fun path => update_identity s.entries kept path) identified
  | @refuse block node call state final _ refuses =>
    refine identified_congr (fun path => ?_) identified
    unfold afterRefusal
    split
    · exact ⟨rfl, rfl⟩
    · rename_i connecting
      have kept := connectBlock_place machinery node call state
      rw [refuses.ended, (refuses.entry (by simpa using connecting)).1] at kept
      exact update_identity s.entries kept path
  | disconnect disconnects => exact ⟨identified.heights, identified.hashes⟩
  | touch same =>
    exact identified_congr (fun path => ⟨(same path).nHeight, (same path).hash⟩) identified

theorem reached_identified {s : ChainState} (reached : Reached machinery params offered s) :
    Identified machinery s := by
  refine reachable_invariant ?_ ?_ reached
  · intro first start
    exact ⟨start.heights, start.hashes⟩
  · intro state next _ identified taken
    exact identified_step identified taken

theorem connects_connected {s : ChainState} {block : CBlock} {node : Node}
    (connects : Connects machinery params s block node call state final) :
    ∃ older totals spends view, call.ancestry = s.entries s.active :: older ∧
      BlockConnected machinery node call (s.entries s.active) state final totals spends view := by
  have notGenesis : machinery.blockHash call.block.toCBlockHeader ≠
      node.params.hashGenesisBlock := by
    rw [connects.sameBlock, connects.onNode.params]
    exact connects.notGenesis
  obtain ⟨parent, older, totals, spends, view, family, connected⟩ :=
    connectBlock_connected notGenesis connects.completed
  obtain ⟨rest, listed⟩ := ancestryOf_eq s.entries s.active
  rw [connects.ancestry, listed] at family
  cases family
  exact ⟨older, totals, spends, view, connects.ancestry.trans listed, connected⟩

theorem suffix_ne {path active : BlockPath} (part : path <:+ active) (block : CBlock) :
    path ≠ block :: active := by
  intro same
  have shorter := part.length_le
  rw [same] at shorter
  simp only [List.length_cons] at shorter
  omega

theorem suffix_cons_cases {block other : CBlock} {rest active : BlockPath}
    (part : block :: rest <:+ other :: active) :
    block = other ∧ rest = active ∨ block :: rest <:+ active := by
  rcases List.suffix_cons_iff.mp part with whole | within
  · rw [List.cons.injEq] at whole
    exact Or.inl whole
  · exact Or.inr within

def labelMachinery : Machinery where
  txHash tx := BitVec.ofNat 256 (tx.nLockTime.toNat + 1)
  blockHash header := BitVec.ofNat 256 (header.nNonce.toNat + 1)
  outputsHash _ := 0
  buildMerkleTree _ := (0, false)
  txSize _ := 100
  blockSize _ := 1000
  legacySigOpCount _ := 0
  p2shSigOpCount _ _ := 0
  verifyScript _ _ _ _ := none
  zerocoin :=
    { txInToZerocoinSpend := fun txin =>
        match txin.scriptSig with
        | _ :: serial :: _ =>
          some ⟨serial.toNat, intToZerocoinDenomination txin.nSequence.toNat, 0⟩
        | _ => none
      mintValue := fun _ => 0 }
  hasValidSerial _ := true
  calculateValidSerial spend := spend.coinSerialNumber
  spendTxOutHash _ := 0
  verifySpend _ _ := true

def syncingNode (chainActive : List CBlockIndex) : Node where
  params := mainParams
  fVerifyingBlocks := false
  fTxIndex := false
  fInitialBlockDownload := true
  fMasternodeSynced := false
  fInstantTxFiltering := false
  fPaymentEnforcement := false
  nScriptCheckThreads := 0
  nAdjustedTime := 4102500000
  nTime := 4102500000
  nTotalBlocksEstimate := 0
  mapLockedInputs _ := none
  masternodePaymentsValid _ _ := true
  mapFinalizedBudgets := []
  nMasternodesEnabled := 0
  chainActive := chainActive
  mapBlockIndex hash := chainActive.find? fun pindex => pindex.hash == hash
  mempool _ := none
  readBlockFromDisk _ := none
  coinsTip _ := none

def headerEntry (machinery : Machinery) (path : BlockPath) : CBlockIndex where
  hash := (path.head?.map fun block => machinery.blockHash block.toCBlockHeader).getD
    mainParams.hashGenesisBlock
  pprev := none
  nHeight := path.length
  nVersion := (path.head?.map fun block => block.nVersion).getD 1
  nTime := (path.head?.map fun block => block.nTime).getD 1540710000
  nBits := 0x1e0ffff0
  nAccumulatorCheckpoint := 0
  nChainWork := 0
  nTx := 1
  nChainTx := 1
  nStatus := ⟨BLOCK_VALID_TRANSACTIONS, true, false, false, false⟩
  nSequenceId := 1
  nMint := 0
  nMoneySupply := 0
  mapZerocoinSupply _ := 0
  vMintDenominationsInBlock := []

def genesisState (machinery : Machinery) : ChainState where
  active := []
  entries := headerEntry machinery
  undo _ := none
  coins _ := CCoins.empty
  zerocoinDB := CZerocoinDB.empty
  txIndex _ := none
  connectedBy _ := none

theorem genesisState_start (machinery : Machinery) :
    Start machinery (genesisState machinery) := by
  constructor
  · rfl
  · exact fun _ => rfl
  · exact fun _ _ => rfl
  · exact fun _ => rfl
  · exact fun _ => rfl
  · rfl
  · exact fun _ => rfl
  · exact fun _ => rfl
  · exact fun _ => rfl

def firstConnectState (machinery : Machinery) (block : CBlock) : ConnectState where
  view :=
    { cacheCoins := ∅
      hashBlock := mainParams.hashGenesisBlock
      base := fun _ => none
      baseBestBlock := 0
      fresh_over_pruned := by simp }
  zerocoinDB := CZerocoinDB.empty
  blockTree _ := none
  txIndex _ := none
  pindex := headerEntry machinery [block]
  undo := none
  fDirty := false
  invalid := ⟨fun _ => false, fun _ => false⟩

def connectCall (machinery : Machinery) (block : CBlock) (ancestry : List CBlockIndex) :
    ConnectCall where
  block := block
  ancestry := ancestry
  phashBlock := some (machinery.blockHash block.toCBlockHeader)
  fJustCheck := false
  fAlreadyChecked := false
  coinSpendWritten := true
  blockIndexWritten := true
  undoPosFound := true
  undoWritten := true
  txIndexWritten := true
  calculateAccumulatorCheckpoint _ _ values := (values, some 0)
  reindexAccumulators _ values := (values, true)
  populateInvalidOutPointMap invalid := invalid

def completes (result : EStateM.Result Failure ConnectState Unit) : Bool :=
  match result with
  | .ok _ _ => true
  | .error _ _ => false

theorem completes_endState {run : Connecting Unit} {state : ConnectState}
    (completed : completes (run state) = true) : Completes run state () (endState (run state)) := by
  unfold Completes
  unfold completes at completed
  split at completed
  · rename_i ended
    rw [ended]
    rfl
  · cases completed

def firstNode : Node := syncingNode [headerEntry labelMachinery []]

def syncedNode : Node := { firstNode with fMasternodeSynced := true }

def firstCall (block : CBlock) : ConnectCall :=
  connectCall labelMachinery block [headerEntry labelMachinery []]

def firstFinal (node : Node) (block : CBlock) : ConnectState :=
  endState (connectBlock labelMachinery node (firstCall block)
    (firstConnectState labelMachinery block))

theorem firstNode_on : NodeOn mainParams firstNode (genesisState labelMachinery) := by
  constructor
  · rfl
  · rfl
  · intro entry member
    simp only [genesisState, ancestryOf, List.mem_singleton] at member
    subst member
    rfl
  · intro _
    rfl
  · intro block rest part
    simp [genesisState] at part

theorem syncedNode_on : NodeOn mainParams syncedNode (genesisState labelMachinery) :=
  ⟨rfl, rfl, firstNode_on.mapped, fun _ => rfl, firstNode_on.disk⟩

theorem first_connects (node : Node) (block : CBlock)
    (child : block.hashPrevBlock = mainParams.hashGenesisBlock)
    (notGenesis : labelMachinery.blockHash block.toCBlockHeader ≠ mainParams.hashGenesisBlock)
    (on : NodeOn mainParams node (genesisState labelMachinery))
    (accepted : completes (connectBlock labelMachinery node (firstCall block)
      (firstConnectState labelMachinery block)) = true) :
    Connects labelMachinery mainParams (genesisState labelMachinery) block node
      (firstCall block) (firstConnectState labelMachinery block) (firstFinal node block) := by
  constructor
  · constructor
    · rfl
    · exact child
    · exact notGenesis
    · rfl
    · exact on
    · exact fun _ => rfl
    · rfl
    · rfl
    · rfl
    · intro hash named
      exact (Option.some.inj named).symm
    · nofun
  · rfl
  · rfl
  · rfl
  · exact completes_endState accepted

end OxidChainRun
