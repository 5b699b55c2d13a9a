import Oxid.ConnectedBlock

/-!
The writes a `ConnectBlock` call can make before it ends, in success or refusal.
A relation that each single write respects relates the states before and after
any call.
-/
namespace OxidConnectWrites
open OxidPrimitives OxidUtxoView OxidDisconnectBlock OxidZerocoin OxidChainParams
open OxidNode OxidCheckBlock OxidConnectBlock OxidConnectedBlock Attempt

/-- Entries that differ at most in what a block's amounts and mints are recorded in. -/
structure SameIdentity (a b : CBlockIndex) : Prop where
  hash : a.hash = b.hash
  pprev : a.pprev = b.pprev
  nHeight : a.nHeight = b.nHeight
  nVersion : a.nVersion = b.nVersion
  nTime : a.nTime = b.nTime
  nStatus : a.nStatus = b.nStatus

structure RespectsTxs (machinery : Machinery) (txs : List CTransaction)
    (related : ConnectState → ConnectState → Prop) : Prop where
  reflexive : ∀ state, related state state
  transitive : ∀ a b c, related a b → related b c → related a c
  spend : ∀ tx ∈ txs, ∀ spend ∈ txSpends machinery tx, ∀ state,
    related state (recordSpend spend.coinSerialNumber (machinery.txHash tx) state)
  view : ∀ state view, related state { state with view := view }

structure RespectsChecks (machinery : Machinery) (call : ConnectCall)
    (related : ConnectState → ConnectState → Prop) : Prop
    extends RespectsTxs machinery call.block.vtx related where
  entry : ∀ state pindex, SameIdentity state.pindex pindex →
    related state { state with pindex := pindex }
  blockTree : ∀ state blockTree, related state { state with blockTree := blockTree }
  accumulators : ∀ state values, related state (setAccumulators values state)
  invalid : ∀ state invalid, related state { state with invalid := invalid }

structure RespectsRecord (machinery : Machinery) (call : ConnectCall)
    (related : ConnectState → ConnectState → Prop) : Prop where
  reflexive : ∀ state, related state state
  transitive : ∀ a b c, related a b → related b c → related a c
  view : ∀ state view, related state { state with view := view }
  invalid : ∀ state invalid, related state { state with invalid := invalid }
  status : ∀ state nStatus,
    related state { state with pindex := { state.pindex with nStatus := nStatus } }
  undo : ∀ state undo, related state { state with undo := undo }
  dirty : ∀ state fDirty, related state { state with fDirty := fDirty }
  txIndex : ∀ state, related state
    { state with txIndex := indexTransactions machinery call state.pindex.hash state.txIndex }

structure Respects (machinery : Machinery) (call : ConnectCall)
    (related : ConnectState → ConnectState → Prop) : Prop
    extends RespectsChecks machinery call related, RespectsRecord machinery call related

section Keeping

variable {machinery : Machinery} {node : Node} {call : ConnectCall}
  {txs : List CTransaction} {related : ConnectState → ConnectState → Prop}

variable {tx : CTransaction}

section
variable (respects : RespectsTxs machinery txs related) (member : tx ∈ txs)
include respects member

theorem connectSpend_keeps (kind : tx.isZerocoinSpend = true) (txin : CTxIn) (input : txin ∈ tx.vin)
    (nValueIn : Int) :
    Keeps related (connectSpend machinery node call (machinery.txHash tx) txin nValueIn) := by
  unfold connectSpend
  split
  · rename_i marked
    intro state
    simp only [bind, EStateM.bind, check, reading]
    cases parsed : txInToZerocoinSpend machinery txin with
    | error failure => exact respects.reflexive state
    | ok spend =>
      dsimp only [id_eq]
      cases checkSpend machinery node call state spend with
      | error failure => exact respects.reflexive state
      | ok _ =>
        have revealed : spend ∈ txSpends machinery tx := by
          rw [txSpends, if_pos kind, spendsOf, List.mem_filterMap]
          refine ⟨txin, ?_, txInToZerocoinSpend_ok parsed⟩
          rw [List.mem_filter]
          exact ⟨input, marked⟩
        exact respects.spend tx member spend revealed state
  · exact keeps_pure respects.reflexive nValueIn

theorem connectKind_keeps (totals : BlockTotals) :
    Keeps related (connectKind machinery node call tx totals) := by
  unfold connectKind
  split
  · rename_i kind
    refine keeps_bind respects.transitive (keeps_reading respects.reflexive _) fun state => ?_
    refine keeps_bind respects.transitive (keeps_check respects.reflexive _) fun _ => ?_
    refine keeps_bind respects.transitive ?_ fun _ => keeps_pure respects.reflexive _
    refine keeps_forEach respects.reflexive respects.transitive tx.vin ?_ totals.nValueIn
    intro txin input nValueIn
    exact connectSpend_keeps respects member kind txin input nValueIn
  · split
    · exact keeps_pure respects.reflexive totals
    · refine keeps_bind respects.transitive (keeps_reading respects.reflexive _) fun state => ?_
      exact keeps_check respects.reflexive _

theorem connectTx_keeps (totals : BlockTotals) :
    Keeps related (connectTx machinery node call tx totals) := by
  refine keeps_bind respects.transitive (keeps_check respects.reflexive _) fun _ => ?_
  refine keeps_bind respects.transitive (connectKind_keeps respects member _) fun _ => ?_
  refine keeps_bind respects.transitive (keeps_check respects.reflexive _) fun _ => ?_
  refine keeps_bind respects.transitive ?_ fun _ => keeps_pure respects.reflexive _
  refine keeps_bind respects.transitive (keeps_reading respects.reflexive _) fun state => ?_
  split
  · exact keeps_failing respects.reflexive _
  · refine keeps_bind respects.transitive (keeps_update ?_) fun _ =>
      keeps_pure respects.reflexive _
    intro before
    exact respects.view before _

end

theorem connectTxs_keeps (respects : RespectsTxs machinery call.block.vtx related) :
    Keeps related (connectTxs machinery node call) := by
  refine keeps_forEach respects.reflexive respects.transitive call.block.vtx ?_ _
  intro tx member totals
  exact connectTx_keeps respects member totals

def SupplyFrame (before after : ConnectState) : Prop :=
  ∃ supply mints, after = { before with
    pindex := { before.pindex with
      mapZerocoinSupply := supply, vMintDenominationsInBlock := mints } }

theorem supplyFrame_refl (state : ConnectState) : SupplyFrame state state := ⟨_, _, rfl⟩

theorem supplyFrame_trans (a b c : ConnectState) (left : SupplyFrame a b)
    (right : SupplyFrame b c) : SupplyFrame a c := by
  obtain ⟨_, _, rfl⟩ := left
  obtain ⟨supply, mints, rfl⟩ := right
  exact ⟨supply, mints, rfl⟩

theorem trackZerocoinSupply_frame :
    Keeps SupplyFrame (trackZerocoinSupply machinery node call) := by
  refine keeps_bind supplyFrame_trans (keeps_reading supplyFrame_refl _) fun state => ?_
  refine keeps_bind supplyFrame_trans (keeps_check supplyFrame_refl _) fun spends => ?_
  split
  · exact keeps_update fun before => ⟨_, _, rfl⟩
  · rename_i parent older family
    refine keeps_bind supplyFrame_trans (keeps_update fun before => ?_) fun _ => ?_
    · obtain ⟨supply, inherited⟩ := inheritSupply_frame parent before.pindex
      simp only [editIndex, addMints_eq, inherited]
      exact ⟨_, _, rfl⟩
    · refine keeps_forEach supplyFrame_refl supplyFrame_trans spends ?_ ()
      intro denom _ _
      refine keeps_bind supplyFrame_trans (keeps_check supplyFrame_refl _) fun _ => ?_
      refine keeps_bind supplyFrame_trans (keeps_update fun before => ⟨_, _, rfl⟩) fun _ => ?_
      refine keeps_bind supplyFrame_trans (keeps_reading supplyFrame_refl _) fun _ => ?_
      exact keeps_check supplyFrame_refl _

def MoneyFrame (before after : ConnectState) : Prop :=
  ∃ nMint nMoneySupply blockTree, after = { before with
    pindex := { before.pindex with nMint := nMint, nMoneySupply := nMoneySupply }
    blockTree := blockTree }

theorem moneyFrame_refl (state : ConnectState) : MoneyFrame state state := ⟨_, _, _, rfl⟩

theorem moneyFrame_trans (a b c : ConnectState) (left : MoneyFrame a b)
    (right : MoneyFrame b c) : MoneyFrame a c := by
  obtain ⟨_, _, _, rfl⟩ := left
  obtain ⟨nMint, nMoneySupply, blockTree, rfl⟩ := right
  exact ⟨nMint, nMoneySupply, blockTree, rfl⟩

theorem recordMoneySupply_frame (totals : BlockTotals) :
    Keeps MoneyFrame (recordMoneySupply call totals) := by
  refine keeps_bind moneyFrame_trans (keeps_update fun before => ⟨_, _, _, rfl⟩) fun _ => ?_
  refine keeps_bind moneyFrame_trans (keeps_check moneyFrame_refl _) fun _ => ?_
  exact keeps_update fun before => ⟨_, _, _, rfl⟩

theorem checkAfter_frame (totals : BlockTotals) :
    Keeps SameButAccumulators (checkAfter node call totals) := by
  unfold checkAfter
  split
  · exact keeps_failing sameButAccumulators_refl _
  · rename_i parent older family
    have transitive := sameButAccumulators_trans
    refine keeps_bind transitive (keeps_reading sameButAccumulators_refl _) fun state => ?_
    refine keeps_bind transitive (keeps_check sameButAccumulators_refl _) fun _ => ?_
    refine keeps_bind transitive (checkAccumulator_keeps parent) fun _ => ?_
    exact keeps_check sameButAccumulators_refl _

section
variable (respects : RespectsChecks machinery call related)
include respects

theorem trackZerocoinSupply_keeps : Keeps related (trackZerocoinSupply machinery node call) := by
  intro state
  have framed : Keeps SupplyFrame (trackZerocoinSupply machinery node call) :=
    trackZerocoinSupply_frame
  obtain ⟨supply, mints, ended⟩ := framed state
  rw [ended]
  exact respects.entry state _ ⟨rfl, rfl, rfl, rfl, rfl, rfl⟩

theorem recordMoneySupply_keeps (totals : BlockTotals) :
    Keeps related (recordMoneySupply call totals) := by
  intro state
  obtain ⟨nMint, nMoneySupply, blockTree, ended⟩ := recordMoneySupply_frame totals state
  rw [ended]
  have edited := respects.entry state { state.pindex with
    nMint := nMint, nMoneySupply := nMoneySupply } ⟨rfl, rfl, rfl, rfl, rfl, rfl⟩
  exact respects.transitive _ _ _ edited (respects.blockTree _ blockTree)

theorem checkAfter_keeps (totals : BlockTotals) : Keeps related (checkAfter node call totals) := by
  intro state
  obtain ⟨values, invalid, ended⟩ := checkAfter_frame totals state
  rw [ended]
  exact respects.transitive _ _ _ (respects.accumulators state values)
    (respects.invalid _ invalid)

end

theorem recordConnected_keeps (respects : RespectsRecord machinery call related)
    (totals : BlockTotals) : Keeps related (recordConnected machinery node call totals) := by
  refine keeps_bind respects.transitive ?_ fun _ => ?_
  · unfold writeUndo
    refine keeps_bind respects.transitive (keeps_reading respects.reflexive _) fun state => ?_
    split
    · exact keeps_pure respects.reflexive _
    · refine keeps_bind respects.transitive ?_ fun _ => keeps_update fun before => ?_
      · unfold writeUndoData
        split
        · exact keeps_pure respects.reflexive _
        · refine keeps_bind respects.transitive (keeps_check respects.reflexive _) fun _ => ?_
          refine keeps_bind respects.transitive (keeps_check respects.reflexive _) fun _ => ?_
          refine keeps_update fun before => ?_
          have written := respects.undo before (some ⟨totals.vtxundo.drop 1⟩)
          have marked := respects.status { before with undo := some ⟨totals.vtxundo.drop 1⟩ }
            { before.pindex.nStatus with haveUndo := true }
          exact respects.transitive _ _ _ written marked
      · have raised := (raiseValidity_status before.pindex BLOCK_VALID_SCRIPTS).1
        have dirtied := respects.dirty before true
        have entered := respects.status { before with fDirty := true }
          (before.pindex.raiseValidity BLOCK_VALID_SCRIPTS).nStatus
        unfold raiseScripts
        rw [raised]
        exact respects.transitive _ _ _ dirtied entered
  refine keeps_bind respects.transitive ?_ fun _ => ?_
  · unfold writeTxIndex
    split
    · refine keeps_bind respects.transitive (keeps_check respects.reflexive _) fun _ => ?_
      exact keeps_update fun before => respects.txIndex before
    · exact keeps_pure respects.reflexive _
  refine keeps_bind respects.transitive (keeps_update fun before => ?_) fun _ => ?_
  · exact respects.view before _
  · unfold followInvalidSpends
    refine keeps_bind respects.transitive (keeps_reading respects.reflexive _) fun state => ?_
    split
    · refine keeps_bind respects.transitive (keeps_check respects.reflexive _) fun _ => ?_
      exact keeps_update fun before => respects.invalid before _
    · exact keeps_pure respects.reflexive _

theorem connectChecks_keeps (respects : RespectsChecks machinery call related) :
    Keeps related (connectChecks machinery node call) := by
  refine keeps_bind respects.transitive (keeps_reading respects.reflexive _) fun _ => ?_
  refine keeps_bind respects.transitive (keeps_check respects.reflexive _) fun _ => ?_
  refine keeps_bind respects.transitive (connectTxs_keeps respects.toRespectsTxs) fun totals => ?_
  refine keeps_bind respects.transitive (trackZerocoinSupply_keeps respects) fun _ => ?_
  refine keeps_bind respects.transitive (recordMoneySupply_keeps respects totals) fun _ => ?_
  refine keeps_bind respects.transitive (checkAfter_keeps respects totals) fun _ => ?_
  exact keeps_pure respects.reflexive totals

theorem connectBlock_keeps (respects : Respects machinery call related) :
    Keeps related (connectBlock machinery node call) := by
  refine keeps_bind respects.transitive (keeps_reading respects.reflexive _) fun state => ?_
  refine keeps_bind respects.transitive (keeps_check respects.reflexive _) fun _ => ?_
  refine keeps_bind respects.transitive (keeps_check respects.reflexive _) fun _ => ?_
  split
  · exact keeps_update fun before => respects.view before _
  · unfold connectTransactions
    refine keeps_bind respects.transitive (connectChecks_keeps respects.toRespectsChecks)
      fun totals => ?_
    split
    · exact keeps_pure respects.reflexive _
    · exact recordConnected_keeps respects.toRespectsRecord totals

end Keeping

structure SamePlace (a b : CBlockIndex) : Prop where
  hash : a.hash = b.hash
  nHeight : a.nHeight = b.nHeight

theorem place_respected (machinery : Machinery) (call : ConnectCall) :
    Respects machinery call fun before after => SamePlace before.pindex after.pindex := by
  constructor
  · constructor
    · constructor
      · exact fun _ => ⟨rfl, rfl⟩
      · intro a b c left right
        exact ⟨left.hash.trans right.hash, left.nHeight.trans right.nHeight⟩
      · exact fun _ _ _ _ _ => ⟨rfl, rfl⟩
      · exact fun _ _ => ⟨rfl, rfl⟩
    · exact fun _ _ same => ⟨same.hash, same.nHeight⟩
    · exact fun _ _ => ⟨rfl, rfl⟩
    · exact fun _ _ => ⟨rfl, rfl⟩
    · exact fun _ _ => ⟨rfl, rfl⟩
  · exact fun _ _ => ⟨rfl, rfl⟩
  · exact fun _ _ => ⟨rfl, rfl⟩
  · exact fun _ _ => ⟨rfl, rfl⟩
  · exact fun _ => ⟨rfl, rfl⟩

theorem connectBlock_place (machinery : Machinery) (node : Node) (call : ConnectCall)
    (state : ConnectState) :
    SamePlace state.pindex (endState (connectBlock machinery node call state)).pindex :=
  connectBlock_keeps (place_respected machinery call) state

section Undo

variable {machinery : Machinery} {node : Node} {call : ConnectCall}

def SameUndo (before after : ConnectState) : Prop :=
  after.undo = before.undo ∧ after.pindex.nStatus.haveUndo = before.pindex.nStatus.haveUndo

theorem sameUndo_respected (machinery : Machinery) (call : ConnectCall) :
    RespectsChecks machinery call SameUndo := by
  constructor
  · constructor
    · exact fun _ => ⟨rfl, rfl⟩
    · exact fun a b c left right => ⟨right.1.trans left.1, right.2.trans left.2⟩
    · exact fun _ _ _ _ _ => ⟨rfl, rfl⟩
    · exact fun _ _ => ⟨rfl, rfl⟩
  · intro state pindex same
    exact ⟨rfl, by rw [same.nStatus]⟩
  · exact fun _ _ => ⟨rfl, rfl⟩
  · exact fun _ _ => ⟨rfl, rfl⟩
  · exact fun _ _ => ⟨rfl, rfl⟩

def UndoOnce (blockundo : CBlockUndo) (before after : ConnectState) : Prop :=
  SameUndo before after ∨
    before.pindex.nStatus.haveUndo = false ∧ after.undo = some blockundo ∧
      after.pindex.nStatus.haveUndo = true

theorem undoOnce_refl (blockundo : CBlockUndo) (state : ConnectState) :
    UndoOnce blockundo state state := Or.inl ⟨rfl, rfl⟩

theorem undoOnce_trans (blockundo : CBlockUndo) (a b c : ConnectState)
    (left : UndoOnce blockundo a b) (right : UndoOnce blockundo b c) :
    UndoOnce blockundo a c := by
  unfold UndoOnce SameUndo at *
  rcases left with ⟨undo, status⟩ | ⟨none, undo, status⟩
  · rw [← undo, ← status]
    exact right
  · rcases right with ⟨undo', status'⟩ | ⟨missing, _, _⟩
    · exact Or.inr ⟨none, undo'.trans undo, status'.trans status⟩
    · rw [status] at missing
      cases missing

theorem writeUndo_keeps (blockundo : CBlockUndo) :
    Keeps (UndoOnce blockundo) (writeUndo call blockundo) := by
  intro state
  unfold writeUndo writeUndoData
  cases stored : state.pindex.nStatus.haveUndo with
  | true =>
    cases valid : state.pindex.isValid BLOCK_VALID_SCRIPTS with
    | true =>
      simp only [bind, EStateM.bind, reading, id_eq, stored, valid]
      exact undoOnce_refl blockundo state
    | false =>
      simp only [bind, EStateM.bind, reading, id_eq, stored, valid]
      exact Or.inl ⟨rfl, (raiseValidity_status state.pindex BLOCK_VALID_SCRIPTS).2⟩
  | false =>
    simp only [bind, EStateM.bind, reading, id_eq, stored]
    cases call.undoPosFound with
    | false => exact undoOnce_refl blockundo state
    | true =>
      cases call.undoWritten with
      | false => exact undoOnce_refl blockundo state
      | true =>
        refine Or.inr ⟨stored, rfl, ?_⟩
        exact (raiseValidity_status _ BLOCK_VALID_SCRIPTS).2

theorem recordConnected_undo (totals : BlockTotals) :
    Keeps (UndoOnce ⟨totals.vtxundo.drop 1⟩) (recordConnected machinery node call totals) := by
  have reflexive := undoOnce_refl ⟨totals.vtxundo.drop 1⟩
  have transitive := undoOnce_trans ⟨totals.vtxundo.drop 1⟩
  refine keeps_bind transitive (writeUndo_keeps _) fun _ => ?_
  refine keeps_bind transitive ?_ fun _ => ?_
  · unfold writeTxIndex
    split
    · refine keeps_bind transitive (keeps_check reflexive _) fun _ => ?_
      exact keeps_update fun before => Or.inl ⟨rfl, rfl⟩
    · exact keeps_pure reflexive _
  refine keeps_bind transitive (keeps_update fun before => Or.inl ⟨rfl, rfl⟩) fun _ => ?_
  refine keeps_bind transitive (keeps_reading reflexive _) fun state => ?_
  split
  · refine keeps_bind transitive (keeps_check reflexive _) fun _ => ?_
    exact keeps_update fun before => Or.inl ⟨rfl, rfl⟩
  · exact keeps_pure reflexive _

theorem connectTransactions_ends (related : ConnectState → ConnectState → Prop)
    (respects : RespectsChecks machinery call related) (state : ConnectState) :
    related state (endState (connectTransactions machinery node call state)) ∨
      ∃ totals middle, Completes (connectChecks machinery node call) state totals middle ∧
        endState (connectTransactions machinery node call state) =
          endState ((if call.fJustCheck then pure () else
            recordConnected machinery node call totals : Connecting Unit) middle) :=
  keeps_or_completes (connectChecks_keeps respects) state

theorem connectTransactions_undo (state : ConnectState) :
    SameUndo state (endState (connectTransactions machinery node call state)) ∨
      ∃ parent older totals spends middle, call.ancestry = parent :: older ∧
        ChecksPassed machinery node call parent state middle totals spends ∧
        state.pindex.nStatus.haveUndo = false ∧
        (endState (connectTransactions machinery node call state)).undo =
          some ⟨totals.vtxundo.drop 1⟩ ∧
        (endState (connectTransactions machinery node call state)).pindex.nStatus.haveUndo =
          true := by
  rcases connectTransactions_ends SameUndo (sameUndo_respected machinery call) state with
    kept | ⟨totals, middle, passing, ended⟩
  · exact Or.inl kept
  · cases family : call.ancestry with
    | nil =>
      unfold connectChecks at passing
      simp only [completes_bind] at passing
      obtain ⟨_, _, _, _, _, _, _, _, _, _, _, _, _, _, _, _, _, last, _⟩ := passing
      unfold checkAfter at last
      rw [family, completes_failing] at last
      exact last.elim
    | cons parent older =>
      obtain ⟨spends, passed⟩ := connectChecks_passed family passing
      have entry := passed.entry
      have status : middle.pindex.nStatus = state.pindex.nStatus := by
        rw [entry]
        rfl
      rw [ended]
      split
      · exact Or.inl ⟨passed.undo, by rw [← status]; rfl⟩
      · have recorded : Keeps (UndoOnce ⟨totals.vtxundo.drop 1⟩)
            (recordConnected machinery node call totals) := recordConnected_undo totals
        rcases recorded middle with same | ⟨missing, written, has⟩
        · exact Or.inl ⟨same.1.trans passed.undo, by rw [same.2, status]⟩
        · refine Or.inr ⟨parent, older, totals, spends, middle, rfl, passed, ?_, written, has⟩
          rw [← status]
          exact missing

theorem connectBlock_undo (state : ConnectState)
    (child : machinery.blockHash call.block.toCBlockHeader ≠ node.params.hashGenesisBlock) :
    SameUndo state (endState (connectBlock machinery node call state)) ∨
      ∃ parent older totals spends middle, call.ancestry = parent :: older ∧
        checkAgain machinery node call state = .ok () ∧
        ChecksPassed machinery node call parent state middle totals spends ∧
        state.pindex.nStatus.haveUndo = false ∧
        (endState (connectBlock machinery node call state)).undo =
          some ⟨totals.vtxundo.drop 1⟩ ∧
        (endState (connectBlock machinery node call state)).pindex.nStatus.haveUndo = true := by
  have reflexive : ∀ state, SameUndo state state := (sameUndo_respected machinery call).reflexive
  unfold connectBlock
  simp only [bind, EStateM.bind, reading, id_eq, check, if_neg child]
  cases checked : checkAgain machinery node call state with
  | error failure => exact Or.inl (reflexive state)
  | ok _ =>
    cases require (hashPrevBlock call == state.view.getBestBlock) Failure.crashed with
    | error failure => exact Or.inl (reflexive state)
    | ok _ =>
      rcases connectTransactions_undo state with
        kept | ⟨parent, older, totals, spends, middle, family, passed, missing, written, has⟩
      · exact Or.inl kept
      · exact Or.inr ⟨parent, older, totals, spends, middle, family, rfl, passed, missing, written,
          has⟩

end Undo

end OxidConnectWrites
