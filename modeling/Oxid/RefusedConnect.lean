import Oxid.CheckedBlock
import Oxid.Issuance

/-!
What a refused or just-check `ConnectBlock` call leaves behind. Its writes come in six
kinds, each made by one phase and touched by no later one.
-/
namespace OxidRefusedConnect
open OxidPrimitives OxidUtxoView OxidDisconnectBlock OxidZerocoin OxidChainParams
open OxidNode OxidCheckBlock OxidConnectBlock OxidConnectedBlock OxidConnectWrites
open OxidCheckedBlock OxidChainRun OxidIssuance Attempt

structure Unchanged (before after : ConnectState) : Prop where
  zerocoinDB : after.zerocoinDB = before.zerocoinDB
  blockTree : after.blockTree = before.blockTree
  nMint : after.pindex.nMint = before.pindex.nMint
  nMoneySupply : after.pindex.nMoneySupply = before.pindex.nMoneySupply
  mapZerocoinSupply : after.pindex.mapZerocoinSupply = before.pindex.mapZerocoinSupply
  vMintDenominationsInBlock :
    after.pindex.vMintDenominationsInBlock = before.pindex.vMintDenominationsInBlock
  nStatus : after.pindex.nStatus = before.pindex.nStatus

def mintsIn (state : ConnectState) : Int → Option Uint256 := state.zerocoinDB.coinMints

def spendsIn (state : ConnectState) : Int → Option Uint256 := state.zerocoinDB.coinSpends

def accumulatorsIn (state : ConnectState) : AccumulatorValues :=
  state.zerocoinDB.accumulatorValues

def recordsIn (state : ConnectState) : Uint256 → Option CBlockIndex := state.blockTree

def supplyIn (state : ConnectState) : (CoinDenomination → Int) × List CoinDenomination :=
  (state.pindex.mapZerocoinSupply, state.pindex.vMintDenominationsInBlock)

def amountsIn (state : ConnectState) : Int × Int :=
  (state.pindex.nMint, state.pindex.nMoneySupply)

def statusIn (state : ConnectState) : BlockStatus := state.pindex.nStatus

theorem unchanged_iff (before after : ConnectState) :
    Unchanged before after ↔
      Untouched mintsIn before after ∧ Untouched spendsIn before after ∧
      Untouched supplyIn before after ∧ Untouched amountsIn before after ∧
      Untouched recordsIn before after ∧ Untouched accumulatorsIn before after ∧
      Untouched statusIn before after := by
  simp only [Untouched, mintsIn, spendsIn, supplyIn, amountsIn, recordsIn, accumulatorsIn,
    statusIn, Prod.mk.injEq]
  constructor
  · intro same
    rw [same.zerocoinDB]
    exact ⟨rfl, rfl, ⟨same.mapZerocoinSupply, same.vMintDenominationsInBlock⟩,
      ⟨same.nMint, same.nMoneySupply⟩, same.blockTree, rfl, same.nStatus⟩
  · rintro ⟨mints, spends, ⟨supply, denominations⟩, ⟨nMint, nMoneySupply⟩, records, values,
      status⟩
    have database : after.zerocoinDB = before.zerocoinDB := by
      cases afterDB : after.zerocoinDB
      cases beforeDB : before.zerocoinDB
      rw [afterDB, beforeDB] at mints spends values
      simp only at mints spends values
      rw [mints, spends, values]
    exact ⟨database, records, nMint, nMoneySupply, supply, denominations, status⟩

section Frames

variable {machinery : Machinery} {node : Node} {call : ConnectCall}

def TxsFrame (before after : ConnectState) : Prop :=
  ∃ view coinSpends, after = { before with
    view := view, zerocoinDB := { before.zerocoinDB with coinSpends := coinSpends } }

theorem txsFrame_trans (a b c : ConnectState) (left : TxsFrame a b) (right : TxsFrame b c) :
    TxsFrame a c := by
  obtain ⟨_, _, rfl⟩ := left
  obtain ⟨view, coinSpends, rfl⟩ := right
  exact ⟨view, coinSpends, rfl⟩

theorem connectTxs_frame : Keeps TxsFrame (connectTxs machinery node call) := by
  refine connectTxs_keeps ⟨fun _ => ⟨_, _, rfl⟩, txsFrame_trans, ?_, ?_⟩
  · exact fun _ _ _ _ _ => ⟨_, _, rfl⟩
  · exact fun _ _ => ⟨_, _, rfl⟩

def RecordFrame (before after : ConnectState) : Prop :=
  ∃ view undo txIndex fDirty invalid nStatus, after = { before with
    view := view
    undo := undo
    txIndex := txIndex
    fDirty := fDirty
    invalid := invalid
    pindex := { before.pindex with nStatus := nStatus } }

theorem recordFrame_trans (a b c : ConnectState) (left : RecordFrame a b)
    (right : RecordFrame b c) : RecordFrame a c := by
  obtain ⟨_, _, _, _, _, _, rfl⟩ := left
  obtain ⟨view, undo, txIndex, fDirty, invalid, nStatus, rfl⟩ := right
  exact ⟨view, undo, txIndex, fDirty, invalid, nStatus, rfl⟩

theorem recordConnected_frame (totals : BlockTotals) :
    Keeps RecordFrame (recordConnected machinery node call totals) := by
  have respects : RespectsRecord machinery call RecordFrame := by
    constructor
    · exact fun _ => ⟨_, _, _, _, _, _, rfl⟩
    · exact recordFrame_trans
    · exact fun _ _ => ⟨_, _, _, _, _, _, rfl⟩
    · exact fun _ _ => ⟨_, _, _, _, _, _, rfl⟩
    · exact fun _ _ => ⟨_, _, _, _, _, _, rfl⟩
    · exact fun _ _ => ⟨_, _, _, _, _, _, rfl⟩
    · exact fun _ _ => ⟨_, _, _, _, _, _, rfl⟩
    · exact fun _ => ⟨_, _, _, _, _, _, rfl⟩
  exact recordConnected_keeps respects totals

def finish (machinery : Machinery) (node : Node) (call : ConnectCall) (totals : BlockTotals) :
    Connecting Unit :=
  if call.fJustCheck then pure () else recordConnected machinery node call totals

theorem finish_frame (totals : BlockTotals) :
    Keeps RecordFrame (finish machinery node call totals) := by
  unfold finish
  split
  · exact keeps_pure (fun _ => ⟨_, _, _, _, _, _, rfl⟩) ()
  · exact recordConnected_frame totals

end Frames

section Phases

variable {machinery : Machinery} {node : Node} {call : ConnectCall} {γ : Type}
  {part : ConnectState → γ}

def afterMoney (node : Node) (call : ConnectCall) (totals : BlockTotals) :
    Connecting BlockTotals := do
  checkAfter node call totals
  pure totals

def afterSupply (node : Node) (call : ConnectCall) (totals : BlockTotals) :
    Connecting BlockTotals := do
  recordMoneySupply call totals
  afterMoney node call totals

def afterTxs (machinery : Machinery) (node : Node) (call : ConnectCall) (totals : BlockTotals) :
    Connecting BlockTotals := do
  trackZerocoinSupply machinery node call
  afterSupply node call totals

theorem connectTransactions_phases : connectTransactions machinery node call = (do
    let state ← reading id
    check (checkBefore machinery node call state)
    let totals ← connectTxs machinery node call
    afterTxs machinery node call totals) >>= finish machinery node call := rfl

theorem afterMoney_keeps (accumulators : ∀ a b, SameButAccumulators a b → Untouched part a b)
    (totals : BlockTotals) : Keeps (Untouched part) (afterMoney node call totals) := by
  refine keeps_bind (untouched_trans part) (keeps_mono (checkAfter_frame totals) accumulators) ?_
  exact fun _ => keeps_pure (untouched_refl part) totals

theorem afterSupply_keeps (money : ∀ a b, MoneyFrame a b → Untouched part a b)
    (accumulators : ∀ a b, SameButAccumulators a b → Untouched part a b)
    (totals : BlockTotals) : Keeps (Untouched part) (afterSupply node call totals) := by
  refine keeps_bind (untouched_trans part) (keeps_mono (recordMoneySupply_frame totals) money) ?_
  exact fun _ => afterMoney_keeps accumulators totals

theorem afterTxs_keeps (supply : ∀ a b, SupplyFrame a b → Untouched part a b)
    (money : ∀ a b, MoneyFrame a b → Untouched part a b)
    (accumulators : ∀ a b, SameButAccumulators a b → Untouched part a b)
    (totals : BlockTotals) : Keeps (Untouched part) (afterTxs machinery node call totals) := by
  refine keeps_bind (untouched_trans part) (keeps_mono trackZerocoinSupply_frame supply) ?_
  exact fun _ => afterSupply_keeps money accumulators totals

theorem leaves_phases (finished : ∀ a b, RecordFrame a b → Untouched part a b)
    (state : ConnectState) :
    Leaves part (connectTransactions machinery node call) state ↔
      (checkBefore machinery node call state = .ok () →
        Leaves part (connectTxs machinery node call >>= afterTxs machinery node call) state) := by
  rw [connectTransactions_phases,
    leaves_head fun totals => keeps_mono (finish_frame totals) finished]
  rw [leaves_reading_bind, leaves_check_bind]
  constructor
  · exact fun left passed => left () passed
  · exact fun left _ passed => left passed

theorem leaves_spends (state : ConnectState) :
    Leaves spendsIn (connectTransactions machinery node call) state ↔
      (checkBefore machinery node call state = .ok () →
        Leaves spendsIn (connectTxs machinery node call) state) := by
  rw [leaves_phases]
  · rw [leaves_head fun totals => afterTxs_keeps ?_ ?_ ?_ totals]
    · rintro a b ⟨_, _, rfl⟩
      rfl
    · rintro a b ⟨_, _, _, rfl⟩
      rfl
    · rintro a b ⟨_, _, rfl⟩
      rfl
  · rintro a b ⟨_, _, _, _, _, _, rfl⟩
    rfl

theorem leaves_supply (state : ConnectState) :
    Leaves supplyIn (connectTransactions machinery node call) state ↔
      (checkBefore machinery node call state = .ok () →
        ∀ totals middle, Completes (connectTxs machinery node call) state totals middle →
          Leaves supplyIn (trackZerocoinSupply machinery node call) middle) := by
  rw [leaves_phases]
  · rw [leaves_tail (keeps_mono connectTxs_frame ?_)]
    · unfold afterTxs
      have rest : ∀ (totals : BlockTotals) (_ : Unit),
          Keeps (Untouched supplyIn) (afterSupply node call totals) := by
        intro totals _
        refine afterSupply_keeps ?_ ?_ totals
        · rintro a b ⟨_, _, _, rfl⟩
          rfl
        · rintro a b ⟨_, _, rfl⟩
          rfl
      simp [leaves_head (rest _)]
    · rintro a b ⟨_, _, rfl⟩
      rfl
  · rintro a b ⟨_, _, _, _, _, _, rfl⟩
    rfl

theorem leaves_afterSupply (finished : ∀ a b, RecordFrame a b → Untouched part a b)
    (txs : ∀ a b, TxsFrame a b → Untouched part a b)
    (supply : ∀ a b, SupplyFrame a b → Untouched part a b) (state : ConnectState) :
    Leaves part (connectTransactions machinery node call) state ↔
      (checkBefore machinery node call state = .ok () →
        ∀ totals middle, Completes (connectTxs machinery node call) state totals middle →
          ∀ tracked, Completes (trackZerocoinSupply machinery node call) middle () tracked →
            Leaves part (afterSupply node call totals) tracked) := by
  rw [leaves_phases finished, leaves_tail (keeps_mono connectTxs_frame txs)]
  unfold afterTxs
  simp only [leaves_tail (keeps_mono trackZerocoinSupply_frame supply)]
  constructor
  · exact fun left passed totals middle ran tracked => left passed totals middle ran () tracked
  · exact fun left passed totals middle ran _ tracked => left passed totals middle ran tracked

theorem leaves_amounts (state : ConnectState) :
    Leaves amountsIn (connectTransactions machinery node call) state ↔
      (checkBefore machinery node call state = .ok () →
        ∀ totals middle, Completes (connectTxs machinery node call) state totals middle →
          ∀ tracked, Completes (trackZerocoinSupply machinery node call) middle () tracked →
            Leaves amountsIn (recordMoneySupply call totals) tracked) := by
  rw [leaves_afterSupply]
  · unfold afterSupply
    have rest : ∀ (totals : BlockTotals) (_ : Unit),
        Keeps (Untouched amountsIn) (afterMoney node call totals) := by
      intro totals _
      refine afterMoney_keeps ?_ totals
      rintro a b ⟨_, _, rfl⟩
      rfl
    simp [leaves_head (rest _)]
  · rintro a b ⟨_, _, _, _, _, _, rfl⟩
    rfl
  · rintro a b ⟨_, _, rfl⟩
    rfl
  · rintro a b ⟨_, _, rfl⟩
    rfl

theorem leaves_records (state : ConnectState) :
    Leaves recordsIn (connectTransactions machinery node call) state ↔
      (checkBefore machinery node call state = .ok () →
        ∀ totals middle, Completes (connectTxs machinery node call) state totals middle →
          ∀ tracked, Completes (trackZerocoinSupply machinery node call) middle () tracked →
            Leaves recordsIn (recordMoneySupply call totals) tracked) := by
  rw [leaves_afterSupply]
  · unfold afterSupply
    have rest : ∀ (totals : BlockTotals) (_ : Unit),
        Keeps (Untouched recordsIn) (afterMoney node call totals) := by
      intro totals _
      refine afterMoney_keeps ?_ totals
      rintro a b ⟨_, _, rfl⟩
      rfl
    simp [leaves_head (rest _)]
  · rintro a b ⟨_, _, _, _, _, _, rfl⟩
    rfl
  · rintro a b ⟨_, _, rfl⟩
    rfl
  · rintro a b ⟨_, _, rfl⟩
    rfl

theorem leaves_accumulators (state : ConnectState) :
    Leaves accumulatorsIn (connectTransactions machinery node call) state ↔
      (checkBefore machinery node call state = .ok () →
        ∀ totals middle, Completes (connectTxs machinery node call) state totals middle →
          ∀ tracked, Completes (trackZerocoinSupply machinery node call) middle () tracked →
            ∀ recorded, Completes (recordMoneySupply call totals) tracked () recorded →
              Leaves accumulatorsIn (checkAfter node call totals) recorded) := by
  rw [leaves_afterSupply]
  · unfold afterSupply
    have money : ∀ totals : BlockTotals,
        Keeps (Untouched accumulatorsIn) (recordMoneySupply call totals) := by
      intro totals
      refine keeps_mono (recordMoneySupply_frame totals) ?_
      rintro a b ⟨_, _, _, rfl⟩
      rfl
    have rest : ∀ (totals : BlockTotals) (_ : Unit),
        Keeps (Untouched accumulatorsIn) (pure totals : Connecting BlockTotals) :=
      fun totals _ => keeps_pure (untouched_refl _) totals
    unfold afterMoney
    simp only [leaves_tail (money _), leaves_head (rest _)]
    constructor
    · exact fun left passed totals middle ran tracked followed recorded written =>
        left passed totals middle ran tracked followed () recorded written
    · exact fun left passed totals middle ran tracked followed _ recorded written =>
        left passed totals middle ran tracked followed recorded written
  · rintro a b ⟨_, _, _, _, _, _, rfl⟩
    rfl
  · rintro a b ⟨_, _, rfl⟩
    rfl
  · rintro a b ⟨_, _, rfl⟩
    rfl

theorem leaves_status (state : ConnectState) :
    Leaves statusIn (connectTransactions machinery node call) state ↔
      ∀ totals middle, Completes (connectChecks machinery node call) state totals middle →
        Leaves statusIn (finish machinery node call totals) middle := by
  have checks : Keeps (Untouched statusIn) (connectChecks machinery node call) := by
    refine connectChecks_keeps ?_
    constructor
    · constructor
      · exact untouched_refl _
      · exact untouched_trans _
      · exact fun _ _ _ _ _ => rfl
      · exact fun _ _ => rfl
    · exact fun _ _ same => same.nStatus.symm
    · exact fun _ _ => rfl
    · exact fun _ _ => rfl
    · exact fun _ _ => rfl
  exact leaves_tail checks state

end Phases

section Spends

variable (machinery : Machinery) (node : Node) (call : ConnectCall)

/-- If this input is a spend that is accepted now, it is on record for its
    transaction already. -/
def SpendRecorded (txid : Uint256) (txin : CTxIn) (_ : Int) (state : ConnectState) : Prop :=
  CScript.isZerocoinSpend txin.scriptSig = true →
    ∀ spend, txInToZerocoinSpend machinery txin = .ok spend →
      checkSpend machinery node call state spend = .ok () →
        state.zerocoinDB.coinSpends spend.coinSerialNumber = some txid

def TxRecorded (tx : CTransaction) (totals : BlockTotals) (state : ConnectState) : Prop :=
  tx.isZerocoinSpend = true →
    (countSigOps machinery tx totals).nSigOps ≤ MAX_BLOCK_SIGOPS_CURRENT →
    alreadyInChain node state.pindex.nHeight
      (isTransactionInChain machinery node state.txIndex (machinery.txHash tx)) = false →
    Along (connectSpend machinery node call (machinery.txHash tx))
      (SpendRecorded machinery node call (machinery.txHash tx)) tx.vin totals.nValueIn state

variable {machinery node call}

theorem writeCoinSpend_same {db : CZerocoinDB} {serial : Int} {txid : Uint256} :
    (db.writeCoinSpend serial txid).coinSpends = db.coinSpends ↔
      db.coinSpends serial = some txid := by
  unfold CZerocoinDB.writeCoinSpend
  constructor
  · intro same
    have here := congrFun same serial
    simp only [Function.update_self] at here
    exact here.symm
  · intro recorded
    rw [← recorded]
    exact Function.update_eq_self serial db.coinSpends

theorem leaves_connectSpend (txid : Uint256) (txin : CTxIn) (nValueIn : Int)
    (state : ConnectState) :
    Leaves spendsIn (connectSpend machinery node call txid txin nValueIn) state ↔
      SpendRecorded machinery node call txid txin nValueIn state := by
  unfold connectSpend SpendRecorded
  split
  · rename_i marked
    simp only [marked, forall_const]
    rw [leaves_check_bind]
    refine forall_congr' fun spend => forall_congr' fun parsed => ?_
    rw [leaves_reading_bind, leaves_check_bind]
    constructor
    · intro left checked
      have recorded : (state.zerocoinDB.writeCoinSpend spend.coinSerialNumber txid).coinSpends =
          state.zerocoinDB.coinSpends := left () checked
      exact writeCoinSpend_same.mp recorded
    · intro recorded _ checked
      exact writeCoinSpend_same.mpr (recorded checked)
  · rename_i plain
    constructor
    · exact fun _ marked => absurd marked plain
    · exact fun _ => rfl

def reveals (machinery : Machinery) (txin : CTxIn) (serial : Int) : Prop :=
  CScript.isZerocoinSpend txin.scriptSig = true ∧
    ∃ spend, machinery.zerocoin.txInToZerocoinSpend txin = some spend ∧
      spend.coinSerialNumber = serial

theorem connectSpend_within (txid : Uint256) (txin : CTxIn) (nValueIn : Int)
    (state : ConnectState) (serial : Int) (other : ¬ reveals machinery txin serial) :
    spendsIn (endState (connectSpend machinery node call txid txin nValueIn state)) serial =
      spendsIn state serial := by
  unfold connectSpend
  split
  · rename_i marked
    cases parsed : txInToZerocoinSpend machinery txin with
    | error failure => rfl
    | ok spend =>
      cases checked : checkSpend machinery node call state spend with
      | error failure =>
        simp only [bind, EStateM.bind, check, reading, id_eq, checked, endState]
      | ok _ =>
        simp only [bind, EStateM.bind, check, reading, id_eq, checked, update, endState, pure,
          EStateM.pure]
        refine Function.update_of_ne ?_ _ _
        intro same
        exact other ⟨marked, spend, txInToZerocoinSpend_ok parsed, same.symm⟩
  · rfl

theorem reveals_mem {vin : List CTxIn} {txin : CTxIn} (member : txin ∈ vin) {serial : Int}
    (revealed : reveals machinery txin serial) :
    serial ∈ (spendsOf machinery vin).map CoinSpend.coinSerialNumber := by
  obtain ⟨marked, spend, parsed, rfl⟩ := revealed
  refine List.mem_map_of_mem ?_
  unfold spendsOf
  rw [List.mem_filterMap]
  exact ⟨txin, List.mem_filter.mpr ⟨member, marked⟩, parsed⟩

theorem reveals_apart {vin : List CTxIn}
    (distinct : ((spendsOf machinery vin).map CoinSpend.coinSerialNumber).Nodup) :
    vin.Pairwise fun one other => ∀ serial, reveals machinery one serial →
      ¬ reveals machinery other serial := by
  induction vin with
  | nil => exact List.Pairwise.nil
  | cons txin rest ih =>
    by_cases taken : ∃ serial, reveals machinery txin serial
    · obtain ⟨serial, marked, spend, parsed, named⟩ := taken
      rw [spendsOf_take machinery rest marked parsed, List.map_cons, List.nodup_cons] at distinct
      refine List.pairwise_cons.mpr ⟨?_, ih distinct.2⟩
      rintro other member again ⟨_, spend', parsed', rfl⟩ revealed
      rw [parsed] at parsed'
      cases parsed'
      exact distinct.1 (reveals_mem member revealed)
    · have later : ((spendsOf machinery rest).map CoinSpend.coinSerialNumber).Nodup := by
        by_cases marked : CScript.isZerocoinSpend txin.scriptSig = true
        · cases parsed : machinery.zerocoin.txInToZerocoinSpend txin with
          | none => simpa [spendsOf, marked, parsed] using distinct
          | some spend => exact absurd ⟨_, marked, spend, parsed, rfl⟩ taken
        · rwa [spendsOf_skip machinery rest (by simpa using marked)] at distinct
      refine List.pairwise_cons.mpr ⟨?_, ih later⟩
      intro other member serial revealed
      exact absurd ⟨serial, revealed⟩ taken

theorem leaves_connectTx {tx : CTransaction}
    (distinct : ((txSpends machinery tx).map CoinSpend.coinSerialNumber).Nodup)
    (totals : BlockTotals) (state : ConnectState) :
    Leaves spendsIn (connectTx machinery node call tx totals) state ↔
      TxRecorded machinery node call tx totals state := by
  have rest : ∀ counted : BlockTotals, Keeps (Untouched spendsIn) (do
      let nValueOut ← check (getValueOut tx)
      let undo ← connectCoins machinery tx
      pure { counted with
        nValueOut := counted.nValueOut + nValueOut
        vtxundo := counted.vtxundo ++ [undo] }) := by
    intro counted
    have reflexive := untouched_refl spendsIn
    have transitive := untouched_trans spendsIn
    refine keeps_bind transitive (keeps_check reflexive _) fun _ => ?_
    refine keeps_bind transitive ?_ fun _ => keeps_pure reflexive _
    refine keeps_bind transitive (keeps_reading reflexive _) fun state => ?_
    split
    · exact keeps_failing reflexive _
    · exact keeps_bind transitive (keeps_update fun _ => rfl) fun _ => keeps_pure reflexive _
  unfold connectTx TxRecorded
  rw [leaves_check_bind]
  simp only [leaves_head rest, require_ok, decide_eq_true_eq, forall_const]
  unfold connectKind
  by_cases spend : tx.isZerocoinSpend = true
  · have listed : txSpends machinery tx = spendsOf machinery tx.vin := by
      rw [txSpends, if_pos spend]
    rw [listed] at distinct
    have loop : ∀ total state, Leaves spendsIn
        (forEach (connectSpend machinery node call (machinery.txHash tx)) tx.vin total) state ↔
        Along (connectSpend machinery node call (machinery.txHash tx))
          (SpendRecorded machinery node call (machinery.txHash tx)) tx.vin total state := by
      intro total state
      rw [leaves_forEach tx.vin (fun txin _ => connectSpend_within (machinery.txHash tx) txin)
        (reveals_apart distinct) total state]
      apply along_congr
      intro txin _ total state
      exact leaves_connectSpend (machinery.txHash tx) txin total state
    have ends : ∀ nValueIn : Int, Keeps (Untouched spendsIn)
        (pure { countSigOps machinery tx totals with nValueIn := nValueIn } :
          Connecting BlockTotals) := fun _ => keeps_pure (untouched_refl spendsIn) _
    simp only [spend, if_true, connectSpends, leaves_reading_bind, leaves_check_bind, require_ok,
      leaves_head ends, loop, id_eq, forall_const, Bool.not_eq_true']
    rfl
  · simp only [spend, Bool.false_eq_true, if_false, false_implies, iff_true]
    intro _
    split
    · rfl
    · rw [leaves_reading_bind]
      unfold Leaves check
      split <;> rfl

theorem connectTx_within {tx : CTransaction} (totals : BlockTotals) (state : ConnectState)
    (serial : Int) (other : serial ∉ (txSpends machinery tx).map CoinSpend.coinSerialNumber) :
    spendsIn (endState (connectTx machinery node call tx totals state)) serial =
      spendsIn state serial := by
  have respects : RespectsTxs machinery [tx] (Untouched fun state => spendsIn state serial) := by
    constructor
    · exact untouched_refl _
    · exact untouched_trans _
    · intro recorded member spend revealed state
      rw [List.mem_singleton] at member
      subst member
      have apart : serial ≠ spend.coinSerialNumber := by
        intro same
        exact other (List.mem_map.mpr ⟨spend, revealed, same.symm⟩)
      exact Function.update_of_ne apart _ _
    · exact fun _ _ => rfl
  exact connectTx_keeps respects (List.mem_singleton.mpr rfl) totals state

/-- The transactions leave the recorded spends as they are exactly when each accepted
    spend is on record already. -/
theorem leaves_connectTxs (distinct : (blockSerials machinery call.block.vtx).Nodup)
    (state : ConnectState) :
    Leaves spendsIn (connectTxs machinery node call) state ↔
      Along (connectTx machinery node call) (TxRecorded machinery node call) call.block.vtx
        BlockTotals.init state := by
  unfold blockSerials at distinct
  rw [List.nodup_flatMap] at distinct
  obtain ⟨each, disjoint⟩ := distinct
  have apart : call.block.vtx.Pairwise fun one other => ∀ serial,
      serial ∈ (txSpends machinery one).map CoinSpend.coinSerialNumber →
        serial ∉ (txSpends machinery other).map CoinSpend.coinSerialNumber := by
    apply disjoint.imp
    intro one other separate serial here there
    exact separate here there
  have within : ∀ tx ∈ call.block.vtx, ∀ totals state serial,
      serial ∉ (txSpends machinery tx).map CoinSpend.coinSerialNumber →
        spendsIn (endState (connectTx machinery node call tx totals state)) serial =
          spendsIn state serial :=
    fun tx _ => connectTx_within
  unfold connectTxs
  rw [leaves_forEach call.block.vtx within apart]
  apply along_congr
  intro tx member totals state
  exact leaves_connectTx (each tx member) totals state

end Spends

section Supply

variable (machinery : Machinery) (node : Node) (call : ConnectCall)

/-- The supply after spends are taken off it, up to the first that may not be. -/
def supplyAfter : List CoinDenomination → (CoinDenomination → Int) → CoinDenomination → Int
  | [], supply => supply
  | denom :: rest, supply =>
    if denom ∈ zerocoinDenomList then
      if 0 ≤ supply denom - 1 then
        supplyAfter rest (Function.update supply denom (supply denom - 1))
      else Function.update supply denom (supply denom - 1)
    else supply

def mintedSupply (parent : CBlockIndex) (mints : List CoinDenomination) (pindex : CBlockIndex) :
    CoinDenomination → Int :=
  fun denom => (inheritSupply parent pindex).mapZerocoinSupply denom + mints.count denom

/-- The entry holds the supply and the mints already that are counted now. -/
def SupplyStands (state : ConnectState) : Prop :=
  ∀ spends, spendListOf machinery node call state = .ok spends →
    match call.ancestry with
    | [] => state.pindex.vMintDenominationsInBlock = []
    | parent :: _ =>
      state.pindex.vMintDenominationsInBlock = mintsOf machinery node call state ∧
        supplyAfter spends (mintedSupply parent (mintsOf machinery node call state)
          state.pindex) = state.pindex.mapZerocoinSupply

variable {machinery node call}

def setSupply (supply : CoinDenomination → Int) (state : ConnectState) : ConnectState :=
  editIndex (fun pindex => { pindex with mapZerocoinSupply := supply }) state

theorem removeSpend_run (denom : CoinDenomination) (state : ConnectState) :
    removeSpend denom () state =
      if denom ∈ zerocoinDenomList then
        let lowered := setSupply (Function.update state.pindex.mapZerocoinSupply denom
          (state.pindex.mapZerocoinSupply denom - 1)) state
        if 0 ≤ state.pindex.mapZerocoinSupply denom - 1 then .ok () lowered
        else .error .ban lowered
      else .error .thrown state := by
  have lowers : editIndex (addToSupply denom (-1)) state =
      setSupply (Function.update state.pindex.mapZerocoinSupply denom
        (state.pindex.mapZerocoinSupply denom - 1)) state := rfl
  unfold removeSpend
  by_cases listed : denom ∈ zerocoinDenomList
  · simp only [bind, EStateM.bind, check, require, listed, decide_true, if_true, update, lowers,
      reading, id_eq]
    have here : (setSupply (Function.update state.pindex.mapZerocoinSupply denom
        (state.pindex.mapZerocoinSupply denom - 1)) state).pindex.mapZerocoinSupply denom =
          state.pindex.mapZerocoinSupply denom - 1 := Function.update_self _ _ _
    rw [here]
    by_cases covered : 0 ≤ state.pindex.mapZerocoinSupply denom - 1
    · simp only [covered, decide_true, if_true]
    · simp only [covered, decide_false, Bool.false_eq_true, if_false]
  · simp only [bind, EStateM.bind, check, require, listed, decide_false, Bool.false_eq_true,
      if_false]

theorem removeSpends_ends (spends : List CoinDenomination) (state : ConnectState) :
    endState (forEach removeSpend spends () state) =
      setSupply (supplyAfter spends state.pindex.mapZerocoinSupply) state := by
  induction spends generalizing state with
  | nil => rfl
  | cons denom rest ih =>
    change endState ((removeSpend denom () >>= forEach removeSpend rest) state) = _
    simp only [bind, EStateM.bind, removeSpend_run, supplyAfter]
    by_cases listed : denom ∈ zerocoinDenomList
    · by_cases covered : 0 ≤ state.pindex.mapZerocoinSupply denom - 1
      · simp only [listed, covered, if_true]
        exact ih _
      · simp only [listed, covered, if_true, if_false]
        rfl
    · simp only [listed, if_false]
      rfl

theorem leaves_trackZerocoinSupply (state : ConnectState) :
    Leaves supplyIn (trackZerocoinSupply machinery node call) state ↔
      SupplyStands machinery node call state := by
  unfold trackZerocoinSupply SupplyStands
  rw [leaves_reading_bind, leaves_check_bind]
  refine forall_congr' fun spends => forall_congr' fun listed => ?_
  cases family : call.ancestry with
  | nil =>
    constructor
    · intro left
      exact (congrArg Prod.snd left).symm
    · intro stands
      exact Prod.ext rfl stands.symm
  | cons parent older =>
    have ends := removeSpends_ends spends (editIndex (fun pindex =>
      addMints (mintsOf machinery node call state)
        { inheritSupply parent pindex with vMintDenominationsInBlock := [] }) state)
    obtain ⟨supply, inherited⟩ := inheritSupply_frame parent state.pindex
    have result : supplyIn (endState (forEach removeSpend spends () (editIndex (fun pindex =>
        addMints (mintsOf machinery node call state)
          { inheritSupply parent pindex with vMintDenominationsInBlock := [] }) state))) =
        (supplyAfter spends (mintedSupply parent (mintsOf machinery node call state)
          state.pindex), mintsOf machinery node call state) := by
      have minted : mintedSupply parent (mintsOf machinery node call state) state.pindex =
          fun denom => supply denom + (mintsOf machinery node call state).count denom := by
        unfold mintedSupply
        rw [inherited]
      rw [ends, minted]
      simp [supplyIn, setSupply, editIndex, addMints_eq, inherited]
    constructor
    · intro left
      have same := result.symm.trans left
      exact ⟨(congrArg Prod.snd same).symm, congrArg Prod.fst same⟩
    · intro stands
      have same : supplyIn state = (supplyAfter spends (mintedSupply parent
          (mintsOf machinery node call state) state.pindex), mintsOf machinery node call state) :=
        Prod.ext stands.2.symm stands.1
      exact result.trans same.symm

end Supply

section Amounts

variable {machinery : Machinery} {node : Node} {call : ConnectCall}

def amountsAfter (call : ConnectCall) (totals : BlockTotals) : Int × Int :=
  let nMoneySupplyPrev := (call.ancestry.head?.map CBlockIndex.nMoneySupply).getD 0
  (nMoneySupplyPrev + totals.nValueOut - totals.nValueIn - nMoneySupplyPrev + totals.nFees,
    nMoneySupplyPrev + totals.nValueOut - totals.nValueIn)

def recordedIndex (call : ConnectCall) (totals : BlockTotals) (pindex : CBlockIndex) :
    CBlockIndex :=
  { pindex with
    nMint := (amountsAfter call totals).1
    nMoneySupply := (amountsAfter call totals).2 }

theorem recordMoneySupply_run (totals : BlockTotals) (state : ConnectState) :
    recordMoneySupply call totals state =
      let amounts := editIndex (recordedIndex call totals) state
      if call.blockIndexWritten then .ok () { amounts with
        blockTree := Function.update state.blockTree state.pindex.hash
          (some (recordedIndex call totals state.pindex)) }
      else .error .plain amounts := by
  unfold recordMoneySupply
  cases written : call.blockIndexWritten <;>
    simp only [bind, EStateM.bind, update, check, require, Bool.false_eq_true, if_true,
      if_false] <;> rfl

theorem leaves_recordedAmounts (totals : BlockTotals) (state : ConnectState) :
    Leaves amountsIn (recordMoneySupply call totals) state ↔
      amountsIn state = amountsAfter call totals := by
  unfold Leaves
  rw [recordMoneySupply_run]
  cases call.blockIndexWritten <;> exact eq_comm

theorem leaves_record (totals : BlockTotals) (state : ConnectState) :
    Leaves recordsIn (recordMoneySupply call totals) state ↔
      (call.blockIndexWritten = true →
        state.blockTree state.pindex.hash = some (recordedIndex call totals state.pindex)) := by
  unfold Leaves
  rw [recordMoneySupply_run]
  cases call.blockIndexWritten with
  | false =>
    constructor
    · nofun
    · exact fun _ => rfl
  | true =>
    constructor
    · intro left _
      have here := congrFun left state.pindex.hash
      simp only [recordsIn, endState, if_true, editIndex, Function.update_self] at here
      exact here.symm
    · intro stands
      rw [← stands rfl]
      exact Function.update_eq_self _ _

def accumulatorsAfter (node : Node) (call : ConnectCall) (state : ConnectState) :
    AccumulatorValues :=
  let nHeight := state.pindex.nHeight
  let invalid := (populateInvalid node call state).invalid
  let first := call.calculateAccumulatorCheckpoint nHeight invalid
    state.zerocoinDB.accumulatorValues
  if first.2.isSome || !(decide (nHeight < node.params.nBlockRecalculateAccumulators + 20) &&
      decide (node.params.nBlockLastGoodCheckpoint < nHeight)) then first.1
  else
    let reindexed := call.reindexAccumulators invalid first.1
    if reindexed.2 then (call.calculateAccumulatorCheckpoint nHeight invalid reindexed.1).1
    else reindexed.1

/-- The accumulators stand, if a checkpoint is calculated and the block gets to that. -/
def AccumulatorsStand (node : Node) (call : ConnectCall) (totals : BlockTotals)
    (state : ConnectState) : Prop :=
  ∀ parent older, call.ancestry = parent :: older →
    checkReward node call parent totals state.pindex = .ok () →
    (!node.fVerifyingBlocks && decide (node.params.nZerocoinStartHeight ≤ state.pindex.nHeight) &&
      decide (state.pindex.nHeight % 10 = 0)) = true →
    accumulatorsAfter node call state = state.zerocoinDB.accumulatorValues

theorem calculateCheckpoint_run (state : ConnectState) :
    calculateCheckpoint call state =
      .ok (call.calculateAccumulatorCheckpoint state.pindex.nHeight state.invalid
          state.zerocoinDB.accumulatorValues).2
        (setAccumulators (call.calculateAccumulatorCheckpoint state.pindex.nHeight state.invalid
          state.zerocoinDB.accumulatorValues).1 state) := rfl

def retries (node : Node) (nHeight : Int) : Bool :=
  decide (nHeight < node.params.nBlockRecalculateAccumulators + 20) &&
    decide (node.params.nBlockLastGoodCheckpoint < nHeight)

theorem recalculateCheckpoint_ends (state : ConnectState) :
    accumulatorsIn (endState (recalculateCheckpoint node call state)) =
      if retries node state.pindex.nHeight then
        let reindexed := call.reindexAccumulators state.invalid state.zerocoinDB.accumulatorValues
        if reindexed.2 then
          (call.calculateAccumulatorCheckpoint state.pindex.nHeight state.invalid reindexed.1).1
        else reindexed.1
      else state.zerocoinDB.accumulatorValues := by
  unfold recalculateCheckpoint
  cases near : retries node state.pindex.nHeight with
  | false =>
    unfold retries at near
    simp only [bind, EStateM.bind, reading, id_eq, check, require, near, Bool.false_eq_true,
      if_false]
    rfl
  | true =>
    unfold retries at near
    simp only [bind, EStateM.bind, reading, id_eq, check, require, near, if_true, update]
    cases (call.reindexAccumulators state.invalid state.zerocoinDB.accumulatorValues).2 with
    | false => rfl
    | true =>
      simp only [if_true, calculateCheckpoint_run]
      generalize (call.calculateAccumulatorCheckpoint _ _ _).2 = again
      cases again <;> rfl

theorem checkAccumulator_ends (parent : CBlockIndex) (state : ConnectState)
    (calculated : (!node.fVerifyingBlocks &&
      decide (node.params.nZerocoinStartHeight ≤ state.pindex.nHeight) &&
      decide (state.pindex.nHeight % 10 = 0)) = true) :
    accumulatorsIn (endState (checkAccumulator node call parent state)) =
      accumulatorsAfter node call state := by
  have height : (populateInvalid node call state).pindex = state.pindex := by
    unfold populateInvalid
    split <;> rfl
  have values : (populateInvalid node call state).zerocoinDB = state.zerocoinDB := by
    unfold populateInvalid
    split <;> rfl
  have shape : checkAccumulator node call parent state =
      (checkpointOrRetry node call (call.calculateAccumulatorCheckpoint state.pindex.nHeight
          (populateInvalid node call state).invalid state.zerocoinDB.accumulatorValues).2 >>=
        fun nCheckpointCalculated => check
          (require (nCheckpointCalculated == call.block.nAccumulatorCheckpoint) .ban))
        (setAccumulators (call.calculateAccumulatorCheckpoint state.pindex.nHeight
          (populateInvalid node call state).invalid state.zerocoinDB.accumulatorValues).1
          (populateInvalid node call state)) := by
    unfold checkAccumulator
    simp only [bind, EStateM.bind, reading, id_eq, calculated, if_true, update,
      calculateCheckpoint_run, height, values]
  rw [shape, endState_bind fun _ => keeps_check Eq.refl _]
  unfold accumulatorsAfter
  dsimp only
  cases (call.calculateAccumulatorCheckpoint state.pindex.nHeight
    (populateInvalid node call state).invalid state.zerocoinDB.accumulatorValues).2 with
  | some nCheckpoint => rfl
  | none =>
    have again := @recalculateCheckpoint_ends node call (setAccumulators
      (call.calculateAccumulatorCheckpoint state.pindex.nHeight
        (populateInvalid node call state).invalid state.zerocoinDB.accumulatorValues).1
      (populateInvalid node call state))
    refine again.trans ?_
    have same : (setAccumulators (call.calculateAccumulatorCheckpoint state.pindex.nHeight
        (populateInvalid node call state).invalid state.zerocoinDB.accumulatorValues).1
        (populateInvalid node call state)).pindex = state.pindex := height
    rw [same]
    unfold retries
    cases decide (state.pindex.nHeight < node.params.nBlockRecalculateAccumulators + 20) &&
      decide (node.params.nBlockLastGoodCheckpoint < state.pindex.nHeight) <;> rfl

theorem leaves_checkAfter (totals : BlockTotals) (state : ConnectState) :
    Leaves accumulatorsIn (checkAfter node call totals) state ↔
      AccumulatorsStand node call totals state := by
  unfold checkAfter AccumulatorsStand
  cases family : call.ancestry with
  | nil =>
    constructor
    · intro _ parent older impossible
      cases impossible
    · exact fun _ => rfl
  | cons parent older =>
    have ends : ∀ _ : Unit, Keeps (Untouched accumulatorsIn)
        (check (require totals.fScriptsPass .ban) : Connecting Unit) :=
      fun _ => keeps_check (untouched_refl _) _
    simp only [leaves_reading_bind, leaves_check_bind, leaves_head ends]
    have step : Leaves accumulatorsIn (checkAccumulator node call parent) state ↔
        ((!node.fVerifyingBlocks &&
          decide (node.params.nZerocoinStartHeight ≤ state.pindex.nHeight) &&
          decide (state.pindex.nHeight % 10 = 0)) = true →
        accumulatorsAfter node call state = state.zerocoinDB.accumulatorValues) := by
      by_cases calculated : (!node.fVerifyingBlocks &&
          decide (node.params.nZerocoinStartHeight ≤ state.pindex.nHeight) &&
          decide (state.pindex.nHeight % 10 = 0)) = true
      · unfold Leaves Untouched
        rw [checkAccumulator_ends parent state calculated]
        exact ⟨fun same _ => same, fun same => same calculated⟩
      · constructor
        · exact fun _ reached => absurd reached calculated
        · intro _
          unfold checkAccumulator Leaves
          simp only [bind, EStateM.bind, reading, id_eq, calculated, Bool.false_eq_true, if_false]
          exact keeps_check (untouched_refl _) _ state
    constructor
    · intro left other rest same passed reached
      cases same
      exact step.mp (left () passed) reached
    · intro stands _ passed
      exact step.mpr (stands parent older rfl passed)

end Amounts

section Status

variable {machinery : Machinery} {node : Node} {call : ConnectCall}

/-- Recording the block leaves the entry's status: its undo data are there and it is
    validated or failed, or they are not and do not get there. -/
def StatusStands (call : ConnectCall) (pindex : CBlockIndex) : Prop :=
  if pindex.nStatus.haveUndo then
    pindex.nStatus.failed = true ∨ BLOCK_VALID_SCRIPTS ≤ pindex.nStatus.valid
  else call.undoPosFound = false ∨ call.undoWritten = false

theorem raiseValidity_same (pindex : CBlockIndex) (nUpTo : Nat) :
    (pindex.raiseValidity nUpTo).nStatus = pindex.nStatus ↔
      pindex.nStatus.failed = true ∨ nUpTo ≤ pindex.nStatus.valid := by
  unfold CBlockIndex.raiseValidity
  cases failed : pindex.nStatus.failed with
  | true => simp
  | false =>
    by_cases below : pindex.nStatus.valid < nUpTo
    · simp only [Bool.false_eq_true, below, if_true, if_false, false_or]
      constructor
      · intro same
        have raised := congrArg BlockStatus.valid same
        simp only at raised
        omega
      · intro
        omega
    · simp only [Bool.false_eq_true, below, if_false, false_or, true_iff]
      omega

theorem leaves_writeUndo (blockundo : CBlockUndo) (state : ConnectState) :
    Leaves statusIn (writeUndo call blockundo) state ↔ StatusStands call state.pindex := by
  unfold writeUndo StatusStands
  rw [leaves_reading_bind]
  cases stored : state.pindex.nStatus.haveUndo with
  | true =>
    simp only [id_eq, stored, Bool.true_and, if_true]
    by_cases valid : state.pindex.isValid BLOCK_VALID_SCRIPTS = true
    · rw [if_pos valid]
      unfold CBlockIndex.isValid at valid
      simp only [Bool.and_eq_true, decide_eq_true_eq] at valid
      constructor
      · exact fun _ => .inr valid.2
      · exact fun _ => rfl
    · rw [if_neg valid]
      exact raiseValidity_same state.pindex BLOCK_VALID_SCRIPTS
  | false =>
    simp only [id_eq, stored, Bool.false_and, Bool.false_eq_true, if_false]
    unfold writeUndoData Leaves
    cases found : call.undoPosFound with
    | false =>
      simp only [Bool.false_eq_true, if_false, true_or, iff_true]
      rfl
    | true =>
      cases written : call.undoWritten with
      | false =>
        simp only [Bool.false_eq_true, if_false, or_true, iff_true]
        rfl
      | true =>
        simp only [Bool.true_eq_false, or_self, iff_false]
        intro left
        have undone := congrArg BlockStatus.haveUndo left
        have kept := (raiseValidity_status { state.pindex with
          nStatus := { state.pindex.nStatus with haveUndo := true } } BLOCK_VALID_SCRIPTS).2
        have marked := kept.symm.trans (undone.trans stored)
        cases marked

theorem leaves_finish (totals : BlockTotals) (state : ConnectState) :
    Leaves statusIn (finish machinery node call totals) state ↔
      (call.fJustCheck = false → StatusStands call state.pindex) := by
  unfold finish
  cases call.fJustCheck with
  | true =>
    constructor
    · nofun
    · exact fun _ => rfl
  | false =>
    have rest : ∀ _ : Unit, Keeps (Untouched statusIn) (do
        writeTxIndex machinery node call
        update setBest
        followInvalidSpends machinery node call) := by
      intro _
      have reflexive := untouched_refl statusIn
      have transitive := untouched_trans statusIn
      refine keeps_bind transitive ?_ fun _ => keeps_bind transitive (keeps_update ?_) fun _ => ?_
      · unfold writeTxIndex
        split
        · exact keeps_bind transitive (keeps_check reflexive _) fun _ => keeps_update fun _ => rfl
        · exact keeps_pure reflexive _
      · exact fun _ => rfl
      · unfold followInvalidSpends
        refine keeps_bind transitive (keeps_reading reflexive _) fun state => ?_
        split
        · exact keeps_bind transitive (keeps_check reflexive _) fun _ => keeps_update fun _ => rfl
        · exact keeps_pure reflexive _
    simp only [Bool.false_eq_true, if_false, forall_const]
    unfold recordConnected
    rw [leaves_head rest]
    exact leaves_writeUndo ⟨totals.vtxundo.drop 1⟩ state

end Status

section Calls

variable (machinery : Machinery) (node : Node) (call : ConnectCall)

def Enters (state : ConnectState) : Prop :=
  checkAgain machinery node call state = .ok () ∧
    hashPrevBlock call = state.view.getBestBlock ∧
    machinery.blockHash call.block.toCBlockHeader ≠ node.params.hashGenesisBlock ∧
    checkBefore machinery node call state = .ok ()

def PassesTxs (state : ConnectState) (totals : BlockTotals) (middle : ConnectState) : Prop :=
  Completes (connectTxs machinery node call) state totals middle

def PassesSupply (state : ConnectState) (totals : BlockTotals) (tracked : ConnectState) : Prop :=
  ∃ middle, PassesTxs machinery node call state totals middle ∧
    Completes (trackZerocoinSupply machinery node call) middle () tracked

structure WritesStand (state : ConnectState) : Prop where
  spends : Along (connectTx machinery node call) (TxRecorded machinery node call)
    call.block.vtx BlockTotals.init state
  supply : ∀ totals middle, PassesTxs machinery node call state totals middle →
    SupplyStands machinery node call middle
  amounts : ∀ totals tracked, PassesSupply machinery node call state totals tracked →
    amountsIn tracked = amountsAfter call totals
  recorded : ∀ totals tracked, PassesSupply machinery node call state totals tracked →
    call.blockIndexWritten = true →
      tracked.blockTree tracked.pindex.hash = some (recordedIndex call totals tracked.pindex)
  accumulators : ∀ totals tracked, PassesSupply machinery node call state totals tracked →
    ∀ entered, Completes (recordMoneySupply call totals) tracked () entered →
      AccumulatorsStand node call totals entered
  status : ∀ totals checked, Completes (connectChecks machinery node call) state totals checked →
    call.fJustCheck = false → StatusStands call checked.pindex

variable {machinery node call}

theorem connectTransactions_mints : Keeps (Untouched mintsIn)
    (connectTransactions machinery node call) := by
  refine keeps_bind (untouched_trans mintsIn) (connectChecks_keeps ?_) fun totals => ?_
  · constructor
    · constructor
      · exact untouched_refl _
      · exact untouched_trans _
      · exact fun _ _ _ _ _ => rfl
      · exact fun _ _ => rfl
    · exact fun _ _ _ => rfl
    · exact fun _ _ => rfl
    · exact fun _ _ => rfl
    · exact fun _ _ => rfl
  · refine keeps_mono (finish_frame totals) ?_
    rintro a b ⟨_, _, _, _, _, _, rfl⟩
    rfl

theorem connectTransactions_unchanged (distinct : (blockSerials machinery call.block.vtx).Nodup)
    (state : ConnectState) (passed : checkBefore machinery node call state = .ok ()) :
    Unchanged state (endState (connectTransactions machinery node call state)) ↔
      WritesStand machinery node call state := by
  have mints := @connectTransactions_mints machinery node call state
  have spends := @leaves_spends machinery node call state
  have supply := @leaves_supply machinery node call state
  have amounts := @leaves_amounts machinery node call state
  have records := @leaves_records machinery node call state
  have accumulators := @leaves_accumulators machinery node call state
  have status := @leaves_status machinery node call state
  simp only [passed, forall_const, leaves_connectTxs distinct] at spends
  simp only [passed, forall_const, leaves_trackZerocoinSupply] at supply
  simp only [passed, forall_const, leaves_recordedAmounts] at amounts
  simp only [passed, forall_const, leaves_record] at records
  simp only [passed, forall_const, leaves_checkAfter] at accumulators
  simp only [leaves_finish] at status
  rw [unchanged_iff]
  constructor
  · rintro ⟨_, first, second, third, fourth, fifth, sixth⟩
    constructor
    · exact spends.mp first
    · exact supply.mp second
    · rintro totals tracked ⟨middle, ran, followed⟩
      exact amounts.mp third totals middle ran tracked followed
    · rintro totals tracked ⟨middle, ran, followed⟩
      exact records.mp fourth totals middle ran tracked followed
    · rintro totals tracked ⟨middle, ran, followed⟩
      exact accumulators.mp fifth totals middle ran tracked followed
    · exact status.mp sixth
  · intro stand
    refine ⟨mints, spends.mpr stand.spends, supply.mpr stand.supply, amounts.mpr ?_,
      records.mpr ?_, accumulators.mpr ?_, status.mpr stand.status⟩
    · intro totals middle ran tracked followed
      exact stand.amounts totals tracked ⟨middle, ran, followed⟩
    · intro totals middle ran tracked followed
      exact stand.recorded totals tracked ⟨middle, ran, followed⟩
    · intro totals middle ran tracked followed
      exact stand.accumulators totals tracked ⟨middle, ran, followed⟩

end Calls

def excessiveBlock : CBlock := coinbaseBlock (2650001 * COIN)

def premineBlock : CBlock := coinbaseBlock (2650000 * COIN)

def justCheck (block : CBlock) : ConnectCall := { firstCall block with fJustCheck := true }

def firstState (block : CBlock) : ConnectState := firstConnectState labelMachinery block

def failureOf (result : EStateM.Result Failure ConnectState Unit) : Option Failure :=
  match result with
  | .ok _ _ => none
  | .error failure _ => some failure

end OxidRefusedConnect
