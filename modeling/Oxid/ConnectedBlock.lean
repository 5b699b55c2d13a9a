import Oxid.ConnectBlock

/-!
What a completed `ConnectBlock` did: a specification for a zerocoin input, for a
transaction, for the loop over the block, and for the whole call.
-/
namespace OxidConnectedBlock
open OxidPrimitives OxidCoins OxidUtxoView OxidDisconnectBlock OxidZerocoin OxidChainParams
open OxidNode OxidCheckBlock OxidConnectBlock Attempt

def spendsOf (machinery : Machinery) (vin : List CTxIn) : List CoinSpend :=
  (vin.filter fun txin => CScript.isZerocoinSpend txin.scriptSig).filterMap
    machinery.zerocoin.txInToZerocoinSpend

def txSpends (machinery : Machinery) (tx : CTransaction) : List CoinSpend :=
  if tx.isZerocoinSpend then spendsOf machinery tx.vin else []

def spendAmount (spend : CoinSpend) : Int := zerocoinDenominationToInt spend.denomination * COIN

def spentAmount (spends : List CoinSpend) : Int := (spends.map spendAmount).sum

def recordSpends (txid : Uint256) (spends : List CoinSpend) (zerocoinDB : CZerocoinDB) :
    CZerocoinDB :=
  spends.foldl (fun db spend => db.writeCoinSpend spend.coinSerialNumber txid) zerocoinDB

/-- The serials the database held when each spend was met were not in the chain. -/
def FreshSpends (machinery : Machinery) (node : Node) (txIndex : TxIndex) (nHeight : Int)
    (txid : Uint256) : List CoinSpend → CZerocoinDB → Prop
  | [], _ => True
  | spend :: rest, db =>
    alreadyInChain node nHeight
        (isSerialInBlockchain machinery node txIndex db spend.coinSerialNumber) = false ∧
      FreshSpends machinery node txIndex nHeight txid rest
        (db.writeCoinSpend spend.coinSerialNumber txid)

theorem spendsOf_skip (machinery : Machinery) {txin : CTxIn} (rest : List CTxIn)
    (plain : CScript.isZerocoinSpend txin.scriptSig = false) :
    spendsOf machinery (txin :: rest) = spendsOf machinery rest := by
  simp [spendsOf, plain]

theorem spendsOf_take (machinery : Machinery) {txin : CTxIn} (rest : List CTxIn)
    {spend : CoinSpend} (marked : CScript.isZerocoinSpend txin.scriptSig = true)
    (parsed : machinery.zerocoin.txInToZerocoinSpend txin = some spend) :
    spendsOf machinery (txin :: rest) = spend :: spendsOf machinery rest := by
  simp [spendsOf, marked, parsed]

section Loop

variable {machinery : Machinery} {node : Node} {call : ConnectCall}

theorem txInToZerocoinSpend_ok {txin : CTxIn} {spend : CoinSpend}
    (parsed : txInToZerocoinSpend machinery txin = .ok spend) :
    machinery.zerocoin.txInToZerocoinSpend txin = some spend := by
  unfold txInToZerocoinSpend at parsed
  split at parsed
  · cases parsed
  · rename_i found
    cases parsed
    exact found

variable {totals totals' : BlockTotals} {state state' : ConnectState} {tx : CTransaction}
variable {txs : List CTransaction} {nValueIn total : Int}

theorem getValueOut_ok {nValueOut : Int} (summed : getValueOut tx = .ok nValueOut) :
    tx.getValueOut = some nValueOut := by
  unfold getValueOut at summed
  split at summed
  · cases summed
  · rename_i found
    cases summed
    exact found

theorem connectSpend_loop {txid : Uint256} (vin : List CTxIn) {state final : ConnectState}
    (completed : Completes (forEach (connectSpend machinery node call txid) vin nValueIn)
      state total final) :
    total = nValueIn + spentAmount (spendsOf machinery vin) ∧
      final = { state with
        zerocoinDB := recordSpends txid (spendsOf machinery vin) state.zerocoinDB } ∧
      FreshSpends machinery node state.txIndex state.pindex.nHeight txid
        (spendsOf machinery vin) state.zerocoinDB := by
  induction vin generalizing nValueIn state with
  | nil =>
    obtain ⟨rfl, rfl⟩ := completed
    exact ⟨by simp [spentAmount, spendsOf], rfl, trivial⟩
  | cons txin rest ih =>
    rw [completes_forEach_cons] at completed
    obtain ⟨next, middle, first, later⟩ := completed
    unfold connectSpend at first
    split at first
    · rename_i marked
      simp only [completes_bind, completes_check, completes_reading, completes_update,
        completes_pure] at first
      obtain ⟨spend, _, ⟨parsed, rfl⟩, _, _, ⟨rfl, rfl⟩, _, _, ⟨checked, rfl⟩, _, _, rfl,
        rfl, rfl⟩ := first
      obtain ⟨sum, frame, fresh⟩ := ih later
      have taken := spendsOf_take machinery rest marked (txInToZerocoinSpend_ok parsed)
      have unused : alreadyInChain node state.pindex.nHeight (isSerialInBlockchain machinery node
          state.txIndex state.zerocoinDB spend.coinSerialNumber) = false := by
        unfold checkSpend at checked
        simp only [bind_ok, require_ok, exists_const] at checked
        simpa using checked.2.1
      rw [taken]
      refine ⟨?_, frame, ⟨unused, fresh⟩⟩
      rw [sum]
      simp only [spentAmount, List.map_cons, List.sum_cons, spendAmount]
      omega
    · rename_i plain
      obtain ⟨rfl, rfl⟩ := first
      rw [spendsOf_skip machinery rest (by simpa using plain)]
      exact ih later

def txValueIn (machinery : Machinery) (coins : Uint256 → CCoins) (tx : CTransaction) : Int :=
  if tx.isZerocoinSpend then spentAmount (txSpends machinery tx)
  else if tx.isCoinBase then 0
  else getValueIn coins tx

def txValueOut (tx : CTransaction) : Int := tx.getValueOut.getD 0

def txFee (coins : Uint256 → CCoins) (tx : CTransaction) : Int :=
  if spendsInputs tx && !tx.isCoinStake then getValueIn coins tx - txValueOut tx else 0

theorem checkInputValues_sum {coins : Uint256 → CCoins} {nSpendHeight : Int} {vin : List CTxIn}
    (summed : checkInputValues node coins nSpendHeight vin nValueIn = .ok total) :
    total = nValueIn + (vin.map fun txin => (getOutputFor coins txin).nValue).sum := by
  induction vin generalizing nValueIn with
  | nil =>
    cases summed
    simp
  | cons txin rest ih =>
    simp only [checkInputValues, bind_ok, require_ok, exists_const] at summed
    rw [ih summed.2.2]
    simp only [List.map_cons, List.sum_cons]
    omega

theorem checkInputs_ok {view : UtxoView} {fScriptChecks passed : Bool} {flags : ScriptFlags}
    (checked : checkInputs machinery node view tx fScriptChecks flags = .ok passed)
    (staked : tx.isCoinStake = false) :
    txValueOut tx ≤ getValueIn view.coins tx := by
  simp only [checkInputs, bind_ok, require_ok, exists_const] at checked
  obtain ⟨_, rest⟩ := checked
  split at rest
  · cases rest
  · simp only [checkTxFee, staked, Bool.false_eq_true, if_false, bind_ok, require_ok,
      exists_const] at rest
    obtain ⟨nValueIn, summed, ⟨nValueOut, paid, covered, _⟩, _⟩ := rest
    have total := checkInputValues_sum summed
    rw [txValueOut, getValueOut_ok paid]
    simp only [decide_eq_true_eq] at covered
    unfold getValueIn
    simp only [Option.getD_some]
    omega

/-- A completed transaction: its effect on the state and on the totals, and what
    was found in order. -/
structure TxConnected (machinery : Machinery) (node : Node) (call : ConnectCall)
    (tx : CTransaction) (totals : BlockTotals) (state : ConnectState) (totals' : BlockTotals)
    (state' : ConnectState) : Prop where
  summed : tx.getValueOut.isSome = true
  valueOut : totals'.nValueOut = totals.nValueOut + txValueOut tx
  valueIn : totals'.nValueIn = totals.nValueIn + txValueIn machinery state.view.coins tx
  fees : totals'.nFees = totals.nFees + txFee state.view.coins tx
  feesPaid : 0 ≤ txFee state.view.coins tx
  coins : ∃ undo, updateCoins machinery.txHash (Int32.ofInt state.pindex.nHeight) tx state.view =
    some (state'.view, undo) ∧ totals'.vtxundo = totals.vtxundo ++ [undo]
  frame : state' = { state with
    view := state'.view
    zerocoinDB := recordSpends (machinery.txHash tx) (txSpends machinery tx) state.zerocoinDB }
  available : spendsInputs tx = true → haveInputs state.view.coins tx = true
  fresh : FreshSpends machinery node state.txIndex state.pindex.nHeight (machinery.txHash tx)
    (txSpends machinery tx) state.zerocoinDB

structure TxChecked (machinery : Machinery) (node : Node) (tx : CTransaction)
    (totals : BlockTotals) (state : ConnectState) (totals' : BlockTotals)
    (state' : ConnectState) : Prop where
  valueOut : totals'.nValueOut = totals.nValueOut
  valueIn : totals'.nValueIn = totals.nValueIn + txValueIn machinery state.view.coins tx
  fees : totals'.nFees = totals.nFees + txFee state.view.coins tx
  feesPaid : 0 ≤ txFee state.view.coins tx
  undo : totals'.vtxundo = totals.vtxundo
  frame : state' = { state with
    zerocoinDB := recordSpends (machinery.txHash tx) (txSpends machinery tx) state.zerocoinDB }
  available : spendsInputs tx = true → haveInputs state.view.coins tx = true
  fresh : FreshSpends machinery node state.txIndex state.pindex.nHeight (machinery.txHash tx)
    (txSpends machinery tx) state.zerocoinDB

theorem connectSpends_checked (spend : tx.isZerocoinSpend = true)
    (completed : Completes (connectSpends machinery node call tx totals) state totals' state') :
    TxChecked machinery node tx totals state totals' state' := by
  unfold connectSpends at completed
  simp only [completes_bind, completes_check, completes_reading, completes_pure] at completed
  obtain ⟨_, _, ⟨rfl, rfl⟩, _, _, ⟨_, rfl⟩, total, _, loop, rfl, rfl⟩ := completed
  obtain ⟨sum, frame, fresh⟩ := connectSpend_loop tx.vin loop
  have spends : txSpends machinery tx = spendsOf machinery tx.vin := by
    rw [txSpends, if_pos spend]
  have unspent : spendsInputs tx = false := by simp [spendsInputs, spend]
  constructor
  · rfl
  · rw [txValueIn, if_pos spend, spends]
    exact sum
  · simp [txFee, unspent]
  · simp [txFee, unspent]
  · rfl
  · rw [spends]
    exact frame
  · rw [unspent]
    nofun
  · rw [spends]
    exact fresh

theorem coinBase_checked (totals : BlockTotals) (state : ConnectState)
    (spend : tx.isZerocoinSpend = false) (coinbase : tx.isCoinBase = true) :
    TxChecked machinery node tx totals state totals state := by
  have spends : txSpends machinery tx = [] := by simp [txSpends, spend]
  have unspent : spendsInputs tx = false := by simp [spendsInputs, coinbase]
  constructor
  · rfl
  · simp [txValueIn, spend, coinbase]
  · simp [txFee, unspent]
  · simp [txFee, unspent]
  · rfl
  · rw [spends]
    rfl
  · rw [unspent]
    nofun
  · rw [spends]
    trivial

theorem connectInputs_checked {state : ConnectState} (spend : tx.isZerocoinSpend = false)
    (coinbase : tx.isCoinBase = false)
    (checked : connectInputs machinery node call state tx totals = .ok totals') :
    TxChecked machinery node tx totals state totals' state := by
  have spends : txSpends machinery tx = [] := by simp [txSpends, spend]
  have spending : spendsInputs tx = true := by simp [spendsInputs, coinbase, spend]
  unfold connectInputs at checked
  simp only [bind_ok, require_ok, exists_const] at checked
  obtain ⟨available, _, _, nTxFee, charged, passed, inputs, built⟩ := checked
  cases built
  have fee : nTxFee = txFee state.view.coins tx := by
    unfold getTxFee at charged
    cases staked : tx.isCoinStake with
    | true =>
      rw [staked] at charged
      cases charged
      simp [txFee, staked]
    | false =>
      simp only [staked, Bool.false_eq_true, if_false, bind_ok, Except.ok.injEq] at charged
      obtain ⟨nValueOut, paid, rfl⟩ := charged
      simp [txFee, spending, staked, txValueOut, getValueOut_ok paid]
  constructor
  · rfl
  · simp [txValueIn, spend, coinbase]
  · simp [fee]
  · unfold txFee
    split
    · rename_i charges
      simp only [Bool.and_eq_true, Bool.not_eq_true'] at charges
      have covered := checkInputs_ok inputs charges.2
      omega
    · omega
  · rfl
  · rw [spends]
    rfl
  · intro _
    exact available
  · rw [spends]
    trivial

theorem connectKind_checked
    (completed : Completes (connectKind machinery node call tx totals) state totals' state') :
    TxChecked machinery node tx totals state totals' state' := by
  unfold connectKind at completed
  split at completed
  · rename_i spend
    exact connectSpends_checked spend completed
  · rename_i spend
    split at completed
    · rename_i coinbase
      obtain ⟨rfl, rfl⟩ := completed
      exact coinBase_checked _ _ (by simpa using spend) coinbase
    · rename_i coinbase
      simp only [completes_bind, completes_reading, completes_check] at completed
      obtain ⟨_, _, ⟨rfl, rfl⟩, inputs, rfl⟩ := completed
      exact connectInputs_checked (by simpa using spend) (by simpa using coinbase) inputs

theorem connectTx_connected
    (completed : Completes (connectTx machinery node call tx totals) state totals' state') :
    TxConnected machinery node call tx totals state totals' state' := by
  unfold connectTx at completed
  simp only [completes_bind, completes_check, completes_pure] at completed
  obtain ⟨_, _, ⟨_, rfl⟩, checkedTotals, recorded, kind, nValueOut, _, ⟨paid, rfl⟩, undo, applied,
    coins, rfl, rfl⟩ := completed
  have checked := connectKind_checked kind
  have sums := getValueOut_ok paid
  have frame := checked.frame
  have sameView : recorded.view = state.view := by rw [frame]
  have sameIndex : recorded.pindex = state.pindex := by rw [frame]
  unfold connectCoins at coins
  simp only [completes_bind, completes_reading] at coins
  obtain ⟨_, _, ⟨rfl, rfl⟩, coins⟩ := coins
  split at coins
  · rw [completes_failing] at coins
    exact coins.elim
  · rename_i view made updated
    simp only [completes_bind, completes_update, completes_pure] at coins
    obtain ⟨_, _, rfl, rfl, rfl⟩ := coins
    simp only [id_eq, sameView, sameIndex] at updated
    constructor
    · rw [sums]
      rfl
    · simp [checked.valueOut, txValueOut, sums, countSigOps]
    · exact checked.valueIn
    · exact checked.fees
    · exact checked.feesPaid
    · exact ⟨made, updated, by simp [checked.undo, countSigOps]⟩
    · rw [frame]
    · exact checked.available
    · exact checked.fresh

/-- Whether the outpoints an ordinary transaction spends pass the check of the marks. -/
def ValidOutPoints (params : ChainParams) (invalid : InvalidMaps) (nHeight : Int)
    (tx : CTransaction) : Prop :=
  spendsInputs tx = true →
    ∀ txin ∈ tx.vin, validOutPoint params invalid txin.prevout nHeight = true

theorem connectTx_valid
    (completed : Completes (connectTx machinery node call tx totals) state totals' state') :
    ValidOutPoints node.params state.invalid state.pindex.nHeight tx := by
  intro spending
  simp only [spendsInputs, Bool.and_eq_true, Bool.not_eq_eq_eq_not, Bool.not_true] at spending
  unfold connectTx at completed
  simp only [completes_bind, completes_check] at completed
  obtain ⟨_, _, ⟨_, rfl⟩, _, _, kind, _⟩ := completed
  unfold connectKind at kind
  rw [spending.1, spending.2, if_neg Bool.false_ne_true, if_neg Bool.false_ne_true] at kind
  simp only [completes_bind, completes_reading, completes_check] at kind
  obtain ⟨_, _, ⟨rfl, rfl⟩, checked, _⟩ := kind
  unfold connectInputs at checked
  simp only [bind_ok, require_ok, exists_const] at checked
  exact List.all_eq_true.mp checked.2.1

theorem connectTxs_valid
    (completed : Completes (forEach (connectTx machinery node call) txs totals) state totals'
      state') : ∀ tx ∈ txs, ValidOutPoints node.params state.invalid state.pindex.nHeight tx := by
  induction txs generalizing totals state with
  | nil => nofun
  | cons tx rest ih =>
    rw [completes_forEach_cons] at completed
    obtain ⟨next, middle, first, later⟩ := completed
    have frame := (connectTx_connected first).frame
    have tail := ih later
    rw [frame] at tail
    intro other member
    rcases List.mem_cons.mp member with here | there
    · rw [here]
      exact connectTx_valid first
    · exact tail other there

def sumAlong (txHash : CTransaction → Uint256) (nHeight : Int32)
    (amount : (Uint256 → CCoins) → CTransaction → Int) : List CTransaction → UtxoView → Int
  | [], _ => 0
  | tx :: rest, view =>
    amount view.coins tx +
      match updateCoins txHash nHeight tx view with
      | none => 0
      | some (view', _) => sumAlong txHash nHeight amount rest view'

def recordBlock (machinery : Machinery) : List CTransaction → CZerocoinDB → CZerocoinDB
  | [], db => db
  | tx :: rest, db =>
    recordBlock machinery rest (recordSpends (machinery.txHash tx) (txSpends machinery tx) db)

def FreshBlock (machinery : Machinery) (node : Node) (txIndex : TxIndex) (nHeight : Int) :
    List CTransaction → CZerocoinDB → Prop
  | [], _ => True
  | tx :: rest, db =>
    FreshSpends machinery node txIndex nHeight (machinery.txHash tx) (txSpends machinery tx) db ∧
      FreshBlock machinery node txIndex nHeight rest
        (recordSpends (machinery.txHash tx) (txSpends machinery tx) db)

def AvailableAlong (txHash : CTransaction → Uint256) (nHeight : Int32) :
    List CTransaction → UtxoView → Prop
  | [], _ => True
  | tx :: rest, view =>
    (spendsInputs tx = true → haveInputs view.coins tx = true) ∧
      ∀ view' undo, updateCoins txHash nHeight tx view = some (view', undo) →
        AvailableAlong txHash nHeight rest view'

structure TxsConnected (machinery : Machinery) (node : Node) (txs : List CTransaction)
    (totals : BlockTotals) (state : ConnectState) (totals' : BlockTotals)
    (state' : ConnectState) : Prop where
  summed : ∀ tx ∈ txs, tx.getValueOut.isSome = true
  valueOut : totals'.nValueOut = totals.nValueOut + (txs.map txValueOut).sum
  valueIn : totals'.nValueIn = totals.nValueIn + sumAlong machinery.txHash
    (Int32.ofInt state.pindex.nHeight) (txValueIn machinery) txs state.view
  fees : totals'.nFees = totals.nFees + sumAlong machinery.txHash
    (Int32.ofInt state.pindex.nHeight) txFee txs state.view
  feesPaid : 0 ≤ sumAlong machinery.txHash (Int32.ofInt state.pindex.nHeight) txFee txs state.view
  applied : ∃ undos, applyTxs machinery.txHash (Int32.ofInt state.pindex.nHeight) txs state.view =
    some (state'.view, undos) ∧ totals'.vtxundo = totals.vtxundo ++ undos
  frame : state' = { state with
    view := state'.view, zerocoinDB := recordBlock machinery txs state.zerocoinDB }
  available : AvailableAlong machinery.txHash (Int32.ofInt state.pindex.nHeight) txs state.view
  fresh : FreshBlock machinery node state.txIndex state.pindex.nHeight txs state.zerocoinDB

theorem connectTxs_connected
    (completed : Completes (forEach (connectTx machinery node call) txs totals) state totals'
      state') : TxsConnected machinery node txs totals state totals' state' := by
  induction txs generalizing totals state with
  | nil =>
    obtain ⟨rfl, rfl⟩ := completed
    constructor
    · simp
    · simp
    · simp [sumAlong]
    · simp [sumAlong]
    · simp [sumAlong]
    · exact ⟨[], rfl, by simp⟩
    · rfl
    · trivial
    · trivial
  | cons tx rest ih =>
    rw [completes_forEach_cons] at completed
    obtain ⟨next, middle, first, later⟩ := completed
    have head := connectTx_connected first
    have tail := ih later
    obtain ⟨undo, updated, kept⟩ := head.coins
    obtain ⟨undos, applied, gathered⟩ := tail.applied
    have frame := head.frame
    have sameIndex : middle.pindex = state.pindex := by rw [frame]
    have sameTxIndex : middle.txIndex = state.txIndex := by rw [frame]
    have records : middle.zerocoinDB =
        recordSpends (machinery.txHash tx) (txSpends machinery tx) state.zerocoinDB := by rw [frame]
    have valueIn := tail.valueIn
    have fees := tail.fees
    have feesPaid := tail.feesPaid
    have available := tail.available
    have fresh := tail.fresh
    rw [sameIndex] at valueIn fees feesPaid applied available fresh
    rw [sameTxIndex, records] at fresh
    constructor
    · intro other member
      rcases List.mem_cons.mp member with here | there
      · rw [here]
        exact head.summed
      · exact tail.summed other there
    · rw [tail.valueOut, head.valueOut, List.map_cons, List.sum_cons]
      omega
    · rw [valueIn, head.valueIn]
      simp only [sumAlong, updated]
      omega
    · rw [fees, head.fees]
      simp only [sumAlong, updated]
      omega
    · have paid := head.feesPaid
      simp only [sumAlong, updated]
      omega
    · refine ⟨undo :: undos, ?_, ?_⟩
      · simp [applyTxs, updated, applied]
      · rw [gathered, kept]
        simp
    · rw [tail.frame, records, frame]
      rfl
    · refine ⟨head.available, ?_⟩
      intro view' undo' again
      rw [updated] at again
      cases again
      exact available
    · exact ⟨head.fresh, fresh⟩

end Loop

section Supply

def suppliedIndex (parent : CBlockIndex) (mints spends : List CoinDenomination)
    (pindex : CBlockIndex) : CBlockIndex :=
  { pindex with
    vMintDenominationsInBlock := mints
    mapZerocoinSupply := fun denom =>
      (inheritSupply parent pindex).mapZerocoinSupply denom + mints.count denom -
        spends.count denom }

theorem inheritSupply_frame (parent pindex : CBlockIndex) :
    ∃ supply, inheritSupply parent pindex = { pindex with mapZerocoinSupply := supply } := by
  unfold inheritSupply
  split
  · exact ⟨_, rfl⟩
  · exact ⟨_, rfl⟩

theorem addMints_eq (mints : List CoinDenomination) (pindex : CBlockIndex) :
    addMints mints pindex =
      { pindex with
        vMintDenominationsInBlock := pindex.vMintDenominationsInBlock ++ mints
        mapZerocoinSupply := fun denom =>
          pindex.mapZerocoinSupply denom + mints.count denom } := by
  induction mints generalizing pindex with
  | nil => simp [addMints]
  | cons mint rest ih =>
    have unfolded : addMints (mint :: rest) pindex =
        addMints rest (addToSupply mint 1 { pindex with
          vMintDenominationsInBlock := pindex.vMintDenominationsInBlock ++ [mint] }) := rfl
    rw [unfolded, ih]
    simp only [addToSupply, CBlockIndex.mk.injEq, true_and, List.append_assoc,
      List.singleton_append, and_true]
    funext denom
    by_cases same : mint = denom
    · subst same
      rw [Function.update_self, List.count_cons_self]
      omega
    · rw [Function.update_of_ne (Ne.symm same), List.count_cons_of_ne same]

theorem removeSpend_loop (spends : List CoinDenomination) {state final : ConnectState}
    (completed : Completes (forEach removeSpend spends ()) state () final) :
    final = editIndex (fun pindex =>
        { pindex with
          mapZerocoinSupply := fun denom =>
            pindex.mapZerocoinSupply denom - spends.count denom }) state := by
  induction spends generalizing state with
  | nil =>
    rw [completes_forEach_nil] at completed
    obtain ⟨_, rfl⟩ := completed
    simp [editIndex]
  | cons spend rest ih =>
    rw [completes_forEach_cons] at completed
    obtain ⟨_, middle, first, later⟩ := completed
    unfold removeSpend at first
    simp only [completes_bind, completes_check, completes_update, completes_reading] at first
    obtain ⟨_, _, ⟨_, rfl⟩, _, _, rfl, _, _, ⟨rfl, rfl⟩, _, rfl⟩ := first
    rw [ih later]
    simp only [editIndex, addToSupply, ConnectState.mk.injEq, CBlockIndex.mk.injEq, true_and,
      and_true]
    funext denom
    by_cases same : spend = denom
    · subst same
      rw [Function.update_self, List.count_cons_self]
      omega
    · rw [Function.update_of_ne (Ne.symm same), List.count_cons_of_ne same]

end Supply

section Calls

variable {machinery : Machinery} {node : Node} {call : ConnectCall}

def fFilterInvalid (node : Node) (state : ConnectState) : Bool :=
  decide (node.params.nBlockRecalculateAccumulators ≤ state.pindex.nHeight)

def mintsOf (machinery : Machinery) (node : Node) (call : ConnectCall) (state : ConnectState) :
    List CoinDenomination :=
  blockToZerocoinMintList machinery node (fFilterInvalid node state) state.invalid call.block.vtx

def spendListOf (machinery : Machinery) (node : Node) (call : ConnectCall)
    (state : ConnectState) : Except Failure (List CoinDenomination) :=
  zerocoinSpendListFromBlock machinery (fFilterInvalid node state) state.invalid call.block.vtx

variable {state final : ConnectState} {older : List CBlockIndex} {parent : CBlockIndex}
variable {totals : BlockTotals}

theorem trackZerocoinSupply_spec (family : call.ancestry = parent :: older)
    (completed : Completes (trackZerocoinSupply machinery node call) state () final) :
    ∃ spends, spendListOf machinery node call state = .ok spends ∧
      final = editIndex (suppliedIndex parent (mintsOf machinery node call state) spends)
        state := by
  unfold trackZerocoinSupply at completed
  rw [family] at completed
  simp only [completes_bind, completes_reading, completes_check, completes_update] at completed
  obtain ⟨_, _, ⟨rfl, rfl⟩, spends, _, ⟨listed, rfl⟩, _, _, rfl, loop⟩ := completed
  refine ⟨spends, listed, ?_⟩
  obtain ⟨supply, inherited⟩ := inheritSupply_frame parent state.pindex
  rw [removeSpend_loop spends loop]
  simp [editIndex, suppliedIndex, mintsOf, fFilterInvalid, addMints_eq, inherited]

def moneyIndex (parent : CBlockIndex) (totals : BlockTotals) (pindex : CBlockIndex) :
    CBlockIndex :=
  { pindex with
    nMoneySupply := parent.nMoneySupply + totals.nValueOut - totals.nValueIn
    nMint := totals.nValueOut - totals.nValueIn + totals.nFees }

theorem recordMoneySupply_spec (family : call.ancestry = parent :: older)
    (completed : Completes (recordMoneySupply call totals) state () final) :
    final = { state with
      pindex := moneyIndex parent totals state.pindex
      blockTree := Function.update state.blockTree state.pindex.hash
        (moneyIndex parent totals state.pindex) } := by
  unfold recordMoneySupply at completed
  simp only [completes_bind, completes_check, completes_update, family, List.head?_cons,
    Option.map_some, Option.getD_some] at completed
  obtain ⟨_, _, rfl, _, _, ⟨_, rfl⟩, rfl⟩ := completed
  have minted : parent.nMoneySupply + totals.nValueOut - totals.nValueIn - parent.nMoneySupply +
      totals.nFees = totals.nValueOut - totals.nValueIn + totals.nFees := by omega
  simp [editIndex, moneyIndex, minted]

def SameButAccumulators (before after : ConnectState) : Prop :=
  ∃ values invalid, after = { before with
    zerocoinDB := { before.zerocoinDB with accumulatorValues := values }
    invalid := invalid }

theorem sameButAccumulators_refl (state : ConnectState) : SameButAccumulators state state :=
  ⟨_, _, rfl⟩

theorem sameButAccumulators_trans (a b c : ConnectState) (left : SameButAccumulators a b)
    (right : SameButAccumulators b c) : SameButAccumulators a c := by
  obtain ⟨_, _, rfl⟩ := left
  obtain ⟨values, invalid, rfl⟩ := right
  exact ⟨values, invalid, rfl⟩

theorem calculateCheckpoint_keeps :
    Keeps SameButAccumulators (calculateCheckpoint call) := by
  refine keeps_bind sameButAccumulators_trans (keeps_reading sameButAccumulators_refl _) ?_
  intro state
  refine keeps_bind sameButAccumulators_trans (keeps_update ?_) ?_
  · intro before
    exact ⟨_, _, rfl⟩
  · intro _
    exact keeps_pure sameButAccumulators_refl _

theorem recalculateCheckpoint_keeps :
    Keeps SameButAccumulators (recalculateCheckpoint node call) := by
  refine keeps_bind sameButAccumulators_trans (keeps_reading sameButAccumulators_refl _) ?_
  intro state
  refine keeps_bind sameButAccumulators_trans (keeps_check sameButAccumulators_refl _) ?_
  intro _
  refine keeps_bind sameButAccumulators_trans (keeps_update ?_) ?_
  · intro before
    exact ⟨_, _, rfl⟩
  intro _
  refine keeps_bind sameButAccumulators_trans (keeps_check sameButAccumulators_refl _) ?_
  intro _
  refine keeps_bind sameButAccumulators_trans calculateCheckpoint_keeps ?_
  intro again
  cases again with
  | none => exact keeps_failing sameButAccumulators_refl _
  | some nCheckpoint => exact keeps_pure sameButAccumulators_refl _

theorem checkAccumulator_keeps (parent : CBlockIndex) :
    Keeps SameButAccumulators (checkAccumulator node call parent) := by
  refine keeps_bind sameButAccumulators_trans (keeps_reading sameButAccumulators_refl _) ?_
  intro state
  dsimp only
  split
  · refine keeps_bind sameButAccumulators_trans (keeps_update ?_) ?_
    · intro before
      unfold populateInvalid
      split
      · exact ⟨_, _, rfl⟩
      · exact sameButAccumulators_refl before
    intro _
    refine keeps_bind sameButAccumulators_trans calculateCheckpoint_keeps ?_
    intro calculated
    refine keeps_bind sameButAccumulators_trans ?_ ?_
    · cases calculated with
      | none => exact recalculateCheckpoint_keeps
      | some nCheckpoint => exact keeps_pure sameButAccumulators_refl _
    · intro _
      exact keeps_check sameButAccumulators_refl _
  · exact keeps_check sameButAccumulators_refl _

theorem checkAfter_spec (family : call.ancestry = parent :: older)
    (completed : Completes (checkAfter node call totals) state () final) :
    checkReward node call parent totals state.pindex = .ok () ∧
      SameButAccumulators state final := by
  unfold checkAfter at completed
  rw [family] at completed
  simp only [completes_bind, completes_reading, completes_check] at completed
  obtain ⟨_, _, ⟨rfl, rfl⟩, _, _, ⟨rewarded, rfl⟩, _, middle, accumulated, _, rfl⟩ := completed
  exact ⟨rewarded, keeps_completed (checkAccumulator_keeps parent) accumulated⟩

def SameButStatus (before after : CBlockIndex) : Prop :=
  after = { before with nStatus := after.nStatus }

theorem raiseValidity_status (pindex : CBlockIndex) (nUpTo : Nat) :
    SameButStatus pindex (pindex.raiseValidity nUpTo) ∧
      (pindex.raiseValidity nUpTo).nStatus.haveUndo = pindex.nStatus.haveUndo := by
  unfold SameButStatus CBlockIndex.raiseValidity
  split
  · exact ⟨rfl, rfl⟩
  · split
    · exact ⟨rfl, rfl⟩
    · exact ⟨rfl, rfl⟩

/-- After undo data have been seen to, the entry has some: its own from an earlier
    connect, or this block's. -/
structure UndoWritten (blockundo : CBlockUndo) (state final : ConnectState) : Prop where
  status : SameButStatus state.pindex final.pindex
  haveUndo : final.pindex.nStatus.haveUndo = true
  undo : final.undo = if state.pindex.nStatus.haveUndo then state.undo else some blockundo
  frame : final = { state with
    pindex := final.pindex, undo := final.undo, fDirty := final.fDirty }

theorem writeUndo_spec {blockundo : CBlockUndo}
    (completed : Completes (writeUndo call blockundo) state () final) :
    UndoWritten blockundo state final := by
  unfold writeUndo at completed
  simp only [completes_bind, completes_reading] at completed
  obtain ⟨_, _, ⟨rfl, rfl⟩, completed⟩ := completed
  split at completed
  · rename_i done
    obtain ⟨_, rfl⟩ := completed
    simp only [id_eq, Bool.and_eq_true] at done
    constructor
    · rfl
    · exact done.1
    · rw [if_pos done.1]
    · rfl
  · simp only [completes_bind, completes_update, id_eq] at completed
    obtain ⟨_, middle, stored, rfl⟩ := completed
    unfold writeUndoData at stored
    have raised := raiseValidity_status middle.pindex BLOCK_VALID_SCRIPTS
    split at stored
    · rename_i have'
      obtain ⟨_, rfl⟩ := stored
      constructor
      · exact raised.1
      · exact raised.2.trans have'
      · rw [if_pos have']
        rfl
      · rfl
    · rename_i missing
      simp only [completes_bind, completes_check, completes_update] at stored
      obtain ⟨_, _, ⟨_, rfl⟩, _, _, ⟨_, rfl⟩, rfl⟩ := stored
      constructor
      · unfold SameButStatus at raised ⊢
        simp only [raiseScripts]
        rw [raised.1]
        rfl
      · exact raised.2
      · rw [if_neg missing]
        rfl
      · rfl

def indexedTransactions (machinery : Machinery) (node : Node) (call : ConnectCall)
    (hashBlock : Uint256) (txIndex : TxIndex) : TxIndex :=
  if node.fTxIndex then indexTransactions machinery call hashBlock txIndex else txIndex

structure Recorded (machinery : Machinery) (node : Node) (call : ConnectCall)
    (totals : BlockTotals) (state final : ConnectState) : Prop where
  status : SameButStatus state.pindex final.pindex
  haveUndo : final.pindex.nStatus.haveUndo = true
  undo : final.undo = if state.pindex.nStatus.haveUndo then state.undo
    else some ⟨totals.vtxundo.drop 1⟩
  view : final.view = state.view.setBestBlock state.pindex.hash
  txIndex : final.txIndex =
    indexedTransactions machinery node call state.pindex.hash state.txIndex
  zerocoinDB : final.zerocoinDB = state.zerocoinDB
  blockTree : final.blockTree = state.blockTree

theorem recordConnected_spec
    (completed : Completes (recordConnected machinery node call totals) state () final) :
    Recorded machinery node call totals state final := by
  unfold recordConnected at completed
  simp only [completes_bind, completes_update] at completed
  obtain ⟨_, undone, undo, _, indexed, index, _, _, rfl, follow⟩ := completed
  have written := writeUndo_spec undo
  have frame := written.frame
  have hash : undone.pindex.hash = state.pindex.hash := by
    rw [show undone.pindex = _ from written.status]
  have listed : indexed = { undone with
      txIndex := indexedTransactions machinery node call state.pindex.hash state.txIndex } := by
    have kept : undone.txIndex = state.txIndex := by rw [frame]
    unfold indexedTransactions
    unfold writeTxIndex at index
    split at index
    · rename_i wanted
      simp only [completes_bind, completes_check, completes_update] at index
      obtain ⟨_, _, ⟨_, rfl⟩, rfl⟩ := index
      rw [if_pos wanted, hash, kept]
    · rename_i unwanted
      obtain ⟨_, rfl⟩ := index
      rw [if_neg unwanted, ← kept]
  have followed : ∃ invalid, final = { setBest indexed with invalid := invalid } := by
    unfold followInvalidSpends at follow
    simp only [completes_bind, completes_reading] at follow
    obtain ⟨_, _, ⟨rfl, rfl⟩, follow⟩ := follow
    split at follow
    · simp only [completes_bind, completes_check, completes_update] at follow
      obtain ⟨invalid, _, ⟨_, rfl⟩, rfl⟩ := follow
      exact ⟨invalid, rfl⟩
    · rw [completes_pure] at follow
      obtain ⟨_, rfl⟩ := follow
      exact ⟨_, rfl⟩
  obtain ⟨invalid, rfl⟩ := followed
  subst listed
  constructor
  · exact written.status
  · exact written.haveUndo
  · exact written.undo
  · simp only [setBest]
    rw [hash, frame]
  · rfl
  · simp only [setBest]
    rw [frame]
  · simp only [setBest]
    rw [frame]

def connectedIndex (parent : CBlockIndex) (totals : BlockTotals)
    (mints spends : List CoinDenomination) (pindex : CBlockIndex) : CBlockIndex :=
  moneyIndex parent totals (suppliedIndex parent mints spends pindex)

structure ChecksPassed (machinery : Machinery) (node : Node) (call : ConnectCall)
    (parent : CBlockIndex) (state middle : ConnectState) (totals : BlockTotals)
    (spends : List CoinDenomination) : Prop where
  before : checkBefore machinery node call state = .ok ()
  txs : TxsConnected machinery node call.block.vtx BlockTotals.init state totals { state with
    view := middle.view, zerocoinDB := recordBlock machinery call.block.vtx state.zerocoinDB }
  listed : spendListOf machinery node call state = .ok spends
  rewarded : checkReward node call parent totals (connectedIndex parent totals
    (mintsOf machinery node call state) spends state.pindex) = .ok ()
  entry : middle.pindex = connectedIndex parent totals (mintsOf machinery node call state) spends
    state.pindex
  coinSpends : middle.zerocoinDB.coinSpends =
    (recordBlock machinery call.block.vtx state.zerocoinDB).coinSpends
  coinMints : middle.zerocoinDB.coinMints =
    (recordBlock machinery call.block.vtx state.zerocoinDB).coinMints
  undo : middle.undo = state.undo
  txIndex : middle.txIndex = state.txIndex

theorem connectChecks_passed {state middle : ConnectState}
    (family : call.ancestry = parent :: older)
    (completed : Completes (connectChecks machinery node call) state totals middle) :
    ∃ spends, ChecksPassed machinery node call parent state middle totals spends := by
  unfold connectChecks at completed
  simp only [completes_bind, completes_reading, completes_check, completes_pure] at completed
  obtain ⟨_, _, ⟨rfl, rfl⟩, _, _, ⟨before, rfl⟩, reached, looped, loop, _, tracked,
    track, _, paid, money, _, _, last, rfl, rfl⟩ := completed
  have txs := connectTxs_connected loop
  have frame := txs.frame
  obtain ⟨spends, listed, rfl⟩ := trackZerocoinSupply_spec family track
  have recorded := recordMoneySupply_spec family money
  obtain ⟨rewarded, values, invalid, accumulated⟩ := checkAfter_spec family last
  rw [frame] at listed recorded txs
  subst recorded
  subst accumulated
  refine ⟨spends, ?_⟩
  constructor
  · exact before
  · exact txs
  · exact listed
  · exact rewarded
  · rfl
  · rfl
  · rfl
  · rfl
  · rfl

structure BlockConnected (machinery : Machinery) (node : Node) (call : ConnectCall)
    (parent : CBlockIndex) (state final : ConnectState) (totals : BlockTotals)
    (spends : List CoinDenomination) (view : UtxoView) : Prop where
  checked : checkAgain machinery node call state = .ok ()
  best : hashPrevBlock call = state.view.getBestBlock
  before : checkBefore machinery node call state = .ok ()
  txs : TxsConnected machinery node call.block.vtx BlockTotals.init state totals { state with
    view := view, zerocoinDB := recordBlock machinery call.block.vtx state.zerocoinDB }
  listed : spendListOf machinery node call state = .ok spends
  rewarded : checkReward node call parent totals (connectedIndex parent totals
    (mintsOf machinery node call state) spends state.pindex) = .ok ()
  entry : SameButStatus (connectedIndex parent totals (mintsOf machinery node call state) spends
    state.pindex) final.pindex
  coinSpends : final.zerocoinDB.coinSpends =
    (recordBlock machinery call.block.vtx state.zerocoinDB).coinSpends
  coinMints : final.zerocoinDB.coinMints =
    (recordBlock machinery call.block.vtx state.zerocoinDB).coinMints
  view : final.view = if call.fJustCheck then view else view.setBestBlock state.pindex.hash
  undo : call.fJustCheck = false → final.pindex.nStatus.haveUndo = true ∧
    final.undo = if state.pindex.nStatus.haveUndo then state.undo
      else some ⟨totals.vtxundo.drop 1⟩
  txIndex : final.txIndex = if call.fJustCheck then state.txIndex
    else indexedTransactions machinery node call state.pindex.hash state.txIndex

theorem connectTransactions_connected (family : call.ancestry = parent :: older)
    (checked : checkAgain machinery node call state = .ok ())
    (best : hashPrevBlock call = state.view.getBestBlock)
    (completed : Completes (connectTransactions machinery node call) state () final) :
    ∃ totals spends view,
      BlockConnected machinery node call parent state final totals spends view := by
  unfold connectTransactions at completed
  simp only [completes_bind] at completed
  obtain ⟨totals, middle, passing, ending⟩ := completed
  obtain ⟨spends, passed⟩ := connectChecks_passed family passing
  have entry := passed.entry
  refine ⟨totals, spends, middle.view, ?_⟩
  cases justCheck : call.fJustCheck with
  | true =>
    rw [justCheck, if_pos rfl, completes_pure] at ending
    obtain ⟨_, rfl⟩ := ending
    constructor
    · exact checked
    · exact best
    · exact passed.before
    · exact passed.txs
    · exact passed.listed
    · exact passed.rewarded
    · rw [← entry]
      rfl
    · exact passed.coinSpends
    · exact passed.coinMints
    · rw [justCheck]
      rfl
    · rw [justCheck]
      nofun
    · rw [justCheck, if_pos rfl]
      exact passed.txIndex
  | false =>
    rw [justCheck] at ending
    have ends := recordConnected_spec ending
    constructor
    · exact checked
    · exact best
    · exact passed.before
    · exact passed.txs
    · exact passed.listed
    · exact passed.rewarded
    · rw [← entry]
      exact ends.status
    · rw [ends.zerocoinDB]
      exact passed.coinSpends
    · rw [ends.zerocoinDB]
      exact passed.coinMints
    · rw [ends.view, justCheck, entry]
      rfl
    · intro _
      refine ⟨ends.haveUndo, ?_⟩
      rw [ends.undo, entry, passed.undo]
      rfl
    · rw [ends.txIndex, justCheck, entry, passed.txIndex]
      rfl

section
variable (child : machinery.blockHash call.block.toCBlockHeader ≠ node.params.hashGenesisBlock)
  (completed : Completes (connectBlock machinery node call) state () final)
include child completed

theorem connectBlock_connected :
    ∃ parent older totals spends view, call.ancestry = parent :: older ∧
      BlockConnected machinery node call parent state final totals spends view := by
  unfold connectBlock at completed
  simp only [completes_bind, completes_reading, completes_check, require_ok] at completed
  obtain ⟨_, _, ⟨rfl, rfl⟩, _, _, ⟨checked, rfl⟩, _, _, ⟨best, rfl⟩, completed⟩ := completed
  rw [if_neg child] at completed
  cases family : call.ancestry with
  | nil =>
    unfold connectTransactions connectChecks at completed
    simp only [completes_bind] at completed
    obtain ⟨_, _, ⟨_, _, _, _, _, _, _, _, _, _, _, _, _, _, _, _, _, last, _⟩, _⟩ := completed
    unfold checkAfter at last
    rw [family, completes_failing] at last
    exact last.elim
  | cons parent older =>
    obtain ⟨totals, spends, view, connected⟩ :=
      connectTransactions_connected family checked (by simpa using best) completed
    exact ⟨parent, older, totals, spends, view, rfl, connected⟩

theorem connectBlock_valid :
    ∀ tx ∈ call.block.vtx, ValidOutPoints node.params state.invalid state.pindex.nHeight tx := by
  unfold connectBlock at completed
  simp only [completes_bind, completes_reading, completes_check] at completed
  obtain ⟨_, _, ⟨rfl, rfl⟩, _, _, ⟨_, rfl⟩, _, _, ⟨_, rfl⟩, completed⟩ := completed
  rw [if_neg child] at completed
  unfold connectTransactions connectChecks connectTxs at completed
  simp only [completes_bind, completes_reading, completes_check] at completed
  obtain ⟨_, _, ⟨_, _, ⟨rfl, rfl⟩, _, _, ⟨_, rfl⟩, _, _, loop, _⟩, _⟩ := completed
  exact connectTxs_valid loop

end

end Calls

end OxidConnectedBlock
