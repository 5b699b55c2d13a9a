import Oxid.ChainRun
import Oxid.CheckedBlock
import Oxid.MinerQueue

/-!
What holds of the templates `CreateNewBlock` returns. Its own loop sees to the pooled
transactions, and the validation at the end to the whole block. A transaction with a marked
input is kept out for good only if the scan meets that input before any unconfirmed one.
-/
namespace OxidBlockTemplate
open OxidPrimitives OxidCoins OxidUtxoView OxidDisconnectBlock OxidZerocoin OxidChainParams
open OxidNode OxidPow OxidCheckBlock OxidConnectBlock OxidConnectedBlock OxidMempool
open OxidBlockValidity
open OxidLedgerView OxidChainRun OxidCheckedBlock OxidMiner OxidMinerQueue
open OxidBlockRoundTrip hiding blockEvents inputEvents
open OrderedMaps OxidMapKeys OutputLedger FrontHeap Attempt

variable {Double : Type}

def tipCoins (node : Node) (txid : Uint256) : CCoins := (node.coinsTip txid).getD CCoins.empty

/-- The pool as the node keeps it: entries stand under their txids, and none of them
    is confirmed. -/
structure TipPool (machinery : Machinery) (node : Node) (pool : CTxMemPool) : Prop where
  named : NamedPool machinery pool
  unconfirmed : ∀ hash entry, pool.mapTx.find? hash = some entry →
    (tipCoins node hash).isPruned = true

section Marks

variable (node : Node) (call : MinerCall Double)

def SpendsMarked (tx : CTransaction) : Prop :=
  ∃ txin ∈ inputsSpent tx, call.globals.invalid.outPoints txin.prevout = true

def Connected (tx : CTransaction) : Prop :=
  ∀ txin ∈ inputsSpent tx, haveCoins (tipCoins node) txin.prevout.hash = true ∨
    ∃ parent, call.mempool.mapTx.find? txin.prevout.hash = some parent

def screened (tx : CTransaction) : Bool :=
  (tx.vin.takeWhile fun txin => haveCoins (tipCoins node) txin.prevout.hash).any
    fun txin => call.globals.invalid.outPoints txin.prevout

/-- Of the pooled transactions a block could contain, those that spend marked
    outpoints are screened. -/
def Screened (nHeight : Int) : Prop :=
  ∀ hash entry, call.mempool.mapTx.find? hash = some entry →
    passesOver node nHeight entry.tx = false → Connected node call entry.tx →
    SpendsMarked call entry.tx → screened node call entry.tx = true

def Stakes (tx : CTransaction) : Prop :=
  call.fProofOfStake = true ∧ ∃ nBits nTime nSearched,
    getNextWorkRequired node.params node.chainActive.reverse = some nBits ∧
      searchCoinStake node call nBits = (some (tx, nTime), nSearched)

/-- Marks are enforced on blocks of the height, or nothing gets past the miner. -/
def MarksHeld (nHeight : Int) : Prop :=
  node.params.nBlockEnforceInvalidUTXO ≤ nHeight ∨
    (Screened node call nHeight ∧ ∀ tx, Stakes node call tx → ¬ SpendsMarked call tx)

structure Selectable (machinery : Machinery) (nHeight : Int) (tx : CTransaction) : Prop where
  pooled : ∃ entry, call.mempool.mapTx.find? (machinery.txHash tx) = some entry ∧ entry.tx = tx
  looked : passesOver node nHeight tx = false
  unmarked : Screened node call nHeight → Connected node call tx → ¬ SpendsMarked call tx

end Marks

variable {machinery : Machinery} {node : Node} {call : MinerCall Double} {nHeight : Int}

theorem files_selectable (named : NamedPool machinery call.mempool) :
    Files (Selectable node call machinery nHeight) node call nHeight (tipCoins node) := by
  intro hash entry pooled looked scan result fresh scanned filed
  constructor
  · exact ⟨entry, by rw [named hash entry pooled, pooled], rfl⟩
  · exact looked
  · intro screening connected marked
    obtain ⟨missing, kept⟩ := scanInputs_screened scanned
      (screening hash entry pooled looked connected marked)
    rcases filed with passed | registered
    · rw [missing] at passed
      cases passed
    · rw [kept] at registered
      exact registered fresh

/-- The value of the output an outpoint names: an output of the chain, or of the
    transaction of the block that has the txid. -/
def prevoutValue (txHash : CTransaction → Uint256) (base : CoinLedger) (txs : List CTransaction)
    (prevout : COutPoint) : Int :=
  match base prevout.hash prevout.n.toNat with
  | some txout => txout.nValue
  | none =>
    match txs.find? fun tx => txHash tx == prevout.hash with
    | some tx => outValue tx.vout prevout.n
    | none => 0

def spentDenominations (machinery : Machinery) (vin : List CTxIn) : Int :=
  ((vin.filterMap machinery.zerocoin.txInToZerocoinSpend).map fun spend =>
    zerocoinDenominationToAmount spend.denomination).sum

def includedFee (machinery : Machinery) (base : CoinLedger) (txs : List CTransaction)
    (tx : CTransaction) : Int :=
  (if tx.isZerocoinSpend then spentDenominations machinery tx.vin
    else (tx.vin.map fun txin => prevoutValue machinery.txHash base txs txin.prevout).sum) -
    txValueOut tx

def Grounded (txHash : CTransaction → Uint256) (base : CoinLedger) (txs : List CTransaction)
    (tx : CTransaction) : Prop :=
  tx.isZerocoinSpend = false → ∀ txin ∈ tx.vin,
    base txin.prevout.hash txin.prevout.n.toNat ≠ none ∨ txin.prevout.hash ∈ txs.map txHash

variable {template : CBlockTemplate} {outcome : MinerOutcome} {collected : Collection Double}
variable {tx : CTransaction} {txHash : CTransaction → Uint256} {entries : List CTxMemPoolEntry}
variable {vtxStaked : List CTransaction} {pindexPrev : CBlockIndex} {txs : List CTransaction}
variable {nSearched : Int} {block : CBlock}

theorem createdOutputs_vout {n : Nat} {out : CTxOut} (made : createdOutputs tx n = some out) :
    tx.vout[n]? = some out := by
  unfold createdOutputs CCoins.fromTx CCoins.clearUnspendable at made
  rw [CCoins.output_cleanup] at made
  simp only [CCoins.output, CCoins.outputAt, List.getElem?_map] at made
  cases found : tx.vout[n]? with
  | none => simp [found] at made
  | some txout =>
    rw [found, Option.map_some] at made
    split at made
    · simp [Option.filter] at made
    · rw [Option.filter_eq_some_iff] at made
      exact made.1

theorem find?_txid (distinct : (txs.map txHash).Nodup) (member : tx ∈ txs) :
    (txs.find? fun other => txHash other == txHash tx) = some tx := by
  cases found : txs.find? fun other => txHash other == txHash tx with
  | none =>
    have absent := List.find?_eq_none.mp found tx member
    simp at absent
  | some other =>
    have same : txHash other = txHash tx := by simpa using List.find?_some found
    rw [List.inj_on_of_nodup_map distinct (List.mem_of_find?_eq_some found) member same]

section Values

variable {txHash : CTransaction → Uint256} {base : CoinLedger} {txs : List CTransaction}

theorem available_value {coins : Uint256 → CCoins}
    (moved : outputsOf coins = blockLedger txHash txs base)
    (unspent : ∀ tx ∈ txs, base (txHash tx) = Slot.empty) (distinct : (txs.map txHash).Nodup)
    {txin : CTxIn}
    (available : (coins txin.prevout.hash).isAvailable txin.prevout.n = true) :
    (getOutputFor coins txin).nValue = prevoutValue txHash base txs txin.prevout ∧
      (base txin.prevout.hash txin.prevout.n.toNat ≠ none ∨
        txin.prevout.hash ∈ txs.map txHash) := by
  unfold CCoins.isAvailable at available
  split at available
  · cases available
  rename_i out found
  simp only [Bool.and_eq_true] at available
  have value : getOutputFor coins txin = out := by
    unfold getOutputFor
    rw [found, Option.getD_some]
  have present : blockLedger txHash txs base txin.prevout.hash txin.prevout.n.toNat = some out := by
    rw [← moved]
    unfold outputsOf CCoins.output CCoins.outputAt
    rw [found]
    simp only [Option.filter, available.1, if_true]
  rw [value]
  unfold prevoutValue
  rcases blockLedger_source unspent distinct present with ⟨old, _⟩ | ⟨tx, member, named, made⟩
  · rw [old]
    exact ⟨rfl, Or.inl (by simp)⟩
  · have none' : base txin.prevout.hash txin.prevout.n.toNat = none := by
      rw [← named, unspent tx member]
      rfl
    rw [none', ← named, find?_txid distinct member]
    simp only [outValue, createdOutputs_vout made, Option.getD_some]
    exact ⟨trivial, Or.inr (List.mem_map_of_mem member)⟩

theorem includedFee_append {machinery : Machinery} {more : List CTransaction} {tx : CTransaction}
    (grounded : Grounded machinery.txHash base txs tx) :
    includedFee machinery base (txs ++ more) tx = includedFee machinery base txs tx := by
  unfold includedFee
  cases spend : tx.isZerocoinSpend with
  | true => rfl
  | false =>
    simp only [Bool.false_eq_true, if_false]
    congr 2
    apply List.map_congr_left
    intro txin member
    unfold prevoutValue
    cases old : base txin.prevout.hash txin.prevout.n.toNat with
    | some txout => rfl
    | none =>
      rcases grounded spend txin member with present | listed
      · exact absurd old present
      · obtain ⟨source, inside, named⟩ := List.mem_map.mp listed
        cases found : txs.find? fun other => machinery.txHash other == txin.prevout.hash with
        | none =>
          have absent := List.find?_eq_none.mp found source inside
          simp [named] at absent
        | some other => simp only [List.find?_append, found, Option.some_or]

theorem getZerocoinSpent_ok {machinery : Machinery} {vin : List CTxIn} {nValueIn : Int}
    (spent : getZerocoinSpent machinery vin = .ok nValueIn) :
    nValueIn = spentDenominations machinery vin := by
  induction vin generalizing nValueIn with
  | nil =>
    cases spent
    rfl
  | cons txin rest ih =>
    simp only [getZerocoinSpent, bind_ok, Except.ok.injEq] at spent
    obtain ⟨spend, parsed, later, tail, rfl⟩ := spent
    have taken := txInToZerocoinSpend_ok parsed
    rw [ih tail]
    simp [spentDenominations, taken]

end Values

def tipLedger (node : Node) : CoinLedger := outputsOf (tipCoins node)

theorem viewOver_coins (node : Node) (bestBlock : Uint256) :
    (viewOver node.coinsTip bestBlock).coins = tipCoins node := by
  funext txid
  change slotCoins none (node.coinsTip txid) = (node.coinsTip txid).getD CCoins.empty
  unfold slotCoins
  cases node.coinsTip txid with
  | none => rfl
  | some coins => rfl

structure Tallied (machinery : Machinery) (node : Node) (call : MinerCall Double) (nHeight : Int)
    (taken : List Uint256) (state : Collection Double) : Prop where
  pooled : ∀ name ∈ taken, ∃ entry, call.mempool.mapTx.find? name = some entry
  selected : ∀ tx ∈ state.vtx, Selectable node call machinery nHeight tx
  ordered : (state.vtx.map machinery.txHash).Sublist taken
  applied : ∃ undos, applyTxs machinery.txHash (Int32.ofInt nHeight) state.vtx
    (viewOver node.coinsTip call.globals.coinsBestBlock) = some (state.view, undos)
  grounded : ∀ tx ∈ state.vtx, Grounded machinery.txHash (tipLedger node) state.vtx tx
  size : state.nBlockSize = 1000 + (state.vtx.map machinery.txSize).sum
  fits : state.vtx = [] ∨ state.nBlockSize < nBlockMaxSize call
  sigOps : state.nBlockSigOps = 100 + state.vTxSigOps.sum
  bounded : state.vtx = [] ∨ state.nBlockSigOps < MAX_BLOCK_SIGOPS_CURRENT
  counted : (state.vtx.map machinery.legacySigOpCount).sum ≤ state.vTxSigOps.sum
  fees : state.nFees = state.vTxFees.sum
  paid : state.vTxFees = state.vtx.map (includedFee machinery (tipLedger node) state.vtx)

theorem applyTxs_concat {nHeight : Int32} {view applied final : UtxoView} {undos : List CTxUndo}
    {undo : CTxUndo} (run : applyTxs txHash nHeight txs view = some (applied, undos))
    (last : updateCoins txHash nHeight tx applied = some (final, undo)) :
    applyTxs txHash nHeight (txs ++ [tx]) view = some (final, undos ++ [undo]) := by
  induction txs generalizing view undos with
  | nil =>
    cases run
    simp [applyTxs, last]
  | cons first rest ih =>
    simp only [List.cons_append, applyTxs] at run ⊢
    cases updating : updateCoins txHash nHeight first view with
    | none => simp [updating] at run
    | some result =>
      obtain ⟨updated, undo'⟩ := result
      simp only [updating, Option.map_eq_some_iff, Prod.mk.injEq] at run
      obtain ⟨⟨middle, later⟩, tail, rfl, rfl⟩ := run
      simp [ih tail]

section Tally

variable {taken : List Uint256} {state : Collection Double} {tx : CTransaction}
variable {item : TxPriority Double} {nTxSigOps : Nat} {view : UtxoView} {nTxFees : Int}

theorem selectable_unspent (pool : TipPool machinery node call.mempool)
    (selectable : Selectable node call machinery nHeight tx) :
    tipLedger node (machinery.txHash tx) = Slot.empty := by
  obtain ⟨entry, found, _⟩ := selectable.pooled
  funext n
  exact (CCoins.isPruned_iff_output _).mp (pool.unconfirmed _ entry found) n

theorem tallied_moved (tallied : Tallied machinery node call nHeight taken state) :
    outputsOf state.view.coins =
      blockLedger machinery.txHash state.vtx (tipLedger node) := by
  obtain ⟨undos, applied⟩ := tallied.applied
  have moved := (applyTxs_events applied).2.1
  rwa [viewOver_coins] at moved

theorem admitted_fee (pool : TipPool machinery node call.mempool)
    (tallied : Tallied machinery node call nHeight taken state) (distinct : taken.Nodup)
    (looked : passesOver node nHeight tx = false)
    (admits : Admits machinery call nHeight tx state nTxFees nTxSigOps view) :
    nTxFees = includedFee machinery (tipLedger node) state.vtx tx ∧
      Grounded machinery.txHash (tipLedger node) state.vtx tx := by
  have ordinary : tx.isCoinBase = false := by
    unfold passesOver at looked
    simp only [Bool.or_eq_false_iff] at looked
    exact looked.1.1
  have unspent : ∀ other ∈ state.vtx, tipLedger node (machinery.txHash other) = Slot.empty :=
    fun other member => selectable_unspent pool (tallied.selected other member)
  have values : tx.isZerocoinSpend = false → ∀ txin ∈ tx.vin,
      (getOutputFor state.view.coins txin).nValue =
        prevoutValue machinery.txHash (tipLedger node) state.vtx txin.prevout ∧
      (tipLedger node txin.prevout.hash txin.prevout.n.toNat ≠ none ∨
        txin.prevout.hash ∈ state.vtx.map machinery.txHash) := by
    intro spend txin member
    have available := admits.available
    unfold haveInputs at available
    simp only [spendsInputs, ordinary, spend, Bool.not_false, Bool.and_self, Bool.not_true,
      Bool.false_or] at available
    exact available_value (tallied_moved tallied) unspent (tallied.ordered.nodup distinct)
      (List.all_eq_true.mp available txin member)
  refine ⟨?_, fun spend txin member => (values spend txin member).2⟩
  obtain ⟨nValueIn, nValueOut, gained, paid, rfl⟩ := admits.fees
  have out : nValueOut = txValueOut tx := by
    rw [txValueOut, getValueOut_ok paid, Option.getD_some]
  unfold viewValueIn at gained
  rw [ordinary, if_neg Bool.false_ne_true] at gained
  unfold includedFee
  rw [out]
  cases spend : tx.isZerocoinSpend with
  | true =>
    rw [spend, if_pos rfl] at gained
    rw [if_pos rfl, getZerocoinSpent_ok gained]
  | false =>
    rw [spend, if_neg Bool.false_ne_true] at gained
    cases gained
    rw [if_neg Bool.false_ne_true]
    unfold getValueIn
    congr 2
    exact List.map_congr_left fun txin member => (values spend txin member).1

theorem tallied_sorted (tallied : Tallied machinery node call nHeight taken state)
    (pooled : ∃ entry, call.mempool.mapTx.find? (machinery.txHash item.ptx) = some entry)
    (sorted : Bool) (rest : List (TxPriority Double)) :
    Tallied machinery node call nHeight (taken ++ [machinery.txHash item.ptx])
      { state with vecPriority := rest, fSortedByFee := sorted } := by
  constructor
  · intro name member
    rcases List.mem_append.mp member with there | here
    · exact tallied.pooled name there
    · rw [List.mem_singleton] at here
      rw [here]
      exact pooled
  · exact tallied.selected
  · exact tallied.ordered.trans (List.sublist_append_left _ _)
  · exact tallied.applied
  · exact tallied.grounded
  · exact tallied.size
  · exact tallied.fits
  · exact tallied.sigOps
  · exact tallied.bounded
  · exact tallied.counted
  · exact tallied.fees
  · exact tallied.paid

theorem tallied_added (pool : TipPool machinery node call.mempool)
    (tallied : Tallied machinery node call nHeight taken state) (distinct : taken.Nodup)
    (selectable : Selectable node call machinery nHeight tx)
    (admits : Admits machinery call nHeight tx state nTxFees nTxSigOps view) :
    Tallied machinery node call nHeight (taken ++ [machinery.txHash tx])
      (addTx machinery tx nTxFees nTxSigOps view state) := by
  obtain ⟨entry, found, _⟩ := selectable.pooled
  obtain ⟨fee, grounded⟩ := admitted_fee pool tallied distinct selectable.looked admits
  obtain ⟨undo, updated⟩ := admits.updated
  obtain ⟨undos, applied⟩ := tallied.applied
  have widened : ∀ other, Grounded machinery.txHash (tipLedger node) state.vtx other →
      Grounded machinery.txHash (tipLedger node) (state.vtx ++ [tx]) other := by
    intro other before spend txin member
    refine (before spend txin member).imp_right ?_
    intro inside
    simp only [List.map_append, List.mem_append]
    exact Or.inl inside
  constructor
  · intro name member
    rcases List.mem_append.mp member with there | here
    · exact tallied.pooled name there
    · rw [List.mem_singleton] at here
      rw [here]
      exact ⟨entry, found⟩
  · intro other member
    rcases List.mem_append.mp member with there | here
    · exact tallied.selected other there
    · rw [List.mem_singleton] at here
      rw [here]
      exact selectable
  · simp only [addTx, List.map_append, List.map_singleton]
    exact tallied.ordered.append (List.Sublist.refl _)
  · exact ⟨undos ++ [undo], applyTxs_concat applied updated⟩
  · intro other member
    rcases List.mem_append.mp member with there | here
    · exact widened other (tallied.grounded other there)
    · rw [List.mem_singleton] at here
      rw [here]
      exact widened tx grounded
  · simp only [addTx, tallied.size, List.map_append, List.map_singleton, List.sum_append,
      List.sum_singleton]
    omega
  · exact Or.inr admits.fits
  · simp only [addTx, tallied.sigOps, List.sum_append, List.sum_singleton]
    omega
  · exact Or.inr admits.bounded
  · have count := tallied.counted
    have last := admits.sigOps
    simp only [addTx, List.map_append, List.map_singleton, List.sum_append, List.sum_singleton]
    omega
  · simp only [addTx, tallied.fees, List.sum_append, List.sum_singleton]
  · simp only [addTx, List.map_append, List.map_singleton]
    rw [tallied.paid, includedFee_append grounded, ← fee]
    congr 1
    apply List.map_congr_left
    intro other member
    exact (includedFee_append (tallied.grounded other member)).symm

theorem considerTx_tallied (pool : TipPool machinery node call.mempool)
    {rest : List (TxPriority Double)} {next : Collection Double}
    (queued : Queued (Selectable node call machinery nHeight) machinery taken state)
    (tallied : Tallied machinery node call nHeight taken state)
    (selectable : Selectable node call machinery nHeight item.ptx)
    (considered : considerTx machinery node call nHeight item { state with vecPriority := rest } =
      .ok next) :
    Tallied machinery node call nHeight (taken ++ [machinery.txHash item.ptx]) next := by
  obtain ⟨entry, found, _⟩ := selectable.pooled
  rcases considerTx_cases considered with ⟨sorted, rfl⟩ | ⟨sorted, nTxFees, nTxSigOps, view,
    admits, rfl⟩
  · exact tallied_sorted tallied ⟨entry, found⟩ sorted rest
  · rw [releaseDependers_frame]
    have distinct : taken.Nodup := (List.nodup_append.mp queued.distinct).1
    have admitted : Admits machinery call nHeight item.ptx state nTxFees nTxSigOps view :=
      ⟨admits.fits, admits.available, admits.fees, admits.sigOps, admits.bounded, admits.updated⟩
    have added := tallied_added pool tallied distinct selectable admitted
    exact ⟨added.pooled, added.selected, added.ordered, added.applied, added.grounded, added.size,
      added.fits, added.sigOps, added.bounded, added.counted, added.fees, added.paid⟩

theorem startCollection_tallied (scanned : ScanState Double) :
    Tallied machinery node call nHeight [] (startCollection call scanned
      (viewOver node.coinsTip call.globals.coinsBestBlock)) := by
  constructor
  · nofun
  · nofun
  · exact List.Sublist.refl _
  · exact ⟨[], rfl⟩
  · nofun
  · rfl
  · exact Or.inl rfl
  · rfl
  · exact Or.inl rfl
  · exact Nat.le_refl _
  · rfl
  · rfl

end Tally

theorem collectTransactions_tallied (pool : TipPool machinery node call.mempool)
    (ran : collectTransactions machinery node call nHeight = .ok collected) :
    ∃ taken, taken.Nodup ∧ Tallied machinery node call nHeight taken collected ∧
      collected.vecPriority = [] := by
  unfold collectTransactions at ran
  simp only [bind_ok, viewOver_coins] at ran
  obtain ⟨scanned, scan, loop⟩ := ran
  have empty : Scanned (Selectable node call machinery nHeight) machinery []
      (⟨∅, ∅, []⟩ : ScanState Double) := by
    constructor
    · intro name porphan found
      cases found
    · intro _ member
      cases member
    · exact List.nodup_nil
  have held := scanPool_scanned (files_selectable pool.named) pool.named
    (fun item member => (OrderedMap.mem_entries_iff _ _ _).mp member)
    (by simpa using call.mempool.mapTx.keys_nodup) empty scan
  obtain ⟨taken, queued, tallied, drained⟩ := collectLoop_run
    (fun _ _ _ _ _ queued tallied selectable _ considered =>
      considerTx_tallied pool queued tallied selectable considered)
    (startCollection_queued held _) (startCollection_tallied scanned) loop
  have pooled : ∀ name ∈ taken ++ names machinery collected.vecPriority, ∃ entry,
      call.mempool.mapTx.find? name = some entry := by
    intro name member
    rcases List.mem_append.mp member with there | here
    · exact tallied.pooled name there
    · obtain ⟨item, inside, rfl⟩ := List.mem_map.mp here
      obtain ⟨entry, found, _⟩ := (queued.queue item inside).pooled
      exact ⟨entry, found⟩
  refine ⟨taken, (List.nodup_append.mp queued.distinct).1, tallied, ?_⟩
  exact queue_drained pooled queued (by simpa using drained)

structure Returned (machinery : Machinery) (node : Node) (call : MinerCall Double)
    (outcome : MinerOutcome) (template : CBlockTemplate) (pindexPrev : CBlockIndex)
    (older : List CBlockIndex) (vtxStaked : List CTransaction) (collected : Collection Double)
    (validated : ConnectState) : Prop where
  family : node.chainActive.reverse = pindexPrev :: older
  collects : collectTransactions machinery node call (pindexPrev.nHeight + 1) = .ok collected
  staked : vtxStaked = [] ∨ ∃ tx, Stakes node call tx ∧ vtxStaked = [tx]
  made : template = templateOf machinery call template.block collected
  layout : template.block.vtx =
    coinbaseTx call (pindexPrev.nHeight + 1) collected.nFees :: vtxStaked ++ collected.vtx
  fees : outcome.nFees = collected.nFees
  valid : Completes (testBlockValidity machinery call.rules node call.validation template.block
    (pindexPrev :: older) false) (testState machinery node call.globals template.block pindexPrev)
    () validated

theorem finishTemplate_returned {ancestry : List CBlockIndex} {cache : Int × Uint256 × Uint256}
    (finished : finishTemplate machinery node call ancestry pindexPrev nSearched cache collected
      block = .ok outcome) (returned : outcome.pblocktemplate = some template) :
    template = templateOf machinery call block collected ∧ outcome.nFees = collected.nFees ∧
      ∃ validated, Completes (testBlockValidity machinery call.rules node call.validation block
        ancestry false) (testState machinery node call.globals block pindexPrev) () validated := by
  unfold finishTemplate at finished
  split at finished
  · rename_i validated run
    cases finished
    cases returned
    exact ⟨rfl, rfl, validated, run⟩
  · cases finished
    cases returned
  · cases finished

theorem fillTemplate_returned {nStakeTime : UInt32}
    (staked : vtxStaked = [] ∨ ∃ tx, Stakes node call tx ∧ vtxStaked = [tx])
    (filled : fillTemplate machinery node call vtxStaked nStakeTime nSearched = .ok outcome)
    (returned : outcome.pblocktemplate = some template) :
    ∃ pindexPrev older collected validated, Returned machinery node call outcome template pindexPrev
      older vtxStaked collected validated := by
  unfold fillTemplate at filled
  split at filled
  · cases filled
  · rename_i pindexPrev older family
    simp only [bind_ok] at filled
    obtain ⟨collected, collects, nBits, _, cache, _, finished⟩ := filled
    obtain ⟨made, fees, validated, valid⟩ := finishTemplate_returned finished returned
    refine ⟨pindexPrev, older, collected, validated, ?_⟩
    subst made
    constructor
    · exact family
    · exact collects
    · exact staked
    · rfl
    · rfl
    · exact fees
    · exact valid

theorem createNewBlock_returned (created : createNewBlock machinery node call = .ok outcome)
    (returned : outcome.pblocktemplate = some template) :
    ∃ pindexPrev older vtxStaked collected validated, Returned machinery node call outcome template
      pindexPrev older vtxStaked collected validated := by
  unfold createNewBlock at created
  split at created
  · rename_i stakes
    simp only [bind_ok] at created
    obtain ⟨nBits, required, searched⟩ := created
    split at searched
    · cases searched
      cases returned
    · rename_i txCoinStake nTxNewTime nSearched found
      have work : getNextWorkRequired node.params node.chainActive.reverse = some nBits := by
        unfold nextWorkRequired at required
        split at required
        · cases required
        · rename_i asked
          cases required
          exact asked
      have answered : Stakes node call txCoinStake :=
        ⟨stakes, nBits, nTxNewTime, nSearched, work, found⟩
      obtain ⟨pindexPrev, older, collected, validated, facts⟩ :=
        fillTemplate_returned (Or.inr ⟨txCoinStake, answered, rfl⟩) searched returned
      exact ⟨pindexPrev, older, _, collected, validated, facts⟩
  · obtain ⟨pindexPrev, older, collected, validated, facts⟩ :=
      fillTemplate_returned (Or.inl rfl) created returned
    exact ⟨pindexPrev, older, _, collected, validated, facts⟩

structure Validated (machinery : Machinery) (node : Node) (call : MinerCall Double)
    (nHeight : Int) (block : CBlock) : Prop where
  checked : Checked machinery block.vtx
  size : machinery.blockSize block ≤ MAX_BLOCK_SIZE_CURRENT
  sigOps : (block.vtx.map machinery.legacySigOpCount).sum ≤ MAX_BLOCK_SIGOPS_CURRENT
  unspent : ∀ tx ∈ block.vtx, tipLedger node (machinery.txHash tx) = Slot.empty
  single : ∀ tx ∈ block.vtx, (outpointsSpent [tx]).Nodup
  finds : FindsInputs machinery.txHash block.vtx (tipLedger node)
  enforced : node.params.nBlockEnforceInvalidUTXO ≤ nHeight →
    ∀ out ∈ outpointsSpent block.vtx, call.globals.invalid.outPoints out = false

theorem checkBlock_limits {node : Node} {zerocoinDB : CZerocoinDB} {fCheckMerkleRoot : Bool}
    (checked : checkBlock machinery node zerocoinDB block fCheckMerkleRoot = .ok ()) :
    machinery.blockSize block ≤ MAX_BLOCK_SIZE_CURRENT ∧
      (block.vtx.map machinery.legacySigOpCount).sum ≤ MAX_BLOCK_SIGOPS_CURRENT := by
  unfold checkBlock at checked
  simp only [bind_ok, require_ok, exists_const, Bool.and_eq_true, decide_eq_true_eq] at checked
  obtain ⟨_, _, _, _, _, ⟨_, size⟩, _, _, _, _, _, _, _, _, _, _, sigOps⟩ := checked
  refine ⟨size, sigOps.trans ?_⟩
  split
  · exact Nat.le_refl _
  · decide

theorem returned_validated {older : List CBlockIndex} {validated : ConnectState}
    (facts : Returned machinery node call outcome template pindexPrev older vtxStaked collected
      validated)
    (notGenesis : machinery.blockHash template.block.toCBlockHeader ≠ node.params.hashGenesisBlock)
    :
    Validated machinery node call (pindexPrev.nHeight + 1) template.block := by
  have valid := facts.valid
  unfold testBlockValidity at valid
  simp only [completes_bind, completes_reading, completes_check] at valid
  obtain ⟨_, _, ⟨rfl, rfl⟩, _, _, ⟨_, rfl⟩, _, _, ⟨checked, rfl⟩, _, _, ⟨_, rfl⟩, connects⟩ := valid
  obtain ⟨size, sigOps⟩ := checkBlock_limits checked
  obtain ⟨parent, older', totals, spends, view, _, connected⟩ :=
    connectBlock_connected notGenesis connects
  obtain ⟨undos, applied, _⟩ := connected.txs.applied
  have coins : (testState machinery node call.globals template.block pindexPrev).view.coins =
      tipCoins node := viewOver_coins node _
  have finds := (applyTxs_events applied).2.2.2.1
  rw [coins] at finds
  have before := connected.before
  unfold checkBefore at before
  simp only [bind_ok, require_ok, exists_const] at before
  have free := before.2.2
  constructor
  · exact checkBlock_checked checked
  · exact size
  · exact sigOps
  · intro tx member
    funext n
    simp only [enforceBIP30, justCheck, Bool.not_true, Bool.false_or] at free
    have pruned := List.all_eq_true.mp free tx member
    rw [coins] at pruned
    exact (CCoins.isPruned_iff_output _).mp pruned n
  · exact applied_outpoints applied
  · exact finds
  · intro high out member
    unfold outpointsSpent at member
    obtain ⟨txin, input, rfl⟩ := List.mem_map.mp member
    obtain ⟨tx, inside, spent⟩ := List.mem_flatMap.mp input
    unfold inputsSpent at spent
    split at spent
    · rename_i spending
      have passed := connectBlock_valid notGenesis connects tx inside spending txin spent
      unfold validOutPoint at passed
      have height : (testState machinery node call.globals template.block
          pindexPrev).pindex.nHeight = pindexPrev.nHeight + 1 := rfl
      rw [height, decide_eq_true high, Bool.true_and] at passed
      exact Bool.not_eq_eq_eq_not.mp passed
    · cases spent

def Pooled (call : MinerCall Double) (tx : CTransaction) : Prop :=
  ∃ hash entry, call.mempool.mapTx.find? hash = some entry ∧ entry.tx = tx

def CollisionFree (machinery : Machinery) (known : Set CTransaction) : Prop :=
  ∀ tx ∈ known, ∀ other ∈ known, machinery.txHash tx = machinery.txHash other → tx = other

/-- What is asked of a template made of some first transactions and a selection from the pool:
    nothing twice, parents before children, the limits, no outpoint and no serial spent twice, and
    the fees of what is selected. -/
structure TemplateBuilt (machinery : Machinery) (node : Node) (call : MinerCall Double)
    (template : CBlockTemplate) (nFees : Int) (front selected : List CTransaction) : Prop where
  layout : template.block.vtx = front ++ selected
  fromPool : ∀ tx ∈ selected, Pooled call tx
  once : (template.block.vtx.map machinery.txHash).Nodup
  parentsFirst : ∀ before child after, template.block.vtx = before ++ child :: after →
    ∀ txin ∈ inputsSpent child, ∀ parent,
      call.mempool.mapTx.find? txin.prevout.hash = some parent → parent.tx ∈ before
  size : machinery.blockSize template.block ≤ MAX_BLOCK_SIZE_CURRENT
  selectedSize : selected = [] ∨ 1000 + (selected.map machinery.txSize).sum < nBlockMaxSize call
  sigOps : (template.block.vtx.map machinery.legacySigOpCount).sum ≤ MAX_BLOCK_SIGOPS_CURRENT
  selectedSigOps : selected = [] ∨
    100 + (template.vTxSigOps.drop 1).sum < MAX_BLOCK_SIGOPS_CURRENT
  outpoints : (outpointsSpent template.block.vtx).Nodup
  serials : (blockSerials machinery template.block.vtx).Nodup
  fees : nFees = (selected.map (includedFee machinery (tipLedger node) selected)).sum
  feeList : template.vTxFees = (if call.fProofOfStake then -1 else -nFees) ::
    selected.map (includedFee machinery (tipLedger node) selected)

def NoneMarked (call : MinerCall Double) (template : CBlockTemplate) : Prop :=
  ∀ out ∈ outpointsSpent template.block.vtx, call.globals.invalid.outPoints out = false

section Template

variable {outcome : MinerOutcome} {template : CBlockTemplate} {pindexPrev : CBlockIndex}
variable {older : List CBlockIndex} {vtxStaked : List CTransaction}
variable {collected : Collection Double} {validated : ConnectState} {taken : List Uint256}

theorem parents_first (pool : TipPool machinery node call.mempool)
    (valid : Validated machinery node call nHeight template.block)
    (collisionFree : CollisionFree machinery {tx | tx ∈ template.block.vtx ∨ Pooled call tx})
    {before after : List CTransaction} {child : CTransaction}
    (layout : template.block.vtx = before ++ child :: after) {txin : CTxIn}
    (input : txin ∈ inputsSpent child) {parent : CTxMemPoolEntry}
    (pooled : call.mempool.mapTx.find? txin.prevout.hash = some parent) : parent.tx ∈ before := by
  have finds := valid.finds
  rw [layout] at finds
  have present := (findsInputs_append finds).2.1 txin input
  rcases blockLedger_origin present with confirmed | made
  · have pruned := pool.unconfirmed _ parent pooled
    exact absurd ((CCoins.isPruned_iff_output _).mp pruned _) confirmed
  · obtain ⟨source, member, named⟩ := List.mem_map.mp made
    have same : source = parent.tx := by
      refine collisionFree source (Or.inl ?_) parent.tx (Or.inr ⟨_, parent, pooled, rfl⟩) ?_
      · rw [layout]
        exact List.mem_append_left _ member
      · rw [named, pool.named _ parent pooled]
    rw [← same]
    exact member

theorem returned_built (pool : TipPool machinery node call.mempool)
    (facts : Returned machinery node call outcome template pindexPrev older vtxStaked collected
      validated)
    (tallied : Tallied machinery node call (pindexPrev.nHeight + 1) taken collected)
    (valid : Validated machinery node call (pindexPrev.nHeight + 1) template.block)
    (collisionFree : CollisionFree machinery {tx | tx ∈ template.block.vtx ∨ Pooled call tx}) :
    TemplateBuilt machinery node call template outcome.nFees
      (coinbaseTx call (pindexPrev.nHeight + 1) collected.nFees :: vtxStaked) collected.vtx := by
  have within : ∀ tx ∈ template.block.vtx, ∀ other ∈ template.block.vtx,
      machinery.txHash tx = machinery.txHash other → tx = other :=
    fun tx member other there => collisionFree tx (Or.inl member) other (Or.inl there)
  have distinct := txids_distinct _ _
    (checked_unrepeated valid.checked within valid.unspent valid.finds)
  have sigOpList : template.vTxSigOps.drop 1 = collected.vTxSigOps := by
    rw [facts.made]
    rfl
  constructor
  · exact facts.layout
  · intro tx member
    obtain ⟨entry, found, same⟩ := (tallied.selected tx member).pooled
    exact ⟨_, entry, found, same⟩
  · exact distinct
  · intro before child after layout txin input parent pooled
    exact parents_first pool valid collisionFree layout input pooled
  · exact valid.size
  · rw [← tallied.size]
    exact tallied.fits
  · exact valid.sigOps
  · rw [sigOpList, ← tallied.sigOps]
    exact tallied.bounded
  · exact outpoints_distinct _ _ valid.unspent distinct valid.single valid.finds
  · exact valid.checked.serials
  · rw [facts.fees, tallied.fees, tallied.paid]
  · rw [facts.made, facts.fees, ← tallied.paid]
    rfl

theorem tallied_connected
    (tallied : Tallied machinery node call nHeight taken collected) {tx : CTransaction}
    (member : tx ∈ collected.vtx) : Connected node call tx := by
  intro txin input
  unfold inputsSpent at input
  split at input
  · rename_i spending
    simp only [spendsInputs, Bool.and_eq_true, Bool.not_eq_eq_eq_not, Bool.not_true] at spending
    rcases tallied.grounded tx member spending.2 txin input with confirmed | made
    · left
      unfold haveCoins
      cases empty : (tipCoins node txin.prevout.hash).vout with
      | nil => simp [tipLedger, outputsOf, CCoins.output, CCoins.outputAt, empty] at confirmed
      | cons out rest => rfl
    · obtain ⟨source, inside, named⟩ := List.mem_map.mp made
      obtain ⟨entry, found, _⟩ := (tallied.selected source inside).pooled
      exact Or.inr ⟨entry, named ▸ found⟩
  · cases input

theorem returned_unmarked
    (facts : Returned machinery node call outcome template pindexPrev older vtxStaked collected
      validated)
    (tallied : Tallied machinery node call (pindexPrev.nHeight + 1) taken collected)
    (valid : Validated machinery node call (pindexPrev.nHeight + 1) template.block)
    (held : MarksHeld node call (pindexPrev.nHeight + 1)) : NoneMarked call template := by
  rcases held with enforced | ⟨screening, stakes⟩
  · exact valid.enforced enforced
  · intro out member
    unfold outpointsSpent at member
    obtain ⟨txin, input, rfl⟩ := List.mem_map.mp member
    obtain ⟨tx, inside, spent⟩ := List.mem_flatMap.mp input
    by_contra marked
    have spends : SpendsMarked call tx := ⟨txin, spent, by simpa using marked⟩
    rw [facts.layout, List.cons_append, List.mem_cons, List.mem_append] at inside
    rcases inside with first | staked | chosen
    · have coinbase := valid.checked.coinbase
      rw [facts.layout, List.cons_append, List.head?_cons, Option.any_some, ← first] at coinbase
      simp [inputsSpent, spendsInputs, coinbase] at spent
    · rcases facts.staked with none' | ⟨found, answered, only⟩
      · rw [none'] at staked
        cases staked
      · rw [only, List.mem_singleton] at staked
        rw [staked] at spends
        exact stakes found answered spends
    · exact (tallied.selected tx chosen).unmarked screening (tallied_connected tallied chosen) spends

end Template

def sampleEntry (nHeight : Nat) : CBlockIndex :=
  { headerEntry labelMachinery [] with
    hash := BitVec.ofNat 256 (100 + nHeight)
    nHeight := nHeight
    nVersion := 3
    nTime := UInt32.ofNat (1560000000 + 120 * nHeight) }

def paidCoins (nValue : Int) : CCoins := ⟨false, false, [⟨nValue, [0x51], -10⟩], 5, 1⟩

def minerNode : Node :=
  { syncingNode ((List.range 13).map sampleEntry) with
    fMasternodeSynced := true
    nAdjustedTime := 1560003600
    nTime := 1560003600
    coinsTip := fun txid =>
      if txid = 1000 then some (paidCoins (100 * COIN))
      else if txid = 1001 then some (paidCoins (50 * COIN))
      else none }

def markedOut : COutPoint := ⟨1001, 0⟩

def payInput (hash : Uint256) : CTxIn := ⟨⟨hash, 0⟩, [], 0xffffffff⟩

def poolEntry (nLockTime : UInt32) (vin : List CTxIn) (nValue : Int) : CTxMemPoolEntry :=
  ⟨⟨1, vin, [⟨nValue, [0x51], -10⟩], nLockTime⟩, 100⟩

def pooledParent : CTxMemPoolEntry := poolEntry 1 [payInput 1000] (99 * COIN)

def markedChild : CTxMemPoolEntry := poolEntry 2 [payInput 2, payInput 1001] (148 * COIN)

def plainChild : CTxMemPoolEntry := poolEntry 2 [payInput 2] (98 * COIN)

def markedAlone : CTxMemPoolEntry := poolEntry 3 [payInput 1001] (49 * COIN)

def poolOf (entries : List CTxMemPoolEntry) : CTxMemPool :=
  entries.foldl (fun pool entry => pool.addUnchecked (labelMachinery.txHash entry.tx) entry)
    (CTxMemPool.init false)

def integerDoubles : Doubles Int where
  zero := 0
  less a b := decide (a < b)
  equal a b := a == b
  add a b := a + b
  safeAddition a b := a + b
  product a b := a * b
  quotient a n := a / n
  allowFreeThreshold := COIN * 144 / 250

def minerCall (entries : List CTxMemPoolEntry) : MinerCall Int where
  scriptPubKeyIn := [0x51]
  fProofOfStake := false
  fDebug := false
  nBlockMaxSizeArg := 750000
  nBlockPrioritySizeArg := 50000
  nBlockMinSizeArg := 0
  minRelayTxFee := 10000
  mempool := poolOf entries
  mapDeltas _ := none
  doubles := integerDoubles
  heap := selectionHeap (TxPriority Int)
  globals :=
    { coinsBestBlock := 112
      zerocoinDB := CZerocoinDB.empty
      blockTree := fun _ => none
      txIndex := fun _ => none
      invalid := ⟨fun out => out == markedOut, fun _ => false⟩ }
  rules := ⟨false, [], 100⟩
  nLastCoinStakeSearchTime := 0
  pCheckpointCache := (0, 0, 0)
  createCoinStake _ _ := none
  fillBlockPayee tx _ := { tx with vout := [⟨COIN / 10, [0x51], -10⟩] }
  validation := connectCall labelMachinery ⟨⟨0, 0, 0, 0, 0, 0, 0⟩, [], []⟩ []

def templateIn (result : Except Failure MinerOutcome) : Option CBlockTemplate :=
  match result with
  | .ok outcome => outcome.pblocktemplate
  | .error _ => none

def sampleTemplate (entries : List CTxMemPoolEntry) : Option CBlockTemplate :=
  templateIn (createNewBlock labelMachinery minerNode (minerCall entries))

theorem sampleTemplate_created (made : sampleTemplate entries = some template) :
    ∃ outcome, createNewBlock labelMachinery minerNode (minerCall entries) = .ok outcome ∧
      outcome.pblocktemplate = some template := by
  unfold sampleTemplate templateIn at made
  split at made
  · rename_i outcome created
    exact ⟨outcome, created, made⟩
  · cases made

def screenedEntries : List CTxMemPoolEntry := [pooledParent, plainChild, markedAlone]

theorem sample_pool
    (listed : ∀ item ∈ (poolOf entries).mapTx.entries,
      labelMachinery.txHash item.2.tx = item.1 ∧ (tipCoins minerNode item.1).isPruned = true) :
    TipPool labelMachinery minerNode (minerCall entries).mempool := by
  constructor
  · intro hash entry pooled
    exact (listed _ ((OrderedMap.mem_entries_iff _ _ _).mpr pooled)).1
  · intro hash entry pooled
    exact (listed _ ((OrderedMap.mem_entries_iff _ _ _).mpr pooled)).2

theorem screened_pooled (known : Pooled (minerCall screenedEntries) tx) :
    tx ∈ screenedEntries.map CTxMemPoolEntry.tx := by
  obtain ⟨hash, entry, pooled, rfl⟩ := known
  have listed : ∀ item ∈ (poolOf screenedEntries).mapTx.entries,
      item.2.tx ∈ screenedEntries.map CTxMemPoolEntry.tx := by decide
  exact listed _ ((OrderedMap.mem_entries_iff _ _ _).mpr pooled)

theorem screened_held : MarksHeld minerNode (minerCall screenedEntries) 13 := by
  have listed : ∀ item ∈ (poolOf screenedEntries).mapTx.entries,
      (inputsSpent item.2.tx).any (fun txin => txin.prevout == markedOut) = true →
        screened minerNode (minerCall screenedEntries) item.2.tx = true := by decide
  refine Or.inr ⟨?_, ?_⟩
  · rintro hash entry pooled _ _ ⟨txin, input, marked⟩
    refine listed _ ((OrderedMap.mem_entries_iff _ _ _).mpr pooled) ?_
    exact List.any_eq_true.mpr ⟨txin, input, marked⟩
  · rintro tx ⟨stakes, _⟩
    cases stakes

def screenedVtx : List CTransaction :=
  [⟨1, [⟨COutPoint.null, [0x5d, OP_0], 0xffffffff⟩], [⟨COIN / 10, [0x51], -10⟩], 0⟩,
    pooledParent.tx, plainChild.tx]

end OxidBlockTemplate
