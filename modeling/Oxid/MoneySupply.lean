import Oxid.ChainLedger
import Oxid.Issuance

/-!
The money supply recorded at the tip against the coins of its chain.
-/
namespace OxidMoneySupply
open OxidPrimitives OxidCoins OxidUtxoView OxidDisconnectBlock OxidZerocoin OxidChainParams
open OxidNode OxidConnectBlock OxidConnectedBlock
open OxidLedgerView OxidChainRun OxidChainLedger OxidIssuance
open OxidBlockRoundTrip hiding blockEvents inputEvents
open OutputLedger Runs

instance : Fintype Uint256 := Fintype.ofEquiv (Fin (2 ^ 256)) BitVec.equivFin.symm.toEquiv

noncomputable def coinsTotal (coins : Uint256 → CCoins) : Int :=
  total CTxOut.nValue (outputsOf coins)

def droppedByTx (tx : CTransaction) : Int :=
  ((tx.vout.filter fun out => CScript.isUnspendable out.scriptPubKey).map CTxOut.nValue).sum

def droppedByBlock (block : CBlock) : Int := (block.vtx.map droppedByTx).sum

def droppedByChain (path : BlockPath) : Int := (path.map droppedByBlock).sum

def spentByBlock (machinery : Machinery) (block : CBlock) : Int :=
  (block.vtx.map fun tx => spentAmount (txSpends machinery tx)).sum

def spentByChain (machinery : Machinery) (path : BlockPath) : Int :=
  (path.map (spentByBlock machinery)).sum

section Transactions

def kept (out : CTxOut) : Bool := !out.isNull

def cleared (out : CTxOut) : CTxOut :=
  if CScript.isUnspendable out.scriptPubKey then CTxOut.null else out

theorem createdOutputs_eq (tx : CTransaction) :
    createdOutputs tx = Slot.ofList kept (tx.vout.map cleared) := by
  funext n
  unfold createdOutputs CCoins.fromTx CCoins.clearUnspendable
  rw [CCoins.output_cleanup]
  rfl

theorem kept_add_dropped (outs : List CTxOut) (nonnegative : ∀ out ∈ outs, 0 ≤ out.nValue) :
    (((outs.map cleared).filter kept).map CTxOut.nValue).sum +
      ((outs.filter fun out => CScript.isUnspendable out.scriptPubKey).map CTxOut.nValue).sum =
        (outs.map CTxOut.nValue).sum := by
  induction outs with
  | nil => rfl
  | cons out rest ih =>
    have later := ih fun other member => nonnegative other (by simp [member])
    have here := nonnegative out (by simp)
    have present : kept out = true := by
      have positive : out.nValue ≠ -1 := by omega
      simp [kept, CTxOut.isNull, positive]
    cases dropped : CScript.isUnspendable out.scriptPubKey with
    | true =>
      have null : kept CTxOut.null = false := rfl
      simp only [List.map_cons, cleared, dropped, if_true, List.filter_cons, null,
        Bool.false_eq_true, if_false, List.sum_cons]
      omega
    | false =>
      simp only [List.map_cons, cleared, dropped, Bool.false_eq_true, if_false, List.filter_cons,
        present, if_true, List.sum_cons]
      omega

variable {tx : CTransaction} {undos : List CTxInUndo}

theorem createdOutputs_value (summed : tx.getValueOut.isSome = true) :
    slotValue CTxOut.nValue (createdOutputs tx) + droppedByTx tx = txValueOut tx := by
  obtain ⟨nValueOut, sum⟩ := Option.isSome_iff_exists.mp summed
  obtain ⟨value, nonnegative⟩ := CTransaction.sumOutputs_total tx.vout 0 nValueOut sum
  have parts := kept_add_dropped tx.vout nonnegative
  rw [createdOutputs_eq, slotValue_ofList]
  unfold droppedByTx txValueOut
  rw [sum, Option.getD_some]
  omega

theorem finite_outputsOf (coins : Uint256 → CCoins) : FiniteLedger (outputsOf coins) := by
  intro txid
  exact finite_ofList kept (coins txid).vout

theorem getOutputFor_undo {coins : Uint256 → CCoins} {vin : List CTxIn}
    (lengths : undos.length = vin.length) {L : CoinLedger}
    (below : ∀ txid n out, L txid n = some out → outputsOf coins txid n = some out)
    (fits : FitsAll (inputEvents vin undos) L) :
    (vin.map fun txin => (getOutputFor coins txin).nValue).sum +
      ((inputEvents vin undos).map (gain CTxOut.nValue)).sum = 0 := by
  induction vin generalizing undos L with
  | nil => rfl
  | cons txin rest ih =>
    cases undos with
    | nil => simp at lengths
    | cons undo later =>
      simp only [List.length_cons, Nat.add_right_cancel_iff] at lengths
      have present := below _ _ _ fits.1.1
      have found : getOutputFor coins txin = undo.txout := by
        unfold outputsOf CCoins.output CCoins.outputAt at present
        rw [Option.filter_eq_some_iff] at present
        unfold getOutputFor
        rw [present.1]
        rfl
      have tail := ih lengths (fun txid n out left => below txid n out (spendAt_le left)) fits.2
      have split : inputEvents (txin :: rest) (undo :: later) =
          spendEvent txin undo :: inputEvents rest later := rfl
      rw [split]
      simp only [List.map_cons, List.sum_cons, found, spendEvent, gain]
      omega

variable {machinery : Machinery} {nHeight : Int32}

theorem inputs_value {view spent : UtxoView}
    (run : spendInputs (inputsSpent tx) view = some (spent, undos)) :
    txValueIn machinery view.coins tx +
      ((inputEvents (inputsSpent tx) undos).map (gain CTxOut.nValue)).sum =
        spentAmount (txSpends machinery tx) := by
  obtain ⟨lengths, _, fits, _⟩ := spendInputs_events run
  have worth := getOutputFor_undo lengths (fun _ _ _ present => present) fits
  unfold txValueIn
  by_cases zerocoin : tx.isZerocoinSpend = true
  · have nothing : inputsSpent tx = [] := by simp [inputsSpent, spendsInputs, zerocoin]
    rw [if_pos zerocoin, nothing]
    simp [inputEvents]
  · have unspent : spentAmount (txSpends machinery tx) = 0 := by
      simp [txSpends, zerocoin, spentAmount]
    rw [if_neg zerocoin, unspent]
    by_cases coinbase : tx.isCoinBase = true
    · have nothing : inputsSpent tx = [] := coinbase_spendless coinbase
      rw [if_pos coinbase, nothing]
      simp [inputEvents]
    · have inputs : inputsSpent tx = tx.vin := by
        simp [inputsSpent, spendsInputs, zerocoin, coinbase]
      rw [if_neg coinbase]
      rw [inputs] at worth ⊢
      exact worth

theorem updateCoins_value {view updated : UtxoView} {undo : CTxUndo}
    (run : updateCoins machinery.txHash nHeight tx view = some (updated, undo))
    (free : spendLedger (inputsSpent tx) (outputsOf view.coins) (machinery.txHash tx) = Slot.empty)
    (summed : tx.getValueOut.isSome = true) :
    coinsTotal updated.coins + txValueIn machinery view.coins tx + droppedByTx tx =
      coinsTotal view.coins + txValueOut tx + spentAmount (txSpends machinery tx) := by
  obtain ⟨_, lengths, fits, moved⟩ := updateCoins_events run
  have spends : ∃ spent, spendInputs (inputsSpent tx) view = some (spent, undo.vprevout) := by
    unfold updateCoins at run
    simp only [Option.map_eq_some_iff, Prod.mk.injEq] at run
    obtain ⟨⟨spent, undos⟩, spending, _, rfl⟩ := run
    exact ⟨spent, spending⟩
  obtain ⟨spent, spending⟩ := spends
  have worth : txValueIn machinery view.coins tx + _ = _ := inputs_value spending
  have created := createdOutputs_value summed
  have before := total_applyAll CTxOut.nValue (finite_outputsOf view.coins) (fun event member => by
    obtain ⟨pair, _, rfl⟩ := List.mem_map.mp member
    trivial) fits
  rw [applyAll_inputEvents lengths] at before
  have after : coinsTotal updated.coins =
      total CTxOut.nValue (spendLedger (inputsSpent tx) (outputsOf view.coins)) +
        slotValue CTxOut.nValue (createdOutputs tx) := by
    unfold coinsTotal
    rw [moved, txLedger, total_update, free, slotValue_empty]
    omega
  rw [after, before]
  unfold coinsTotal
  omega

theorem applyTxs_value {txs : List CTransaction} {view applied : UtxoView} {undos : List CTxUndo}
    (run : applyTxs machinery.txHash nHeight txs view = some (applied, undos))
    (fresh : CreatesFresh machinery.txHash txs (outputsOf view.coins))
    (summed : ∀ tx ∈ txs, tx.getValueOut.isSome = true) :
    coinsTotal applied.coins +
        sumAlong machinery.txHash nHeight (txValueIn machinery) txs view +
        (txs.map droppedByTx).sum =
      coinsTotal view.coins + (txs.map txValueOut).sum +
        (txs.map fun tx => spentAmount (txSpends machinery tx)).sum := by
  induction txs generalizing view undos with
  | nil =>
    cases run
    rfl
  | cons tx rest ih =>
    obtain ⟨updated, undo, later, updating, tail, rfl⟩ := applyTxs_cons run
    obtain ⟨free, freshLater⟩ := fresh
    have here := updateCoins_value updating free (summed tx (by simp))
    rw [← (updateCoins_events updating).2.2.2] at freshLater
    have there := ih tail freshLater fun other member => summed other (by simp [member])
    simp only [sumAlong, updating, List.map_cons, List.sum_cons] at there ⊢
    omega

end Transactions

section Runs

variable {machinery : Machinery} {params : ChainParams} {offered : Set CBlock}

def SuppliesMatch (machinery : Machinery) (s : ChainState) : Prop :=
  ∀ path, path <:+ s.active → (s.entries path).nMoneySupply =
    total CTxOut.nValue (chainLedger machinery.txHash path) + droppedByChain path -
      spentByChain machinery path

theorem connect_supply (apart : HashesApart machinery offered) {s : ChainState} {block : CBlock}
    {node : Node} {call : ConnectCall} {state final : ConnectState}
    (identified : Identified machinery s) (ledgered : Ledgered machinery s)
    (offer : block ∈ offered) (matching : SuppliesMatch machinery s)
    (connects : Connects machinery params s block node call state final) :
    final.pindex.nMoneySupply =
      total CTxOut.nValue (chainLedger machinery.txHash (block :: s.active)) +
        droppedByChain (block :: s.active) - spentByChain machinery (block :: s.active) := by
  obtain ⟨older, totals, spends, view, _, connected⟩ := connects_connected connects
  obtain ⟨fresh, moved, _⟩ := calls_undoes apart identified ledgered offer connects.toCalls
    connects.entry connected.checked connected.before connected.txs
  have txs := connected.txs
  rw [connects.sameBlock] at txs
  obtain ⟨undos, applied, _⟩ := txs.applied
  have below := calls_ledger ledgered connects.toCalls
  rw [← below] at fresh
  have value := applyTxs_value applied fresh txs.summed
  unfold coinsTotal at value
  rw [moved, below] at value
  have parent := matching s.active (List.suffix_refl _)
  have recorded : final.pindex.nMoneySupply =
      (s.entries s.active).nMoneySupply + totals.nValueOut - totals.nValueIn := by
    rw [connected.entry]
    rfl
  have valueOut := txs.valueOut
  have valueIn := txs.valueIn
  simp only [BlockTotals.init, Int.zero_add] at valueOut valueIn
  rw [recorded, parent, valueOut, valueIn]
  simp only [droppedByChain, spentByChain, droppedByBlock, spentByBlock, List.map_cons,
    List.sum_cons] at value ⊢
  omega

theorem supplies_step (apart : HashesApart machinery offered) {s next : ChainState}
    (identified : Identified machinery s) (ledgered : Ledgered machinery s)
    (matching : SuppliesMatch machinery s) (taken : Step machinery params offered s next) :
    SuppliesMatch machinery next := by
  intro path part
  cases taken with
  | @connect added node call state final offer connects =>
    unfold afterConnect at part ⊢
    dsimp only at part ⊢
    rcases List.suffix_cons_iff.mp part with whole | within
    · rw [whole, Function.update_self]
      exact connect_supply apart identified ledgered offer matching connects
    · rw [Function.update_of_ne (suffix_ne within added)]
      exact matching path within
  | @refuse refused node call state final offer refuses =>
    unfold afterRefusal at part ⊢
    dsimp only at part ⊢
    split
    · exact matching path part
    · rw [Function.update_of_ne (suffix_ne part refused)]
      exact matching path part
  | @disconnect removed below target view final disconnects =>
    refine matching path ?_
    rw [disconnects.tip]
    exact List.IsSuffix.trans part (List.suffix_cons removed below)
  | touch same =>
    dsimp only
    rw [(same path).nMoneySupply]
    exact matching path part

theorem reached_supplies (apart : HashesApart machinery offered) {s : ChainState}
    (reached : Reached machinery params offered s) : SuppliesMatch machinery s := by
  refine reachable_invariant ?_ ?_ reached
  · intro first start path part
    rw [start.active, List.suffix_nil] at part
    rw [part, start.supply]
    simp [chainLedger, total, droppedByChain, spentByChain]
  · intro state next earlier matching taken
    exact supplies_step apart (reached_identified earlier) (reached_ledgered apart earlier)
      matching taken

/-- In every reachable state the tip's money supply is the value of the coins, plus
    what its chain dropped as unspendable, minus what its chain's zerocoin spends were
    worth. -/
theorem money_supply_identity (machinery : Machinery) (params : ChainParams)
    (offered : Set CBlock) (apart : HashesApart machinery offered) (s : ChainState)
    (reached : Reached machinery params offered s) :
    (s.entries s.active).nMoneySupply =
      coinsTotal s.coins + droppedByChain s.active - spentByChain machinery s.active := by
  unfold coinsTotal
  rw [(reached_ledgered apart reached).coins]
  exact reached_supplies apart reached s.active (List.suffix_refl _)

end Runs

def premineState : ChainState :=
  afterConnect (genesisState labelMachinery) (coinbaseBlock (2650000 * COIN)) syncedNode
    (firstFinal syncedNode (coinbaseBlock (2650000 * COIN)))

theorem premine_apart : HashesApart labelMachinery {coinbaseBlock (2650000 * COIN)} := by
  constructor
  · intro block offer tx member other there _
    rw [Set.mem_singleton_iff] at offer
    subst offer
    rw [List.mem_singleton.mp member, List.mem_singleton.mp there]
  · intro block offer
    rw [Set.mem_singleton_iff] at offer
    subst offer
    decide

theorem premine_supply_matches :
    (premineState.entries premineState.active).nMoneySupply =
      coinsTotal premineState.coins + droppedByChain premineState.active -
        spentByChain labelMachinery premineState.active :=
  money_supply_identity labelMachinery mainParams {coinbaseBlock (2650000 * COIN)} premine_apart
    premineState (.step (.start (genesisState_start labelMachinery))
      (.connect rfl (first_connects syncedNode (coinbaseBlock (2650000 * COIN)) rfl (by decide)
        syncedNode_on (by decide))))

end OxidMoneySupply
