import Oxid.MoneySupply

/-!
How often the active chain creates an output and spends it. What the chain has created and
not spent is what is there, so no output is spent twice, whatever was connected and
disconnected on the way.
-/
namespace OxidOutputCounts
open OxidPrimitives OxidCoins OxidUtxoView OxidDisconnectBlock OxidChainParams OxidNode
open OxidConnectBlock OxidLedgerView OxidChainRun OxidChainLedger OxidMoneySupply
open OxidIssuance
open OxidBlockRoundTrip hiding blockEvents inputEvents
open OutputLedger Runs

section Counting

variable (txHash : CTransaction → Uint256) (txid : Uint256) (n : Nat)

def inputSpends (txin : CTxIn) : Nat :=
  if txin.prevout.hash = txid ∧ txin.prevout.n.toNat = n then 1 else 0

/-- The inputs of a transaction that spend the output. -/
def spendsOf (tx : CTransaction) : Nat := ((inputsSpent tx).map (inputSpends txid n)).sum

/-- Whether a transaction creates the output. -/
def createsOf (tx : CTransaction) : Nat :=
  if txHash tx = txid ∧ (createdOutputs tx n).isSome then 1 else 0

def chainSpends (path : BlockPath) : Nat :=
  (path.map fun block => (block.vtx.map (spendsOf txid n)).sum).sum

def chainCreates (path : BlockPath) : Nat :=
  (path.map fun block => (block.vtx.map (createsOf txHash txid n)).sum).sum

theorem inputEvents_counts {vin : List CTxIn} {undos : List CTxInUndo}
    (lengths : undos.length = vin.length) :
    ((inputEvents vin undos).map (spentBy txid n)).sum = (vin.map (inputSpends txid n)).sum ∧
      ((inputEvents vin undos).map (createdBy txid n)).sum = 0 := by
  induction vin generalizing undos with
  | nil => simp [inputEvents]
  | cons txin rest ih =>
    cases undos with
    | nil => simp at lengths
    | cons undo later =>
      simp only [List.length_cons, Nat.add_right_cancel_iff] at lengths
      obtain ⟨spent, created⟩ := ih lengths
      have split : inputEvents (txin :: rest) (undo :: later) =
          spendEvent txin undo :: inputEvents rest later := rfl
      have here : spentBy txid n (spendEvent txin undo) = inputSpends txid n txin := rfl
      have nothing : createdBy txid n (spendEvent txin undo) = 0 := rfl
      rw [split]
      simp only [List.map_cons, List.sum_cons, here, nothing, spent, created]
      trivial

theorem blockEvents_counts {nHeight : Int32} {txs : List CTransaction} {view applied : UtxoView}
    {undos : List CTxUndo} (run : applyTxs txHash nHeight txs view = some (applied, undos)) :
    ((blockEvents txHash (txs.zip (undos.map some))).map (spentBy txid n)).sum =
        (txs.map (spendsOf txid n)).sum ∧
      ((blockEvents txHash (txs.zip (undos.map some))).map (createdBy txid n)).sum =
        (txs.map (createsOf txHash txid n)).sum := by
  induction txs generalizing view undos with
  | nil =>
    cases run
    exact ⟨rfl, rfl⟩
  | cons tx rest ih =>
    obtain ⟨updated, undo, later, updating, tail, rfl⟩ := applyTxs_cons run
    obtain ⟨_, lengths, _⟩ := updateCoins_events updating
    obtain ⟨spent, created⟩ := inputEvents_counts txid n lengths
    obtain ⟨spentLater, createdLater⟩ := ih tail
    have split : blockEvents txHash ((tx :: rest).zip ((undo :: later).map some)) =
        inputEvents (inputsSpent tx) undo.vprevout ++
          .create (txHash tx) (createdOutputs tx) :: blockEvents txHash (rest.zip (later.map some)) := by
      simp [blockEvents, txEvents, undoOf]
    rw [split]
    simp only [List.map_append, List.sum_append, List.map_cons, List.sum_cons, spent, created,
      spentLater, createdLater, spentBy, createdBy, Nat.zero_add]
    exact ⟨rfl, rfl⟩

end Counting

section Runs

variable {machinery : Machinery} {params : ChainParams} {offered : Set CBlock} {s next : ChainState}

/-- Along the active chain, what is created is spent or there. -/
def Counted (machinery : Machinery) (s : ChainState) : Prop :=
  ∀ path, path <:+ s.active → ∀ txid n,
    held txid n (chainLedger machinery.txHash path) + chainSpends txid n path =
      chainCreates machinery.txHash txid n path

theorem connects_counted (apart : HashesApart machinery offered)
    (identified : Identified machinery s) (ledgered : Ledgered machinery s)
    {block : CBlock} {node : Node} {call : ConnectCall} {state final : ConnectState}
    (offer : block ∈ offered) (counted : Counted machinery s)
    (connects : Connects machinery params s block node call state final) (txid : Uint256) (n : Nat) :
    held txid n (chainLedger machinery.txHash (block :: s.active)) +
        chainSpends txid n (block :: s.active) =
      chainCreates machinery.txHash txid n (block :: s.active) := by
  obtain ⟨older, totals, spends, view, _, connected⟩ := connects_connected connects
  have fresh := (calls_undoes apart identified ledgered offer connects.toCalls connects.entry
    connected.checked connected.before connected.txs).1
  obtain ⟨undos, applied, _⟩ := connected.txs.applied
  rw [connects.sameBlock] at applied
  obtain ⟨_, _, moved, _, fits⟩ := applyTxs_events applied
  obtain ⟨spent, created⟩ := blockEvents_counts machinery.txHash txid n applied
  rw [calls_ledger ledgered connects.toCalls] at moved fits
  have block := held_applyAll txid n (fits fresh)
  have below := counted s.active (List.suffix_refl _) txid n
  rw [moved, spent, created] at block
  simp only [chainLedger, chainSpends, chainCreates, List.map_cons, List.sum_cons] at below ⊢
  omega

theorem counted_step (apart : HashesApart machinery offered)
    (identified : Identified machinery s) (ledgered : Ledgered machinery s)
    (counted : Counted machinery s) (taken : Step machinery params offered s next) :
    Counted machinery next := by
  intro path part
  cases taken with
  | @connect added node call state final offer connects =>
    rcases List.suffix_cons_iff.mp part with whole | within
    · rw [whole]
      exact connects_counted apart identified ledgered offer counted connects
    · exact counted path within
  | refuse offer refuses => exact counted path part
  | @disconnect removed below target view final disconnects =>
    apply counted path
    rw [disconnects.tip]
    exact List.IsSuffix.trans part (List.suffix_cons removed below)
  | touch same => exact counted path part

theorem reached_counted (apart : HashesApart machinery offered)
    (reached : Reached machinery params offered s) : Counted machinery s := by
  refine reachable_invariant ?_ ?_ reached
  · intro first start path part txid n
    rw [start.active, List.suffix_nil] at part
    rw [part]
    rfl
  · intro state next earlier counted taken
    exact counted_step apart (reached_identified earlier) (reached_ledgered apart earlier) counted
      taken

/-- In every reachable state the active chain has created each output once more than it has
    spent it, if the output is among the coins, and otherwise as often. -/
theorem outputs_counted (machinery : Machinery) (params : ChainParams) (offered : Set CBlock)
    (apart : HashesApart machinery offered) (s : ChainState)
    (reached : Reached machinery params offered s) (txid : Uint256) (n : Nat) :
    held txid n (outputsOf s.coins) + chainSpends txid n s.active =
      chainCreates machinery.txHash txid n s.active := by
  rw [(reached_ledgered apart reached).coins]
  exact reached_counted apart reached s.active (List.suffix_refl _) txid n

theorem premine_reached : Reached labelMachinery mainParams {coinbaseBlock (2650000 * COIN)}
    premineState :=
  .step (.start (genesisState_start labelMachinery))
    (.connect rfl (first_connects syncedNode (coinbaseBlock (2650000 * COIN)) rfl (by decide)
      syncedNode_on (by decide)))

theorem premine_counted :
    held 1 0 (outputsOf premineState.coins) + chainSpends 1 0 premineState.active =
      chainCreates labelMachinery.txHash 1 0 premineState.active :=
  outputs_counted labelMachinery mainParams {coinbaseBlock (2650000 * COIN)} premine_apart
    premineState premine_reached 1 0

def touchedState : ChainState :=
  { premineState with entries := fun path => { premineState.entries path with nTime := 5 } }

end Runs

end OxidOutputCounts
