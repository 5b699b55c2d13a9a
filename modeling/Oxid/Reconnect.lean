import Oxid.MoneySupply

/-!
A block connected, disconnected and connected again. The zerocoin supply is counted onto
what the entry held, and only a parent above header version 3 resets that.
-/
namespace OxidReconnect
open OxidPrimitives OxidCoins OxidUtxoView OxidDisconnectBlock OxidZerocoin OxidChainParams
open OxidNode OxidCheckBlock OxidConnectBlock OxidConnectedBlock
open OxidLedgerView OxidChainRun OxidChainLedger
open OxidBlockRoundTrip hiding blockEvents inputEvents
open OutputLedger Attempt Runs

/-- What a connect leaves on the entry about amounts and zerocoins. -/
structure SameFields (a b : CBlockIndex) : Prop where
  mapZerocoinSupply : a.mapZerocoinSupply = b.mapZerocoinSupply
  vMintDenominationsInBlock : a.vMintDenominationsInBlock = b.vMintDenominationsInBlock
  nMint : a.nMint = b.nMint
  nMoneySupply : a.nMoneySupply = b.nMoneySupply

section Amounts

variable {machinery : Machinery} {nHeight : Int32}

theorem getOutputFor_of_output {coins : Uint256 → CCoins} {txin : CTxIn} {out : CTxOut}
    (present : outputsOf coins txin.prevout.hash txin.prevout.n.toNat = some out) :
    getOutputFor coins txin = out := by
  unfold outputsOf CCoins.output CCoins.outputAt at present
  rw [Option.filter_eq_some_iff] at present
  unfold getOutputFor
  rw [present.1]
  rfl

theorem getValueIn_congr {a b : Uint256 → CCoins} {tx : CTransaction}
    (same : outputsOf a = outputsOf b)
    (present : ∀ txin ∈ tx.vin, outputsOf a txin.prevout.hash txin.prevout.n.toNat ≠ none) :
    getValueIn a tx = getValueIn b tx := by
  unfold getValueIn
  congr 1
  refine List.map_congr_left fun txin member => ?_
  obtain ⟨out, found⟩ := Option.ne_none_iff_exists'.mp (present txin member)
  rw [getOutputFor_of_output found]
  rw [same] at found
  rw [getOutputFor_of_output found]

def ReadsInputs (amount : (Uint256 → CCoins) → CTransaction → Int) : Prop :=
  ∀ a b tx, outputsOf a = outputsOf b →
    (∀ txin ∈ inputsSpent tx, outputsOf a txin.prevout.hash txin.prevout.n.toNat ≠ none) →
    amount a tx = amount b tx

theorem txValueIn_readsInputs : ReadsInputs (txValueIn machinery) := by
  intro a b tx same present
  unfold txValueIn
  split
  · rfl
  · rename_i plain
    split
    · rfl
    · rename_i ordinary
      refine getValueIn_congr same ?_
      have inputs : inputsSpent tx = tx.vin := by
        simp [inputsSpent, spendsInputs, plain, ordinary]
      rwa [inputs] at present

theorem txFee_readsInputs : ReadsInputs txFee := by
  intro a b tx same present
  unfold txFee
  split
  · rename_i charged
    simp only [Bool.and_eq_true] at charged
    have inputs : inputsSpent tx = tx.vin := by simp [inputsSpent, charged.1]
    rw [inputs] at present
    rw [getValueIn_congr same present]
  · rfl

theorem sumAlong_congr {amount : (Uint256 → CCoins) → CTransaction → Int}
    (reads : ReadsInputs amount) {txs : List CTransaction} {a b endA endB : UtxoView}
    {undosA undosB : List CTxUndo} (same : outputsOf a.coins = outputsOf b.coins)
    (runA : applyTxs machinery.txHash nHeight txs a = some (endA, undosA))
    (runB : applyTxs machinery.txHash nHeight txs b = some (endB, undosB)) :
    sumAlong machinery.txHash nHeight amount txs a =
      sumAlong machinery.txHash nHeight amount txs b := by
  induction txs generalizing a b undosA undosB with
  | nil => rfl
  | cons tx rest ih =>
    obtain ⟨nextA, undoA, _, updateA, tailA, _⟩ := applyTxs_cons runA
    obtain ⟨nextB, undoB, _, updateB, tailB, _⟩ := applyTxs_cons runB
    obtain ⟨_, lengths, fits, movedA⟩ := updateCoins_events updateA
    obtain ⟨_, _, _, movedB⟩ := updateCoins_events updateB
    have here := reads a.coins b.coins tx same (fits_present lengths fits)
    have after : outputsOf nextA.coins = outputsOf nextB.coins := by
      rw [movedA, movedB, same]
    have there := ih after tailA tailB
    simp only [sumAlong, updateA, updateB, here]
    omega

theorem totals_same {node node' : Node} {txs : List CTransaction}
    {state state' reached reached' : ConnectState} {totals totals' : BlockTotals}
    (height : state.pindex.nHeight = state'.pindex.nHeight)
    (same : outputsOf state.view.coins = outputsOf state'.view.coins)
    (first : TxsConnected machinery node txs BlockTotals.init state totals reached)
    (again : TxsConnected machinery node' txs BlockTotals.init state' totals' reached') :
    totals.nValueOut = totals'.nValueOut ∧ totals.nValueIn = totals'.nValueIn ∧
      totals.nFees = totals'.nFees := by
  obtain ⟨undos, applied, _⟩ := first.applied
  obtain ⟨undos', applied', _⟩ := again.applied
  rw [← height] at applied'
  refine ⟨?_, ?_, ?_⟩
  · rw [first.valueOut, again.valueOut]
  · rw [first.valueIn, again.valueIn, ← height,
      sumAlong_congr txValueIn_readsInputs same applied applied']
  · rw [first.fees, again.fees, ← height,
      sumAlong_congr txFee_readsInputs same applied applied']

end Amounts

section Connects

variable {machinery : Machinery} {params : ChainParams} {offered : Set CBlock}

theorem connected_fields {node : Node} {call : ConnectCall} {parent : CBlockIndex}
    {state final : ConnectState} {totals : BlockTotals} {spends : List CoinDenomination}
    {view : UtxoView}
    (connected : BlockConnected machinery node call parent state final totals spends view) :
    SameFields final.pindex (connectedIndex parent totals (mintsOf machinery node call state)
      spends state.pindex) := by
  rw [connected.entry]
  exact ⟨rfl, rfl, rfl, rfl⟩

theorem connectedIndex_supply (parent : CBlockIndex) (totals : BlockTotals)
    (mints spends : List CoinDenomination) (pindex : CBlockIndex) (denom : CoinDenomination) :
    (connectedIndex parent totals mints spends pindex).mapZerocoinSupply denom =
      (if 3 < parent.nVersion ∧ denom ∈ zerocoinDenomList then parent.mapZerocoinSupply denom
        else pindex.mapZerocoinSupply denom) + mints.count denom - spends.count denom := by
  have inherited : (inheritSupply parent pindex).mapZerocoinSupply denom =
      if 3 < parent.nVersion ∧ denom ∈ zerocoinDenomList then parent.mapZerocoinSupply denom
        else pindex.mapZerocoinSupply denom := by
    unfold inheritSupply
    by_cases reset : 3 < parent.nVersion
    · simp [reset]
    · simp [reset]
  rw [← inherited]
  rfl

/-- The second count repeats the first: the same mints, and where the supply starts
    over from the parent's the same spends, elsewhere a spend for every mint. -/
structure CountsRepeat (parent : CBlockIndex)
    (mints spends mints' spends' : List CoinDenomination) : Prop where
  mints : mints = mints'
  spends : ∀ denom, if 3 < parent.nVersion ∧ denom ∈ zerocoinDenomList
    then spends.count denom = spends'.count denom
    else mints'.count denom = spends'.count denom

theorem supply_repeats_iff {parent pindex : CBlockIndex} {totals totals' : BlockTotals}
    {mints spends spends' : List CoinDenomination} {first : CBlockIndex}
    (held : first.mapZerocoinSupply =
      (connectedIndex parent totals mints spends pindex).mapZerocoinSupply) :
    first.mapZerocoinSupply =
        (connectedIndex parent totals' mints spends' first).mapZerocoinSupply ↔
      CountsRepeat parent mints spends mints spends' := by
  constructor
  · intro same
    constructor
    · rfl
    · intro denom
      have here := congrFun same denom
      have before := congrFun held denom
      rw [connectedIndex_supply] at here before
      split
      · rename_i reset
        rw [if_pos reset] at here before
        omega
      · rename_i carried
        rw [if_neg carried] at here
        omega
  · intro repeats
    funext denom
    have counts := repeats.spends denom
    have before := congrFun held denom
    rw [connectedIndex_supply] at before ⊢
    split at counts
    · rename_i reset
      rw [if_pos reset] at before ⊢
      omega
    · rename_i carried
      rw [if_neg carried]
      omega

end Connects

def mintBlock : CBlock :=
  ⟨⟨3, mainParams.hashGenesisBlock, 0, 1540711000, 0x1e0fffff, 7, 0⟩,
    [⟨1, [⟨COutPoint.null, [1, 1], 0⟩], [⟨0, [0x51], -10⟩], 0⟩,
      ⟨1, [⟨COutPoint.null, [OP_ZEROCOINSPEND, 5], 1⟩],
        [⟨COIN, [OP_ZEROCOINMINT], -10⟩, ⟨COIN, [OP_ZEROCOINMINT], -10⟩], 1⟩], []⟩

def mintFinal : ConnectState := firstFinal syncedNode mintBlock

def mintTarget : DisconnectTarget :=
  ⟨labelMachinery.blockHash mintBlock.toCBlockHeader, mainParams.hashGenesisBlock, 1, true, 0, 0,
    false⟩

def mintRemoved : DisconnectState :=
  (disconnectBlock labelMachinery.zerocoin labelMachinery.txHash mintBlock mintTarget
    mintFinal.undo mintFinal.view mintFinal.zerocoinDB).1

def againNode : Node := { syncedNode with coinsTip := fun txid => some (mintRemoved.view.coins txid) }

def againState : ConnectState :=
  { mintFinal with view := mintRemoved.view, zerocoinDB := mintRemoved.zerocoinDB }

def againFinal : ConnectState :=
  endState (connectBlock labelMachinery againNode (firstCall mintBlock) againState)

theorem mint_connects : Connects labelMachinery mainParams (genesisState labelMachinery) mintBlock
    syncedNode (firstCall mintBlock) (firstConnectState labelMachinery mintBlock) mintFinal :=
  first_connects syncedNode mintBlock rfl (by decide) syncedNode_on (by decide)

def mintState : ChainState :=
  afterConnect (genesisState labelMachinery) mintBlock syncedNode mintFinal

theorem mint_disconnects : Disconnects labelMachinery mintState mintBlock [] mintTarget
    mintFinal.view mintRemoved := by
  have entry : mintState.entries [mintBlock] = mintFinal.pindex :=
    afterConnect_entries (genesisState labelMachinery) mintBlock syncedNode mintFinal
  have undo : mintState.undo [mintBlock] = mintFinal.undo :=
    afterConnect_undo (genesisState labelMachinery) mintBlock syncedNode mintFinal
  constructor
  · rfl
  · exact fun txid => CCoins.same_refl _
  · rw [entry]
    decide
  · rfl
  · rw [entry]
    decide
  · rw [entry]
    decide
  · rw [undo]
    exact Prod.ext rfl (by decide)
  · decide

def unmintedState : ChainState := afterDisconnect mintState [] mintRemoved

theorem againNode_on : NodeOn mainParams againNode unmintedState := by
  constructor
  · rfl
  · rfl
  · intro entry member
    change entry ∈ [headerEntry labelMachinery []] at member
    rw [List.mem_singleton] at member
    subst member
    rfl
  · exact fun txid => CCoins.same_refl _
  · intro block rest part
    change block :: rest <:+ [] at part
    simp at part

theorem mint_connects_again : Connects labelMachinery mainParams unmintedState mintBlock
    againNode (firstCall mintBlock) againState againFinal := by
  have entry : unmintedState.entries [mintBlock] = mintFinal.pindex :=
    afterConnect_entries (genesisState labelMachinery) mintBlock syncedNode mintFinal
  have undo : unmintedState.undo [mintBlock] = mintFinal.undo :=
    afterConnect_undo (genesisState labelMachinery) mintBlock syncedNode mintFinal
  constructor
  · constructor
    · rfl
    · rfl
    · decide
    · rfl
    · exact againNode_on
    · exact fun txid => CCoins.same_refl _
    · rfl
    · rfl
    · decide
    · intro hash named
      exact (Option.some.inj named).symm
    · nofun
  · rfl
  · exact entry.symm
  · exact undo.symm
  · exact completes_endState (by decide)

theorem mint_apart : HashesApart labelMachinery {mintBlock} := by
  constructor
  · intro block offer
    subst offer
    decide
  · intro block offer
    subst offer
    decide

end OxidReconnect
