import Oxid.BlockRoundTrip
import Oxid.Library.OutputLedger

/-!
The coins view as a ledger of unspent outputs. Applying a block to a view and disconnecting
it are ledger events and their reversal.
-/
namespace OxidLedgerView
open OxidPrimitives OxidCoins OxidZerocoin OxidUtxoView OxidDisconnectBlock OxidCoinTrips
open OxidBlockRoundTrip OutputLedger

abbrev CoinLedger := Ledger Uint256 CTxOut

abbrev CoinLedgerEvent := Event Uint256 CTxOut

def outputsOf (coins : Uint256 → CCoins) : CoinLedger := fun txid n => (coins txid).output n

def spendEvent (txin : CTxIn) (undo : CTxInUndo) : CoinLedgerEvent :=
  .spend txin.prevout.hash txin.prevout.n.toNat undo.txout (decide (undo.nHeight ≠ 0))

def createdOutputs (tx : CTransaction) : Slot CTxOut := fun n => (CCoins.fromTx tx 0).output n

def inputEvents (vin : List CTxIn) (undos : List CTxInUndo) : List CoinLedgerEvent :=
  (vin.zip undos).map fun (txin, undo) => spendEvent txin undo

def undoOf (undo : Option CTxUndo) : List CTxInUndo := (undo.map CTxUndo.vprevout).getD []

def txEvents (txHash : CTransaction → Uint256) (tx : CTransaction) (undo : Option CTxUndo) :
    List CoinLedgerEvent :=
  inputEvents (inputsSpent tx) (undoOf undo) ++ [.create (txHash tx) (createdOutputs tx)]

def blockEvents (txHash : CTransaction → Uint256) (txs : List (CTransaction × Option CTxUndo)) :
    List CoinLedgerEvent :=
  txs.flatMap fun (tx, undo) => txEvents txHash tx undo

def SoundUndo (undos : List CTxInUndo) : Prop := ∀ undo ∈ undos, undo.txout.isNull = false

theorem outputsOf_setCoins (view : UtxoView) (txid : Uint256) (coins : CCoins) :
    outputsOf (view.setCoins txid coins).coins =
      Function.update (outputsOf view.coins) txid coins.output := by
  funext other n
  unfold outputsOf
  rw [coins_setCoins]
  by_cases same : other = txid
  · subst same
    rw [if_pos rfl, Function.update_self, settle_output (isFresh_sound view other)]
  · rw [if_neg same, Function.update_of_ne same]

theorem outputsOf_congr {a b : Uint256 → CCoins} (same : ∀ txid, (a txid).same (b txid) = true) :
    outputsOf a = outputsOf b := by
  funext txid n
  unfold outputsOf
  rcases (CCoins.same_iff _ _).mp (same txid) with pruned | equal
  · rw [(CCoins.isPruned_iff_output _).mp pruned.1, (CCoins.isPruned_iff_output _).mp pruned.2]
  · rw [equal]

def spendAt (L : CoinLedger) (txin : CTxIn) : CoinLedger :=
  Function.update L txin.prevout.hash
    (Function.update (L txin.prevout.hash) txin.prevout.n.toNat none)

def spendLedger (vin : List CTxIn) (L : CoinLedger) : CoinLedger := vin.foldl spendAt L

def txLedger (txHash : CTransaction → Uint256) (L : CoinLedger) (tx : CTransaction) :
    CoinLedger :=
  Function.update (spendLedger (inputsSpent tx) L) (txHash tx) (createdOutputs tx)

def blockLedger (txHash : CTransaction → Uint256) (txs : List CTransaction) (L : CoinLedger) :
    CoinLedger := txs.foldl (txLedger txHash) L

def FindsInputs (txHash : CTransaction → Uint256) : List CTransaction → CoinLedger → Prop
  | [], _ => True
  | tx :: rest, L =>
    (∀ txin ∈ inputsSpent tx, L txin.prevout.hash txin.prevout.n.toNat ≠ none) ∧
      FindsInputs txHash rest (txLedger txHash L tx)

def CreatesFresh (txHash : CTransaction → Uint256) : List CTransaction → CoinLedger → Prop
  | [], _ => True
  | tx :: rest, L =>
    spendLedger (inputsSpent tx) L (txHash tx) = Slot.empty ∧
      CreatesFresh txHash rest (txLedger txHash L tx)

variable {L : CoinLedger} {vin : List CTxIn} {txid : Uint256} {n : Nat}

theorem spendAt_le {txin : CTxIn} {out : CTxOut} (present : spendAt L txin txid n = some out) :
    L txid n = some out := by
  unfold spendAt at present
  by_cases same : txid = txin.prevout.hash
  · subst same
    rw [Function.update_self] at present
    by_cases here : n = txin.prevout.n.toNat
    · subst here
      simp at present
    · rwa [Function.update_of_ne here] at present
  · rwa [Function.update_of_ne same] at present

theorem spendLedger_le {out : CTxOut} (present : spendLedger vin L txid n = some out) :
    L txid n = some out := by
  induction vin generalizing L with
  | nil => exact present
  | cons txin rest ih =>
    exact spendAt_le (ih present)

theorem spendLedger_spent {txin : CTxIn} (member : txin ∈ vin) :
    spendLedger vin L txin.prevout.hash txin.prevout.n.toNat = none := by
  induction vin generalizing L with
  | nil => simp at member
  | cons first rest ih =>
    rcases List.mem_cons.mp member with here | there
    · subst here
      cases left : spendLedger (txin :: rest) L txin.prevout.hash txin.prevout.n.toNat with
      | none => rfl
      | some out =>
        have before : spendAt L txin txin.prevout.hash txin.prevout.n.toNat = some out :=
          spendLedger_le left
        simp [spendAt] at before
    · exact ih there

theorem blockLedger_origin {txHash : CTransaction → Uint256} {txs : List CTransaction}
    (present : blockLedger txHash txs L txid n ≠ none) :
    L txid n ≠ none ∨ txid ∈ txs.map txHash := by
  induction txs generalizing L with
  | nil => exact Or.inl present
  | cons tx rest ih =>
    rcases ih present with before | later
    · by_cases same : txid = txHash tx
      · exact Or.inr (by simp [same])
      · left
        unfold txLedger at before
        rw [Function.update_of_ne same] at before
        obtain ⟨out, found⟩ := Option.ne_none_iff_exists'.mp before
        rw [spendLedger_le found]
        simp
    · exact Or.inr (by simp [later])

theorem fits_present {undos : List CTxInUndo} (lengths : undos.length = vin.length)
    (fits : FitsAll (inputEvents vin undos) L) :
    ∀ txin ∈ vin, L txin.prevout.hash txin.prevout.n.toNat ≠ none := by
  induction vin generalizing undos L with
  | nil => simp
  | cons first rest ih =>
    cases undos with
    | nil => simp at lengths
    | cons undo later =>
      simp only [List.length_cons, Nat.add_right_cancel_iff] at lengths
      intro txin member
      rcases List.mem_cons.mp member with here | there
      · subst here
        have present := fits.1.1
        rw [present]
        simp
      · have after := ih lengths fits.2 txin there
        obtain ⟨out, found⟩ := Option.ne_none_iff_exists'.mp after
        have before : L txin.prevout.hash txin.prevout.n.toNat = some out := spendAt_le found
        rw [before]
        simp

section Apply

variable {txHash : CTransaction → Uint256} {nHeight : Int32}

theorem spend_event {coins spent : CCoins} {txin : CTxIn} {undo : CTxInUndo}
    (L : CoinLedger) (here : L txin.prevout.hash = coins.output)
    (run : coins.spend txin.prevout = some (spent, undo)) :
    Fits (spendEvent txin undo) L ∧
      apply (spendEvent txin undo) L = Function.update L txin.prevout.hash spent.output ∧
      undo.txout.isNull = false := by
  obtain ⟨present, nonnull, left, _, _, record⟩ := spend_cases run
  refine ⟨⟨?_, ?_⟩, ?_, nonnull⟩
  · rw [here]
    exact present
  · intro last m other
    have marked : undo.nHeight ≠ 0 := by simpa using last
    have pruned : spent.isPruned = true := by
      by_contra unpruned
      rw [if_neg unpruned] at record
      exact marked record
    have gone := (CCoins.isPruned_iff_output spent).mp pruned m
    rw [left m, if_neg other] at gone
    rw [here]
    exact gone
  · unfold spendEvent
    simp only [apply]
    congr 1
    funext m
    rw [left m, here]
    by_cases same : m = txin.prevout.n.toNat
    · subst same
      simp
    · simp [same]

theorem spendInputs_events {inputs : List CTxIn} {view spent : UtxoView}
    {undos : List CTxInUndo} (run : spendInputs inputs view = some (spent, undos)) :
    undos.length = inputs.length ∧ SoundUndo undos ∧
      FitsAll (inputEvents inputs undos) (outputsOf view.coins) ∧
      outputsOf spent.coins = applyAll (inputEvents inputs undos) (outputsOf view.coins) := by
  induction inputs generalizing view undos with
  | nil =>
    cases run
    exact ⟨rfl, nofun, trivial, rfl⟩
  | cons txin rest ih =>
    obtain ⟨left, undo, later, spending, tail, rfl⟩ := spendInputs_cons run
    obtain ⟨lengths, sound, fits, applied⟩ := ih tail
    obtain ⟨fit, after, nonnull⟩ := spend_event (outputsOf view.coins) rfl spending
    have moved : outputsOf (view.setCoins txin.prevout.hash left).coins =
        apply (spendEvent txin undo) (outputsOf view.coins) := by
      rw [outputsOf_setCoins, after]
    rw [moved] at fits applied
    refine ⟨by simp [lengths], ?_, ⟨fit, fits⟩, applied⟩
    intro other member
    rcases List.mem_cons.mp member with here | there
    · rw [here]
      exact nonnull
    · exact sound other there

theorem applyAll_inputEvents {vin : List CTxIn} {undos : List CTxInUndo}
    (lengths : undos.length = vin.length) (L : CoinLedger) :
    applyAll (inputEvents vin undos) L = spendLedger vin L := by
  induction vin generalizing undos L with
  | nil =>
    rw [List.length_nil, List.length_eq_zero_iff] at lengths
    rfl
  | cons txin rest ih =>
    cases undos with
    | nil => simp at lengths
    | cons undo later =>
      simp only [List.length_cons, Nat.add_right_cancel_iff] at lengths
      exact ih lengths (apply (spendEvent txin undo) L)

theorem applyAll_txEvents (txHash : CTransaction → Uint256) {tx : CTransaction} {undo : CTxUndo}
    (lengths : undo.vprevout.length = (inputsSpent tx).length) (L : CoinLedger) :
    applyAll (txEvents txHash tx (some undo)) L = txLedger txHash L tx := by
  have undos : undoOf (some undo) = undo.vprevout := rfl
  unfold txEvents
  rw [applyAll_append, undos, applyAll_inputEvents lengths]
  rfl

theorem updateCoins_events {tx : CTransaction} {view updated : UtxoView} {undo : CTxUndo}
    (run : updateCoins txHash nHeight tx view = some (updated, undo)) :
    SoundUndo undo.vprevout ∧ undo.vprevout.length = (inputsSpent tx).length ∧
      FitsAll (inputEvents (inputsSpent tx) undo.vprevout) (outputsOf view.coins) ∧
      outputsOf updated.coins = txLedger txHash (outputsOf view.coins) tx := by
  unfold updateCoins at run
  simp only [Option.map_eq_some_iff, Prod.mk.injEq] at run
  obtain ⟨⟨spent, undos⟩, spending, rfl, rfl⟩ := run
  obtain ⟨lengths, sound, fits, applied⟩ := spendInputs_events spending
  refine ⟨sound, lengths, fits, ?_⟩
  rw [outputsOf_setCoins, applied, applyAll_inputEvents lengths]
  rfl

/-- A block applied to a view: the ledger moves as its transactions say, every input
    finds its output, and the undo data fit when nothing is overwritten. -/
theorem applyTxs_events {txs : List CTransaction} {view applied : UtxoView}
    {undos : List CTxUndo} (run : applyTxs txHash nHeight txs view = some (applied, undos)) :
    (∀ undo ∈ undos, SoundUndo undo.vprevout) ∧
      outputsOf applied.coins = blockLedger txHash txs (outputsOf view.coins) ∧
      applyAll (blockEvents txHash (txs.zip (undos.map some))) (outputsOf view.coins) =
        blockLedger txHash txs (outputsOf view.coins) ∧
      FindsInputs txHash txs (outputsOf view.coins) ∧
      (CreatesFresh txHash txs (outputsOf view.coins) →
        FitsAll (blockEvents txHash (txs.zip (undos.map some))) (outputsOf view.coins)) := by
  induction txs generalizing view undos with
  | nil =>
    cases run
    exact ⟨nofun, rfl, rfl, trivial, fun _ => trivial⟩
  | cons tx rest ih =>
    obtain ⟨updated, undo, later, updating, tail, rfl⟩ := applyTxs_cons run
    obtain ⟨sound, lengths, fits, moved⟩ := updateCoins_events updating
    obtain ⟨sounds, ends, events, finds, fitsLater⟩ := ih tail
    rw [moved] at ends events finds fitsLater
    have split : blockEvents txHash ((tx :: rest).zip ((undo :: later).map some)) =
        txEvents txHash tx (some undo) ++
          blockEvents txHash (rest.zip (later.map some)) := by
      simp [blockEvents]
    have before := applyAll_txEvents txHash lengths (outputsOf view.coins)
    rw [split, applyAll_append, before]
    refine ⟨?_, ends, events, ⟨?_, finds⟩, ?_⟩
    · intro other member
      rcases List.mem_cons.mp member with here | there
      · rw [here]
        exact sound
      · exact sounds other there
    · exact fits_present lengths fits
    · rintro ⟨free, fresh⟩
      rw [fitsAll_append, before]
      refine ⟨?_, fitsLater fresh⟩
      rw [txEvents, fitsAll_append]
      refine ⟨fits, ?_, trivial⟩
      change applyAll (inputEvents (inputsSpent tx) undo.vprevout) _ _ = _
      rw [applyAll_inputEvents lengths]
      exact free

end Apply

section Disconnect

variable {zerocoin : ZerocoinLibrary} {txHash : CTransaction → Uint256} {nHeight : Int32}

theorem restoreInput_revert (txin : CTxIn) (undo : CTxInUndo) (state : DisconnectState)
    (nonnull : undo.txout.isNull = false) :
    outputsOf (restoreInput txin undo state).view.coins =
      revert (spendEvent txin undo) (outputsOf state.view.coins) := by
  rw [view_restoreInput, outputsOf_setCoins]
  congr 1
  funext m
  rw [restoreCoins_output _ _ _ nonnull]
  by_cases here : m = txin.prevout.n.toNat
  · subst here
    simp
  · rw [if_neg here, Function.update_of_ne here]
    by_cases marked : undo.nHeight ≠ 0
    · simp [marked, Slot.empty]
    · simp [marked, outputsOf]

theorem restoreInputs_revert (inputs : List (CTxIn × CTxInUndo)) (state : DisconnectState)
    (sound : ∀ pair ∈ inputs, pair.2.txout.isNull = false) :
    outputsOf (restoreInputs inputs state).view.coins =
      revertAll (inputs.map fun (txin, undo) => spendEvent txin undo)
        (outputsOf state.view.coins) := by
  induction inputs with
  | nil => rfl
  | cons pair rest ih =>
    obtain ⟨txin, undo⟩ := pair
    have split : restoreInputs ((txin, undo) :: rest) state =
        restoreInput txin undo (restoreInputs rest state) := rfl
    rw [split, restoreInput_revert txin undo _ (sound (txin, undo) (by simp)),
      ih fun pair member => sound pair (by simp [member])]
    rfl

theorem removeOutputs_revert (txHash : CTransaction → Uint256) (nHeight : Int32)
    (tx : CTransaction) (state : DisconnectState) :
    outputsOf (removeOutputs txHash nHeight tx state).view.coins =
      revert (.create (txHash tx) (createdOutputs tx)) (outputsOf state.view.coins) := by
  unfold removeOutputs
  simp only [outputsOf_setCoins, revert]
  rfl

variable {state final : DisconnectState}

theorem disconnectTx_revert {tx : CTransaction} {undo : Option CTxUndo}
    (sound : SoundUndo (undoOf undo))
    (run : disconnectTx zerocoin txHash nHeight tx undo state = (final, none)) :
    outputsOf final.view.coins =
      revertAll (txEvents txHash tx undo) (outputsOf state.view.coins) := by
  unfold disconnectTx at run
  split at run
  · cases run
  · rename_i db undone
    have removed := removeOutputs_revert txHash nHeight tx
    rw [txEvents, revertAll_append]
    change _ = revertAll (inputEvents (inputsSpent tx) (undoOf undo))
      (revert (.create (txHash tx) (createdOutputs tx)) (outputsOf state.view.coins))
    rw [← removed]
    split at run
    · rename_i spending
      cases undo with
      | none => cases run
      | some txundo =>
        dsimp only at run
        split at run
        · cases run
        · simp only [Prod.mk.injEq, and_true] at run
          rw [← run, restoreInputs_revert]
          · rw [inputsSpent, if_pos spending]
            rfl
          · intro pair member
            exact sound _ (List.of_mem_zip member).2
    · rename_i unspent
      simp only [Prod.mk.injEq, and_true] at run
      rw [← run, inputsSpent, if_neg unspent]
      rfl

theorem disconnectTxs_revert {txs : List (CTransaction × Option CTxUndo)}
    (sound : ∀ pair ∈ txs, SoundUndo (undoOf pair.2))
    (run : disconnectTxs zerocoin txHash nHeight txs state = (final, none)) :
    outputsOf final.view.coins =
      revertAll (blockEvents txHash txs) (outputsOf state.view.coins) := by
  induction txs generalizing final with
  | nil =>
    simp only [disconnectTxs, Prod.mk.injEq, and_true] at run
    rw [← run]
    rfl
  | cons pair rest ih =>
    obtain ⟨tx, undo⟩ := pair
    simp only [disconnectTxs] at run
    split at run
    · cases run
    · rename_i later tail
      have below := ih (fun pair member => sound pair (by simp [member])) tail
      have here := disconnectTx_revert (sound (tx, undo) (by simp)) run
      rw [here, below]
      simp [blockEvents, revertAll_append]

end Disconnect

section Txids

variable {txHash : CTransaction → Uint256}

theorem blockLedger_append (front back : List CTransaction) (L : CoinLedger) :
    blockLedger txHash (front ++ back) L =
      blockLedger txHash back (blockLedger txHash front L) := by
  simp [blockLedger, List.foldl_append]

variable {L : CoinLedger} {txs : List CTransaction} {tx : CTransaction}

theorem findsInputs_append {front back : List CTransaction}
    (finds : FindsInputs txHash (front ++ back) L) :
    FindsInputs txHash front L ∧ FindsInputs txHash back (blockLedger txHash front L) := by
  induction front generalizing L with
  | nil => exact ⟨trivial, finds⟩
  | cons tx rest ih =>
    obtain ⟨here, later⟩ := finds
    exact ⟨⟨here, (ih later).1⟩, (ih later).2⟩

/-- What keeps a block from containing a transaction twice: its outputs are new, and
    a transaction that spends nothing stands in it only once. -/
structure Unrepeated (txHash : CTransaction → Uint256) (txs : List CTransaction)
    (L : CoinLedger) : Prop where
  unspent : ∀ tx ∈ txs, L (txHash tx) = Slot.empty
  collisionFree : ∀ tx ∈ txs, ∀ other ∈ txs, txHash tx = txHash other → tx = other
  once : ∀ tx ∈ txs, inputsSpent tx = [] → txs.count tx ≤ 1
  finds : FindsInputs txHash txs L

theorem unrepeated_front {front : List CTransaction}
    (unrepeated : Unrepeated txHash (front ++ [tx]) L) : Unrepeated txHash front L := by
  constructor
  · exact fun other member => unrepeated.unspent other (by simp [member])
  · exact fun one member other there =>
      unrepeated.collisionFree one (by simp [member]) other (by simp [there])
  · intro other member nothing
    have once := unrepeated.once other (by simp [member]) nothing
    rw [List.count_append] at once
    omega
  · exact (findsInputs_append unrepeated.finds).1

theorem repeated_input_missing {before between : List CTransaction} {txin : CTxIn}
    (input : txin ∈ inputsSpent tx)
    (unspent : ∀ other ∈ before ++ tx :: between, L (txHash other) = Slot.empty)
    (distinct : ((before ++ tx :: between).map txHash).Nodup)
    (found : blockLedger txHash before L txin.prevout.hash txin.prevout.n.toNat ≠ none) :
    blockLedger txHash (before ++ tx :: between) L txin.prevout.hash txin.prevout.n.toNat =
      none := by
  by_contra again
  rw [blockLedger_append] at again
  change blockLedger txHash between (txLedger txHash (blockLedger txHash before L) tx) _ _ ≠ none
    at again
  rw [List.map_append, List.map_cons, List.nodup_append] at distinct
  obtain ⟨_, _, apart⟩ := distinct
  have source : ∀ other ∈ tx :: between, txHash other ≠ txin.prevout.hash := by
    intro other member same
    rcases blockLedger_origin found with old | made
    · rw [← same, unspent other (by simp [List.mem_cons.mp member])] at old
      exact old rfl
    · refine apart _ made (txHash other) ?_ same.symm
      exact List.mem_map_of_mem member
  rcases blockLedger_origin again with left | made
  · unfold txLedger at left
    rw [Function.update_of_ne (Ne.symm (source tx (by simp)))] at left
    exact left (spendLedger_spent input)
  · obtain ⟨other, member, same⟩ := List.mem_map.mp made
    exact source other (by simp [member]) same

theorem txids_distinct (txs : List CTransaction) (L : CoinLedger)
    (unrepeated : Unrepeated txHash txs L) : (txs.map txHash).Nodup := by
  induction txs using List.reverseRecOn with
  | nil => simp
  | append_singleton front tx ih =>
    have distinct := ih (unrepeated_front unrepeated)
    rw [List.map_append, List.nodup_append]
    refine ⟨distinct, by simp, ?_⟩
    intro txid earlier other last same
    simp only [List.map_cons, List.map_nil, List.mem_singleton] at last
    obtain ⟨twin, member, named⟩ := List.mem_map.mp earlier
    have equal : twin = tx := by
      refine unrepeated.collisionFree twin (by simp [member]) tx (by simp) ?_
      rw [named, same, last]
    subst equal
    cases spent : inputsSpent twin with
    | nil =>
      have once := unrepeated.once twin (by simp) spent
      have twice : 1 ≤ front.count twin := List.one_le_count_iff.mpr member
      simp at once
      omega
    | cons txin rest =>
      obtain ⟨before, between, rfl⟩ := List.append_of_mem member
      have input : txin ∈ inputsSpent twin := by simp [spent]
      obtain ⟨earlierFinds, lastFinds⟩ := findsInputs_append unrepeated.finds
      have first := (findsInputs_append earlierFinds).2.1 txin input
      have again := lastFinds.1 txin input
      refine again (repeated_input_missing input ?_ distinct first)
      intro other there
      exact unrepeated.unspent other (List.mem_append_left _ there)

theorem createsFresh_of_distinct (unspent : ∀ tx ∈ txs, L (txHash tx) = Slot.empty)
    (distinct : (txs.map txHash).Nodup) :
    CreatesFresh txHash txs L := by
  induction txs generalizing L with
  | nil => trivial
  | cons tx rest ih =>
    simp only [List.map_cons, List.nodup_cons] at distinct
    have spentEmpty : ∀ other ∈ tx :: rest, spendLedger (inputsSpent tx) L (txHash other) =
        Slot.empty := by
      intro other member
      funext n
      cases left : spendLedger (inputsSpent tx) L (txHash other) n with
      | none => rfl
      | some out =>
        have present := spendLedger_le left
        rw [unspent other member] at present
        cases present
    refine ⟨spentEmpty tx (by simp), ih ?_ distinct.2⟩
    intro other member
    have apart : txHash other ≠ txHash tx := by
      intro same
      refine distinct.1 ?_
      rw [← same]
      exact List.mem_map_of_mem member
    unfold txLedger
    rw [Function.update_of_ne apart]
    exact spentEmpty other (by simp [member])

theorem blockLedger_source {txid : Uint256} {n : Nat} {out : CTxOut}
    (unspent : ∀ tx ∈ txs, L (txHash tx) = Slot.empty) (distinct : (txs.map txHash).Nodup)
    (present : blockLedger txHash txs L txid n = some out) :
    (L txid n = some out ∧ txid ∉ txs.map txHash) ∨
      ∃ tx ∈ txs, txHash tx = txid ∧ createdOutputs tx n = some out := by
  induction txs using List.reverseRecOn with
  | nil => exact Or.inl ⟨present, by simp⟩
  | append_singleton front tx ih =>
    rw [List.map_append, List.nodup_append] at distinct
    rw [blockLedger_append] at present
    change txLedger txHash (blockLedger txHash front L) tx txid n = some out at present
    unfold txLedger at present
    by_cases same : txid = txHash tx
    · rw [same, Function.update_self] at present
      exact Or.inr ⟨tx, by simp, same.symm, present⟩
    · rw [Function.update_of_ne same] at present
      rcases ih (fun other member => unspent other (by simp [member])) distinct.1
        (spendLedger_le present) with ⟨old, absent⟩ | ⟨other, member, named, made⟩
      · refine Or.inl ⟨old, ?_⟩
        rw [List.map_append, List.mem_append, not_or]
        exact ⟨absent, by simpa using same⟩
      · exact Or.inr ⟨other, by simp [member], named, made⟩

def outpointsSpent (txs : List CTransaction) : List COutPoint :=
  (txs.flatMap inputsSpent).map CTxIn.prevout

theorem outpointsSpent_append (front back : List CTransaction) :
    outpointsSpent (front ++ back) = outpointsSpent front ++ outpointsSpent back := by
  simp [outpointsSpent]

theorem fits_outpoints {vin : List CTxIn} {undos : List CTxInUndo}
    (lengths : undos.length = vin.length) (fits : FitsAll (inputEvents vin undos) L) :
    (vin.map CTxIn.prevout).Nodup := by
  induction vin generalizing undos L with
  | nil => simp
  | cons first rest ih =>
    cases undos with
    | nil => simp at lengths
    | cons undo later =>
      simp only [List.length_cons, Nat.add_right_cancel_iff] at lengths
      rw [List.map_cons, List.nodup_cons]
      refine ⟨?_, ih lengths fits.2⟩
      intro again
      obtain ⟨txin, member, same⟩ := List.mem_map.mp again
      have present := fits_present lengths fits.2 txin member
      rw [same] at present
      exact present (by simp [spendEvent, apply])

theorem applied_outpoints {nHeight : Int32} {view applied : UtxoView} {undos : List CTxUndo}
    (run : applyTxs txHash nHeight txs view = some (applied, undos)) :
    ∀ tx ∈ txs, (outpointsSpent [tx]).Nodup := by
  induction txs generalizing view undos with
  | nil => nofun
  | cons first rest ih =>
    obtain ⟨updated, undo, later, updating, tail, rfl⟩ := applyTxs_cons run
    intro tx member
    rcases List.mem_cons.mp member with here | there
    · subst here
      obtain ⟨_, lengths, fits, _⟩ := updateCoins_events updating
      simpa [outpointsSpent] using fits_outpoints lengths fits
    · exact ih tail tx there

theorem outpoints_distinct (txs : List CTransaction) (L : CoinLedger)
    (unspent : ∀ tx ∈ txs, L (txHash tx) = Slot.empty) (distinct : (txs.map txHash).Nodup)
    (single : ∀ tx ∈ txs, (outpointsSpent [tx]).Nodup) (finds : FindsInputs txHash txs L) :
    (outpointsSpent txs).Nodup := by
  induction txs using List.reverseRecOn with
  | nil => simp [outpointsSpent]
  | append_singleton front tx ih =>
    obtain ⟨earlierFinds, lastFinds⟩ := findsInputs_append finds
    have before := distinct
    rw [List.map_append, List.nodup_append] at before
    rw [outpointsSpent_append, List.nodup_append]
    refine ⟨ih (fun other member => unspent other (by simp [member])) before.1
      (fun other member => single other (by simp [member])) earlierFinds,
      single tx (by simp), ?_⟩
    intro out early other late same
    obtain ⟨txin, input, rfl⟩ := List.mem_map.mp early
    obtain ⟨spender, member, inside⟩ := List.mem_flatMap.mp input
    obtain ⟨again, last, named⟩ := List.mem_map.mp late
    simp only [List.flatMap_cons, List.flatMap_nil, List.append_nil] at last
    obtain ⟨ahead, between, rfl⟩ := List.append_of_mem member
    have first := (findsInputs_append earlierFinds).2.1 txin inside
    have second := lastFinds.1 again last
    rw [named, ← same] at second
    refine second (repeated_input_missing inside ?_ before.1 first)
    intro other there
    exact unspent other (List.mem_append_left _ there)

end Txids

end OxidLedgerView
