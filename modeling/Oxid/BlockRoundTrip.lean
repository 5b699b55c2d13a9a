import Oxid.CoinTrips

/-!
A block applied to a coins view and disconnected again. The loops over transactions and
inputs nest into one trip for every txid.
-/
namespace OxidBlockRoundTrip
open OxidPrimitives OxidCoins OxidZerocoin OxidUtxoView OxidDisconnectBlock OxidCoinTrips

variable (txHash : CTransaction → Uint256) (nHeight : Int32)

def inputsSpent (tx : CTransaction) : List CTxIn := if spendsInputs tx then tx.vin else []

def inputEvents (txid : Uint256) (inputs : List CTxIn) : List CoinEvent :=
  (inputs.filter fun txin => txin.prevout.hash = txid).map fun txin => .spend txin.prevout

def blockEvents (txid : Uint256) : List CTransaction → List CoinEvent
  | [] => []
  | tx :: rest =>
    inputEvents txid (inputsSpent tx) ++
      ((if txHash tx = txid then [.create (CCoins.fromTx tx nHeight)] else []) ++
        blockEvents txid rest)

def fallback (view : UtxoView) (txid : Uint256) : CCoins := (view.base txid).getD CCoins.empty

def isFresh (view : UtxoView) (txid : Uint256) : Bool := slotFresh (view.slot txid) (view.base txid)

def tripAt (view : UtxoView) (txid : Uint256) (events : List CoinEvent) : Option CCoins :=
  coinsTrip (isFresh view txid) (fallback view txid) events (view.coins txid)

theorem isFresh_sound (view : UtxoView) (txid : Uint256) (fresh : isFresh view txid = true) :
    (fallback view txid).isPruned = true :=
  slotFresh_pruned (view.sound txid) fresh

theorem coins_setCoins (view : UtxoView) (txid other : Uint256) (coins : CCoins) :
    (view.setCoins txid coins).coins other =
      if other = txid then settle (isFresh view other) (fallback view other) coins
      else view.coins other := by
  simp only [UtxoView.coins, UtxoView.slot_setCoins, UtxoView.base_setCoins]
  split
  · rw [slotCoins_editedSlot]
    rfl
  · rfl

theorem isFresh_setCoins (view : UtxoView) (txid other : Uint256) (coins : CCoins) :
    isFresh (view.setCoins txid coins) other = isFresh view other := by
  simp only [isFresh, UtxoView.slot_setCoins, UtxoView.base_setCoins]
  split
  · exact slotFresh_editedSlot (view.sound other) _
  · rfl

structure Alongside (a b : UtxoView) : Prop where
  base : a.base = b.base
  fresh : ∀ txid, isFresh a txid = isFresh b txid

theorem alongside_setCoins (view : UtxoView) (txid : Uint256) (coins : CCoins) :
    Alongside (view.setCoins txid coins) view :=
  ⟨rfl, fun other => isFresh_setCoins view txid other coins⟩

theorem alongside_trans {a b c : UtxoView} (left : Alongside a b) (right : Alongside b c) :
    Alongside a c :=
  ⟨left.base.trans right.base, fun txid => (left.fresh txid).trans (right.fresh txid)⟩

theorem alongside_fallback {a b : UtxoView} (related : Alongside a b) (txid : Uint256) :
    fallback a txid = fallback b txid := by
  rw [fallback, fallback, related.base]

variable {zerocoin : ZerocoinLibrary} {view applied : UtxoView} {events : Uint256 → List CoinEvent}
variable {state final : DisconnectState} {txundo : Option CTxUndo} {txs : List CTransaction}
variable {undos : List CTxInUndo} {inputs : List CTxIn} {tx : CTransaction}

theorem spendInputs_alongside {view spent : UtxoView}
    (run : spendInputs inputs view = some (spent, undos)) :
    Alongside spent view ∧ undos.length = inputs.length := by
  induction inputs generalizing view undos with
  | nil =>
    cases run
    exact ⟨⟨rfl, fun _ => rfl⟩, rfl⟩
  | cons txin rest ih =>
    obtain ⟨left, undo, later, _, tail, rfl⟩ := spendInputs_cons run
    obtain ⟨related, lengths⟩ := ih tail
    exact ⟨alongside_trans related (alongside_setCoins view _ _), by simp [lengths]⟩

theorem view_restoreInput (txin : CTxIn) (undo : CTxInUndo) (state : DisconnectState) :
    (restoreInput txin undo state).view = state.view.setCoins txin.prevout.hash
      (restoreCoins (state.view.coins txin.prevout.hash) txin.prevout undo).1 := rfl

theorem restoreInputs_trip {view spent : UtxoView}
    (run : spendInputs inputs view = some (spent, undos)) {state : DisconnectState}
    (related : Alongside state.view spent)
    (trip : ∀ txid, tripAt spent txid (events txid) = some (state.view.coins txid)) :
    Alongside (restoreInputs (inputs.zip undos) state).view view ∧
      ∀ txid, tripAt view txid (inputEvents txid inputs ++ events txid) =
        some ((restoreInputs (inputs.zip undos) state).view.coins txid) := by
  induction inputs generalizing view undos with
  | nil =>
    cases run
    exact ⟨related, trip⟩
  | cons txin rest ih =>
    obtain ⟨left, undo, later, spending, tail, rfl⟩ := spendInputs_cons run
    obtain ⟨below, trips⟩ := ih tail
    have back := alongside_trans below (alongside_setCoins view txin.prevout.hash left)
    have split : restoreInputs ((txin :: rest).zip (undo :: later)) state =
        restoreInput txin undo (restoreInputs (rest.zip later) state) := rfl
    rw [split, view_restoreInput]
    refine ⟨alongside_trans (alongside_setCoins _ _ _) back, fun txid => ?_⟩
    have inner := trips txid
    rw [tripAt, isFresh_setCoins, coins_setCoins] at inner
    change coinsTrip (isFresh view txid) (fallback view txid) _ _ = _ at inner
    rw [coins_setCoins, back.fresh, alongside_fallback back]
    by_cases same : txin.prevout.hash = txid
    · subst same
      rw [if_pos rfl] at inner ⊢
      simp [tripAt, inputEvents, coinsTrip, spending]
      exact ⟨_, inner, rfl⟩
    · rw [if_neg (Ne.symm same)] at inner ⊢
      simpa [tripAt, inputEvents, same] using inner

/-- The zerocoin part of a transaction can be taken back: its spends parse and its
    mints have the amount of a denomination. -/
structure ZerocoinUndoable (zerocoin : ZerocoinLibrary) (tx : CTransaction) : Prop where
  spends : tx.isZerocoinSpend = true → ∀ txin ∈ tx.vin,
    CScript.isZerocoinSpend txin.scriptSig = true → zerocoin.txInToZerocoinSpend txin ≠ none
  mints : tx.isZerocoinMint = true → ∀ txout ∈ tx.vout,
    CScript.isZerocoinMint txout.scriptPubKey = true → txOutToPublicCoin zerocoin txout ≠ none

theorem eraseSpends_completes (zerocoin : ZerocoinLibrary) (inputs : List CTxIn)
    (db : CZerocoinDB) :
    (eraseSpends zerocoin inputs db).2 = none ↔ ∀ txin ∈ inputs,
      CScript.isZerocoinSpend txin.scriptSig = true → zerocoin.txInToZerocoinSpend txin ≠ none := by
  induction inputs generalizing db with
  | nil => simp [eraseSpends]
  | cons txin rest ih =>
    simp only [eraseSpends, List.forall_mem_cons]
    cases marked : CScript.isZerocoinSpend txin.scriptSig with
    | false => simp [ih]
    | true => cases zerocoin.txInToZerocoinSpend txin <;> simp [ih]

theorem eraseMints_completes (zerocoin : ZerocoinLibrary) (outputs : List CTxOut)
    (db : CZerocoinDB) :
    (eraseMints zerocoin outputs db).2 = none ↔ ∀ txout ∈ outputs,
      CScript.isZerocoinMint txout.scriptPubKey = true → txOutToPublicCoin zerocoin txout ≠ none := by
  induction outputs generalizing db with
  | nil => simp [eraseMints]
  | cons txout rest ih =>
    simp only [eraseMints, List.forall_mem_cons]
    cases marked : CScript.isZerocoinMint txout.scriptPubKey with
    | false => simp [ih]
    | true => cases txOutToPublicCoin zerocoin txout <;> simp [ih]

theorem undoZerocoin_completes (zerocoin : ZerocoinLibrary) (tx : CTransaction)
    (db : CZerocoinDB) :
    (undoZerocoin zerocoin tx db).2 = none ↔ ZerocoinUndoable zerocoin tx := by
  have spends := eraseSpends_completes zerocoin (if tx.isZerocoinSpend then tx.vin else []) db
  simp only [undoZerocoin]
  rcases erased : eraseSpends zerocoin (if tx.isZerocoinSpend then tx.vin else []) db with
    ⟨db', _ | failure⟩ <;> rw [erased] at spends
  · simp only [eraseMints_completes]
    constructor
    · intro mints
      refine ⟨fun kind => ?_, fun kind => ?_⟩
      · simpa [kind] using spends.mp rfl
      · simpa [kind] using mints
    · intro undoable txout member
      split at member
      · rename_i kind
        exact undoable.mints kind txout member
      · cases member
  · refine ⟨nofun, fun undoable => spends.mpr fun txin member => ?_⟩
    split at member
    · rename_i kind
      exact undoable.spends kind txin member
    · cases member

theorem disconnectTx_trip {undo : CTxUndo}
    (run : updateCoins txHash nHeight tx view = some (applied, undo))
    (recorded : spendsInputs tx = true → txundo = some undo)
    (undoable : ZerocoinUndoable zerocoin tx) {state : DisconnectState}
    (related : Alongside state.view applied)
    (trip : ∀ txid, tripAt applied txid (events txid) = some (state.view.coins txid)) :
    ∃ final, disconnectTx zerocoin txHash nHeight tx txundo state = (final, none) ∧
      Alongside final.view view ∧
      ∀ txid, tripAt view txid (inputEvents txid (inputsSpent tx) ++
        ((if txHash tx = txid then [.create (CCoins.fromTx tx nHeight)] else []) ++ events txid)) =
          some (final.view.coins txid) := by
  simp only [updateCoins, Option.map_eq_some_iff, Prod.mk.injEq] at run
  obtain ⟨⟨spent, undos⟩, spending, rfl, rfl⟩ := run
  obtain ⟨spentRelated, lengths⟩ := spendInputs_alongside spending
  have erased := (undoZerocoin_completes zerocoin tx state.zerocoinDB).mpr undoable
  rcases zerocoinRun : undoZerocoin zerocoin tx state.zerocoinDB with ⟨db, failed⟩
  rw [zerocoinRun] at erased
  cases erased
  have removedView : (removeOutputs txHash nHeight tx { state with zerocoinDB := db }).view =
      state.view.setCoins (txHash tx) CCoins.empty := rfl
  have removedRelated :
      Alongside (removeOutputs txHash nHeight tx { state with zerocoinDB := db }).view spent := by
    exact alongside_trans (alongside_setCoins _ _ _)
      (alongside_trans related (alongside_setCoins _ _ _))
  have removedTrip : ∀ txid, tripAt spent txid
      ((if txHash tx = txid then [.create (CCoins.fromTx tx nHeight)] else []) ++ events txid) =
      some ((removeOutputs txHash nHeight tx { state with zerocoinDB := db }).view.coins txid) := by
    intro txid
    have inner := trip txid
    have back := alongside_trans related (alongside_setCoins spent _ _)
    rw [tripAt, isFresh_setCoins, coins_setCoins] at inner
    change coinsTrip (isFresh spent txid) (fallback spent txid) _ _ = _ at inner
    rw [removedView, coins_setCoins, back.fresh, alongside_fallback back]
    by_cases same : txHash tx = txid
    · subst same
      rw [if_pos rfl] at inner
      simp [tripAt, coinsTrip, inner]
    · rw [if_neg (Ne.symm same)] at inner
      simpa [tripAt, same, Ne.symm same] using inner
  cases spends : spendsInputs tx with
  | false =>
    refine ⟨removeOutputs txHash nHeight tx { state with zerocoinDB := db },
      by simp [disconnectTx, zerocoinRun, spends], ?_⟩
    simp only [spends, Bool.false_eq_true, if_false, spendInputs] at spending
    cases spending
    refine ⟨removedRelated, ?_⟩
    simpa [inputsSpent, spends, inputEvents] using removedTrip
  | true =>
    refine ⟨restoreInputs (tx.vin.zip undos) (removeOutputs txHash nHeight tx
      { state with zerocoinDB := db }),
      by simp [disconnectTx, zerocoinRun, spends, recorded spends, lengths], ?_⟩
    simpa [inputsSpent, spends] using restoreInputs_trip spending removedRelated removedTrip

theorem applyTxs_length {undos : List CTxUndo}
    (run : applyTxs txHash nHeight txs view = some (applied, undos)) :
    undos.length = txs.length := by
  induction txs generalizing view undos with
  | nil =>
    cases run
    rfl
  | cons tx rest ih =>
    obtain ⟨updated, undo, later, _, tail, rfl⟩ := applyTxs_cons run
    simp [ih tail]

theorem disconnectTxs_trip {undos : List CTxUndo}
    (run : applyTxs txHash nHeight txs view = some (applied, undos))
    (undoable : ∀ tx ∈ txs, ZerocoinUndoable zerocoin tx) (state : DisconnectState)
    (related : Alongside state.view applied)
    (unchanged : ∀ txid, state.view.coins txid = applied.coins txid) :
    ∃ final, disconnectTxs zerocoin txHash nHeight (txs.zip (undos.map some)) state =
        (final, none) ∧
      Alongside final.view view ∧
      ∀ txid, tripAt view txid (blockEvents txHash nHeight txid txs) =
        some (final.view.coins txid) := by
  induction txs generalizing view undos with
  | nil =>
    cases run
    refine ⟨state, rfl, related, fun txid => ?_⟩
    rw [unchanged]
    rfl
  | cons tx rest ih =>
    obtain ⟨next, undo, later, first, tail, rfl⟩ := applyTxs_cons run
    obtain ⟨laterState, disconnected, laterRelated, trips⟩ :=
      ih tail (fun other member => undoable other (List.mem_cons_of_mem _ member))
    obtain ⟨result, here, kept⟩ := disconnectTx_trip txHash nHeight first (fun _ => rfl)
      (undoable tx List.mem_cons_self) laterRelated trips
    exact ⟨result, by simp [disconnectTxs, disconnected, here], kept⟩

theorem disconnectTx_completes
    (run : disconnectTx zerocoin txHash nHeight tx txundo state = (final, none)) :
    ZerocoinUndoable zerocoin tx ∧ (spendsInputs tx = true → txundo ≠ none) := by
  simp only [disconnectTx] at run
  rcases erased : undoZerocoin zerocoin tx state.zerocoinDB with ⟨db, _ | failure⟩
  · refine ⟨(undoZerocoin_completes zerocoin tx state.zerocoinDB).mp (by rw [erased]), ?_⟩
    rintro spends rfl
    simp [erased, spends] at run
  · simp [erased] at run

theorem disconnectTxs_completes {pairs : List (CTransaction × Option CTxUndo)}
    (run : disconnectTxs zerocoin txHash nHeight pairs state = (final, none)) :
    ∀ pair ∈ pairs, ZerocoinUndoable zerocoin pair.1 ∧
      (spendsInputs pair.1 = true → pair.2 ≠ none) := by
  induction pairs generalizing final with
  | nil => simp
  | cons pair rest ih =>
    simp only [disconnectTxs] at run
    rcases tail : disconnectTxs zerocoin txHash nHeight rest state with ⟨later, _ | failure⟩
    · simp only [tail] at run
      exact List.forall_mem_cons.mpr ⟨disconnectTx_completes txHash nHeight run, ih tail⟩
    · simp [tail] at run

/-- One transaction's coins survive the round trip: it is not created again over unspent outputs,
    and once fully spent its metadata is what comes back. -/
structure Restorable (view : UtxoView) (txid : Uint256) (events : List CoinEvent) : Prop where
  overwritten : created events = true → FullySpent (view.coins txid) events
  stake : FullySpent (view.coins txid) events → (view.coins txid).nHeight ≠ 0 →
    (view.coins txid).fCoinStake = false
  heightless : FullySpent (view.coins txid) events → (view.coins txid).nHeight = 0 →
    CCoins.SameMetadata
      (readBack (isFresh view txid) (fallback view txid) (created events) (view.coins txid))
      (view.coins txid)

structure RoundTrips (zerocoin : ZerocoinLibrary) (view : UtxoView) (vtx : List CTransaction) :
    Prop where
  first : ∃ tx rest, vtx = tx :: rest ∧ spendsInputs tx = false
  zerocoin : ∀ tx ∈ vtx, ZerocoinUndoable zerocoin tx
  coins : ∀ txid, (view.coins txid).isPruned = false →
    Restorable view txid (blockEvents txHash nHeight txid vtx)

/-- The same unspent outputs everywhere, and the same metadata wherever there are any. -/
def Restores (before after : UtxoView) : Prop :=
  ∀ txid, (∀ n, (after.coins txid).output n = (before.coins txid).output n) ∧
    ((before.coins txid).isPruned = false →
      CCoins.SameMetadata (after.coins txid) (before.coins txid))

theorem restoredMetadata_same (fresh : Bool) (below : CCoins) (recreated : Bool) (coins : CCoins) :
    CCoins.SameMetadata (restoredMetadata fresh below recreated coins) coins ↔
      (coins.nHeight ≠ 0 → coins.fCoinStake = false) ∧
        (coins.nHeight = 0 → CCoins.SameMetadata (readBack fresh below recreated coins) coins) := by
  simp only [restoredMetadata]
  by_cases height : coins.nHeight = 0
  · simp [height]
  · simp only [ne_eq, height, not_false_eq_true, if_true, forall_const, false_implies, and_true]
    exact ⟨fun same => same.2.1.symm, fun unstaked => ⟨rfl, unstaked.symm, rfl, rfl⟩⟩

theorem trip_restores_iff {view : UtxoView} {txid : Uint256} {events : List CoinEvent}
    {final : CCoins} (trip : tripAt view txid events = some final) :
    ((∀ n, final.output n = (view.coins txid).output n) ∧
      ((view.coins txid).isPruned = false → CCoins.SameMetadata final (view.coins txid))) ↔
    ((view.coins txid).isPruned = false → Restorable view txid events) := by
  have sound := isFresh_sound view txid
  have outputs := coinsTrip_output sound trip
  cases pruned : (view.coins txid).isPruned with
  | true =>
    refine iff_of_true ⟨fun n => ?_, nofun⟩ nofun
    rw [outputs, (CCoins.isPruned_iff_output _).mp pruned n]
    split <;> rfl
  | false =>
    obtain ⟨whenFull, whenPartly⟩ := coinsTrip_metadata sound pruned trip
    simp only [forall_const]
    constructor
    · rintro ⟨same, metadata⟩
      have whole : FullySpent (view.coins txid) events →
          CCoins.SameMetadata (restoredMetadata (isFresh view txid) (fallback view txid)
            (created events) (view.coins txid)) (view.coins txid) := fun full =>
        CCoins.sameMetadata_trans (CCoins.sameMetadata_symm (whenFull full)) metadata
      refine ⟨fun recreated n available => ?_, fun full => ?_, fun full => ?_⟩
      · have back := same n
        rw [outputs] at back
        by_contra unspent
        rw [if_neg (by simp [unspent, recreated])] at back
        exact available back.symm
      · exact ((restoredMetadata_same _ _ _ _).mp (whole full)).1
      · exact ((restoredMetadata_same _ _ _ _).mp (whole full)).2
    · intro restorable
      refine ⟨fun n => ?_, ?_⟩
      · rw [outputs]
        split
        · rfl
        · rename_i lost
          by_contra available
          simp only [not_or, Bool.not_eq_false] at lost
          exact lost.1 (restorable.overwritten lost.2 n (Ne.symm available))
      · by_cases full : FullySpent (view.coins txid) events
        · exact CCoins.sameMetadata_trans (whenFull full)
            ((restoredMetadata_same _ _ _ _).mpr ⟨restorable.stake full, restorable.heightless full⟩)
        · refine whenPartly full ?_
          by_contra recreated
          exact full (restorable.overwritten (by simpa using recreated))

theorem restores_iff {before after : UtxoView} {vtx : List CTransaction}
    (trips : ∀ txid, tripAt before txid (blockEvents txHash nHeight txid vtx) =
      some (after.coins txid)) :
    Restores before after ↔ ∀ txid, (before.coins txid).isPruned = false →
      Restorable before txid (blockEvents txHash nHeight txid vtx) :=
  forall_congr' fun txid => trip_restores_iff (trips txid)

section Block
variable {txHash : CTransaction → Uint256}
variable {zerocoin : ZerocoinLibrary} {block : CBlock} {target : DisconnectTarget}
  {view applied : UtxoView} {undo : CBlockUndo} {zerocoinDB : CZerocoinDB}

theorem disconnectBlock_of_loop (named : target.blockHash ≠ 0) (stored : target.hasUndoPos = true)
    (sizes : undo.vtxundo.length + 1 = block.vtx.length) {later : DisconnectState}
    (loop : disconnectTxs zerocoin txHash target.nHeight
      (block.vtx.zip (none :: undo.vtxundo.map some))
      ⟨applied.setBestBlock target.blockHash, zerocoinDB, true⟩ = (later, none)) :
    ∃ final, disconnectBlock zerocoin txHash block target (some undo)
        (applied.setBestBlock target.blockHash) zerocoinDB = (final, none) ∧
      final.view = later.view.setBestBlock target.prevHash := by
  have best : (applied.setBestBlock target.blockHash).getBestBlock = target.blockHash := by
    rw [UtxoView.getBestBlock, if_neg (show (applied.setBestBlock target.blockHash).hashBlock ≠ 0
      from named)]
    rfl
  simp only [disconnectBlock, best, ne_eq, not_true_eq_false, if_false, stored, Bool.not_true,
    Bool.false_eq_true, sizes, loop]
  split
  · exact ⟨_, rfl, rfl⟩
  · exact ⟨_, rfl, rfl⟩

theorem disconnectBlock_completes {final : DisconnectState} {start : UtxoView}
    (run : disconnectBlock zerocoin txHash block target (some undo) start zerocoinDB =
      (final, none)) :
    undo.vtxundo.length + 1 = block.vtx.length ∧
      ∃ later, disconnectTxs zerocoin txHash target.nHeight
        (block.vtx.zip (none :: undo.vtxundo.map some)) ⟨start, zerocoinDB, true⟩ =
          (later, none) := by
  simp only [disconnectBlock] at run
  split at run
  · cases run
  · split at run
    · cases run
    · split at run
      · cases run
      · rename_i sizes
        refine ⟨by simpa using sizes, ?_⟩
        rcases loop : disconnectTxs zerocoin txHash target.nHeight
          (block.vtx.zip (none :: undo.vtxundo.map some)) ⟨start, zerocoinDB, true⟩ with
          ⟨later, _ | failure⟩
        · exact ⟨later, rfl⟩
        · simp [loop] at run

theorem disconnectBlock_runs (named : target.blockHash ≠ 0) (stored : target.hasUndoPos = true)
    (run : applyBlock txHash target.nHeight block view = some (applied, undo))
    (first : ∃ tx rest, block.vtx = tx :: rest ∧ spendsInputs tx = false)
    (undoable : ∀ tx ∈ block.vtx, ZerocoinUndoable zerocoin tx) :
    ∃ final, disconnectBlock zerocoin txHash block target (some undo)
        (applied.setBestBlock target.blockHash) zerocoinDB = (final, none) ∧
      ∀ txid, tripAt view txid (blockEvents txHash target.nHeight txid block.vtx) =
        some (final.view.coins txid) := by
  obtain ⟨tx, rest, shape, spendless⟩ := first
  simp only [applyBlock, Option.map_eq_some_iff, Prod.mk.injEq, shape, applyTxs] at run
  obtain ⟨⟨last, undos⟩, txs, rfl, rfl⟩ := run
  cases head : updateCoins txHash target.nHeight tx view with
  | none => simp [head] at txs
  | some result =>
    simp only [head, Option.map_eq_some_iff, Prod.mk.injEq] at txs
    obtain ⟨⟨last, later⟩, tail, rfl, rfl⟩ := txs
    rw [shape] at undoable
    obtain ⟨tailState, tailRun, tailRelated, tailTrips⟩ := disconnectTxs_trip txHash target.nHeight
      tail (fun other member => undoable other (List.mem_cons_of_mem _ member))
      ⟨last.setBestBlock target.blockHash, zerocoinDB, true⟩ ⟨rfl, fun _ => rfl⟩ (fun _ => rfl)
    obtain ⟨headState, headRun, _, trips⟩ := disconnectTx_trip txHash target.nHeight head
      (fun spends => by simp [spendless] at spends) (undoable tx List.mem_cons_self)
      tailRelated tailTrips
    have loop : disconnectTxs zerocoin txHash target.nHeight
        (block.vtx.zip (none :: later.map some))
        ⟨last.setBestBlock target.blockHash, zerocoinDB, true⟩ = (headState, none) := by
      rw [shape, List.zip_cons_cons, disconnectTxs, tailRun]
      exact headRun
    have sizes : (CBlockUndo.mk later).vtxundo.length + 1 = block.vtx.length := by
      rw [shape, applyTxs_length txHash target.nHeight tail]
      rfl
    obtain ⟨final, completed, moved⟩ := disconnectBlock_of_loop named stored sizes loop
    refine ⟨final, completed, fun txid => ?_⟩
    rw [moved, shape]
    exact trips txid

end Block

def txOf (inputs : List COutPoint) (outs : List CTxOut) : CTransaction :=
  ⟨1, inputs.map fun input => ⟨input, [], 0⟩, outs, 0⟩

def plainOut (nValue : Int) : CTxOut := ⟨nValue, [], -10⟩

def coinbaseTx : CTransaction := txOf [COutPoint.null] [plainOut 0]

def stakeCoins : CCoins := ⟨false, true, [plainOut 0, plainOut 50], 5, 1⟩

def spendStakeTx : CTransaction := txOf [⟨7, 0⟩, ⟨7, 1⟩] [plainOut 50]

def viewOf (coins : CCoins) : UtxoView :=
  ⟨∅, 0, fun txid => if txid = 7 then some coins else none, 0, by simp⟩

def blockOf (vtx : List CTransaction) : CBlock := ⟨⟨4, 0, 0, 0, 0, 0, 0⟩, vtx, []⟩

def targetAt (nHeight : Int32) : DisconnectTarget := ⟨9, 8, nHeight, true, 0, 0, false⟩

def noZerocoin : ZerocoinLibrary := ⟨fun _ => none, fun _ => 0⟩

def hashByValue (tx : CTransaction) : Uint256 :=
  BitVec.ofNat 256 (100 + (tx.vout.map fun out => out.nValue.toNat).sum)

def stakeBlock : CBlock := blockOf [coinbaseTx, spendStakeTx]

end OxidBlockRoundTrip
