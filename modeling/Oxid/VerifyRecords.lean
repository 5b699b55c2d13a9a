import Oxid.VerifyDB

/-!
What `VerifyDB` does to the records of spent serials and of mints. Disconnecting a block
erases those of its spends and mints, connecting it again writes those of its spends and no
others.
-/
namespace OxidVerifyRecords
open OxidPrimitives OxidCoins OxidUtxoView OxidDisconnectBlock OxidZerocoin OxidChainParams
open OxidNode OxidConnectBlock OxidConnectedBlock OxidConnectWrites OxidChainRun OxidReconnect
open OxidVerifyDB Attempt Patches

structure Erasure where
  serials : List Int
  mints : List Int

namespace Erasure

def none : Erasure := ⟨[], []⟩

def append (first second : Erasure) : Erasure :=
  ⟨first.serials ++ second.serials, first.mints ++ second.mints⟩

def Within (part whole : Erasure) : Prop :=
  part.serials ⊆ whole.serials ∧ part.mints ⊆ whole.mints

theorem within_refl (part : Erasure) : part.Within part := ⟨List.Subset.refl _, List.Subset.refl _⟩

theorem within_trans {a b c : Erasure} (left : a.Within b) (right : b.Within c) : a.Within c :=
  ⟨List.Subset.trans left.1 right.1, List.Subset.trans left.2 right.2⟩

theorem none_within (whole : Erasure) : none.Within whole :=
  ⟨List.nil_subset _, List.nil_subset _⟩

theorem append_within {first second whole : Erasure} (left : first.Within whole)
    (right : second.Within whole) : (first.append second).Within whole :=
  ⟨List.append_subset.mpr ⟨left.1, right.1⟩, List.append_subset.mpr ⟨left.2, right.2⟩⟩

theorem within_left (first second : Erasure) : first.Within (first.append second) :=
  ⟨List.subset_append_left _ _, List.subset_append_left _ _⟩

theorem within_right (first second : Erasure) : second.Within (first.append second) :=
  ⟨List.subset_append_right _ _, List.subset_append_right _ _⟩

end Erasure

/-- The records after an erasure. Accumulator values are not among them. -/
structure Erased (erasure : Erasure) (before after : CZerocoinDB) : Prop where
  coinSpends : after.coinSpends = (erasing erasure.serials).apply before.coinSpends
  coinMints : after.coinMints = (erasing erasure.mints).apply before.coinMints

theorem nothing_erased (db : CZerocoinDB) : Erased Erasure.none db db :=
  ⟨(erasing_nil _).symm, (erasing_nil _).symm⟩

theorem erased_append {first second : Erasure} {a b c : CZerocoinDB} (left : Erased first a b)
    (right : Erased second b c) : Erased (first.append second) a c := by
  constructor
  · rw [right.coinSpends, left.coinSpends]
    exact (erasing_append _ _ _).symm
  · rw [right.coinMints, left.coinMints]
    exact (erasing_append _ _ _).symm

/-- A step that may fail erases some of what it is to erase, and all of it when
    it does not fail. -/
def Erases {Failed : Type} (whole : Erasure) (before after : CZerocoinDB)
    (failure : Option Failed) : Prop :=
  ∃ taken : Erasure, Erased taken before after ∧ taken.Within whole ∧
    (failure = none → taken = whole)

section Erasing
variable {Failed : Type} {first second : Erasure} {a b c : CZerocoinDB} {failure : Option Failed}

theorem erases_then (left : Erases first a b (none : Option Failed))
    (right : Erases second b c failure) : Erases (first.append second) a c failure := by
  obtain ⟨taken, erased, _, all⟩ := left
  obtain ⟨later, erasedLater, within, allLater⟩ := right
  have complete := all rfl
  subst complete
  refine ⟨taken.append later, erased_append erased erasedLater, ?_, ?_⟩
  · exact Erasure.append_within (Erasure.within_left _ _)
      (Erasure.within_trans within (Erasure.within_right _ _))
  · intro ended
    rw [allLater ended]

theorem erases_stops {failed : Failed} (left : Erases first a b (some failed)) :
    Erases (first.append second) a b (some failed) := by
  obtain ⟨taken, erased, within, _⟩ := left
  exact ⟨taken, erased, Erasure.within_trans within (Erasure.within_left _ _), nofun⟩

theorem erases_nothing (whole : Erasure) (db : CZerocoinDB) (failed : Failed) :
    Erases whole db db (some failed) :=
  ⟨Erasure.none, nothing_erased db, Erasure.none_within whole, nofun⟩

theorem erases_none (db : CZerocoinDB) : Erases Erasure.none db db (none : Option Failed) :=
  ⟨Erasure.none, nothing_erased db, Erasure.within_refl _, fun _ => rfl⟩

end Erasing

section Disconnect
variable (zerocoin : ZerocoinLibrary)

def spentSerials (vin : List CTxIn) : List Int :=
  ((vin.filter fun txin => CScript.isZerocoinSpend txin.scriptSig).filterMap
    zerocoin.txInToZerocoinSpend).map CoinSpend.coinSerialNumber

def mintValues (vout : List CTxOut) : List Int :=
  ((vout.filter fun txout => CScript.isZerocoinMint txout.scriptPubKey).filterMap
    (txOutToPublicCoin zerocoin)).map PublicCoin.value

def txErasure (tx : CTransaction) : Erasure where
  serials := spentSerials zerocoin (if tx.isZerocoinSpend then tx.vin else [])
  mints := mintValues zerocoin (if tx.isZerocoinMint then tx.vout else [])

def txsErasure : List CTransaction → Erasure
  | [] => Erasure.none
  | tx :: rest => (txsErasure rest).append (txErasure zerocoin tx)

theorem eraseSpends_erases (vin : List CTxIn) (db : CZerocoinDB) :
    Erases ⟨spentSerials zerocoin vin, []⟩ db (eraseSpends zerocoin vin db).1
      (eraseSpends zerocoin vin db).2 := by
  induction vin generalizing db with
  | nil => exact erases_none db
  | cons txin rest ih =>
    simp only [eraseSpends]
    split
    · rename_i marked
      split
      · exact erases_nothing _ db _
      · rename_i spend parsed
        have listed : spentSerials zerocoin (txin :: rest) =
            [spend.coinSerialNumber] ++ spentSerials zerocoin rest := by
          simp [spentSerials, marked, parsed]
        have one : Erases ⟨[spend.coinSerialNumber], []⟩ db
            (db.eraseCoinSpend spend.coinSerialNumber) (none : Option DisconnectFailure) :=
          ⟨⟨[spend.coinSerialNumber], []⟩, ⟨(erasing_one _ _).symm, (erasing_nil _).symm⟩,
            Erasure.within_refl _, fun _ => rfl⟩
        rw [listed]
        exact erases_then one (ih _)
    · rename_i plain
      have listed : spentSerials zerocoin (txin :: rest) = spentSerials zerocoin rest := by
        simp [spentSerials, plain]
      rw [listed]
      exact ih db

theorem eraseMints_erases (vout : List CTxOut) (db : CZerocoinDB) :
    Erases ⟨[], mintValues zerocoin vout⟩ db (eraseMints zerocoin vout db).1
      (eraseMints zerocoin vout db).2 := by
  induction vout generalizing db with
  | nil => exact erases_none db
  | cons txout rest ih =>
    simp only [eraseMints]
    split
    · rename_i marked
      split
      · exact erases_nothing _ db _
      · rename_i pubCoin parsed
        have listed : mintValues zerocoin (txout :: rest) =
            [pubCoin.value] ++ mintValues zerocoin rest := by
          simp [mintValues, marked, parsed]
        have one : Erases ⟨[], [pubCoin.value]⟩ db
            (db.eraseCoinMint pubCoin.value) (none : Option DisconnectFailure) :=
          ⟨⟨[], [pubCoin.value]⟩, ⟨(erasing_nil _).symm, (erasing_one _ _).symm⟩,
            Erasure.within_refl _, fun _ => rfl⟩
        rw [listed]
        exact erases_then one (ih _)
    · rename_i plain
      have listed : mintValues zerocoin (txout :: rest) = mintValues zerocoin rest := by
        simp [mintValues, plain]
      rw [listed]
      exact ih db

theorem undoZerocoin_erases (tx : CTransaction) (db : CZerocoinDB) :
    Erases (txErasure zerocoin tx) db (undoZerocoin zerocoin tx db).1
      (undoZerocoin zerocoin tx db).2 := by
  have spends := eraseSpends_erases zerocoin (if tx.isZerocoinSpend then tx.vin else []) db
  have parts : txErasure zerocoin tx =
      Erasure.append ⟨(txErasure zerocoin tx).serials, []⟩ ⟨[], (txErasure zerocoin tx).mints⟩ := by
    simp [Erasure.append]
  rw [parts]
  unfold undoZerocoin
  split
  · rename_i erased failure ended
    rw [ended] at spends
    exact erases_stops spends
  · rename_i erased ended
    rw [ended] at spends
    exact erases_then spends (eraseMints_erases zerocoin _ erased)

variable {zerocoin} (txHash : CTransaction → Uint256) (nHeight : Int32)

theorem restoreInputs_records (inputs : List (CTxIn × CTxInUndo)) (state : DisconnectState) :
    (restoreInputs inputs state).zerocoinDB = state.zerocoinDB := by
  induction inputs with
  | nil => rfl
  | cons first rest ih => exact ih

theorem disconnectTx_erases (tx : CTransaction) (txundo : Option CTxUndo)
    (state : DisconnectState) :
    Erases (txErasure zerocoin tx) state.zerocoinDB
      (disconnectTx zerocoin txHash nHeight tx txundo state).1.zerocoinDB
      (disconnectTx zerocoin txHash nHeight tx txundo state).2 := by
  have undone := undoZerocoin_erases zerocoin tx state.zerocoinDB
  have failed : ∀ {db : CZerocoinDB} (failure : DisconnectFailure),
      Erases (txErasure zerocoin tx) state.zerocoinDB db (none : Option DisconnectFailure) →
      Erases (txErasure zerocoin tx) state.zerocoinDB db (some failure) := by
    rintro db failure ⟨taken, erased, within, _⟩
    exact ⟨taken, erased, within, nofun⟩
  unfold disconnectTx
  split
  · rename_i db failure ended
    rw [ended] at undone
    exact undone
  · rename_i db ended
    rw [ended] at undone
    split
    · split
      · exact failed _ undone
      · split
        · exact failed _ undone
        · dsimp only
          rw [restoreInputs_records]
          exact undone
    · exact undone

theorem disconnectTxs_erases (txs : List (CTransaction × Option CTxUndo))
    (state : DisconnectState) :
    Erases (txsErasure zerocoin (txs.map Prod.fst)) state.zerocoinDB
      (disconnectTxs zerocoin txHash nHeight txs state).1.zerocoinDB
      (disconnectTxs zerocoin txHash nHeight txs state).2 := by
  induction txs with
  | nil => exact erases_none _
  | cons first rest ih =>
    obtain ⟨tx, txundo⟩ := first
    simp only [disconnectTxs, List.map_cons, txsErasure]
    split
    · rename_i later failure ended
      rw [ended] at ih
      exact erases_stops ih
    · rename_i later ended
      rw [ended] at ih
      exact erases_then ih (disconnectTx_erases txHash nHeight tx txundo later)

theorem eraseAccumulatorValues_records (db : CZerocoinDB) (erase previous : Uint256) :
    (eraseAccumulatorValues db erase previous).coinSpends = db.coinSpends ∧
      (eraseAccumulatorValues db erase previous).coinMints = db.coinMints := by
  unfold eraseAccumulatorValues
  generalize zerocoinDenomList = denominations
  induction denominations generalizing db with
  | nil => exact ⟨rfl, rfl⟩
  | cons denomination rest ih =>
    simp only [List.foldl_cons]
    split
    · exact ih db
    · exact ih _

theorem disconnectBlock_erases (block : CBlock) (target : DisconnectTarget)
    (readUndo : Option CBlockUndo) (view : UtxoView) (db : CZerocoinDB) :
    Erases (txsErasure zerocoin block.vtx) db
      (disconnectBlock zerocoin txHash block target readUndo view db).1.zerocoinDB
      (disconnectBlock zerocoin txHash block target readUndo view db).2 := by
  unfold disconnectBlock
  dsimp only
  split
  · exact erases_nothing _ db _
  · split
    · exact erases_nothing _ db _
    · split
      · exact erases_nothing _ db _
      · rename_i blockUndo
        split
        · exact erases_nothing _ db _
        · rename_i sizes
          have lengths : block.vtx.length ≤ (none :: blockUndo.vtxundo.map some).length := by
            simp only [List.length_cons, List.length_map]
            omega
          have undone := @disconnectTxs_erases zerocoin txHash target.nHeight
            (block.vtx.zip (none :: blockUndo.vtxundo.map some)) ⟨view, db, true⟩
          rw [List.map_fst_zip lengths] at undone
          split
          · rename_i final failure ended
            rw [ended] at undone
            exact undone
          · rename_i final ended
            rw [ended] at undone
            split
            · obtain ⟨taken, erased, within, all⟩ := undone
              have kept := eraseAccumulatorValues_records final.zerocoinDB
                target.nAccumulatorCheckpoint target.prevAccumulatorCheckpoint
              refine ⟨taken, ⟨?_, ?_⟩, within, all⟩
              · rw [← erased.coinSpends]
                exact kept.1
              · rw [← erased.coinMints]
                exact kept.2
            · exact undone

end Disconnect

section Connect
variable (machinery : Machinery)

def txEntries (tx : CTransaction) : List (Int × Uint256) :=
  (txSpends machinery tx).map fun spend => (spend.coinSerialNumber, machinery.txHash tx)

def blockEntries (vtx : List CTransaction) : List (Int × Uint256) :=
  vtx.flatMap (txEntries machinery)

structure Written (entries : List (Int × Uint256)) (before after : CZerocoinDB) : Prop where
  coinSpends : after.coinSpends = (writing entries).apply before.coinSpends
  coinMints : after.coinMints = before.coinMints

theorem nothing_written (db : CZerocoinDB) : Written [] db db := ⟨rfl, rfl⟩

theorem written_append {first second : List (Int × Uint256)} {a b c : CZerocoinDB}
    (left : Written first a b) (right : Written second b c) : Written (first ++ second) a c := by
  constructor
  · rw [right.coinSpends, left.coinSpends]
    exact (writing_append _ _ _).symm
  · rw [right.coinMints, left.coinMints]

def WritesWithin (whole : List (Int × Uint256)) (before after : CZerocoinDB) : Prop :=
  ∃ written, written ⊆ whole ∧ Written written before after

theorem writesWithin_same (whole : List (Int × Uint256)) {before after : CZerocoinDB}
    (coinSpends : after.coinSpends = before.coinSpends)
    (coinMints : after.coinMints = before.coinMints) : WritesWithin whole before after :=
  ⟨[], List.nil_subset _, coinSpends, coinMints⟩

theorem writes_respected (call : ConnectCall) :
    Respects machinery call fun before after =>
      WritesWithin (blockEntries machinery call.block.vtx) before.zerocoinDB after.zerocoinDB := by
  constructor
  · constructor
    · constructor
      · exact fun _ => writesWithin_same _ rfl rfl
      · rintro a b c ⟨first, within, left⟩ ⟨second, withinToo, right⟩
        exact ⟨first ++ second, List.append_subset.mpr ⟨within, withinToo⟩,
          written_append left right⟩
      · intro tx member spend revealed state
        refine ⟨[(spend.coinSerialNumber, machinery.txHash tx)], ?_, ?_⟩
        · intro entry one
          rw [List.mem_singleton] at one
          subst one
          exact List.mem_flatMap.mpr ⟨tx, member, List.mem_map_of_mem revealed⟩
        · exact ⟨(writing_one _ _ _).symm, rfl⟩
      · exact fun _ _ => writesWithin_same _ rfl rfl
    · exact fun _ _ _ => writesWithin_same _ rfl rfl
    · exact fun _ _ => writesWithin_same _ rfl rfl
    · exact fun _ _ => writesWithin_same _ rfl rfl
    · exact fun _ _ => writesWithin_same _ rfl rfl
  · exact fun _ _ => writesWithin_same _ rfl rfl
  · exact fun _ _ => writesWithin_same _ rfl rfl
  · exact fun _ _ => writesWithin_same _ rfl rfl
  · exact fun _ => writesWithin_same _ rfl rfl

theorem recordSpends_written (txid : Uint256) (spends : List CoinSpend) (db : CZerocoinDB) :
    Written (spends.map fun spend => (spend.coinSerialNumber, txid)) db
      (recordSpends txid spends db) := by
  induction spends generalizing db with
  | nil => exact nothing_written db
  | cons spend rest ih =>
    have one : Written [(spend.coinSerialNumber, txid)] db
        (db.writeCoinSpend spend.coinSerialNumber txid) := ⟨(writing_one _ _ _).symm, rfl⟩
    exact written_append one (ih _)

theorem recordBlock_written (vtx : List CTransaction) (db : CZerocoinDB) :
    Written (blockEntries machinery vtx) db (recordBlock machinery vtx db) := by
  induction vtx generalizing db with
  | nil => exact nothing_written db
  | cons tx rest ih =>
    exact written_append (recordSpends_written (machinery.txHash tx) (txSpends machinery tx) db)
      (ih _)

variable {machinery} {node : Node} {call : ConnectCall} {state final : ConnectState}

theorem connectBlock_writes (state : ConnectState) :
    WritesWithin (blockEntries machinery call.block.vtx) state.zerocoinDB
      (endState (connectBlock machinery node call state)).zerocoinDB :=
  connectBlock_keeps (writes_respected machinery call) state

theorem connectBlock_writes_all
    (child : machinery.blockHash call.block.toCBlockHeader ≠ node.params.hashGenesisBlock)
    (completed : Completes (connectBlock machinery node call) state () final) :
    Written (blockEntries machinery call.block.vtx) state.zerocoinDB final.zerocoinDB := by
  obtain ⟨_, _, _, _, _, _, connected⟩ := connectBlock_connected child completed
  have recorded := recordBlock_written machinery call.block.vtx state.zerocoinDB
  constructor
  · rw [connected.coinSpends, recorded.coinSpends]
  · rw [connected.coinMints, recorded.coinMints]

end Connect

section Walks
variable {machinery : Machinery}

def roundsErasure (machinery : Machinery) : List VerifyRound → Erasure
  | [] => Erasure.none
  | round :: rest =>
    (roundsErasure machinery rest).append (txsErasure machinery.zerocoin round.block.vtx)

def roundsEntries (machinery : Machinery) (rounds : List VerifyRound) : List (Int × Uint256) :=
  rounds.flatMap fun round => blockEntries machinery round.block.vtx

theorem roundsErasure_append (first second : List VerifyRound) :
    roundsErasure machinery (first ++ second) =
      (roundsErasure machinery second).append (roundsErasure machinery first) := by
  induction first with
  | nil => simp [roundsErasure, Erasure.append, Erasure.none]
  | cons round rest ih => simp [roundsErasure, ih, Erasure.append]

structure WalkErases (machinery : Machinery) (rounds : List VerifyRound) (walking : Walking)
    (result : Walking × Option VerifyEnd) (disconnected : List VerifyRound) (taken : Erasure) :
    Prop where
  erased : Erased taken walking.state.zerocoinDB result.1.state.zerocoinDB
  above : result.1.above = disconnected ++ walking.above
  among : disconnected ⊆ rounds
  least : (roundsErasure machinery disconnected).Within taken
  most : taken.Within (roundsErasure machinery rounds)
  exactly : (∀ failure, result.2 ≠ some (.irrecoverable failure)) →
    taken = roundsErasure machinery disconnected

variable (call : VerifyCall machinery) {result : Walking × Option VerifyEnd}
variable {rounds more : List VerifyRound} {walking next : Walking}

theorem walk_stays {rounds : List VerifyRound} {ended : Option VerifyEnd}
    (state : next.state.zerocoinDB = walking.state.zerocoinDB) (above : next.above = walking.above)
    :
    WalkErases machinery rounds walking (next, ended) [] Erasure.none := by
  constructor
  · rw [state]
    exact nothing_erased _
  · exact above
  · exact List.nil_subset _
  · exact Erasure.within_refl _
  · exact Erasure.none_within _
  · exact fun _ => rfl

theorem disconnectRound_erases (round : VerifyRound) (walking : Walking) :
    (∃ disconnected taken, WalkErases machinery [round] walking
      (disconnectRound call round walking) disconnected taken) := by
  unfold disconnectRound
  split
  · have undone := @disconnectBlock_erases machinery.zerocoin machinery.txHash round.block
      (round.target call.node.fVerifyingBlocks) round.readUndo walking.state.view
      walking.state.zerocoinDB
    split
    rename_i ended failure outcome
    rw [outcome] at undone
    obtain ⟨taken, erased, within, all⟩ := undone
    have most : taken.Within (roundsErasure machinery [round]) :=
      Erasure.within_trans within (Erasure.within_right _ _)
    split
    · rename_i failed
      refine ⟨[], taken, erased, rfl, List.nil_subset _, Erasure.none_within _, most, ?_⟩
      intro fine
      exact absurd rfl (fine failed)
    · have whole : taken = roundsErasure machinery [round] := by
        rw [all rfl]
        simp [roundsErasure, Erasure.append, Erasure.none]
      subst whole
      exact ⟨[round], _, erased, rfl, List.Subset.refl _, Erasure.within_refl _,
        Erasure.within_refl _, fun _ => rfl⟩
  · exact ⟨[], Erasure.none, walk_stays rfl rfl⟩

theorem walk_mono {walking : Walking} {disconnected : List VerifyRound} {taken : Erasure}
    (walked : WalkErases machinery rounds walking result disconnected taken) :
    WalkErases machinery (rounds ++ more) walking result disconnected taken := by
  refine ⟨walked.erased, walked.above, ?_, walked.least, ?_, walked.exactly⟩
  · exact List.Subset.trans walked.among (List.subset_append_left _ _)
  · rw [roundsErasure_append]
    exact Erasure.within_trans walked.most (Erasure.within_right _ _)

theorem walk_then {first second : List VerifyRound} {taken later : Erasure}
    (left : WalkErases machinery rounds walking (next, none) first taken)
    (right : WalkErases machinery more next result second later) :
    WalkErases machinery (rounds ++ more) walking result (second ++ first)
      (taken.append later) := by
  have whole : taken = roundsErasure machinery first := left.exactly fun _ => nofun
  constructor
  · exact erased_append left.erased right.erased
  · rw [right.above, left.above, List.append_assoc]
  · apply List.append_subset.mpr
    exact ⟨List.Subset.trans right.among (List.subset_append_right _ _),
      List.Subset.trans left.among (List.subset_append_left _ _)⟩
  · rw [roundsErasure_append, ← whole]
    exact Erasure.append_within (Erasure.within_left _ _)
      (Erasure.within_trans right.least (Erasure.within_right _ _))
  · rw [roundsErasure_append]
    exact Erasure.append_within (Erasure.within_trans left.most (Erasure.within_right _ _))
      (Erasure.within_trans right.most (Erasure.within_left _ _))
  · intro fine
    rw [roundsErasure_append, ← whole, right.exactly fine]

theorem walk_erases (rounds : List VerifyRound) (walking : Walking) :
    ∃ disconnected taken,
      WalkErases machinery rounds walking (walk call rounds walking) disconnected taken := by
  induction rounds generalizing walking with
  | nil => exact ⟨[], Erasure.none, walk_stays rfl rfl⟩
  | cons round rest ih =>
    obtain ⟨first, taken, here⟩ := disconnectRound_erases call round walking
    simp only [walk]
    split
    · exact ⟨[], Erasure.none, walk_stays rfl rfl⟩
    · split
      · exact ⟨[], Erasure.none, walk_stays rfl rfl⟩
      · split
        · exact ⟨[], Erasure.none, walk_stays rfl rfl⟩
        · split
          · rename_i next ended outcome
            rw [outcome] at here
            exact ⟨first, taken, walk_mono here⟩
          · rename_i next outcome
            rw [outcome] at here
            split
            · obtain ⟨second, later, further⟩ : ∃ second later, WalkErases machinery rest next
                  (next, some .shutdown) second later := ⟨[], Erasure.none, walk_stays rfl rfl⟩
              exact ⟨_, _, walk_then here further⟩
            · obtain ⟨second, later, further⟩ := ih next
              exact ⟨_, _, walk_then here further⟩

theorem reconnect_writes {rounds : List VerifyRound} (among : rounds ⊆ call.rounds)
    (state : ConnectState) :
    ∃ written, written ⊆ roundsEntries machinery rounds ∧
      Written written state.zerocoinDB (reconnect call rounds state).1.zerocoinDB ∧
      ((reconnect call rounds state).2 = none → written = roundsEntries machinery rounds) := by
  induction rounds generalizing state with
  | nil => exact ⟨[], List.nil_subset _, nothing_written _, fun _ => rfl⟩
  | cons round rest ih =>
    simp only [reconnect]
    split
    · exact ⟨[], List.nil_subset _, nothing_written _, nofun⟩
    · split
      · exact ⟨[], List.nil_subset _, nothing_written _, nofun⟩
      · split
        · rename_i failure final ended
          obtain ⟨written, within, wrote⟩ := @connectBlock_writes machinery call.node
            round.connectCall (round.enter state)
          rw [ended] at wrote
          refine ⟨written, List.Subset.trans within ?_, wrote, nofun⟩
          exact List.subset_append_left _ _
        · rename_i result final ended
          have child := call.aboveGenesis round (among List.mem_cons_self)
          have wrote := @connectBlock_writes_all machinery call.node round.connectCall
            (round.enter state) final child ended
          have restAmong : rest ⊆ call.rounds := fun other inside =>
            among (List.mem_cons_of_mem round inside)
          obtain ⟨written, within, later, all⟩ := ih restAmong final
          refine ⟨_, ?_, written_append wrote later, ?_⟩
          · apply List.append_subset.mpr
            exact ⟨List.subset_append_left _ _,
              List.Subset.trans within (List.subset_append_right _ _)⟩
          · intro fine
            rw [all fine]
            rfl

end Walks

section Verify
variable {machinery : Machinery} (call : VerifyCall machinery)

structure Databases where
  coinsview : Uint256 → Option CCoins
  coinsviewBest : Uint256
  coinSpends : Int → Option Uint256
  coinMints : Int → Option Uint256

def databasesBefore : Databases :=
  ⟨call.coinsview, call.coinsviewBest, call.start.zerocoinDB.coinSpends,
    call.start.zerocoinDB.coinMints⟩

def databasesAfter : Databases :=
  { databasesBefore call with
    coinSpends := (verifyDB call).1.zerocoinDB.coinSpends
    coinMints := (verifyDB call).1.zerocoinDB.coinMints }

def disconnectedRounds : List VerifyRound := (walked call).1.above

/-- What the call erases and what it then writes: the records of the disconnected
    blocks, and those of the blocks it connects again. A block on which a disconnect
    or a connect fails counts for a part. -/
structure Touches (taken : Erasure) (written : List (Int × Uint256)) : Prop where
  least : (roundsErasure machinery (disconnectedRounds call)).Within taken
  most : taken.Within (roundsErasure machinery call.rounds)
  exactly : (∀ failure, (verifyDB call).2 ≠ some (.irrecoverable failure)) →
    taken = roundsErasure machinery (disconnectedRounds call)
  shallow : checkLevel call ≤ 2 → taken = Erasure.none
  among : written ⊆ roundsEntries machinery (disconnectedRounds call)
  unwritten : reconnects call = false → written = []
  rewritten : reconnects call = true → (verifyDB call).2 = none →
    written = roundsEntries machinery (disconnectedRounds call)

structure Restores (db : CZerocoinDB) (taken : Erasure) (written : List (Int × Uint256)) :
    Prop where
  mints : ∀ value ∈ taken.mints, db.coinMints value = none
  lost : ∀ serial ∈ taken.serials, writing written serial = none → db.coinSpends serial = none
  renewed : ∀ serial txid, writing written serial = some (some txid) →
    db.coinSpends serial = some txid

theorem patched_iff {before after : CZerocoinDB} {middle : CZerocoinDB} {taken : Erasure}
    {written : List (Int × Uint256)} (erased : Erased taken before middle)
    (wrote : Written written middle after) :
    after.coinSpends = before.coinSpends ∧ after.coinMints = before.coinMints ↔
      Restores before taken written := by
  rw [wrote.coinSpends, wrote.coinMints, erased.coinSpends, erased.coinMints,
    ← Patch.apply_atop, Patch.apply_eq_iff, Patch.apply_eq_iff]
  constructor
  · rintro ⟨spends, mints⟩
    constructor
    · intro value inside
      exact mints value none (by simp [erasing, inside])
    · intro serial inside unwritten
      exact spends serial none (by simp [Patch.atop, unwritten, erasing, inside])
    · intro serial txid last
      exact spends serial (some txid) (by simp [Patch.atop, last])
  · intro restores
    constructor
    · intro serial content told
      simp only [Patch.atop] at told
      cases last : writing written serial with
      | none =>
        rw [last, Option.none_or] at told
        simp only [erasing] at told
        split at told
        · rename_i inside
          cases told
          exact restores.lost serial inside last
        · cases told
      | some found =>
        obtain ⟨txid, same, _⟩ := writing_wrote last
        subst same
        rw [last, Option.some_or] at told
        cases told
        exact restores.renewed serial txid last
    · intro value content told
      simp only [erasing] at told
      split at told
      · rename_i inside
        cases told
        exact restores.mints value inside
      · cases told

theorem shallow_walk (rounds : List VerifyRound) (walking : Walking)
    (shallow : checkLevel call ≤ 2) :
    (walk call rounds walking).1.state = walking.state ∧
      (walk call rounds walking).1.above = walking.above ∧
      ∀ failure, (walk call rounds walking).2 ≠ some (.irrecoverable failure) := by
  induction rounds generalizing walking with
  | nil => exact ⟨rfl, rfl, fun _ => nofun⟩
  | cons round rest ih =>
    have idle : disconnectRound call round walking = ({ walking with atState := false }, none) := by
      have low : ¬ 3 ≤ checkLevel call := by omega
      simp [disconnectRound, disconnects, low]
    simp only [walk, idle]
    split
    · exact ⟨rfl, rfl, fun _ => nofun⟩
    · split
      · exact ⟨rfl, rfl, fun _ => nofun⟩
      · split
        · rename_i ended checked
          refine ⟨rfl, rfl, ?_⟩
          intro failure same
          simp only [checkRound] at checked
          cases same
          split at checked
          · cases checked
          · split at checked
            · cases checked
            · split at checked <;> cases checked
        · split
          · exact ⟨rfl, rfl, fun _ => nofun⟩
          · exact ih _

theorem idle_records (idle : reconnects call = false) :
    (verifyDB call).1.zerocoinDB = (walked call).1.state.zerocoinDB ∧
      ((walked call).2 = none ∨ (walked call).2 = (verifyDB call).2) := by
  unfold reconnects at idle
  unfold verifyDB
  split
  · rename_i walking ended outcome
    rw [outcome]
    exact ⟨rfl, .inr rfl⟩
  · rename_i walking outcome
    rw [outcome] at idle ⊢
    split
    · exact ⟨rfl, .inl rfl⟩
    · rename_i clean
      split
      · rename_i deep
        simp [clean, deep] at idle
      · exact ⟨rfl, .inl rfl⟩

theorem reconnecting_run (again : reconnects call = true) :
    (walked call).2 = none ∧
      verifyDB call = reconnect call (disconnectedRounds call) (walked call).1.state := by
  unfold reconnects at again
  unfold verifyDB disconnectedRounds
  simp only [Bool.and_eq_true, decide_eq_true_eq, Bool.not_eq_true', Option.isNone_iff_eq_none]
    at again
  obtain ⟨⟨deep, ended⟩, clean⟩ := again
  refine ⟨ended, ?_⟩
  split
  · rename_i outcome
    rw [outcome] at ended
    cases ended
  · rename_i walking outcome
    rw [outcome] at clean ⊢
    have passing : ¬ walking.failing = true := by
      intro failing
      rw [failing] at clean
      cases clean
    rw [if_neg passing, if_pos deep]

theorem walked_erases : ∃ taken, Erased taken call.start.zerocoinDB (walked call).1.state.zerocoinDB ∧
    disconnectedRounds call ⊆ call.rounds ∧
    (roundsErasure machinery (disconnectedRounds call)).Within taken ∧
    taken.Within (roundsErasure machinery call.rounds) ∧
    ((∀ failure, (walked call).2 ≠ some (.irrecoverable failure)) →
      taken = roundsErasure machinery (disconnectedRounds call)) ∧
    (checkLevel call ≤ 2 → taken = Erasure.none) := by
  obtain ⟨disconnected, taken, down⟩ := walk_erases call call.rounds
    ⟨{ call.start with view := scratchView call }, [], true, false⟩
  change WalkErases machinery call.rounds _ (walked call) disconnected taken at down
  have rounds : disconnectedRounds call = disconnected := by
    rw [disconnectedRounds, down.above, List.append_nil]
  rw [rounds]
  refine ⟨taken, down.erased, down.among, down.least, down.most, down.exactly, ?_⟩
  intro low
  obtain ⟨_, above, fine⟩ := shallow_walk call call.rounds
    ⟨{ call.start with view := scratchView call }, [], true, false⟩ low
  have none : disconnected = [] := by
    rw [← rounds]
    exact above
  rw [down.exactly fine, none]
  rfl

theorem verify_touches : ∃ taken written, Touches call taken written ∧
    ((verifyDB call).1.zerocoinDB.coinSpends = call.start.zerocoinDB.coinSpends ∧
        (verifyDB call).1.zerocoinDB.coinMints = call.start.zerocoinDB.coinMints ↔
      Restores call.start.zerocoinDB taken written) := by
  obtain ⟨taken, erased, among, least, most, exactly, shallow⟩ := walked_erases call
  cases again : reconnects call with
  | false =>
    obtain ⟨records, stopped⟩ := idle_records call again
    refine ⟨taken, [], ?_, ?_⟩
    · constructor
      · exact least
      · exact most
      · intro fine
        apply exactly
        rcases stopped with ended | ended
        · rw [ended]
          intro _ unfinished
          cases unfinished
        · rw [ended]
          exact fine
      · exact shallow
      · exact List.nil_subset _
      · exact fun _ => rfl
      · rw [again]
        intro impossible
        cases impossible
    · rw [records]
      exact patched_iff erased (nothing_written _)
  | true =>
    obtain ⟨ended, run⟩ := reconnecting_run call again
    obtain ⟨written, within, wrote, all⟩ := reconnect_writes call among (walked call).1.state
    rw [← run] at wrote all
    refine ⟨taken, written, ?_, ?_⟩
    · constructor
      · exact least
      · exact most
      · intro _
        apply exactly
        rw [ended]
        intro _ unfinished
        cases unfinished
      · exact shallow
      · exact within
      · rw [again]
        intro impossible
        cases impossible
      · intro _ fine
        exact all fine
    · exact patched_iff erased wrote

end Verify

def spendRound : VerifyRound where
  pindex := mintFinal.pindex
  parent := headerEntry labelMachinery []
  older := []
  block := mintBlock
  readUndo := mintFinal.undo
  interrupted := false
  readable := true
  withinCache := true
  shutdownRequested := false
  interruptedAgain := false
  readableAgain := true
  connectEnv := firstCall mintBlock

def levelThree : VerifyCall labelMachinery where
  node := { syncedNode with chainActive := [headerEntry labelMachinery [], mintFinal.pindex] }
  nCheckLevel := 3
  nCheckDepth := 6
  coinsview txid := some (mintFinal.view.coins txid)
  coinsviewBest := mintFinal.pindex.hash
  start := mintFinal
  rounds := [spendRound]
  aboveGenesis := by
    intro round inside
    rw [List.mem_singleton] at inside
    subst inside
    decide

end OxidVerifyRecords
