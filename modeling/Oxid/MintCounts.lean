import Oxid.SpentSerials

/-!
The two predicates that recognise a mint. The checks of a transaction ask the output, which
never says yes; the supply asks its script. What validates a mint is therefore never
reached.
-/
namespace OxidMintCounts
open OxidPrimitives OxidZerocoin OxidDisconnectBlock OxidUtxoView OxidChainParams OxidNode
open OxidConnectBlock OxidConnectedBlock OxidVerifyRecords
open OxidChainRun OxidReconnect OxidCoins
open Attempt Runs Patches

section Mints

variable (zerocoin : ZerocoinLibrary) (validate : PublicCoin → Bool)

def recordMintToDB (db : CZerocoinDB) (publicZerocoin : PublicCoin) (txHash : Uint256)
    (mintWritten : Bool) : Option CZerocoinDB :=
  match db.coinMints publicZerocoin.value with
  | some hashFromDB => if hashFromDB = txHash then some db else none
  | none => if mintWritten then some (db.writeCoinMint publicZerocoin txHash) else none

def checkZerocoinMint (db : CZerocoinDB) (txHash : Uint256) (txout : CTxOut)
    (fCheckOnly mintWritten : Bool) : Except Failure CZerocoinDB :=
  match txOutToPublicCoin zerocoin txout with
  | none => .error (Failure.ban.again 100 0 "" false)
  | some pubCoin => do
    require (validate pubCoin) .ban
    if fCheckOnly then .ok db
    else
      match recordMintToDB db pubCoin txHash mintWritten with
      | none => .error .ban
      | some recorded => .ok recorded

def checkMints (txHash : Uint256) (fZerocoinActive mintWritten : Bool) :
    List CTxOut → CZerocoinDB → Except Failure CZerocoinDB
  | [], db => .ok db
  | txout :: rest, db =>
    if fZerocoinActive && txout.isZerocoinMint then
      match checkZerocoinMint zerocoin validate db txHash txout false mintWritten with
      | .error failure => .error (failure.again 100 0 "" false)
      | .ok recorded => checkMints txHash fZerocoinActive mintWritten rest recorded
    else checkMints txHash fZerocoinActive mintWritten rest db

/-- A mint that `CheckZerocoinMint` lets pass, its coin on record. -/
structure MintValidated (db : CZerocoinDB) (txout : CTxOut) : Prop where
  isMint : CScript.isZerocoinMint txout.scriptPubKey = true
  accepted : ∃ pubCoin, txOutToPublicCoin zerocoin txout = some pubCoin ∧
    validate pubCoin = true ∧ (db.coinMints pubCoin.value).isSome = true

end Mints

section Counting

variable (machinery : Machinery) (node : Node)

/-- The outputs `BlockToZerocoinMintList` counts, of one transaction from an index on. -/
def countedOfOutputs (fFilterInvalid : Bool) (invalid : InvalidMaps) (txid : Uint256) :
    List CTxOut → Nat → List CTxOut × Bool
  | [], _ => ([], true)
  | txOut :: rest, i =>
    if fFilterInvalid &&
        !validOutPoint node.params invalid ⟨txid, UInt32.ofNat i⟩ INT_MAX then ([], true)
    else if CScript.isZerocoinMint txOut.scriptPubKey then
      match txOutToPublicCoin machinery.zerocoin txOut with
      | none => ([], false)
      | some _ =>
        let (counted, valid) := countedOfOutputs fFilterInvalid invalid txid rest (i + 1)
        (txOut :: counted, valid)
    else countedOfOutputs fFilterInvalid invalid txid rest (i + 1)

def countedOutputs (fFilterInvalid : Bool) (invalid : InvalidMaps) :
    List CTransaction → List CTxOut
  | [] => []
  | tx :: rest =>
    if !tx.isZerocoinMint || (fFilterInvalid && !tx.vin.all fun txin =>
        validOutPoint node.params invalid txin.prevout INT_MAX) then
      countedOutputs fFilterInvalid invalid rest
    else
      match countedOfOutputs machinery node fFilterInvalid invalid (machinery.txHash tx)
          tx.vout 0 with
      | (counted, false) => counted
      | (counted, true) => counted ++ countedOutputs fFilterInvalid invalid rest

end Counting

def countedMints (machinery : Machinery) (node : Node) (call : ConnectCall)
    (state : ConnectState) : List CTxOut :=
  countedOutputs machinery node (fFilterInvalid node state) state.invalid call.block.vtx

section Records

variable {machinery : Machinery} {params : ChainParams} {offered : Set CBlock}

/-- A start on empty databases and an index as its headers arrived. -/
structure FreshStart (machinery : Machinery) (s : ChainState) : Prop
    extends Start machinery s where
  coinMints : ∀ value, s.zerocoinDB.coinMints value = none
  zerocoinSupply : ∀ path denom, (s.entries path).mapZerocoinSupply denom = 0

def NoMintRecorded (s : ChainState) : Prop := ∀ value, s.zerocoinDB.coinMints value = none

variable {state final : ConnectState} {call : ConnectCall} {s : ChainState} {node : Node}
variable {block : CBlock}

theorem connectCall_coinMints (ended : endState (connectBlock machinery node call state) = final) :
    final.zerocoinDB.coinMints = state.zerocoinDB.coinMints := by
  obtain ⟨_, _, written⟩ := @connectBlock_writes machinery node call state
  rw [ended] at written
  exact written.coinMints

theorem noMintRecorded_step {s next : ChainState} (empty : NoMintRecorded s)
    (taken : Step machinery params offered s next) : NoMintRecorded next := by
  intro value
  cases taken with
  | @connect block node call state final _ connects =>
    have kept := connectCall_coinMints (endState_completed connects.completed)
    rw [connects.zerocoinDB] at kept
    exact (congrFun kept value).trans (empty value)
  | @refuse block node call state final _ refuses =>
    have kept := connectCall_coinMints refuses.ended
    rw [refuses.zerocoinDB] at kept
    exact (congrFun kept value).trans (empty value)
  | @disconnect block rest target view final disconnects =>
    obtain ⟨taken, erased, _⟩ := @disconnectBlock_erases machinery.zerocoin machinery.txHash
      block target (s.undo (block :: rest)) view s.zerocoinDB
    rw [disconnects.completed] at erased
    change final.zerocoinDB.coinMints value = none
    rw [erased.coinMints]
    simp only [Patch.apply, erasing]
    split
    · rfl
    · exact empty value
  | touch same => exact empty value

theorem reached_noMintRecorded
    (reached : Reachable (FreshStart machinery) (Step machinery params offered) s) :
    NoMintRecorded s := by
  refine reachable_invariant ?_ ?_ reached
  · exact fun first start => start.coinMints
  · exact fun state next _ empty taken => noMintRecorded_step empty taken

def CountsValidated (machinery : Machinery) (validate : PublicCoin → Bool) (node : Node)
    (call : ConnectCall) (state final : ConnectState) : Prop :=
  ∀ txout ∈ countedMints machinery node call state,
    MintValidated machinery.zerocoin validate final.zerocoinDB txout

theorem countsValidated_iff (validate : PublicCoin → Bool) (empty : NoMintRecorded s)
    (connects : Connects machinery params s block node call state final) :
    CountsValidated machinery validate node call state final ↔
      countedMints machinery node call state = [] := by
  have kept := connectCall_coinMints (endState_completed connects.completed)
  rw [connects.zerocoinDB] at kept
  constructor
  · intro validated
    apply List.eq_nil_iff_forall_not_mem.mpr
    intro txout member
    obtain ⟨_, pubCoin, _, _, recorded⟩ := validated txout member
    rw [kept, empty pubCoin.value] at recorded
    cases recorded
  · intro nothing txout member
    rw [nothing] at member
    cases member

end Records

section Supply

variable {machinery : Machinery} {node : Node} {call : ConnectCall} {state final : ConnectState}
variable {older : List CBlockIndex} {parent : CBlockIndex}

theorem removeSpend_nonnegative (spends : List CoinDenomination)
    (completed : Completes (forEach removeSpend spends ()) state () final) :
    ∀ denom ∈ spends, 0 ≤ final.pindex.mapZerocoinSupply denom := by
  induction spends generalizing state with
  | nil => simp
  | cons spend rest ih =>
    rw [completes_forEach_cons] at completed
    obtain ⟨_, middle, first, later⟩ := completed
    intro denom member
    by_cases among : denom ∈ rest
    · exact ih later denom among
    · have here : denom = spend := by simpa [among] using member
      unfold removeSpend at first
      simp only [completes_bind, completes_check, completes_update, completes_reading] at first
      obtain ⟨_, _, ⟨_, rfl⟩, _, _, rfl, _, _, ⟨rfl, rfl⟩, enough, rfl⟩ := first
      rw [removeSpend_loop rest later, here]
      have none : rest.count spend = 0 := List.count_eq_zero.mpr (here ▸ among)
      have left := of_decide_eq_true ((require_ok _ _ _).mp enough)
      simp only [editIndex, id_eq, none] at left ⊢
      omega

/-- What the spends of a block leave of the supply its mints were added to. -/
structure SpendsCovered (machinery : Machinery) (node : Node) (call : ConnectCall)
    (parent : CBlockIndex) (state : ConnectState) (spends : List CoinDenomination) : Prop where
  listed : spendListOf machinery node call state = .ok spends
  covered : ∀ denom ∈ spends, 0 ≤ (suppliedIndex parent (mintsOf machinery node call state) spends
    state.pindex).mapZerocoinSupply denom

theorem trackZerocoinSupply_covered (family : call.ancestry = parent :: older)
    (completed : Completes (trackZerocoinSupply machinery node call) state () final) :
    ∃ spends, SpendsCovered machinery node call parent state spends := by
  obtain ⟨spends, listed, outcome⟩ := trackZerocoinSupply_spec family completed
  refine ⟨spends, listed, ?_⟩
  unfold trackZerocoinSupply at completed
  rw [family] at completed
  simp only [completes_bind, completes_reading, completes_check, completes_update] at completed
  obtain ⟨_, _, ⟨rfl, rfl⟩, again, _, ⟨relisted, rfl⟩, _, _, rfl, loop⟩ := completed
  have same : again = spends := Except.ok.inj (relisted.symm.trans listed)
  subst same
  have covered := removeSpend_nonnegative again loop
  rw [outcome] at covered
  exact covered

theorem connectChecks_covered {state middle : ConnectState} {totals : BlockTotals}
    (family : call.ancestry = parent :: older)
    (completed : Completes (connectChecks machinery node call) state totals middle) :
    ∃ spends, SpendsCovered machinery node call parent state spends := by
  unfold connectChecks at completed
  simp only [completes_bind, completes_reading, completes_check] at completed
  obtain ⟨_, _, ⟨rfl, rfl⟩, _, _, ⟨_, rfl⟩, reached, looped, loop, _, tracked, track, _⟩ :=
    completed
  obtain ⟨spends, listed, covered⟩ := trackZerocoinSupply_covered family track
  rw [(connectTxs_connected loop).frame] at listed covered
  exact ⟨spends, listed, covered⟩

theorem connectBlock_covered (family : call.ancestry = parent :: older)
    (child : machinery.blockHash call.block.toCBlockHeader ≠ node.params.hashGenesisBlock)
    (completed : Completes (connectBlock machinery node call) state () final) :
    ∃ spends, SpendsCovered machinery node call parent state spends := by
  unfold connectBlock at completed
  rw [if_neg child] at completed
  simp only [completes_bind, completes_reading, completes_check] at completed
  obtain ⟨_, _, ⟨rfl, rfl⟩, _, _, ⟨_, rfl⟩, _, _, ⟨_, rfl⟩, completed⟩ := completed
  unfold connectTransactions at completed
  rw [completes_bind] at completed
  obtain ⟨totals, middle, passing, _⟩ := completed
  exact connectChecks_covered family passing

end Supply

section Chains

variable {machinery : Machinery} {params : ChainParams} {offered : Set CBlock}

/-- A chain with what each entry counted when it was last connected. -/
structure CountedChain where
  chain : ChainState
  mints : BlockPath → List CoinDenomination
  spends : BlockPath → List CoinDenomination

def countAlong (counts : BlockPath → List CoinDenomination) (denom : CoinDenomination) :
    BlockPath → Int
  | [] => 0
  | block :: rest => countAlong counts denom rest + (counts (block :: rest)).count denom

theorem countAlong_update (counts : BlockPath → List CoinDenomination) (block : CBlock)
    {path active : BlockPath} (part : path <:+ active) (added : List CoinDenomination)
    (denom : CoinDenomination) :
    countAlong (Function.update counts (block :: active) added) denom path =
      countAlong counts denom path := by
  induction path with
  | nil => rfl
  | cons here rest ih =>
    have below : rest <:+ active := (List.suffix_cons here rest).trans part
    rw [countAlong, countAlong, ih below, Function.update_of_ne (suffix_ne part block)]

/-- The moves of the chain with their counts. Only a connect writes an entry's supply. -/
inductive CountedStep (machinery : Machinery) (params : ChainParams) (offered : Set CBlock) :
    CountedChain → CountedChain → Prop where
  | connect {s : CountedChain} {block : CBlock} {node : Node} {call : ConnectCall}
      {state final : ConnectState} {spends : List CoinDenomination} (offer : block ∈ offered)
      (connects : Connects machinery params s.chain block node call state final)
      (listed : spendListOf machinery node call state = .ok spends) :
      CountedStep machinery params offered s
        ⟨afterConnect s.chain block node final,
          Function.update s.mints (block :: s.chain.active) (mintsOf machinery node call state),
          Function.update s.spends (block :: s.chain.active) spends⟩
  | refuse {s : CountedChain} {block : CBlock} {node : Node} {call : ConnectCall}
      {state final : ConnectState} (offer : block ∈ offered)
      (refuses : Refuses machinery params s.chain block node call state final) :
      CountedStep machinery params offered s
        { s with chain := afterRefusal s.chain block call final }
  | disconnect {s : CountedChain} {block : CBlock} {rest : BlockPath}
      {target : DisconnectTarget} {view : UtxoView} {final : DisconnectState}
      (disconnects : Disconnects machinery s.chain block rest target view final) :
      CountedStep machinery params offered s
        { s with chain := afterDisconnect s.chain rest final }
  | touch {s : CountedChain} {entries : BlockPath → CBlockIndex}
      (same : ∀ path, SameRecords (entries path) (s.chain.entries path))
      (supply : ∀ path, (entries path).mapZerocoinSupply =
        (s.chain.entries path).mapZerocoinSupply) :
      CountedStep machinery params offered s
        { s with chain := { s.chain with entries := entries } }

/-- The supply of an entry about to be connected is its parent's: the header version
    starts it over from there, or the entry holds the same already. -/
def StartsFromParent (s : ChainState) (block : CBlock) : Prop :=
  ∀ denom ∈ zerocoinDenomList, 3 < (s.entries s.active).nVersion ∨
    (s.entries (block :: s.active)).mapZerocoinSupply denom =
      (s.entries s.active).mapZerocoinSupply denom

def FindsParent (s next : CountedChain) : Prop :=
  ∀ block, next.chain.active = block :: s.chain.active → StartsFromParent s.chain block

def SupplyBalanced (s : CountedChain) : Prop :=
  ∀ path, path <:+ s.chain.active → ∀ denom ∈ zerocoinDenomList,
    (s.chain.entries path).mapZerocoinSupply denom =
        countAlong s.mints denom path - countAlong s.spends denom path ∧
      0 ≤ (s.chain.entries path).mapZerocoinSupply denom

theorem connects_supply {s : ChainState} {block : CBlock} {node : Node} {call : ConnectCall}
    {state final : ConnectState} {spends : List CoinDenomination}
    (connects : Connects machinery params s block node call state final)
    (listed : spendListOf machinery node call state = .ok spends)
    (finds : StartsFromParent s block) {denom : CoinDenomination}
    (valid : denom ∈ zerocoinDenomList)
    (parent : 0 ≤ (s.entries s.active).mapZerocoinSupply denom) :
    final.pindex.mapZerocoinSupply denom =
        (s.entries s.active).mapZerocoinSupply denom +
          (mintsOf machinery node call state).count denom - spends.count denom ∧
      0 ≤ final.pindex.mapZerocoinSupply denom := by
  obtain ⟨older, totals, counted, view, family, connected⟩ := connects_connected connects
  have same : counted = spends := Except.ok.inj (connected.listed.symm.trans listed)
  subst same
  have child : machinery.blockHash call.block.toCBlockHeader ≠ node.params.hashGenesisBlock := by
    rw [connects.sameBlock, connects.onNode.params]
    exact connects.notGenesis
  obtain ⟨again, relisted, covered⟩ := connectBlock_covered family child connects.completed
  have same : again = counted := Except.ok.inj (relisted.symm.trans listed)
  subst same
  have supply := congrFun (connected_fields connected).mapZerocoinSupply denom
  have stands := connectedIndex_supply (s.entries s.active) totals
    (mintsOf machinery node call state) again state.pindex denom
  rw [connects.entry] at stands supply covered
  have inherited : (if 3 < (s.entries s.active).nVersion ∧ denom ∈ zerocoinDenomList
      then (s.entries s.active).mapZerocoinSupply denom
      else (s.entries (block :: s.active)).mapZerocoinSupply denom) =
        (s.entries s.active).mapZerocoinSupply denom := by
    rcases finds denom valid with version | held
    · rw [if_pos ⟨version, valid⟩]
    · split
      · rfl
      · exact held
  rw [inherited] at stands
  constructor
  · rw [supply, stands]
  · by_cases among : denom ∈ again
    · rw [supply]
      exact covered denom among
    · rw [supply, stands, List.count_eq_zero.mpr among]
      omega

theorem supplyBalanced_step {s next : CountedChain} (balanced : SupplyBalanced s)
    (taken : CountedStep machinery params offered s next) (finds : FindsParent s next) :
    SupplyBalanced next := by
  intro path part denom valid
  cases taken with
  | @connect block node call state final spends offer connects listed =>
    unfold afterConnect at part ⊢
    dsimp only at part ⊢
    have below := balanced s.chain.active (List.suffix_refl _) denom valid
    rcases List.suffix_cons_iff.mp part with whole | within
    · obtain ⟨supply, covered⟩ := connects_supply connects listed (finds block rfl) valid below.2
      rw [whole, Function.update_self, countAlong, countAlong, Function.update_self,
        Function.update_self, countAlong_update _ _ (List.suffix_refl _),
        countAlong_update _ _ (List.suffix_refl _)]
      constructor
      · omega
      · exact covered
    · rw [Function.update_of_ne (suffix_ne within block), countAlong_update _ _ within,
        countAlong_update _ _ within]
      exact balanced path within denom valid
  | @refuse block node call state final offer refuses =>
    unfold afterRefusal at part ⊢
    dsimp only at part ⊢
    split
    · exact balanced path part denom valid
    · rw [Function.update_of_ne (suffix_ne part block)]
      exact balanced path part denom valid
  | @disconnect block rest target view final disconnects =>
    refine balanced path ?_ denom valid
    rw [disconnects.tip]
    exact List.IsSuffix.trans part (List.suffix_cons block rest)
  | touch same supply =>
    rw [supply path]
    exact balanced path part denom valid

def CountedStart (machinery : Machinery) (s : CountedChain) : Prop :=
  FreshStart machinery s.chain

theorem reached_supplyBalanced {s : CountedChain}
    (reached : ReachableBy (CountedStart machinery) (CountedStep machinery params offered)
      FindsParent s) : SupplyBalanced s := by
  refine reachableBy_invariant ?_ ?_ reached
  · intro first start path part denom _
    rw [start.active, List.suffix_nil] at part
    rw [part, start.zerocoinSupply]
    simp [countAlong]
  · exact fun state next _ balanced taken finds => supplyBalanced_step balanced taken finds

end Chains

theorem genesisState_fresh : FreshStart labelMachinery (genesisState labelMachinery) :=
  ⟨genesisState_start labelMachinery, fun _ => rfl, fun _ _ => rfl⟩

def genesisCounted : CountedChain := ⟨genesisState labelMachinery, fun _ => [], fun _ => []⟩

theorem genesisCounted_start : CountedStart labelMachinery genesisCounted := genesisState_fresh

def mintCounted : CountedChain where
  chain := mintState
  mints := Function.update (fun _ => []) [mintBlock] (mintsOf labelMachinery syncedNode
    (firstCall mintBlock) (firstConnectState labelMachinery mintBlock))
  spends := Function.update (fun _ => []) [mintBlock] [.ZQ_ONE]

def unmintedCounted : CountedChain := { mintCounted with chain := unmintedState }

def againCounted : CountedChain where
  chain := afterConnect unmintedState mintBlock againNode againFinal
  mints := Function.update unmintedCounted.mints [mintBlock]
    (mintsOf labelMachinery againNode (firstCall mintBlock) againState)
  spends := Function.update unmintedCounted.spends [mintBlock] [.ZQ_ONE]

theorem mintCounted_step : CountedStep labelMachinery mainParams {mintBlock} genesisCounted
    mintCounted :=
  .connect rfl mint_connects rfl

theorem unmintedCounted_step : CountedStep labelMachinery mainParams {mintBlock} mintCounted
    unmintedCounted :=
  .disconnect mint_disconnects

theorem againCounted_step : CountedStep labelMachinery mainParams {mintBlock} unmintedCounted
    againCounted :=
  .connect rfl mint_connects_again rfl

end OxidMintCounts
