import Oxid.DisconnectTip
import Oxid.Reconnect

/-!
Which transactions of a disconnected block the memory pool holds when `DisconnectTip`
returns.
-/
namespace OxidResurrection
open OxidPrimitives OxidCoins OxidUtxoView OxidDisconnectBlock OxidZerocoin OxidChainParams
open OxidNode OxidCheckBlock OxidConnectBlock OxidMempool OxidMapKeys OxidDisconnectTip
open OrderedMaps OrderedMap IndexedTables Attempt OxidLedgerView OxidChainRun OxidReconnect

/-- No transaction spends an output of itself or of a later one. -/
def InOrder (txHash : CTransaction → Uint256) : List CTransaction → Prop
  | [] => True
  | tx :: rest =>
    (spendsInputs tx = true → ∀ txin ∈ tx.vin, ∀ later ∈ tx :: rest,
      txin.prevout.hash ≠ txHash later) ∧ InOrder txHash rest

section Cleared
variable {zerocoin : ZerocoinLibrary} {txHash : CTransaction → Uint256} {nHeight : Int32}

theorem setCoins_pruned_other (view : UtxoView) {txid other : Uint256} (coins : CCoins)
    (apart : other ≠ txid) (pruned : (view.coins other).isPruned = true) :
    ((view.setCoins txid coins).coins other).isPruned = true := by
  have same := congrFun (outputsOf_setCoins view txid coins) other
  rw [Function.update_of_ne apart] at same
  rw [CCoins.isPruned_iff_output] at pruned ⊢
  intro n
  exact (congrFun same n).trans (pruned n)

theorem setCoins_pruned_same (view : UtxoView) (txid : Uint256) {coins : CCoins}
    (pruned : coins.isPruned = true) :
    ((view.setCoins txid coins).coins txid).isPruned = true := by
  have same := congrFun (outputsOf_setCoins view txid coins) txid
  rw [Function.update_self] at same
  rw [CCoins.isPruned_iff_output] at pruned ⊢
  intro n
  exact (congrFun same n).trans (pruned n)

variable {state final : DisconnectState} {tx : CTransaction} {txid : Uint256}

theorem restoreInputs_pruned (inputs : List (CTxIn × CTxInUndo)) (state : DisconnectState)
    (apart : ∀ pair ∈ inputs, pair.1.prevout.hash ≠ txid)
    (pruned : (state.view.coins txid).isPruned = true) :
    ((restoreInputs inputs state).view.coins txid).isPruned = true := by
  induction inputs with
  | nil => exact pruned
  | cons pair rest ih =>
    have later := ih fun other inside => apart other (List.mem_cons_of_mem pair inside)
    have here := apart pair List.mem_cons_self
    exact setCoins_pruned_other _ _ (fun same => here same.symm) later

theorem disconnectTx_pruned {txundo : Option CTxUndo}
    (run : disconnectTx zerocoin txHash nHeight tx txundo state = (final, none))
    (apart : spendsInputs tx = true → ∀ txin ∈ tx.vin, txin.prevout.hash ≠ txid)
    (pruned : txid = txHash tx ∨ (state.view.coins txid).isPruned = true) :
    (final.view.coins txid).isPruned = true := by
  unfold disconnectTx at run
  split at run
  · cases run
  · rename_i db undone
    have removed : ((removeOutputs txHash nHeight tx
        { state with zerocoinDB := db }).view.coins txid).isPruned = true := by
      by_cases same : txid = txHash tx
      · subst same
        exact setCoins_pruned_same _ _ CCoins.isPruned_empty
      · rcases pruned with here | before
        · exact absurd here same
        · exact setCoins_pruned_other _ _ same before
    split at run
    · rename_i spending
      split at run
      · cases run
      · split at run
        · cases run
        · cases run
          apply restoreInputs_pruned _ _ _ removed
          intro pair inside
          exact apart spending pair.1 (List.of_mem_zip inside).1
    · cases run
      exact removed

theorem disconnectTxs_pruned {txs : List (CTransaction × Option CTxUndo)}
    (run : disconnectTxs zerocoin txHash nHeight txs state = (final, none))
    (inOrder : InOrder txHash (txs.map Prod.fst)) (inside : tx ∈ txs.map Prod.fst) :
    (final.view.coins (txHash tx)).isPruned = true := by
  induction txs generalizing final with
  | nil => cases inside
  | cons pair rest ih =>
    obtain ⟨backward, restInOrder⟩ := inOrder
    simp only [disconnectTxs] at run
    split at run
    · cases run
    · rename_i later tail
      apply disconnectTx_pruned run
      · intro spending txin input
        exact backward spending txin input tx inside
      · rcases List.mem_cons.mp inside with here | further
        · exact .inl (congrArg txHash here)
        · exact .inr (ih tail restInOrder further)

end Cleared

section Kept
variable (call : TipCall) (invalid : InvalidMaps) (view : UtxoView) (zerocoinDB : CZerocoinDB)

def Confirmed (txin : CTxIn) : Prop :=
  (view.coins txin.prevout.hash).isAvailable txin.prevout.n = true

def CreatedBy (kept : Set CTransaction) (txin : CTxIn) : Prop :=
  ∃ parent ∈ kept, txin.prevout.hash = call.machinery.txHash parent ∧
    (CCoins.fromTx parent MEMPOOL_HEIGHT).isAvailable txin.prevout.n = true

/-- What the chain asks of a transaction at its turn: a kind that may stand alone,
    inputs that are there, mature and worth what is paid. -/
structure StillValid (pool : CTxMemPool) (kept : Set CTransaction) (tx : CTransaction) : Prop where
  notCoinBase : tx.isCoinBase = false
  notCoinStake : tx.isCoinStake = false
  notZerocoinSpend : tx.isZerocoinSpend = false
  wellFormed : checkTransaction call.machinery call.node zerocoinDB tx (zerocoinActive call) = .ok ()
  inputs : ∀ txin ∈ tx.vin, Confirmed view txin ∨ CreatedBy call kept txin
  values : inputValuesPass call view pool tx = true

structure PassesPolicy (pool : CTxMemPool) (tx : CTransaction) : Prop where
  standard : call.policy.requireStandard = true → call.policy.isStandardTx tx = true ∧
    call.policy.areInputsStandard tx (poolCoins view pool) = true
  unpooled : pool.mapTx.find? (call.machinery.txHash tx) = none
  unlocked : lockedElsewhere call tx = false
  unspent : ∀ txin ∈ tx.vin, pool.mapNextTx.find? txin.prevout = none
  untainted : ∀ txin ∈ tx.vin,
    validOutPoint call.node.params invalid txin.prevout call.node.height = true
  sigOps : sigOpsAllowed call view pool tx = true
  fees : feesAllowed call view pool tx = true
  scripts : scriptsPass call view pool tx = true

def keptAlong : List CTransaction → CTxMemPool → Set CTransaction → Set CTransaction
  | [], _, kept => kept
  | tx :: rest, pool, kept =>
    keptAlong rest (resurrectTx call invalid view zerocoinDB pool tx)
      (kept ∪ {other | other = tx ∧ StillValid call view zerocoinDB pool kept tx ∧
        PassesPolicy call invalid view pool tx})

/-- The pool beside the chain: transactions stand under their hashes, spends are
    marked for pooled transactions, and nothing pooled has coins. -/
structure InStep (pool : CTxMemPool) : Prop where
  named : ∀ key entry, pool.mapTx.find? key = some entry → key = call.machinery.txHash entry.tx
  marked : ∀ out spent, pool.mapNextTx.find? out = some spent →
    ∃ entry, pool.mapTx.find? spent.ptx = some entry ∧ out ∈ prevouts entry
  unconfirmed : ∀ key entry, pool.mapTx.find? key = some entry →
    (view.coins key).isPruned = true

def Mature (txin : CTxIn) : Prop :=
  ((view.coins txin.prevout.hash).fCoinBase || (view.coins txin.prevout.hash).fCoinStake) = true →
    call.node.params.nMaturity ≤
      call.target.nHeight.toInt - (view.coins txin.prevout.hash).nHeight.toInt

structure Protects (pool : CTxMemPool) (kept : Set CTransaction) : Prop
    extends InStep call view pool where
  pooled : ∀ tx ∈ kept, pool.mapTx.find? (call.machinery.txHash tx) = some (poolEntry call tx)
  rooted : ∀ tx ∈ kept, ∀ txin ∈ tx.vin, Confirmed view txin ∨ CreatedBy call kept txin
  mature : ∀ tx ∈ kept, ∀ txin ∈ tx.vin, Confirmed view txin → Mature call view txin

end Kept

section Removal
variable {call : TipCall} {view : UtxoView} {pool : CTxMemPool} {kept : Set CTransaction}

structure Loose (call : TipCall) (view : UtxoView) (kept : Set CTransaction) (hash : Uint256) :
    Prop where
  apart : ∀ tx ∈ kept, hash ≠ call.machinery.txHash tx
  spent : (view.coins hash).isPruned = true

theorem available_unpruned {coins : CCoins} {n : UInt32} (available : coins.isAvailable n = true) :
    coins.isPruned = false := by
  cases pruned : coins.isPruned with
  | false => rfl
  | true =>
    rw [CCoins.isPruned, List.all_eq_true] at pruned
    unfold CCoins.isAvailable at available
    split at available
    · cases available
    · rename_i out found
      simp [pruned out (List.mem_of_getElem? found)] at available

theorem children_loose (protects : Protects call view pool kept) {hash : Uint256}
    (loose : Loose call view kept hash) {vout : List CTxOut} {child : Uint256}
    (inside : child ∈ pool.children hash vout) : Loose call view kept child := by
  simp only [CTxMemPool.children, List.mem_filterMap, Option.map_eq_some_iff] at inside
  obtain ⟨i, _, spent, found, rfl⟩ := inside
  obtain ⟨entry, standing, spends⟩ := protects.marked _ _ found
  constructor
  · intro tx member same
    have own := protects.pooled tx member
    rw [← same, standing, Option.some.injEq] at own
    subst own
    obtain ⟨txin, input, prevout⟩ := List.mem_map.mp spends
    have names : txin.prevout.hash = hash := by rw [prevout]
    rcases protects.rooted tx member txin input with confirmed | ⟨parent, ours, named, _⟩
    · have unpruned := available_unpruned confirmed
      rw [names, loose.spent] at unpruned
      cases unpruned
    · exact loose.apart parent ours (names.symm.trans named)
  · exact protects.unconfirmed _ _ standing

theorem drop_protects (protects : Protects call view pool kept) {hash : Uint256}
    {entry : CTxMemPoolEntry} (standing : pool.mapTx.find? hash = some entry)
    (loose : Loose call view kept hash) : Protects call view (pool.drop hash entry) kept := by
  have other : ∀ key found, (pool.drop hash entry).mapTx.find? key = some found →
      pool.mapTx.find? key = some found := by
    intro key found after
    exact (find?_erase_some after).2
  constructor
  · constructor
    · exact fun key found after => protects.named key found (other key found after)
    · intro out spent after
      simp only [CTxMemPool.drop] at after ⊢
      have unclaimed : out ∉ prevouts entry := by
        intro claimed
        rw [find?_releaseAll_claimed claimed] at after
        cases after
      rw [find?_releaseAll_other unclaimed] at after
      obtain ⟨holder, found, spends⟩ := protects.marked out spent after
      refine ⟨holder, ?_, spends⟩
      have apart : spent.ptx ≠ hash := by
        intro same
        rw [same, standing, Option.some.injEq] at found
        subst found
        exact unclaimed spends
      rw [find?_erase_other _ apart, found]
    · exact fun key found after => protects.unconfirmed key found (other key found after)
  · intro tx member
    simp only [CTxMemPool.drop]
    rw [find?_erase_other _ fun same => loose.apart tx member same.symm]
    exact protects.pooled tx member
  · exact protects.rooted
  · exact protects.mature

theorem removeLoop_protects (fRecursive : Bool) (removed : List CTransaction)
    (txToRemove : List Uint256) (protects : Protects call view pool kept)
    (loose : ∀ hash ∈ txToRemove, (∀ tx ∈ kept, hash ≠ call.machinery.txHash tx)) :
    Protects call view (pool.removeLoop fRecursive removed txToRemove).1 kept := by
  fun_induction CTxMemPool.removeLoop fRecursive pool removed txToRemove with
  | case1 => exact protects
  | case2 pool removed hash queue absent ih =>
    exact ih protects fun other inside => loose other (List.mem_cons_of_mem hash inside)
  | case3 pool removed hash queue entry standing ih =>
    have here : Loose call view kept hash :=
      ⟨loose hash List.mem_cons_self, protects.unconfirmed hash entry standing⟩
    apply ih (drop_protects protects standing here)
    intro other inside
    split at inside
    · rcases List.mem_append.mp inside with queued | child
      · exact loose other (List.mem_cons_of_mem hash queued)
      · exact (children_loose protects here child).apart
    · exact loose other (List.mem_cons_of_mem hash inside)

theorem remove_protects (protects : Protects call view pool kept) {origTx : CTransaction}
    (loose : Loose call view kept (call.machinery.txHash origTx)) (removed : List CTransaction)
    (fRecursive : Bool) :
    Protects call view (pool.remove call.machinery.txHash origTx removed fRecursive).1 kept := by
  apply removeLoop_protects fRecursive removed _ protects
  intro hash inside
  rcases List.mem_cons.mp inside with here | orphaned
  · subst here
    exact loose.apart
  · split at orphaned
    · exact (children_loose protects loose orphaned).apart
    · cases orphaned

end Removal

section Admission
variable {call : TipCall} {invalid : InvalidMaps} {view : UtxoView} {zerocoinDB : CZerocoinDB}
  {pool : CTxMemPool} {kept : Set CTransaction}

variable {txin : CTxIn}

theorem poolCoins_confirmed (inStep : InStep call view pool) (confirmed : Confirmed view txin) :
    poolCoins view pool txin.prevout.hash = view.coins txin.prevout.hash := by
  unfold poolCoins
  split
  · rename_i entry standing
    have pruned := inStep.unconfirmed _ entry standing
    rw [available_unpruned confirmed] at pruned
    cases pruned
  · rfl

theorem poolCoins_created (protects : Protects call view pool kept)
    (created : CreatedBy call kept txin) :
    (poolCoins view pool txin.prevout.hash).isAvailable txin.prevout.n = true := by
  obtain ⟨parent, ours, named, available⟩ := created
  have standing := protects.pooled parent ours
  unfold poolCoins
  rw [named, standing]
  exact available

theorem inputs_available (protects : Protects call view pool kept)
    (stands : Confirmed view txin ∨ CreatedBy call kept txin) :
    (poolCoins view pool txin.prevout.hash).isAvailable txin.prevout.n = true := by
  rcases stands with confirmed | created
  · rw [poolCoins_confirmed protects.toInStep confirmed]
    exact confirmed
  · exact poolCoins_created protects created

theorem accepts_valid (protects : Protects call view pool kept) {tx : CTransaction}
    (valid : StillValid call view zerocoinDB pool kept tx)
    (passes : PassesPolicy call invalid view pool tx)
    (spent : (view.coins (call.machinery.txHash tx)).isPruned = true) :
    accepts call view zerocoinDB pool invalid tx = true := by
  have available : ∀ txin ∈ tx.vin,
      (poolCoins view pool txin.prevout.hash).isAvailable txin.prevout.n = true := by
    intro txin input
    exact inputs_available protects (valid.inputs txin input)
  have allowed : inputsAllowed call view pool invalid tx = true := by
    simp only [inputsAllowed, Bool.and_eq_true, List.all_eq_true, Bool.not_eq_true']
    refine ⟨⟨?_, ?_⟩, ?_⟩
    · simpa [poolCoins, passes.unpooled] using spent
    · intro txin input
      exact ⟨available_unpruned (available txin input), passes.untainted txin input⟩
    · simp only [haveInputs, Bool.or_eq_true, List.all_eq_true]
      exact .inr available
  have standardTx : (!call.policy.requireStandard || call.policy.isStandardTx tx) = true := by
    cases required : call.policy.requireStandard with
    | false => rfl
    | true => simpa using (passes.standard required).1
  have standardInputs : (!call.policy.requireStandard ||
      call.policy.areInputsStandard tx (poolCoins view pool)) = true := by
    cases required : call.policy.requireStandard with
    | false => rfl
    | true => simpa using (passes.standard required).2
  simp [accepts, valid.wellFormed, valid.notCoinBase, valid.notCoinStake, valid.notZerocoinSpend,
    valid.values, standardTx, standardInputs, allowed, passes.unlocked, passes.sigOps,
    passes.fees, passes.scripts, OrderedMap.count, passes.unpooled]
  exact passes.unspent

theorem accepts_fresh {tx : CTransaction} (taken : accepts call view zerocoinDB pool invalid tx = true) :
    pool.mapTx.find? (call.machinery.txHash tx) = none := by
  simp only [accepts, Bool.and_eq_true] at taken
  have uncounted := taken.1.1.1.1.1.1.1.1.2
  simpa [OrderedMap.count] using uncounted

theorem checkInputValues_mature {node : Node} {coins : Uint256 → CCoins} {nSpendHeight : Int}
    {vin : List CTxIn} {start total : Int}
    (passed : checkInputValues node coins nSpendHeight vin start = .ok total) (input : txin ∈ vin)
    (generated : ((coins txin.prevout.hash).fCoinBase || (coins txin.prevout.hash).fCoinStake) =
      true) :
    node.params.nMaturity ≤ nSpendHeight - (coins txin.prevout.hash).nHeight.toInt := by
  induction vin generalizing start with
  | nil => cases input
  | cons first rest ih =>
    simp only [checkInputValues, bind_ok, require_ok] at passed
    obtain ⟨_, matured, _, _, later⟩ := passed
    rcases List.mem_cons.mp input with here | further
    · subst here
      simpa [generated] using matured
    · exact ih later further

def OnParent (call : TipCall) (view : UtxoView) : Prop :=
  view.getBestBlock = call.target.prevHash

theorem valid_mature (onParent : OnParent call view) (protects : Protects call view pool kept)
    {tx : CTransaction} (valid : StillValid call view zerocoinDB pool kept tx)
    (input : txin ∈ tx.vin) (confirmed : Confirmed view txin) : Mature call view txin := by
  intro generated
  have values := valid.values
  simp only [inputValuesPass, valid.notZerocoinSpend, Bool.false_or] at values
  rw [onParent, call.prevKnown] at values
  simp only at values
  split at values
  · cases values
  · rename_i nValueIn passed
    have seen := poolCoins_confirmed protects.toInStep confirmed
    have matured := checkInputValues_mature passed input (by rw [seen]; exact generated)
    rw [seen, call.oneAbove] at matured
    exact matured

theorem addUnchecked_protects (protects : Protects call view pool kept) {tx : CTransaction}
    (fresh : pool.mapTx.find? (call.machinery.txHash tx) = none)
    (spent : (view.coins (call.machinery.txHash tx)).isPruned = true) :
    Protects call view (pool.addUnchecked (call.machinery.txHash tx) (poolEntry call tx)) kept := by
  have grown : ∀ key entry,
      (pool.addUnchecked (call.machinery.txHash tx) (poolEntry call tx)).mapTx.find? key = some entry →
      (key = call.machinery.txHash tx ∧ entry = poolEntry call tx) ∨
        pool.mapTx.find? key = some entry := by
    intro key entry found
    rcases find?_set_some found with here | ⟨_, before⟩
    · exact .inl here
    · exact .inr before
  have stays : ∀ key entry, pool.mapTx.find? key = some entry →
      (pool.addUnchecked (call.machinery.txHash tx) (poolEntry call tx)).mapTx.find? key =
        some entry := by
    intro key entry found
    have apart : key ≠ call.machinery.txHash tx := by
      intro same
      rw [same, fresh] at found
      cases found
    simp only [CTxMemPool.addUnchecked]
    rw [find?_set_other _ _ apart, found]
  constructor
  · constructor
    · intro key entry found
      rcases grown key entry found with ⟨rfl, rfl⟩ | before
      · rfl
      · exact protects.named key entry before
    · intro out mark found
      have marks : (out ∈ prevouts (poolEntry call tx) ∧
          ∃ i, mark = CInPoint.mk (call.machinery.txHash tx) i) ∨
          pool.mapNextTx.find? out = some mark := by
        simp only [CTxMemPool.addUnchecked] at found
        split at found
        · exact .inr found
        · exact find?_markAll_cases _ found
      rcases marks with ⟨spends, i, rfl⟩ | before
      · refine ⟨poolEntry call tx, ?_, spends⟩
        simp only [CTxMemPool.addUnchecked, find?_set_same]
      · obtain ⟨entry, standing, spends⟩ := protects.marked out mark before
        exact ⟨entry, stays _ entry standing, spends⟩
    · intro key entry found
      rcases grown key entry found with ⟨rfl, _⟩ | before
      · exact spent
      · exact protects.unconfirmed key entry before
  · intro other member
    exact stays _ _ (protects.pooled other member)
  · exact protects.rooted
  · exact protects.mature

theorem keep_protects (onParent : OnParent call view) (protects : Protects call view pool kept)
    {tx : CTransaction} (valid : StillValid call view zerocoinDB pool kept tx)
    {after : CTxMemPool} (still : Protects call view after kept)
    (joined : after.mapTx.find? (call.machinery.txHash tx) = some (poolEntry call tx)) :
    Protects call view after (kept ∪ {other | other = tx}) := by
  have wider : ∀ txin, CreatedBy call kept txin →
      CreatedBy call (kept ∪ {other | other = tx}) txin := by
    rintro txin ⟨parent, ours, rest⟩
    exact ⟨parent, .inl ours, rest⟩
  constructor
  · exact still.toInStep
  · rintro other (member | rfl)
    · exact still.pooled other member
    · exact joined
  · rintro other (member | rfl) txin input
    · exact (still.rooted other member txin input).imp_right (wider txin)
    · exact (valid.inputs txin input).imp_right (wider txin)
  · rintro other (member | rfl) txin input confirmed
    · exact still.mature other member txin input confirmed
    · exact valid_mature onParent protects valid input confirmed

theorem resurrectTx_protects (onParent : OnParent call view)
    (protects : Protects call view pool kept) {tx : CTransaction}
    (spent : (view.coins (call.machinery.txHash tx)).isPruned = true)
    (distinct : ∀ other ∈ kept, call.machinery.txHash tx ≠ call.machinery.txHash other) :
    Protects call view (resurrectTx call invalid view zerocoinDB pool tx)
      (kept ∪ {other | other = tx ∧ StillValid call view zerocoinDB pool kept tx ∧
        PassesPolicy call invalid view pool tx}) := by
  by_cases stays : StillValid call view zerocoinDB pool kept tx ∧
      PassesPolicy call invalid view pool tx
  · obtain ⟨valid, passes⟩ := stays
    have taken := accepts_valid protects valid passes spent
    have joins : resurrectTx call invalid view zerocoinDB pool tx =
        pool.addUnchecked (call.machinery.txHash tx) (poolEntry call tx) := by
      simp [resurrectTx, valid.notCoinBase, valid.notCoinStake, taken]
    have still := addUnchecked_protects protects passes.unpooled spent
    rw [joins]
    have result := keep_protects onParent protects valid still (by
      simp only [CTxMemPool.addUnchecked, find?_set_same])
    simpa only [valid, passes, and_self, and_true] using result
  · have nothing : {other | other = tx ∧ StillValid call view zerocoinDB pool kept tx ∧
        PassesPolicy call invalid view pool tx} = (∅ : Set CTransaction) := by
      ext other
      simp only [Set.mem_ofPred_eq, Set.mem_empty_iff_false, iff_false, not_and]
      rintro rfl valid passes
      exact stays ⟨valid, passes⟩
    rw [nothing, Set.union_empty]
    unfold resurrectTx
    split
    · exact remove_protects protects ⟨distinct, spent⟩ [] true
    · rename_i taken
      simp only [Bool.not_eq_true, Bool.or_eq_false_iff, Bool.not_eq_false'] at taken
      exact addUnchecked_protects protects (accepts_fresh taken.2) spent

theorem resurrect_protects (onParent : OnParent call view) (vtx : List CTransaction)
    (protects : Protects call view pool kept)
    (spent : ∀ tx ∈ vtx, (view.coins (call.machinery.txHash tx)).isPruned = true)
    (distinct : (vtx.map call.machinery.txHash).Nodup)
    (earlier : ∀ tx ∈ vtx, ∀ other ∈ kept,
      call.machinery.txHash tx ≠ call.machinery.txHash other) :
    Protects call view (resurrect call invalid view zerocoinDB vtx pool)
      (keptAlong call invalid view zerocoinDB vtx pool kept) := by
  induction vtx generalizing pool kept with
  | nil => exact protects
  | cons tx rest ih =>
    obtain ⟨once, restDistinct⟩ := List.nodup_cons.mp distinct
    have here := @resurrectTx_protects call invalid view zerocoinDB pool kept onParent protects tx
      (spent tx List.mem_cons_self) (earlier tx List.mem_cons_self)
    apply ih here
    · exact fun other inside => spent other (List.mem_cons_of_mem tx inside)
    · exact restDistinct
    · rintro other inside keeper (member | ⟨rfl, _⟩)
      · exact earlier other (List.mem_cons_of_mem tx inside) keeper member
      · intro same
        exact once (List.mem_map.mpr ⟨other, inside, same⟩)

end Admission

section Scan
variable {call : TipCall} {view : UtxoView} {pool : CTxMemPool} {kept : Set CTransaction}

theorem mature_unsigned {nMaturity : Int} {tip height : Int32}
    (mature : nMaturity ≤ tip.toInt - height.toInt) :
    ¬ tip.toUInt32 - height.toUInt32 < UInt32.ofNat nMaturity.toNat := by
  have tipBounds := And.intro tip.le_toInt tip.toInt_lt
  have heightBounds := And.intro height.le_toInt height.toInt_lt
  have tipBits : tip.toInt = tip.toUInt32.toNat ∨ tip.toInt = tip.toUInt32.toNat - 2 ^ 32 := by
    have bits := BitVec.toInt_eq_toNat_cond tip.toBitVec
    change tip.toInt = if 2 * tip.toUInt32.toNat < 2 ^ 32 then (tip.toUInt32.toNat : Int)
      else tip.toUInt32.toNat - ((2 ^ 32 : Nat) : Int) at bits
    split at bits <;> omega
  have heightBits : height.toInt = height.toUInt32.toNat ∨
      height.toInt = height.toUInt32.toNat - 2 ^ 32 := by
    have bits := BitVec.toInt_eq_toNat_cond height.toBitVec
    change height.toInt = if 2 * height.toUInt32.toNat < 2 ^ 32 then (height.toUInt32.toNat : Int)
      else height.toUInt32.toNat - ((2 ^ 32 : Nat) : Int) at bits
    split at bits <;> omega
  rw [UInt32.lt_iff_toNat_lt, UInt32.toNat_sub, UInt32.toNat_ofNat']
  omega

theorem listsSpend_kept (protects : Protects call view pool kept) {vin : List CTxIn}
    (stands : ∀ txin ∈ vin, (Confirmed view txin ∧ Mature call view txin) ∨
      CreatedBy call kept txin) :
    pool.listsSpend (coinbaseScan call view) vin = some false := by
  induction vin with
  | nil => rfl
  | cons txin rest ih =>
    have later := ih fun other inside => stands other (List.mem_cons_of_mem txin inside)
    simp only [CTxMemPool.listsSpend]
    split
    · exact later
    · rename_i unpooled
      rcases stands txin List.mem_cons_self with ⟨confirmed, mature⟩ | ⟨parent, ours, named, _⟩
      · have unpruned := available_unpruned confirmed
        have found : (coinbaseScan call view).accessCoins txin.prevout.hash =
            some (view.coins txin.prevout.hash) := by
          simp [coinbaseScan, accessCoins, unpruned]
        rw [found]
        dsimp only
        rw [if_neg]
        · exact later
        · rintro ⟨generated, young⟩
          exact mature_unsigned (mature generated) young
      · have standing := protects.pooled parent ours
        rw [← named] at standing
        simp [OrderedMap.count, standing] at unpooled

variable {listed : List CTransaction} {tx : CTransaction}

theorem transactionsToRemove_listed {scan : CTxMemPool.CoinbaseScan}
    {entries : List (Uint256 × CTxMemPoolEntry)}
    (found : pool.transactionsToRemove scan entries = some listed) (inside : tx ∈ listed) :
    ∃ item ∈ entries, item.2.tx = tx ∧ pool.listsSpend scan tx.vin = some true := by
  induction entries generalizing listed with
  | nil =>
    simp only [CTxMemPool.transactionsToRemove, Option.some.injEq] at found
    subst found
    cases inside
  | cons item rest ih =>
    simp only [CTxMemPool.transactionsToRemove] at found
    split at found
    · rename_i later lists collected
      cases found
      rcases List.mem_cons.mp inside with here | further
      · subst here
        exact ⟨item, List.mem_cons_self, rfl, lists⟩
      · obtain ⟨other, member, rest⟩ := ih collected further
        exact ⟨other, List.mem_cons_of_mem item member, rest⟩
    · rename_i later _ collected
      cases found
      obtain ⟨other, member, rest⟩ := ih collected inside
      exact ⟨other, List.mem_cons_of_mem item member, rest⟩
    · cases found

theorem listed_loose (protects : Protects call view pool kept)
    (found : pool.transactionsToRemove (coinbaseScan call view) pool.mapTx.entries = some listed)
    (inside : tx ∈ listed) :
    Loose call view kept (call.machinery.txHash tx) := by
  obtain ⟨item, member, rfl, lists⟩ := transactionsToRemove_listed found inside
  have standing : pool.mapTx.find? item.1 = some item.2 :=
    (OrderedMap.mem_entries_iff pool.mapTx item.1 item.2).mp member
  have named := protects.named _ _ standing
  constructor
  · intro keeper ours same
    have own := protects.pooled keeper ours
    rw [← same, ← named, standing, Option.some.injEq] at own
    have equal : item.2.tx = keeper := by rw [own]; rfl
    have stays := @listsSpend_kept call view pool kept protects keeper.vin (by
      intro txin input
      rcases protects.rooted keeper ours txin input with confirmed | created
      · exact .inl ⟨confirmed, protects.mature keeper ours txin input confirmed⟩
      · exact .inr created)
    rw [equal, stays] at lists
    cases lists
  · rw [← named]
    exact protects.unconfirmed _ _ standing

theorem removeListed_protects (protects : Protects call view pool kept)
    (listed : List CTransaction)
    (loose : ∀ tx ∈ listed, Loose call view kept (call.machinery.txHash tx)) :
    Protects call view (pool.removeListed call.machinery.txHash listed) kept := by
  simp only [CTxMemPool.removeListed]
  induction listed generalizing pool with
  | nil => exact protects
  | cons tx rest ih =>
    apply ih
    · exact remove_protects protects (loose tx List.mem_cons_self) [] true
    · exact fun other inside => loose other (List.mem_cons_of_mem tx inside)

theorem removeCoinbaseSpends_protects (protects : Protects call view pool kept)
    {left : CTxMemPool}
    (ran : pool.removeCoinbaseSpends call.machinery.txHash (coinbaseScan call view) = some left) :
    Protects call view left kept := by
  obtain ⟨listed, found, rfl⟩ := Option.map_eq_some_iff.mp ran
  exact removeListed_protects protects listed fun tx inside => listed_loose protects found inside

end Scan

def disconnected (call : TipCall) : DisconnectState :=
  (disconnectBlock call.machinery.zerocoin call.machinery.txHash call.block call.target
    call.readUndo call.pcoinsTip call.zerocoinDB).1

/-- The transactions of the block that stand on the new chain and that the relay
    policy lets in. -/
def keptTransactions (call : TipCall) (invalid : InvalidMaps) (pool : CTxMemPool) :
    Set CTransaction :=
  keptAlong call invalid (disconnected call).view (disconnected call).zerocoinDB call.block.vtx
    pool ∅

variable {txHash : CTransaction → Uint256} {ended : DisconnectState} {invalid : InvalidMaps}
variable {call : TipCall}

theorem disconnectBlock_cleared {zerocoin : ZerocoinLibrary} {block : CBlock}
    {target : DisconnectTarget} {readUndo : Option CBlockUndo} {view : UtxoView} {db : CZerocoinDB}
    (run : disconnectBlock zerocoin txHash block target readUndo view db = (ended, none))
    (inOrder : InOrder txHash block.vtx) :
    ended.view.hashBlock = target.prevHash ∧
      ∀ tx ∈ block.vtx, (ended.view.coins (txHash tx)).isPruned = true := by
  unfold disconnectBlock at run
  dsimp only at run
  split at run
  · cases run
  · split at run
    · cases run
    · split at run
      · cases run
      · rename_i blockUndo
        split at run
        · cases run
        · rename_i sizes
          have lengths : block.vtx.length ≤ (none :: blockUndo.vtxundo.map some).length := by
            simp only [List.length_cons, List.length_map]
            omega
          split at run
          · cases run
          · rename_i final undone
            have paired := List.map_fst_zip lengths
            have gone : ∀ tx ∈ block.vtx, (final.view.coins (txHash tx)).isPruned = true := by
              intro tx inside
              apply disconnectTxs_pruned undone
              · rw [paired]
                exact inOrder
              · rw [paired]
                exact inside
            split at run
            · cases run
              exact ⟨rfl, gone⟩
            · cases run
              exact ⟨rfl, gone⟩

theorem disconnectTip_cases {pool final : CTxMemPool}
    (returned : disconnectTip call invalid pool = some final) :
    ∃ ended, disconnectBlock call.machinery.zerocoin call.machinery.txHash call.block call.target
        call.readUndo call.pcoinsTip call.zerocoinDB = (ended, none) ∧
      (resurrect call invalid ended.view ended.zerocoinDB call.block.vtx pool).removeCoinbaseSpends
        call.machinery.txHash (coinbaseScan call ended.view) = some final := by
  unfold disconnectTip at returned
  split at returned
  · cases returned
  · split at returned
    · cases returned
    · rename_i ended run
      split at returned
      · cases returned
      · split at returned
        · cases returned
        · rename_i left scanned
          split at returned
          · cases returned
            exact ⟨ended, run, scanned⟩
          · cases returned

/-- When `DisconnectTip` returns, the pool holds every transaction of the block
    that is still valid and passes the relay policy at its turn. -/
theorem kept_transactions_pooled (call : TipCall) (invalid : InvalidMaps)
    (pool final : CTxMemPool) (distinct : (call.block.vtx.map call.machinery.txHash).Nodup)
    (inOrder : InOrder call.machinery.txHash call.block.vtx)
    (inStep : InStep call (disconnected call).view pool)
    (returned : disconnectTip call invalid pool = some final) :
    ∀ tx ∈ keptTransactions call invalid pool,
      final.mapTx.find? (call.machinery.txHash tx) = some (poolEntry call tx) := by
  obtain ⟨ended, run, scanned⟩ := disconnectTip_cases returned
  have same : disconnected call = ended := by rw [disconnected, run]
  obtain ⟨best, cleared⟩ := disconnectBlock_cleared run inOrder
  rw [same] at inStep
  have onParent : OnParent call ended.view := by
    rw [OnParent, UtxoView.getBestBlock, best, if_neg call.prevNamed]
  have start : Protects call ended.view pool ∅ := by
    constructor
    · exact inStep
    · intro _ member
      cases member
    · intro _ member
      cases member
    · intro _ member
      cases member
  have grown := @resurrect_protects call invalid ended.view ended.zerocoinDB pool ∅ onParent
    call.block.vtx start cleared distinct (by simp)
  have finished := removeCoinbaseSpends_protects grown scanned
  rw [keptTransactions, same]
  exact finished.pooled

theorem disconnectTip_returns {pool left : CTxMemPool}
    (before : checked call call.pcoinsTip pool = true)
    (run : disconnectBlock call.machinery.zerocoin call.machinery.txHash call.block call.target
      call.readUndo call.pcoinsTip call.zerocoinDB = (ended, none)) (clean : ended.fClean = true)
    (flushed : call.flushed = true)
    (scanned : (resurrect call invalid ended.view ended.zerocoinDB call.block.vtx
      pool).removeCoinbaseSpends call.machinery.txHash (coinbaseScan call ended.view) = some left)
    (after : checked call ended.view left = true) :
    disconnectTip call invalid pool = some left := by
  simp [disconnectTip, before, run, clean, flushed, scanned, after]

theorem remove_absent (fSanityCheck : Bool) (origTx : CTransaction) :
    ((CTxMemPool.init fSanityCheck).remove txHash origTx [] true).1 =
      CTxMemPool.init fSanityCheck := by
  have childless : (CTxMemPool.init fSanityCheck).children (txHash origTx) origTx.vout = [] := by
    simp [CTxMemPool.children, CTxMemPool.init]
  have absent : (CTxMemPool.init fSanityCheck).mapTx.find? (txHash origTx) = none := rfl
  simp only [CTxMemPool.remove, childless, ite_self]
  rw [CTxMemPool.removeLoop]
  split
  · rw [CTxMemPool.removeLoop]
  · rename_i entry found
    cases found

def tipCoinBase : CTransaction :=
  ⟨1, [⟨COutPoint.null, [1, 1], 0⟩], [⟨0, [0x51], -10⟩], 0⟩

def tipPayment : CTransaction :=
  ⟨1, [⟨⟨9, 0⟩, [], 0xffffffff⟩], [⟨4 * COIN, [0x51], -10⟩], 1⟩

def tipBlock : CBlock :=
  ⟨⟨3, mainParams.hashGenesisBlock, 0, 1540711000, 0x1e0fffff, 7, 0⟩, [tipCoinBase, tipPayment], []⟩

def tipCoins (hash : Uint256) : Option CCoins :=
  if hash = 9 then some ⟨false, false, [CTxOut.null, ⟨COIN, [0x51], -10⟩], 1, 1⟩
  else (tipBlock.vtx.find? fun tx => labelMachinery.txHash tx == hash).map (CCoins.fromTx · 1)

def tipView : UtxoView where
  cacheCoins := ∅
  hashBlock := mintTarget.blockHash
  base := tipCoins
  baseBestBlock := 0
  fresh_over_pruned := by simp

def tipUndo : Option CBlockUndo :=
  some ⟨[⟨[⟨⟨5 * COIN, [0x51], -10⟩, false, false, 0, 0⟩]⟩]⟩

def tipGone : DisconnectState :=
  (disconnectBlock labelMachinery.zerocoin labelMachinery.txHash tipBlock mintTarget tipUndo tipView
    CZerocoinDB.empty).1

def relayPolicy (isStandardTx : CTransaction → Bool) : RelayPolicy where
  requireStandard := true
  isStandardTx := isStandardTx
  areInputsStandard _ _ := true
  obfuscationBroadcast _ := false
  zerocoinMintFee := 0
  relayPriority := true
  minRelayFee _ := 10000
  allowFree _ _ := false
  standardScripts _ _ := true
  mandatoryScripts _ _ := true

def tipCall (isStandardTx : CTransaction → Bool) : TipCall where
  machinery := labelMachinery
  node := syncedNode
  policy := relayPolicy isStandardTx
  block := tipBlock
  target := mintTarget
  prev := headerEntry labelMachinery []
  readUndo := tipUndo
  pcoinsTip := tipView
  zerocoinDB := CZerocoinDB.empty
  txIndex _ := none
  flushed := true
  coinsChecked _ _ := true
  prevNamed := by decide
  prevKnown := rfl
  oneAbove := by decide

def noMarks : InvalidMaps := ⟨fun _ => false, fun _ => false⟩

def emptyPool : CTxMemPool := CTxMemPool.init false

theorem tip_disconnects :
    disconnectBlock labelMachinery.zerocoin labelMachinery.txHash tipBlock mintTarget tipUndo tipView
      CZerocoinDB.empty = (tipGone, none) := Prod.ext rfl (by decide)

theorem coinBase_offered (isStandardTx : CTransaction → Bool) :
    resurrectTx (tipCall isStandardTx) noMarks tipGone.view tipGone.zerocoinDB emptyPool tipCoinBase =
      emptyPool := by
  have coinBase : tipCoinBase.isCoinBase = true := by decide
  exact remove_absent false tipCoinBase

theorem payment_valid (isStandardTx : CTransaction → Bool) (kept : Set CTransaction) :
    StillValid (tipCall isStandardTx) tipGone.view tipGone.zerocoinDB emptyPool kept tipPayment := by
  have wellFormed : checkTransaction labelMachinery syncedNode tipGone.zerocoinDB tipPayment
      (OxidDisconnectTip.zerocoinActive (tipCall fun _ => true)) = .ok () := by decide
  have values : inputValuesPass (tipCall fun _ => true) tipGone.view emptyPool tipPayment =
      true := by decide
  constructor
  · decide
  · decide
  · decide
  · exact wellFormed
  · intro txin input
    rw [List.mem_singleton.mp input]
    left
    unfold Confirmed
    decide
  · exact values

theorem payment_passes :
    PassesPolicy (tipCall fun _ => true) noMarks tipGone.view emptyPool tipPayment := by
  constructor
  · exact fun _ => ⟨rfl, rfl⟩
  · rfl
  · decide
  · exact fun _ _ => rfl
  · intro txin input
    rw [List.mem_singleton.mp input]
    decide
  · decide
  · decide
  · decide

def paymentPool : CTxMemPool :=
  emptyPool.addUnchecked (labelMachinery.txHash tipPayment) (poolEntry (tipCall fun _ => true) tipPayment)

theorem payment_returns :
    disconnectTip (tipCall fun _ => true) noMarks emptyPool = some paymentPool := by
  have offered : resurrect (tipCall fun _ => true) noMarks tipGone.view tipGone.zerocoinDB
      tipBlock.vtx emptyPool = paymentPool := by
    have user : (tipPayment.isCoinBase || tipPayment.isCoinStake) = false := by decide
    change resurrectTx _ noMarks tipGone.view tipGone.zerocoinDB (resurrectTx _ noMarks tipGone.view
      tipGone.zerocoinDB emptyPool tipCoinBase) tipPayment = paymentPool
    rw [coinBase_offered]
    rfl
  have listed : paymentPool.transactionsToRemove (coinbaseScan (tipCall fun _ => true) tipGone.view)
      paymentPool.mapTx.entries = some [] := by decide
  apply disconnectTip_returns rfl tip_disconnects (by decide) rfl
  · change (resurrect (tipCall fun _ => true) noMarks tipGone.view tipGone.zerocoinDB
      tipBlock.vtx emptyPool).removeCoinbaseSpends _ _ = some paymentPool
    rw [offered, CTxMemPool.removeCoinbaseSpends, listed]
    rfl
  · rfl

theorem payment_kept : tipPayment ∈ keptTransactions (tipCall fun _ => true) noMarks emptyPool := by
  right
  change tipPayment = tipPayment ∧ StillValid _ tipGone.view tipGone.zerocoinDB
    (resurrectTx _ noMarks tipGone.view tipGone.zerocoinDB emptyPool tipCoinBase) _ tipPayment ∧ _
  refine ⟨rfl, ?_⟩
  rw [coinBase_offered]
  refine ⟨payment_valid _ _, ?_⟩
  change PassesPolicy _ noMarks tipGone.view
    (resurrectTx _ noMarks tipGone.view tipGone.zerocoinDB emptyPool tipCoinBase) tipPayment
  rw [coinBase_offered]
  exact payment_passes

theorem emptyPool_inStep (call : TipCall) (view : UtxoView) : InStep call view emptyPool := by
  constructor
  · nofun
  · nofun
  · nofun

theorem tip_inOrder : InOrder labelMachinery.txHash tipBlock.vtx := by
  constructor
  · intro spending
    exact absurd spending (by decide)
  · constructor
    · intro _ txin input later after
      rw [List.mem_singleton.mp input, List.mem_singleton.mp after]
      decide
    · trivial

theorem payment_pooled : tipPayment ∈ keptTransactions (tipCall fun _ => true) noMarks emptyPool ∧
    ∀ tx ∈ keptTransactions (tipCall fun _ => true) noMarks emptyPool,
      paymentPool.mapTx.find? (labelMachinery.txHash tx) =
        some (poolEntry (tipCall fun _ => true) tx) :=
  ⟨payment_kept,
    kept_transactions_pooled (tipCall fun _ => true) noMarks emptyPool paymentPool (by decide)
      tip_inOrder (emptyPool_inStep _ _) payment_returns⟩

theorem nonstandard_returns :
    disconnectTip (tipCall fun _ => false) noMarks emptyPool = some emptyPool := by
  have offered : resurrect (tipCall fun _ => false) noMarks tipGone.view tipGone.zerocoinDB
      tipBlock.vtx emptyPool = emptyPool := by
    have refused : accepts (tipCall fun _ => false) tipGone.view tipGone.zerocoinDB emptyPool noMarks
        tipPayment = false := by decide
    change resurrectTx (tipCall fun _ => false) noMarks tipGone.view tipGone.zerocoinDB
      (resurrectTx (tipCall fun _ => false) noMarks tipGone.view tipGone.zerocoinDB emptyPool
        tipCoinBase) tipPayment = emptyPool
    rw [coinBase_offered]
    exact remove_absent false tipPayment
  have listed : emptyPool.transactionsToRemove (coinbaseScan (tipCall fun _ => false) tipGone.view)
      emptyPool.mapTx.entries = some [] := rfl
  apply disconnectTip_returns rfl tip_disconnects (by decide) rfl
  · change (resurrect (tipCall fun _ => false) noMarks tipGone.view tipGone.zerocoinDB
      tipBlock.vtx emptyPool).removeCoinbaseSpends _ _ = some emptyPool
    rw [offered, CTxMemPool.removeCoinbaseSpends, listed]
    rfl
  · rfl

theorem nonstandard_not_pooled :
    ¬ ∀ (call : TipCall) (invalid : InvalidMaps) (pool final : CTxMemPool),
      disconnectTip call invalid pool = some final →
      ∀ tx ∈ call.block.vtx,
        StillValid call (disconnected call).view (disconnected call).zerocoinDB pool ∅ tx →
        (final.mapTx.find? (call.machinery.txHash tx)).isSome := by
  intro pooled
  have found := pooled (tipCall fun _ => false) noMarks emptyPool emptyPool nonstandard_returns
    tipPayment (List.mem_cons_of_mem _ List.mem_cons_self) (payment_valid _ ∅)
  cases found

end OxidResurrection
