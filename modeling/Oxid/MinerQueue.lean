import Oxid.Miner

/-!
The queue of `CreateNewBlock` from the scan to the end of its loop. No transaction comes to
the front twice: an orphan that is released stays so.
-/
namespace OxidMinerQueue
open OxidPrimitives OxidCoins OxidUtxoView OxidDisconnectBlock OxidChainParams OxidNode
open OxidCheckBlock OxidConnectBlock OxidMempool OxidBlockValidity OxidMiner
open OrderedMaps OxidMapKeys FrontHeap Attempt

variable {Double : Type} {machinery : Machinery} {node : Node} {call : MinerCall Double}
variable {nHeight : Int} {coins : Uint256 → CCoins}

section Scan

variable {hash : Uint256} {tx : CTransaction}

theorem dependOn_find? (call : MinerCall Double) (hash : Uint256) (tx : CTransaction)
    (prevout : COutPoint) (parent : CTxMemPoolEntry) (scan : InputScan Double) :
    (∀ other, other ≠ hash →
      (dependOn call hash tx prevout parent scan).vOrphan.find? other =
        scan.vOrphan.find? other) ∧
    ∃ porphan, (dependOn call hash tx prevout parent scan).vOrphan.find? hash = some porphan ∧
      porphan.ptx = ((scan.vOrphan.find? hash).getD ⟨tx, ∅, 0, call.doubles.zero⟩).ptx := by
  constructor
  · intro other different
    exact OrderedMap.find?_set_other _ _ different
  · simp only [dependOn, OrderedMap.find?_set_same]
    exact ⟨_, rfl, rfl⟩

variable {scan result : InputScan Double} {vin : List CTxIn}

theorem scanInputs_orphans (scanned : scanInputs call nHeight coins hash tx vin scan = .ok result)
    (own : ∀ porphan, scan.vOrphan.find? hash = some porphan → porphan.ptx = tx) :
    (∀ other, other ≠ hash → result.vOrphan.find? other = scan.vOrphan.find? other) ∧
      ∀ porphan, result.vOrphan.find? hash = some porphan → porphan.ptx = tx := by
  induction vin generalizing scan with
  | nil =>
    cases scanned
    exact ⟨fun _ _ => rfl, own⟩
  | cons txin rest ih =>
    unfold scanInputs at scanned
    split at scanned
    · split at scanned
      · split at scanned
        · cases scanned
        · cases scanned
          constructor
          · intro other different
            exact OrderedMap.find?_erase_other _ different
          · intro porphan found
            rw [OrderedMap.find?_erase_same] at found
            cases found
      · rename_i parent _
        obtain ⟨others, standing, found, same⟩ :=
          dependOn_find? call hash tx txin.prevout parent scan
        obtain ⟨kept, mine⟩ := ih scanned (by
          intro porphan again
          rw [found] at again
          cases again
          rw [same]
          cases before : scan.vOrphan.find? hash with
          | none => rfl
          | some porphan => exact own porphan before)
        constructor
        · intro other different
          rw [kept other different, others other different]
        · exact mine
    · split at scanned
      · cases scanned
        exact ⟨fun _ _ => rfl, own⟩
      · obtain ⟨kept, mine⟩ := ih scanned own
        exact ⟨kept, mine⟩

theorem scanInputs_screened (scanned : scanInputs call nHeight coins hash tx vin scan = .ok result)
    (screened : (vin.takeWhile fun txin => haveCoins coins txin.prevout.hash).any
      (fun txin => call.globals.invalid.outPoints txin.prevout) = true) :
    result.fMissingInputs = true ∧ result.vOrphan = scan.vOrphan := by
  induction vin generalizing scan with
  | nil => cases screened
  | cons first rest ih =>
    unfold scanInputs at scanned
    by_cases confirmed : haveCoins coins first.prevout.hash = true
    · simp only [List.takeWhile_cons, confirmed, if_true, List.any_cons, Bool.or_eq_true] at screened
      simp only [confirmed, Bool.not_true, Bool.false_eq_true, if_false] at scanned
      split at scanned
      · cases scanned
        exact ⟨rfl, rfl⟩
      · rename_i unmarked
        obtain ⟨missing, kept⟩ := ih scanned (screened.resolve_left unmarked)
        exact ⟨missing, kept⟩
    · simp [confirmed] at screened

end Scan

/-- What a property of pooled transactions makes of the scan's two stores. The names
    are those of the transactions looked at so far. -/
structure Scanned (P : CTransaction → Prop) (machinery : Machinery) (seen : List Uint256)
    (state : ScanState Double) : Prop where
  orphans : ∀ name porphan, state.vOrphan.find? name = some porphan →
    name ∈ seen ∧ machinery.txHash porphan.ptx = name ∧ P porphan.ptx
  queue : ∀ item ∈ state.vecPriority, machinery.txHash item.ptx ∈ seen ∧ P item.ptx ∧
    state.vOrphan.find? (machinery.txHash item.ptx) = none
  distinct : (state.vecPriority.map fun item => machinery.txHash item.ptx).Nodup

def Files (P : CTransaction → Prop) (node : Node) (call : MinerCall Double) (nHeight : Int)
    (coins : Uint256 → CCoins) : Prop :=
  ∀ hash entry, call.mempool.mapTx.find? hash = some entry →
    passesOver node nHeight entry.tx = false →
    ∀ scan result : InputScan Double, scan.vOrphan.find? hash = none →
      scanInputs call nHeight coins hash entry.tx entry.tx.vin scan = .ok result →
      (result.fMissingInputs = false ∨ result.vOrphan.find? hash ≠ none) → P entry.tx

def NamedPool (machinery : Machinery) (pool : CTxMemPool) : Prop :=
  ∀ hash entry, pool.mapTx.find? hash = some entry → machinery.txHash entry.tx = hash

section Scan

variable {P : CTransaction → Prop} {seen : List Uint256}

theorem scanned_orphan {state : ScanState Double} (held : Scanned P machinery seen state)
    {hash : Uint256} (unseen : hash ∉ seen) {vOrphan : OrderedMap Uint256 (COrphan Double)}
    (others : ∀ other, other ≠ hash → vOrphan.find? other = state.vOrphan.find? other)
    (own : ∀ porphan, vOrphan.find? hash = some porphan →
      machinery.txHash porphan.ptx = hash ∧ P porphan.ptx)
    (mapDependers : OrderedMap Uint256 (List Uint256)) :
    Scanned P machinery (seen ++ [hash]) ⟨vOrphan, mapDependers, state.vecPriority⟩ := by
  constructor
  · intro name porphan found
    by_cases same : name = hash
    · subst same
      obtain ⟨named, holds⟩ := own porphan found
      exact ⟨by simp, named, holds⟩
    · rw [others name same] at found
      obtain ⟨member, named, holds⟩ := held.orphans name porphan found
      exact ⟨List.mem_append_left _ member, named, holds⟩
  · intro item member
    obtain ⟨inside, holds, absent⟩ := held.queue item member
    refine ⟨List.mem_append_left _ inside, holds, ?_⟩
    rw [others _ fun same => unseen (same ▸ inside)]
    exact absent
  · exact held.distinct

theorem scanTx_scanned (files : Files P node call nHeight coins)
    (named : NamedPool machinery call.mempool) {item : Uint256 × CTxMemPoolEntry}
    {state next : ScanState Double} (pooled : call.mempool.mapTx.find? item.1 = some item.2)
    (unseen : item.1 ∉ seen) (held : Scanned P machinery seen state)
    (scanned : scanTx machinery node call nHeight coins item state = .ok next) :
    Scanned P machinery (seen ++ [item.1]) next := by
  have fresh : state.vOrphan.find? item.1 = none := by
    cases found : state.vOrphan.find? item.1 with
    | none => rfl
    | some porphan => exact absurd (held.orphans item.1 porphan found).1 unseen
  have name := named item.1 item.2 pooled
  unfold scanTx at scanned
  split at scanned
  · cases scanned
    refine scanned_orphan held unseen (fun _ _ => rfl) ?_ state.mapDependers
    intro porphan found
    rw [fresh] at found
    cases found
  · rename_i looked
    simp only [bind_ok] at scanned
    obtain ⟨scan, inputs, filed⟩ := scanned
    have own : ∀ porphan, state.vOrphan.find? item.1 = some porphan →
        porphan.ptx = item.2.tx := by
      intro porphan found
      rw [fresh] at found
      cases found
    obtain ⟨others, mine⟩ := scanInputs_orphans inputs own
    have holds := files item.1 item.2 pooled (by simpa using looked) _ scan fresh inputs
    have registered : ∀ porphan, scan.vOrphan.find? item.1 = some porphan →
        machinery.txHash porphan.ptx = item.1 ∧ P porphan.ptx := by
      intro porphan found
      rw [mine porphan found]
      exact ⟨name, holds (Or.inr (by simp [found]))⟩
    split at filed
    · cases filed
      exact scanned_orphan held unseen others registered scan.mapDependers
    · rename_i passed
      simp only [bind_ok, Except.ok.injEq] at filed
      obtain ⟨nValueOut, _, rfl⟩ := filed
      have kept := holds (Or.inl (by simpa using passed))
      simp only [fileTx]
      split
      · rename_i porphan found
        refine scanned_orphan held unseen ?_ ?_ scan.mapDependers
        · intro other different
          rw [OrderedMap.find?_set_other _ _ different]
          exact others other different
        · intro again standing
          rw [OrderedMap.find?_set_same] at standing
          cases standing
          exact registered porphan found
      · rename_i absent
        have both := scanned_orphan held unseen others registered scan.mapDependers
        constructor
        · exact both.orphans
        · intro other member
          rcases List.mem_append.mp member with there | here
          · exact both.queue other there
          · rw [List.mem_singleton] at here
            subst here
            simp only [name]
            exact ⟨by simp, kept, absent⟩
        · rw [List.map_append, List.map_singleton, List.nodup_append]
          refine ⟨held.distinct, List.nodup_singleton _, ?_⟩
          intro earlier member last here
          rw [List.mem_singleton] at here
          obtain ⟨other, inside, rfl⟩ := List.mem_map.mp member
          rw [here]
          intro same
          rw [name] at same
          exact unseen (same ▸ (held.queue other inside).1)

theorem scanPool_scanned (files : Files P node call nHeight coins)
    (named : NamedPool machinery call.mempool) {items : List (Uint256 × CTxMemPoolEntry)}
    {state final : ScanState Double}
    (pooled : ∀ item ∈ items, call.mempool.mapTx.find? item.1 = some item.2)
    (distinct : (seen ++ items.map Prod.fst).Nodup) (held : Scanned P machinery seen state)
    (scanned : scanPool machinery node call nHeight coins items state = .ok final) :
    Scanned P machinery (seen ++ items.map Prod.fst) final := by
  induction items generalizing seen state with
  | nil =>
    cases scanned
    simpa using held
  | cons item rest ih =>
    simp only [scanPool, bind_ok] at scanned
    obtain ⟨next, first, later⟩ := scanned
    have unseen : item.1 ∉ seen := by
      intro member
      exact (List.nodup_append.mp distinct).2.2 _ member item.1 (by simp) rfl
    have stepped := scanTx_scanned files named (pooled item (by simp)) unseen held first
    have joined : seen ++ (item :: rest).map Prod.fst =
        (seen ++ [item.1]) ++ rest.map Prod.fst := by simp
    rw [joined] at distinct ⊢
    exact ih (fun other member => pooled other (by simp [member])) distinct stepped later

end Scan

structure Admits (machinery : Machinery) (call : MinerCall Double) (nHeight : Int)
    (tx : CTransaction) (state : Collection Double) (nTxFees : Int) (nTxSigOps : Nat)
    (view : UtxoView) : Prop where
  fits : state.nBlockSize + machinery.txSize tx < nBlockMaxSize call
  available : haveInputs state.view.coins tx = true
  fees : ∃ nValueIn nValueOut, viewValueIn machinery state.view.coins tx = .ok nValueIn ∧
    getValueOut tx = .ok nValueOut ∧ nTxFees = nValueIn - nValueOut
  sigOps : nTxSigOps =
    machinery.legacySigOpCount tx + machinery.p2shSigOpCount tx state.view.coins
  bounded : state.nBlockSigOps + nTxSigOps < MAX_BLOCK_SIGOPS_CURRENT
  updated : ∃ undo, updateCoins machinery.txHash (Int32.ofInt nHeight) tx state.view =
    some (view, undo)

theorem considerTx_cases {item : TxPriority Double} {state next : Collection Double}
    (considered : considerTx machinery node call nHeight item state = .ok next) :
    (∃ sorted, next = { state with fSortedByFee := sorted }) ∨
    ∃ sorted nTxFees nTxSigOps view,
      Admits machinery call nHeight item.ptx state nTxFees nTxSigOps view ∧
      next = releaseDependers (machinery.txHash item.ptx)
        (addTx machinery item.ptx nTxFees nTxSigOps view { state with fSortedByFee := sorted }) := by
  unfold considerTx at considered
  simp only at considered
  split at considered
  · cases considered
    exact Or.inl ⟨_, rfl⟩
  split at considered
  · cases considered
    exact Or.inl ⟨_, rfl⟩
  split at considered
  · cases considered
    exact Or.inl ⟨_, rfl⟩
  unfold weighTx at considered
  split at considered
  · cases considered
    exact Or.inl ⟨_, rfl⟩
  rename_i available
  simp only [bind_ok] at considered
  obtain ⟨nValueIn, gained, nValueOut, paid, considered⟩ := considered
  split at considered
  · cases considered
    exact Or.inl ⟨_, rfl⟩
  rename_i bounded
  unfold admitTx at considered
  split at considered
  · cases considered
    exact Or.inl ⟨_, rfl⟩
  · cases considered
  · split at considered
    · cases considered
    · rename_i view undo updated
      cases considered
      refine Or.inr ⟨_, _, _, view, ?_, rfl⟩
      constructor
      · omega
      · simpa using available
      · exact ⟨nValueIn, nValueOut, gained, paid, rfl⟩
      · rfl
      · simpa using bounded
      · exact ⟨undo, updated⟩

def names (machinery : Machinery) (items : List (TxPriority Double)) : List Uint256 :=
  items.map fun item => machinery.txHash item.ptx

/-- The queue and the orphans while transactions are taken off. An orphan that still
    waits has neither been taken nor queued. -/
structure Queued (P : CTransaction → Prop) (machinery : Machinery) (taken : List Uint256)
    (state : Collection Double) : Prop where
  orphans : ∀ name porphan, state.vOrphan.find? name = some porphan →
    machinery.txHash porphan.ptx = name ∧ P porphan.ptx
  queue : ∀ item ∈ state.vecPriority, P item.ptx
  distinct : (taken ++ names machinery state.vecPriority).Nodup
  waiting : ∀ name porphan, state.vOrphan.find? name = some porphan →
    porphan.setDependsOn ≠ ∅ → name ∉ taken ++ names machinery state.vecPriority

section Loop

variable {P : CTransaction → Prop} {taken : List Uint256}

theorem startCollection_queued {scanned : ScanState Double} {seen : List Uint256}
    (held : Scanned P machinery seen scanned) (view : UtxoView) :
    Queued P machinery [] (startCollection call scanned view) := by
  constructor
  · exact fun name porphan found => (held.orphans name porphan found).2
  · exact fun item member => (held.queue item member).2.1
  · exact held.distinct
  · intro name porphan found _ member
    obtain ⟨item, inside, rfl⟩ := List.mem_map.mp member
    cases (held.queue item inside).2.2.symm.trans found

variable {state : Collection Double} {item : TxPriority Double}

theorem release_queued (hash name : Uint256) (queued : Queued P machinery taken state) :
    Queued P machinery taken (release hash state name) := by
  unfold release
  split
  · exact queued
  rename_i porphan found
  split
  · exact queued
  rename_i waits
  obtain ⟨named, holds⟩ := queued.orphans name porphan found
  have apart := queued.waiting name porphan found waits
  have orphans : ∀ other (standing : COrphan Double),
      (state.vOrphan.set name { porphan with
        setDependsOn := porphan.setDependsOn.erase hash }).find? other = some standing →
      machinery.txHash standing.ptx = other ∧ P standing.ptx := by
    intro other standing again
    rcases OrderedMap.find?_set_some again with ⟨same, is⟩ | ⟨_, before⟩
    · rw [same, is]
      exact ⟨named, holds⟩
    · exact queued.orphans other standing before
  dsimp only
  split
  · rename_i released
    have listed : taken ++ names machinery (state.vecPriority ++
        [⟨porphan.dPriority, porphan.feeRate, porphan.ptx⟩]) =
        (taken ++ names machinery state.vecPriority) ++ [name] := by
      simp [names, named]
    constructor
    · exact orphans
    · intro item member
      rcases List.mem_append.mp member with there | here
      · exact queued.queue item there
      · rw [List.mem_singleton] at here
        rw [here]
        exact holds
    · rw [listed, List.nodup_append]
      refine ⟨queued.distinct, List.nodup_singleton _, ?_⟩
      intro earlier member last here
      rw [List.mem_singleton] at here
      rw [here]
      intro same
      exact apart (same ▸ member)
    · intro other standing again still member
      rw [listed, List.mem_append, List.mem_singleton] at member
      rcases OrderedMap.find?_set_some again with ⟨_, is⟩ | ⟨different, before⟩
      · rw [is] at still
        exact still released
      · exact queued.waiting other standing before still (member.resolve_right different)
  · constructor
    · exact orphans
    · exact queued.queue
    · exact queued.distinct
    · intro other standing again still
      by_cases same : other = name
      · rw [same]
        exact apart
      · rw [OrderedMap.find?_set_other _ _ same] at again
        exact queued.waiting other standing again still

theorem release_frame (hash name : Uint256) (state : Collection Double) :
    release hash state name = { state with
      vOrphan := (release hash state name).vOrphan
      vecPriority := (release hash state name).vecPriority } := by
  unfold release
  split
  · rfl
  · split
    · rfl
    · rfl

theorem releaseDependers_frame (hash : Uint256) (state : Collection Double) :
    releaseDependers hash state = { state with
      vOrphan := (releaseDependers hash state).vOrphan
      vecPriority := (releaseDependers hash state).vecPriority } := by
  unfold releaseDependers
  generalize (state.mapDependers.find? hash).getD [] = dependers
  induction dependers generalizing state with
  | nil => rfl
  | cons name rest ih =>
    rw [List.foldl_cons, ih, release_frame]

theorem releaseDependers_queued (hash : Uint256) (queued : Queued P machinery taken state) :
    Queued P machinery taken (releaseDependers hash state) := by
  unfold releaseDependers
  generalize (state.mapDependers.find? hash).getD [] = dependers
  induction dependers generalizing state with
  | nil => exact queued
  | cons name rest ih => exact ih (release_queued hash name queued)

theorem popHeap_queued {less : TxPriority Double → TxPriority Double → Bool}
    {rest : List (TxPriority Double)} (queued : Queued P machinery taken state)
    (popped : call.heap.popHeap less state.vecPriority = some (item, rest)) :
    P item.ptx ∧ Queued P machinery (taken ++ [machinery.txHash item.ptx])
      { state with vecPriority := rest } := by
  have same := call.heap.popHeap_perm less state.vecPriority item rest popped
  have listed : (taken ++ names machinery state.vecPriority).Perm
      ((taken ++ [machinery.txHash item.ptx]) ++ names machinery rest) := by
    rw [List.append_assoc]
    exact ((same.map fun item => machinery.txHash item.ptx).symm).append_left taken
  refine ⟨queued.queue item (same.subset (by simp)), ?_⟩
  constructor
  · exact queued.orphans
  · exact fun other member => queued.queue other (same.subset (by simp [member]))
  · exact listed.nodup queued.distinct
  · intro name porphan found waits member
    exact queued.waiting name porphan found waits (listed.symm.subset member)

theorem considerTx_queued {state next : Collection Double} (queued : Queued P machinery taken state)
    (considered : considerTx machinery node call nHeight item state = .ok next) :
    Queued P machinery taken next := by
  rcases considerTx_cases considered with ⟨_, rfl⟩ | ⟨_, _, _, _, _, rfl⟩
  · exact ⟨queued.orphans, queued.queue, queued.distinct, queued.waiting⟩
  · apply releaseDependers_queued
    exact ⟨queued.orphans, queued.queue, queued.distinct, queued.waiting⟩

theorem collectLoop_run {holds : List Uint256 → Collection Double → Prop}
    (step : ∀ taken (state next : Collection Double) item rest,
      Queued P machinery taken state → holds taken state → P item.ptx →
      Queued P machinery (taken ++ [machinery.txHash item.ptx])
        { state with vecPriority := rest } →
      considerTx machinery node call nHeight item { state with vecPriority := rest } = .ok next →
      holds (taken ++ [machinery.txHash item.ptx]) next)
    {rounds : Nat} {state final : Collection Double} (queued : Queued P machinery taken state)
    (held : holds taken state)
    (ran : collectLoop machinery node call nHeight rounds state = .ok final) :
    ∃ all, Queued P machinery all final ∧ holds all final ∧
      (final.vecPriority = [] ∨ all.length = taken.length + rounds) := by
  induction rounds generalizing taken state with
  | zero =>
    cases ran
    exact ⟨taken, queued, held, Or.inr rfl⟩
  | succ rounds ih =>
    unfold collectLoop at ran
    split at ran
    · rename_i nothing
      cases ran
      exact ⟨taken, queued, held, Or.inl (call.heap.popHeap_none _ _ nothing)⟩
    · rename_i item rest popped
      simp only [bind_ok] at ran
      obtain ⟨next, considered, later⟩ := ran
      obtain ⟨good, left⟩ := popHeap_queued queued popped
      obtain ⟨all, kept, ends, drained⟩ := ih (considerTx_queued left considered)
        (step taken state next item rest queued held good left considered) later
      refine ⟨all, kept, ends, drained.imp_right ?_⟩
      intro used
      rw [used, List.length_append, List.length_singleton]
      omega

end Loop

section Runs

variable {P : CTransaction → Prop}

/-- The transactions taken off and those still queued are pooled, each once. So a
    round for each pooled transaction empties the queue. -/
theorem queue_drained {taken : List Uint256} {final : Collection Double}
    (pooled : ∀ name ∈ taken ++ names machinery final.vecPriority, ∃ entry,
      call.mempool.mapTx.find? name = some entry)
    (queued : Queued P machinery taken final)
    (ended : final.vecPriority = [] ∨ taken.length = call.mempool.mapTx.size) :
    final.vecPriority = [] := by
  rcases ended with drained | used
  · exact drained
  have inside : taken ++ names machinery final.vecPriority ⊆
      call.mempool.mapTx.entries.map Prod.fst := by
    intro name member
    obtain ⟨entry, found⟩ := pooled name member
    exact List.mem_map.mpr ⟨(name, entry), (OrderedMap.mem_entries_iff _ _ _).mpr found, rfl⟩
  have bound := (List.subperm_of_subset queued.distinct inside).length_le
  rw [List.length_append, List.length_map] at bound
  have size : call.mempool.mapTx.size = call.mempool.mapTx.entries.length := rfl
  have none' : (names machinery final.vecPriority).length = 0 := by omega
  unfold names at none'
  rw [List.length_map] at none'
  exact List.eq_nil_of_length_eq_zero none'

end Runs

end OxidMinerQueue
