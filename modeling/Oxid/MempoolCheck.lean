import Oxid.Library.Runs
import Oxid.Mempool

/-!
What `check` asserts of the pool, over whole runs. A zerocoin spend is pooled with inputs no
map entry mentions, which the assertions make no room for.
-/
namespace OxidMempoolCheck
open OxidPrimitives OxidMempool OrderedMaps IndexedTables OxidMapKeys Runs

structure Consistent (pool : CTxMemPool) : Prop where
  indexed : Indexed prevouts CInPoint.mk pool.mapTx pool.mapNextTx
  sized : pool.totalTxSize = total CTxMemPoolEntry.nTxSize pool.mapTx

theorem marks_apart : Function.Injective2 CInPoint.mk := by
  intro a b i j same
  cases same
  exact ⟨rfl, rfl⟩

theorem inputsMarked_iff (pool : CTxMemPool) (hash : Uint256) (entry : CTxMemPoolEntry) :
    pool.inputsMarked hash entry = true ↔ ∀ (i : Nat) prevout, (prevouts entry)[i]? = some prevout →
      pool.mapNextTx.find? prevout = some ⟨hash, i⟩ := by
  simp only [CTxMemPool.inputsMarked, List.all_eq_true, Prod.forall,
    List.mk_mem_zipIdx_iff_getElem?, beq_iff_eq]
  constructor
  · intro marked i prevout position
    exact marked prevout i position
  · intro marked prevout i position
    exact marked i prevout position

theorem spenderPooled_iff (pool : CTxMemPool) (out : COutPoint) (spent : CInPoint) :
    pool.spenderPooled out spent = true ↔ ∃ key entry, ∃ i : Nat,
      pool.mapTx.find? key = some entry ∧ (prevouts entry)[i]? = some out ∧ spent = ⟨key, i⟩ := by
  simp only [CTxMemPool.spenderPooled]
  constructor
  · intro pooled
    split at pooled
    · cases pooled
    · rename_i entry standing
      exact ⟨spent.ptx, entry, spent.n, standing, by simpa using pooled, rfl⟩
  · rintro ⟨key, entry, i, standing, position, rfl⟩
    simp [standing, position]

theorem check_iff (pool : CTxMemPool) : pool.check = true ↔ Consistent pool := by
  simp only [CTxMemPool.check, Bool.and_eq_true, List.all_eq_true, Prod.forall,
    OrderedMap.mem_entries_iff, inputsMarked_iff, spenderPooled_iff, beq_iff_eq]
  constructor
  · rintro ⟨⟨listed, owned⟩, sized⟩
    exact ⟨⟨listed, owned⟩, sized⟩
  · rintro ⟨⟨listed, owned⟩, sized⟩
    exact ⟨⟨listed, owned⟩, sized⟩

section Calls
variable {txHash : CTransaction → Uint256} {pool : CTxMemPool}

theorem init_consistent (fSanityCheck : Bool) : Consistent (CTxMemPool.init fSanityCheck) :=
  ⟨empty_indexed, rfl⟩

variable {entry : CTxMemPoolEntry} {hash : Uint256}

theorem drop_consistent (consistent : Consistent pool) (pooled : pool.mapTx.find? hash = some entry)
    : Consistent (pool.drop hash entry) := by
  constructor
  · exact drop_indexed consistent.indexed marks_apart pooled
  · simp only [CTxMemPool.drop, consistent.sized, total_erase _ pooled]

theorem removeLoop_consistent (fRecursive : Bool) (removed : List CTransaction)
    (txToRemove : List Uint256) (consistent : Consistent pool) :
    Consistent (pool.removeLoop fRecursive removed txToRemove).1 := by
  fun_induction CTxMemPool.removeLoop fRecursive pool removed txToRemove with
  | case1 => exact consistent
  | case2 pool removed hash queue absent ih => exact ih consistent
  | case3 pool removed hash queue entry pooled ih => exact ih (drop_consistent consistent pooled)

theorem remove_consistent (origTx : CTransaction) (removed : List CTransaction)
    (fRecursive : Bool) (consistent : Consistent pool) :
    Consistent (pool.remove txHash origTx removed fRecursive).1 :=
  removeLoop_consistent fRecursive removed _ consistent

theorem removeConflict_consistent (tx : CTransaction) (removed : List CTransaction) (txin : CTxIn)
    (consistent : Consistent pool) :
    Consistent (CTxMemPool.removeConflict txHash tx (pool, removed) txin).1 := by
  simp only [CTxMemPool.removeConflict]
  split
  · exact consistent
  · split
    · exact consistent
    · split
      · exact consistent
      · exact remove_consistent _ removed true consistent

theorem removeConflicts_consistent (tx : CTransaction) (removed : List CTransaction)
    (consistent : Consistent pool) :
    Consistent (pool.removeConflicts txHash tx removed).1 := by
  simp only [CTxMemPool.removeConflicts]
  generalize tx.vin = inputs
  induction inputs generalizing pool removed with
  | nil => exact consistent
  | cons txin rest ih =>
    exact ih _ (removeConflict_consistent tx removed txin consistent)

theorem removeForBlock_consistent (vtx : List CTransaction) (conflicts : List CTransaction)
    (consistent : Consistent pool) :
    Consistent (pool.removeForBlock txHash vtx conflicts).1 := by
  simp only [CTxMemPool.removeForBlock]
  induction vtx generalizing pool conflicts with
  | nil => exact consistent
  | cons tx rest ih =>
    apply ih
    exact removeConflicts_consistent tx conflicts (remove_consistent tx [] false consistent)

theorem removeListed_consistent (listed : List CTransaction) (consistent : Consistent pool) :
    Consistent (pool.removeListed txHash listed) := by
  simp only [CTxMemPool.removeListed]
  induction listed generalizing pool with
  | nil => exact consistent
  | cons tx rest ih =>
    exact ih (remove_consistent tx [] true consistent)

theorem clear_consistent (pool : CTxMemPool) : Consistent pool.clear := ⟨empty_indexed, rfl⟩

/-- What the caller has checked of a transaction it adds: it is not pooled yet,
    and its inputs are its own. Of a zerocoin spend only the first is asked. -/
structure Accepted (txHash : CTransaction → Uint256) (pool : CTxMemPool) (hash : Uint256)
    (entry : CTxMemPoolEntry) : Prop where
  named : hash = txHash entry.tx
  fresh : pool.mapTx.find? hash = none
  distinct : entry.tx.isZerocoinSpend = false → (prevouts entry).Nodup
  free : entry.tx.isZerocoinSpend = false →
    ∀ prevout ∈ prevouts entry, pool.mapNextTx.find? prevout = none

theorem addUnchecked_sized (consistent : Consistent pool) (fresh : pool.mapTx.find? hash = none) :
    (pool.addUnchecked hash entry).totalTxSize =
      total CTxMemPoolEntry.nTxSize (pool.addUnchecked hash entry).mapTx := by
  simp only [CTxMemPool.addUnchecked, consistent.sized, total_set _ entry fresh]

theorem spend_has_inputs (spend : entry.tx.isZerocoinSpend = true) :
    prevouts entry ≠ [] := by
  intro none
  simp only [prevouts, List.map_eq_nil_iff] at none
  simp [CTransaction.isZerocoinSpend, none] at spend

theorem addUnchecked_consistent_iff (consistent : Consistent pool)
    (accepted : Accepted txHash pool hash entry) :
    Consistent (pool.addUnchecked hash entry) ↔ entry.tx.isZerocoinSpend = false := by
  constructor
  · intro after
    cases spend : entry.tx.isZerocoinSpend with
    | false => rfl
    | true =>
      have indexed := after.indexed
      simp only [CTxMemPool.addUnchecked, spend, if_true] at indexed
      exact absurd indexed (unmarked_not_indexed consistent.indexed marks_apart accepted.fresh
        (spend_has_inputs spend))
  · intro ordinary
    constructor
    · simp only [CTxMemPool.addUnchecked, ordinary, Bool.false_eq_true, if_false]
      exact add_indexed consistent.indexed accepted.fresh (accepted.distinct ordinary)
        (accepted.free ordinary)
    · exact addUnchecked_sized consistent accepted.fresh

end Calls

inductive PoolCall where
  | addUnchecked (hash : Uint256) (entry : CTxMemPoolEntry)
  | remove (origTx : CTransaction) (fRecursive : Bool)
  | removeConflicts (tx : CTransaction)
  | removeCoinbaseSpends (scan : CTxMemPool.CoinbaseScan)
  | removeForBlock (vtx : List CTransaction)
  | clear

namespace PoolCall

def run (txHash : CTransaction → Uint256) (pool : CTxMemPool) : PoolCall → Option CTxMemPool
  | .addUnchecked hash entry => some (pool.addUnchecked hash entry)
  | .remove origTx fRecursive => some (pool.remove txHash origTx [] fRecursive).1
  | .removeConflicts tx => some (pool.removeConflicts txHash tx []).1
  | .removeCoinbaseSpends scan => pool.removeCoinbaseSpends txHash scan
  | .removeForBlock vtx => some (pool.removeForBlock txHash vtx []).1
  | .clear => some pool.clear

def addsZerocoinSpend : PoolCall → Bool
  | .addUnchecked _ entry => entry.tx.isZerocoinSpend
  | _ => false

def Admitted (txHash : CTransaction → Uint256) (pool : CTxMemPool) : PoolCall → Prop
  | .addUnchecked hash entry => Accepted txHash pool hash entry
  | _ => True

end PoolCall

theorem call_consistent_iff {txHash : CTransaction → Uint256} {pool next : CTxMemPool}
    (consistent : Consistent pool) {call : PoolCall} (admitted : call.Admitted txHash pool)
    (ran : call.run txHash pool = some next) :
    Consistent next ↔ call.addsZerocoinSpend = false := by
  have kept : ∀ after, Consistent after → some after = some next →
      (Consistent next ↔ (false : Bool) = false) := by
    intro after good same
    cases same
    simp [good]
  cases call with
  | addUnchecked hash entry =>
    cases ran
    exact addUnchecked_consistent_iff consistent admitted
  | remove origTx fRecursive => exact kept _ (remove_consistent origTx [] fRecursive consistent) ran
  | removeConflicts tx => exact kept _ (removeConflicts_consistent tx [] consistent) ran
  | removeForBlock vtx => exact kept _ (removeForBlock_consistent vtx [] consistent) ran
  | clear => exact kept _ (clear_consistent pool) ran
  | removeCoinbaseSpends scan =>
    obtain ⟨listed, _, same⟩ := Option.map_eq_some_iff.mp ran
    exact kept _ (removeListed_consistent listed consistent) (congrArg some same)

structure PoolHistory where
  calls : List PoolCall
  pool : CTxMemPool

def PoolHistory.Fresh (history : PoolHistory) : Prop :=
  ∃ fSanityCheck, history = ⟨[], CTxMemPool.init fSanityCheck⟩

def PoolHistory.Next (txHash : CTransaction → Uint256) (history next : PoolHistory) : Prop :=
  ∃ call : PoolCall, call.Admitted txHash history.pool ∧
    call.run txHash history.pool = some next.pool ∧ next.calls = history.calls ++ [call]

section Runs
variable {txHash : CTransaction → Uint256}

theorem ordinary_run_consistent {history : PoolHistory}
    (reached : Reachable PoolHistory.Fresh (PoolHistory.Next txHash) history)
    (ordinary : ∀ call ∈ history.calls, call.addsZerocoinSpend = false) :
    Consistent history.pool := by
  induction reached with
  | start fresh =>
    obtain ⟨fSanityCheck, rfl⟩ := fresh
    exact init_consistent fSanityCheck
  | @step history next _ taken ih =>
    obtain ⟨call, admitted, ran, extended⟩ := taken
    have before : Consistent history.pool := by
      apply ih
      intro earlier inside
      apply ordinary
      rw [extended]
      exact List.mem_append_left [call] inside
    have last : call.addsZerocoinSpend = false := by
      apply ordinary
      rw [extended]
      exact List.mem_append_right history.calls List.mem_cons_self
    exact (call_consistent_iff before admitted ran).mpr last

/-- The assertions hold all along a run if and only if none of its calls adds a
    zerocoin spend. -/
theorem checks_hold_iff {history : PoolHistory}
    (reached : Reachable PoolHistory.Fresh (PoolHistory.Next txHash) history) :
    (∀ earlier, Reachable PoolHistory.Fresh (PoolHistory.Next txHash) earlier →
      earlier.calls <+: history.calls → earlier.pool.check = true) ↔
    ∀ call ∈ history.calls, call.addsZerocoinSpend = false := by
  constructor
  · intro checked
    induction reached with
    | start fresh =>
      obtain ⟨fSanityCheck, rfl⟩ := fresh
      intro call inside
      cases inside
    | @step history next reached taken ih =>
      obtain ⟨call, admitted, ran, extended⟩ := taken
      have shorter : history.calls <+: next.calls := ⟨[call], extended.symm⟩
      have earlier : ∀ call ∈ history.calls, call.addsZerocoinSpend = false := by
        apply ih
        intro past pastReached inside
        exact checked past pastReached (inside.trans shorter)
      have before : Consistent history.pool := ordinary_run_consistent reached earlier
      have after : Consistent next.pool := by
        rw [← check_iff]
        exact checked next (reached.step ⟨call, admitted, ran, extended⟩) (List.prefix_refl _)
      intro other inside
      rw [extended, List.mem_append, List.mem_singleton] at inside
      rcases inside with past | rfl
      · exact earlier other past
      · exact (call_consistent_iff before admitted ran).mp after
  · intro ordinary earlier pastReached inside
    rw [check_iff]
    apply ordinary_run_consistent pastReached
    intro call past
    exact ordinary call (inside.subset past)

end Runs

def sampleHash (tx : CTransaction) : Uint256 := BitVec.ofNat 256 tx.vout.length

def payment : CTxMemPoolEntry where
  tx := ⟨1, [⟨⟨0xabc, 1⟩, [], 0xffffffff⟩], [⟨5 * COIN, [0x51], -10⟩], 0⟩
  nTxSize := 190

def zerocoinSpend : CTxMemPoolEntry where
  tx := ⟨1, [⟨COutPoint.null, [OP_ZEROCOINSPEND], 1⟩], [⟨COIN, [0x51], -10⟩], 0⟩
  nTxSize := 21000

def pooledAlone (entry : CTxMemPoolEntry) : PoolHistory where
  calls := [.addUnchecked (sampleHash entry.tx) entry]
  pool := (CTxMemPool.init true).addUnchecked (sampleHash entry.tx) entry

theorem pooledAlone_reached (entry : CTxMemPoolEntry) (distinct : (prevouts entry).Nodup) :
    Reachable PoolHistory.Fresh (PoolHistory.Next sampleHash) (pooledAlone entry) := by
  have first : Reachable PoolHistory.Fresh (PoolHistory.Next sampleHash)
      ⟨[], CTxMemPool.init true⟩ := .start ⟨true, rfl⟩
  have accepted : Accepted sampleHash (CTxMemPool.init true) (sampleHash entry.tx) entry := by
    constructor
    · rfl
    · rfl
    · intro _
      exact distinct
    · intro _ prevout _
      rfl
  exact first.step ⟨.addUnchecked (sampleHash entry.tx) entry, accepted, rfl, rfl⟩

theorem payment_checks :
    Reachable PoolHistory.Fresh (PoolHistory.Next sampleHash) (pooledAlone payment) ∧
    ((∀ earlier, Reachable PoolHistory.Fresh (PoolHistory.Next sampleHash) earlier →
        earlier.calls <+: (pooledAlone payment).calls → earlier.pool.check = true) ↔
      ∀ call ∈ (pooledAlone payment).calls, call.addsZerocoinSpend = false) :=
  ⟨pooledAlone_reached payment (by decide),
    checks_hold_iff (pooledAlone_reached payment (by decide))⟩

theorem pooled_spend_fails :
    ¬ ∀ (txHash : CTransaction → Uint256) (history : PoolHistory),
      Reachable PoolHistory.Fresh (PoolHistory.Next txHash) history →
      history.pool.check = true := by
  intro holds
  have checked := holds sampleHash _ (pooledAlone_reached zerocoinSpend (by decide))
  have fails : (pooledAlone zerocoinSpend).pool.check = false := by decide
  cases checked

end OxidMempoolCheck
