import Mathlib.Data.UInt
import Oxid.Coins
import Oxid.Library.IndexedTable
import Oxid.MapKeys

/-!
The memory pool: its two maps, its total and the calls that change them. A
pointer to a pooled transaction is named by the hash the transaction stands
under. Fee statistics and priority deltas are left out, as no call here reads
them.
-/
namespace OxidMempool
open OxidPrimitives OxidCoins OrderedMaps IndexedTables OxidMapKeys

structure CTxMemPoolEntry where
  tx : CTransaction
  nTxSize : UInt64
deriving DecidableEq

structure CInPoint where
  ptx : Uint256
  n : Nat
deriving DecidableEq

structure CTxMemPool where
  fSanityCheck : Bool
  nTransactionsUpdated : UInt32
  totalTxSize : UInt64
  mapTx : OrderedMap Uint256 CTxMemPoolEntry
  mapNextTx : OrderedMap COutPoint CInPoint

def prevouts (entry : CTxMemPoolEntry) : List COutPoint := entry.tx.vin.map CTxIn.prevout

namespace CTxMemPool

def init (fSanityCheck : Bool) : CTxMemPool := ⟨fSanityCheck, 0, 0, ∅, ∅⟩

def addUnchecked (pool : CTxMemPool) (hash : Uint256) (entry : CTxMemPoolEntry) : CTxMemPool :=
  { pool with
    mapTx := pool.mapTx.set hash entry
    mapNextTx :=
      if entry.tx.isZerocoinSpend then pool.mapNextTx
      else markAll (CInPoint.mk hash) 0 (prevouts entry) pool.mapNextTx
    nTransactionsUpdated := pool.nTransactionsUpdated + 1
    totalTxSize := pool.totalTxSize + entry.nTxSize }

def children (pool : CTxMemPool) (hash : Uint256) (vout : List CTxOut) : List Uint256 :=
  (List.range vout.length).filterMap fun i =>
    (pool.mapNextTx.find? ⟨hash, UInt32.ofNat i⟩).map CInPoint.ptx

def drop (pool : CTxMemPool) (hash : Uint256) (entry : CTxMemPoolEntry) : CTxMemPool :=
  { pool with
    mapNextTx := releaseAll (prevouts entry) pool.mapNextTx
    totalTxSize := pool.totalTxSize - entry.nTxSize
    mapTx := pool.mapTx.erase hash
    nTransactionsUpdated := pool.nTransactionsUpdated + 1 }

/-- The removal loop over its queue. It ends: a round either finds nothing
    pooled and shortens the queue, or takes a transaction off the pool. -/
def removeLoop (fRecursive : Bool) (pool : CTxMemPool) (removed : List CTransaction)
    (txToRemove : List Uint256) : CTxMemPool × List CTransaction :=
  match txToRemove with
  | [] => (pool, removed)
  | hash :: queue =>
    match _found : pool.mapTx.find? hash with
    | none => removeLoop fRecursive pool removed queue
    | some entry =>
      removeLoop fRecursive (pool.drop hash entry) (removed ++ [entry.tx])
        (if fRecursive then queue ++ pool.children hash entry.tx.vout else queue)
termination_by (pool.mapTx.size, txToRemove.length)
decreasing_by
  · exact Prod.Lex.right _ (Nat.lt_succ_self _)
  · exact Prod.Lex.left _ _ (OrderedMap.size_erase_lt _found)

section Calls
variable (txHash : CTransaction → Uint256)

def remove (pool : CTxMemPool) (origTx : CTransaction) (removed : List CTransaction)
    (fRecursive : Bool) : CTxMemPool × List CTransaction :=
  let hash := txHash origTx
  let orphaned := if fRecursive && !pool.mapTx.count hash then pool.children hash origTx.vout else []
  removeLoop fRecursive pool removed (hash :: orphaned)

def removeConflict (tx : CTransaction) (state : CTxMemPool × List CTransaction) (txin : CTxIn) :
    CTxMemPool × List CTransaction :=
  match state.1.mapNextTx.find? txin.prevout with
  | none => state
  | some spent =>
    match state.1.mapTx.find? spent.ptx with
    | none => state
    | some conflict =>
      if txHash conflict.tx = txHash tx then state
      else state.1.remove txHash conflict.tx state.2 true

def removeConflicts (pool : CTxMemPool) (tx : CTransaction) (removed : List CTransaction) :
    CTxMemPool × List CTransaction :=
  tx.vin.foldl (removeConflict txHash tx) (pool, removed)

def removeConfirmed (state : CTxMemPool × List CTransaction) (tx : CTransaction) :
    CTxMemPool × List CTransaction :=
  (state.1.remove txHash tx [] false).1.removeConflicts txHash tx state.2

def removeForBlock (pool : CTxMemPool) (vtx : List CTransaction) (conflicts : List CTransaction) :
    CTxMemPool × List CTransaction :=
  vtx.foldl (removeConfirmed txHash) (pool, conflicts)

/-- The view and the heights a scan for immature coinbase spends is called with. -/
structure CoinbaseScan where
  accessCoins : Uint256 → Option CCoins
  nMemPoolHeight : UInt32
  coinbaseMaturity : UInt32

/-- Whether the scan lists a transaction; `none` where an assertion stops it.
    Ages are unsigned differences. -/
def listsSpend (pool : CTxMemPool) (scan : CoinbaseScan) : List CTxIn → Option Bool
  | [] => some false
  | txin :: rest =>
    if pool.mapTx.count txin.prevout.hash then pool.listsSpend scan rest
    else
      match scan.accessCoins txin.prevout.hash with
      | none => if pool.fSanityCheck then none else some true
      | some coins =>
        if (coins.fCoinBase || coins.fCoinStake) ∧
          scan.nMemPoolHeight - coins.nHeight.toUInt32 < scan.coinbaseMaturity then some true
        else pool.listsSpend scan rest

def transactionsToRemove (pool : CTxMemPool) (scan : CoinbaseScan) :
    List (Uint256 × CTxMemPoolEntry) → Option (List CTransaction)
  | [] => some []
  | item :: rest =>
    match pool.listsSpend scan item.2.tx.vin, pool.transactionsToRemove scan rest with
    | some true, some listed => some (item.2.tx :: listed)
    | some false, some listed => some listed
    | _, _ => none

def removeListed (pool : CTxMemPool) (listed : List CTransaction) : CTxMemPool :=
  listed.foldl (fun current tx => (current.remove txHash tx [] true).1) pool

def removeCoinbaseSpends (pool : CTxMemPool) (scan : CoinbaseScan) : Option CTxMemPool :=
  (pool.transactionsToRemove scan pool.mapTx.entries).map (pool.removeListed txHash)

end Calls

def clear (pool : CTxMemPool) : CTxMemPool :=
  { pool with
    mapTx := ∅, mapNextTx := ∅, totalTxSize := 0
    nTransactionsUpdated := pool.nTransactionsUpdated + 1 }

/-! The assertions of `check` about the maps and the total. Those about the
coins behind the inputs need a view and are not among them. -/

def inputsMarked (pool : CTxMemPool) (hash : Uint256) (entry : CTxMemPoolEntry) : Bool :=
  (prevouts entry).zipIdx.all fun (prevout, i) =>
    pool.mapNextTx.find? prevout == some ⟨hash, i⟩

def spenderPooled (pool : CTxMemPool) (out : COutPoint) (spent : CInPoint) : Bool :=
  match pool.mapTx.find? spent.ptx with
  | none => false
  | some entry => (prevouts entry)[spent.n]? == some out

def check (pool : CTxMemPool) : Bool :=
  pool.mapTx.entries.all (fun item => pool.inputsMarked item.1 item.2) &&
  pool.mapNextTx.entries.all (fun item => pool.spenderPooled item.1 item.2) &&
  pool.totalTxSize == (pool.mapTx.entries.map fun item => item.2.nTxSize).sum

end CTxMemPool

end OxidMempool
