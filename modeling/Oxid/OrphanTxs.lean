import Mathlib.Data.Option.Basic
import Oxid.Library.ReverseIndex
import Oxid.MapKeys
import Oxid.SignatureHash

/-!
The pool of transactions whose parents are missing, and the index of what they spend. A
loop over the pool has its iterator past an entry before the entry is erased.
-/
namespace OxidOrphanTxs
open OxidPrimitives OxidMapKeys OxidSignatureHash OrderedMaps ReverseIndex

abbrev NodeId := Int32

structure COrphanTx where
  tx : CTransaction
  fromPeer : NodeId

structure OrphanPool where
  mapOrphanTransactions : OrderedMap Uint256 COrphanTx
  mapOrphanTransactionsByPrev : OrderedMap Uint256 (Finset Uint256)

namespace OrphanPool

def init : OrphanPool := ⟨∅, ∅⟩

def prevHashes (tx : CTransaction) : List Uint256 := tx.vin.map fun txin => txin.prevout.hash

section Calls

variable (txHash : CTransaction → Uint256)

def addOrphanTx (tx : CTransaction) (peer : NodeId) (pool : OrphanPool) : Bool × OrphanPool :=
  let hash := txHash tx
  if pool.mapOrphanTransactions.count hash then (false, pool)
  else if 5000 < (serializeTransaction tx).length then (false, pool)
  else
    (true,
      { mapOrphanTransactions := pool.mapOrphanTransactions.set hash ⟨tx, peer⟩
        mapOrphanTransactionsByPrev :=
          linkAll hash (prevHashes tx) pool.mapOrphanTransactionsByPrev })

def eraseOrphanTx (hash : Uint256) (pool : OrphanPool) : OrphanPool :=
  match pool.mapOrphanTransactions.find? hash with
  | none => pool
  | some orphan =>
    { mapOrphanTransactions := pool.mapOrphanTransactions.erase hash
      mapOrphanTransactionsByPrev :=
        unlinkAll hash (prevHashes orphan.tx) pool.mapOrphanTransactionsByPrev }

def eraseFrom (peer : NodeId) : List (Uint256 × COrphanTx) → OrphanPool → OrphanPool
  | [], pool => pool
  | (_, orphan) :: rest, pool =>
    eraseFrom peer rest
      (if orphan.fromPeer = peer then pool.eraseOrphanTx (txHash orphan.tx) else pool)

def eraseOrphansFor (peer : NodeId) (pool : OrphanPool) : OrphanPool :=
  eraseFrom txHash peer pool.mapOrphanTransactions.entries pool

end Calls

def evicted (randomhash : Uint256) (pool : OrphanPool) : Option (Uint256 × COrphanTx) :=
  let entries := pool.mapOrphanTransactions.entries
  (entries.find? fun entry => decide (place randomhash ≤ place entry.1)) <|> entries.head?

theorem evicted_standing {randomhash : Uint256} {pool : OrphanPool} {entry : Uint256 × COrphanTx}
    (chosen : pool.evicted randomhash = some entry) :
    pool.mapOrphanTransactions.find? entry.1 = some entry.2 := by
  rw [← OrderedMap.mem_entries_iff]
  rcases (Option.orElse_eq_some _ _ _).mp chosen with found | ⟨_, first⟩
  · exact List.mem_of_find?_eq_some found
  · exact List.mem_of_head? first

theorem eraseOrphanTx_size {hash : Uint256} {pool : OrphanPool} {orphan : COrphanTx}
    (standing : pool.mapOrphanTransactions.find? hash = some orphan) :
    (pool.eraseOrphanTx hash).mapOrphanTransactions.size + 1 = pool.mapOrphanTransactions.size := by
  unfold eraseOrphanTx
  rw [standing]
  exact OrderedMap.size_erase standing

def limitOrphanTxSize (nMaxOrphans : UInt32) (getRandHash : Nat → Uint256) (nEvicted : Nat)
    (pool : OrphanPool) : Nat × OrphanPool :=
  if nMaxOrphans.toNat < pool.mapOrphanTransactions.size then
    match chosen : pool.evicted (getRandHash nEvicted) with
    | none => (nEvicted, pool)
    | some entry =>
      limitOrphanTxSize nMaxOrphans getRandHash (nEvicted + 1) (pool.eraseOrphanTx entry.1)
  else (nEvicted, pool)
termination_by pool.mapOrphanTransactions.size
decreasing_by
  have smaller := eraseOrphanTx_size (evicted_standing chosen)
  omega

end OrphanPool

inductive OrphanCall where
  | addOrphanTx (tx : CTransaction) (peer : NodeId)
  | eraseOrphanTx (hash : Uint256)
  | eraseOrphansFor (peer : NodeId)
  | limitOrphanTxSize (nMaxOrphans : UInt32) (getRandHash : Nat → Uint256)

namespace OrphanPool

variable (txHash : CTransaction → Uint256)

def call (pool : OrphanPool) : OrphanCall → OrphanPool
  | .addOrphanTx tx peer => (pool.addOrphanTx txHash tx peer).2
  | .eraseOrphanTx hash => pool.eraseOrphanTx hash
  | .eraseOrphansFor peer => pool.eraseOrphansFor txHash peer
  | .limitOrphanTxSize nMaxOrphans getRandHash =>
    (pool.limitOrphanTxSize nMaxOrphans getRandHash 0).2

/-- Under each hash stand exactly the orphans that spend an output of its transaction, and
    no set is left empty. -/
structure Consistent (pool : OrphanPool) : Prop where
  keyed : ∀ hash orphan, pool.mapOrphanTransactions.find? hash = some orphan →
    txHash orphan.tx = hash
  indexed : Indexes (fun orphan : COrphanTx => prevHashes orphan.tx) pool.mapOrphanTransactions
    pool.mapOrphanTransactionsByPrev
  tidy : NoneEmpty pool.mapOrphanTransactionsByPrev

variable {txHash} {pool : OrphanPool}

theorem init_consistent : Consistent txHash init := by
  refine ⟨?_, Indexes.empty, ?_⟩
  · intro hash orphan found
    cases found
  · intro prev found
    cases found

section
variable (consistent : Consistent txHash pool)
include consistent

theorem addOrphanTx_consistent (tx : CTransaction) (peer : NodeId) :
    Consistent txHash (pool.addOrphanTx txHash tx peer).2 := by
  unfold addOrphanTx
  dsimp only
  split
  · exact consistent
  · rename_i absent
    split
    · exact consistent
    · have fresh : pool.mapOrphanTransactions.find? (txHash tx) = none := by
        simpa [OrderedMap.count] using absent
      refine ⟨?_, consistent.indexed.insert fresh, noneEmpty_linkAll consistent.tidy _ _⟩
      intro hash orphan found
      rcases OrderedMap.find?_set_some found with ⟨same, new⟩ | ⟨_, before⟩
      · rw [same, new]
      · exact consistent.keyed hash orphan before

theorem eraseOrphanTx_consistent (hash : Uint256) :
    Consistent txHash (pool.eraseOrphanTx hash) := by
  unfold eraseOrphanTx
  cases found : pool.mapOrphanTransactions.find? hash with
  | none => exact consistent
  | some orphan =>
    refine ⟨?_, consistent.indexed.erase found, noneEmpty_unlinkAll consistent.tidy _ _⟩
    intro other standing left
    exact consistent.keyed other standing (OrderedMap.find?_erase_some left).2

theorem eraseFrom_consistent (peer : NodeId) (entries : List (Uint256 × COrphanTx)) :
    Consistent txHash (pool.eraseFrom txHash peer entries) := by
  induction entries generalizing pool with
  | nil => exact consistent
  | cons entry rest ih =>
    rw [eraseFrom]
    split
    · exact ih (eraseOrphanTx_consistent consistent _)
    · exact ih consistent

theorem limitOrphanTxSize_consistent (nMaxOrphans : UInt32) (getRandHash : Nat → Uint256)
    (nEvicted : Nat) :
    Consistent txHash (pool.limitOrphanTxSize nMaxOrphans getRandHash nEvicted).2 := by
  fun_induction limitOrphanTxSize nMaxOrphans getRandHash nEvicted pool with
  | case1 nEvicted pool more none' => exact consistent
  | case2 nEvicted pool more entry chosen ih => exact ih (eraseOrphanTx_consistent consistent _)
  | case3 nEvicted pool few => exact consistent

end

theorem limitOrphanTxSize_limits (pool : OrphanPool) (nMaxOrphans : UInt32)
    (getRandHash : Nat → Uint256) (nEvicted : Nat) :
    let limited := pool.limitOrphanTxSize nMaxOrphans getRandHash nEvicted
    limited.2.mapOrphanTransactions.size ≤ nMaxOrphans.toNat ∧
      pool.mapOrphanTransactions.size + nEvicted =
        limited.2.mapOrphanTransactions.size + limited.1 := by
  fun_induction limitOrphanTxSize nMaxOrphans getRandHash nEvicted pool with
  | case1 nEvicted pool more none' =>
    have empty : pool.mapOrphanTransactions.entries = [] := by
      unfold evicted at none'
      rw [Option.orElse_eq_none] at none'
      exact List.head?_eq_none_iff.mp none'.2
    rw [OrderedMap.size, empty] at more
    cases more
  | case2 nEvicted pool more entry chosen ih =>
    have smaller := eraseOrphanTx_size (evicted_standing chosen)
    refine ⟨ih.1, ?_⟩
    omega
  | case3 nEvicted pool few => exact ⟨not_lt.mp few, rfl⟩

theorem call_consistent (consistent : Consistent txHash pool) (call : OrphanCall) :
    Consistent txHash (pool.call txHash call) := by
  cases call with
  | addOrphanTx tx peer => exact addOrphanTx_consistent consistent tx peer
  | eraseOrphanTx hash => exact eraseOrphanTx_consistent consistent hash
  | eraseOrphansFor peer => exact eraseFrom_consistent consistent peer _
  | limitOrphanTxSize nMaxOrphans getRandHash =>
    exact limitOrphanTxSize_consistent consistent nMaxOrphans getRandHash 0

theorem calls_consistent (calls : List OrphanCall) (consistent : Consistent txHash pool) :
    Consistent txHash (calls.foldl (OrphanPool.call txHash) pool) := by
  induction calls generalizing pool with
  | nil => exact consistent
  | cons first rest ih => exact ih (call_consistent consistent first)

end OrphanPool

open OrphanPool in
/-- After any calls the two maps agree, and a limit holds once it was set. -/
theorem orphans_consistent (txHash : CTransaction → Uint256) (calls : List OrphanCall) :
    Consistent txHash (calls.foldl (OrphanPool.call txHash) init) ∧
      ∀ nMaxOrphans getRandHash,
        let pool := calls.foldl (OrphanPool.call txHash) init
        let limited := pool.limitOrphanTxSize nMaxOrphans getRandHash 0
        limited.2.mapOrphanTransactions.size ≤ nMaxOrphans.toNat ∧
          limited.1 = pool.mapOrphanTransactions.size - limited.2.mapOrphanTransactions.size ∧
          limited.2.mapOrphanTransactions.size ≤ pool.mapOrphanTransactions.size := by
  refine ⟨calls_consistent calls init_consistent, ?_⟩
  intro nMaxOrphans getRandHash
  have limits := limitOrphanTxSize_limits (calls.foldl (OrphanPool.call txHash) init) nMaxOrphans
    getRandHash 0
  dsimp only at limits ⊢
  refine ⟨limits.1, ?_⟩
  omega

end OxidOrphanTxs
