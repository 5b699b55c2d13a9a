import Oxid.InstantTX
import Oxid.Library.Runs
import Oxid.Script

/-!
Transaction locks over a node's whole run: requests (`ix`), votes (`txlvote`) and the
cleaning of expired locks, with the masternodes changing in between. What a request asks of
the rest of the node comes with it. The answers a vote gets when it arrives are kept.
-/
namespace OxidInstantLocks
open OxidPrimitives OxidMapKeys OxidMasternode OxidMasternodeMan
open OxidInstantTX OrderedMaps

/-- What a received request finds around it, next to what a vote does. -/
structure IxCall extends TxlvoteCall where
  getTransaction : Uint256 → Option CTransaction
  maxValue : Int
  getInputAge : CTxIn → Int
  tipHeight : Int
  acceptToMemoryPool : CTransaction → Bool
  fMasterNode : Bool
  activeVin : CTxIn
  sign : Uint256 × Int32 → Option (List UInt8)

namespace IxCall
variable (call : IxCall) (txHash : CTransaction → Uint256)

def inputValue (txin : CTxIn) : Int :=
  match call.getTransaction txin.prevout.hash with
  | none => 0
  | some tx2 => ((tx2.vout[txin.prevout.n.toNat]?).map (·.nValue)).getD 0

def isIXTXValid (tx : CTransaction) : Bool :=
  let nValueOut := (tx.vout.map (·.nValue)).sum
  let nValueIn := (tx.vin.map call.inputValue).sum
  let missingTx := tx.vin.any fun txin => (call.getTransaction txin.prevout.hash).isNone
  if tx.vout.length < 1 then false
  else if tx.nLockTime ≠ 0 then false
  else if nValueOut > call.maxValue * COIN then false
  else if missingTx then true
  else !decide (nValueIn - nValueOut < CENT)

def payable (txout : CTxOut) : Bool :=
  OxidScript.isNormalPaymentScript txout.scriptPubKey || txout.scriptPubKey.isUnspendable

def takesUp (tx : CTransaction) (maps : LockMaps) : Bool :=
  !(call.liteMode || !call.sporkActive || !call.blockchainSynced) &&
    !(maps.mapTxLockReq.count (txHash tx) || maps.mapTxLockReqRejected.count (txHash tx)) &&
    call.isIXTXValid tx && tx.vout.all payable

def lockHeight (tx : CTransaction) : Int32 :=
  Int32.ofInt (call.tipHeight - ((tx.vin.head?).map call.getInputAge).getD 0 + 4)

def createNewLock (tx : CTransaction) (maps : LockMaps) : Int32 × LockMaps :=
  if tx.vin.any fun txin => decide (call.getInputAge txin < 5) then (0, maps)
  else
    let nBlockHeight := call.lockHeight tx
    let lock :=
      match maps.mapTxLocks.find? (txHash tx) with
      | none => { call.newLock (txHash tx) with nBlockHeight := nBlockHeight }
      | some lock => { lock with nBlockHeight := nBlockHeight }
    (nBlockHeight, { maps with mapTxLocks := maps.mapTxLocks.set (txHash tx) lock })

def doConsensusVote (man : CMasternodeMan) (tx : CTransaction) (nBlockHeight : Int32)
    (mapTxLockVote : OrderedMap Uint256 CConsensusVote) : OrderedMap Uint256 CConsensusVote :=
  let n := call.getMasternodeRank call.activeVin nBlockHeight
  if !call.fMasterNode || n = -1 || INSTANTTX_SIGNATURES_TOTAL < n then mapTxLockVote
  else
    match call.sign (txHash tx, nBlockHeight) with
    | none => mapTxLockVote
    | some vchMasterNodeSignature =>
      let ctx : CConsensusVote := ⟨call.activeVin, txHash tx, nBlockHeight, vchMasterNodeSignature⟩
      if call.signatureValid man ctx then mapTxLockVote.set ctx.getHash ctx else mapTxLockVote

def isComplete (hash : Uint256) (maps : LockMaps) : Bool :=
  (maps.mapTxLocks.find? hash).any fun lock =>
    decide (INSTANTTX_SIGNATURES_REQUIRED ≤ lock.countSignatures)

def refuse (tx : CTransaction) (maps : LockMaps) : LockMaps :=
  { maps with
    mapTxLockReqRejected := maps.mapTxLockReqRejected.insert (txHash tx) tx
    mapLockedInputs := tx.vin.foldl
      (fun (locked : OrderedMap COutPoint Uint256) (txin : CTxIn) =>
        locked.insert txin.prevout (txHash tx)) maps.mapLockedInputs }

/-- The end of a refused request. One whose lock is complete is taken in all the same,
    unless it conflicts with another. -/
def rejectRequest (tx : CTransaction) (maps : LockMaps) : LockMaps :=
  if isComplete (txHash tx) maps then
    match call.checkForConflictingLocks txHash tx maps with
    | (true, maps) => maps
    | (false, maps) => { maps with mapTxLockReq := maps.mapTxLockReq.insert (txHash tx) tx }
  else maps

end IxCall

def processIx (call : IxCall) (txHash : CTransaction → Uint256) (tx : CTransaction)
    (state : InstantTXState) : InstantTXState :=
  if !call.takesUp txHash tx state.maps then state
  else
    let (nBlockHeight, maps) := call.createNewLock txHash tx state.maps
    if call.acceptToMemoryPool tx then
      { state with
        mapTxLockVote := call.doConsensusVote txHash state.mnodeman tx nBlockHeight
          state.mapTxLockVote
        maps := { maps with mapTxLockReq := maps.mapTxLockReq.insert (txHash tx) tx } }
    else { state with maps := call.rejectRequest txHash tx (IxCall.refuse txHash tx maps) }

/-- An expired lock, taken away with what the request and the votes left. -/
def dropLock (hash : Uint256) (lock : CTransactionLock) (state : InstantTXState) :
    InstantTXState :=
  let left :=
    match state.maps.mapTxLockReq.find? lock.txHash with
    | none => state
    | some tx =>
      { state with
        mapTxLockVote := lock.vecConsensusVotes.foldl
          (fun votes (v : CConsensusVote) => votes.erase v.getHash) state.mapTxLockVote
        maps := { state.maps with
          mapLockedInputs := tx.vin.foldl
            (fun locked (txin : CTxIn) => locked.erase txin.prevout) state.maps.mapLockedInputs
          mapTxLockReq := state.maps.mapTxLockReq.erase lock.txHash
          mapTxLockReqRejected := state.maps.mapTxLockReqRejected.erase lock.txHash } }
  { left with maps := { left.maps with mapTxLocks := left.maps.mapTxLocks.erase hash } }

def isExpired (time : Int64) (lock : CTransactionLock) : Bool :=
  decide (lock.nExpiration.toInt < time.toInt)

def expiredLocks (time : Int64) (state : InstantTXState) : List (Uint256 × CTransactionLock) :=
  state.maps.mapTxLocks.entries.filter fun (entry : Uint256 × CTransactionLock) =>
    isExpired time entry.2

def cleanTransactionLocksList (hasTip : Bool) (time : Int64) (state : InstantTXState) :
    InstantTXState :=
  if !hasTip then state
  else (expiredLocks time state).foldl (fun state entry => dropLock entry.1 entry.2 state) state

def votePasses (call : TxlvoteCall) (ctx : CConsensusVote) (state : InstantTXState) : Bool :=
  let n := call.getMasternodeRank ctx.vinMasternode ctx.nBlockHeight
  !(call.liteMode || !call.sporkActive || !call.blockchainSynced) &&
    !state.mapTxLockVote.count ctx.getHash && decide (n ≠ -1) &&
    decide (n ≤ INSTANTTX_SIGNATURES_TOTAL) && call.signatureValid state.mnodeman ctx

structure VoteAnswer where
  vote : CConsensusVote
  rank : Int
  signatureValid : Bool
deriving DecidableEq

def votedLock (call : TxlvoteCall) (ctx : CConsensusVote) (maps : LockMaps) : CTransactionLock :=
  ((maps.mapTxLocks.find? ctx.txHash).getD (call.newLock ctx.txHash)).addSignature ctx

def completes (call : TxlvoteCall) (ctx : CConsensusVote) (maps : LockMaps) : Bool :=
  decide (INSTANTTX_SIGNATURES_REQUIRED ≤ (votedLock call ctx maps).countSignatures)

/-- A node, what it found out about votes, and the locks it found in conflict, with when. -/
structure LockNode where
  state : InstantTXState
  answers : List VoteAnswer
  conflicts : List (Uint256 × Int64)

inductive LockEvent where
  | ix (call : IxCall) (tx : CTransaction)
  | txlvote (call : TxlvoteCall) (ctx : CConsensusVote)
  | clean (hasTip : Bool) (time : Int64)
  | masternodes (man : CMasternodeMan)

section Run

variable (txHash : CTransaction → Uint256)

def conflictsFound (time : Int64) (tx : CTransaction) (maps : LockMaps) :
    List (Uint256 × Int64) :=
  match TxlvoteCall.conflict txHash tx maps.mapLockedInputs with
  | none => []
  | some locked => [(locked, time), (txHash tx, time)]

def ixConflicts (call : IxCall) (tx : CTransaction) (maps : LockMaps) : List (Uint256 × Int64) :=
  let refused := IxCall.refuse txHash tx (call.createNewLock txHash tx maps).2
  if call.takesUp txHash tx maps && !call.acceptToMemoryPool tx &&
      IxCall.isComplete (txHash tx) refused then
    conflictsFound txHash call.time tx refused
  else []

def voteConflicts (call : TxlvoteCall) (ctx : CConsensusVote) (state : InstantTXState) :
    List (Uint256 × Int64) :=
  if votePasses call ctx state && completes call ctx state.maps then
    conflictsFound txHash call.time
      ((state.maps.mapTxLockReq.find? ctx.txHash).getD CTransaction.fresh) state.maps
  else []

def lockStep (event : LockEvent) (node : LockNode) : LockNode :=
  match event with
  | .ix call tx =>
    { node with
      state := processIx call txHash tx node.state
      conflicts := ixConflicts txHash call tx node.state.maps ++ node.conflicts }
  | .txlvote call ctx =>
    { state := (processTxlvote call txHash ctx node.state).2
      answers := ⟨ctx, call.getMasternodeRank ctx.vinMasternode ctx.nBlockHeight,
        call.signatureValid node.state.mnodeman ctx⟩ :: node.answers
      conflicts := voteConflicts txHash call ctx node.state ++ node.conflicts }
  | .clean hasTip time =>
    let cleaned := cleanTransactionLocksList hasTip time node.state
    { node with
      state := cleaned
      conflicts := node.conflicts.filter fun found => cleaned.maps.mapTxLocks.count found.1 }
  | .masternodes man => { node with state := { node.state with mnodeman := man } }

end Run

def emptyMaps : LockMaps := ⟨∅, ∅, ∅, ∅, ∅, 0⟩

def LockNode.init (man : CMasternodeMan) : LockNode := ⟨⟨man, ∅, emptyMaps⟩, [], []⟩

def countedVotes (lock : CTransactionLock) : List CConsensusVote :=
  lock.vecConsensusVotes.filter fun vote => vote.nBlockHeight == lock.nBlockHeight

def AnsweredInTop (answers : List VoteAnswer) (vote : CConsensusVote) : Prop :=
  ∃ rank, ⟨vote, rank, true⟩ ∈ answers ∧ rank ≠ -1 ∧ rank ≤ INSTANTTX_SIGNATURES_TOTAL

/-- Enough valid votes at the lock's height, from different masternodes of the top set. -/
structure Supported (answers : List VoteAnswer) (hash : Uint256) (lock : CTransactionLock) :
    Prop where
  enough : INSTANTTX_SIGNATURES_REQUIRED ≤ (countedVotes lock).length
  votes : ∀ vote ∈ countedVotes lock, vote.txHash = hash ∧ vote.nBlockHeight = lock.nBlockHeight ∧
    AnsweredInTop answers vote
  distinct : ((countedVotes lock).map (·.vinMasternode.prevout)).Nodup

def Requested (maps : LockMaps) (hash : Uint256) (tx : CTransaction) : Prop :=
  maps.mapTxLockReq.find? hash = some tx ∨ maps.mapTxLockReqRejected.find? hash = some tx

def Conflicting (tx1 tx2 : CTransaction) : Prop :=
  ∃ in1 ∈ tx1.vin, ∃ in2 ∈ tx2.vin, in1.prevout = in2.prevout

def LocksSupported (node : LockNode) : Prop :=
  ∀ out hash, node.state.maps.mapLockedInputs.find? out = some hash →
    ∃ lock, node.state.maps.mapTxLocks.find? hash = some lock ∧ Supported node.answers hash lock

def LocksExclusive (node : LockNode) : Prop :=
  ∀ hash1 hash2 tx1 tx2, hash1 ≠ hash2 → Requested node.state.maps hash1 tx1 →
    Requested node.state.maps hash2 tx2 → Conflicting tx1 tx2 →
    ¬ (IxCall.isComplete hash1 node.state.maps = true ∧
      IxCall.isComplete hash2 node.state.maps = true)

/-- The lock was found in conflict, and ends at a time when it was. -/
def Cancelled (node : LockNode) (hash : Uint256) : Prop :=
  ∃ lock time, node.state.maps.mapTxLocks.find? hash = some lock ∧
    (hash, time) ∈ node.conflicts ∧ lock.nExpiration = time.toInt32

def LocksCancel (node : LockNode) : Prop :=
  ∀ hash1 hash2 tx1 tx2, hash1 ≠ hash2 → Requested node.state.maps hash1 tx1 →
    Requested node.state.maps hash2 tx2 → Conflicting tx1 tx2 →
    IxCall.isComplete hash1 node.state.maps = true →
    IxCall.isComplete hash2 node.state.maps = true → Cancelled node hash1 ∨ Cancelled node hash2

end OxidInstantLocks
