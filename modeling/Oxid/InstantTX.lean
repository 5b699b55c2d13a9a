import Oxid.MasternodePayments

/-!
The handler of a received `txlvote` message, a masternode's vote to lock a transaction.
Ranks, clocks, signature verification and the wallet's answer come with the call, and a
reprocessing of blocks is reported.
-/
namespace OxidInstantTX
open OxidPrimitives OxidMapKeys OxidMasternode OxidMasternodeMan OxidMasternodePayments OrderedMaps

def INSTANTTX_SIGNATURES_REQUIRED : Int := 6
def INSTANTTX_SIGNATURES_TOTAL : Int := 10

structure CConsensusVote where
  vinMasternode : CTxIn
  txHash : Uint256
  nBlockHeight : Int32
  vchMasterNodeSignature : List UInt8
deriving DecidableEq, Repr

def CConsensusVote.getHash (vote : CConsensusVote) : Uint256 :=
  vote.vinMasternode.prevout.hash + BitVec.ofNat 256 vote.vinMasternode.prevout.n.toNat +
    vote.txHash

structure CTransactionLock where
  nBlockHeight : Int32
  txHash : Uint256
  vecConsensusVotes : List CConsensusVote
  nExpiration : Int32
  nTimeout : Int32
deriving DecidableEq, Repr

def CTransactionLock.addSignature (lock : CTransactionLock) (cv : CConsensusVote) :
    CTransactionLock :=
  { lock with vecConsensusVotes := lock.vecConsensusVotes ++ [cv] }

/-- Only votes for the lock's own height count, once it has one. -/
def CTransactionLock.countSignatures (lock : CTransactionLock) : Int :=
  if lock.nBlockHeight = 0 then -1
  else (lock.vecConsensusVotes.countP fun vote => vote.nBlockHeight == lock.nBlockHeight : Nat)

structure LockMaps where
  mapTxLockReq : OrderedMap Uint256 CTransaction
  mapTxLockReqRejected : OrderedMap Uint256 CTransaction
  mapTxLocks : OrderedMap Uint256 CTransactionLock
  mapLockedInputs : OrderedMap COutPoint Uint256
  mapUnknownVotes : OrderedMap Uint256 Int64
  nCompleteTXLocks : Int

structure TxlvoteCall where
  liteMode : Bool
  sporkActive : Bool
  blockchainSynced : Bool
  time : Int64
  getMasternodeRank : CTxIn → Int32 → Int
  verifyMessage : CPubKey → List UInt8 → Uint256 × Int32 → Bool
  walletUpdates : Uint256 → Bool

inductive TxlvoteOutcome where
  | ignored
  | alreadySeen
  | unknownMasternode
  | outranked
  | badSignature
  | spam (reprocessed : Bool)
  | relayed (reprocessed : Bool)
deriving DecidableEq, Repr

def CTransaction.fresh : CTransaction := ⟨1, [], [], 0⟩

namespace TxlvoteCall
variable (call : TxlvoteCall) (txHash : CTransaction → Uint256)

/-- The input of the transaction that is locked for another one, if there is one, with
    the other one's hash. -/
def conflict (tx : CTransaction) (mapLockedInputs : OrderedMap COutPoint Uint256) :
    Option Uint256 :=
  (tx.vin.filterMap fun txin => mapLockedInputs.find? txin.prevout).find? fun locked =>
    locked != txHash tx

def expire (hash : Uint256) (mapTxLocks : OrderedMap Uint256 CTransactionLock) :
    OrderedMap Uint256 CTransactionLock :=
  match mapTxLocks.find? hash with
  | none => mapTxLocks
  | some lock => mapTxLocks.set hash { lock with nExpiration := call.time.toInt32 }

def checkForConflictingLocks (tx : CTransaction) (maps : LockMaps) : Bool × LockMaps :=
  match conflict txHash tx maps.mapLockedInputs with
  | none => (false, maps)
  | some locked =>
    (true, { maps with
      mapTxLocks := call.expire locked (call.expire (txHash tx) maps.mapTxLocks) })

/-- A lock that has its votes: the inputs of its transaction are locked, unless it
    conflicts with another. Whether blocks are reprocessed. Looking the request up
    makes an empty one where there is none. -/
def complete (lock : CTransactionLock) (voted : Uint256) (maps : LockMaps) : Bool × LockMaps :=
  let tx := (maps.mapTxLockReq.find? voted).getD CTransaction.fresh
  let maps := { maps with mapTxLockReq := maps.mapTxLockReq.insert voted CTransaction.fresh }
  match call.checkForConflictingLocks txHash tx maps with
  | (true, maps) => (false, maps)
  | (false, maps) =>
    (maps.mapTxLockReqRejected.count lock.txHash, { maps with
      nCompleteTXLocks := maps.nCompleteTXLocks + if call.walletUpdates lock.txHash then 1 else 0
      mapLockedInputs := tx.vin.foldl (fun locked txin => locked.insert txin.prevout voted)
        maps.mapLockedInputs })

def newLock (hash : Uint256) : CTransactionLock where
  nBlockHeight := 0
  txHash := hash
  vecConsensusVotes := []
  nExpiration := (call.time + 60 * 60).toInt32
  nTimeout := (call.time + 60 * 5).toInt32

def addVote (ctx : CConsensusVote) (maps : LockMaps) : Bool × LockMaps :=
  let lock := ((maps.mapTxLocks.find? ctx.txHash).getD (call.newLock ctx.txHash)).addSignature ctx
  let maps := { maps with mapTxLocks := maps.mapTxLocks.set ctx.txHash lock }
  if INSTANTTX_SIGNATURES_REQUIRED ≤ lock.countSignatures then
    call.complete txHash lock ctx.txHash maps
  else (false, maps)

/-- `GetAverageVoteTime`. -/
def averageVoteTime (mapUnknownVotes : OrderedMap Uint256 Int64) : Int :=
  let times := mapUnknownVotes.entries.map fun (entry : Uint256 × Int64) => entry.2.toInt
  times.sum.tdiv mapUnknownVotes.size

/-- The rate limit on votes for transactions that are not known: whether the vote is
    passed on. -/
def limits (ctx : CConsensusVote) (maps : LockMaps) : Bool × LockMaps :=
  if maps.mapTxLockReq.count ctx.txHash || maps.mapTxLockReqRejected.count ctx.txHash then
    (true, maps)
  else
    let voter := ctx.vinMasternode.prevout.hash
    let allowed := call.time + 60 * 10
    let noted := maps.mapUnknownVotes.insert voter allowed
    let standing := (noted.find? voter).getD allowed
    if call.time < standing && decide (60 * 10 < standing.toInt - averageVoteTime noted) then
      (false, { maps with mapUnknownVotes := noted })
    else (true, { maps with mapUnknownVotes := noted.set voter allowed })

def castsVote (ctx : CConsensusVote) (maps : LockMaps) : TxlvoteOutcome × LockMaps :=
  let (reprocessed, maps) := call.addVote txHash ctx maps
  let (passed, maps) := call.limits ctx maps
  (if passed then .relayed reprocessed else .spam reprocessed, maps)

def signatureValid (man : CMasternodeMan) (ctx : CConsensusVote) : Bool :=
  match man.find ctx.vinMasternode with
  | none => false
  | some pmn =>
    call.verifyMessage pmn.pubKeyMasternode ctx.vchMasterNodeSignature
      (ctx.txHash, ctx.nBlockHeight)

end TxlvoteCall

structure InstantTXState where
  mnodeman : CMasternodeMan
  mapTxLockVote : OrderedMap Uint256 CConsensusVote
  maps : LockMaps

def processTxlvote (call : TxlvoteCall) (txHash : CTransaction → Uint256) (ctx : CConsensusVote)
    (state : InstantTXState) : TxlvoteOutcome × InstantTXState :=
  if call.liteMode || !call.sporkActive || !call.blockchainSynced then (.ignored, state)
  else if state.mapTxLockVote.count ctx.getHash then (.alreadySeen, state)
  else
    let noted := state.mapTxLockVote.set ctx.getHash ctx
    let n := call.getMasternodeRank ctx.vinMasternode ctx.nBlockHeight
    let asked := askForMN call.time ctx.vinMasternode state.mnodeman
    if n = -1 then (.unknownMasternode, ⟨asked, noted, state.maps⟩)
    else if INSTANTTX_SIGNATURES_TOTAL < n then (.outranked, ⟨state.mnodeman, noted, state.maps⟩)
    else if !call.signatureValid state.mnodeman ctx then (.badSignature, ⟨asked, noted, state.maps⟩)
    else
      let (outcome, maps) := call.castsVote txHash ctx state.maps
      (outcome, ⟨state.mnodeman, noted, maps⟩)

end OxidInstantTX
