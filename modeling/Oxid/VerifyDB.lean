import Oxid.Library.Patch
import Oxid.Reconnect

/-!
`CVerifyDB::VerifyDB`: a walk down the active chain that checks each block and, from level
three on, disconnects it on a scratch view, and at level four a walk back up. The zerocoin
database is the node's own.
-/
namespace OxidVerifyDB
open OxidPrimitives OxidCoins OxidUtxoView OxidDisconnectBlock OxidChainParams
open OxidNode OxidCheckBlock OxidConnectBlock

/-- An entry of the active chain that has a parent, and what the call meets at it
    on its way down and back up. -/
structure VerifyRound where
  pindex : CBlockIndex
  parent : CBlockIndex
  older : List CBlockIndex
  block : CBlock
  readUndo : Option CBlockUndo
  interrupted : Bool
  readable : Bool
  withinCache : Bool
  shutdownRequested : Bool
  interruptedAgain : Bool
  readableAgain : Bool
  connectEnv : ConnectCall

structure VerifyCall (machinery : Machinery) where
  node : Node
  nCheckLevel : Int
  nCheckDepth : Int
  coinsview : Uint256 → Option CCoins
  coinsviewBest : Uint256
  /-- The databases, with no view and no entry chosen yet. -/
  start : ConnectState
  /-- The entries from the tip down. -/
  rounds : List VerifyRound
  aboveGenesis : ∀ round ∈ rounds,
    machinery.blockHash round.block.toCBlockHeader ≠ node.params.hashGenesisBlock

/-- How a call ends before its last line. Of these only a shutdown returns true. -/
inductive VerifyEnd where
  | interrupted
  | unreadable
  | badBlock
  | badUndo
  | irrecoverable (failure : DisconnectFailure)
  | shutdown
  | inconsistent
  | unconnectable (failure : Failure)
deriving DecidableEq

namespace VerifyRound

def target (round : VerifyRound) (fVerifyingBlocks : Bool) : DisconnectTarget where
  blockHash := round.pindex.hash
  prevHash := round.parent.hash
  nHeight := Int32.ofInt round.pindex.nHeight
  hasUndoPos := round.pindex.nStatus.haveUndo
  nAccumulatorCheckpoint := round.pindex.nAccumulatorCheckpoint
  prevAccumulatorCheckpoint := round.parent.nAccumulatorCheckpoint
  fVerifyingBlocks := fVerifyingBlocks

def connectCall (round : VerifyRound) : ConnectCall :=
  { round.connectEnv with
    block := round.block
    ancestry := round.parent :: round.older
    phashBlock := some round.pindex.hash
    fJustCheck := false
    fAlreadyChecked := false }

def enter (round : VerifyRound) (state : ConnectState) : ConnectState :=
  { state with pindex := round.pindex, undo := round.readUndo, fDirty := false }

end VerifyRound

/-- The state of the walk down. The entries above `pindexState` are those it has
    disconnected, the lowest one first. -/
structure Walking where
  state : ConnectState
  above : List VerifyRound
  atState : Bool
  failing : Bool

section Calls
variable {machinery : Machinery} (call : VerifyCall machinery)

def checkDepth : Int :=
  let nCheckDepth := if call.nCheckDepth ≤ 0 then 1000000000 else call.nCheckDepth
  if call.node.height < nCheckDepth then call.node.height else nCheckDepth

def checkLevel : Int := max 0 (min 4 call.nCheckLevel)

def checkRound (round : VerifyRound) (state : ConnectState) : Option VerifyEnd :=
  if !round.readable then some .unreadable
  else if 1 ≤ checkLevel call ∧
      checkBlock machinery call.node state.zerocoinDB round.block true ≠ .ok () then some .badBlock
  else if 2 ≤ checkLevel call ∧ round.pindex.nStatus.haveUndo ∧ round.readUndo = none then
    some .badUndo
  else none

def disconnects (round : VerifyRound) (walking : Walking) : Bool :=
  decide (3 ≤ checkLevel call) && walking.atState && round.withinCache

def disconnectRound (round : VerifyRound) (walking : Walking) : Walking × Option VerifyEnd :=
  if disconnects call round walking then
    match disconnectBlock machinery.zerocoin machinery.txHash round.block
        (round.target call.node.fVerifyingBlocks) round.readUndo walking.state.view
        walking.state.zerocoinDB with
    | (ended, failure) =>
      let state := { walking.state with view := ended.view, zerocoinDB := ended.zerocoinDB }
      match failure with
      | some failure => ({ walking with state := state }, some (.irrecoverable failure))
      | none => ({ walking with
          state := state
          above := round :: walking.above
          failing := walking.failing || !ended.fClean }, none)
  else ({ walking with atState := false }, none)

def walk : List VerifyRound → Walking → Walking × Option VerifyEnd
  | [], walking => (walking, none)
  | round :: rest, walking =>
    if round.interrupted then (walking, some .interrupted)
    else if round.pindex.nHeight < call.node.height - checkDepth call then (walking, none)
    else
      match checkRound call round walking.state with
      | some ended => (walking, some ended)
      | none =>
        match disconnectRound call round walking with
        | (next, some ended) => (next, some ended)
        | (next, none) =>
          if round.shutdownRequested then (next, some .shutdown) else walk rest next

/-- Level four, over the entries from the lowest disconnected one up to the tip. -/
def reconnect : List VerifyRound → ConnectState → ConnectState × Option VerifyEnd
  | [], state => (state, none)
  | round :: rest, state =>
    if round.interruptedAgain then (state, some .interrupted)
    else if !round.readableAgain then (state, some .unreadable)
    else
      match connectBlock machinery call.node round.connectCall (round.enter state) with
      | .error failure final => (final, some (.unconnectable failure))
      | .ok _ final => reconnect rest final

def scratchView : UtxoView where
  cacheCoins := ∅
  hashBlock := 0
  base := call.coinsview
  baseBestBlock := call.coinsviewBest
  fresh_over_pruned := by simp

def walked : Walking × Option VerifyEnd :=
  walk call call.rounds ⟨{ call.start with view := scratchView call }, [], true, false⟩

def reconnects : Bool :=
  decide (4 ≤ checkLevel call) && (walked call).2.isNone && !(walked call).1.failing

def verifyDB : ConnectState × Option VerifyEnd :=
  match walked call with
  | (walking, some ended) => (walking.state, some ended)
  | (walking, none) =>
    if walking.failing then (walking.state, some .inconsistent)
    else if 4 ≤ checkLevel call then reconnect call walking.above walking.state
    else (walking.state, none)

end Calls

end OxidVerifyDB
