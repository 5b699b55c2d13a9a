import Oxid.Node
import Oxid.Library.FrontHeap
import Oxid.Library.Rounds
import Mathlib.Logic.Function.Basic

/-!
The block index as a tree and the search for its best chain: `FindMostWorkChain`,
`ActivateBestChainStep` and `ActivateBestChain`. An entry is named by its own hash and its
ancestors', so that its parent is the tail of its name. Locks, notifications and the fork
warnings are left out.
-/
namespace OxidBlockTree
open OxidPrimitives OxidChainParams OxidNode Attempt Rounds

/-- An entry of the block index, or a null pointer, which is `[]`. -/
abbrev Branch := List Uint256

structure BlockTree where
  mapBlockIndex : List Branch
  entry : Branch → CBlockIndex
  /-- Where the entry lies in memory, the last tie breaker. -/
  address : Branch → Nat
  chainActive : Branch
  setBlockIndexCandidates : List Branch
  mapBlocksUnlinked : List (Branch × Branch)
  pindexBestInvalid : Branch

/-- What the rest of the node does with the blocks: how they read from disk, what `ConnectBlock`
    answers for one, and whether the work around a connect or a disconnect succeeds. -/
structure BlockWork where
  getHash : CBlock → Uint256
  readBlockFromDisk : Branch → Option CBlock
  connectBlock : CBlock → Branch → Bool → Except Failure Unit
  disconnectBlock : Branch → Except Failure Unit
  /-- `FlushStateToDisk`, with the reason it gives when it aborts. -/
  flushConnected : Branch → Except String Unit
  flushPeriodic : Branch → Except String Unit
  checkBlockIndex : BlockTree → Except Failure Unit

/-- The block a caller has loaded already, and whether it passed `CheckBlock`. -/
structure OfferedBlock where
  pblock : Option CBlock
  fAlreadyChecked : Bool

namespace BlockTree

/-- `CBlockIndexWorkComparator`. -/
def worse (tree : BlockTree) (pa pb : Branch) : Bool :=
  if (tree.entry pa).nChainWork > (tree.entry pb).nChainWork then false
  else if (tree.entry pa).nChainWork < (tree.entry pb).nChainWork then true
  else if (tree.entry pa).nSequenceId < (tree.entry pb).nSequenceId then false
  else if (tree.entry pa).nSequenceId > (tree.entry pb).nSequenceId then true
  else if tree.address pa < tree.address pb then false
  else if tree.address pa > tree.address pb then true
  else false

def contains (tree : BlockTree) (pindex : Branch) : Bool := pindex.isSuffixOf tree.chainActive

def setStatus (tree : BlockTree) (pindex : Branch) (change : BlockStatus → BlockStatus) :
    BlockTree :=
  { tree with
    entry := Function.update tree.entry pindex
      { tree.entry pindex with nStatus := change (tree.entry pindex).nStatus } }

def eraseCandidate (tree : BlockTree) (pindex : Branch) : BlockTree :=
  { tree with
    setBlockIndexCandidates := tree.setBlockIndexCandidates.filter fun other => other != pindex }

/-- The two places that remember the invalid chain with the most work. -/
def noteInvalid (tree : BlockTree) (pindexNew : Branch) : BlockTree :=
  if tree.pindexBestInvalid = [] ∨
      (tree.entry pindexNew).nChainWork > (tree.entry tree.pindexBestInvalid).nChainWork then
    { tree with pindexBestInvalid := pindexNew }
  else tree

def failValid (tree : BlockTree) (pindex : Branch) : BlockTree :=
  tree.setStatus pindex fun status => { status with failedValid := true }

def failChild (tree : BlockTree) (pindex : Branch) : BlockTree :=
  tree.setStatus pindex fun status => { status with failedChild := true }

end BlockTree

abbrev Activating := EStateM Failure BlockTree

def getAncestor (pindex : Branch) (count : Nat) : Branch :=
  if pindex.length < count then [] else pindex.drop (pindex.length - count)

def findForkFrom (tree : BlockTree) : Branch → Branch
  | [] => []
  | hash :: pprev =>
    if tree.contains (hash :: pprev) then hash :: pprev else findForkFrom tree pprev

def findFork (tree : BlockTree) (pindex : Branch) : Branch :=
  if pindex.length > tree.chainActive.length then
    findForkFrom tree (getAncestor pindex tree.chainActive.length)
  else findForkFrom tree pindex

def findUnusable (tree : BlockTree) : Branch → Except Failure Branch
  | [] => .ok []
  | hash :: pprev =>
    let pindexTest := hash :: pprev
    if tree.contains pindexTest then .ok []
    else if (tree.entry pindexTest).nChainTx = 0 ∧ pprev ≠ [] then .error .crashed
    else if (tree.entry pindexTest).nStatus.failed ∨ !(tree.entry pindexTest).nStatus.haveData
    then .ok pindexTest
    else findUnusable tree pprev

def removeChain (fFailedChain : Bool) (pindexTest : Branch) : Branch → BlockTree → BlockTree
  | [], tree => tree
  | hash :: pprev, tree =>
    let pindexFailed := hash :: pprev
    if pindexFailed = pindexTest then tree.eraseCandidate pindexTest
    else
      let marked := if fFailedChain then tree.failChild pindexFailed
        else { tree with mapBlocksUnlinked := (pprev, pindexFailed) :: tree.mapBlocksUnlinked }
      removeChain fFailedChain pindexTest pprev (marked.eraseCandidate pindexFailed)

def discardCandidate (pindexNew pindexTest : Branch) (tree : BlockTree) : BlockTree :=
  let fFailedChain := (tree.entry pindexTest).nStatus.failed
  let noted := if fFailedChain then tree.noteInvalid pindexNew else tree
  removeChain fFailedChain pindexTest pindexNew noted

def bestCandidate (tree : BlockTree) : Branch :=
  match FrontHeap.selectFront tree.worse tree.setBlockIndexCandidates with
  | none => []
  | some (pindexNew, _) => pindexNew

/-- Every pass takes a candidate out of the set, so that as many passes as there are
    candidates leave none. -/
def findMostWorkFrom : Nat → Activating Branch
  | 0 => pure []
  | passes + 1 => do
    let pindexNew ← reading bestCandidate
    if pindexNew = [] then pure []
    else do
      let tree ← reading id
      let pindexTest ← check (findUnusable tree pindexNew)
      if pindexTest = [] then pure pindexNew
      else do
        update (discardCandidate pindexNew pindexTest)
        findMostWorkFrom passes

def findMostWorkChain : Activating Branch := do
  let passes ← reading fun tree => tree.setBlockIndexCandidates.length
  findMostWorkFrom passes

def pruneBlockIndexCandidates : Activating Unit := do
  update fun tree =>
    { tree with
      setBlockIndexCandidates := tree.setBlockIndexCandidates.filter fun pindex =>
        !tree.worse pindex tree.chainActive }
  let fEmpty ← reading fun tree => tree.setBlockIndexCandidates.isEmpty
  check (require (!fEmpty) .crashed)

def invalidChainFound (pindexNew : Branch) : Activating Unit := do
  update fun tree => tree.noteInvalid pindexNew
  let tip ← reading BlockTree.chainActive
  check (require (!tip.isEmpty) .crashed)

def invalidBlockFound (pindex : Branch) (state : CValidationState) : Activating Unit :=
  if state.corruptionPossible then pure ()
  else do
    update fun tree => (tree.failValid pindex).eraseCandidate pindex
    invalidChainFound pindex

def updateTip (pindexNew : Branch) : Activating Unit := do
  update fun tree => { tree with chainActive := pindexNew }
  check (require (!pindexNew.isEmpty) .crashed)

def disconnectTip (work : BlockWork) : Activating Unit := do
  let pindexDelete ← reading BlockTree.chainActive
  check (require (!pindexDelete.isEmpty) .crashed)
  check (work.disconnectBlock pindexDelete)
  updateTip pindexDelete.tail

def orAbort : Except String Unit → Except Failure Unit
  | .ok _ => .ok ()
  | .error reason => .error (.abort reason)

def loadBlock (work : BlockWork) (pindexNew : Branch) : Option CBlock → Except Failure CBlock
  | some block => .ok block
  | none =>
    match work.readBlockFromDisk pindexNew with
    | some block => .ok block
    | none => .error (.abort "Failed to read block")

def connectRefused (pindexNew : Branch) : Failure → Activating Unit
  | .refused state =>
    if state.isInvalid then do
      invalidBlockFound pindexNew state
      failing (.refused state)
    else failing (.refused state)
  | failure => failing failure

def connectTip (work : BlockWork) (pindexNew : Branch) (offer : OfferedBlock) :
    Activating Unit := do
  let tip ← reading BlockTree.chainActive
  check (require (pindexNew.tail == tip) .crashed)
  let block ← check (loadBlock work pindexNew offer.pblock)
  match work.connectBlock block pindexNew (offer.pblock.isSome && offer.fAlreadyChecked) with
  | .error failure => connectRefused pindexNew failure
  | .ok _ => do
    check (orAbort (work.flushConnected pindexNew))
    updateTip pindexNew

/-- How the loop over a batch ends: at its last block, at a tip better than the old one,
    or at an invalid block. -/
inductive BatchEnd where
  | connected
  | improved
  | invalidFound
deriving DecidableEq, Repr

def isImproved (pindexOldTip : Branch) (tree : BlockTree) : Bool :=
  pindexOldTip.isEmpty ||
    decide ((tree.entry tree.chainActive).nChainWork > (tree.entry pindexOldTip).nChainWork)

def batchRefused (pindexBack : Branch) : Failure → Activating BatchEnd
  | .refused state =>
    if state.isInvalid then
      if state.corruptionPossible then pure .invalidFound
      else do
        invalidChainFound pindexBack
        pure .invalidFound
    else failing (.refused state)
  | failure => failing failure

def connectBatch (work : BlockWork) (offer : OfferedBlock)
    (pindexOldTip pindexMostWork pindexBack : Branch) : List Branch → Activating BatchEnd
  | [] => pure .connected
  | pindexConnect :: later => do
    let pblock := if pindexConnect = pindexMostWork then offer.pblock else none
    let rv ← attempt (connectTip work pindexConnect ⟨pblock, offer.fAlreadyChecked⟩)
    match rv with
    | .error failure => batchRefused pindexBack failure
    | .ok _ => do
      pruneBlockIndexCandidates
      let fImproved ← reading (isImproved pindexOldTip)
      if fImproved then pure .improved
      else connectBatch work offer pindexOldTip pindexMostWork pindexBack later

def batchOf (pindexMostWork : Branch) (count target : Nat) : List Branch :=
  (List.range' (count + 1) (target - count)).map (getAncestor pindexMostWork)

/-- The batches of at most 32 blocks. Every batch raises `count`, the height reached
    plus one. -/
def connectBatches (work : BlockWork) (offer : OfferedBlock)
    (pindexOldTip pindexMostWork : Branch) : Nat → Nat → Activating Unit
  | 0, _ => pure ()
  | passes + 1, count =>
    if count = pindexMostWork.length then pure ()
    else do
      let target := min (count + 32) pindexMostWork.length
      let ended ← connectBatch work offer pindexOldTip pindexMostWork
        (getAncestor pindexMostWork (count + 1)) (batchOf pindexMostWork count target)
      match ended with
      | .connected => connectBatches work offer pindexOldTip pindexMostWork passes target
      | _ => pure ()

def disconnectLoop (work : BlockWork) (pindexFork : Branch) : Branch → Activating Unit
  | [] => pure ()
  | hash :: pprev =>
    if hash :: pprev = pindexFork then pure ()
    else do
      disconnectTip work
      disconnectLoop work pindexFork pprev

def activateBestChainStep (work : BlockWork) (pindexMostWork : Branch) (offer : OfferedBlock) :
    Activating Unit := do
  let pindexOldTip ← reading BlockTree.chainActive
  let pindexFork ← reading fun tree => findFork tree pindexMostWork
  disconnectLoop work pindexFork pindexOldTip
  connectBatches work offer pindexOldTip pindexMostWork pindexMostWork.length pindexFork.length

def offerFor (work : BlockWork) (tree : BlockTree) (pindexMostWork : Branch)
    (offer : OfferedBlock) : OfferedBlock :=
  { offer with
    pblock := offer.pblock.filter fun block =>
      work.getHash block == (tree.entry pindexMostWork).hash }

def finishActivation (work : BlockWork) : Activating Unit := do
  let tree ← reading id
  check (work.checkBlockIndex tree)
  check (orAbort (work.flushPeriodic tree.chainActive))

def activateRound (work : BlockWork) (offer : OfferedBlock) : Activating (Option Unit) := do
  let pindexMostWork ← findMostWorkChain
  let tree ← reading id
  if pindexMostWork = [] ∨ pindexMostWork = tree.chainActive then pure (some ())
  else do
    activateBestChainStep work pindexMostWork (offerFor work tree pindexMostWork offer)
    let tip ← reading BlockTree.chainActive
    if pindexMostWork = tip then do
      finishActivation work
      pure (some ())
    else pure none

/-- `ActivateBestChain` in at most `bound` passes of its loop, `none` when they are not
    enough for it to return. -/
def activateBestChain (work : BlockWork) (offer : OfferedBlock) (bound : Nat)
    (tree : BlockTree) : Option (EStateM.Result Failure BlockTree Unit) :=
  rounds (activateRound work offer) bound tree

end OxidBlockTree
