import Oxid.MasternodePayments

/-!
The handlers of `mvote` and `fbvote`. Both go the same way over their own maps, so the way
is written once, for a kind of vote. Hashes and signature verification are parameters, and
clocks come with the call.
-/
namespace OxidBudgetVotes
open OxidPrimitives OxidMapKeys OxidMasternode OxidMasternodeMan OxidMasternodePayments OrderedMaps

def BUDGET_VOTE_UPDATE_MIN : Int64 := 60 * 60

structure CBudgetVote where
  fValid : Bool
  fSynced : Bool
  vin : CTxIn
  nProposalHash : Uint256
  nVote : Int32
  nTime : Int64
  vchSig : List UInt8
deriving DecidableEq, Repr

structure CFinalizedBudgetVote where
  fValid : Bool
  fSynced : Bool
  vin : CTxIn
  nBudgetHash : Uint256
  nTime : Int64
  vchSig : List UInt8
deriving DecidableEq, Repr

structure BudgetRules where
  voteHash : CTxIn × Uint256 × Int32 × Int64 → Uint256
  finalizedVoteHash : CTxIn × Uint256 × Int64 → Uint256
  outPointHash : COutPoint → Uint256

structure BudgetCall where
  liteMode : Bool
  blockchainSynced : Bool
  synced : Bool
  time : Int64
  verifyVote : CPubKey → List UInt8 → COutPoint × Uint256 × Int32 × Int64 → Bool
  verifyFinalizedVote : CPubKey → List UInt8 → COutPoint × Uint256 × Int64 → Bool

structure VoteKind (Vote : Type) where
  vin : Vote → CTxIn
  /-- The proposal or the budget voted on. -/
  target : Vote → Uint256
  nTime : Vote → Int64
  getHash : BudgetRules → Vote → Uint256
  verify : BudgetCall → CPubKey → Vote → Bool

def mvote : VoteKind CBudgetVote where
  vin := CBudgetVote.vin
  target := CBudgetVote.nProposalHash
  nTime := CBudgetVote.nTime
  getHash rules vote := rules.voteHash (vote.vin, vote.nProposalHash, vote.nVote, vote.nTime)
  verify call key vote :=
    call.verifyVote key vote.vchSig (vote.vin.prevout, vote.nProposalHash, vote.nVote, vote.nTime)

def fbvote : VoteKind CFinalizedBudgetVote where
  vin := CFinalizedBudgetVote.vin
  target := CFinalizedBudgetVote.nBudgetHash
  nTime := CFinalizedBudgetVote.nTime
  getHash rules vote := rules.finalizedVoteHash (vote.vin, vote.nBudgetHash, vote.nTime)
  verify call key vote :=
    call.verifyFinalizedVote key vote.vchSig (vote.vin.prevout, vote.nBudgetHash, vote.nTime)

/-- The votes of one kind: seen, waiting for what they are on, and cast on each
    proposal or budget that is known. -/
structure Ballots (Vote : Type) where
  mapSeen : OrderedMap Uint256 Vote
  mapOrphan : OrderedMap Uint256 Vote
  mapVotes : OrderedMap Uint256 (OrderedMap Uint256 Vote)

inductive VoteOutcome where
  | ignored
  | alreadySeen
  | unknownMasternode
  | badSignature
  | notSynced
  | orphaned (asksForSource : Bool)
  | older
  | tooSoon
  | tooFarAhead
  | counted
deriving DecidableEq, Repr

section Process
variable {Vote : Type} (kind : VoteKind Vote) (rules : BudgetRules) (call : BudgetCall)

def addOrUpdateVote (vote : Vote) (mapVotes : OrderedMap Uint256 Vote) :
    Except VoteOutcome (OrderedMap Uint256 Vote) :=
  let hash := rules.outPointHash (kind.vin vote).prevout
  let standing := mapVotes.find? hash
  if standing.any fun old => decide (kind.nTime vote < kind.nTime old) then .error .older
  else if standing.any fun old =>
      decide (kind.nTime vote - kind.nTime old < BUDGET_VOTE_UPDATE_MIN) then .error .tooSoon
  else if call.time + 60 * 60 < kind.nTime vote then .error .tooFarAhead
  else .ok (mapVotes.set hash vote)

/-- `UpdateProposal` and `UpdateFinalizedBudget`, for a vote that came from a peer. -/
def updateVoted (vote : Vote) (ballots : Ballots Vote) (asked : OrderedMap Uint256 Int64) :
    VoteOutcome × Ballots Vote × OrderedMap Uint256 Int64 :=
  match ballots.mapVotes.find? (kind.target vote) with
  | none =>
    if !call.synced then (.notSynced, ballots, asked)
    else (.orphaned (!asked.count (kind.target vote)),
      { ballots with mapOrphan := ballots.mapOrphan.set (kind.target vote) vote },
      asked.insert (kind.target vote) call.time)
  | some mapVotes =>
    match addOrUpdateVote kind rules call vote mapVotes with
    | .error outcome => (outcome, ballots, asked)
    | .ok mapVotes =>
      (.counted, { ballots with mapVotes := ballots.mapVotes.set (kind.target vote) mapVotes },
        asked)

structure VoteState (Vote : Type) where
  mnodeman : CMasternodeMan
  ballots : Ballots Vote
  askedForSourceProposalOrBudget : OrderedMap Uint256 Int64

def signatureValid (man : CMasternodeMan) (vote : Vote) : Bool :=
  match man.find (kind.vin vote) with
  | none => false
  | some pmn => kind.verify call pmn.pubKeyMasternode vote

def noteSeen (vote : Vote) (ballots : Ballots Vote) : Ballots Vote :=
  { ballots with mapSeen := ballots.mapSeen.set (kind.getHash rules vote) vote }

def processVote (vote : Vote) (state : VoteState Vote) : VoteOutcome × VoteState Vote :=
  if call.liteMode || !call.blockchainSynced then (.ignored, state)
  else if state.ballots.mapSeen.count (kind.getHash rules vote) then (.alreadySeen, state)
  else if (state.mnodeman.find (kind.vin vote)).isNone then
    (.unknownMasternode,
      { state with mnodeman := askForMN call.time (kind.vin vote) state.mnodeman })
  else if !signatureValid kind call state.mnodeman vote then
    (.badSignature, { state with
      mnodeman := askForMN call.time (kind.vin vote) state.mnodeman
      ballots := noteSeen kind rules vote state.ballots })
  else
    let (outcome, ballots, asked) := updateVoted kind rules call vote
      (noteSeen kind rules vote state.ballots) state.askedForSourceProposalOrBudget
    (outcome, ⟨state.mnodeman, ballots, asked⟩)

end Process

/-- The budget manager, as far as votes read and write it, and the map of what was asked for. -/
structure CBudgetManager where
  proposalVotes : Ballots CBudgetVote
  finalizedBudgetVotes : Ballots CFinalizedBudgetVote
  askedForSourceProposalOrBudget : OrderedMap Uint256 Int64

def processMvote (rules : BudgetRules) (call : BudgetCall) (vote : CBudgetVote)
    (man : CMasternodeMan) (budget : CBudgetManager) :
    VoteOutcome × CMasternodeMan × CBudgetManager :=
  let (outcome, state) := processVote mvote rules call { vote with fValid := true }
    ⟨man, budget.proposalVotes, budget.askedForSourceProposalOrBudget⟩
  (outcome, state.mnodeman, { budget with
    proposalVotes := state.ballots
    askedForSourceProposalOrBudget := state.askedForSourceProposalOrBudget })

def processFbvote (rules : BudgetRules) (call : BudgetCall) (vote : CFinalizedBudgetVote)
    (man : CMasternodeMan) (budget : CBudgetManager) :
    VoteOutcome × CMasternodeMan × CBudgetManager :=
  let (outcome, state) := processVote fbvote rules call { vote with fValid := true }
    ⟨man, budget.finalizedBudgetVotes, budget.askedForSourceProposalOrBudget⟩
  (outcome, state.mnodeman, { budget with
    finalizedBudgetVotes := state.ballots
    askedForSourceProposalOrBudget := state.askedForSourceProposalOrBudget })

end OxidBudgetVotes
