import Oxid.BudgetVotes
import Oxid.ConnectBlock

/-!
Which proposals a budget takes and which heights pay one. The count of masternodes is asked
for by `CountEnabled(ActiveProtocol())`, whose first parameter is the tier: no masternode
has a tier of that number, and every share is zero.
-/
namespace OxidBudgetThreshold
open OxidPrimitives OxidChainParams OxidMapKeys OxidMasternode OxidMasternodeMan
open OxidBudgetVotes OxidConnectBlock OrderedMaps

def MIN_PEER_PROTO_VERSION_BEFORE_ENFORCEMENT : Int32 := 70002
def MIN_PEER_PROTO_VERSION_AFTER_ENFORCEMENT : Int32 := 70003

def VOTE_YES : Int32 := 1
def VOTE_NO : Int32 := 2

structure ProtocolSporks where
  newProtocolEnforcement : Bool
  payUpdatedNodes : Bool

def activeProtocol (sporks : ProtocolSporks) : Int32 :=
  if sporks.newProtocolEnforcement then MIN_PEER_PROTO_VERSION_AFTER_ENFORCEMENT
  else MIN_PEER_PROTO_VERSION_BEFORE_ENFORCEMENT

def getMinMasternodePaymentsProto (sporks : ProtocolSporks) : Int32 :=
  if sporks.payUpdatedNodes then activeProtocol sporks
  else MIN_PEER_PROTO_VERSION_BEFORE_ENFORCEMENT

def countEnabled (sporks : ProtocolSporks) (checked : List CMasternode) (mnTier : UInt32)
    (protocolVersion : Int32) : Nat :=
  let protocolVersion :=
    if protocolVersion = -1 then getMinMasternodePaymentsProto sporks else protocolVersion
  let checkTier := mnTier != UNKNOWN
  checked.countP fun mn =>
    !(decide (mn.protocolVersion < protocolVersion) || !mn.isEnabled) &&
      !(checkTier && mnTier != mn.mnTier)

def countAsked (sporks : ProtocolSporks) (checked : List CMasternode) : Nat :=
  countEnabled sporks checked (activeProtocol sporks).toUInt32 (-1)

/-- `CountEnabled(UNKNOWN, ActiveProtocol())`: the enabled masternodes of all tiers that
    speak the active protocol. -/
def countSpeaking (sporks : ProtocolSporks) (checked : List CMasternode) : Nat :=
  countEnabled sporks checked UNKNOWN (activeProtocol sporks)

structure CBudgetProposal where
  nAlloted : Int
  fValid : Bool
  nBlockStart : Int
  nBlockEnd : Int
  nAmount : Int
  nTime : Int
  nFeeTXHash : Uint256
  mapVotes : OrderedMap Uint256 CBudgetVote

structure CFinalizedBudget where
  nBlockStart : Int
  /-- The number of payments. -/
  payments : Nat
  mapVotes : OrderedMap Uint256 CFinalizedBudgetVote

namespace CBudgetProposal

def getYeas (proposal : CBudgetProposal) : Nat :=
  proposal.mapVotes.entries.countP fun entry => entry.2.nVote == VOTE_YES && entry.2.fValid

def getNays (proposal : CBudgetProposal) : Nat :=
  proposal.mapVotes.entries.countP fun entry => entry.2.nVote == VOTE_NO && entry.2.fValid

def netVotes (proposal : CBudgetProposal) : Int := proposal.getYeas - proposal.getNays

def isEstablished (params : ChainParams) (now : Int) (proposal : CBudgetProposal) : Bool :=
  decide (proposal.nTime < now - if params.mainNet then 60 * 60 * 24 else 60 * 5)

def cleanAndRemove (man : CMasternodeMan) (proposal : CBudgetProposal) : CBudgetProposal :=
  { proposal with
    mapVotes :=
      ⟨proposal.mapVotes.entries.map fun entry =>
        (entry.1, { entry.2 with fValid := (man.find entry.2.vin).isSome }),
        List.Pairwise.map _ (fun _ _ before => before) proposal.mapVotes.ascending⟩ }

end CBudgetProposal

namespace CFinalizedBudget

def getBlockStart (budget : CFinalizedBudget) : Int := budget.nBlockStart

def getBlockEnd (budget : CFinalizedBudget) : Int := budget.nBlockStart + (budget.payments - 1)

def getVoteCount (budget : CFinalizedBudget) : Int := budget.mapVotes.size

def covers (budget : CFinalizedBudget) (nBlockHeight : Int) : Bool :=
  decide (budget.getBlockStart ≤ nBlockHeight) && decide (nBlockHeight ≤ budget.getBlockEnd)

end CFinalizedBudget

structure CBudgetManager where
  mapProposals : OrderedMap Uint256 CBudgetProposal
  mapFinalizedBudgets : OrderedMap Uint256 CFinalizedBudget

structure BudgetQuery where
  params : ChainParams
  sporks : ProtocolSporks
  man : CMasternodeMan
  tipHeight : Option Int
  time : Int

def sortProposalsByVotes (left right : Uint256 × CBudgetProposal) : Bool :=
  if left.2.netVotes ≠ right.2.netVotes then decide (left.2.netVotes > right.2.netVotes)
  else decide (left.2.nFeeTXHash ≥ right.2.nFeeTXHash)

def getTotalBudget (params : ChainParams) (nHeight : Int) : Int :=
  let nSubsidy := if nHeight ≥ params.nLastPOWBlock then 11 * COIN else 0 * COIN
  nSubsidy / 100 * 10 * 1440 * 30

def nextCycle (params : ChainParams) (nHeight : Int) : Int :=
  nHeight - nHeight % getBudgetPaymentCycleBlocks params + getBudgetPaymentCycleBlocks params

def runsAt (query : BudgetQuery) (nBlockStart : Int) (proposal : CBudgetProposal) : Bool :=
  proposal.fValid && decide (proposal.nBlockStart ≤ nBlockStart) &&
    decide (proposal.nBlockEnd ≥
      nBlockStart + getBudgetPaymentCycleBlocks query.params - 1) &&
    proposal.isEstablished query.params query.time

/-- The loop over the sorted proposals: what is taken, and the map with what is allotted. -/
def allot (query : BudgetQuery) (nBlockStart nTotalBudget : Int) :
    List (Uint256 × CBudgetProposal) → Int → OrderedMap Uint256 CBudgetProposal →
      List CBudgetProposal × OrderedMap Uint256 CBudgetProposal
  | [], _, mapProposals => ([], mapProposals)
  | (hash, proposal) :: rest, nBudgetAllocated, mapProposals =>
    if runsAt query nBlockStart proposal &&
        decide (proposal.netVotes >
          (countAsked query.sporks query.man.vMasternodes / 10 : Nat)) then
      if proposal.nAmount + nBudgetAllocated ≤ nTotalBudget then
        let taken := { proposal with nAlloted := proposal.nAmount }
        let (later, mapProposals) := allot query nBlockStart nTotalBudget rest
          (nBudgetAllocated + proposal.nAmount) (mapProposals.set hash taken)
        (taken :: later, mapProposals)
      else
        allot query nBlockStart nTotalBudget rest nBudgetAllocated
          (mapProposals.set hash { proposal with nAlloted := 0 })
    else allot query nBlockStart nTotalBudget rest nBudgetAllocated mapProposals

namespace CBudgetManager

def cleaned (query : BudgetQuery) (manager : CBudgetManager) :
    OrderedMap Uint256 CBudgetProposal :=
  ⟨manager.mapProposals.entries.map fun entry => (entry.1, entry.2.cleanAndRemove query.man),
    List.Pairwise.map _ (fun _ _ before => before) manager.mapProposals.ascending⟩

/-- The proposals by votes, and among equals by the hash of their fee transaction. -/
def ranked (query : BudgetQuery) (manager : CBudgetManager) : List (Uint256 × CBudgetProposal) :=
  (manager.cleaned query).entries.mergeSort sortProposalsByVotes

def getBudget (query : BudgetQuery) (manager : CBudgetManager) :
    List CBudgetProposal × CBudgetManager :=
  match query.tipHeight with
  | none => ([], { manager with mapProposals := manager.cleaned query })
  | some nHeight =>
    let nBlockStart := nextCycle query.params nHeight
    let (ret, mapProposals) := allot query nBlockStart (getTotalBudget query.params nBlockStart)
      (manager.ranked query) 0 (manager.cleaned query)
    (ret, { manager with mapProposals := mapProposals })

def isBudgetPaymentBlock (query : BudgetQuery) (nBlockHeight : Int) (manager : CBudgetManager) :
    Bool :=
  let nFivePercent : Int := (countAsked query.sporks query.man.vMasternodes / 20 : Nat)
  let nHighestCount := manager.mapFinalizedBudgets.entries.foldl (fun nHighestCount entry =>
    if entry.2.getVoteCount > nHighestCount ∧ nBlockHeight ≥ entry.2.getBlockStart ∧
        nBlockHeight ≤ entry.2.getBlockEnd then entry.2.getVoteCount
    else nHighestCount) (-1)
  decide (nHighestCount > nFivePercent)

end CBudgetManager

section Counting

theorem mnTier_cases (mn : CMasternode) :
    mn.mnTier = UNKNOWN ∨ mn.mnTier = MASTERNODE ∨ mn.mnTier = SUPERNODE := by
  unfold CMasternode.mnTier CMasternode.tierOf
  split_ifs
  · exact Or.inr (Or.inl rfl)
  · exact Or.inr (Or.inr rfl)
  · exact Or.inl rfl

theorem countAsked_zero (sporks : ProtocolSporks) (checked : List CMasternode) :
    countAsked sporks checked = 0 := by
  unfold countAsked countEnabled
  rw [List.countP_eq_zero]
  intro mn _
  have away : (activeProtocol sporks).toUInt32 ≠ UNKNOWN ∧
      (activeProtocol sporks).toUInt32 ≠ mn.mnTier := by
    unfold activeProtocol
    split_ifs
    · rcases mnTier_cases mn with tier | tier | tier
      · rw [tier]
        decide
      · rw [tier]
        decide
      · rw [tier]
        decide
    · rcases mnTier_cases mn with tier | tier | tier
      · rw [tier]
        decide
      · rw [tier]
        decide
      · rw [tier]
        decide
  simp [away.1, away.2]

end Counting

def affordable : Int → List CBudgetProposal → List CBudgetProposal
  | _, [] => []
  | room, proposal :: rest =>
    if proposal.nAmount ≤ room then proposal :: affordable (room - proposal.nAmount) rest
    else affordable room rest

section Taking

variable {query : BudgetQuery} {manager : CBudgetManager}

def Supported (query : BudgetQuery) (nBlockStart : Int) (proposal : CBudgetProposal) : Bool :=
  runsAt query nBlockStart proposal && decide (0 < proposal.netVotes)

theorem allot_taken (nBlockStart nTotalBudget : Int) (sorted : List (Uint256 × CBudgetProposal))
    (allocated : Int) (mapProposals : OrderedMap Uint256 CBudgetProposal) :
    (allot query nBlockStart nTotalBudget sorted allocated mapProposals).1 =
      (affordable (nTotalBudget - allocated)
        ((sorted.map Prod.snd).filter (Supported query nBlockStart))).map
          fun proposal => { proposal with nAlloted := proposal.nAmount } := by
  induction sorted generalizing allocated mapProposals with
  | nil => rfl
  | cons first rest ih =>
    obtain ⟨hash, proposal⟩ := first
    have asked : (runsAt query nBlockStart proposal && decide (proposal.netVotes >
        (countAsked query.sporks query.man.vMasternodes / 10 : Nat))) =
        Supported query nBlockStart proposal := by
      rw [countAsked_zero]
      rfl
    unfold allot
    rw [asked, List.map_cons, List.filter_cons]
    by_cases supported : Supported query nBlockStart proposal = true
    · rw [if_pos supported, if_pos supported]
      by_cases room : proposal.nAmount + allocated ≤ nTotalBudget
      · have fits : proposal.nAmount ≤ nTotalBudget - allocated := by omega
        have left : nTotalBudget - allocated - proposal.nAmount =
            nTotalBudget - (allocated + proposal.nAmount) := by omega
        rw [if_pos room, affordable, if_pos fits, List.map_cons, left, ← ih]
      · have short : ¬ proposal.nAmount ≤ nTotalBudget - allocated := by omega
        rw [if_neg room, affordable, if_neg short, ih]
    · rw [if_neg supported, if_neg supported, ih]

def funded (query : BudgetQuery) (manager : CBudgetManager) (nHeight : Int) :
    List CBudgetProposal :=
  let nBlockStart := nextCycle query.params nHeight
  affordable (getTotalBudget query.params nBlockStart)
    (((manager.ranked query).map Prod.snd).filter (Supported query nBlockStart))

variable {proposal : CBudgetProposal} {nHeight : Int}

theorem getBudget_funded (tip : query.tipHeight = some nHeight) :
    (manager.getBudget query).1 = (funded query manager nHeight).map
      fun proposal => { proposal with nAlloted := proposal.nAmount } := by
  unfold CBudgetManager.getBudget funded
  rw [tip]
  rw [allot_taken, Int.sub_zero]

theorem affordable_mem {room : Int} {proposals : List CBudgetProposal}
    (member : proposal ∈ affordable room proposals) : proposal ∈ proposals := by
  induction proposals generalizing room with
  | nil => cases member
  | cons first rest ih =>
    unfold affordable at member
    split_ifs at member
    · rcases List.mem_cons.mp member with here | later
      · rw [here]
        exact List.mem_cons_self
      · exact List.mem_cons_of_mem _ (ih later)
    · exact List.mem_cons_of_mem _ (ih member)

theorem funded_supported (member : proposal ∈ funded query manager nHeight) :
    0 < proposal.netVotes := by
  have listed := affordable_mem member
  have supported := (List.mem_filter.mp listed).2
  unfold Supported at supported
  simp only [Bool.and_eq_true, decide_eq_true_eq] at supported
  exact supported.2

theorem highestCount_gt (nBlockHeight bound : Int)
    (entries : List (Uint256 × CFinalizedBudget)) (start : Int) :
    bound < entries.foldl (fun nHighestCount entry =>
      if entry.2.getVoteCount > nHighestCount ∧ nBlockHeight ≥ entry.2.getBlockStart ∧
          nBlockHeight ≤ entry.2.getBlockEnd then entry.2.getVoteCount
      else nHighestCount) start ↔
      bound < start ∨ ∃ entry ∈ entries, entry.2.covers nBlockHeight = true ∧
        bound < entry.2.getVoteCount := by
  induction entries generalizing start with
  | nil => simp
  | cons entry rest ih =>
    rw [List.foldl_cons, ih]
    have cover : entry.2.covers nBlockHeight = true ↔
        entry.2.getBlockStart ≤ nBlockHeight ∧ nBlockHeight ≤ entry.2.getBlockEnd := by
      unfold CFinalizedBudget.covers
      simp
    simp only [List.exists_mem_cons_iff, cover]
    split_ifs with higher
    · constructor
      · rintro (more | later)
        · exact Or.inr (Or.inl ⟨⟨higher.2.1, higher.2.2⟩, more⟩)
        · exact Or.inr (Or.inr later)
      · rintro (more | ⟨_, more⟩ | later)
        · exact Or.inl (by omega)
        · exact Or.inl more
        · exact Or.inr later
    · constructor
      · rintro (more | later)
        · exact Or.inl more
        · exact Or.inr (Or.inr later)
      · rintro (more | ⟨covers, more⟩ | later)
        · exact Or.inl more
        · left
          by_contra less
          exact higher ⟨by omega, covers.1, covers.2⟩
        · exact Or.inr later

theorem isBudgetPaymentBlock_iff (nBlockHeight : Int) :
    manager.isBudgetPaymentBlock query nBlockHeight = true ↔
      ∃ entry ∈ manager.mapFinalizedBudgets.entries, entry.2.covers nBlockHeight = true ∧
        0 < entry.2.getVoteCount := by
  unfold CBudgetManager.isBudgetPaymentBlock
  rw [countAsked_zero]
  have counted := highestCount_gt nBlockHeight 0 manager.mapFinalizedBudgets.entries (-1)
  simpa using counted

end Taking

def TakesSupported (query : BudgetQuery) (manager : CBudgetManager) : Prop :=
  ∀ proposal ∈ (manager.getBudget query).1,
    proposal.netVotes > (countSpeaking query.sporks query.man.vMasternodes / 10 : Nat)

def PaysSupported (query : BudgetQuery) (nBlockHeight : Int) (manager : CBudgetManager) : Prop :=
  manager.isBudgetPaymentBlock query nBlockHeight = true →
    ∃ entry ∈ manager.mapFinalizedBudgets.entries, entry.2.covers nBlockHeight = true ∧
      entry.2.getVoteCount > (countSpeaking query.sporks query.man.vMasternodes / 20 : Nat)

/-- No proposal that gets a share of the budget has votes for it of a tenth or less. -/
def NoWeakProposal (query : BudgetQuery) (manager : CBudgetManager) : Prop :=
  ∀ nHeight, query.tipHeight = some nHeight → ∀ proposal ∈ funded query manager nHeight,
    ¬ (0 < proposal.netVotes ∧
      proposal.netVotes ≤ (countSpeaking query.sporks query.man.vMasternodes / 10 : Nat))

/-- Among the budgets that cover the height, one has votes of more than a twentieth, or
    none has any. -/
def NoWeakBudget (query : BudgetQuery) (nBlockHeight : Int) (manager : CBudgetManager) : Prop :=
  (∃ entry ∈ manager.mapFinalizedBudgets.entries, entry.2.covers nBlockHeight = true ∧
    entry.2.getVoteCount > (countSpeaking query.sporks query.man.vMasternodes / 20 : Nat)) ∨
  ∀ entry ∈ manager.mapFinalizedBudgets.entries, entry.2.covers nBlockHeight = true →
    entry.2.getVoteCount = 0

section Samples

def twentyMasternodes : CMasternodeMan :=
  ⟨List.replicate 20 (CMasternode.fresh 0), ∅, ∅, ∅, 0, ∅, ∅⟩

def sampleQuery : BudgetQuery where
  params := mainParams
  sporks := ⟨true, true⟩
  man := twentyMasternodes
  tipHeight := some 50000
  time := 1600000000

def singleVote : OrderedMap Uint256 CBudgetVote :=
  (∅ : OrderedMap Uint256 CBudgetVote).set 1
    ⟨true, true, CTxIn.fresh, 9, VOTE_YES, 1500000000, []⟩

def singleFinalVote : OrderedMap Uint256 CFinalizedBudgetVote :=
  (∅ : OrderedMap Uint256 CFinalizedBudgetVote).set 1
    ⟨true, true, CTxIn.fresh, 8, 1500000000, []⟩

def singleVoteManager : CBudgetManager where
  mapProposals := (∅ : OrderedMap Uint256 CBudgetProposal).set 9
    ⟨0, true, 43200, 172800, 100 * COIN, 1500000000, 7, singleVote⟩
  mapFinalizedBudgets := (∅ : OrderedMap Uint256 CFinalizedBudget).set 8
    ⟨86400, 1, singleFinalVote⟩

example : countSpeaking sampleQuery.sporks sampleQuery.man.vMasternodes = 20 := by decide

end Samples

end OxidBudgetThreshold
