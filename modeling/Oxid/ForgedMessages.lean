import Oxid.ForgedVotes
import Oxid.Library.Unwinding

/-!
What messages with a failing signature leave behind for the genuine ones. A node that
receives everything is compared with one that is not given the forged messages.
-/
namespace OxidForgedMessages
open OxidPrimitives OxidMapKeys OxidMasternode OxidMasternodeMan OxidMasternodePayments
open OxidMasternodeBroadcast OxidBudgetVotes OxidInstantTX OxidAlikeManagers OxidForgedVotes
open OrderedMaps OrderedMap Unwinding

structure NodeRules where
  mnb : MnbRules
  budget : BudgetRules
  mnw : MnwRules
  txHash : CTransaction → Uint256

structure ReceivingNode where
  mnodeman : CMasternodeMan
  budget : CBudgetManager
  payments : CMasternodePayments
  mapTxLockVote : OrderedMap Uint256 CConsensusVote
  locks : LockMaps

inductive Message where
  | mnb (call : MnbCall) (mnb : CMasternodeBroadcast)
  | mvote (call : BudgetCall) (vote : CBudgetVote)
  | fbvote (call : BudgetCall) (vote : CFinalizedBudgetVote)
  | mnw (call : MnwCall) (winner : CMasternodePaymentWinner)
  | txlvote (call : TxlvoteCall) (ctx : CConsensusVote)

inductive Answer where
  | broadcast (outcome : MnbOutcome) (relayed : List Relayed)
  | vote (outcome : VoteOutcome)
  | winner (outcome : MnwOutcome)
  | lock (outcome : TxlvoteOutcome)
deriving DecidableEq, Repr

def receive (rules : NodeRules) (node : ReceivingNode) : Message → Answer × ReceivingNode
  | .mnb call mnb =>
    let ((outcome, relayed), man) := processMnb call rules.mnb mnb node.mnodeman
    (.broadcast outcome relayed, { node with mnodeman := man })
  | .mvote call vote =>
    let (outcome, man, budget) := processMvote rules.budget call vote node.mnodeman node.budget
    (.vote outcome, { node with mnodeman := man, budget := budget })
  | .fbvote call vote =>
    let (outcome, man, budget) := processFbvote rules.budget call vote node.mnodeman node.budget
    (.vote outcome, { node with mnodeman := man, budget := budget })
  | .mnw call winner =>
    let (outcome, state) := processMnw call rules.mnw winner ⟨node.mnodeman, node.payments⟩
    (.winner outcome, { node with mnodeman := state.mnodeman, payments := state.payments })
  | .txlvote call ctx =>
    let (outcome, state) := processTxlvote call rules.txHash ctx
      ⟨node.mnodeman, node.mapTxLockVote, node.locks⟩
    (.lock outcome, { node with
      mnodeman := state.mnodeman
      mapTxLockVote := state.mapTxLockVote
      locks := state.maps })

def forged (node : ReceivingNode) : Message → Bool
  | .mnb call mnb =>
    !call.verifyMessage mnb.pubKeyCollateralAddress mnb.sig (broadcastContent mnb)
  | .mvote call vote => !signatureValid mvote call node.mnodeman vote
  | .fbvote call vote => !signatureValid fbvote call node.mnodeman vote
  | .mnw call winner => !call.signatureValid node.mnodeman winner
  | .txlvote call ctx => !call.signatureValid node.mnodeman ctx

/-! What forged messages have left on a node. -/

structure Marks where
  broadcasts : List Uint256
  votes : List Uint256
  finalizedVotes : List Uint256
  lockVotes : List Uint256
  permissions : Uint256 → Option (Option Int32)

def Marks.none : Marks := ⟨[], [], [], [], fun _ => .none⟩

def seenMarks {Value : Type} (forged : Bool) (old new : OrderedMap Uint256 Value) (hash : Uint256)
    (marks : List Uint256) : List Uint256 :=
  if forged && !old.count hash && new.count hash then hash :: marks else marks

def Marks.after (marks : Marks) (rules : NodeRules) (old new : ReceivingNode) (message : Message) :
    Marks :=
  match message with
  | .mnb _ mnb => { marks with
      broadcasts := seenMarks (forged old message) old.mnodeman.mapSeenMasternodeBroadcast
        new.mnodeman.mapSeenMasternodeBroadcast (rules.mnb.getHash mnb.toCMasternode)
        marks.broadcasts }
  | .mvote _ vote => { marks with
      votes := seenMarks (forged old message) old.budget.proposalVotes.mapSeen
        new.budget.proposalVotes.mapSeen (mvote.getHash rules.budget vote) marks.votes }
  | .fbvote _ vote => { marks with
      finalizedVotes := seenMarks (forged old message) old.budget.finalizedBudgetVotes.mapSeen
        new.budget.finalizedBudgetVotes.mapSeen (fbvote.getHash rules.budget vote)
        marks.finalizedVotes }
  | .mnw _ _ => { marks with
      permissions := permissionMarks (forged old message) old.payments.mapMasternodesLastVote
        new.payments.mapMasternodesLastVote marks.permissions }
  | .txlvote _ ctx => { marks with
      lockVotes := seenMarks (forged old message) old.mapTxLockVote new.mapTxLockVote ctx.getHash
        marks.lockVotes }

structure WatchedNode where
  node : ReceivingNode
  marks : Marks

def receiveWatched (rules : NodeRules) (watched : WatchedNode) (message : Message) :
    Answer × WatchedNode :=
  let (answer, node) := receive rules watched.node message
  (answer, ⟨node, watched.marks.after rules watched.node node message⟩)

def forgedAt (watched : WatchedNode) (message : Message) : Bool := forged watched.node message

/-- The message asks for nothing a forged one left: not for a hash that one was noted
    under, nor, as a payment vote, for a height one recorded or wrote over. -/
def Unshadowed (rules : NodeRules) (watched : WatchedNode) : Message → Prop
  | .mnb call mnb => (call.liteMode || !call.blockchainSynced) = false →
      rules.mnb.getHash mnb.toCMasternode ∉ watched.marks.broadcasts
  | .mvote call vote => (call.liteMode || !call.blockchainSynced) = false →
      mvote.getHash rules.budget vote ∉ watched.marks.votes
  | .fbvote call vote => (call.liteMode || !call.blockchainSynced) = false →
      fbvote.getHash rules.budget vote ∉ watched.marks.finalizedVotes
  | .mnw call winner => VoteClear call rules.mnw winner watched.marks.permissions
      ⟨watched.node.mnodeman, watched.node.payments⟩
  | .txlvote call ctx => lockGate call = false → ctx.getHash ∉ watched.marks.lockVotes

/-- A watched node and one that was not given the forged messages. -/
structure NodesAlike (watched : WatchedNode) (plain : ReceivingNode) : Prop where
  managers : ManagersAlike watched.marks.broadcasts watched.node.mnodeman plain.mnodeman
  votes : BallotsAlike watched.marks.votes watched.node.budget.proposalVotes
    plain.budget.proposalVotes
  finalizedVotes : BallotsAlike watched.marks.finalizedVotes
    watched.node.budget.finalizedBudgetVotes plain.budget.finalizedBudgetVotes
  asked : watched.node.budget.askedForSourceProposalOrBudget =
    plain.budget.askedForSourceProposalOrBudget
  payeeVotes : watched.node.payments.mapMasternodePayeeVotes = plain.payments.mapMasternodePayeeVotes
  blocks : watched.node.payments.mapMasternodeBlocks = plain.payments.mapMasternodeBlocks
  permissions : PermissionsAlike watched.marks.permissions
    watched.node.payments.mapMasternodesLastVote plain.payments.mapMasternodesLastVote
  lockVotes : SeenAlike watched.marks.lockVotes watched.node.mapTxLockVote plain.mapTxLockVote
  locks : watched.node.locks = plain.locks

theorem nodesAlike_refl (node : ReceivingNode) : NodesAlike ⟨node, Marks.none⟩ node where
  managers := ManagersAlike.refl _
  votes := ⟨SeenAlike.refl _, rfl, rfl⟩
  finalizedVotes := ⟨SeenAlike.refl _, rfl, rfl⟩
  asked := rfl
  payeeVotes := rfl
  blocks := rfl
  permissions := ⟨fun _ => rfl, fun _ _ mark => nomatch mark⟩
  lockVotes := SeenAlike.refl _
  locks := rfl

section Seen
variable {Value : Type} {marks : List Uint256} {noted plain : OrderedMap Uint256 Value}
variable {later : OrderedMap Uint256 Value} {hash : Uint256}

theorem seenMarks_genuine : seenMarks false noted later hash marks = marks := rfl

theorem seen_forged {isForged : Bool} (holds : isForged = true)
    (alike : SeenAlike marks noted plain) {value : Value}
    (left : later = noted ∨ noted.count hash = false ∧ later = noted.set hash value) :
    SeenAlike (seenMarks isForged noted later hash marks) later plain := by
  subst holds
  rcases left with same | ⟨absent, set⟩
  · subst same
    have unmarked : seenMarks true later later hash marks = marks := by
      unfold seenMarks
      cases later.count hash <;> rfl
    rw [unmarked]
    exact alike
  · have marked : seenMarks true noted later hash marks = hash :: marks := by
      unfold seenMarks
      rw [set, absent, OrderedMap.count, find?_set_same]
      rfl
    rw [marked, set]
    exact alike.note value absent

end Seen

theorem genuine_valid {valid : Bool} (genuine : (!valid) = false) : valid = true := by
  cases valid with
  | true => rfl
  | false => cases genuine

section Steps
variable {rules : NodeRules} {watched : WatchedNode} {plain : ReceivingNode} {isForged : Bool}

theorem managers_forged (holds : isForged = true) {seen : List Uint256}
    {noted plainMan : CMasternodeMan} (alike : ManagersAlike seen noted plainMan) (call : MnbCall)
    (mnbRules : MnbRules) (mnb : CMasternodeBroadcast)
    (failed : call.verifyMessage mnb.pubKeyCollateralAddress mnb.sig (broadcastContent mnb) = false)
    :
    ManagersAlike (seenMarks isForged noted.mapSeenMasternodeBroadcast
        (processMnb call mnbRules mnb noted).2.mapSeenMasternodeBroadcast
        (mnbRules.getHash mnb.toCMasternode) seen)
      (processMnb call mnbRules mnb noted).2 plainMan := by
  rcases processMnb_forged call mnbRules mnb noted failed with same | ⟨absent, left⟩
  · rw [same]
    exact ⟨alike.entries, alike.pings, @seen_forged _ _ _ _ _ _ _ holds alike.seen mnb (.inl rfl)⟩
  · rw [left]
    exact ⟨alike.entries, alike.pings, seen_forged holds alike.seen (.inr ⟨absent, rfl⟩)⟩

theorem ballots_forged (holds : isForged = true) {Vote : Type} {kind : VoteKind Vote}
    {budgetRules : BudgetRules} {vote : Vote} {marks : List Uint256}
    {noted later plainBallots : Ballots Vote} (alike : BallotsAlike marks noted plainBallots)
    (left : later = noted ∨ noted.mapSeen.count (kind.getHash budgetRules vote) = false ∧
      later = OxidBudgetVotes.noteSeen kind budgetRules vote noted) :
    BallotsAlike (seenMarks isForged noted.mapSeen later.mapSeen
      (kind.getHash budgetRules vote) marks) later plainBallots := by
  rcases left with same | ⟨absent, set⟩
  · subst same
    exact ⟨@seen_forged _ _ _ _ _ _ _ holds alike.seen vote (.inl rfl), alike.orphan, alike.votes⟩
  · subst set
    exact ⟨seen_forged holds alike.seen (.inr ⟨absent, rfl⟩), alike.orphan, alike.votes⟩

theorem payments_forged (holds : isForged = true) {marks : Uint256 → Option (Option Int32)}
    {noted later : CMasternodePayments} {plainMap : OrderedMap Uint256 Int32}
    (alike : PermissionsAlike marks noted.mapMasternodesLastVote plainMap)
    (left : later = noted ∨ ∃ key height, noted.mapMasternodesLastVote.find? key ≠ some height ∧
      later = noted.recordVote key height) :
    PermissionsAlike (permissionMarks isForged noted.mapMasternodesLastVote
        later.mapMasternodesLastVote marks) later.mapMasternodesLastVote plainMap ∧
      later.mapMasternodePayeeVotes = noted.mapMasternodePayeeVotes ∧
      later.mapMasternodeBlocks = noted.mapMasternodeBlocks := by
  subst holds
  rcases left with same | ⟨key, height, free, recorded⟩
  · rw [same, permissionMarks_same]
    exact ⟨alike, rfl, rfl⟩
  · rw [recorded]
    exact ⟨alike.forged free, rfl, rfl⟩

section
variable (message : Message) (alike : NodesAlike watched plain)
include message alike

theorem forged_leaves (isForged : forgedAt watched message = true) :
    NodesAlike (receiveWatched rules watched message).2 plain := by
  cases message with
  | mnb call mnb =>
    have managers := managers_forged isForged alike.managers call rules.mnb mnb
      (Bool.not_eq_eq_eq_not.mp isForged)
    exact { alike with managers := managers }
  | mvote call vote =>
    obtain ⟨core, asked, ballots⟩ := @processVote_forged _ mvote rules.budget call
      { vote with fValid := true } ⟨watched.node.mnodeman, watched.node.budget.proposalVotes,
        watched.node.budget.askedForSourceProposalOrBudget⟩ (Bool.not_eq_eq_eq_not.mp isForged)
    have votes := ballots_forged isForged alike.votes ballots
    exact { alike with
      managers := alike.managers.onNoted core
      votes := votes
      asked := asked.trans alike.asked }
  | fbvote call vote =>
    obtain ⟨core, asked, ballots⟩ := @processVote_forged _ fbvote rules.budget call
      { vote with fValid := true } ⟨watched.node.mnodeman, watched.node.budget.finalizedBudgetVotes,
        watched.node.budget.askedForSourceProposalOrBudget⟩ (Bool.not_eq_eq_eq_not.mp isForged)
    have votes := ballots_forged isForged alike.finalizedVotes ballots
    exact { alike with
      managers := alike.managers.onNoted core
      finalizedVotes := votes
      asked := asked.trans alike.asked }
  | mnw call winner =>
    obtain ⟨core, payments⟩ := @processMnw_forged call rules.mnw winner
      ⟨watched.node.mnodeman, watched.node.payments⟩ (Bool.not_eq_eq_eq_not.mp isForged)
    obtain ⟨permissions, votes, blocks⟩ := payments_forged isForged alike.permissions payments
    exact { alike with
      managers := alike.managers.onNoted core
      payeeVotes := votes.trans alike.payeeVotes
      blocks := blocks.trans alike.blocks
      permissions := permissions }
  | txlvote call ctx =>
    obtain ⟨core, maps, votes⟩ := @processTxlvote_forged call rules.txHash ctx
      ⟨watched.node.mnodeman, watched.node.mapTxLockVote, watched.node.locks⟩
      (Bool.not_eq_eq_eq_not.mp isForged)
    have lockVotes := @seen_forged _ _ _ _ _ ctx.getHash _ isForged alike.lockVotes ctx votes
    exact { alike with
      managers := alike.managers.onNoted core
      lockVotes := lockVotes
      locks := maps.trans alike.locks }

theorem genuine_agrees (genuine : forgedAt watched message = false)
    (clear : Unshadowed rules watched message) :
    (receiveWatched rules watched message).1 = (receive rules plain message).1 ∧
      NodesAlike (receiveWatched rules watched message).2 (receive rules plain message).2 := by
  unfold forgedAt at genuine
  cases message with
  | mnb call mnb =>
    obtain ⟨answer, managers⟩ := processMnb_alike call rules.mnb alike.managers clear
    constructor
    · simp [receiveWatched, receive, answer]
    · simp only [receiveWatched, receive, Marks.after, genuine, seenMarks_genuine]
      exact { alike with managers := managers }
  | mvote call vote =>
    obtain ⟨answer, votes⟩ := @processVote_alike _ mvote rules.budget call _ _
      ⟨watched.node.mnodeman, watched.node.budget.proposalVotes,
        watched.node.budget.askedForSourceProposalOrBudget⟩
      ⟨plain.mnodeman, plain.budget.proposalVotes, plain.budget.askedForSourceProposalOrBudget⟩
      { vote with fValid := true }
      ⟨alike.managers, alike.votes, alike.asked⟩ clear
    constructor
    · simp [receiveWatched, receive, processMvote, answer]
    · simp only [receiveWatched, receive, processMvote, Marks.after, genuine, seenMarks_genuine]
      exact { alike with
        managers := votes.managers
        votes := votes.ballots
        asked := votes.asked }
  | fbvote call vote =>
    obtain ⟨answer, votes⟩ := @processVote_alike _ fbvote rules.budget call _ _
      ⟨watched.node.mnodeman, watched.node.budget.finalizedBudgetVotes,
        watched.node.budget.askedForSourceProposalOrBudget⟩
      ⟨plain.mnodeman, plain.budget.finalizedBudgetVotes,
        plain.budget.askedForSourceProposalOrBudget⟩
      { vote with fValid := true }
      ⟨alike.managers, alike.finalizedVotes, alike.asked⟩ clear
    constructor
    · simp [receiveWatched, receive, processFbvote, answer]
    · simp only [receiveWatched, receive, processFbvote, Marks.after, genuine, seenMarks_genuine]
      exact { alike with
        managers := votes.managers
        finalizedVotes := votes.ballots
        asked := votes.asked }
  | mnw call winner =>
    obtain ⟨answer, payments⟩ := @processMnw_alike call rules.mnw _
      ⟨watched.node.mnodeman, watched.node.payments⟩ ⟨plain.mnodeman, plain.payments⟩ winner _
      ⟨alike.managers, alike.payeeVotes, alike.blocks, alike.permissions⟩
      (genuine_valid genuine) clear
    constructor
    · simp [receiveWatched, receive, answer]
    · simp only [receiveWatched, receive, Marks.after, genuine]
      exact { alike with
        managers := payments.managers
        payeeVotes := payments.votes
        blocks := payments.blocks
        permissions := payments.permissions }
  | txlvote call ctx =>
    obtain ⟨answer, locks⟩ := @processTxlvote_alike call rules.txHash _ _ ctx
      ⟨watched.node.mnodeman, watched.node.mapTxLockVote, watched.node.locks⟩
      ⟨plain.mnodeman, plain.mapTxLockVote, plain.locks⟩
      ⟨alike.managers, alike.lockVotes, alike.locks⟩ clear
    constructor
    · simp [receiveWatched, receive, answer]
    · simp only [receiveWatched, receive, Marks.after, genuine, seenMarks_genuine]
      exact { alike with
        managers := locks.managers
        lockVotes := locks.votes
        locks := locks.maps }

theorem shadowed_differs (genuine : forgedAt watched message = false)
    (shadowed : ¬ Unshadowed rules watched message) :
    (receiveWatched rules watched message).1 ≠ (receive rules plain message).1 := by
  cases message with
  | mnb call mnb =>
    simp only [Unshadowed, Classical.not_imp, not_not] at shadowed
    have differs := processMnb_shadowed call rules.mnb alike.managers shadowed.1 shadowed.2
    intro same
    simp only [receiveWatched, receive, Answer.broadcast.injEq] at same
    exact differs (Prod.ext same.1 same.2)
  | mvote call vote =>
    simp only [Unshadowed, Classical.not_imp, not_not] at shadowed
    have differs := @processVote_shadowed _ mvote rules.budget call _ _
      ⟨watched.node.mnodeman, watched.node.budget.proposalVotes,
        watched.node.budget.askedForSourceProposalOrBudget⟩
      ⟨plain.mnodeman, plain.budget.proposalVotes, plain.budget.askedForSourceProposalOrBudget⟩
      { vote with fValid := true }
      ⟨alike.managers, alike.votes, alike.asked⟩ (genuine_valid genuine) shadowed.1 shadowed.2
    intro same
    simp only [receiveWatched, receive, processMvote, Answer.vote.injEq] at same
    exact differs same
  | fbvote call vote =>
    simp only [Unshadowed, Classical.not_imp, not_not] at shadowed
    have differs := @processVote_shadowed _ fbvote rules.budget call _ _
      ⟨watched.node.mnodeman, watched.node.budget.finalizedBudgetVotes,
        watched.node.budget.askedForSourceProposalOrBudget⟩
      ⟨plain.mnodeman, plain.budget.finalizedBudgetVotes,
        plain.budget.askedForSourceProposalOrBudget⟩
      { vote with fValid := true }
      ⟨alike.managers, alike.finalizedVotes, alike.asked⟩ (genuine_valid genuine) shadowed.1 shadowed.2
    intro same
    simp only [receiveWatched, receive, processFbvote, Answer.vote.injEq] at same
    exact differs same
  | mnw call winner =>
    have differs := @processMnw_shadowed call rules.mnw _
      ⟨watched.node.mnodeman, watched.node.payments⟩ ⟨plain.mnodeman, plain.payments⟩ winner _
      ⟨alike.managers, alike.payeeVotes, alike.blocks, alike.permissions⟩
      (genuine_valid genuine) shadowed
    intro same
    simp only [receiveWatched, receive, Answer.winner.injEq] at same
    exact differs same
  | txlvote call ctx =>
    simp only [Unshadowed, Classical.not_imp, not_not] at shadowed
    have differs := @processTxlvote_shadowed call rules.txHash _ _ ctx
      ⟨watched.node.mnodeman, watched.node.mapTxLockVote, watched.node.locks⟩
      ⟨plain.mnodeman, plain.mapTxLockVote, plain.locks⟩
      ⟨alike.managers, alike.lockVotes, alike.locks⟩ shadowed.1 shadowed.2
    intro same
    simp only [receiveWatched, receive, Answer.lock.injEq] at same
    exact differs same

end

end Steps

def watch (node : ReceivingNode) : WatchedNode := ⟨node, Marks.none⟩

def genuineOf (rules : NodeRules) (node : ReceivingNode) (messages : List Message) :
    List Message :=
  shown (receiveWatched rules) forgedAt (watch node) messages

def answersAmid (rules : NodeRules) (node : ReceivingNode) (messages : List Message) :
    List Answer :=
  answered (receiveWatched rules) forgedAt (watch node) messages

/-- The genuine messages are answered as if no forged one had arrived, and the two
    nodes end alike. -/
def Traceless (rules : NodeRules) (node : ReceivingNode) (messages : List Message) : Prop :=
  outputs (receive rules) node (genuineOf rules node messages) =
      answersAmid rules node messages ∧
    NodesAlike (ended (receiveWatched rules) (watch node) messages)
      (ended (receive rules) node (genuineOf rules node messages))

/-- In every sequence of messages the forged ones leave no trace if and only if no
    genuine one asks for what a forged one left. -/
theorem forged_traceless_iff (rules : NodeRules) (node : ReceivingNode)
    (messages : List Message) :
    Traceless rules node messages ↔
      AllMeet (receiveWatched rules) forgedAt (Unshadowed rules) (watch node) messages := by
  have leaves := fun (watched : WatchedNode) (plain : ReceivingNode) message alike isForged =>
    @forged_leaves rules watched plain message alike isForged
  have agrees := fun (watched : WatchedNode) (plain : ReceivingNode) message alike genuine clear =>
    @genuine_agrees rules watched plain message alike genuine clear
  have differs := fun (watched : WatchedNode) (plain : ReceivingNode) message alike genuine missed =>
    @shadowed_differs rules watched plain message alike genuine missed
  constructor
  · intro traceless
    exact (unwinds_iff leaves agrees differs messages (nodesAlike_refl node)).mp traceless.1
  · intro clear
    exact unwinds leaves agrees messages (nodesAlike_refl node) clear

def lockVote (signature : List UInt8) : CConsensusVote :=
  ⟨supernodeEntry.vin, 5, 100, signature⟩

def lockCall : TxlvoteCall where
  liteMode := false
  sporkActive := true
  blockchainSynced := true
  time := 1540000000
  getMasternodeRank _ _ := 1
  verifyMessage _ signature _ := signature == [1]
  walletUpdates _ := false

def oneMasternode : ReceivingNode where
  mnodeman := twoEntries
  budget := ⟨⟨∅, ∅, ∅⟩, ⟨∅, ∅, ∅⟩, ∅⟩
  payments := ⟨∅, ∅, ∅⟩
  mapTxLockVote := ∅
  locks := ⟨∅, ∅, ∅, ∅, ∅, 0⟩

def plainRules : NodeRules where
  mnb := ⟨fun _ => 0, fun _ => 0, fun _ => []⟩
  budget := ⟨fun _ => 0, fun _ => 0, fun _ => 0⟩
  mnw := ⟨fun _ => 0, fun _ => []⟩
  txHash _ := 0

theorem forged_vote_blocks :
    ¬ Traceless plainRules oneMasternode
      [.txlvote lockCall (lockVote [0]), .txlvote lockCall (lockVote [1])] := by
  intro traceless
  have amid : answersAmid plainRules oneMasternode
      [.txlvote lockCall (lockVote [0]), .txlvote lockCall (lockVote [1])] =
        [.lock .alreadySeen] := by decide
  have alone : outputs (receive plainRules) oneMasternode (genuineOf plainRules oneMasternode
      [.txlvote lockCall (lockVote [0]), .txlvote lockCall (lockVote [1])]) =
        [.lock (.relayed false)] := by decide
  exact absurd traceless.1 (by decide)

end OxidForgedMessages
