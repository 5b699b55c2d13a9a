import Oxid.AlikeManagers
import Oxid.BudgetVotes
import Oxid.InstantTX

/-!
Votes on two alike nodes: for proposals and budgets, for a transaction's lock, and for who
is paid. A forged one leaves at most a note that it was seen, or the height of a payment
vote.
-/
namespace OxidForgedVotes
open OxidPrimitives OxidMapKeys OxidMasternode OxidMasternodeMan OxidMasternodePayments
open OxidBudgetVotes OxidInstantTX OxidAlikeManagers
open OrderedMaps OrderedMap

section Votes
variable {Vote : Type} {kind : VoteKind Vote} {rules : BudgetRules} {call : BudgetCall}
variable {marks seen : List Uint256}

structure BallotsAlike (marks : List Uint256) (noted plain : Ballots Vote) : Prop where
  seen : SeenAlike marks noted.mapSeen plain.mapSeen
  orphan : noted.mapOrphan = plain.mapOrphan
  votes : noted.mapVotes = plain.mapVotes

structure VotesAlike (seen marks : List Uint256) (noted plain : VoteState Vote) : Prop where
  managers : ManagersAlike seen noted.mnodeman plain.mnodeman
  ballots : BallotsAlike marks noted.ballots plain.ballots
  asked : noted.askedForSourceProposalOrBudget = plain.askedForSourceProposalOrBudget

theorem signatureValid_alike {noted plain : CMasternodeMan}
    (alike : ManagersAlike seen noted plain) (vote : Vote) :
    signatureValid kind call noted vote = signatureValid kind call plain vote := by
  unfold signatureValid
  rcases alike.find_cases (kind.vin vote) with ⟨first, second⟩ | ⟨a, b, first, second, same⟩
  · rw [first, second]
  · have key : a.pubKeyMasternode = b.pubKeyMasternode := reads_bare (fun _ => rfl) same
    rw [first, second]
    simp only [key]

variable {noted plain : VoteState Vote} {vote : Vote}

theorem signatureValid_known {man : CMasternodeMan}
    (valid : signatureValid kind call man vote = true) :
    (man.find (kind.vin vote)).isNone = false := by
  unfold signatureValid at valid
  split at valid
  · cases valid
  · rename_i found
    rw [found]
    rfl

theorem updateVoted_alike (vote : Vote) {noted plain : Ballots Vote}
    (asked : OrderedMap Uint256 Int64) (alike : BallotsAlike marks noted plain) :
    (updateVoted kind rules call vote noted asked).1 =
        (updateVoted kind rules call vote plain asked).1 ∧
      BallotsAlike marks (updateVoted kind rules call vote noted asked).2.1
        (updateVoted kind rules call vote plain asked).2.1 ∧
      (updateVoted kind rules call vote noted asked).2.2 =
        (updateVoted kind rules call vote plain asked).2.2 := by
  unfold updateVoted
  rw [alike.votes]
  split
  · split
    · exact ⟨rfl, alike, rfl⟩
    · refine ⟨rfl, ⟨alike.seen, ?_, rfl⟩, rfl⟩
      simp only [alike.orphan]
  · split
    · exact ⟨rfl, alike, rfl⟩
    · exact ⟨rfl, ⟨alike.seen, alike.orphan, rfl⟩, rfl⟩

theorem updateVoted_outcome (vote : Vote) (ballots : Ballots Vote)
    (asked : OrderedMap Uint256 Int64) :
    (updateVoted kind rules call vote ballots asked).1 ≠ .alreadySeen := by
  unfold updateVoted
  split
  · split <;> nofun
  · split
    · rename_i outcome refused
      unfold addOrUpdateVote at refused
      dsimp only at refused
      split_ifs at refused <;> cases refused <;> nofun
    · nofun

theorem processVote_alike (alike : VotesAlike seen marks noted plain)
    (clear : (call.liteMode || !call.blockchainSynced) = false → kind.getHash rules vote ∉ marks) :
    (processVote kind rules call vote noted).1 = (processVote kind rules call vote plain).1 ∧
      VotesAlike seen marks (processVote kind rules call vote noted).2
        (processVote kind rules call vote plain).2 := by
  have known : (noted.mnodeman.find (kind.vin vote)).isNone =
      (plain.mnodeman.find (kind.vin vote)).isNone := by
    rcases alike.managers.find_cases (kind.vin vote) with ⟨first, second⟩ | ⟨a, b, first, second, _⟩
    · rw [first, second]
    · rw [first, second]
      rfl
  have valid := @signatureValid_alike Vote kind call seen _ _ alike.managers vote
  have asks := (alike.managers.onNoted (askForMN_core call.time (kind.vin vote) _)).onPlain
    (askForMN_core call.time (kind.vin vote) _)
  unfold processVote
  cases gate : call.liteMode || !call.blockchainSynced with
  | true => exact ⟨rfl, alike⟩
  | false =>
    have unmarked := clear gate
    have noted_alike : BallotsAlike marks (noteSeen kind rules vote noted.ballots)
        (noteSeen kind rules vote plain.ballots) :=
      ⟨alike.ballots.seen.edit unmarked _, alike.ballots.orphan, alike.ballots.votes⟩
    have updated := @updateVoted_alike Vote kind rules call marks vote _ _
      plain.askedForSourceProposalOrBudget noted_alike
    simp only [Bool.false_eq_true, if_false, alike.ballots.seen.count unmarked, known, valid,
      alike.asked]
    split
    · exact ⟨rfl, alike⟩
    · split
      · exact ⟨rfl, asks, alike.ballots, rfl⟩
      · split
        · exact ⟨rfl, asks, noted_alike, rfl⟩
        · exact ⟨updated.1, alike.managers, updated.2.1, updated.2.2⟩

theorem processVote_shadowed (alike : VotesAlike seen marks noted plain)
    (valid : signatureValid kind call noted.mnodeman vote = true)
    (gate : (call.liteMode || !call.blockchainSynced) = false)
    (shadowed : kind.getHash rules vote ∈ marks) :
    (processVote kind rules call vote noted).1 ≠ (processVote kind rules call vote plain).1 := by
  obtain ⟨stands, lacks⟩ := alike.ballots.seen.marked _ shadowed
  have plainValid : signatureValid kind call plain.mnodeman vote = true := by
    rw [← signatureValid_alike alike.managers, valid]
  have known := signatureValid_known plainValid
  have first : (processVote kind rules call vote noted).1 = .alreadySeen := by
    simp only [processVote, gate, Bool.false_eq_true, if_false, stands, if_true]
  have second : (processVote kind rules call vote plain).1 ≠ .alreadySeen := by
    simp only [processVote, gate, Bool.false_eq_true, if_false, lacks, known, plainValid,
      Bool.not_true]
    exact updateVoted_outcome vote _ _
  rw [first]
  exact second.symm

theorem processVote_forged {state : VoteState Vote}
    (forged : signatureValid kind call state.mnodeman vote = false) :
    SameCore (processVote kind rules call vote state).2.mnodeman state.mnodeman ∧
      (processVote kind rules call vote state).2.askedForSourceProposalOrBudget =
        state.askedForSourceProposalOrBudget ∧
      ((processVote kind rules call vote state).2.ballots = state.ballots ∨
        (state.ballots.mapSeen.count (kind.getHash rules vote) = false ∧
          (processVote kind rules call vote state).2.ballots =
            noteSeen kind rules vote state.ballots)) := by
  unfold processVote
  split
  · exact ⟨SameCore.refl _, rfl, .inl rfl⟩
  · split
    · exact ⟨SameCore.refl _, rfl, .inl rfl⟩
    · rename_i unseen
      split
      · exact ⟨askForMN_core _ _ _, rfl, .inl rfl⟩
      · rw [forged]
        exact ⟨askForMN_core _ _ _, rfl, .inr ⟨Bool.eq_false_iff.mpr unseen, rfl⟩⟩

end Votes

section Locks
variable {call : TxlvoteCall} {txHash : CTransaction → Uint256} {marks seen : List Uint256}

structure LocksAlike (seen marks : List Uint256) (noted plain : InstantTXState) : Prop where
  managers : ManagersAlike seen noted.mnodeman plain.mnodeman
  votes : SeenAlike marks noted.mapTxLockVote plain.mapTxLockVote
  maps : noted.maps = plain.maps

theorem lockSignature_alike {noted plain : CMasternodeMan}
    (alike : ManagersAlike seen noted plain) (ctx : CConsensusVote) :
    call.signatureValid noted ctx = call.signatureValid plain ctx := by
  unfold TxlvoteCall.signatureValid
  rcases alike.find_cases ctx.vinMasternode with ⟨first, second⟩ | ⟨a, b, first, second, same⟩
  · rw [first, second]
  · have key : a.pubKeyMasternode = b.pubKeyMasternode := reads_bare (fun _ => rfl) same
    rw [first, second]
    simp only [key]

theorem castsVote_outcome (ctx : CConsensusVote) (maps : LockMaps) :
    (call.castsVote txHash ctx maps).1 ≠ .alreadySeen := by
  unfold TxlvoteCall.castsVote
  dsimp only
  split <;> nofun

def lockGate (call : TxlvoteCall) : Bool :=
  call.liteMode || !call.sporkActive || !call.blockchainSynced

variable {ctx : CConsensusVote} {noted plain : InstantTXState}

theorem processTxlvote_alike (alike : LocksAlike seen marks noted plain)
    (clear : lockGate call = false → ctx.getHash ∉ marks) :
    (processTxlvote call txHash ctx noted).1 = (processTxlvote call txHash ctx plain).1 ∧
      LocksAlike seen marks (processTxlvote call txHash ctx noted).2
        (processTxlvote call txHash ctx plain).2 := by
  have valid := @lockSignature_alike call seen _ _ alike.managers ctx
  have asks := (alike.managers.onNoted (askForMN_core call.time ctx.vinMasternode _)).onPlain
    (askForMN_core call.time ctx.vinMasternode _)
  unfold processTxlvote
  cases gate : call.liteMode || !call.sporkActive || !call.blockchainSynced with
  | true => exact ⟨rfl, alike⟩
  | false =>
    have unmarked := clear gate
    have noted_alike := alike.votes.edit unmarked fun _ => ctx
    simp only [Bool.false_eq_true, if_false, alike.votes.count unmarked, valid, alike.maps]
    split
    · exact ⟨rfl, alike⟩
    · split
      · exact ⟨rfl, asks, noted_alike, rfl⟩
      · split
        · exact ⟨rfl, alike.managers, noted_alike, rfl⟩
        · split
          · exact ⟨rfl, asks, noted_alike, rfl⟩
          · exact ⟨rfl, alike.managers, noted_alike, rfl⟩

theorem processTxlvote_shadowed (alike : LocksAlike seen marks noted plain)
    (gate : lockGate call = false) (shadowed : ctx.getHash ∈ marks) :
    (processTxlvote call txHash ctx noted).1 ≠ (processTxlvote call txHash ctx plain).1 := by
  obtain ⟨stands, lacks⟩ := alike.votes.marked _ shadowed
  unfold lockGate at gate
  have first : (processTxlvote call txHash ctx noted).1 = .alreadySeen := by
    simp only [processTxlvote, gate, Bool.false_eq_true, if_false, stands, if_true]
  have second : (processTxlvote call txHash ctx plain).1 ≠ .alreadySeen := by
    simp only [processTxlvote, gate, Bool.false_eq_true, if_false, lacks]
    split
    · nofun
    · split
      · nofun
      · split
        · nofun
        · exact castsVote_outcome ctx _
  rw [first]
  exact second.symm

theorem processTxlvote_forged {state : InstantTXState}
    (forged : call.signatureValid state.mnodeman ctx = false) :
    SameCore (processTxlvote call txHash ctx state).2.mnodeman state.mnodeman ∧
      (processTxlvote call txHash ctx state).2.maps = state.maps ∧
      ((processTxlvote call txHash ctx state).2.mapTxLockVote = state.mapTxLockVote ∨
        (state.mapTxLockVote.count ctx.getHash = false ∧
          (processTxlvote call txHash ctx state).2.mapTxLockVote =
            state.mapTxLockVote.set ctx.getHash ctx)) := by
  unfold processTxlvote
  split
  · exact ⟨SameCore.refl _, rfl, .inl rfl⟩
  · split
    · exact ⟨SameCore.refl _, rfl, .inl rfl⟩
    · rename_i unseen
      have noted : state.mapTxLockVote.count ctx.getHash = false := Bool.eq_false_iff.mpr unseen
      dsimp only
      split
      · exact ⟨askForMN_core _ _ _, rfl, .inr ⟨noted, rfl⟩⟩
      · split
        · exact ⟨SameCore.refl _, rfl, .inr ⟨noted, rfl⟩⟩
        · rw [forged]
          exact ⟨askForMN_core _ _ _, rfl, .inr ⟨noted, rfl⟩⟩

end Locks

section Permissions

/-- What a key stands for without the forged votes: a marked key stands for what a
    forged vote replaced there, which is not what it wrote. -/
structure PermissionsAlike (marks : Uint256 → Option (Option Int32))
    (noted plain : OrderedMap Uint256 Int32) : Prop where
  through : ∀ key, plain.find? key = (marks key).getD (noted.find? key)
  marked : ∀ key replaced, marks key = some replaced →
    ∃ height, noted.find? key = some height ∧ replaced ≠ some height

/-- The marks after a message: where a forged one changed a height, what stands there
    without it. A genuine one clears the mark it writes over. -/
def permissionMarks (forged : Bool) (old new : OrderedMap Uint256 Int32)
    (marks : Uint256 → Option (Option Int32)) (key : Uint256) : Option (Option Int32) :=
  if old.find? key = new.find? key then marks key
  else if forged then
    if new.find? key = (marks key).getD (old.find? key) then none
    else some ((marks key).getD (old.find? key))
  else none

variable {marks : Uint256 → Option (Option Int32)} {noted plain : OrderedMap Uint256 Int32}

theorem permissionMarks_same (forged : Bool) (map : OrderedMap Uint256 Int32) :
    permissionMarks forged map map marks = marks := by
  funext key
  rw [permissionMarks, if_pos rfl]

variable {height : Int32} {key : Uint256}

theorem PermissionsAlike.forged (alike : PermissionsAlike marks noted plain)
    (free : noted.find? key ≠ some height) :
    PermissionsAlike (permissionMarks true noted (noted.set key height) marks)
      (noted.set key height) plain := by
  constructor
  · intro other
    by_cases same : other = key
    · subst same
      rw [permissionMarks, find?_set_same, if_neg free, if_pos rfl, alike.through]
      split
      · rename_i equal
        rw [← equal]
        rfl
      · rfl
    · rw [permissionMarks, find?_set_other _ _ same, if_pos rfl, alike.through]
  · intro other replaced mark
    by_cases same : other = key
    · subst same
      rw [permissionMarks, find?_set_same, if_neg free, if_pos rfl] at mark
      split at mark
      · cases mark
      · rename_i different
        refine ⟨height, find?_set_same _ _ _, ?_⟩
        rw [← Option.some.inj mark]
        exact fun equal => different equal.symm
    · rw [permissionMarks, find?_set_other _ _ same, if_pos rfl] at mark
      rw [find?_set_other _ _ same]
      exact alike.marked other replaced mark

theorem PermissionsAlike.genuine (alike : PermissionsAlike marks noted plain)
    (free : noted.find? key ≠ some height) :
    PermissionsAlike (permissionMarks false noted (noted.set key height) marks)
      (noted.set key height) (plain.set key height) := by
  constructor
  · intro other
    by_cases same : other = key
    · subst same
      rw [permissionMarks, find?_set_same, find?_set_same, if_neg free]
      rfl
    · rw [permissionMarks, find?_set_other _ _ same, find?_set_other _ _ same, if_pos rfl,
        alike.through]
  · intro other replaced mark
    by_cases same : other = key
    · subst same
      rw [permissionMarks, find?_set_same, if_neg free] at mark
      cases mark
    · rw [permissionMarks, find?_set_other _ _ same, if_pos rfl] at mark
      rw [find?_set_other _ _ same]
      exact alike.marked other replaced mark

/-- The heights a vote must not be for, at a marked key: the one a forged vote wrote,
    and the one it replaced. -/
def HeightClear (marks : Uint256 → Option (Option Int32)) (noted : OrderedMap Uint256 Int32)
    (key : Uint256) (height : Int32) : Prop :=
  ∀ replaced, marks key = some replaced → noted.find? key ≠ some height ∧ replaced ≠ some height

theorem PermissionsAlike.standing (alike : PermissionsAlike marks noted plain)
    (clear : HeightClear marks noted key height) :
    noted.find? key = some height ↔ plain.find? key = some height := by
  rw [alike.through]
  cases mark : marks key with
  | none => rfl
  | some replaced =>
    obtain ⟨wrote, stood⟩ := clear replaced mark
    exact ⟨fun same => absurd same wrote, fun same => absurd same stood⟩

theorem PermissionsAlike.differs (alike : PermissionsAlike marks noted plain)
    (shadowed : ¬ HeightClear marks noted key height) :
    ¬ (noted.find? key = some height ↔ plain.find? key = some height) := by
  rw [alike.through]
  intro standing
  apply shadowed
  intro replaced mark
  rw [mark] at standing
  obtain ⟨written, found, apart⟩ := alike.marked key replaced mark
  simp only [Option.getD_some, found, Option.some.injEq] at standing
  rw [found]
  constructor
  · intro same
    have equal := Option.some.inj same
    rw [standing.mp equal, equal] at apart
    exact apart rfl
  · intro same
    rw [same, standing.mpr same] at apart
    exact apart rfl

end Permissions

section Payments
variable {call : MnwCall} {rules : MnwRules} {seen : List Uint256}

structure PaymentsAlike (seen : List Uint256) (marks : Uint256 → Option (Option Int32))
    (noted plain : MnwState) : Prop where
  managers : ManagersAlike seen noted.mnodeman plain.mnodeman
  votes : noted.payments.mapMasternodePayeeVotes = plain.payments.mapMasternodePayeeVotes
  blocks : noted.payments.mapMasternodeBlocks = plain.payments.mapMasternodeBlocks
  permissions : PermissionsAlike marks noted.payments.mapMasternodesLastVote
    plain.payments.mapMasternodesLastVote

theorem isValid_core (man : CMasternodeMan) (winner : CMasternodePaymentWinner) :
    SameCore (call.isValid man winner).2 man := by
  unfold MnwCall.isValid
  split
  · exact askForMN_core _ _ _
  · split
    · exact SameCore.refl _
    · exact SameCore.refl _

theorem isValid_alike {noted plain : CMasternodeMan} (alike : ManagersAlike seen noted plain)
    (winner : CMasternodePaymentWinner) :
    (call.isValid noted winner).1 = (call.isValid plain winner).1 := by
  unfold MnwCall.isValid
  rcases alike.find_cases winner.vinMasternode with ⟨first, second⟩ | ⟨a, b, first, second, same⟩
  · rw [first, second]
  · have version : a.protocolVersion = b.protocolVersion := reads_bare (fun _ => rfl) same
    rw [first, second]
    simp only [version]
    split
    · rfl
    · rfl

theorem admits_core (nHeight : Int) (winner : CMasternodePaymentWinner) (state : MnwState) :
    SameCore (call.admits rules nHeight winner state).2.mnodeman state.mnodeman := by
  have first := @isValid_core call state.mnodeman winner
  have second := @isValid_core call (call.isValid state.mnodeman winner).2 winner
  unfold MnwCall.admits
  split
  · exact SameCore.refl _
  · dsimp only
    split
    · exact first
    · split
      · exact first
      · exact second.trans first

variable {winner : CMasternodePaymentWinner} {noted plain : MnwState}
variable {received : CMasternodePaymentWinner} {state : MnwState}

theorem admits_alike (alike : ManagersAlike seen noted.mnodeman plain.mnodeman)
    (votes : noted.payments.mapMasternodePayeeVotes = plain.payments.mapMasternodePayeeVotes)
    (nHeight : Int) (winner : CMasternodePaymentWinner) :
    (call.admits rules nHeight winner noted).1 = (call.admits rules nHeight winner plain).1 := by
  have first := @isValid_alike call seen _ _ alike winner
  have later := (alike.onNoted (@isValid_core call noted.mnodeman winner)).onPlain
    (@isValid_core call plain.mnodeman winner)
  have second := @isValid_alike call seen _ _ later winner
  unfold MnwCall.admits
  rw [votes]
  split
  · rfl
  · dsimp only
    rw [first, second]
    split
    · rfl
    · split <;> rfl

theorem payeeDeposit_alike {noted plain : CMasternodeMan} (alike : ManagersAlike seen noted plain)
    (payee : CScript) :
    call.payeeDeposit rules noted payee = call.payeeDeposit rules plain payee := by
  have bared : ∀ man : CMasternodeMan, call.payeeDeposit rules man payee =
      call.payeeDeposit rules { man with vMasternodes := man.vMasternodes.map bare } payee := by
    intro man
    unfold MnwCall.payeeDeposit
    dsimp only
    rw [List.findIdx?_map]
    have places : (fun mn : CMasternode => rules.scriptForKey mn.pubKeyCollateralAddress == payee) ∘
        bare = fun mn => rules.scriptForKey mn.pubKeyCollateralAddress == payee := rfl
    rw [places]
    split
    · rfl
    · rename_i position _
      rw [List.getElem?_map]
      cases man.vMasternodes[position]? with
      | none => rfl
      | some mn => rfl
  rw [bared noted, bared plain]
  unfold MnwCall.payeeDeposit
  rw [alike.entries]

theorem prepares_core (received : CMasternodePaymentWinner) (state : MnwState) :
    SameCore (call.prepares rules received state).2.mnodeman state.mnodeman := by
  unfold MnwCall.prepares
  split
  · exact SameCore.refl _
  · split
    · exact SameCore.refl _
    · split
      · exact SameCore.refl _
      · split
        · exact SameCore.refl _
        · rename_i nHeight _ _ position deposit _
          have set := setDeposit_core position deposit state.mnodeman
          dsimp only
          split
          · exact set
          · have admitted := @admits_core call rules nHeight
              { received with payeeTier := CMasternode.tierOf deposit }
              { state with mnodeman := setDeposit position deposit state.mnodeman }
            split
            · rename_i verdict
              rw [verdict] at admitted
              exact admitted.trans set
            · rename_i verdict
              rw [verdict] at admitted
              exact admitted.trans set

theorem prepares_alike (alike : ManagersAlike seen noted.mnodeman plain.mnodeman)
    (votes : noted.payments.mapMasternodePayeeVotes = plain.payments.mapMasternodePayeeVotes)
    (received : CMasternodePaymentWinner) :
    (call.prepares rules received noted).1 = (call.prepares rules received plain).1 := by
  unfold MnwCall.prepares
  rw [payeeDeposit_alike alike]
  split
  · rfl
  · split
    · rfl
    · split
      · rfl
      · split
        · rfl
        · rename_i nHeight _ _ position deposit _
          dsimp only
          split
          · rfl
          · have set := (alike.onNoted (setDeposit_core position deposit _)).onPlain
              (setDeposit_core position deposit _)
            have verdict := @admits_alike call rules seen
              ⟨setDeposit position deposit noted.mnodeman, noted.payments⟩
              ⟨setDeposit position deposit plain.mnodeman, plain.payments⟩ set votes nHeight
              { received with payeeTier := CMasternode.tierOf deposit }
            cases first : call.admits rules nHeight
                { received with payeeTier := CMasternode.tierOf deposit }
                ⟨setDeposit position deposit noted.mnodeman, noted.payments⟩ with
            | mk here _ =>
              cases second : call.admits rules nHeight
                  { received with payeeTier := CMasternode.tierOf deposit }
                  ⟨setDeposit position deposit plain.mnodeman, plain.payments⟩ with
              | mk there _ =>
                rw [first, second] at verdict
                obtain rfl : here = there := verdict
                cases here with
                | none => rfl
                | some outcome => rfl

theorem winnerSignature_alike {noted plain : CMasternodeMan}
    (alike : ManagersAlike seen noted plain) (winner : CMasternodePaymentWinner) :
    call.signatureValid noted winner = call.signatureValid plain winner := by
  unfold MnwCall.signatureValid
  rcases alike.find_cases winner.vinMasternode with ⟨first, second⟩ | ⟨a, b, first, second, same⟩
  · rw [first, second]
  · have key : a.pubKeyMasternode = b.pubKeyMasternode := reads_bare (fun _ => rfl) same
    rw [first, second]
    simp only [key]

theorem prepares_signature {received winner : CMasternodePaymentWinner} {state later : MnwState}
    (ready : call.prepares rules received state = (.ok winner, later)) :
    call.signatureValid later.mnodeman winner = call.signatureValid state.mnodeman received := by
  have core := @prepares_core call rules received state
  rw [ready] at core
  have content := (prepares_ok ready).1
  rw [winnerSignature_alike ((ManagersAlike.refl state.mnodeman).onNoted core), content]
  rfl

variable {marks : Uint256 → Option (Option Int32)}

def VoteClear (call : MnwCall) (rules : MnwRules) (received : CMasternodePaymentWinner)
    (marks : Uint256 → Option (Option Int32)) (state : MnwState) : Prop :=
  ∀ winner later, call.prepares rules received state = (.ok winner, later) →
    HeightClear marks state.payments.mapMasternodesLastVote
      (voteKey winner.vinMasternode.prevout winner.payeeTier) winner.nBlockHeight

theorem casts_taken
    (taken : state.payments.mapMasternodesLastVote.find?
      (voteKey winner.vinMasternode.prevout winner.payeeTier) = some winner.nBlockHeight) :
    call.casts rules winner state = (.alreadyVoted, state) := by
  simp only [MnwCall.casts, CMasternodePayments.canVote, taken, if_true, Bool.not_false]

theorem casts_free
    (free : state.payments.mapMasternodesLastVote.find?
      (voteKey winner.vinMasternode.prevout winner.payeeTier) ≠ some winner.nBlockHeight)
    (valid : call.signatureValid state.mnodeman winner = true) :
    call.casts rules winner state =
      let added := (state.payments.recordVote
        (voteKey winner.vinMasternode.prevout winner.payeeTier)
        winner.nBlockHeight).addWinningMasternode (rules.getHash winner)
          (call.getBlockHash (winner.nBlockHeight.toInt - 100)).isSome winner
      (if added.1 then .added else .notAdded, ⟨state.mnodeman, added.2⟩) := by
  simp only [MnwCall.casts, CMasternodePayments.canVote, free, if_false, Bool.not_true,
    Bool.false_eq_true, valid]

theorem addWinning_alike {noted plain : CMasternodePayments} (hash : Uint256) (blockKnown : Bool)
    (winner : CMasternodePaymentWinner)
    (votes : noted.mapMasternodePayeeVotes = plain.mapMasternodePayeeVotes)
    (blocks : noted.mapMasternodeBlocks = plain.mapMasternodeBlocks) :
    ∃ added payments others, noted.addWinningMasternode hash blockKnown winner = (added, payments) ∧
      plain.addWinningMasternode hash blockKnown winner = (added, others) ∧
      payments.mapMasternodePayeeVotes = others.mapMasternodePayeeVotes ∧
      payments.mapMasternodeBlocks = others.mapMasternodeBlocks ∧
      payments.mapMasternodesLastVote = noted.mapMasternodesLastVote ∧
      others.mapMasternodesLastVote = plain.mapMasternodesLastVote := by
  have counted : noted.mapMasternodePayeeVotes.count hash =
      plain.mapMasternodePayeeVotes.count hash := by rw [votes]
  unfold CMasternodePayments.addWinningMasternode
  rw [counted]
  split
  · exact ⟨_, _, _, rfl, rfl, votes, blocks, rfl, rfl⟩
  · split
    · exact ⟨_, _, _, rfl, rfl, votes, blocks, rfl, rfl⟩
    · refine ⟨_, _, _, rfl, rfl, ?_, ?_, rfl, rfl⟩
      · simp only [CMasternodePayments.countVote, votes]
      · simp only [CMasternodePayments.countVote, blocks]

theorem casts_alike (alike : PaymentsAlike seen marks noted plain)
    (valid : call.signatureValid noted.mnodeman winner = true)
    (clear : HeightClear marks noted.payments.mapMasternodesLastVote
      (voteKey winner.vinMasternode.prevout winner.payeeTier) winner.nBlockHeight) :
    (call.casts rules winner noted).1 = (call.casts rules winner plain).1 ∧
      PaymentsAlike seen (permissionMarks false noted.payments.mapMasternodesLastVote
          (call.casts rules winner noted).2.payments.mapMasternodesLastVote marks)
        (call.casts rules winner noted).2 (call.casts rules winner plain).2 := by
  have standing := alike.permissions.standing clear
  by_cases taken : noted.payments.mapMasternodesLastVote.find?
      (voteKey winner.vinMasternode.prevout winner.payeeTier) = some winner.nBlockHeight
  · rw [casts_taken taken, casts_taken (standing.mp taken), permissionMarks_same]
    exact ⟨rfl, alike⟩
  · have plainValid := winnerSignature_alike alike.managers winner ▸ valid
    have permissions := alike.permissions.genuine taken
    rw [casts_free taken valid, casts_free (fun same => taken (standing.mpr same)) plainValid]
    have recorded : (noted.payments.recordVote
          (voteKey winner.vinMasternode.prevout winner.payeeTier)
          winner.nBlockHeight).mapMasternodePayeeVotes =
        (plain.payments.recordVote (voteKey winner.vinMasternode.prevout winner.payeeTier)
          winner.nBlockHeight).mapMasternodePayeeVotes := alike.votes
    obtain ⟨added, payments, others, first, second, votes, blocks, kept, plainKept⟩ :=
      addWinning_alike (rules.getHash winner)
        (call.getBlockHash (winner.nBlockHeight.toInt - 100)).isSome winner recorded alike.blocks
    simp only [first, second]
    refine ⟨trivial, alike.managers, votes, blocks, ?_⟩
    rw [kept, plainKept]
    exact permissions

theorem casts_differs (managers : ManagersAlike seen noted.mnodeman plain.mnodeman)
    (valid : call.signatureValid noted.mnodeman winner = true)
    (standing : ¬ (noted.payments.mapMasternodesLastVote.find?
          (voteKey winner.vinMasternode.prevout winner.payeeTier) = some winner.nBlockHeight ↔
        plain.payments.mapMasternodesLastVote.find?
          (voteKey winner.vinMasternode.prevout winner.payeeTier) = some winner.nBlockHeight)) :
    (call.casts rules winner noted).1 ≠ (call.casts rules winner plain).1 := by
  have plainValid := winnerSignature_alike managers winner ▸ valid
  by_cases taken : noted.payments.mapMasternodesLastVote.find?
      (voteKey winner.vinMasternode.prevout winner.payeeTier) = some winner.nBlockHeight
  · have free := fun same => standing ⟨fun _ => same, fun _ => taken⟩
    rw [casts_taken taken, casts_free free plainValid]
    dsimp only
    split <;> nofun
  · have plainTaken : plain.payments.mapMasternodesLastVote.find?
        (voteKey winner.vinMasternode.prevout winner.payeeTier) = some winner.nBlockHeight := by
      by_contra free
      exact standing ⟨fun same => absurd same taken, fun same => absurd same free⟩
    rw [casts_free taken valid, casts_taken plainTaken]
    dsimp only
    split <;> nofun

theorem casts_forged (forged : call.signatureValid state.mnodeman winner = false) :
    SameCore (call.casts rules winner state).2.mnodeman state.mnodeman ∧
      ((call.casts rules winner state).2.payments = state.payments ∨
        ∃ key, state.payments.mapMasternodesLastVote.find? key ≠ some winner.nBlockHeight ∧
          (call.casts rules winner state).2.payments =
            state.payments.recordVote key winner.nBlockHeight) := by
  unfold MnwCall.casts CMasternodePayments.canVote
  dsimp only
  split
  · exact ⟨SameCore.refl _, .inl rfl⟩
  · rename_i free
    simp only [Bool.not_true, Bool.false_eq_true, if_false, forged, Bool.not_false, if_true]
    exact ⟨askForMN_core _ _ _, .inr ⟨_, free, rfl⟩⟩

theorem processMnw_forged (forged : call.signatureValid state.mnodeman received = false) :
    SameCore (processMnw call rules received state).2.mnodeman state.mnodeman ∧
      ((processMnw call rules received state).2.payments = state.payments ∨
        ∃ key height, state.payments.mapMasternodesLastVote.find? key ≠ some height ∧
          (processMnw call rules received state).2.payments =
            state.payments.recordVote key height) := by
  have core := @prepares_core call rules received state
  have kept := prepares_payments call rules received state
  unfold processMnw
  cases ready : call.prepares rules received state with
  | mk verdict later =>
    rw [ready] at core kept
    dsimp only at core kept
    cases verdict with
    | error outcome => exact ⟨core, .inl kept⟩
    | ok winner =>
      have signed := (prepares_signature ready).trans forged
      obtain ⟨castCore, payments⟩ := @casts_forged call rules winner later signed
      refine ⟨castCore.trans core, ?_⟩
      dsimp only
      rw [← kept]
      rcases payments with same | ⟨key, free, recorded⟩
      · exact .inl same
      · exact .inr ⟨key, _, free, recorded⟩

section
variable (alike : PaymentsAlike seen marks noted plain)
  (valid : call.signatureValid noted.mnodeman received = true)
include alike valid

theorem processMnw_alike (clear : VoteClear call rules received marks noted) :
    (processMnw call rules received noted).1 = (processMnw call rules received plain).1 ∧
      PaymentsAlike seen (permissionMarks false noted.payments.mapMasternodesLastVote
          (processMnw call rules received noted).2.payments.mapMasternodesLastVote marks)
        (processMnw call rules received noted).2 (processMnw call rules received plain).2 := by
  have verdict := @prepares_alike call rules seen _ _ alike.managers alike.votes received
  have managers := (alike.managers.onNoted (@prepares_core call rules received noted)).onPlain
    (@prepares_core call rules received plain)
  have notedKept := prepares_payments call rules received noted
  have plainKept := prepares_payments call rules received plain
  unfold processMnw
  cases first : call.prepares rules received noted with
  | mk here later =>
    cases second : call.prepares rules received plain with
    | mk there other =>
      rw [first] at verdict managers notedKept
      rw [second] at verdict managers plainKept
      obtain rfl : here = there := verdict
      have ready : PaymentsAlike seen marks later other := by
        constructor
        · exact managers
        · rw [notedKept, plainKept, alike.votes]
        · rw [notedKept, plainKept, alike.blocks]
        · rw [notedKept, plainKept]
          exact alike.permissions
      cases here with
      | error outcome =>
        rw [notedKept, permissionMarks_same]
        exact ⟨rfl, ready⟩
      | ok winner =>
        have signed := (prepares_signature first).trans valid
        have height := clear winner later first
        rw [← notedKept] at height ⊢
        exact casts_alike ready signed height

theorem processMnw_shadowed (shadowed : ¬ VoteClear call rules received marks noted) :
    (processMnw call rules received noted).1 ≠ (processMnw call rules received plain).1 := by
  unfold VoteClear at shadowed
  push Not at shadowed
  obtain ⟨winner, later, first, height⟩ := shadowed
  have verdict := @prepares_alike call rules seen _ _ alike.managers alike.votes received
  have managers := (alike.managers.onNoted (@prepares_core call rules received noted)).onPlain
    (@prepares_core call rules received plain)
  have notedKept := prepares_payments call rules received noted
  have plainKept := prepares_payments call rules received plain
  have standing := alike.permissions.differs height
  have signed := (prepares_signature first).trans valid
  unfold processMnw
  cases second : call.prepares rules received plain with
  | mk there other =>
    rw [first] at verdict managers notedKept ⊢
    rw [second] at verdict managers plainKept
    obtain rfl := verdict
    rw [← notedKept, ← plainKept] at standing
    exact casts_differs managers signed standing

end

end Payments

end OxidForgedVotes
