import Oxid.BudgetThreshold
import Oxid.Library.MapValues
import Oxid.Library.Runs

/-!
The votes on one proposal or one finalized budget, as they come in and are cleaned. A
proposal's counts read the mark that cleaning sets, a budget's does not.
-/
namespace OxidVoteRuns
open OxidPrimitives OxidMapKeys OxidMasternode OxidMasternodeMan OxidBudgetVotes
open OxidBudgetThreshold OrderedMaps OrderedMap Runs

structure MarkedKind (Vote : Type) extends VoteKind Vote where
  fValid : Vote → Bool
  mark : Bool → Vote → Vote
  fValid_mark : ∀ valid vote, fValid (mark valid vote) = valid
  vin_mark : ∀ valid vote, vin (mark valid vote) = vin vote
  nTime_mark : ∀ valid vote, nTime (mark valid vote) = nTime vote

def markedMvote : MarkedKind CBudgetVote where
  toVoteKind := mvote
  fValid := CBudgetVote.fValid
  mark valid vote := { vote with fValid := valid }
  fValid_mark _ _ := rfl
  vin_mark _ _ := rfl
  nTime_mark _ _ := rfl

def markedFbvote : MarkedKind CFinalizedBudgetVote where
  toVoteKind := fbvote
  fValid := CFinalizedBudgetVote.fValid
  mark valid vote := { vote with fValid := valid }
  fValid_mark _ _ := rfl
  vin_mark _ _ := rfl
  nTime_mark _ _ := rfl

/-- What happens to the votes: one is offered, or all are cleaned. -/
inductive Step (Vote : Type) where
  | offer (call : BudgetCall) (vote : Vote)
  | clean (call : BudgetCall) (man : CMasternodeMan) (fSignatureCheck : Bool)

section Steps

variable {Vote : Type} (kind : MarkedKind Vote) (rules : BudgetRules)

def signatureValid (call : BudgetCall) (man : CMasternodeMan) (fSignatureCheck : Bool)
    (vote : Vote) : Bool :=
  match man.find (kind.vin vote) with
  | none => false
  | some pmn => if !fSignatureCheck then true else kind.verify call pmn.pubKeyMasternode vote

def cleanAndRemove (call : BudgetCall) (man : CMasternodeMan) (fSignatureCheck : Bool)
    (mapVotes : OrderedMap Uint256 Vote) : OrderedMap Uint256 Vote :=
  mapVotes.mapValues fun vote =>
    kind.mark (signatureValid kind call man fSignatureCheck vote) vote

def take (step : Step Vote) (mapVotes : OrderedMap Uint256 Vote) : OrderedMap Uint256 Vote :=
  match step with
  | .offer call vote =>
    match addOrUpdateVote kind.toVoteKind rules call vote mapVotes with
    | .error _ => mapVotes
    | .ok mapVotes => mapVotes
  | .clean call man fSignatureCheck => cleanAndRemove kind call man fSignatureCheck mapVotes

def accepted : List (Step Vote) → OrderedMap Uint256 Vote → List Vote
  | [], _ => []
  | .offer call vote :: later, mapVotes =>
    match addOrUpdateVote kind.toVoteKind rules call vote mapVotes with
    | .error _ => accepted later mapVotes
    | .ok mapVotes => vote :: accepted later mapVotes
  | .clean call man fSignatureCheck :: later, mapVotes =>
    accepted later (cleanAndRemove kind call man fSignatureCheck mapVotes)

def voteKey (vote : Vote) : Uint256 := rules.outPointHash (kind.vin vote).prevout

def known (man : CMasternodeMan) (vote : Vote) : Bool := (man.find (kind.vin vote)).isSome

def knownVotes (man : CMasternodeMan) (mapVotes : OrderedMap Uint256 Vote) :
    OrderedMap Uint256 Vote :=
  mapVotes.filter fun entry => known kind man entry.2

def OneEach (mapVotes : OrderedMap Uint256 Vote) : Prop :=
  ∀ key vote key' vote', mapVotes.find? key = some vote → mapVotes.find? key' = some vote' →
    (kind.vin vote).prevout = (kind.vin vote').prevout → key = key'

def NeverBack (before after : OrderedMap Uint256 Vote) : Prop :=
  ∀ key old, before.find? key = some old →
    ∃ new, after.find? key = some new ∧ (kind.nTime old).toInt ≤ (kind.nTime new).toInt

/-- What one step is to keep, with the counts that thresholds use. -/
structure StepKept (counts : List (OrderedMap Uint256 Vote → Int)) (step : Step Vote)
    (before : OrderedMap Uint256 Vote) : Prop where
  single : OneEach kind (take kind rules step before)
  forward : NeverBack kind before (take kind rules step before)
  refused : ∀ call vote outcome, step = .offer call vote →
    addOrUpdateVote kind.toVoteKind rules call vote before = .error outcome →
      take kind rules step before = before
  counted : ∀ call man fSignatureCheck, step = .clean call man fSignatureCheck →
    ∀ count ∈ counts, count (take kind rules step before) =
      count (knownVotes kind man (take kind rules step before))

structure RunKept (counts : List (OrderedMap Uint256 Vote → Int)) (steps : List (Step Vote)) :
    Prop where
  each : AlongAll (take kind rules) (StepKept kind rules counts) steps ∅
  spaced : (accepted kind rules steps ∅).Pairwise fun first second =>
    (kind.vin first).prevout = (kind.vin second).prevout →
      (kind.nTime first).toInt + BUDGET_VOTE_UPDATE_MIN.toInt ≤ (kind.nTime second).toInt

def Filed (mapVotes : OrderedMap Uint256 Vote) : Prop :=
  ∀ key vote, mapVotes.find? key = some vote → voteKey kind rules vote = key

end Steps

def yeas (mapVotes : OrderedMap Uint256 CBudgetVote) : Int :=
  mapVotes.entries.countP fun entry => entry.2.nVote == VOTE_YES && entry.2.fValid

def nays (mapVotes : OrderedMap Uint256 CBudgetVote) : Int :=
  mapVotes.entries.countP fun entry => entry.2.nVote == VOTE_NO && entry.2.fValid

def proposalCounts : List (OrderedMap Uint256 CBudgetVote → Int) := [yeas, nays]

def budgetCounts : List (OrderedMap Uint256 CFinalizedBudgetVote → Int) :=
  [fun mapVotes => mapVotes.size]

def VotersKnown (step : Step CFinalizedBudgetVote)
    (before : OrderedMap Uint256 CFinalizedBudgetVote) : Prop :=
  match step with
  | .offer _ _ => True
  | .clean _ man _ => ∀ key vote, before.find? key = some vote →
      known markedFbvote man vote = true

section Cleaning

variable {Vote : Type} {kind : MarkedKind Vote} {call : BudgetCall} {man : CMasternodeMan}
  {fSignatureCheck : Bool}

theorem signatureValid_known {vote : Vote}
    (valid : signatureValid kind call man fSignatureCheck vote = true) :
    known kind man vote = true := by
  unfold signatureValid at valid
  unfold known
  cases looked : man.find (kind.vin vote) with
  | none =>
    rw [looked] at valid
    cases valid
  | some pmn => rfl

theorem known_mark (valid : Bool) (vote : Vote) :
    known kind man (kind.mark valid vote) = known kind man vote := by
  unfold known
  rw [kind.vin_mark]

theorem cleaned_known {mapVotes : OrderedMap Uint256 Vote} {entry : Uint256 × Vote}
    (member : entry ∈ (cleanAndRemove kind call man fSignatureCheck mapVotes).entries)
    (valid : kind.fValid entry.2 = true) : known kind man entry.2 = true := by
  obtain ⟨source, _, rfl⟩ := List.mem_map.mp member
  rw [kind.fValid_mark] at valid
  rw [known_mark]
  exact signatureValid_known valid

theorem countP_cleaned (mapVotes : OrderedMap Uint256 Vote) (counts : Uint256 × Vote → Bool)
    (marked : ∀ entry, counts entry = true → kind.fValid entry.2 = true) :
    (cleanAndRemove kind call man fSignatureCheck mapVotes).entries.countP counts =
      (knownVotes kind man
        (cleanAndRemove kind call man fSignatureCheck mapVotes)).entries.countP counts := by
  unfold knownVotes filter
  rw [List.countP_filter]
  apply List.countP_congr
  intro entry member
  rw [Bool.and_eq_true]
  exact ⟨fun counted => ⟨counted, cleaned_known member (marked entry counted)⟩, And.left⟩

theorem size_cleaned (mapVotes : OrderedMap Uint256 Vote) :
    (cleanAndRemove kind call man fSignatureCheck mapVotes).size =
        (knownVotes kind man (cleanAndRemove kind call man fSignatureCheck mapVotes)).size ↔
      ∀ key vote, mapVotes.find? key = some vote → known kind man vote = true := by
  unfold knownVotes size filter
  rw [eq_comm, List.length_filter_eq_length_iff]
  constructor
  · intro all key vote found
    have member : (key, kind.mark (signatureValid kind call man fSignatureCheck vote) vote) ∈
        (cleanAndRemove kind call man fSignatureCheck mapVotes).entries := by
      rw [mem_entries_iff]
      unfold cleanAndRemove
      rw [find?_mapValues, found]
      rfl
    have here := all _ member
    rwa [known_mark] at here
  · intro all entry member
    obtain ⟨source, listed, rfl⟩ := List.mem_map.mp member
    rw [known_mark]
    exact all source.1 source.2 ((mapVotes.mem_entries_iff _ _).mp listed)

end Cleaning

section Offering

theorem gap_unwrapped {old new : Int} (ordered : old ≤ new)
    (gap : BUDGET_VOTE_UPDATE_MIN.toInt ≤ (new - old).bmod (2 ^ 64)) :
    old + BUDGET_VOTE_UPDATE_MIN.toInt ≤ new := by
  have hour : BUDGET_VOTE_UPDATE_MIN.toInt = 3600 := by decide
  unfold Int.bmod at gap
  dsimp only at gap
  split_ifs at gap
  · omega
  · omega

variable {Vote : Type} {kind : MarkedKind Vote} {rules : BudgetRules} {call : BudgetCall}
  {vote : Vote} {before after : OrderedMap Uint256 Vote}

theorem addOrUpdateVote_ok
    (taken : addOrUpdateVote kind.toVoteKind rules call vote before = .ok after) :
    after = before.set (voteKey kind rules vote) vote ∧
      ∀ old, before.find? (voteKey kind rules vote) = some old →
        (kind.nTime old).toInt + BUDGET_VOTE_UPDATE_MIN.toInt ≤ (kind.nTime vote).toInt := by
  unfold addOrUpdateVote at taken
  change (if ((before.find? (voteKey kind rules vote)).any fun old =>
    decide (kind.nTime vote < kind.nTime old)) = true then _ else _) = _ at taken
  split_ifs at taken with older soon ahead
  cases taken
  refine ⟨rfl, ?_⟩
  intro old standing
  change ¬ ((before.find? (voteKey kind rules vote)).any fun old =>
    decide (kind.nTime vote - kind.nTime old < BUDGET_VOTE_UPDATE_MIN)) = true at soon
  rw [standing, Option.any_some, decide_eq_true_eq] at older soon
  rw [Int64.lt_iff_toInt_lt] at older soon
  rw [Int64.toInt_sub] at soon
  exact gap_unwrapped (not_lt.mp older) (not_lt.mp soon)

variable (kind rules) in
theorem take_filed (step : Step Vote) (filed : Filed kind rules before) :
    Filed kind rules (take kind rules step before) := by
  intro key found present
  cases step with
  | offer call vote =>
    unfold take at present
    dsimp only at present
    cases taken : addOrUpdateVote kind.toVoteKind rules call vote before with
    | error outcome =>
      rw [taken] at present
      exact filed key found present
    | ok after =>
      rw [taken] at present
      rw [(addOrUpdateVote_ok taken).1] at present
      rcases find?_set_some present with ⟨own, same⟩ | ⟨_, standing⟩
      · rw [same, own]
      · exact filed key found standing
  | clean call man fSignatureCheck =>
    unfold take cleanAndRemove at present
    dsimp only at present
    rw [find?_mapValues, Option.map_eq_some_iff] at present
    obtain ⟨source, standing, rfl⟩ := present
    unfold voteKey
    rw [kind.vin_mark]
    exact filed key source standing

theorem oneEach_of_filed {mapVotes : OrderedMap Uint256 Vote} (filed : Filed kind rules mapVotes) :
    OneEach kind mapVotes := by
  intro key vote key' vote' found found' same
  rw [← filed key vote found, ← filed key' vote' found']
  unfold voteKey
  rw [same]

theorem take_forward (step : Step Vote) : NeverBack kind before (take kind rules step before) := by
  intro key old standing
  cases step with
  | offer call vote =>
    unfold take
    dsimp only
    cases taken : addOrUpdateVote kind.toVoteKind rules call vote before with
    | error outcome => exact ⟨old, standing, le_refl _⟩
    | ok after =>
      obtain ⟨placed, later⟩ := addOrUpdateVote_ok taken
      rw [placed]
      by_cases own : key = voteKey kind rules vote
      · rw [own] at standing ⊢
        have gap := later old standing
        have hour : BUDGET_VOTE_UPDATE_MIN.toInt = 3600 := by decide
        exact ⟨vote, find?_set_same .., by omega⟩
      · exact ⟨old, by rw [find?_set_other _ _ own, standing], le_refl _⟩
  | clean call man fSignatureCheck =>
    unfold take cleanAndRemove
    rw [find?_mapValues, standing]
    exact ⟨_, rfl, (congrArg Int64.toInt (kind.nTime_mark _ old)).ge⟩

theorem accepted_later {steps : List (Step Vote)} {old : Vote}
    (standing : before.find? (voteKey kind rules vote) = some old)
    (taken : vote ∈ accepted kind rules steps before) :
    (kind.nTime old).toInt + BUDGET_VOTE_UPDATE_MIN.toInt ≤ (kind.nTime vote).toInt := by
  induction steps generalizing before old with
  | nil => cases taken
  | cons step later ih =>
    obtain ⟨new, still, forward⟩ := @take_forward Vote kind rules before step _ old standing
    cases step with
    | offer call offered =>
      unfold accepted at taken
      unfold take at still
      dsimp only at still
      cases outcome : addOrUpdateVote kind.toVoteKind rules call offered before with
      | error refusal =>
        rw [outcome] at taken
        exact ih standing taken
      | ok after =>
        rw [outcome] at taken still
        rcases List.mem_cons.mp taken with here | further
        · rw [here] at standing ⊢
          exact (addOrUpdateVote_ok outcome).2 old standing
        · have gap := ih still further
          omega
    | clean call man fSignatureCheck =>
      have gap := ih still taken
      omega

theorem accepted_spaced (steps : List (Step Vote)) (before : OrderedMap Uint256 Vote) :
    (accepted kind rules steps before).Pairwise fun first second =>
      (kind.vin first).prevout = (kind.vin second).prevout →
        (kind.nTime first).toInt + BUDGET_VOTE_UPDATE_MIN.toInt ≤ (kind.nTime second).toInt := by
  induction steps generalizing before with
  | nil => exact List.Pairwise.nil
  | cons step later ih =>
    cases step with
    | offer call offered =>
      unfold accepted
      cases outcome : addOrUpdateVote kind.toVoteKind rules call offered before with
      | error refusal => exact ih before
      | ok after =>
        refine List.Pairwise.cons ?_ (ih after)
        intro second member same
        apply accepted_later _ member
        rw [(addOrUpdateVote_ok outcome).1]
        have own : voteKey kind rules second = voteKey kind rules offered := by
          unfold voteKey
          rw [same]
        rw [own]
        exact find?_set_same ..
    | clean call man fSignatureCheck => exact ih _

theorem stepKept_iff {counts : List (OrderedMap Uint256 Vote → Int)} (step : Step Vote)
    (filed : Filed kind rules before) :
    StepKept kind rules counts step before ↔
      ∀ call man fSignatureCheck, step = .clean call man fSignatureCheck →
        ∀ count ∈ counts, count (take kind rules step before) =
          count (knownVotes kind man (take kind rules step before)) := by
  constructor
  · exact StepKept.counted
  · intro counted
    refine ⟨oneEach_of_filed (take_filed kind rules step filed), take_forward step, ?_, counted⟩
    rintro call vote outcome rfl refused
    unfold take
    dsimp only
    rw [refused]

end Offering

section Counts

end Counts

section Whole

variable {rules : BudgetRules}

theorem filed_empty {Vote : Type} {kind : MarkedKind Vote} : Filed kind rules ∅ := by
  intro key vote present
  cases present

theorem runKept_iff {Vote : Type} {kind : MarkedKind Vote}
    {counts : List (OrderedMap Uint256 Vote → Int)}
    {meets : Step Vote → OrderedMap Uint256 Vote → Prop}
    (exact : ∀ step before, Filed kind rules before →
      (StepKept kind rules counts step before ↔ meets step before)) (steps : List (Step Vote)) :
    RunKept kind rules counts steps ↔ AlongAll (take kind rules) meets steps ∅ := by
  have along : ∀ (later : List (Step Vote)) (before : OrderedMap Uint256 Vote),
      Filed kind rules before →
        (AlongAll (take kind rules) (StepKept kind rules counts) later before ↔
          AlongAll (take kind rules) meets later before) := by
    intro later
    induction later with
    | nil => exact fun _ _ => Iff.rfl
    | cons step rest ih =>
      intro before filed
      exact and_congr (exact step before filed) (ih _ (take_filed kind rules step filed))
  rw [← along steps ∅ filed_empty]
  exact ⟨RunKept.each, fun each => ⟨each, accepted_spaced steps ∅⟩⟩

theorem proposal_step (step : Step CBudgetVote) (before : OrderedMap Uint256 CBudgetVote)
    (filed : Filed markedMvote rules before) :
    StepKept markedMvote rules proposalCounts step before ↔ True := by
  rw [stepKept_iff step filed, iff_true]
  rintro call man fSignatureCheck rfl count counted
  simp only [proposalCounts, List.mem_cons, List.not_mem_nil, or_false] at counted
  rcases counted with rfl | rfl
  · exact congrArg Nat.cast (countP_cleaned before _ fun entry both =>
      (Bool.and_eq_true _ _ ▸ both).2)
  · exact congrArg Nat.cast (countP_cleaned before _ fun entry both =>
      (Bool.and_eq_true _ _ ▸ both).2)

theorem budget_step (step : Step CFinalizedBudgetVote)
    (before : OrderedMap Uint256 CFinalizedBudgetVote) (filed : Filed markedFbvote rules before) :
    StepKept markedFbvote rules budgetCounts step before ↔ VotersKnown step before := by
  rw [stepKept_iff step filed]
  cases step with
  | offer call vote =>
    refine ⟨fun _ => trivial, fun _ call man fSignatureCheck clean => ?_⟩
    cases clean
  | clean call man fSignatureCheck =>
    unfold VotersKnown
    dsimp only
    rw [← @size_cleaned _ markedFbvote call man fSignatureCheck before]
    constructor
    · intro counted
      exact Int.natCast_inj.mp (counted call man fSignatureCheck rfl _ List.mem_cons_self)
    · rintro same _ _ _ ⟨⟩ count counted
      rw [List.mem_singleton.mp counted]
      exact Int.natCast_inj.mpr same

end Whole

theorem votes_kept_iff (rules : BudgetRules) (onProposal : List (Step CBudgetVote))
    (onBudget : List (Step CFinalizedBudgetVote)) :
    RunKept markedMvote rules proposalCounts onProposal ∧
        RunKept markedFbvote rules budgetCounts onBudget ↔
      AlongAll (take markedFbvote rules) VotersKnown onBudget ∅ := by
  rw [runKept_iff budget_step onBudget, runKept_iff proposal_step onProposal]
  refine and_iff_right ?_
  have always : ∀ (later : List (Step CBudgetVote)) (before : OrderedMap Uint256 CBudgetVote),
      AlongAll (take markedMvote rules) (fun _ _ => True) later before := by
    intro later
    induction later with
    | nil => exact fun _ => trivial
    | cons step rest ih => exact fun before => ⟨trivial, ih _⟩
  exact always onProposal ∅

section Samples

def sampleRules : BudgetRules where
  voteHash _ := 1
  finalizedVoteHash _ := 2
  outPointHash out := out.hash

def sampleCall : BudgetCall where
  liteMode := false
  blockchainSynced := true
  synced := true
  time := 1600000000
  verifyVote _ _ _ := true
  verifyFinalizedVote _ _ _ := true

def sampleVote : CFinalizedBudgetVote where
  fValid := true
  fSynced := false
  vin := ⟨⟨3, 0⟩, [], 0xffffffff⟩
  nBudgetHash := 4
  nTime := 1599999000
  vchSig := []

def votedAndGone : List (Step CFinalizedBudgetVote) :=
  [.offer sampleCall sampleVote, .clean sampleCall ⟨[], ∅, ∅, ∅, 0, ∅, ∅⟩ false]

theorem gone_vote_counts : ¬ RunKept markedFbvote sampleRules budgetCounts votedAndGone := by
  intro kept
  have cleaned := kept.each.2.1.counted sampleCall ⟨[], ∅, ∅, ∅, 0, ∅, ∅⟩ false rfl _
    List.mem_cons_self
  exact absurd cleaned (by decide +kernel)

end Samples

end OxidVoteRuns
