import Oxid.BudgetVotes
import Oxid.Library.Runs

/-!
Votes that come in before the proposal or the finalized budget they are on. Such a vote
waits, one under each, and is cast when that comes in. Seen it counts either way, so a vote
that does not wait is lost.
-/
namespace OxidOrphanVotes
open OxidPrimitives OxidMapKeys OxidMasternode OxidMasternodeMan OxidMasternodePayments
open OxidBudgetVotes OrderedMaps OrderedMap Runs

section Replay

variable {Vote : Type} (kind : VoteKind Vote) (rules : BudgetRules) (call : BudgetCall)

def replayOrphan (ballots : Ballots Vote) (orphan : Uint256 × Vote) : Ballots Vote :=
  match ballots.mapVotes.find? (kind.target orphan.2) with
  | none => ballots
  | some mapVotes =>
    match addOrUpdateVote kind rules call orphan.2 mapVotes with
    | .error _ => ballots
    | .ok mapVotes => { ballots with
        mapVotes := ballots.mapVotes.set (kind.target orphan.2) mapVotes
        mapOrphan := ballots.mapOrphan.erase orphan.1 }

def replayOrphans (ballots : Ballots Vote) : Ballots Vote :=
  ballots.mapOrphan.entries.foldl (replayOrphan kind rules call) ballots

def addParent (hash : Uint256) (ballots : Ballots Vote) : Ballots Vote :=
  { ballots with mapVotes := ballots.mapVotes.insert hash ∅ }

end Replay

def checkOrphanVotes (rules : BudgetRules) (call : BudgetCall) (budget : CBudgetManager) :
    CBudgetManager :=
  { budget with
    proposalVotes := replayOrphans mvote rules call budget.proposalVotes
    finalizedBudgetVotes := replayOrphans fbvote rules call budget.finalizedBudgetVotes }

structure BudgetInbox where
  budget : CBudgetManager
  mapSeenMasternodeBudgetProposals : OrderedMap Uint256 Unit
  mapSeenFinalizedBudgets : OrderedMap Uint256 Unit

structure Surroundings where
  call : BudgetCall
  man : CMasternodeMan
  /-- `IsBudgetCollateralValid` and `IsValid` of a proposal or budget. -/
  collateralValid : Bool
  isValid : Bool

inductive Message where
  | mprop (hash : Uint256)
  | mvote (vote : CBudgetVote)
  | fbs (hash : Uint256)
  | fbvote (vote : CFinalizedBudgetVote)

structure Arrival where
  message : Message
  around : Surroundings

section Process

variable (rules : BudgetRules)

def processMprop (around : Surroundings) (hash : Uint256) (inbox : BudgetInbox) : BudgetInbox :=
  if around.call.liteMode || !around.call.blockchainSynced then inbox
  else if inbox.mapSeenMasternodeBudgetProposals.count hash then inbox
  else if !around.collateralValid then inbox
  else
    let seen := inbox.mapSeenMasternodeBudgetProposals.insert hash ()
    if !around.isValid then { inbox with mapSeenMasternodeBudgetProposals := seen }
    else { inbox with
      mapSeenMasternodeBudgetProposals := seen
      budget := checkOrphanVotes rules around.call { inbox.budget with
        proposalVotes := addParent hash inbox.budget.proposalVotes } }

def processFbs (around : Surroundings) (hash : Uint256) (inbox : BudgetInbox) : BudgetInbox :=
  if around.call.liteMode || !around.call.blockchainSynced then inbox
  else if inbox.mapSeenFinalizedBudgets.count hash then inbox
  else if !around.collateralValid then inbox
  else
    let seen := inbox.mapSeenFinalizedBudgets.insert hash ()
    if !around.isValid then { inbox with mapSeenFinalizedBudgets := seen }
    else { inbox with
      mapSeenFinalizedBudgets := seen
      budget := checkOrphanVotes rules around.call { inbox.budget with
        finalizedBudgetVotes := addParent hash inbox.budget.finalizedBudgetVotes } }

def process (arrival : Arrival) (inbox : BudgetInbox) : BudgetInbox :=
  match arrival.message with
  | .mprop hash => processMprop rules arrival.around hash inbox
  | .fbs hash => processFbs rules arrival.around hash inbox
  | .mvote vote => { inbox with
      budget := (processMvote rules arrival.around.call vote arrival.around.man inbox.budget).2.2 }
  | .fbvote vote => { inbox with
      budget := (processFbvote rules arrival.around.call vote arrival.around.man inbox.budget).2.2 }

def emptyBallots {Vote : Type} : Ballots Vote := ⟨∅, ∅, ∅⟩

def emptyInbox : BudgetInbox := ⟨⟨emptyBallots, emptyBallots, ∅⟩, ∅, ∅⟩

def settled (arrivals : List Arrival) (last : BudgetCall) : CBudgetManager :=
  checkOrphanVotes rules last (runAll (process rules) arrivals emptyInbox).budget

end Process

section Kind

variable {Vote : Type} (kind : VoteKind Vote) (rules : BudgetRules)

def voter (vote : Vote) : Uint256 := rules.outPointHash (kind.vin vote).prevout

def Recorded (ballots : Ballots Vote) (vote : Vote) : Prop :=
  ∃ mapVotes, ballots.mapVotes.find? (kind.target vote) = some mapVotes ∧
    mapVotes.find? (voter kind rules vote) = some vote

def Waits (ballots : Ballots Vote) (vote : Vote) : Prop :=
  ballots.mapOrphan.find? (kind.target vote) = some vote

def Known (ballots : Ballots Vote) (hash : Uint256) : Prop :=
  (ballots.mapVotes.find? hash).isSome = true

instance (ballots : Ballots Vote) (hash : Uint256) : Decidable (Known ballots hash) :=
  inferInstanceAs (Decidable (_ = true))

def Timely (call : BudgetCall) (vote : Vote) : Prop := ¬ call.time + 60 * 60 < kind.nTime vote

/-- Votes of two masternodes or on two things, with different hashes. -/
def Apart (first second : Vote) : Prop :=
  (kind.target first = kind.target second → voter kind rules first ≠ voter kind rules second) ∧
    kind.getHash rules first ≠ kind.getHash rules second

structure Sound (votes : List Vote) (ballots : Ballots Vote) : Prop where
  seen : ∀ hash, ballots.mapSeen.count hash = true → ∃ vote ∈ votes, kind.getHash rules vote = hash
  recorded : ∀ hash mapVotes key vote, ballots.mapVotes.find? hash = some mapVotes →
    mapVotes.find? key = some vote →
      vote ∈ votes ∧ kind.target vote = hash ∧ voter kind rules vote = key
  waiting : ∀ hash vote, ballots.mapOrphan.find? hash = some vote →
    vote ∈ votes ∧ kind.target vote = hash
  unrecorded : ∀ hash vote mapVotes, ballots.mapOrphan.find? hash = some vote →
    ballots.mapVotes.find? hash = some mapVotes → mapVotes.find? (voter kind rules vote) = none

structure Moved (votes : List Vote) (taken : Vote → Prop) (before after : Ballots Vote) :
    Prop where
  sound : Sound kind rules votes after
  known : ∀ hash, Known after hash ↔ Known before hash
  recorded : ∀ vote ∈ votes,
    Recorded kind rules after vote ↔ Recorded kind rules before vote ∨ taken vote
  waits : ∀ vote ∈ votes, Waits kind after vote ↔ Waits kind before vote ∧ ¬ taken vote

variable {kind rules} {call : BudgetCall} {votes : List Vote} {ballots : Ballots Vote}

theorem known_iff {hash : Uint256} :
    Known ballots hash ↔ ∃ mapVotes, ballots.mapVotes.find? hash = some mapVotes :=
  Option.isSome_iff_exists

instance : Std.Symm (Apart kind rules) where
  symm _ _ apart := ⟨fun target key => apart.1 target.symm key.symm, fun hash => apart.2 hash.symm⟩

theorem same_vote (apart : votes.Pairwise (Apart kind rules)) {first second : Vote}
    (one : first ∈ votes) (other : second ∈ votes)
    (target : kind.target first = kind.target second)
    (key : voter kind rules first = voter kind rules second) : first = second := by
  by_contra different
  exact (apart.forall one other different).1 target key

theorem addOrUpdateVote_absent {vote : Vote} {mapVotes : OrderedMap Uint256 Vote}
    (absent : mapVotes.find? (voter kind rules vote) = none) :
    (Timely kind call vote → addOrUpdateVote kind rules call vote mapVotes =
      .ok (mapVotes.set (voter kind rules vote) vote)) ∧
    (¬ Timely kind call vote →
      addOrUpdateVote kind rules call vote mapVotes = .error .tooFarAhead) := by
  unfold voter at absent ⊢
  unfold Timely addOrUpdateVote
  dsimp only
  rw [absent]
  constructor
  · intro timely
    rw [if_neg (by simp), if_neg (by simp), if_neg timely]
  · intro late
    rw [if_neg (by simp), if_neg (by simp), if_pos (not_not.mp late)]

theorem Moved.refl (sound : Sound kind rules votes ballots) {taken : Vote → Prop}
    (none_taken : ∀ vote ∈ votes, ¬ taken vote) : Moved kind rules votes taken ballots ballots where
  sound := sound
  known _ := Iff.rfl
  recorded vote member := by simp [none_taken vote member]
  waits vote member := by simp [none_taken vote member]

def takenUp (kind : VoteKind Vote) (call : BudgetCall) (ballots : Ballots Vote)
    (orphan vote : Vote) : Prop :=
  vote = orphan ∧ Known ballots (kind.target orphan) ∧ Timely kind call orphan

theorem replayOrphan_moved (apart : votes.Pairwise (Apart kind rules))
    (sound : Sound kind rules votes ballots) {key : Uint256} {orphan : Vote}
    (waiting : ballots.mapOrphan.find? key = some orphan) :
    Moved kind rules votes (takenUp kind call ballots orphan) ballots
        (replayOrphan kind rules call ballots (key, orphan)) ∧
      ∀ other, other ≠ key →
        (replayOrphan kind rules call ballots (key, orphan)).mapOrphan.find? other =
          ballots.mapOrphan.find? other := by
  obtain ⟨inside, target⟩ := sound.waiting key orphan waiting
  unfold replayOrphan
  dsimp only
  cases known : ballots.mapVotes.find? (kind.target orphan) with
  | none =>
    refine ⟨Moved.refl sound ?_, fun _ _ => rfl⟩
    rintro vote _ ⟨_, here, _⟩
    rw [Known, known] at here
    cases here
  | some mapVotes =>
    have absent := sound.unrecorded key orphan mapVotes waiting (by rw [← target]; exact known)
    obtain ⟨takes, refuses⟩ := @addOrUpdateVote_absent Vote kind rules call orphan mapVotes absent
    dsimp only
    by_cases timely : Timely kind call orphan
    · rw [takes timely]
      dsimp only
      refine ⟨⟨⟨sound.seen, ?_, ?_, ?_⟩, ?_, ?_, ?_⟩, ?_⟩
      · intro hash votes' voted vote found present
        change (ballots.mapVotes.set _ _).find? hash = some votes' at found
        rcases find?_set_some found with ⟨here, same⟩ | ⟨_, standing⟩
        · rw [same] at present
          rcases find?_set_some present with ⟨own, is⟩ | ⟨_, old⟩
          · rw [is, here, own]
            exact ⟨inside, rfl, rfl⟩
          · rw [here]
            exact sound.recorded _ mapVotes voted vote known old
        · exact sound.recorded hash votes' voted vote standing present
      · intro hash vote left
        exact sound.waiting hash vote (find?_erase_some left).2
      · intro hash vote votes' left found
        obtain ⟨different, still⟩ := find?_erase_some left
        change (ballots.mapVotes.set _ _).find? hash = some votes' at found
        rcases find?_set_some found with ⟨here, _⟩ | ⟨_, standing⟩
        · exact absurd (here.trans target) different
        · exact sound.unrecorded hash vote votes' still standing
      · intro hash
        unfold Known
        change ((ballots.mapVotes.set _ _).find? hash).isSome = true ↔ _
        by_cases here : hash = kind.target orphan
        · rw [here, find?_set_same, known]
          exact Iff.rfl
        · rw [find?_set_other _ _ here]
      · intro vote member
        unfold Recorded takenUp
        change (∃ mapVotes, (ballots.mapVotes.set _ _).find? _ = some mapVotes ∧ _) ↔ _
        by_cases here : kind.target vote = kind.target orphan
        · rw [here, find?_set_same, known]
          by_cases own : voter kind rules vote = voter kind rules orphan
          · have same := same_vote apart member inside here own
            rw [same]
            simp only [Option.some.injEq, exists_eq_left', find?_set_same, true_and]
            exact ⟨fun _ => .inr ⟨known_iff.mpr ⟨mapVotes, known⟩, timely⟩, fun _ => trivial⟩
          · have different : vote ≠ orphan := fun same => own (by rw [same])
            simp [find?_set_other _ _ own, different]
        · have different : vote ≠ orphan := fun same => here (by rw [same])
          rw [find?_set_other _ _ here]
          simp [different]
      · intro vote member
        unfold Waits takenUp
        change (ballots.mapOrphan.erase key).find? _ = _ ↔ _
        by_cases here : kind.target vote = key
        · rw [here, find?_erase_same, waiting]
          constructor
          · intro impossible
            cases impossible
          · rintro ⟨same, untaken⟩
            exact absurd ⟨(Option.some.inj same).symm, known_iff.mpr ⟨mapVotes, known⟩, timely⟩
              untaken
        · have different : vote ≠ orphan := fun same => here (by rw [same]; exact target)
          rw [find?_erase_other _ here]
          simp [different]
      · intro other different
        exact find?_erase_other _ different
    · rw [refuses timely]
      refine ⟨Moved.refl sound ?_, fun _ _ => rfl⟩
      rintro vote _ ⟨_, _, now⟩
      exact timely now

def Ready (kind : VoteKind Vote) (call : BudgetCall) (ballots : Ballots Vote) (vote : Vote) :
    Prop :=
  Waits kind ballots vote ∧ Known ballots (kind.target vote) ∧ Timely kind call vote

theorem replay_moved (apart : votes.Pairwise (Apart kind rules))
    {orphans : List (Uint256 × Vote)} (keys : (orphans.map Prod.fst).Nodup)
    (sound : Sound kind rules votes ballots)
    (waiting : ∀ orphan ∈ orphans, ballots.mapOrphan.find? orphan.1 = some orphan.2) :
    Moved kind rules votes
      (fun vote => (kind.target vote, vote) ∈ orphans ∧ Known ballots (kind.target vote) ∧
        Timely kind call vote)
      ballots (orphans.foldl (replayOrphan kind rules call) ballots) := by
  induction orphans generalizing ballots with
  | nil => exact Moved.refl sound (by simp)
  | cons orphan rest ih =>
    obtain ⟨key, first⟩ := orphan
    obtain ⟨fresh, keys'⟩ := List.nodup_cons.mp keys
    have here := waiting (key, first) List.mem_cons_self
    obtain ⟨_, target⟩ := sound.waiting key first here
    obtain ⟨moved, others⟩ := @replayOrphan_moved Vote kind rules call votes ballots apart sound
      key first here
    have later := ih keys' moved.sound (by
      intro other member
      have different : other.1 ≠ key := by
        intro same
        exact fresh (List.mem_map.mpr ⟨other, member, same⟩)
      rw [others other.1 different]
      exact waiting other (List.mem_cons_of_mem _ member))
    have taken : ∀ vote, ((kind.target vote, vote) ∈ (key, first) :: rest ∧
        Known ballots (kind.target vote) ∧ Timely kind call vote) ↔
        takenUp kind call ballots first vote ∨ ((kind.target vote, vote) ∈ rest ∧
          Known (replayOrphan kind rules call ballots (key, first)) (kind.target vote) ∧
            Timely kind call vote) := by
      intro vote
      rw [List.mem_cons, moved.known, Prod.mk.injEq, or_and_right]
      constructor
      · rintro (⟨⟨_, same⟩, known, timely⟩ | later)
        · subst same
          exact .inl ⟨rfl, known, timely⟩
        · exact .inr later
      · rintro (⟨same, known, timely⟩ | later)
        · subst same
          exact .inl ⟨⟨target, rfl⟩, known, timely⟩
        · exact .inr later
    rw [List.foldl_cons]
    refine ⟨later.sound, ?_, ?_, ?_⟩
    · intro hash
      rw [later.known, moved.known]
    · intro vote member
      rw [later.recorded vote member, moved.recorded vote member, taken, or_assoc]
    · intro vote member
      rw [later.waits vote member, moved.waits vote member, taken, not_or, and_assoc]

theorem replayOrphans_moved (apart : votes.Pairwise (Apart kind rules))
    (sound : Sound kind rules votes ballots) :
    Moved kind rules votes (Ready kind call ballots) ballots
      (replayOrphans kind rules call ballots) := by
  have moved := @replay_moved Vote kind rules call votes ballots apart
    ballots.mapOrphan.entries ballots.mapOrphan.keys_nodup sound
    (fun orphan member => (ballots.mapOrphan.mem_entries_iff _ _).mp member)
  have ready : ∀ vote, ((kind.target vote, vote) ∈ ballots.mapOrphan.entries ∧
      Known ballots (kind.target vote) ∧ Timely kind call vote) ↔ Ready kind call ballots vote := by
    intro vote
    rw [ballots.mapOrphan.mem_entries_iff]
    exact Iff.rfl
  refine ⟨moved.sound, moved.known, ?_, ?_⟩
  · intro vote member
    rw [← ready]
    exact moved.recorded vote member
  · intro vote member
    rw [← ready]
    exact moved.waits vote member

def Held (kind : VoteKind Vote) (rules : BudgetRules) (ballots : Ballots Vote) (vote : Vote) :
    Prop :=
  Recorded kind rules ballots vote ∨ Waits kind ballots vote

theorem replayOrphans_held (apart : votes.Pairwise (Apart kind rules))
    (sound : Sound kind rules votes ballots) {vote : Vote} (member : vote ∈ votes) :
    Held kind rules (replayOrphans kind rules call ballots) vote ↔
      Held kind rules ballots vote := by
  have moved := @replayOrphans_moved Vote kind rules call votes ballots apart sound
  unfold Held
  rw [moved.recorded vote member, moved.waits vote member]
  by_cases ready : Ready kind call ballots vote
  · simp [ready, ready.1]
  · simp [ready]

theorem addParent_sound (sound : Sound kind rules votes ballots) (hash : Uint256) :
    Sound kind rules votes (addParent hash ballots) := by
  have found : ∀ {other mapVotes}, (addParent hash ballots).mapVotes.find? other = some mapVotes →
      ballots.mapVotes.find? other = some mapVotes ∨ mapVotes = ∅ := by
    intro other mapVotes here
    change (ballots.mapVotes.insert hash ∅).find? other = some mapVotes at here
    by_cases same : other = hash
    · rw [same, find?_insert_same] at here
      rw [same]
      cases standing : ballots.mapVotes.find? hash with
      | none =>
        rw [standing] at here
        exact .inr (Option.some.inj here).symm
      | some old =>
        rw [standing] at here
        exact .inl here
    · rw [find?_insert_other _ _ same] at here
      exact .inl here
  refine ⟨sound.seen, ?_, sound.waiting, ?_⟩
  · intro other mapVotes key vote here voted
    rcases found here with standing | empty
    · exact sound.recorded other mapVotes key vote standing voted
    · rw [empty] at voted
      cases voted
  · intro other vote mapVotes waiting here
    rcases found here with standing | empty
    · exact sound.unrecorded other vote mapVotes waiting standing
    · rw [empty]
      rfl

theorem addParent_known (hash other : Uint256) :
    Known (addParent hash ballots) other ↔ other = hash ∨ Known ballots other := by
  unfold Known addParent
  by_cases same : other = hash
  · rw [same, find?_insert_same]
    simp
  · rw [find?_insert_other _ _ same]
    simp [same]

theorem addParent_held {hash : Uint256} (vote : Vote) :
    Held kind rules (addParent hash ballots) vote ↔ Held kind rules ballots vote := by
  have recorded : Recorded kind rules (addParent hash ballots) vote ↔
      Recorded kind rules ballots vote := by
    unfold Recorded addParent
    by_cases same : kind.target vote = hash
    · rw [same, find?_insert_same]
      cases ballots.mapVotes.find? hash with
      | none =>
        simp
      | some old => simp
    · rw [find?_insert_other _ _ same]
  unfold Held
  rw [recorded]
  exact Iff.rfl

def Takes (kind : VoteKind Vote) (call : BudgetCall) (ballots : Ballots Vote) (vote : Vote) :
    Prop :=
  if Known ballots (kind.target vote) then Timely kind call vote
  else call.synced = true ∧ ballots.mapOrphan.find? (kind.target vote) = none

theorem noteSeen_sound (sound : Sound kind rules votes ballots) (vote : Vote) :
    Sound kind rules (vote :: votes) (noteSeen kind rules vote ballots) := by
  refine ⟨?_, ?_, ?_, sound.unrecorded⟩
  · intro hash seen
    obtain ⟨noted, here⟩ := Option.isSome_iff_exists.mp seen
    rcases find?_set_some here with ⟨own, _⟩ | ⟨_, earlier⟩
    · exact ⟨vote, List.mem_cons_self, own.symm⟩
    · obtain ⟨other, member, hashed⟩ := sound.seen hash (Option.isSome_iff_exists.mpr ⟨_, earlier⟩)
      exact ⟨other, List.mem_cons_of_mem _ member, hashed⟩
  · intro hash mapVotes key other here voted
    obtain ⟨member, rest⟩ := sound.recorded hash mapVotes key other here voted
    exact ⟨List.mem_cons_of_mem _ member, rest⟩
  · intro hash other waiting
    obtain ⟨member, rest⟩ := sound.waiting hash other waiting
    exact ⟨List.mem_cons_of_mem _ member, rest⟩

section Cast

variable {vote : Vote} (apart : (vote :: votes).Pairwise (Apart kind rules))
  (sound : Sound kind rules votes ballots)
include apart sound

variable {mapVotes : OrderedMap Uint256 Vote}

theorem new_voter (known : ballots.mapVotes.find? (kind.target vote) = some mapVotes) :
    mapVotes.find? (voter kind rules vote) = none := by
  cases voted : mapVotes.find? (voter kind rules vote) with
  | none => rfl
  | some other =>
    obtain ⟨member, target, key⟩ := sound.recorded _ mapVotes _ other known voted
    exact absurd key.symm (((List.pairwise_cons.mp apart).1 other member).1 target.symm)

theorem new_unheld : ¬ Held kind rules ballots vote := by
  rintro (⟨mapVotes, known, voted⟩ | waits)
  · rw [new_voter apart sound known] at voted
    cases voted
  · obtain ⟨member, _⟩ := sound.waiting _ vote waits
    exact ((List.pairwise_cons.mp apart).1 vote member).2 rfl

omit sound in
theorem old_apart {other : Vote} (member : other ∈ votes)
    (target : kind.target other = kind.target vote) :
    voter kind rules other ≠ voter kind rules vote := fun key =>
  ((List.pairwise_cons.mp apart).1 other member).1 target.symm key.symm

theorem cast_known (known : ballots.mapVotes.find? (kind.target vote) = some mapVotes) :
    let cast : Ballots Vote := { noteSeen kind rules vote ballots with
      mapVotes := ballots.mapVotes.set (kind.target vote)
        (mapVotes.set (voter kind rules vote) vote) }
    Sound kind rules (vote :: votes) cast ∧ (∀ hash, Known cast hash ↔ Known ballots hash) ∧
      Held kind rules cast vote ∧
      ∀ other ∈ votes, Held kind rules cast other ↔ Held kind rules ballots other := by
  have noted := noteSeen_sound sound vote
  refine ⟨⟨noted.seen, ?_, noted.waiting, ?_⟩, ?_, ?_, ?_⟩
  · intro hash votes' key other found voted
    rcases find?_set_some found with ⟨here, same⟩ | ⟨_, standing⟩
    · rw [same] at voted
      rcases find?_set_some voted with ⟨own, is⟩ | ⟨_, old⟩
      · rw [is, here, own]
        exact ⟨List.mem_cons_self, rfl, rfl⟩
      · rw [here]
        exact noted.recorded _ mapVotes key other known old
    · exact noted.recorded hash votes' key other standing voted
  · intro hash other votes' waiting found
    rcases find?_set_some found with ⟨here, same⟩ | ⟨_, standing⟩
    · obtain ⟨member, target⟩ := sound.waiting hash other waiting
      rw [same, find?_set_other _ _ (old_apart apart member (target.trans here))]
      exact sound.unrecorded hash other mapVotes waiting (by rw [here]; exact known)
    · exact sound.unrecorded hash other votes' waiting standing
  · intro hash
    unfold Known
    by_cases here : hash = kind.target vote
    · rw [here, find?_set_same, known]
      exact Iff.rfl
    · rw [find?_set_other _ _ here]
  · exact .inl ⟨_, find?_set_same _ _ _, find?_set_same _ _ _⟩
  · intro other member
    have recorded : Recorded kind rules { noteSeen kind rules vote ballots with
        mapVotes := ballots.mapVotes.set (kind.target vote)
          (mapVotes.set (voter kind rules vote) vote) } other ↔
        Recorded kind rules ballots other := by
      unfold Recorded
      by_cases here : kind.target other = kind.target vote
      · rw [here, find?_set_same, known]
        simp [find?_set_other _ _ (old_apart apart member here)]
      · rw [find?_set_other _ _ here]
    unfold Held
    rw [recorded]
    exact Iff.rfl

theorem cast_orphan (unknown : ballots.mapVotes.find? (kind.target vote) = none) :
    let parked : Ballots Vote := { noteSeen kind rules vote ballots with
      mapOrphan := ballots.mapOrphan.set (kind.target vote) vote }
    Sound kind rules (vote :: votes) parked ∧ Held kind rules parked vote ∧
      ∀ other ∈ votes, Held kind rules parked other ↔
        Held kind rules ballots other ∧ kind.target other ≠ kind.target vote := by
  have noted := noteSeen_sound sound vote
  refine ⟨⟨noted.seen, noted.recorded, ?_, ?_⟩, ?_, ?_⟩
  · intro hash other waiting
    rcases find?_set_some waiting with ⟨here, same⟩ | ⟨_, earlier⟩
    · rw [here, same]
      exact ⟨List.mem_cons_self, rfl⟩
    · exact noted.waiting hash other earlier
  · intro hash other votes' waiting found
    rcases find?_set_some waiting with ⟨here, _⟩ | ⟨_, earlier⟩
    · rw [here] at found
      exact nomatch unknown.symm.trans found
    · exact sound.unrecorded hash other votes' earlier found
  · exact .inr (find?_set_same _ _ _)
  · intro other member
    unfold Held Waits
    change Recorded kind rules ballots other ∨ (ballots.mapOrphan.set _ _).find? _ = _ ↔ _
    by_cases here : kind.target other = kind.target vote
    · rw [here, find?_set_same]
      constructor
      · rintro (⟨_, known, _⟩ | same)
        · rw [here, unknown] at known
          cases known
        · have different := ((List.pairwise_cons.mp apart).1 other member).2
          exact absurd (congrArg _ (Option.some.inj same)) different
      · rintro ⟨_, different⟩
        exact absurd rfl different
    · rw [find?_set_other _ _ here]
      simp [here]

theorem cast_orphan_all_iff (unknown : ballots.mapVotes.find? (kind.target vote) = none) :
    (∀ other ∈ votes, Held kind rules { noteSeen kind rules vote ballots with
        mapOrphan := ballots.mapOrphan.set (kind.target vote) vote } other) ↔
      (∀ other ∈ votes, Held kind rules ballots other) ∧
        ballots.mapOrphan.find? (kind.target vote) = none := by
  obtain ⟨-, -, others⟩ := cast_orphan apart sound unknown
  constructor
  · intro all
    refine ⟨fun other member => ((others other member).mp (all other member)).1, ?_⟩
    cases waiting : ballots.mapOrphan.find? (kind.target vote) with
    | none => rfl
    | some other =>
      obtain ⟨member, target⟩ := sound.waiting _ other waiting
      exact absurd target ((others other member).mp (all other member)).2
  · rintro ⟨all, free⟩ other member
    apply (others other member).mpr
    refine ⟨all other member, ?_⟩
    intro target
    rcases all other member with ⟨_, there, _⟩ | waits
    · rw [target, unknown] at there
      cases there
    · unfold Waits at waits
      rw [target, free] at waits
      cases waits

theorem processVote_step {call : BudgetCall} {man : CMasternodeMan}
    {asked : OrderedMap Uint256 Int64} (runs : call.liteMode = false)
    (blocks : call.blockchainSynced = true) (signed : signatureValid kind call man vote = true) :
    let after := (processVote kind rules call vote ⟨man, ballots, asked⟩).2.ballots
    Sound kind rules (vote :: votes) after ∧ (∀ hash, Known after hash ↔ Known ballots hash) ∧
      (Known ballots (kind.target vote) → after.mapOrphan = ballots.mapOrphan) ∧
      ((∀ other ∈ vote :: votes, Held kind rules after other) ↔
        (∀ other ∈ votes, Held kind rules ballots other) ∧ Takes kind call ballots vote) := by
  have fresh : ballots.mapSeen.count (kind.getHash rules vote) = false := by
    apply Bool.eq_false_iff.mpr
    intro seen
    obtain ⟨other, member, same⟩ := sound.seen _ seen
    exact ((List.pairwise_cons.mp apart).1 other member).2 same.symm
  have found : (man.find (kind.vin vote)).isNone = false := by
    unfold signatureValid at signed
    cases here : man.find (kind.vin vote) with
    | none =>
      rw [here] at signed
      cases signed
    | some pmn => rfl
  have noted := noteSeen_sound sound vote
  have lost := new_unheld apart sound
  unfold processVote
  simp only [runs, blocks, fresh, found, signed, Bool.not_true, Bool.or_false, Bool.false_eq_true,
    if_false]
  unfold updateVoted Takes
  rw [List.forall_mem_cons]
  cases known : ballots.mapVotes.find? (kind.target vote) with
  | none =>
    have unknown : ¬ Known ballots (kind.target vote) := by
      unfold Known
      rw [known]
      exact Bool.false_ne_true
    rw [if_neg unknown]
    have noted_unknown : (noteSeen kind rules vote ballots).mapVotes.find? (kind.target vote) =
        none := known
    simp only [noted_unknown]
    cases synced : call.synced with
    | false =>
      refine ⟨noted, fun _ => Iff.rfl, fun there => absurd there unknown, ?_⟩
      constructor
      · rintro ⟨held, _⟩
        exact absurd held lost
      · rintro ⟨_, impossible, _⟩
        cases impossible
    | true =>
      simp only [Bool.not_true, Bool.false_eq_true, if_false]
      obtain ⟨sound', held, -⟩ := cast_orphan apart sound known
      refine ⟨sound', fun _ => Iff.rfl, fun there => absurd there unknown, ?_⟩
      have all := cast_orphan_all_iff apart sound known
      constructor
      · rintro ⟨_, later⟩
        obtain ⟨earlier, free⟩ := all.mp later
        exact ⟨earlier, trivial, free⟩
      · rintro ⟨earlier, _, free⟩
        exact ⟨held, all.mpr ⟨earlier, free⟩⟩
  | some mapVotes =>
    have there : Known ballots (kind.target vote) := known_iff.mpr ⟨mapVotes, known⟩
    rw [if_pos there]
    have noted_known : (noteSeen kind rules vote ballots).mapVotes.find? (kind.target vote) =
        some mapVotes := known
    simp only [noted_known]
    obtain ⟨takes, refuses⟩ := @addOrUpdateVote_absent Vote kind rules call vote mapVotes
      (new_voter apart sound known)
    by_cases timely : Timely kind call vote
    · rw [takes timely]
      obtain ⟨sound', known', held, others⟩ := cast_known apart sound known
      refine ⟨sound', known', fun _ => rfl, ?_⟩
      constructor
      · rintro ⟨_, all⟩
        exact ⟨fun other member => (others other member).mp (all other member), timely⟩
      · rintro ⟨all, _⟩
        exact ⟨held, fun other member => (others other member).mpr (all other member)⟩
    · rw [refuses timely]
      refine ⟨noted, fun _ => Iff.rfl, fun _ => rfl, ?_⟩
      constructor
      · rintro ⟨held, _⟩
        exact absurd held lost
      · rintro ⟨_, now⟩
        exact absurd now timely

end Cast

/-- After `CheckOrphanVotes`, with all that the votes are on known, the votes recorded are
    those that were not lost and wait no longer. -/
theorem replayOrphans_all_iff (apart : votes.Pairwise (Apart kind rules))
    (sound : Sound kind rules votes ballots)
    (known : ∀ vote ∈ votes, Known ballots (kind.target vote)) :
    (∀ vote ∈ votes, Recorded kind rules (replayOrphans kind rules call ballots) vote) ↔
      (∀ vote ∈ votes, Held kind rules ballots vote) ∧
        ∀ hash vote, ballots.mapOrphan.find? hash = some vote → Timely kind call vote := by
  have moved := @replayOrphans_moved Vote kind rules call votes ballots apart sound
  constructor
  · intro all
    constructor
    · intro vote member
      rcases (moved.recorded vote member).mp (all vote member) with earlier | ready
      · exact .inl earlier
      · exact .inr ready.1
    · intro hash vote waiting
      obtain ⟨member, target⟩ := sound.waiting hash vote waiting
      rcases (moved.recorded vote member).mp (all vote member) with ⟨mapVotes, here, voted⟩ | ready
      · rw [target] at here
        rw [sound.unrecorded hash vote mapVotes waiting here] at voted
        cases voted
      · exact ready.2.2
  · rintro ⟨held, timely⟩ vote member
    apply (moved.recorded vote member).mpr
    rcases held vote member with earlier | waits
    · exact .inl earlier
    · exact .inr ⟨waits, known vote member, timely _ vote waits⟩

theorem same_ballots_iff {others : List Vote} {complete : Ballots Vote}
    (members : ∀ vote, vote ∈ others ↔ vote ∈ votes) (sound : Sound kind rules votes ballots)
    (sound' : Sound kind rules others complete)
    (known : ∀ hash, Known ballots hash ↔ Known complete hash)
    (all : ∀ vote ∈ others, Recorded kind rules complete vote) :
    ballots.mapVotes = complete.mapVotes ↔ ∀ vote ∈ votes, Recorded kind rules ballots vote := by
  constructor
  · intro same vote member
    unfold Recorded
    rw [same]
    exact all vote ((members vote).mpr member)
  · intro recorded
    apply eq_of_find?
    intro hash
    cases here : ballots.mapVotes.find? hash with
    | none =>
      cases there : complete.mapVotes.find? hash with
      | none => rfl
      | some mapVotes =>
        obtain ⟨_, found⟩ := known_iff.mp ((known hash).mpr (known_iff.mpr ⟨mapVotes, there⟩))
        exact nomatch here.symm.trans found
    | some mapVotes =>
      obtain ⟨mapVotes', there⟩ := known_iff.mp ((known hash).mp (known_iff.mpr ⟨mapVotes, here⟩))
      rw [there, Option.some.injEq]
      apply eq_of_find?
      intro key
      apply Option.ext
      intro vote
      constructor
      · intro voted
        obtain ⟨member, target, own⟩ := sound.recorded hash mapVotes key vote here voted
        obtain ⟨found, at_target, has⟩ := all vote ((members vote).mpr member)
        rw [target, there] at at_target
        rw [← own, Option.some.inj at_target]
        exact has
      · intro voted
        obtain ⟨member, target, own⟩ := sound'.recorded hash mapVotes' key vote there voted
        obtain ⟨found, at_target, has⟩ := recorded vote ((members vote).mp member)
        rw [target, here] at at_target
        rw [← own, Option.some.inj at_target]
        exact has

theorem replayOrphans_none (apart : votes.Pairwise (Apart kind rules))
    (sound : Sound kind rules votes ballots)
    (nothing : ∀ hash, ballots.mapOrphan.find? hash = none) (hash : Uint256) :
    (replayOrphans kind rules call ballots).mapOrphan.find? hash = none := by
  have moved := @replayOrphans_moved Vote kind rules call votes ballots apart sound
  cases waiting : (replayOrphans kind rules call ballots).mapOrphan.find? hash with
  | none => rfl
  | some vote =>
    obtain ⟨member, target⟩ := moved.sound.waiting hash vote waiting
    have earlier := ((moved.waits vote member).mp (by unfold Waits; rw [target]; exact waiting)).1
    exact nomatch (nothing _).symm.trans earlier

end Kind

section Runs

def received (vote : CBudgetVote) : CBudgetVote := { vote with fValid := true }
def receivedFinal (vote : CFinalizedBudgetVote) : CFinalizedBudgetVote := { vote with fValid := true }

def proposalsOf (messages : List Message) : List Uint256 :=
  messages.filterMap fun message => match message with
    | .mprop hash => some hash
    | _ => none

def budgetsOf (messages : List Message) : List Uint256 :=
  messages.filterMap fun message => match message with
    | .fbs hash => some hash
    | _ => none

def votesOf (messages : List Message) : List CBudgetVote :=
  messages.filterMap fun message => match message with
    | .mvote vote => some (received vote)
    | _ => none

def finalVotesOf (messages : List Message) : List CFinalizedBudgetVote :=
  messages.filterMap fun message => match message with
    | .fbvote vote => some (receivedFinal vote)
    | _ => none

/-- One proposal and one budget of each hash, and one vote of each masternode on each. -/
structure OneEach (rules : BudgetRules) (messages : List Message) : Prop where
  proposals : (proposalsOf messages).Nodup
  budgets : (budgetsOf messages).Nodup
  votes : (votesOf messages).Pairwise (Apart mvote rules)
  finalVotes : (finalVotesOf messages).Pairwise (Apart fbvote rules)

/-- The message reaches its handler and passes its checks: a proposal or a budget is valid,
    and a vote is signed by a masternode that is known. -/
structure Genuine (arrival : Arrival) : Prop where
  runs : arrival.around.call.liteMode = false
  blocks : arrival.around.call.blockchainSynced = true
  checks : match arrival.message with
    | .mprop _ | .fbs _ =>
      arrival.around.collateralValid = true ∧ arrival.around.isValid = true
    | .mvote vote =>
      signatureValid mvote arrival.around.call arrival.around.man (received vote) = true
    | .fbvote vote =>
      signatureValid fbvote arrival.around.call arrival.around.man (receivedFinal vote) = true

/-- A vote finds what it is on, and is not more than an hour ahead of the clock, or it
    comes in synced and no other vote waits for what it is on. -/
def MeetsVote (arrival : Arrival) (inbox : BudgetInbox) : Prop :=
  match arrival.message with
  | .mprop _ | .fbs _ => True
  | .mvote vote => Takes mvote arrival.around.call inbox.budget.proposalVotes (received vote)
  | .fbvote vote =>
    Takes fbvote arrival.around.call inbox.budget.finalizedBudgetVotes (receivedFinal vote)

variable {rules : BudgetRules}

structure Agrees (rules : BudgetRules) (messages : List Message) (budget : CBudgetManager) :
    Prop where
  votes : Sound mvote rules (votesOf messages) budget.proposalVotes
  finalVotes : Sound fbvote rules (finalVotesOf messages) budget.finalizedBudgetVotes
  proposals : ∀ hash, Known budget.proposalVotes hash ↔ hash ∈ proposalsOf messages
  budgets : ∀ hash, Known budget.finalizedBudgetVotes hash ↔ hash ∈ budgetsOf messages

def AllHeld (rules : BudgetRules) (messages : List Message) (budget : CBudgetManager) : Prop :=
  (∀ vote ∈ votesOf messages, Held mvote rules budget.proposalVotes vote) ∧
    ∀ vote ∈ finalVotesOf messages, Held fbvote rules budget.finalizedBudgetVotes vote

structure SeenOnly (messages : List Message) (inbox : BudgetInbox) : Prop where
  proposals : ∀ hash, inbox.mapSeenMasternodeBudgetProposals.count hash = true →
    hash ∈ proposalsOf messages
  budgets : ∀ hash, inbox.mapSeenFinalizedBudgets.count hash = true → hash ∈ budgetsOf messages

variable {messages : List Message} {inbox : BudgetInbox} {arrivals : List Arrival}
variable {map : OrderedMap Uint256 Unit} {arrival : Arrival} {budget : CBudgetManager}
variable {hash : Uint256}

theorem checkOrphanVotes_agrees (each : OneEach rules messages)
    (agrees : Agrees rules messages budget) (call : BudgetCall) :
    Agrees rules messages (checkOrphanVotes rules call budget) ∧
      (AllHeld rules messages (checkOrphanVotes rules call budget) ↔
        AllHeld rules messages budget) := by
  have moved := @replayOrphans_moved _ mvote rules call _ _ each.votes agrees.votes
  have moved' := @replayOrphans_moved _ fbvote rules call _ _ each.finalVotes agrees.finalVotes
  constructor
  · exact ⟨moved.sound, moved'.sound, fun hash => (moved.known hash).trans (agrees.proposals hash),
      fun hash => (moved'.known hash).trans (agrees.budgets hash)⟩
  · apply and_congr
    · apply forall₂_congr
      intro vote member
      exact replayOrphans_held each.votes agrees.votes member
    · apply forall₂_congr
      intro vote member
      exact replayOrphans_held each.finalVotes agrees.finalVotes member

theorem count_insert {hash other : Uint256} (present : (map.insert hash ()).count other = true) :
    other = hash ∨ map.count other = true := by
  by_cases same : other = hash
  · exact .inl same
  · unfold OrderedMap.count at present
    rw [find?_insert_other _ _ same] at present
    exact .inr present

theorem insert_listed {listed : List Uint256}
    (only : ∀ other, map.count other = true → other ∈ listed) (hash other : Uint256)
    (present : (map.insert hash ()).count other = true) : other ∈ hash :: listed := by
  rcases count_insert present with here | earlier
  · rw [here]
    exact List.mem_cons_self
  · exact List.mem_cons_of_mem _ (only other earlier)

theorem OneEach.sublist {messages part : List Message} (each : OneEach rules messages)
    (within : part.Sublist messages) : OneEach rules part :=
  ⟨each.proposals.sublist (within.filterMap _), each.budgets.sublist (within.filterMap _),
    each.votes.sublist (within.filterMap _), each.finalVotes.sublist (within.filterMap _)⟩

theorem OneEach.perm {messages others : List Message} (each : OneEach rules messages)
    (same : messages.Perm others) : OneEach rules others :=
  ⟨(same.filterMap _).nodup_iff.mp each.proposals, (same.filterMap _).nodup_iff.mp each.budgets,
    (same.filterMap _).pairwise each.votes fun apart => Std.Symm.symm _ _ apart,
    (same.filterMap _).pairwise each.finalVotes fun apart => Std.Symm.symm _ _ apart⟩

theorem unseen_proposal (each : OneEach rules (.mprop hash :: messages))
    (seen : SeenOnly messages inbox) :
    inbox.mapSeenMasternodeBudgetProposals.count hash = false := by
  apply Bool.eq_false_iff.mpr
  intro present
  exact (List.nodup_cons.mp each.proposals).1 (seen.proposals hash present)

theorem unseen_budget (each : OneEach rules (.fbs hash :: messages))
    (seen : SeenOnly messages inbox) :
    inbox.mapSeenFinalizedBudgets.count hash = false := by
  apply Bool.eq_false_iff.mpr
  intro present
  exact (List.nodup_cons.mp each.budgets).1 (seen.budgets hash present)

section Messages
variable {messages : List Message} {around : Surroundings} {inbox : BudgetInbox}
  (agrees : Agrees rules messages inbox.budget) (seen : SeenOnly messages inbox)
include agrees seen

theorem mprop_step {hash : Uint256} (each : OneEach rules (.mprop hash :: messages))
    (genuine : Genuine ⟨.mprop hash, around⟩) :
    Agrees rules (.mprop hash :: messages) (process rules ⟨.mprop hash, around⟩ inbox).budget ∧
      SeenOnly (.mprop hash :: messages) (process rules ⟨.mprop hash, around⟩ inbox) ∧
      (AllHeld rules (.mprop hash :: messages) (process rules ⟨.mprop hash, around⟩ inbox).budget ↔
        AllHeld rules messages inbox.budget ∧ MeetsVote ⟨.mprop hash, around⟩ inbox) := by
  obtain ⟨runs, blocks, checks⟩ := genuine
  dsimp only at runs blocks checks
  obtain ⟨collateral, valid⟩ := checks
  have fresh := unseen_proposal each seen
  have added : Agrees rules (.mprop hash :: messages)
      { inbox.budget with proposalVotes := addParent hash inbox.budget.proposalVotes } := by
    refine ⟨addParent_sound agrees.votes hash, agrees.finalVotes, ?_, agrees.budgets⟩
    intro other
    change Known (addParent hash inbox.budget.proposalVotes) other ↔
      other ∈ hash :: proposalsOf messages
    rw [addParent_known, agrees.proposals, List.mem_cons]
  obtain ⟨checked, held⟩ := checkOrphanVotes_agrees each added around.call
  unfold process processMprop
  simp only [runs, blocks, fresh, collateral, valid, Bool.not_true, Bool.or_false,
    Bool.false_eq_true, if_false]
  refine ⟨checked, ⟨insert_listed seen.proposals hash, seen.budgets⟩, ?_⟩
  rw [held]
  unfold MeetsVote
  rw [and_true]
  apply and_congr _ Iff.rfl
  apply forall₂_congr
  intro vote _
  exact addParent_held vote

theorem fbs_step {hash : Uint256} (each : OneEach rules (.fbs hash :: messages))
    (genuine : Genuine ⟨.fbs hash, around⟩) :
    Agrees rules (.fbs hash :: messages) (process rules ⟨.fbs hash, around⟩ inbox).budget ∧
      SeenOnly (.fbs hash :: messages) (process rules ⟨.fbs hash, around⟩ inbox) ∧
      (AllHeld rules (.fbs hash :: messages) (process rules ⟨.fbs hash, around⟩ inbox).budget ↔
        AllHeld rules messages inbox.budget ∧ MeetsVote ⟨.fbs hash, around⟩ inbox) := by
  obtain ⟨runs, blocks, checks⟩ := genuine
  dsimp only at runs blocks checks
  obtain ⟨collateral, valid⟩ := checks
  have fresh := unseen_budget each seen
  have added : Agrees rules (.fbs hash :: messages) { inbox.budget with
      finalizedBudgetVotes := addParent hash inbox.budget.finalizedBudgetVotes } := by
    refine ⟨agrees.votes, addParent_sound agrees.finalVotes hash, agrees.proposals, ?_⟩
    intro other
    change Known (addParent hash inbox.budget.finalizedBudgetVotes) other ↔
      other ∈ hash :: budgetsOf messages
    rw [addParent_known, agrees.budgets, List.mem_cons]
  obtain ⟨checked, held⟩ := checkOrphanVotes_agrees each added around.call
  unfold process processFbs
  simp only [runs, blocks, fresh, collateral, valid, Bool.not_true, Bool.or_false,
    Bool.false_eq_true, if_false]
  refine ⟨checked, ⟨seen.proposals, insert_listed seen.budgets hash⟩, ?_⟩
  rw [held]
  unfold MeetsVote
  rw [and_true]
  apply and_congr Iff.rfl
  apply forall₂_congr
  intro vote _
  exact addParent_held vote

theorem mvote_step {vote : CBudgetVote} (each : OneEach rules (.mvote vote :: messages))
    (genuine : Genuine ⟨.mvote vote, around⟩) :
    Agrees rules (.mvote vote :: messages) (process rules ⟨.mvote vote, around⟩ inbox).budget ∧
      SeenOnly (.mvote vote :: messages) (process rules ⟨.mvote vote, around⟩ inbox) ∧
      (AllHeld rules (.mvote vote :: messages) (process rules ⟨.mvote vote, around⟩ inbox).budget ↔
        AllHeld rules messages inbox.budget ∧ MeetsVote ⟨.mvote vote, around⟩ inbox) := by
  obtain ⟨runs, blocks, checks⟩ := genuine
  obtain ⟨sound, known, _, held⟩ := @processVote_step _ mvote rules _ _ (received vote) each.votes
    agrees.votes around.call around.man inbox.budget.askedForSourceProposalOrBudget runs blocks
    checks
  refine ⟨⟨sound, agrees.finalVotes, ?_, agrees.budgets⟩, ⟨seen.proposals, seen.budgets⟩, ?_⟩
  · intro hash
    exact (known hash).trans (agrees.proposals hash)
  · unfold AllHeld
    constructor
    · rintro ⟨all, others⟩
      obtain ⟨earlier, takes⟩ := held.mp all
      exact ⟨⟨earlier, others⟩, takes⟩
    · rintro ⟨⟨earlier, others⟩, takes⟩
      exact ⟨held.mpr ⟨earlier, takes⟩, others⟩

theorem fbvote_step {vote : CFinalizedBudgetVote} (each : OneEach rules (.fbvote vote :: messages))
    (genuine : Genuine ⟨.fbvote vote, around⟩) :
    Agrees rules (.fbvote vote :: messages) (process rules ⟨.fbvote vote, around⟩ inbox).budget ∧
      SeenOnly (.fbvote vote :: messages) (process rules ⟨.fbvote vote, around⟩ inbox) ∧
      (AllHeld rules (.fbvote vote :: messages) (process rules ⟨.fbvote vote, around⟩ inbox).budget ↔
        AllHeld rules messages inbox.budget ∧ MeetsVote ⟨.fbvote vote, around⟩ inbox) := by
  obtain ⟨runs, blocks, checks⟩ := genuine
  obtain ⟨sound, known, _, held⟩ := @processVote_step _ fbvote rules _ _ (receivedFinal vote)
    each.finalVotes agrees.finalVotes around.call around.man
    inbox.budget.askedForSourceProposalOrBudget runs blocks checks
  refine ⟨⟨agrees.votes, sound, agrees.proposals, ?_⟩, ⟨seen.proposals, seen.budgets⟩, ?_⟩
  · intro hash
    exact (known hash).trans (agrees.budgets hash)
  · unfold AllHeld
    constructor
    · rintro ⟨others, all⟩
      obtain ⟨earlier, takes⟩ := held.mp all
      exact ⟨⟨others, earlier⟩, takes⟩
    · rintro ⟨⟨others, earlier⟩, takes⟩
      exact ⟨others, held.mpr ⟨earlier, takes⟩⟩

end Messages

theorem process_step (each : OneEach rules (arrival.message :: messages))
    (genuine : Genuine arrival) (agrees : Agrees rules messages inbox.budget)
    (seen : SeenOnly messages inbox) :
    Agrees rules (arrival.message :: messages) (process rules arrival inbox).budget ∧
      SeenOnly (arrival.message :: messages) (process rules arrival inbox) ∧
      (AllHeld rules (arrival.message :: messages) (process rules arrival inbox).budget ↔
        AllHeld rules messages inbox.budget ∧ MeetsVote arrival inbox) := by
  obtain ⟨message, around⟩ := arrival
  cases message with
  | mprop hash => exact mprop_step agrees seen each genuine
  | fbs hash => exact fbs_step agrees seen each genuine
  | mvote vote => exact mvote_step agrees seen each genuine
  | fbvote vote => exact fbvote_step agrees seen each genuine

theorem run_agrees (each : OneEach rules ((arrivals.map Arrival.message).reverse ++ messages))
    (genuine : ∀ arrival ∈ arrivals, Genuine arrival) (agrees : Agrees rules messages inbox.budget)
    (seen : SeenOnly messages inbox) :
    Agrees rules ((arrivals.map Arrival.message).reverse ++ messages)
        (runAll (process rules) arrivals inbox).budget ∧
      (AllHeld rules ((arrivals.map Arrival.message).reverse ++ messages)
          (runAll (process rules) arrivals inbox).budget ↔
        AllHeld rules messages inbox.budget ∧
          AlongAll (process rules) MeetsVote arrivals inbox) := by
  induction arrivals generalizing messages inbox with
  | nil => exact ⟨agrees, by unfold runAll AlongAll; rw [and_true]; exact Iff.rfl⟩
  | cons arrival rest ih =>
    rw [List.map_cons, List.reverse_cons, List.append_assoc, List.singleton_append] at each ⊢
    obtain ⟨agrees', seen', held⟩ := process_step (each.sublist (List.sublist_append_right _ _))
      (genuine arrival List.mem_cons_self) agrees seen
    obtain ⟨final, all⟩ := ih each
      (fun other member => genuine other (List.mem_cons_of_mem _ member)) agrees' seen'
    refine ⟨final, ?_⟩
    unfold runAll AlongAll
    rw [all, held, and_assoc]

/-- What a vote is on came in before it, and it is not more than an hour ahead of the
    clock. -/
def Follows (before : List Message) (arrival : Arrival) : Prop :=
  match arrival.message with
  | .mprop _ | .fbs _ => True
  | .mvote vote =>
    vote.nProposalHash ∈ proposalsOf before ∧ Timely mvote arrival.around.call (received vote)
  | .fbvote vote =>
    vote.nBudgetHash ∈ budgetsOf before ∧ Timely fbvote arrival.around.call (receivedFinal vote)

def InOrder : List Message → List Arrival → Prop
  | _, [] => True
  | before, arrival :: rest => Follows before arrival ∧ InOrder (arrival.message :: before) rest

structure NoneWaits (budget : CBudgetManager) : Prop where
  votes : ∀ hash, budget.proposalVotes.mapOrphan.find? hash = none
  finalVotes : ∀ hash, budget.finalizedBudgetVotes.mapOrphan.find? hash = none

theorem follows_step (each : OneEach rules (arrival.message :: messages))
    (genuine : Genuine arrival) (agrees : Agrees rules messages inbox.budget)
    (seen : SeenOnly messages inbox) (follows : Follows messages arrival)
    (nothing : NoneWaits inbox.budget) :
    MeetsVote arrival inbox ∧ NoneWaits (process rules arrival inbox).budget := by
  obtain ⟨message, around⟩ := arrival
  obtain ⟨runs, blocks, checks⟩ := genuine
  dsimp only at each runs blocks checks
  cases message with
  | mprop hash =>
    obtain ⟨collateral, valid⟩ := checks
    have fresh := unseen_proposal each seen
    refine ⟨trivial, ?_⟩
    unfold process processMprop
    simp only [runs, blocks, fresh, collateral, valid, Bool.not_true, Bool.or_false,
      Bool.false_eq_true, if_false]
    exact ⟨replayOrphans_none each.votes (addParent_sound agrees.votes hash) nothing.votes,
      replayOrphans_none each.finalVotes agrees.finalVotes nothing.finalVotes⟩
  | fbs hash =>
    obtain ⟨collateral, valid⟩ := checks
    have fresh := unseen_budget each seen
    refine ⟨trivial, ?_⟩
    unfold process processFbs
    simp only [runs, blocks, fresh, collateral, valid, Bool.not_true, Bool.or_false,
      Bool.false_eq_true, if_false]
    exact ⟨replayOrphans_none each.votes agrees.votes nothing.votes, replayOrphans_none
      each.finalVotes (addParent_sound agrees.finalVotes hash) nothing.finalVotes⟩
  | mvote vote =>
    obtain ⟨before, timely⟩ := follows
    have known : Known inbox.budget.proposalVotes (OxidBudgetVotes.mvote.target (received vote)) :=
      (agrees.proposals _).mpr before
    obtain ⟨_, _, same, _⟩ := @processVote_step _ mvote rules _ _ (received vote) each.votes
      agrees.votes around.call around.man inbox.budget.askedForSourceProposalOrBudget runs blocks
      checks
    constructor
    · unfold MeetsVote Takes
      dsimp only
      rw [if_pos known]
      exact timely
    · refine ⟨?_, nothing.finalVotes⟩
      intro hash
      have untouched := congrArg (OrderedMap.find? · hash) (same known)
      exact untouched.trans (nothing.votes hash)
  | fbvote vote =>
    obtain ⟨before, timely⟩ := follows
    have known : Known inbox.budget.finalizedBudgetVotes
        (OxidBudgetVotes.fbvote.target (receivedFinal vote)) := (agrees.budgets _).mpr before
    obtain ⟨_, _, same, _⟩ := @processVote_step _ fbvote rules _ _ (receivedFinal vote)
      each.finalVotes agrees.finalVotes around.call around.man
      inbox.budget.askedForSourceProposalOrBudget runs blocks checks
    constructor
    · unfold MeetsVote Takes
      dsimp only
      rw [if_pos known]
      exact timely
    · refine ⟨nothing.votes, ?_⟩
      intro hash
      have untouched := congrArg (OrderedMap.find? · hash) (same known)
      exact untouched.trans (nothing.finalVotes hash)

theorem inOrder_meets (each : OneEach rules ((arrivals.map Arrival.message).reverse ++ messages))
    (genuine : ∀ arrival ∈ arrivals, Genuine arrival) (agrees : Agrees rules messages inbox.budget)
    (seen : SeenOnly messages inbox) (ordered : InOrder messages arrivals)
    (nothing : NoneWaits inbox.budget) :
    AlongAll (process rules) MeetsVote arrivals inbox ∧
      NoneWaits (runAll (process rules) arrivals inbox).budget := by
  induction arrivals generalizing messages inbox with
  | nil => exact ⟨trivial, nothing⟩
  | cons arrival rest ih =>
    rw [List.map_cons, List.reverse_cons, List.append_assoc, List.singleton_append] at each
    have one := each.sublist (List.sublist_append_right _ _)
    have true' := genuine arrival List.mem_cons_self
    obtain ⟨agrees', seen', _⟩ := process_step one true' agrees seen
    obtain ⟨meets, nothing'⟩ := follows_step one true' agrees seen ordered.1 nothing
    obtain ⟨along, final⟩ := ih each
      (fun other member => genuine other (List.mem_cons_of_mem _ member)) agrees' seen'
      ordered.2 nothing'
    exact ⟨⟨meets, along⟩, final⟩

theorem emptyInbox_agrees : Agrees rules [] emptyInbox.budget where
  votes := ⟨fun _ seen => (nomatch seen), fun _ _ _ _ here => (nomatch here),
    fun _ _ here => (nomatch here), fun _ _ _ here => (nomatch here)⟩
  finalVotes := ⟨fun _ seen => (nomatch seen), fun _ _ _ _ here => (nomatch here),
    fun _ _ here => (nomatch here), fun _ _ _ here => (nomatch here)⟩
  proposals _ := ⟨fun known => (nomatch known), fun member => (nomatch member)⟩
  budgets _ := ⟨fun known => (nomatch known), fun member => (nomatch member)⟩

theorem emptyInbox_seen : SeenOnly [] emptyInbox :=
  ⟨fun _ seen => (nomatch seen), fun _ seen => (nomatch seen)⟩

theorem emptyInbox_held : AllHeld rules [] emptyInbox.budget :=
  ⟨fun _ member => (nomatch member), fun _ member => (nomatch member)⟩

structure Answered (messages : List Message) : Prop where
  votes : ∀ vote ∈ votesOf messages, vote.nProposalHash ∈ proposalsOf messages
  finalVotes : ∀ vote ∈ finalVotesOf messages, vote.nBudgetHash ∈ budgetsOf messages

theorem emptyInbox_answered : Answered [] :=
  ⟨fun _ member => (nomatch member), fun _ member => (nomatch member)⟩

theorem answered_cons (answered : Answered messages) (follows : Follows messages arrival) :
    Answered (arrival.message :: messages) := by
  obtain ⟨message, around⟩ := arrival
  cases message with
  | mprop hash =>
    refine ⟨?_, answered.finalVotes⟩
    intro vote member
    exact List.mem_cons_of_mem hash (answered.votes vote member)
  | fbs hash =>
    refine ⟨answered.votes, ?_⟩
    intro vote member
    exact List.mem_cons_of_mem hash (answered.finalVotes vote member)
  | mvote vote =>
    refine ⟨?_, answered.finalVotes⟩
    intro other member
    rcases List.mem_cons.mp member with here | earlier
    · rw [here]
      exact follows.1
    · exact answered.votes other earlier
  | fbvote vote =>
    refine ⟨answered.votes, ?_⟩
    intro other member
    rcases List.mem_cons.mp member with here | earlier
    · rw [here]
      exact follows.1
    · exact answered.finalVotes other earlier

theorem inOrder_answered (answered : Answered messages) (ordered : InOrder messages arrivals) :
    Answered ((arrivals.map Arrival.message).reverse ++ messages) := by
  induction arrivals generalizing messages with
  | nil => exact answered
  | cons arrival rest ih =>
    rw [List.map_cons, List.reverse_cons, List.append_assoc, List.singleton_append]
    exact ih (answered_cons answered ordered.1) ordered.2

/-- No vote that still waits is more than an hour ahead of the clock. -/
structure LastMeets (last : BudgetCall) (budget : CBudgetManager) : Prop where
  votes : ∀ hash vote, budget.proposalVotes.mapOrphan.find? hash = some vote →
    Timely mvote last vote
  finalVotes : ∀ hash vote, budget.finalizedBudgetVotes.mapOrphan.find? hash = some vote →
    Timely fbvote last vote

def AllRecorded (rules : BudgetRules) (messages : List Message) (budget : CBudgetManager) : Prop :=
  (∀ vote ∈ votesOf messages, Recorded mvote rules budget.proposalVotes vote) ∧
    ∀ vote ∈ finalVotesOf messages, Recorded fbvote rules budget.finalizedBudgetVotes vote

theorem checkOrphanVotes_all_iff (each : OneEach rules messages)
    (agrees : Agrees rules messages budget) (answered : Answered messages) (last : BudgetCall) :
    AllRecorded rules messages (checkOrphanVotes rules last budget) ↔
      AllHeld rules messages budget ∧ LastMeets last budget := by
  have votes := @replayOrphans_all_iff _ mvote rules last _ _ each.votes agrees.votes
    fun vote member => (agrees.proposals _).mpr (answered.votes vote member)
  have finalVotes := @replayOrphans_all_iff _ fbvote rules last _ _ each.finalVotes
    agrees.finalVotes fun vote member => (agrees.budgets _).mpr (answered.finalVotes vote member)
  constructor
  · rintro ⟨all, all'⟩
    obtain ⟨held, timely⟩ := votes.mp all
    obtain ⟨held', timely'⟩ := finalVotes.mp all'
    exact ⟨⟨held, held'⟩, timely, timely'⟩
  · rintro ⟨⟨held, held'⟩, timely, timely'⟩
    exact ⟨votes.mpr ⟨held, timely⟩, finalVotes.mpr ⟨held', timely'⟩⟩

/-- The votes recorded are those recorded when every vote comes in after what it is on if
    and only if each vote is cast when it comes in, or comes in synced and waits alone, and
    none that waits is too far ahead at the end. -/
theorem early_votes_recorded_iff (rules : BudgetRules) (arrivals late : List Arrival)
    (last later : BudgetCall)
    (same : (late.map Arrival.message).Perm (arrivals.map Arrival.message))
    (each : OneEach rules (arrivals.map Arrival.message))
    (genuine : ∀ arrival ∈ arrivals, Genuine arrival)
    (genuine_late : ∀ arrival ∈ late, Genuine arrival) (ordered : InOrder [] late) :
    ((settled rules arrivals last).proposalVotes.mapVotes =
        (settled rules late later).proposalVotes.mapVotes ∧
      (settled rules arrivals last).finalizedBudgetVotes.mapVotes =
        (settled rules late later).finalizedBudgetVotes.mapVotes) ↔
    AlongAll (process rules) MeetsVote arrivals emptyInbox ∧
      LastMeets last (runAll (process rules) arrivals emptyInbox).budget := by
  have all : ((late.map Arrival.message).reverse ++ []).Perm
      ((arrivals.map Arrival.message).reverse ++ []) := by
    rw [List.append_nil, List.append_nil]
    exact (List.reverse_perm _).trans (same.trans (List.reverse_perm _).symm)
  have each' : OneEach rules ((arrivals.map Arrival.message).reverse ++ []) := by
    rw [List.append_nil]
    exact each.perm (List.reverse_perm _).symm
  have each_late := each'.perm all.symm
  obtain ⟨agrees, held⟩ := run_agrees each' genuine emptyInbox_agrees emptyInbox_seen
  obtain ⟨agrees_late, held_late⟩ :=
    run_agrees each_late genuine_late emptyInbox_agrees emptyInbox_seen
  obtain ⟨along, nothing⟩ := inOrder_meets each_late genuine_late emptyInbox_agrees
    emptyInbox_seen ordered ⟨fun _ => rfl, fun _ => rfl⟩
  have answered_late := inOrder_answered emptyInbox_answered ordered
  have answered : Answered ((arrivals.map Arrival.message).reverse ++ []) := by
    constructor
    · intro vote member
      exact (all.filterMap _).mem_iff.mp
        (answered_late.votes vote ((all.filterMap _).mem_iff.mpr member))
    · intro vote member
      exact (all.filterMap _).mem_iff.mp
        (answered_late.finalVotes vote ((all.filterMap _).mem_iff.mpr member))
  have recorded_late := (checkOrphanVotes_all_iff each_late agrees_late answered_late later).mpr
    ⟨held_late.mpr ⟨emptyInbox_held, along⟩,
      fun hash _ waiting => (nomatch (nothing.votes hash).symm.trans waiting),
      fun hash _ waiting => (nomatch (nothing.finalVotes hash).symm.trans waiting)⟩
  have final := (checkOrphanVotes_agrees each' agrees last).1
  have final_late := (checkOrphanVotes_agrees each_late agrees_late later).1
  have condition := checkOrphanVotes_all_iff each' agrees answered last
  rw [held] at condition
  unfold settled
  rw [same_ballots_iff (fun vote => (all.filterMap _).mem_iff) final.votes final_late.votes
      (fun hash => (final.proposals hash).trans
        ((all.filterMap _).mem_iff.symm.trans (final_late.proposals hash).symm)) recorded_late.1,
    same_ballots_iff (fun vote => (all.filterMap _).mem_iff) final.finalVotes
      final_late.finalVotes (fun hash => (final.budgets hash).trans
        ((all.filterMap _).mem_iff.symm.trans (final_late.budgets hash).symm)) recorded_late.2]
  constructor
  · intro recorded
    obtain ⟨⟨_, meets⟩, timely⟩ := condition.mp recorded
    exact ⟨meets, timely⟩
  · rintro ⟨meets, timely⟩
    exact condition.mpr ⟨⟨emptyInbox_held, meets⟩, timely⟩

end Runs

section Samples

instance (kind : VoteKind CBudgetVote) (rules : BudgetRules) :
    DecidableRel (Apart kind rules) := fun _ _ =>
  inferInstanceAs (Decidable ((_ = _ → _ ≠ _) ∧ _ ≠ _))

def plainRules : BudgetRules where
  voteHash fields := fields.1.prevout.hash
  finalizedVoteHash fields := fields.1.prevout.hash
  outPointHash out := out.hash

def plainCall : BudgetCall := ⟨false, true, true, 1600000000, fun _ _ _ => true, fun _ _ _ => true⟩

def inputOf (masternode : Uint256) : CTxIn := ⟨⟨masternode, 0⟩, [], 0⟩

def twoMasternodes : CMasternodeMan :=
  ⟨[{ CMasternode.fresh 0 with vin := inputOf 1 }, { CMasternode.fresh 0 with vin := inputOf 2 }],
    ∅, ∅, ∅, 0, ∅, ∅⟩

def plainSurroundings : Surroundings := ⟨plainCall, twoMasternodes, true, true⟩

def voteOf (masternode : Uint256) : Arrival :=
  ⟨.mvote ⟨true, true, inputOf masternode, 9, 1, 1599990000, []⟩, plainSurroundings⟩

def proposal : Arrival := ⟨.mprop 9, plainSurroundings⟩

def proposalFirst : List Arrival := [proposal, voteOf 1, voteOf 2]

theorem voteOf_genuine {masternode : Uint256} (known : masternode = 1 ∨ masternode = 2) :
    Genuine (voteOf masternode) := by
  refine ⟨rfl, rfl, ?_⟩
  rcases known with first | second
  · rw [first]
    change signatureValid _ _ _ _ = true
    decide
  · rw [second]
    change signatureValid _ _ _ _ = true
    decide

theorem proposal_genuine : Genuine proposal := ⟨rfl, rfl, rfl, rfl⟩

theorem proposalFirst_ordered : InOrder [] proposalFirst :=
  ⟨trivial, ⟨List.mem_cons_self, by unfold Timely; decide⟩,
    ⟨List.mem_cons_self, by unfold Timely; decide⟩, trivial⟩

theorem second_early_vote_replaces_first :
    let early := [voteOf 1, voteOf 2, proposal]
    (proposalFirst.map Arrival.message).Perm (early.map Arrival.message) ∧
      OneEach plainRules (early.map Arrival.message) ∧ (∀ arrival ∈ early, Genuine arrival) ∧
      (∀ arrival ∈ proposalFirst, Genuine arrival) ∧ InOrder [] proposalFirst ∧
      (settled plainRules early plainCall).proposalVotes.mapVotes ≠
        (settled plainRules proposalFirst plainCall).proposalVotes.mapVotes := by
  refine ⟨@List.perm_append_comm _ [_] [_, _], ⟨by decide, by decide, by decide,
    List.Pairwise.nil⟩, ?_, ?_, proposalFirst_ordered, ?_⟩
  · simp [voteOf_genuine, proposal_genuine]
  · simp [proposalFirst, voteOf_genuine, proposal_genuine]
  · intro same
    have counted := congrArg (fun map => (OrderedMap.find? map 9).map OrderedMap.size) same
    revert counted
    decide

theorem single_early_vote_recorded :
    (settled plainRules [voteOf 1, proposal, voteOf 2] plainCall).proposalVotes.mapVotes =
        (settled plainRules proposalFirst plainCall).proposalVotes.mapVotes ∧
      (settled plainRules [voteOf 1, proposal, voteOf 2] plainCall).finalizedBudgetVotes.mapVotes =
        (settled plainRules proposalFirst plainCall).finalizedBudgetVotes.mapVotes := by
  apply (early_votes_recorded_iff plainRules [voteOf 1, proposal, voteOf 2] proposalFirst plainCall
    plainCall (List.Perm.swap _ _ _) ⟨by decide, by decide, by decide, List.Pairwise.nil⟩
    (by simp [voteOf_genuine, proposal_genuine])
    (by simp [proposalFirst, voteOf_genuine, proposal_genuine]) proposalFirst_ordered).mpr
  have empty : (runAll (process plainRules) [voteOf 1, proposal, voteOf 2]
      emptyInbox).budget.proposalVotes.mapOrphan.entries = [] := by decide
  have empty' : (runAll (process plainRules) [voteOf 1, proposal, voteOf 2]
      emptyInbox).budget.finalizedBudgetVotes.mapOrphan.entries = [] := by decide
  refine ⟨⟨?_, trivial, ?_, trivial⟩, ?_, ?_⟩
  · change Takes OxidBudgetVotes.mvote plainCall _ (received _)
    unfold Takes Timely
    decide
  · change Takes OxidBudgetVotes.mvote plainCall _ (received _)
    unfold Takes Timely
    decide
  · intro hash vote waiting
    cases waiting
  · intro hash vote waiting
    cases waiting

end Samples

end OxidOrphanVotes
