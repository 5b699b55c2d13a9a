import Oxid.Library.Runs
import Oxid.MasternodePayments

/-!
The votes counted for a payee against the votes kept. The entry a vote is counted in is
found by its script alone.
-/
namespace OxidPaymentTally
open OxidPrimitives OxidMasternode OxidMasternodePayments OrderedMaps Runs

def paymentLimit (size : Nat) : Int := max (size * 5 / 4 : Nat) 1000

def tooOld (nHeight : Int) (size : Nat) (nBlockHeight : Int32) : Bool :=
  decide (nHeight - nBlockHeight.toInt > paymentLimit size)

def dropVotes (old : Int32 → Bool) :
    List (Uint256 × CMasternodePaymentWinner) → CMasternodePayments → CMasternodePayments
  | [], payments => payments
  | (hash, winner) :: rest, payments =>
    if old winner.nBlockHeight then
      dropVotes old rest { payments with
        mapMasternodePayeeVotes := payments.mapMasternodePayeeVotes.erase hash
        mapMasternodeBlocks := payments.mapMasternodeBlocks.erase winner.nBlockHeight }
    else dropVotes old rest payments

/-- `CleanPaymentList`, given the height of the tip when the lock is got and there is one. -/
def cleanPaymentList (tipHeight : Option Int) (size : Nat) (payments : CMasternodePayments) :
    CMasternodePayments :=
  match tipHeight with
  | none => payments
  | some nHeight =>
    dropVotes (tooOld nHeight size) payments.mapMasternodePayeeVotes.entries payments

inductive VoteCall where
  | addWinningMasternode (hash : Uint256) (blockKnown : Bool) (winnerIn : CMasternodePaymentWinner)
  | cleanPaymentList (tipHeight : Option Int) (size : Nat)

def receive : VoteCall → CMasternodePayments → CMasternodePayments
  | .addWinningMasternode hash blockKnown winnerIn, payments =>
    (payments.addWinningMasternode hash blockKnown winnerIn).2
  | .cleanPaymentList tipHeight size, payments => cleanPaymentList tipHeight size payments

def names (height : Int32) (mnTier : UInt32) (payee : CScript)
    (winner : CMasternodePaymentWinner) : Bool :=
  winner.nBlockHeight == height && winner.payeeTier == mnTier && winner.payee == payee

def votesKept (payments : CMasternodePayments) (height : Int32) (mnTier : UInt32)
    (payee : CScript) : Nat :=
  payments.mapMasternodePayeeVotes.entries.countP fun entry => names height mnTier payee entry.2

def payeeVotes (mnTier : UInt32) (payee : CScript) (vecPayments : List CMasternodePayee) : Int32 :=
  match vecPayments.find? fun entry => entry.mnTier == mnTier && entry.scriptPubKey == payee with
  | none => 0
  | some entry => entry.nVotes

def vecPaymentsAt (payments : CMasternodePayments) (height : Int32) : List CMasternodePayee :=
  match payments.mapMasternodeBlocks.find? height with
  | none => []
  | some block => block.vecPayments

def votesCounted (payments : CMasternodePayments) (height : Int32) (mnTier : UInt32)
    (payee : CScript) : Int32 :=
  payeeVotes mnTier payee (vecPaymentsAt payments height)

/-- The counts are those of the votes kept, as 32 bit integers, and both maps have the
    same heights. -/
structure Tallied (payments : CMasternodePayments) : Prop where
  counts : ∀ height mnTier payee, votesCounted payments height mnTier payee =
    Int32.ofNat (votesKept payments height mnTier payee)
  heights : ∀ height, (payments.mapMasternodeBlocks.find? height).isSome = true ↔
    ∃ entry ∈ payments.mapMasternodePayeeVotes.entries, entry.2.nBlockHeight = height

/-- A vote that is added names a script of its own tier: no vote kept for its height
    names the script in another one. -/
def SameTier : VoteCall → CMasternodePayments → Prop
  | .addWinningMasternode hash blockKnown winnerIn, payments =>
    blockKnown = true → payments.mapMasternodePayeeVotes.count hash = false →
      ∀ entry ∈ payments.mapMasternodePayeeVotes.entries,
        entry.2.nBlockHeight = winnerIn.nBlockHeight → entry.2.payee = winnerIn.payee →
          entry.2.payeeTier = winnerIn.payeeTier
  | .cleanPaymentList _ _, _ => True

section Adding

variable {payments : CMasternodePayments} {hash : Uint256} {winner : CMasternodePaymentWinner}
variable {vecPayments : List CMasternodePayee} {mnTier : UInt32} {payee : CScript}

theorem payeeVotes_added
    (sameTier : ∀ entry ∈ vecPayments, entry.scriptPubKey = payee → entry.mnTier = mnTier) :
    payeeVotes mnTier payee (addToPayments mnTier payee 1 vecPayments) =
      payeeVotes mnTier payee vecPayments + 1 := by
  unfold payeeVotes
  induction vecPayments with
  | nil => simp [addToPayments]
  | cons entry rest ih =>
    have later := ih fun other member => sameTier other (by simp [member])
    unfold addToPayments
    by_cases here : entry.scriptPubKey = payee
    · have tier := sameTier entry (by simp) here
      simp [here, tier]
    · rw [if_neg here]
      have passed : (entry.mnTier == mnTier && entry.scriptPubKey == payee) = false := by
        simp [here]
      rw [List.find?_cons_of_neg (by simp [passed]), List.find?_cons_of_neg (by simp [passed])]
      exact later

theorem payeeVotes_other {mnTier otherTier : UInt32} {payee other : CScript}
    (sameTier : ∀ entry ∈ vecPayments, entry.scriptPubKey = payee → entry.mnTier = mnTier)
    (apart : ¬ (otherTier = mnTier ∧ other = payee)) :
    payeeVotes otherTier other (addToPayments mnTier payee 1 vecPayments) =
      payeeVotes otherTier other vecPayments := by
  unfold payeeVotes
  induction vecPayments with
  | nil =>
    have passed : (mnTier == otherTier && payee == other) = false := by
      rw [Bool.and_eq_false_iff]
      by_cases tier : otherTier = mnTier
      · right
        have script : ¬ other = payee := fun same => apart ⟨tier, same⟩
        simpa using fun same => script same.symm
      · left
        simpa using fun same => tier same.symm
    simp only [addToPayments, List.find?_nil]
    rw [List.find?_cons_of_neg (by simp [passed])]
    rfl
  | cons entry rest ih =>
    have later := ih fun item member => sameTier item (by simp [member])
    unfold addToPayments
    by_cases here : entry.scriptPubKey = payee
    · have tier := sameTier entry (by simp) here
      rw [if_pos here]
      have passed : (entry.mnTier == otherTier && entry.scriptPubKey == other) = false := by
        rw [tier, here, Bool.and_eq_false_iff]
        by_cases same : otherTier = mnTier
        · right
          have script : ¬ other = payee := fun equal => apart ⟨same, equal⟩
          simpa using fun equal => script equal.symm
        · left
          simpa using fun equal => same equal.symm
      rw [List.find?_cons_of_neg (by simp [passed]), List.find?_cons_of_neg (by simp [passed])]
    · rw [if_neg here]
      rw [List.find?_cons, List.find?_cons]
      cases entry.mnTier == otherTier && entry.scriptPubKey == other with
      | true => rfl
      | false => exact later

theorem addToPayments_member {entry : CMasternodePayee}
    (member : entry ∈ addToPayments mnTier payee 1 vecPayments) :
    (entry.mnTier = mnTier ∧ entry.scriptPubKey = payee) ∨
      ∃ old ∈ vecPayments, old.mnTier = entry.mnTier ∧ old.scriptPubKey = entry.scriptPubKey := by
  induction vecPayments with
  | nil =>
    unfold addToPayments at member
    rw [List.mem_singleton] at member
    rw [member]
    exact Or.inl ⟨rfl, rfl⟩
  | cons first rest ih =>
    unfold addToPayments at member
    split_ifs at member with here
    · rcases List.mem_cons.mp member with new | old
      · rw [new]
        exact Or.inr ⟨first, by simp, rfl, rfl⟩
      · exact Or.inr ⟨entry, by simp [old], rfl, rfl⟩
    · rcases List.mem_cons.mp member with new | old
      · rw [new]
        exact Or.inr ⟨first, by simp, rfl, rfl⟩
      · rcases ih old with same | ⟨earlier, found, tier, script⟩
        · exact Or.inl same
        · exact Or.inr ⟨earlier, by simp [found], tier, script⟩

theorem vecPaymentsAt_count (height : Int32) :
    vecPaymentsAt (payments.countVote hash winner) height =
      if height = winner.nBlockHeight then
        addToPayments winner.payeeTier winner.payee 1 (vecPaymentsAt payments height)
      else vecPaymentsAt payments height := by
  unfold vecPaymentsAt CMasternodePayments.countVote
  by_cases here : height = winner.nBlockHeight
  · subst here
    rw [OrderedMap.find?_edit_same, if_pos rfl]
    cases payments.mapMasternodeBlocks.find? winner.nBlockHeight with
    | none => rfl
    | some block => rfl
  · rw [OrderedMap.find?_edit_other _ _ here, if_neg here]

theorem votesKept_count (absent : payments.mapMasternodePayeeVotes.count hash = false)
    (height : Int32) (mnTier : UInt32) (payee : CScript) :
    votesKept (payments.countVote hash winner) height mnTier payee =
      votesKept payments height mnTier payee +
        if names height mnTier payee winner = true then 1 else 0 := by
  have none' : payments.mapMasternodePayeeVotes.find? hash = none := by
    unfold OrderedMap.count at absent
    simpa using absent
  have joined := OrderedMap.set_perm winner none'
  unfold votesKept CMasternodePayments.countVote
  rw [joined.countP_eq, List.countP_cons]

end Adding

structure Backed (payments : CMasternodePayments) : Prop extends Tallied payments where
  backed : ∀ height, ∀ entry ∈ vecPaymentsAt payments height,
    ∃ vote ∈ payments.mapMasternodePayeeVotes.entries, vote.2.nBlockHeight = height ∧
      vote.2.payeeTier = entry.mnTier ∧ vote.2.payee = entry.scriptPubKey

section Counting

variable {payments : CMasternodePayments} {hash : Uint256} {winner : CMasternodePaymentWinner}
  (absent : payments.mapMasternodePayeeVotes.count hash = false)
include absent

theorem votes_count (vote : Uint256 × CMasternodePaymentWinner) :
    vote ∈ (payments.countVote hash winner).mapMasternodePayeeVotes.entries ↔
      vote = (hash, winner) ∨ vote ∈ payments.mapMasternodePayeeVotes.entries := by
  have none' : payments.mapMasternodePayeeVotes.find? hash = none := by
    unfold OrderedMap.count at absent
    simpa using absent
  rw [← List.mem_cons]
  exact (OrderedMap.set_perm winner none').mem_iff

theorem counts_count (oneTier : ∀ entry ∈ vecPaymentsAt payments winner.nBlockHeight,
      entry.scriptPubKey = winner.payee → entry.mnTier = winner.payeeTier)
    {height : Int32} {mnTier : UInt32} {payee : CScript}
    (before : votesCounted payments height mnTier payee =
      Int32.ofNat (votesKept payments height mnTier payee)) :
    votesCounted (payments.countVote hash winner) height mnTier payee =
      Int32.ofNat (votesKept (payments.countVote hash winner) height mnTier payee) := by
  unfold votesCounted at before ⊢
  rw [vecPaymentsAt_count, votesKept_count absent]
  unfold names
  by_cases here : height = winner.nBlockHeight
  · subst here
    rw [if_pos rfl]
    by_cases same : mnTier = winner.payeeTier ∧ payee = winner.payee
    · obtain ⟨rfl, rfl⟩ := same
      rw [payeeVotes_added oneTier, before]
      simp [Int32.ofNat_add]
    · rw [payeeVotes_other oneTier same, before]
      have passed : ¬ (winner.payeeTier = mnTier ∧ winner.payee = payee) := by
        rintro ⟨tier, script⟩
        exact same ⟨tier.symm, script.symm⟩
      simp only [beq_self_eq_true, Bool.true_and, Bool.and_eq_true, beq_iff_eq]
      rw [if_neg passed, Nat.add_zero]
  · have away : ¬ winner.nBlockHeight = height := fun same => here same.symm
    rw [if_neg here, before]
    simp [away]

theorem heights_count {height : Int32}
    (before : (payments.mapMasternodeBlocks.find? height).isSome = true ↔
      ∃ entry ∈ payments.mapMasternodePayeeVotes.entries, entry.2.nBlockHeight = height) :
    ((payments.countVote hash winner).mapMasternodeBlocks.find? height).isSome = true ↔
      ∃ entry ∈ (payments.countVote hash winner).mapMasternodePayeeVotes.entries,
        entry.2.nBlockHeight = height := by
  by_cases here : height = winner.nBlockHeight
  · subst here
    constructor
    · intro _
      exact ⟨(hash, winner), (votes_count absent _).mpr (Or.inl rfl), rfl⟩
    · intro _
      unfold CMasternodePayments.countVote
      simp
  · have kept : (payments.countVote hash winner).mapMasternodeBlocks.find? height =
        payments.mapMasternodeBlocks.find? height :=
      OrderedMap.find?_edit_other _ _ here
    rw [kept, before]
    constructor
    · rintro ⟨vote, member, at'⟩
      exact ⟨vote, (votes_count absent vote).mpr (Or.inr member), at'⟩
    · rintro ⟨vote, member, at'⟩
      rcases (votes_count absent vote).mp member with new | old
      · rw [new] at at'
        exact absurd at'.symm here
      · exact ⟨vote, old, at'⟩

theorem backed_count (backed : Backed payments)
    (sameTier : ∀ entry ∈ payments.mapMasternodePayeeVotes.entries,
      entry.2.nBlockHeight = winner.nBlockHeight → entry.2.payee = winner.payee →
        entry.2.payeeTier = winner.payeeTier) :
    Backed (payments.countVote hash winner) := by
  have oneTier : ∀ entry ∈ vecPaymentsAt payments winner.nBlockHeight,
      entry.scriptPubKey = winner.payee → entry.mnTier = winner.payeeTier := by
    intro entry member script
    obtain ⟨vote, kept, height, tier, payee⟩ := backed.backed winner.nBlockHeight entry member
    rw [← tier]
    exact sameTier vote kept height (payee.trans script)
  refine ⟨⟨fun height mnTier payee => counts_count absent oneTier
    (backed.counts height mnTier payee), fun height => heights_count absent
    (backed.heights height)⟩, ?_⟩
  intro height entry member
  rw [vecPaymentsAt_count] at member
  split_ifs at member with here
  · rcases addToPayments_member member with ⟨tier, script⟩ | ⟨old, found, tier, script⟩
    · exact ⟨(hash, winner), (votes_count absent _).mpr (Or.inl rfl), here.symm, tier.symm,
        script.symm⟩
    · obtain ⟨vote, kept, at', voteTier, voteScript⟩ := backed.backed height old found
      exact ⟨vote, (votes_count absent vote).mpr (Or.inr kept), at', voteTier.trans tier,
        voteScript.trans script⟩
  · obtain ⟨vote, kept, rest⟩ := backed.backed height entry member
    exact ⟨vote, (votes_count absent vote).mpr (Or.inr kept), rest⟩

end Counting

section Cleaning

variable {payments : CMasternodePayments} {old : Int32 → Bool}

theorem dropVotes_votes (entries : List (Uint256 × CMasternodePaymentWinner)) :
    (dropVotes old entries payments).mapMasternodePayeeVotes.entries =
      payments.mapMasternodePayeeVotes.entries.filter fun entry =>
        !entries.any fun dropped => old dropped.2.nBlockHeight && place dropped.1 == place entry.1 := by
  induction entries generalizing payments with
  | nil => simp [dropVotes]
  | cons first rest ih =>
    unfold dropVotes
    split_ifs with aged
    · rw [ih]
      simp only [OrderedMap.erase, OrderedMap.filter, List.filter_filter, List.any_cons, aged,
        Bool.true_and]
      congr 1
      funext entry
      rw [Bool.not_or, Bool.and_comm, bne, Bool.beq_comm]
    · rw [ih]
      simp [aged]

theorem dropVotes_blocks (entries : List (Uint256 × CMasternodePaymentWinner)) (height : Int32) :
    (dropVotes old entries payments).mapMasternodeBlocks.find? height =
      if (entries.any fun dropped => old dropped.2.nBlockHeight && dropped.2.nBlockHeight == height) =
        true then none else payments.mapMasternodeBlocks.find? height := by
  induction entries generalizing payments with
  | nil => simp [dropVotes]
  | cons first rest ih =>
    obtain ⟨hash, winner⟩ := first
    unfold dropVotes
    split_ifs with aged dropped dropped
    · rw [ih]
      split_ifs with later
      · rfl
      · have here : winner.nBlockHeight = height := by
          rw [List.any_cons, Bool.or_eq_true, Bool.and_eq_true] at dropped
          rcases dropped with now | after
          · simpa using now.2
          · exact absurd after later
        rw [← here, OrderedMap.find?_erase_same]
    · rw [List.any_cons, Bool.or_eq_true, not_or, aged] at dropped
      rw [ih, if_neg dropped.2]
      have apart : height ≠ winner.nBlockHeight := by
        intro same
        apply dropped.1
        simp [same]
      exact OrderedMap.find?_erase_other _ apart
    · rw [ih]
      simp only [List.any_cons, aged, Bool.false_and, Bool.false_or] at dropped
      rw [if_pos dropped]
    · rw [ih]
      simp only [List.any_cons, aged, Bool.false_and, Bool.false_or] at dropped
      rw [if_neg dropped]

theorem dropVotes_kept :
    (dropVotes old payments.mapMasternodePayeeVotes.entries
      payments).mapMasternodePayeeVotes.entries =
      payments.mapMasternodePayeeVotes.entries.filter fun entry => !old entry.2.nBlockHeight := by
  rw [dropVotes_votes]
  apply List.filter_congr
  intro entry member
  congr 1
  rw [Bool.eq_iff_iff, List.any_eq_true]
  constructor
  · rintro ⟨dropped, found, both⟩
    rw [Bool.and_eq_true, beq_iff_eq] at both
    have one := (payments.mapMasternodePayeeVotes.mem_entries_iff dropped.1 dropped.2).mp found
    have two := (payments.mapMasternodePayeeVotes.mem_entries_iff entry.1 entry.2).mp member
    rw [MapKey.apart both.2, two, Option.some_inj] at one
    rw [one]
    exact both.1
  · intro aged
    exact ⟨entry, member, by simp [aged]⟩

theorem block_dropped (backed : Backed payments) (height : Int32) :
    (dropVotes old payments.mapMasternodePayeeVotes.entries payments).mapMasternodeBlocks.find?
      height = if old height = true then none else payments.mapMasternodeBlocks.find? height := by
  rw [@dropVotes_blocks payments old payments.mapMasternodePayeeVotes.entries height]
  split_ifs with dropped aged young
  · rfl
  · rw [List.any_eq_true] at dropped
    obtain ⟨entry, _, both⟩ := dropped
    rw [Bool.and_eq_true, beq_iff_eq] at both
    rw [both.2] at both
    exact absurd both.1 aged
  · rw [← Option.not_isSome_iff_eq_none, backed.heights]
    rintro ⟨entry, member, here⟩
    apply dropped
    rw [List.any_eq_true]
    exact ⟨entry, member, by simp [here, young]⟩
  · rfl

theorem votesKept_dropped (height : Int32) (mnTier : UInt32) (payee : CScript) :
    votesKept (dropVotes old payments.mapMasternodePayeeVotes.entries payments) height mnTier
      payee = if old height = true then 0 else votesKept payments height mnTier payee := by
  unfold votesKept
  rw [dropVotes_kept, List.countP_filter]
  split_ifs with aged
  · rw [List.countP_eq_zero]
    intro entry _ both
    unfold names at both
    simp only [Bool.and_eq_true, beq_iff_eq, Bool.not_eq_true'] at both
    rw [both.1.1.1, aged] at both
    cases both.2
  · apply List.countP_congr
    intro entry _
    unfold names
    simp only [Bool.and_eq_true, beq_iff_eq, Bool.not_eq_true']
    constructor
    · exact fun both => both.1
    · intro named
      exact ⟨named, by rw [named.1.1]; exact eq_false_of_ne_true aged⟩

theorem backed_drop (backed : Backed payments) :
    Backed (dropVotes old payments.mapMasternodePayeeVotes.entries payments) := by
  have blocks := @block_dropped payments old backed
  constructor
  · constructor
    · intro height mnTier payee
      have before := backed.counts height mnTier payee
      unfold votesCounted vecPaymentsAt at before ⊢
      rw [votesKept_dropped, blocks]
      split_ifs with aged
      · rfl
      · exact before
    · intro height
      rw [dropVotes_kept, blocks]
      split_ifs with aged
      · constructor
        · nofun
        · rintro ⟨entry, member, here⟩
          rw [List.mem_filter, here, aged] at member
          cases member.2
      · rw [backed.heights height]
        constructor
        · rintro ⟨entry, member, here⟩
          exact ⟨entry, List.mem_filter.mpr ⟨member, by simpa [here] using aged⟩, here⟩
        · rintro ⟨entry, member, here⟩
          exact ⟨entry, List.mem_of_mem_filter member, here⟩
  · intro height entry member
    rw [dropVotes_kept]
    unfold vecPaymentsAt at member
    rw [blocks] at member
    split_ifs at member with aged
    · cases member
    · obtain ⟨vote, found, here, rest⟩ := backed.backed height entry member
      exact ⟨vote, List.mem_filter.mpr ⟨found, by simpa [here] using aged⟩, here, rest⟩

end Cleaning

theorem backed_receive (call : VoteCall) (payments : CMasternodePayments)
    (backed : Backed payments) (sameTier : SameTier call payments) :
    Backed (receive call payments) := by
  cases call with
  | addWinningMasternode hash blockKnown winnerIn =>
    unfold receive CMasternodePayments.addWinningMasternode
    dsimp only
    split_ifs with unknown known
    · exact backed
    · exact backed
    · exact backed_count (by simpa using known) backed
        (sameTier (by simpa using unknown) (by simpa using known))
  | cleanPaymentList tipHeight size =>
    cases tipHeight with
    | none => exact backed
    | some nHeight => exact backed_drop backed

theorem backed_empty : Backed ⟨∅, ∅, ∅⟩ := by
  constructor
  · constructor
    · intro height mnTier payee
      rfl
    · intro height
      simp [EmptyCollection.emptyCollection, OrderedMap.empty, OrderedMap.find?,
        OrderedMap.findEntry]
  · intro height entry member
    simp [vecPaymentsAt] at member

/-- Over any calls, as long as every vote added is for a script that no vote of its
    height names in another tier. -/
theorem votes_tallied (calls : List VoteCall) (sameTier : AlongAll receive SameTier calls ⟨∅, ∅, ∅⟩) :
    Tallied (runAll receive calls ⟨∅, ∅, ∅⟩) :=
  (runAll_invariant backed_receive calls backed_empty sameTier).toTallied

section Samples

def sampleWinner (voter : Uint256) (mnTier : UInt32) : CMasternodePaymentWinner :=
  ⟨⟨⟨voter, 0⟩, [], 0xffffffff⟩, 200, [0x51], [], mnTier⟩

def oneTierCalls : List VoteCall :=
  [.addWinningMasternode 1 true (sampleWinner 1 MASTERNODE),
    .addWinningMasternode 2 true (sampleWinner 2 MASTERNODE),
    .cleanPaymentList (some 300) 4]

theorem one_tier_tallied : Tallied (runAll receive oneTierCalls ⟨∅, ∅, ∅⟩) := by
  apply votes_tallied
  refine ⟨?_, ?_, trivial, trivial⟩
  · intro _ _ entry member
    cases member
  · intro _ _
    decide

def twoTierCalls : List VoteCall :=
  [.addWinningMasternode 1 true (sampleWinner 1 MASTERNODE),
    .addWinningMasternode 2 true (sampleWinner 2 SUPERNODE)]

theorem two_tiers_merged : ¬ Tallied (runAll receive twoTierCalls ⟨∅, ∅, ∅⟩) := by
  intro tallied
  have counts := tallied.counts 200 SUPERNODE [0x51]
  revert counts
  decide

end Samples

end OxidPaymentTally
