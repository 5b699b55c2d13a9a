import Mathlib.Data.UInt
import Oxid.Library.Runs
import Oxid.MasternodePayments

/-!
Who voted for whom, over runs of the `mnw` handler. A poll keeps beside the node's state
what its maps do not: every permission asked for, which of them were counted, and which were
turned away although the masternode had not voted.
-/
namespace OxidPaymentVotes
open OxidPrimitives OxidMasternode OxidMasternodeMan OxidMasternodePayments OrderedMaps Runs

structure Ballot where
  out : COutPoint
  mnTier : UInt32
  height : Int32
  payee : CScript
deriving DecidableEq, Repr

def ballotOf (winner : CMasternodePaymentWinner) : Ballot :=
  ⟨winner.vinMasternode.prevout, winner.payeeTier, winner.nBlockHeight, winner.payee⟩

def Ballot.key (ballot : Ballot) : Uint256 := voteKey ballot.out ballot.mnTier

/-- What a masternode may do once: vote in a tier for a height. -/
def Ballot.seat (ballot : Ballot) : COutPoint × UInt32 × Int32 :=
  (ballot.out, ballot.mnTier, ballot.height)

structure Poll where
  state : MnwState
  asked : List Ballot
  counted : List Ballot
  turnedAway : List Ballot

def Poll.hasVoted (poll : Poll) (ballot : Ballot) : Bool :=
  poll.asked.any fun earlier => earlier.seat == ballot.seat

def Poll.receive (call : MnwCall) (rules : MnwRules) (received : CMasternodePaymentWinner)
    (poll : Poll) : Poll :=
  let (outcome, state) := processMnw call rules received poll.state
  match (call.prepares rules received poll.state).1 with
  | .error _ => { poll with state := state }
  | .ok winner =>
    { state := state
      asked := ballotOf winner :: poll.asked
      counted := if outcome = .added then ballotOf winner :: poll.counted else poll.counted
      turnedAway :=
        if outcome = .alreadyVoted ∧ poll.hasVoted (ballotOf winner) = false then
          ballotOf winner :: poll.turnedAway
        else poll.turnedAway }

def Opens (poll : Poll) : Prop :=
  poll.state.payments = ⟨∅, ∅, ∅⟩ ∧ poll.asked = [] ∧ poll.counted = [] ∧ poll.turnedAway = []

inductive Continues (rules : MnwRules) : Poll → Poll → Prop where
  | receive (poll : Poll) (call : MnwCall) (received : CMasternodePaymentWinner) :
      Continues rules poll (poll.receive call rules received)
  | elsewhere (poll : Poll) (man : CMasternodeMan) :
      Continues rules poll { poll with state := { poll.state with mnodeman := man } }

def tierAt (payments : CMasternodePayments) (height : Int32) (payee : CScript) : Option UInt32 :=
  (payments.mapMasternodeBlocks.find? height).bind fun block =>
    (block.payeeEntry payee).map CMasternodePayee.mnTier

def Poll.countedFor (poll : Poll) (height : Int32) (mnTier : UInt32) : List COutPoint :=
  (poll.counted.filter fun ballot =>
    ballot.height == height &&
      tierAt poll.state.payments height ballot.payee == some mnTier).map Ballot.out

structure OneVoteEach (poll : Poll) : Prop where
  once (height : Int32) (mnTier : UInt32) (out : COutPoint) :
    (poll.countedFor height mnTier).count out ≤ 1
  heard : poll.turnedAway = []

/-- A ballot asked for in a poll, when no two masternodes share a key, nobody comes
    back to a height after asking for another, and a payee's tier does not change
    within a height. -/
structure InOrder (poll : Poll) (ballot : Ballot) : Prop where
  ownKey : ∀ earlier ∈ poll.asked, earlier.key = ballot.key → earlier.out = ballot.out
  noReturn : ∀ earlier ∈ poll.asked, earlier.seat = ballot.seat →
    (poll.asked.find? fun last => last.key == ballot.key).map Ballot.height = some ballot.height
  sameTier : ∀ mnTier, tierAt poll.state.payments ballot.height ballot.payee = some mnTier →
    mnTier = ballot.mnTier

def StaysInOrder (poll next : Poll) : Prop :=
  ∀ ballot, next.asked = ballot :: poll.asked → InOrder poll ballot

theorem payeeEntry_addPayee_same (block : CMasternodeBlockPayees) (mnTier : UInt32)
    (payee : CScript) (votes : Int32) :
    ((block.addPayee mnTier payee votes).payeeEntry payee).map CMasternodePayee.mnTier =
      some (((block.payeeEntry payee).map CMasternodePayee.mnTier).getD mnTier) := by
  simp only [CMasternodeBlockPayees.addPayee, CMasternodeBlockPayees.payeeEntry]
  induction block.vecPayments with
  | nil => simp [addToPayments]
  | cons entry rest ih =>
    simp only [addToPayments]
    by_cases same : entry.scriptPubKey = payee
    · rw [if_pos same]
      simp [same]
    · rw [if_neg same]
      simpa [same] using ih

theorem payeeEntry_addPayee_other (block : CMasternodeBlockPayees) (mnTier : UInt32)
    {payee other : CScript} (votes : Int32) (different : other ≠ payee) :
    (block.addPayee mnTier payee votes).payeeEntry other = block.payeeEntry other := by
  simp only [CMasternodeBlockPayees.addPayee, CMasternodeBlockPayees.payeeEntry]
  induction block.vecPayments with
  | nil => simp [addToPayments, Ne.symm different]
  | cons entry rest ih =>
    simp only [addToPayments]
    by_cases same : entry.scriptPubKey = payee
    · rw [if_pos same]
      have away : entry.scriptPubKey ≠ other := fun at_other => different (at_other.symm.trans same)
      simp [away]
    · rw [if_neg same]
      by_cases found : entry.scriptPubKey = other
      · simp [found]
      · simp only [List.find?_cons, ih]

theorem tierAt_countVote_same (payments : CMasternodePayments) (hash : Uint256)
    (winner : CMasternodePaymentWinner) :
    tierAt (payments.countVote hash winner) winner.nBlockHeight winner.payee =
      some ((tierAt payments winner.nBlockHeight winner.payee).getD winner.payeeTier) := by
  simp only [tierAt, CMasternodePayments.countVote, OrderedMap.find?_edit_same, Option.bind_some,
    payeeEntry_addPayee_same]
  cases payments.mapMasternodeBlocks.find? winner.nBlockHeight with
  | none => rfl
  | some block => rfl

theorem tierAt_countVote_other (payments : CMasternodePayments) (hash : Uint256)
    (winner : CMasternodePaymentWinner) {height : Int32} {payee : CScript} {mnTier : UInt32}
    (entered : tierAt payments height payee = some mnTier) :
    tierAt (payments.countVote hash winner) height payee = some mnTier := by
  by_cases sameHeight : height = winner.nBlockHeight
  · subst sameHeight
    by_cases samePayee : payee = winner.payee
    · subst samePayee
      rw [tierAt_countVote_same, entered]
      rfl
    · simp only [tierAt, CMasternodePayments.countVote, OrderedMap.find?_edit_same,
        Option.bind_some, payeeEntry_addPayee_other _ _ _ samePayee]
      simp only [tierAt] at entered
      cases found : payments.mapMasternodeBlocks.find? winner.nBlockHeight with
      | none => simp [found] at entered
      | some block => simpa [found] using entered
  · simpa only [tierAt, CMasternodePayments.countVote,
      OrderedMap.find?_edit_other _ _ sameHeight] using entered

theorem voteKey_tier {out : COutPoint} {first second : UInt32}
    (same : voteKey out first = voteKey out second) : first = second := by
  have tiers : BitVec.ofNat 256 first.toNat = BitVec.ofNat 256 second.toNat :=
    add_left_cancel same
  have firstBound := first.toNat_lt
  have secondBound := second.toNat_lt
  have numbers := congrArg BitVec.toNat tiers
  simp only [BitVec.toNat_ofNat] at numbers
  apply UInt32.toNat_inj.mp
  omega

structure Tallied (poll : Poll) : Prop where
  recorded (key : Uint256) : poll.state.payments.mapMasternodesLastVote.find? key =
    (poll.asked.find? fun last => last.key == key).map Ballot.height
  entered : ∀ ballot ∈ poll.counted,
    tierAt poll.state.payments ballot.height ballot.payee = some ballot.mnTier
  permitted : ∀ ballot ∈ poll.counted, ballot ∈ poll.asked
  seats : (poll.counted.map Ballot.seat).Nodup
  heard : poll.turnedAway = []

variable {poll : Poll} {rules : MnwRules} {received : CMasternodePaymentWinner} {call : MnwCall}
variable {later : MnwState}

theorem opens_tallied (opens : Opens poll) : Tallied poll := by
  obtain ⟨empty, noneAsked, noneCounted, noneAway⟩ := opens
  constructor
  · intro key
    rw [empty, noneAsked]
    rfl
  · simp [noneCounted]
  · simp [noneCounted]
  · simp [noneCounted]
  · exact noneAway

section
variable (tallied : Tallied poll)
include tallied

variable {ballot : Ballot}

theorem refused_voted (order : InOrder poll ballot)
    (standing : poll.state.payments.mapMasternodesLastVote.find? ballot.key = some ballot.height) :
    poll.hasVoted ballot = true := by
  rw [tallied.recorded] at standing
  obtain ⟨last, found, atHeight⟩ := Option.map_eq_some_iff.mp standing
  have member := List.mem_of_find?_eq_some found
  have sameKey : last.key = ballot.key := by simpa using List.find?_some found
  have sameOut := order.ownKey last member sameKey
  have sameTier : last.mnTier = ballot.mnTier := by
    simp only [Ballot.key, sameOut] at sameKey
    exact voteKey_tier sameKey
  apply List.any_eq_true.mpr
  apply Exists.intro last
  simp [member, Ballot.seat, sameOut, sameTier, atHeight]

theorem free_seat (order : InOrder poll ballot)
    (free : poll.state.payments.mapMasternodesLastVote.find? ballot.key ≠ some ballot.height) :
    ballot.seat ∉ poll.counted.map Ballot.seat := by
  intro taken
  obtain ⟨earlier, counted, sameSeat⟩ := List.mem_map.mp taken
  apply free
  rw [tallied.recorded]
  exact order.noReturn earlier (tallied.permitted earlier counted) sameSeat

theorem recorded_ask (ballot : Ballot) (key : Uint256) :
    (poll.state.payments.recordVote ballot.key ballot.height).mapMasternodesLastVote.find? key =
      ((ballot :: poll.asked).find? fun last => last.key == key).map Ballot.height := by
  simp only [CMasternodePayments.recordVote, List.find?_cons]
  by_cases same : key = ballot.key
  · subst same
    simp
  · have away : (ballot.key == key) = false := by simpa using Ne.symm same
    simp only [OrderedMap.find?_set_other _ _ same, away, tallied.recorded]

theorem recorded_again
    (standing : poll.state.payments.mapMasternodesLastVote.find? ballot.key = some ballot.height)
    (key : Uint256) :
    poll.state.payments.mapMasternodesLastVote.find? key =
      ((ballot :: poll.asked).find? fun last => last.key == key).map Ballot.height := by
  simp only [List.find?_cons]
  by_cases same : key = ballot.key
  · subst same
    simpa using standing
  · have away : (ballot.key == key) = false := by simpa using Ne.symm same
    simp only [away, tallied.recorded]

theorem tallied_state {state : MnwState} (same : state.payments = poll.state.payments) :
    Tallied { poll with state := state } := by
  constructor
  · intro key
    rw [same]
    exact tallied.recorded key
  · intro ballot counted
    rw [same]
    exact tallied.entered ballot counted
  · exact tallied.permitted
  · exact tallied.seats
  · exact tallied.heard

theorem tallied_refused
    (standing : poll.state.payments.mapMasternodesLastVote.find? ballot.key = some ballot.height) :
    Tallied { poll with asked := ballot :: poll.asked } := by
  constructor
  · intro key
    exact recorded_again tallied standing key
  · exact tallied.entered
  · intro other counted
    exact List.mem_cons_of_mem _ (tallied.permitted other counted)
  · exact tallied.seats
  · exact tallied.heard

theorem tallied_asked (ballot : Ballot) (man : CMasternodeMan) :
    Tallied { poll with
      state := ⟨man, poll.state.payments.recordVote ballot.key ballot.height⟩
      asked := ballot :: poll.asked } := by
  constructor
  · intro key
    exact recorded_ask tallied ballot key
  · exact tallied.entered
  · intro other counted
    exact List.mem_cons_of_mem _ (tallied.permitted other counted)
  · exact tallied.seats
  · exact tallied.heard

theorem tallied_counted (winner : CMasternodePaymentWinner) (hash : Uint256)
    (asked : ballotOf winner ∈ poll.asked)
    (open_seat : (ballotOf winner).seat ∉ poll.counted.map Ballot.seat)
    (sameTier : ∀ mnTier, tierAt poll.state.payments winner.nBlockHeight winner.payee =
      some mnTier → mnTier = winner.payeeTier) :
    Tallied { poll with
      state := ⟨poll.state.mnodeman, poll.state.payments.countVote hash winner⟩
      counted := ballotOf winner :: poll.counted } := by
  constructor
  · exact tallied.recorded
  · intro ballot counted
    rcases List.mem_cons.mp counted with new | old
    · subst new
      apply (tierAt_countVote_same poll.state.payments hash winner).trans
      cases standing : tierAt poll.state.payments winner.nBlockHeight winner.payee with
      | none => rfl
      | some mnTier => rw [sameTier mnTier standing]; rfl
    · exact tierAt_countVote_other _ _ _ (tallied.entered ballot old)
  · intro ballot counted
    rcases List.mem_cons.mp counted with new | old
    · exact new ▸ asked
    · exact tallied.permitted ballot old
  · exact List.nodup_cons.mpr ⟨open_seat, tallied.seats⟩
  · exact tallied.heard

end

theorem receive_error {outcome : MnwOutcome}
    (early : call.prepares rules received poll.state = (.error outcome, later)) :
    poll.receive call rules received = { poll with state := later } := by
  simp only [Poll.receive, processMnw, early]

theorem receive_ok {received winner : CMasternodePaymentWinner}
    (ready : call.prepares rules received poll.state = (.ok winner, later)) :
    poll.receive call rules received =
      { state := (call.casts rules winner later).2
        asked := ballotOf winner :: poll.asked
        counted := if (call.casts rules winner later).1 = .added then
          ballotOf winner :: poll.counted else poll.counted
        turnedAway := if (call.casts rules winner later).1 = .alreadyVoted ∧
            poll.hasVoted (ballotOf winner) = false then
          ballotOf winner :: poll.turnedAway else poll.turnedAway } := by
  simp only [Poll.receive, processMnw, ready]

theorem cast_tallied {winner : CMasternodePaymentWinner} {result : MnwOutcome × MnwState}
    (tallied : Tallied poll) (order : InOrder poll (ballotOf winner))
    (cast : Casts rules winner poll.state result) :
    Tallied
      { state := result.2
        asked := ballotOf winner :: poll.asked
        counted := if result.1 = .added then ballotOf winner :: poll.counted else poll.counted
        turnedAway := if result.1 = .alreadyVoted ∧ poll.hasVoted (ballotOf winner) = false then
          ballotOf winner :: poll.turnedAway else poll.turnedAway } := by
  cases cast with
  | refused standing =>
    have voted := refused_voted tallied order standing
    rw [if_neg (by simp), if_neg (by simp [voted])]
    exact tallied_refused tallied standing
  | dropped outcome man free why =>
    have away : outcome ≠ .added ∧ outcome ≠ .alreadyVoted := by
      rcases why with bad | unknown
      · subst bad
        decide
      · subst unknown
        decide
    simp only [if_neg away.1, away.2, false_and, if_false]
    exact tallied_asked tallied (ballotOf winner) man
  | counted free =>
    exact tallied_counted (tallied_asked tallied (ballotOf winner) poll.state.mnodeman) winner
      (rules.getHash winner) List.mem_cons_self (free_seat tallied order free) order.sameTier

theorem receive_tallied (tallied : Tallied poll)
    (stays : StaysInOrder poll (poll.receive call rules received)) :
    Tallied (poll.receive call rules received) := by
  have votes := prepares_payments call rules received poll.state
  cases ready : call.prepares rules received poll.state with
  | mk verdict later =>
    rw [ready] at votes
    cases verdict with
    | error outcome =>
      rw [receive_error ready]
      exact tallied_state tallied votes
    | ok winner =>
      rw [receive_ok ready] at stays ⊢
      have order := stays (ballotOf winner) rfl
      have prepared : Tallied { poll with state := later } := tallied_state tallied votes
      have stillInOrder : InOrder { poll with state := later } (ballotOf winner) := by
        constructor
        · exact order.ownKey
        · exact order.noReturn
        · intro mnTier standing
          rw [votes] at standing
          exact order.sameTier mnTier standing
      have cast := cast_tallied prepared stillInOrder (casts_cases call rules winner later)
      exact cast

theorem continues_tallied {poll next : Poll} (tallied : Tallied poll)
    (taken : Continues rules poll next) (stays : StaysInOrder poll next) : Tallied next := by
  cases taken with
  | receive call received => exact receive_tallied tallied stays
  | elsewhere man =>
    exact ⟨tallied.recorded, tallied.entered, tallied.permitted, tallied.seats, tallied.heard⟩

theorem tallied_once (tallied : Tallied poll) (height : Int32) (mnTier : UInt32) :
    (poll.countedFor height mnTier).Nodup := by
  have distinct : ((poll.counted.filter fun ballot => ballot.height == height &&
      tierAt poll.state.payments height ballot.payee == some mnTier).map Ballot.seat).Nodup :=
    tallied.seats.sublist (List.Sublist.map _ List.filter_sublist)
  have seats : (poll.counted.filter fun ballot => ballot.height == height &&
      tierAt poll.state.payments height ballot.payee == some mnTier).map Ballot.seat =
      (poll.countedFor height mnTier).map fun out => (out, mnTier, height) := by
    rw [Poll.countedFor, List.map_map]
    apply List.map_congr_left
    intro ballot member
    obtain ⟨counted, test⟩ := List.mem_filter.mp member
    simp only [Bool.and_eq_true, beq_iff_eq] at test
    have entered := tallied.entered ballot counted
    rw [test.1, test.2] at entered
    cases entered
    simp [Ballot.seat, test.1]
  rw [seats] at distinct
  exact distinct.of_map

def plainRules : MnwRules where
  winnerHash content := BitVec.ofNat 256 (content.1.sum.toNat + 1000 * content.2.1.toInt.toNat)
  scriptForKey key := key.bytes

def readyCall : MnwCall where
  blockchainSynced := true
  liteMode := false
  peerVersion := 70003
  activeProtocol := 70003
  tipHeight := some 10
  time := 0
  collateralOutputs hash :=
    if hash = 8 then some [⟨2500000000000, [], -10⟩] else some [⟨500000000000, [], -10⟩]
  countEnabled _ := 0
  getMasternodeRank _ _ := 1
  getBlockHash _ := some 0
  verifyMessage _ _ _ := true

def numberedKey (number : UInt8) : CPubKey := ⟨2 :: number :: List.replicate 31 0, rfl⟩

def masternodeAt (out : COutPoint) (number : UInt8) : CMasternode :=
  { CMasternode.fresh 0 with
    vin := ⟨out, [], 0xffffffff⟩
    pubKeyCollateralAddress := numberedKey number }

def voters : CMasternodeMan :=
  { twoEntries with
    vMasternodes := [masternodeAt ⟨7, 0⟩ 1, masternodeAt ⟨7, 1⟩ 2, masternodeAt ⟨8, 0⟩ 3,
      masternodeAt ⟨9, 0⟩ 4, masternodeAt ⟨10, 0⟩ 5] }

def openPoll : Poll := ⟨⟨voters, ⟨∅, ∅, ∅⟩⟩, [], [], []⟩

def voteFor (out : COutPoint) (height : Int32) (number : UInt8) : CMasternodePaymentWinner :=
  ⟨⟨out, [], 0xffffffff⟩, height, (numberedKey number).bytes, [], UNKNOWN⟩

def votes (winners : List CMasternodePaymentWinner) : Poll :=
  winners.foldl (fun poll winner => poll.receive readyCall plainRules winner) openPoll

theorem openPoll_opens : Opens openPoll := ⟨rfl, rfl, rfl, rfl⟩

theorem votes_reachable (winners : List CMasternodePaymentWinner) :
    Reachable Opens (Continues plainRules) (votes winners) := by
  have later : ∀ poll, Reachable Opens (Continues plainRules) poll →
      Reachable Opens (Continues plainRules) (winners.foldl
        (fun poll winner => poll.receive readyCall plainRules winner) poll) := by
    induction winners with
    | nil => exact fun _ reached => reached
    | cons winner rest ih =>
      intro poll reached
      exact ih _ (.step reached (.receive poll readyCall winner))
  exact later openPoll (.start openPoll_opens)

end OxidPaymentVotes
