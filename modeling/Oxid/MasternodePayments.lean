import Oxid.MasternodeMan

/-!
Votes of masternodes for who is paid at a height: the three maps that keep them and the
handler of a received `mnw` message. What the handler asks the rest of the node comes with
the call. A message's hash and the script that pays a key are parameters.
-/
namespace OxidMasternodePayments
open OxidPrimitives OxidMasternode OxidMasternodeMan OrderedMaps

def MNPAYMENTS_SIGNATURES_TOTAL : Int := 10
def MASTERNODE_MIN_MNP_SECONDS : Int := 10 * 60

structure CMasternodePayee where
  scriptPubKey : CScript
  nVotes : Int32
  mnTier : UInt32
deriving DecidableEq, Repr

structure CMasternodeBlockPayees where
  nBlockHeight : Int32
  vecPayments : List CMasternodePayee
deriving DecidableEq, Repr

/-- The payments after a vote for a payee: an entry is found by its script alone. -/
def addToPayments (mnTier : UInt32) (payeeIn : CScript) (nIncrement : Int32) :
    List CMasternodePayee → List CMasternodePayee
  | [] => [⟨payeeIn, nIncrement, mnTier⟩]
  | payee :: rest =>
    if payee.scriptPubKey = payeeIn then { payee with nVotes := payee.nVotes + nIncrement } :: rest
    else payee :: addToPayments mnTier payeeIn nIncrement rest

def CMasternodeBlockPayees.addPayee (block : CMasternodeBlockPayees) (mnTier : UInt32)
    (payeeIn : CScript) (nIncrement : Int32) : CMasternodeBlockPayees :=
  { block with vecPayments := addToPayments mnTier payeeIn nIncrement block.vecPayments }

def CMasternodeBlockPayees.payeeEntry (block : CMasternodeBlockPayees) (payee : CScript) :
    Option CMasternodePayee :=
  block.vecPayments.find? fun entry => entry.scriptPubKey == payee

structure CMasternodePaymentWinner where
  vinMasternode : CTxIn
  nBlockHeight : Int32
  payee : CScript
  vchSig : List UInt8
  payeeTier : UInt32
deriving DecidableEq, Repr

structure CMasternodePayments where
  mapMasternodePayeeVotes : OrderedMap Uint256 CMasternodePaymentWinner
  mapMasternodeBlocks : OrderedMap Int32 CMasternodeBlockPayees
  mapMasternodesLastVote : OrderedMap Uint256 Int32

def voteKey (outMasternode : COutPoint) (mnTier : UInt32) : Uint256 :=
  outMasternode.hash + BitVec.ofNat 256 outMasternode.n.toNat + BitVec.ofNat 256 mnTier.toNat

namespace CMasternodePayments

def recordVote (payments : CMasternodePayments) (key : Uint256) (nBlockHeight : Int32) :
    CMasternodePayments :=
  { payments with mapMasternodesLastVote := payments.mapMasternodesLastVote.set key nBlockHeight }

/-- Whether the masternode may vote. A permission is recorded as it is given. -/
def canVote (payments : CMasternodePayments) (outMasternode : COutPoint) (nBlockHeight : Int32)
    (mnTier : UInt32) : Bool × CMasternodePayments :=
  let key := voteKey outMasternode mnTier
  if payments.mapMasternodesLastVote.find? key = some nBlockHeight then (false, payments)
  else (true, payments.recordVote key nBlockHeight)

def countVote (payments : CMasternodePayments) (hash : Uint256)
    (winnerIn : CMasternodePaymentWinner) : CMasternodePayments :=
  { payments with
    mapMasternodePayeeVotes := payments.mapMasternodePayeeVotes.set hash winnerIn
    mapMasternodeBlocks := payments.mapMasternodeBlocks.edit winnerIn.nBlockHeight
      fun block => (block.getD ⟨winnerIn.nBlockHeight, []⟩).addPayee
        winnerIn.payeeTier winnerIn.payee 1 }

/-- `AddWinningMasternode`, given the winner's hash and whether the hash of the block
    a hundred heights earlier is known. -/
def addWinningMasternode (payments : CMasternodePayments) (hash : Uint256) (blockKnown : Bool)
    (winnerIn : CMasternodePaymentWinner) : Bool × CMasternodePayments :=
  if !blockKnown then (false, payments)
  else if payments.mapMasternodePayeeVotes.count hash then (false, payments)
  else (true, payments.countVote hash winnerIn)

end CMasternodePayments

structure MnwCall where
  blockchainSynced : Bool
  liteMode : Bool
  peerVersion : Int32
  activeProtocol : Int32
  /-- The height of the tip, when the lock is got and there is one. -/
  tipHeight : Option Int
  time : Int64
  /-- The outputs of the transaction with this hash, when it is found in an active block. -/
  collateralOutputs : Uint256 → Option (List CTxOut)
  countEnabled : UInt32 → Int
  getMasternodeRank : CTxIn → Int → Int
  getBlockHash : Int → Option Uint256
  verifyMessage : CPubKey → List UInt8 → COutPoint × Int32 × CScript → Bool

/-- What the whole node shares: how a vote is hashed and how a key is paid. -/
structure MnwRules where
  winnerHash : CScript × Int32 × COutPoint → Uint256
  scriptForKey : CPubKey → CScript

def MnwRules.getHash (rules : MnwRules) (winner : CMasternodePaymentWinner) : Uint256 :=
  rules.winnerHash (winner.payee, winner.nBlockHeight, winner.vinMasternode.prevout)

structure MnwState where
  mnodeman : CMasternodeMan
  payments : CMasternodePayments

inductive MnwOutcome where
  | ignored
  | unknownPayee
  | noTransaction
  | unknownTier
  | alreadySeen
  | invalid
  | outOfRange
  | alreadyVoted
  | badSignature
  | notAdded
  | added
deriving DecidableEq, Repr

def askForMN (time : Int64) (vin : CTxIn) (man : CMasternodeMan) : CMasternodeMan :=
  let asked := man.mWeAskedForMasternodeListEntry.find? vin.prevout
  if asked.any fun again => decide (time < again) then man
  else { man with
    mWeAskedForMasternodeListEntry := man.mWeAskedForMasternodeListEntry.set vin.prevout
      (time + Int64.ofInt MASTERNODE_MIN_MNP_SECONDS) }

/-- `GetMasternodeTransaction`, as the deposit it sets: the value of the first output
    of the collateral transaction that has a tier. -/
def MnwCall.masternodeDeposit (call : MnwCall) (mn : CMasternode) : Option Int :=
  (call.collateralOutputs mn.vin.prevout.hash).bind fun outs =>
    (outs.map CTxOut.nValue).find? CMasternode.hasValidCollateral

def setDeposit (position : Nat) (deposit : Int) (man : CMasternodeMan) : CMasternodeMan :=
  { man with
    vMasternodes := man.vMasternodes.modify position fun mn => { mn with deposit := deposit } }

def MnwCall.isValid (call : MnwCall) (man : CMasternodeMan) (winner : CMasternodePaymentWinner) :
    Bool × CMasternodeMan :=
  match man.find winner.vinMasternode with
  | none => (false, askForMN call.time winner.vinMasternode man)
  | some pmn =>
    if pmn.protocolVersion < call.activeProtocol then (false, man)
    else
      (decide (call.getMasternodeRank winner.vinMasternode (winner.nBlockHeight.toInt - 100) ≤
        MNPAYMENTS_SIGNATURES_TOTAL), man)

def MnwCall.inRange (call : MnwCall) (nHeight : Int) (winner : CMasternodePaymentWinner) : Bool :=
  let nFirstBlock := nHeight - (call.countEnabled winner.payeeTier).tdiv 100 * 125
  !(decide (winner.nBlockHeight.toInt < nFirstBlock) ||
    decide (nHeight + 20 < winner.nBlockHeight.toInt))

def MnwCall.signatureValid (call : MnwCall) (man : CMasternodeMan)
    (winner : CMasternodePaymentWinner) : Bool :=
  match man.find winner.vinMasternode with
  | none => false
  | some pmn =>
    call.verifyMessage pmn.pubKeyMasternode winner.vchSig
      (winner.vinMasternode.prevout, winner.nBlockHeight, winner.payee)

/-- The checks on a vote whose payee's tier is known, up to the permission to vote:
    the outcome when one fails. The source asks `IsValid` before and after the range. -/
def MnwCall.admits (call : MnwCall) (rules : MnwRules) (nHeight : Int)
    (winner : CMasternodePaymentWinner) (state : MnwState) : Option MnwOutcome × MnwState :=
  if state.payments.mapMasternodePayeeVotes.count (rules.getHash winner) then
    (some .alreadySeen, state)
  else
    let (valid, man) := call.isValid state.mnodeman winner
    if !valid then (some .invalid, { state with mnodeman := man })
    else if !call.inRange nHeight winner then (some .outOfRange, { state with mnodeman := man })
    else
      let (stillValid, man) := call.isValid man winner
      (if !stillValid then some .invalid else none, { state with mnodeman := man })

def MnwCall.casts (call : MnwCall) (rules : MnwRules) (winner : CMasternodePaymentWinner)
    (state : MnwState) : MnwOutcome × MnwState :=
  let (granted, payments) := state.payments.canVote winner.vinMasternode.prevout
    winner.nBlockHeight winner.payeeTier
  if !granted then (.alreadyVoted, state)
  else if !call.signatureValid state.mnodeman winner then
    (.badSignature, ⟨askForMN call.time winner.vinMasternode state.mnodeman, payments⟩)
  else
    let blockKnown := (call.getBlockHash (winner.nBlockHeight.toInt - 100)).isSome
    let (added, payments) :=
      payments.addWinningMasternode (rules.getHash winner) blockKnown winner
    (if added then .added else .notAdded, ⟨state.mnodeman, payments⟩)

def MnwCall.payeeDeposit (call : MnwCall) (rules : MnwRules) (man : CMasternodeMan)
    (payee : CScript) : Except MnwOutcome (Nat × Int) :=
  let pays (mn : CMasternode) : Bool := rules.scriptForKey mn.pubKeyCollateralAddress == payee
  match man.vMasternodes.findIdx? pays with
  | none => .error .unknownPayee
  | some position =>
    match man.vMasternodes[position]?.bind call.masternodeDeposit with
    | none => .error .noTransaction
    | some deposit => .ok (position, deposit)

/-- The handler up to the permission to vote: the vote with its payee's tier, or the
    outcome that ends it earlier. -/
def MnwCall.prepares (call : MnwCall) (rules : MnwRules) (received : CMasternodePaymentWinner)
    (state : MnwState) : Except MnwOutcome CMasternodePaymentWinner × MnwState :=
  if !call.blockchainSynced || call.liteMode then (.error .ignored, state)
  else if call.peerVersion < call.activeProtocol then (.error .ignored, state)
  else
    match call.tipHeight with
    | none => (.error .ignored, state)
    | some nHeight =>
      match call.payeeDeposit rules state.mnodeman received.payee with
      | .error outcome => (.error outcome, state)
      | .ok (position, deposit) =>
        let state := { state with mnodeman := setDeposit position deposit state.mnodeman }
        if CMasternode.tierOf deposit = UNKNOWN then (.error .unknownTier, state)
        else
          let winner := { received with payeeTier := CMasternode.tierOf deposit }
          match call.admits rules nHeight winner state with
          | (some outcome, state) => (.error outcome, state)
          | (none, state) => (.ok winner, state)

/-- `ProcessMessageMasternodePayments` on an `mnw` message. -/
def processMnw (call : MnwCall) (rules : MnwRules) (received : CMasternodePaymentWinner)
    (state : MnwState) : MnwOutcome × MnwState :=
  match call.prepares rules received state with
  | (.error outcome, state) => (outcome, state)
  | (.ok winner, state) => call.casts rules winner state

theorem admits_payments {call : MnwCall} {rules : MnwRules} {nHeight : Int}
    {winner : CMasternodePaymentWinner} {state later : MnwState} {verdict : Option MnwOutcome}
    (admitted : call.admits rules nHeight winner state = (verdict, later)) :
    later.payments = state.payments := by
  have kept : (call.admits rules nHeight winner state).2.payments = state.payments := by
    simp only [MnwCall.admits]
    split
    · rfl
    · split
      · rfl
      · split <;> rfl
  rwa [admitted] at kept

theorem prepares_payments (call : MnwCall) (rules : MnwRules)
    (received : CMasternodePaymentWinner) (state : MnwState) :
    (call.prepares rules received state).2.payments = state.payments := by
  simp only [MnwCall.prepares]
  split
  · rfl
  · split
    · rfl
    · split
      · rfl
      · split
        · rfl
        · split
          · rfl
          · split
            · rename_i admitted
              have kept := admits_payments admitted
              exact kept
            · rename_i admitted
              have kept := admits_payments admitted
              exact kept

theorem prepares_ok {call : MnwCall} {rules : MnwRules} {received winner : CMasternodePaymentWinner}
    {state later : MnwState} (ready : call.prepares rules received state = (.ok winner, later)) :
    winner = { received with payeeTier := winner.payeeTier } ∧ winner.payeeTier ≠ UNKNOWN := by
  simp only [MnwCall.prepares] at ready
  split at ready
  · cases ready
  · split at ready
    · cases ready
    · split at ready
      · cases ready
      · split at ready
        · cases ready
        · split at ready
          · cases ready
          · rename_i known
            split at ready
            · cases ready
            · cases ready
              exact ⟨rfl, known⟩

/-- What a vote that asks for permission does: it is refused for the recorded height;
    or the permission is recorded, and the vote is dropped or counted. -/
inductive Casts (rules : MnwRules) (winner : CMasternodePaymentWinner) (state : MnwState) :
    MnwOutcome × MnwState → Prop where
  | refused
      (standing : state.payments.mapMasternodesLastVote.find?
        (voteKey winner.vinMasternode.prevout winner.payeeTier) = some winner.nBlockHeight) :
      Casts rules winner state (.alreadyVoted, state)
  | dropped (outcome : MnwOutcome) (man : CMasternodeMan)
      (free : state.payments.mapMasternodesLastVote.find?
        (voteKey winner.vinMasternode.prevout winner.payeeTier) ≠ some winner.nBlockHeight)
      (why : outcome = .badSignature ∨ outcome = .notAdded) :
      Casts rules winner state (outcome, ⟨man, state.payments.recordVote
        (voteKey winner.vinMasternode.prevout winner.payeeTier) winner.nBlockHeight⟩)
  | counted
      (free : state.payments.mapMasternodesLastVote.find?
        (voteKey winner.vinMasternode.prevout winner.payeeTier) ≠ some winner.nBlockHeight) :
      Casts rules winner state (.added, ⟨state.mnodeman, (state.payments.recordVote
        (voteKey winner.vinMasternode.prevout winner.payeeTier) winner.nBlockHeight).countVote
          (rules.getHash winner) winner⟩)

theorem casts_cases (call : MnwCall) (rules : MnwRules) (winner : CMasternodePaymentWinner)
    (state : MnwState) : Casts rules winner state (call.casts rules winner state) := by
  simp only [MnwCall.casts, CMasternodePayments.canVote]
  split
  · rename_i standing
    exact .refused standing
  · rename_i free
    simp only [Bool.not_true, Bool.false_eq_true, if_false]
    split
    · exact .dropped _ _ free (.inl rfl)
    · simp only [CMasternodePayments.addWinningMasternode]
      split
      · exact .dropped _ _ free (.inr rfl)
      · split
        · exact .dropped _ _ free (.inr rfl)
        · exact .counted free

end OxidMasternodePayments
