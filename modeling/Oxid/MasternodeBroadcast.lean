import Oxid.MasternodePayments

/-!
The handler of a received `mnb` message. What the handler asks the rest of the node comes
with the call. Hashes and the script that pays a key are parameters. The list the
synchronisation keeps of what it has seen, peers' scores beyond the one a refusal sets, the
address book and the activation of the node's own masternode are not part of this state.
-/
namespace OxidMasternodeBroadcast
open OxidPrimitives OxidMapKeys OxidMasternode OxidMasternodeMan OxidMasternodePayments OrderedMaps

def MASTERNODE_MIN_CONFIRMATIONS : Int := 15
def MASTERNODE_MIN_MNB_SECONDS : Int := 5 * 60

structure BroadcastContent where
  addr : CService
  sigTime : Int64
  pubKeyCollateralAddress : CPubKey
  pubKeyMasternode : CPubKey
  protocolVersion : Int32
deriving DecidableEq

structure MnbRules where
  broadcastHash : Int64 × CPubKey → Uint256
  pingHash : CTxIn × Int64 → Uint256
  scriptForKey : CPubKey → CScript

structure MnbCall where
  liteMode : Bool
  blockchainSynced : Bool
  minProto : Int32
  /-- The surroundings of a `Check`, and of the collateral's check when it is added. -/
  check : CheckCall
  vinAssociated : CTxIn → CPubKey → Bool
  masternodeMode : Bool
  activeVin : CTxIn
  activePubKey : CPubKey
  inputAge : CTxIn → Int
  /-- The time of the block that gave the collateral enough confirmations, when the
      collateral's own block is known. -/
  confirmedAt : CTxIn → Option Int64
  blockHeight : Uint256 → Option Int
  chainHeight : Int
  isLocal : CService → Bool
  verifyMessage : CPubKey → List UInt8 → BroadcastContent → Bool
  verifyPing : CPubKey → List UInt8 → CTxIn × Uint256 × Int64 → Bool

def broadcastContent (mnb : CMasternodeBroadcast) : BroadcastContent where
  addr := mnb.addr
  sigTime := mnb.sigTime
  pubKeyCollateralAddress := mnb.pubKeyCollateralAddress
  pubKeyMasternode := mnb.pubKeyMasternode
  protocolVersion := mnb.protocolVersion

def MnbRules.getHash (rules : MnbRules) (mn : CMasternode) : Uint256 :=
  rules.broadcastHash (mn.sigTime, mn.pubKeyCollateralAddress)

def MnbRules.getPingHash (rules : MnbRules) (ping : CMasternodePing) : Uint256 :=
  rules.pingHash (ping.vin, ping.sigTime)

inductive Relayed where
  | broadcast (hash : Uint256)
  | ping (hash : Uint256)
deriving DecidableEq, Repr

inductive MnbOutcome where
  | ignored
  | alreadySeen
  | refused (nDoS : Nat)
  | mismatched
  | rejected
  | accepted
deriving DecidableEq, Repr

def amendFirst (vin : CTxIn) (change : CMasternode → CMasternode) :
    List CMasternode → List CMasternode
  | [] => []
  | mn :: rest =>
    if mn.vin.prevout = vin.prevout then change mn :: rest else mn :: amendFirst vin change rest

def amend (vin : CTxIn) (change : CMasternode → CMasternode) (man : CMasternodeMan) :
    CMasternodeMan :=
  { man with vMasternodes := amendFirst vin change man.vMasternodes }

def withPing (ping : CMasternodePing) (mn : CMasternode) : CMasternode :=
  { mn with lastPing := ping }

def enabledAt (vin : CTxIn) (man : CMasternodeMan) : Bool :=
  (man.find vin).any CMasternode.isEnabled

def refreshSeen (hash : Uint256) (ping : CMasternodePing) (man : CMasternodeMan) :
    CMasternodeMan :=
  if man.mapSeenMasternodeBroadcast.count hash then
    { man with
      mapSeenMasternodeBroadcast := man.mapSeenMasternodeBroadcast.edit hash fun standing =>
        let mnb := standing.getD ⟨CMasternode.fresh 0⟩
        { mnb with lastPing := ping } }
  else man

namespace MnbCall
variable (call : MnbCall) (rules : MnbRules)

def adjustedTime : Int := call.check.adjustedTime.toInt

def forcedCheck : CheckCall := { call.check with forceCheck := true }

def pingChecks (fRequireEnabled : Bool) (ping : CMasternodePing) (pmn : CMasternode) : Bool :=
  !decide (pmn.protocolVersion < call.minProto) &&
  !(fRequireEnabled && !pmn.isEnabled) &&
  !pmn.isPingedWithin (MASTERNODE_MIN_MNP_SECONDS - 60) ping.sigTime.toInt &&
  call.verifyPing pmn.pubKeyMasternode ping.vchSig (ping.vin, ping.blockHash, ping.sigTime) &&
  (match call.blockHeight ping.blockHash with
    | none => false
    | some nHeight => !decide (nHeight < call.chainHeight - 24))

/-- `CMasternodePing::CheckAndUpdate`: whether the ping is accepted, what is passed
    on, and the manager it leaves. -/
def pingCheckAndUpdate (fRequireEnabled : Bool) (ping : CMasternodePing) (man : CMasternodeMan) :
    (Bool × List Relayed) × CMasternodeMan :=
  if call.adjustedTime + 60 * 60 < ping.sigTime.toInt ||
      decide (ping.sigTime.toInt ≤ call.adjustedTime - 60 * 60) then ((false, []), man)
  else
    match man.find ping.vin with
    | none => ((false, []), man)
    | some pmn =>
      if call.pingChecks fRequireEnabled ping pmn then
        let man := refreshSeen (rules.getHash pmn) ping (amend ping.vin (withPing ping) man)
        let man := amend ping.vin (CMasternode.check call.forcedCheck) man
        if enabledAt ping.vin man then ((true, [.ping (rules.getPingHash ping)]), man)
        else ((false, []), man)
      else ((false, []), man)

def renewed (mnb : CMasternodeBroadcast) (mn : CMasternode) : CMasternode :=
  { mn with
    pubKeyMasternode := mnb.pubKeyMasternode
    pubKeyCollateralAddress := mnb.pubKeyCollateralAddress
    sigTime := mnb.sigTime
    sig := mnb.sig
    protocolVersion := mnb.protocolVersion
    addr := mnb.addr
    lastTimeChecked := 0 }

def takePing (mnb : CMasternodeBroadcast) (man : CMasternodeMan) : CMasternodeMan :=
  let man := amend mnb.vin (withPing mnb.lastPing) man
  { man with
    mapSeenMasternodePing :=
      man.mapSeenMasternodePing.insert (rules.getPingHash mnb.lastPing) mnb.lastPing }

def updateFromNewBroadcast (mnb : CMasternodeBroadcast) (man : CMasternodeMan) :
    List Relayed × CMasternodeMan :=
  let man := amend mnb.vin (renewed mnb) man
  if mnb.lastPing.same .fresh then ([], takePing rules mnb man)
  else
    let ((pinged, relayed), man) := call.pingCheckAndUpdate rules false mnb.lastPing man
    (relayed, if pinged then takePing rules mnb man else man)

/-- The checks on a broadcast that do not look at the list: what a refusal scores. -/
def refusal (mnb : CMasternodeBroadcast) : Option Nat :=
  if call.adjustedTime + 60 * 60 < mnb.sigTime.toInt then some 1
  else if mnb.protocolVersion < call.minProto then some 0
  else if (rules.scriptForKey mnb.pubKeyCollateralAddress).length ≠ 25 then some 100
  else if (rules.scriptForKey mnb.pubKeyMasternode).length ≠ 25 then some 100
  else if mnb.vin.scriptSig ≠ [] then some 0
  else if !call.verifyMessage mnb.pubKeyCollateralAddress mnb.sig (broadcastContent mnb) then some 100
  else none

def isBroadcastedWithin (mn : CMasternode) (seconds : Int) : Bool :=
  decide (call.adjustedTime - mn.sigTime.toInt < seconds)

def updateEntry (mnb : CMasternodeBroadcast) (pmn : CMasternode) (man : CMasternodeMan) :
    List Relayed × CMasternodeMan :=
  if pmn.sigTime < mnb.sigTime then
    let (relayed, man) := call.updateFromNewBroadcast rules mnb man
    let man := amend mnb.vin (CMasternode.check call.check) man
    (relayed ++ (if enabledAt mnb.vin man then
      [.broadcast (rules.getHash mnb.toCMasternode)] else []), man)
  else ([], man)

/-- `CMasternodeBroadcast::CheckAndUpdate`: the refusal, what is passed on, and the
    manager it leaves. -/
def checkAndUpdate (mnb : CMasternodeBroadcast) (man : CMasternodeMan) :
    (Option Nat × List Relayed) × CMasternodeMan :=
  match call.refusal rules mnb with
  | some nDoS => ((some nDoS, []), man)
  | none =>
    match man.find mnb.vin with
    | none => ((none, []), man)
    | some pmn =>
      if mnb.sigTime < pmn.sigTime then ((some 0, []), man)
      else if !pmn.isEnabled then ((none, []), man)
      else if pmn.pubKeyCollateralAddress = mnb.pubKeyCollateralAddress &&
          !call.isBroadcastedWithin pmn MASTERNODE_MIN_MNB_SECONDS then
        let (relayed, man) := call.updateEntry rules mnb pmn man
        ((none, relayed), man)
      else ((none, []), man)

def fromBroadcast (mnb : CMasternodeBroadcast) : CMasternode :=
  { CMasternode.fresh 0 with
    vin := mnb.vin
    addr := mnb.addr
    pubKeyCollateralAddress := mnb.pubKeyCollateralAddress
    pubKeyMasternode := mnb.pubKeyMasternode
    sig := mnb.sig
    deposit := (call.check.hasValidCollateral mnb.vin).getD 0
    sigTime := mnb.sigTime
    lastPing := mnb.lastPing
    protocolVersion := mnb.protocolVersion
    nLastDsq := mnb.nLastDsq }

inductive Standing where
  | bad
  | later
  | good
deriving DecidableEq, Repr

def standing (mnb : CMasternodeBroadcast) : Standing :=
  match call.check.checkCollateralInTx mnb.vin with
  | none => .bad
  | some tx =>
    if !call.check.lockMain then .later
    else if !call.check.acceptableInputs tx then .bad
    else if call.inputAge mnb.vin < MASTERNODE_MIN_CONFIRMATIONS then .later
    else if (call.confirmedAt mnb.vin).any fun time => decide (mnb.sigTime < time) then .bad
    else .good

def isOwn (mnb : CMasternodeBroadcast) : Bool :=
  call.masternodeMode && mnb.vin.prevout == call.activeVin.prevout &&
    mnb.pubKeyMasternode == call.activePubKey

def addsEntry (mnb : CMasternodeBroadcast) (man : CMasternodeMan) :
    (Bool × List Relayed) × CMasternodeMan :=
  match call.standing mnb with
  | .bad => ((false, []), man)
  | .later =>
    ((false, []), { man with
      mapSeenMasternodeBroadcast :=
        man.mapSeenMasternodeBroadcast.erase (rules.getHash mnb.toCMasternode) })
  | .good =>
    ((true, if call.isLocal mnb.addr then [] else
      [.broadcast (rules.getHash mnb.toCMasternode)]), man.add (call.fromBroadcast mnb))

def checkInputsAndAdd (mnb : CMasternodeBroadcast) (man : CMasternodeMan) :
    (Bool × List Relayed) × CMasternodeMan :=
  if call.isOwn mnb then ((true, []), man)
  else
    match man.find mnb.vin with
    | none => call.addsEntry rules mnb man
    | some pmn =>
      if pmn.isEnabled then ((true, []), man)
      else call.addsEntry rules mnb (man.remove pmn.vin)

def checksBroadcast (mnb : CMasternodeBroadcast) (man : CMasternodeMan) :
    (MnbOutcome × List Relayed) × CMasternodeMan :=
  match call.checkAndUpdate rules mnb man with
  | ((some nDoS, relayed), man) => ((.refused nDoS, relayed), man)
  | ((none, relayed), man) =>
    if !call.vinAssociated mnb.vin mnb.pubKeyCollateralAddress then ((.mismatched, relayed), man)
    else
      let ((added, more), man) := call.checkInputsAndAdd rules mnb man
      ((if added then .accepted else .rejected, relayed ++ more), man)

end MnbCall

def noteSeen (rules : MnbRules) (mnb : CMasternodeBroadcast) (man : CMasternodeMan) :
    CMasternodeMan :=
  { man with
    mapSeenMasternodeBroadcast :=
      man.mapSeenMasternodeBroadcast.set (rules.getHash mnb.toCMasternode) mnb }

/-- `CMasternodeMan::ProcessMessage` on an `mnb` message: the outcome, what is passed
    on, and the manager it leaves. -/
def processMnb (call : MnbCall) (rules : MnbRules) (mnb : CMasternodeBroadcast)
    (man : CMasternodeMan) : (MnbOutcome × List Relayed) × CMasternodeMan :=
  if call.liteMode || !call.blockchainSynced then ((.ignored, []), man)
  else if man.mapSeenMasternodeBroadcast.count (rules.getHash mnb.toCMasternode) then
    ((.alreadySeen, []), man)
  else
    call.checksBroadcast rules mnb (noteSeen rules mnb man)

end OxidMasternodeBroadcast
