import Oxid.Library.ShiftingErase
import Oxid.Library.OrderedMap
import Oxid.Primitives

/-!
A masternode entry and what happens to a single one: its tier, its periodic check, and the
assignment by which a vector moves it. Locks are left out, and a failed `TRY_LOCK` is an
outcome the caller is given. Clocks and lookups come with the call.
-/
namespace OxidMasternode
open OxidPrimitives

def MASTERNODE_CHECK_SECONDS : Int := 5
def MASTERNODE_EXPIRATION_SECONDS : Int := 30 * 60
def MASTERNODE_REMOVAL_SECONDS : Int := 40 * 60

def MASTERNODE_PRE_ENABLED : Int32 := 0
def MASTERNODE_ENABLED : Int32 := 1
def MASTERNODE_EXPIRED : Int32 := 2
def MASTERNODE_OUTPOINT_SPENT : Int32 := 3
def MASTERNODE_REMOVE : Int32 := 4
def MASTERNODE_WATCHDOG_EXPIRED : Int32 := 5
def MASTERNODE_POSE_BAN : Int32 := 6
def MASTERNODE_VIN_SPENT : Int32 := 7
def MASTERNODE_POS_ERROR : Int32 := 8

/-- The `nodeTier` values. -/
def UNKNOWN : UInt32 := 0
def MASTERNODE : UInt32 := 1
def SUPERNODE : UInt32 := 2

def MASTERNODE_COLLATERAL : Int := 5000
def SUPERNODE_COLLATERAL : Int := 25000

def PROTOCOL_VERSION : Int32 := 70003

def getLen : List UInt8 → Nat
  | [] => 0
  | header :: _ =>
    if header == 2 || header == 3 then 33
    else if header == 4 || header == 6 || header == 7 then 65
    else 0

/-- A public key up to the source's equality: the bytes its header announces. An
    invalid key announces none. -/
structure CPubKey where
  bytes : List UInt8
  sized : bytes.length = getLen bytes
deriving DecidableEq

def CPubKey.invalid : CPubKey := ⟨[], rfl⟩

structure CNetAddr where
  ip : BitVec 128
deriving DecidableEq, Repr

structure CService extends CNetAddr where
  port : UInt16
deriving DecidableEq, Repr

def CTxIn.fresh : CTxIn := ⟨COutPoint.null, [], 0xffffffff⟩

structure CMasternodePing where
  vin : CTxIn
  blockHash : Uint256
  sigTime : Int64
  vchSig : List UInt8
deriving DecidableEq, Repr

def CMasternodePing.fresh : CMasternodePing := ⟨CTxIn.fresh, 0, 0, []⟩

def CMasternodePing.same (a b : CMasternodePing) : Bool :=
  a.vin == b.vin && a.blockHash == b.blockHash

structure CMasternode where
  vin : CTxIn
  addr : CService
  pubKeyCollateralAddress : CPubKey
  pubKeyMasternode : CPubKey
  pubKeyCollateralAddress1 : CPubKey
  pubKeyMasternode1 : CPubKey
  sig : List UInt8
  activeState : Int32
  deposit : Int
  sigTime : Int64
  cacheInputAge : Int32
  cacheInputAgeBlock : Int32
  unitTest : Bool
  allowFreeTx : Bool
  protocolVersion : Int32
  nActiveState : Int32
  nLastDsq : Int64
  nScanningErrorCount : Int32
  nLastScanningErrorBlockHeight : Int32
  lastPing : CMasternodePing
  nLastDsee : Int64
  nLastDseep : Int64
  lastTimeChecked : Int64
deriving DecidableEq

structure CMasternodeBroadcast extends CMasternode
deriving DecidableEq

namespace CMasternode

def fresh (adjustedTime : Int64) : CMasternode where
  vin := CTxIn.fresh
  addr := ⟨⟨0⟩, 0⟩
  pubKeyCollateralAddress := .invalid
  pubKeyMasternode := .invalid
  pubKeyCollateralAddress1 := .invalid
  pubKeyMasternode1 := .invalid
  sig := []
  activeState := MASTERNODE_ENABLED
  deposit := 0
  sigTime := adjustedTime
  cacheInputAge := 0
  cacheInputAgeBlock := 0
  unitTest := false
  allowFreeTx := true
  protocolVersion := PROTOCOL_VERSION
  nActiveState := MASTERNODE_ENABLED
  nLastDsq := 0
  nScanningErrorCount := 0
  nLastScanningErrorBlockHeight := 0
  lastPing := .fresh
  nLastDsee := 0
  nLastDseep := 0
  lastTimeChecked := 0

/-- The copy constructor. It sets the second state and the check time anew, and
    leaves the second pair of keys at their default. -/
def copied (other : CMasternode) : CMasternode :=
  { other with
    pubKeyCollateralAddress1 := .invalid
    pubKeyMasternode1 := .invalid
    nActiveState := MASTERNODE_ENABLED
    lastTimeChecked := 0 }

def swap (first second : CMasternode) : CMasternode × CMasternode :=
  ({ first with
      vin := second.vin
      addr := second.addr
      pubKeyCollateralAddress := second.pubKeyCollateralAddress
      pubKeyMasternode := second.pubKeyMasternode
      sig := second.sig
      activeState := second.activeState
      sigTime := second.sigTime
      lastPing := second.lastPing
      cacheInputAge := second.cacheInputAge
      cacheInputAgeBlock := second.cacheInputAgeBlock
      unitTest := second.unitTest
      allowFreeTx := second.allowFreeTx
      protocolVersion := second.protocolVersion
      nLastDsq := second.nLastDsq
      nScanningErrorCount := second.nScanningErrorCount
      nLastScanningErrorBlockHeight := second.nLastScanningErrorBlockHeight },
    { second with
      vin := first.vin
      addr := first.addr
      pubKeyCollateralAddress := first.pubKeyCollateralAddress
      pubKeyMasternode := first.pubKeyMasternode
      sig := first.sig
      activeState := first.activeState
      sigTime := first.sigTime
      lastPing := first.lastPing
      cacheInputAge := first.cacheInputAge
      cacheInputAgeBlock := first.cacheInputAgeBlock
      unitTest := first.unitTest
      allowFreeTx := first.allowFreeTx
      protocolVersion := first.protocolVersion
      nLastDsq := first.nLastDsq
      nScanningErrorCount := first.nScanningErrorCount
      nLastScanningErrorBlockHeight := first.nLastScanningErrorBlockHeight })

/-- `operator=`: the argument arrives as a copy and is swapped in. -/
def assign (target source : CMasternode) : CMasternode := (swap target source.copied).1

/-- `mnTier(CAmount)`. -/
def tierOf (vinValue : Int) : UInt32 :=
  if vinValue = MASTERNODE_COLLATERAL * COIN then MASTERNODE
  else if vinValue = SUPERNODE_COLLATERAL * COIN then SUPERNODE
  else UNKNOWN

def mnTier (mn : CMasternode) : UInt32 := tierOf mn.deposit

def hasValidCollateral (vinValue : Int) : Bool := tierOf vinValue != UNKNOWN

def isEnabled (mn : CMasternode) : Bool := mn.activeState == MASTERNODE_ENABLED

def isPingedWithin (mn : CMasternode) (seconds now : Int) : Bool :=
  if mn.lastPing.same .fresh then false else decide (now - mn.lastPing.sigTime.toInt < seconds)

end CMasternode

/-- What one `Check` call finds around it: the clocks, the value of the output a
    transaction lookup finds, and the mempool's answers. -/
structure CheckCall where
  forceCheck : Bool
  shutdownRequested : Bool
  time : Int64
  adjustedTime : Int64
  prevoutValue : COutPoint → Option Int
  collateralPubKey : CScript
  lockMain : Bool
  acceptableInputs : CTransaction → Bool

def CheckCall.hasValidCollateral (call : CheckCall) (vin : CTxIn) : Option Int :=
  (call.prevoutValue vin.prevout).filter CMasternode.hasValidCollateral

def CheckCall.checkCollateralInTx (call : CheckCall) (vin : CTxIn) : Option CTransaction :=
  (call.hasValidCollateral vin).map fun mnCollateral =>
    { nVersion := 1
      vin := [vin]
      vout := [⟨mnCollateral - COIN / 100, call.collateralPubKey, -10⟩]
      nLockTime := 0 }

namespace CMasternode

def checkedState (call : CheckCall) (mn : CMasternode) : Int32 :=
  if mn.activeState = MASTERNODE_VIN_SPENT then MASTERNODE_VIN_SPENT
  else if !mn.isPingedWithin MASTERNODE_REMOVAL_SECONDS call.adjustedTime.toInt then
    MASTERNODE_REMOVE
  else if !mn.isPingedWithin MASTERNODE_EXPIRATION_SECONDS call.adjustedTime.toInt then
    MASTERNODE_EXPIRED
  else if mn.unitTest then MASTERNODE_ENABLED
  else
    match call.checkCollateralInTx mn.vin with
    | none => MASTERNODE_VIN_SPENT
    | some tx =>
      if !call.lockMain then mn.activeState
      else if !call.acceptableInputs tx then MASTERNODE_VIN_SPENT
      else MASTERNODE_ENABLED

def check (call : CheckCall) (mn : CMasternode) : CMasternode :=
  if call.shutdownRequested then mn
  else if !call.forceCheck &&
      decide (call.time.toInt - mn.lastTimeChecked.toInt < MASTERNODE_CHECK_SECONDS) then mn
  else { mn with lastTimeChecked := call.time, activeState := checkedState call mn }

end CMasternode

/-- The members `swap` does not list. -/
structure Unlisted where
  deposit : Int
  nActiveState : Int32
  lastTimeChecked : Int64
  nLastDsee : Int64
  nLastDseep : Int64
  pubKeyCollateralAddress1 : CPubKey
  pubKeyMasternode1 : CPubKey
deriving DecidableEq

def CMasternode.unlisted (mn : CMasternode) : Unlisted where
  deposit := mn.deposit
  nActiveState := mn.nActiveState
  lastTimeChecked := mn.lastTimeChecked
  nLastDsee := mn.nLastDsee
  nLastDseep := mn.nLastDseep
  pubKeyCollateralAddress1 := mn.pubKeyCollateralAddress1
  pubKeyMasternode1 := mn.pubKeyMasternode1

/-- An entry with the given members in place of its unlisted ones. -/
def CMasternode.withUnlisted (mn : CMasternode) (members : Unlisted) : CMasternode :=
  { mn with
    deposit := members.deposit
    nActiveState := members.nActiveState
    lastTimeChecked := members.lastTimeChecked
    nLastDsee := members.nLastDsee
    nLastDseep := members.nLastDseep
    pubKeyCollateralAddress1 := members.pubKeyCollateralAddress1
    pubKeyMasternode1 := members.pubKeyMasternode1 }

def CMasternode.listed (mn : CMasternode) : CMasternode :=
  mn.withUnlisted (CMasternode.fresh 0).unlisted

theorem listed_withUnlisted (mn : CMasternode) (members : Unlisted) :
    (mn.withUnlisted members).listed = mn.listed := rfl

theorem assign_eq (target source : CMasternode) :
    target.assign source = source.withUnlisted target.unlisted := rfl

theorem assign_splits :
    ShiftingErase.Splits CMasternode.assign CMasternode.listed CMasternode.unlisted where
  moved target source := by rw [assign_eq, listed_withUnlisted]
  kept target source := by
    rfl
  whole a b sameListed sameUnlisted := by
    have rebuilt : ∀ mn : CMasternode, mn.listed.withUnlisted mn.unlisted = mn := fun _ => rfl
    rw [← rebuilt a, ← rebuilt b, sameListed, sameUnlisted]

end OxidMasternode
