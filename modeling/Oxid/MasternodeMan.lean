import Oxid.MapKeys
import Oxid.Masternode

/-!
The list of masternodes the node keeps, and the two operations that take entries off it.
Both erase from the middle of a vector, and assignment leaves out what `swap` does not list.
The synchronisation map that follows the seen broadcasts is not part of this state.
-/
namespace OxidMasternodeMan
open OxidPrimitives OxidMasternode OrderedMaps ShiftingErase

instance : MapKey CNetAddr where
  place addr := addr.ip.toNat
  apart := by
    intro a b same
    cases a
    cases b
    exact congrArg CNetAddr.mk (BitVec.eq_of_toNat_eq same)

structure CMasternodeMan where
  vMasternodes : List CMasternode
  mAskedUsForMasternodeList : OrderedMap CNetAddr Int64
  mWeAskedForMasternodeList : OrderedMap CNetAddr Int64
  mWeAskedForMasternodeListEntry : OrderedMap COutPoint Int64
  nDsqCount : Int64
  mapSeenMasternodeBroadcast : OrderedMap Uint256 CMasternodeBroadcast
  mapSeenMasternodePing : OrderedMap Uint256 CMasternodePing

namespace CMasternodeMan

def check (calls : Nat → CheckCall) (man : CMasternodeMan) : CMasternodeMan :=
  { man with vMasternodes := man.vMasternodes.mapIdx fun i mn => mn.check (calls i) }

def outdated (forceExpiredRemoval : Bool) (minProto : Int32) (mn : CMasternode) : Bool :=
  mn.activeState == MASTERNODE_REMOVE ||
  mn.activeState == MASTERNODE_VIN_SPENT ||
  (forceExpiredRemoval && mn.activeState == MASTERNODE_EXPIRED) ||
  decide (mn.protocolVersion < minProto)

def forget (man : CMasternodeMan) (removed : CMasternode) : CMasternodeMan :=
  { man with
    mapSeenMasternodeBroadcast :=
      man.mapSeenMasternodeBroadcast.filter fun entry => entry.2.vin != removed.vin
    mWeAskedForMasternodeListEntry :=
      man.mWeAskedForMasternodeListEntry.filter fun entry => entry.1 != removed.vin.prevout }

def removeOutdated (forceExpiredRemoval : Bool) (minProto : Int32) (man : CMasternodeMan) :
    CMasternodeMan :=
  let scan := eraseAll CMasternode.assign (outdated forceExpiredRemoval minProto) man.vMasternodes
  scan.2.foldl forget { man with vMasternodes := scan.1 }

def dropStale (time : Int64) (man : CMasternodeMan) : CMasternodeMan :=
  let stale (since : Int64) : Bool :=
    decide (since.toInt < time.toInt - MASTERNODE_REMOVAL_SECONDS * 2)
  { man with
    mAskedUsForMasternodeList :=
      man.mAskedUsForMasternodeList.filter fun entry => !decide (entry.2 < time)
    mWeAskedForMasternodeList :=
      man.mWeAskedForMasternodeList.filter fun entry => !decide (entry.2 < time)
    mWeAskedForMasternodeListEntry :=
      man.mWeAskedForMasternodeListEntry.filter fun entry => !decide (entry.2 < time)
    mapSeenMasternodeBroadcast :=
      man.mapSeenMasternodeBroadcast.filter fun entry => !stale entry.2.lastPing.sigTime
    mapSeenMasternodePing :=
      man.mapSeenMasternodePing.filter fun entry => !stale entry.2.sigTime }

def checkAndRemove (calls : Nat → CheckCall) (forceExpiredRemoval : Bool) (minProto : Int32)
    (time : Int64) (man : CMasternodeMan) : CMasternodeMan :=
  dropStale time (removeOutdated forceExpiredRemoval minProto (check calls man))

def remove (vin : CTxIn) (man : CMasternodeMan) : CMasternodeMan :=
  { man with
    vMasternodes := eraseFirst CMasternode.assign (fun mn => mn.vin == vin) man.vMasternodes }

def find (man : CMasternodeMan) (vin : CTxIn) : Option CMasternode :=
  man.vMasternodes.find? fun mn => mn.vin.prevout == vin.prevout

def add (mn : CMasternode) (man : CMasternodeMan) : CMasternodeMan :=
  if !mn.isEnabled then man
  else if (man.find mn.vin).isSome then man
  else { man with vMasternodes := man.vMasternodes ++ [mn] }

@[simp] theorem forget_vMasternodes (removed : List CMasternode) (man : CMasternodeMan) :
    (removed.foldl forget man).vMasternodes = man.vMasternodes := by
  induction removed generalizing man with
  | nil => rfl
  | cons mn rest ih =>
    rw [List.foldl_cons, ih]
    rfl

end CMasternodeMan

inductive Removal where
  | checkAndRemove (calls : Nat → CheckCall) (forceExpiredRemoval : Bool) (minProto : Int32)
      (time : Int64)
  | remove (vin : CTxIn)

namespace Removal

def run (man : CMasternodeMan) : Removal → CMasternodeMan
  | .checkAndRemove calls force minProto time => man.checkAndRemove calls force minProto time
  | .remove vin => man.remove vin

/-- The entries the removal finds: for `CheckAndRemove`, those its `Check` left. -/
def standing (man : CMasternodeMan) : Removal → List CMasternode
  | .checkAndRemove calls _ _ _ => (man.check calls).vMasternodes
  | .remove _ => man.vMasternodes

def survivors (man : CMasternodeMan) : Removal → List CMasternode
  | .checkAndRemove calls force minProto _ =>
    (man.check calls).vMasternodes.filter fun mn => !CMasternodeMan.outdated force minProto mn
  | .remove vin => man.vMasternodes.eraseP fun mn => mn.vin == vin

end Removal

theorem outdated_listed (force : Bool) (minProto : Int32) (mn : CMasternode) :
    CMasternodeMan.outdated force minProto mn = CMasternodeMan.outdated force minProto mn.listed :=
  rfl

/-- A removal leaves exactly the surviving entries, every member unchanged, if and
    only if the survivors' unlisted members are those of the leading positions. -/
theorem removal_exact_iff (removal : Removal) (man : CMasternodeMan) :
    (removal.run man).vMasternodes = removal.survivors man ↔
      (removal.survivors man).map CMasternode.unlisted <+:
        (removal.standing man).map CMasternode.unlisted := by
  cases removal with
  | checkAndRemove calls force minProto time =>
    have left : ((Removal.checkAndRemove calls force minProto time).run man).vMasternodes =
        (eraseAll CMasternode.assign (CMasternodeMan.outdated force minProto)
          (man.check calls).vMasternodes).1 := by
      simp only [Removal.run, CMasternodeMan.checkAndRemove, CMasternodeMan.dropStale,
        CMasternodeMan.removeOutdated, CMasternodeMan.forget_vMasternodes]
    rw [left]
    exact eraseAll_iff assign_splits _ (outdated_listed force minProto) _
  | remove vin => exact eraseFirst_iff assign_splits _

def supernodeEntry : CMasternode :=
  { CMasternode.fresh 0 with
    vin := ⟨⟨1, 0⟩, [], 0xffffffff⟩
    deposit := SUPERNODE_COLLATERAL * COIN }

def masternodeEntry : CMasternode :=
  { CMasternode.fresh 0 with
    vin := ⟨⟨2, 0⟩, [], 0xffffffff⟩
    deposit := MASTERNODE_COLLATERAL * COIN }

def twoEntries : CMasternodeMan where
  vMasternodes := [supernodeEntry, masternodeEntry]
  mAskedUsForMasternodeList := ∅
  mWeAskedForMasternodeList := ∅
  mWeAskedForMasternodeListEntry := ∅
  nDsqCount := 0
  mapSeenMasternodeBroadcast := ∅
  mapSeenMasternodePing := ∅

theorem remove_moves_tier :
    (twoEntries.remove supernodeEntry.vin).vMasternodes ≠
        (Removal.remove supernodeEntry.vin).survivors twoEntries ∧
      (twoEntries.remove supernodeEntry.vin).vMasternodes.map CMasternode.mnTier = [SUPERNODE] ∧
      ((Removal.remove supernodeEntry.vin).survivors twoEntries).map CMasternode.mnTier =
        [MASTERNODE] := by
  decide

end OxidMasternodeMan
