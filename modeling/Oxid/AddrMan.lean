import Oxid.MasternodeMan

/-!
The address manager: entries by id, the ids by address, a shuffled list of ids and two
tables of buckets. A call ends early, as `none`, where an assertion of the source fails,
where a vector is read past its end, and where `[]` on the entries would make one up. Random
numbers and times are arguments of the calls, hashes a parameter.
-/
namespace OxidAddrMan
open OxidPrimitives OxidMasternode OxidMasternodeMan OrderedMaps

def ADDRMAN_TRIED_BUCKET_COUNT : Nat := 256
def ADDRMAN_NEW_BUCKET_COUNT : Nat := 1024
def ADDRMAN_BUCKET_SIZE : Nat := 64
def ADDRMAN_TRIED_BUCKETS_PER_GROUP : UInt64 := 8
def ADDRMAN_NEW_BUCKETS_PER_SOURCE_GROUP : UInt64 := 64
def ADDRMAN_NEW_BUCKETS_PER_ADDRESS : Int := 8
def ADDRMAN_HORIZON_DAYS : Int := 30
def ADDRMAN_RETRIES : Int := 3
def ADDRMAN_MAX_FAILURES : Int := 10
def ADDRMAN_MIN_FAIL_DAYS : Int := 7
def ADDRMAN_GETADDR_MAX_PCT : Nat := 23
def ADDRMAN_GETADDR_MAX : Nat := 2500

instance : NeZero ADDRMAN_TRIED_BUCKET_COUNT := ⟨by decide⟩
instance : NeZero ADDRMAN_NEW_BUCKET_COUNT := ⟨by decide⟩
instance : NeZero ADDRMAN_BUCKET_SIZE := ⟨by decide⟩

abbrev TriedBucket := Fin ADDRMAN_TRIED_BUCKET_COUNT
abbrev NewBucket := Fin ADDRMAN_NEW_BUCKET_COUNT
abbrev Position := Fin ADDRMAN_BUCKET_SIZE

/-- The low words of the hashes; a group is a function of the address. -/
structure AddrRules where
  keyHash : Uint256 → CService → UInt64
  triedHash : Uint256 → CNetAddr → UInt64 → UInt64
  groupsHash : Uint256 → CNetAddr → CNetAddr → UInt64
  sourceHash : Uint256 → CNetAddr → UInt64 → UInt64
  positionHash : Uint256 → Bool → Nat → CService → UInt64
  isRoutable : CNetAddr → Bool

structure CAddress where
  service : CService
  nServices : UInt64
  nTime : UInt32
  nLastTry : Int64
deriving DecidableEq, Repr

structure CAddrInfo extends CAddress where
  source : CNetAddr
  nLastSuccess : Int64
  nAttempts : Int32
  nRefCount : Int
  fInTried : Bool
  nRandomPos : Int
deriving DecidableEq, Repr

namespace CAddrInfo

def ofAddress (addrIn : CAddress) (addrSource : CNetAddr) : CAddrInfo where
  toCAddress := { addrIn with nLastTry := 0 }
  source := addrSource
  nLastSuccess := 0
  nAttempts := 0
  nRefCount := 0
  fInTried := false
  nRandomPos := -1

variable (rules : AddrRules) (info : CAddrInfo) (nKey : Uint256)

def ip (info : CAddrInfo) : CNetAddr := info.service.toCNetAddr

def getTriedBucket : TriedBucket :=
  let hash1 := rules.keyHash nKey info.service
  let hash2 := rules.triedHash nKey info.ip (hash1 % ADDRMAN_TRIED_BUCKETS_PER_GROUP)
  Fin.ofNat _ hash2.toNat

def getNewBucket (src : CNetAddr) : NewBucket :=
  let hash1 := rules.groupsHash nKey info.ip src
  let hash2 := rules.sourceHash nKey src (hash1 % ADDRMAN_NEW_BUCKETS_PER_SOURCE_GROUP)
  Fin.ofNat _ hash2.toNat

def getBucketPosition (fNew : Bool) (nBucket : Nat) : Position :=
  Fin.ofNat _ (rules.positionHash nKey fNew nBucket info.service).toNat

def isTerrible (nNow : Int) : Bool :=
  if info.nLastTry ≠ 0 ∧ nNow - 60 ≤ info.nLastTry.toInt then false
  else if nNow + 10 * 60 < info.nTime.toNat then true
  else if info.nTime = 0 ∨ ADDRMAN_HORIZON_DAYS * 24 * 60 * 60 < nNow - info.nTime.toNat then true
  else if info.nLastSuccess = 0 ∧ ADDRMAN_RETRIES ≤ info.nAttempts.toInt then true
  else if ADDRMAN_MIN_FAIL_DAYS * 24 * 60 * 60 < nNow - info.nLastSuccess.toInt ∧
      ADDRMAN_MAX_FAILURES ≤ info.nAttempts.toInt then true
  else false

end CAddrInfo

instance : MapKey Nat := ⟨id, Function.injective_id⟩

abbrev Table (count : Nat) := Fin count → Position → Option Nat

def Table.set {count : Nat} (table : Table count) (bucket : Fin count) (pos : Position)
    (nId : Option Nat) : Table count := fun bucket' pos' =>
  if bucket' = bucket ∧ pos' = pos then nId else table bucket' pos'

structure CAddrMan where
  nKey : Uint256
  nIdCount : Nat
  mapInfo : OrderedMap Nat CAddrInfo
  mapAddr : OrderedMap CNetAddr Nat
  vRandom : List Nat
  nTried : Int
  vvTried : Table ADDRMAN_TRIED_BUCKET_COUNT
  nNew : Int
  vvNew : Table ADDRMAN_NEW_BUCKET_COUNT

namespace CAddrMan

def init (nKey : Uint256) : CAddrMan where
  nKey := nKey
  nIdCount := 0
  mapInfo := ∅
  mapAddr := ∅
  vRandom := []
  nTried := 0
  vvTried _ _ := none
  nNew := 0
  vvNew _ _ := none

variable (rules : AddrRules) (man : CAddrMan)

def setInfo (nId : Nat) (info : CAddrInfo) : CAddrMan :=
  { man with mapInfo := man.mapInfo.set nId info }

def find (addr : CNetAddr) : Option (Nat × CAddrInfo) :=
  (man.mapAddr.find? addr).bind fun nId => (man.mapInfo.find? nId).map fun info => (nId, info)

def create (addr : CAddress) (addrSource : CNetAddr) : CAddrMan :=
  let info := CAddrInfo.ofAddress addr addrSource
  { man with
    nIdCount := man.nIdCount + 1
    mapInfo := man.mapInfo.set man.nIdCount { info with nRandomPos := man.vRandom.length }
    mapAddr := man.mapAddr.set addr.service.toCNetAddr man.nIdCount
    vRandom := man.vRandom ++ [man.nIdCount] }

def swapRandom (nRndPos1 nRndPos2 : Int) : Option CAddrMan :=
  if nRndPos1 = nRndPos2 then some man
  else if nRndPos1 < 0 ∨ nRndPos2 < 0 then none
  else
    match man.vRandom[nRndPos1.toNat]?, man.vRandom[nRndPos2.toNat]? with
    | some nId1, some nId2 =>
      match man.mapInfo.find? nId1, man.mapInfo.find? nId2 with
      | some info1, some info2 =>
        let man1 := man.setInfo nId1 { info1 with nRandomPos := nRndPos2 }
        let info2 := (man1.mapInfo.find? nId2).getD info2
        let man2 := man1.setInfo nId2 { info2 with nRandomPos := nRndPos1 }
        some { man2 with
          vRandom := (man2.vRandom.set nRndPos1.toNat nId2).set nRndPos2.toNat nId1 }
      | _, _ => none
    | _, _ => none

def delete (nId : Nat) : Option CAddrMan :=
  match man.mapInfo.find? nId with
  | none => none
  | some info =>
    if info.fInTried ∨ info.nRefCount ≠ 0 then none
    else
      (man.swapRandom info.nRandomPos (man.vRandom.length - 1)).map fun man =>
        { man with
          vRandom := man.vRandom.dropLast
          mapAddr := man.mapAddr.erase info.ip
          mapInfo := man.mapInfo.erase nId
          nNew := man.nNew - 1 }

def clearNew (nUBucket : NewBucket) (nUBucketPos : Position) : Option CAddrMan :=
  match man.vvNew nUBucket nUBucketPos with
  | none => some man
  | some nIdDelete =>
    match man.mapInfo.find? nIdDelete with
    | none => none
    | some infoDelete =>
      if infoDelete.nRefCount ≤ 0 then none
      else
        let cleared :=
          { man.setInfo nIdDelete { infoDelete with nRefCount := infoDelete.nRefCount - 1 } with
            vvNew := man.vvNew.set nUBucket nUBucketPos none }
        if infoDelete.nRefCount - 1 = 0 then cleared.delete nIdDelete else some cleared

/-- `ClearNew`, and an entry put into the place with one more reference. -/
def putNew (nId : Nat) (nUBucket : NewBucket) (nUBucketPos : Position) : Option CAddrMan :=
  (man.clearNew nUBucket nUBucketPos).bind fun man =>
    (man.mapInfo.find? nId).map fun info =>
      { man.setInfo nId { info with nRefCount := info.nRefCount + 1 } with
        vvNew := man.vvNew.set nUBucket nUBucketPos (some nId) }

def leaveNew (nId : Nat) (info : CAddrInfo) : List NewBucket → CAddrMan → CAddrMan
  | [], man => man
  | bucket :: rest, man =>
    let pos := info.getBucketPosition rules man.nKey true bucket
    if man.vvNew bucket pos = some nId then
      match man.mapInfo.find? nId with
      | none => leaveNew nId info rest man
      | some standing =>
        leaveNew nId info rest
          { man.setInfo nId { standing with nRefCount := standing.nRefCount - 1 } with
            vvNew := man.vvNew.set bucket pos none }
    else leaveNew nId info rest man

def evict (nKBucket : TriedBucket) (nKBucketPos : Position) : Option CAddrMan :=
  match man.vvTried nKBucket nKBucketPos with
  | none => some man
  | some nIdEvict =>
    match man.mapInfo.find? nIdEvict with
    | none => none
    | some infoOld =>
      let nUBucket := infoOld.getNewBucket rules man.nKey infoOld.source
      let nUBucketPos := infoOld.getBucketPosition rules man.nKey true nUBucket
      let left :=
        { man.setInfo nIdEvict { infoOld with fInTried := false } with
          vvTried := man.vvTried.set nKBucket nKBucketPos none
          nTried := man.nTried - 1 }
      match left.clearNew nUBucket nUBucketPos with
      | none => none
      | some man =>
        if (man.vvNew nUBucket nUBucketPos).isSome then none
        else
          (man.mapInfo.find? nIdEvict).map fun infoOld =>
            { man.setInfo nIdEvict { infoOld with nRefCount := 1 } with
              vvNew := man.vvNew.set nUBucket nUBucketPos (some nIdEvict)
              nNew := man.nNew + 1 }

def makeTried (info : CAddrInfo) (nId : Nat) : Option CAddrMan :=
  let man := leaveNew rules nId info (List.finRange ADDRMAN_NEW_BUCKET_COUNT) man
  let man := { man with nNew := man.nNew - 1 }
  match man.mapInfo.find? nId with
  | none => none
  | some info =>
    if info.nRefCount ≠ 0 then none
    else
      let nKBucket := info.getTriedBucket rules man.nKey
      let nKBucketPos := info.getBucketPosition rules man.nKey false nKBucket
      match man.evict rules nKBucket nKBucketPos with
      | none => none
      | some man =>
        if (man.vvTried nKBucket nKBucketPos).isSome then none
        else
          (man.mapInfo.find? nId).map fun info =>
            { man.setInfo nId { info with fInTried := true } with
              vvTried := man.vvTried.set nKBucket nKBucketPos (some nId)
              nTried := man.nTried + 1 }

def good (addr : CService) (nTime : Int64) (nRnd : NewBucket) : Option CAddrMan :=
  match man.find addr.toCNetAddr with
  | none => some man
  | some (nId, info) =>
    if info.service ≠ addr then some man
    else
      let info := { info with nLastSuccess := nTime, nLastTry := nTime, nAttempts := 0 }
      let man := man.setInfo nId info
      if info.fInTried then some man
      else if (List.finRange ADDRMAN_NEW_BUCKET_COUNT).any fun n =>
          man.vvNew (n + nRnd) (info.getBucketPosition rules man.nKey true (n + nRnd)) = some nId
      then man.makeTried rules info nId
      else some man

def enterNew (nId : Nat) (source : CNetAddr) (nNow : Int) : Option CAddrMan :=
  match man.mapInfo.find? nId with
  | none => none
  | some pinfo =>
    let nUBucket := pinfo.getNewBucket rules man.nKey source
    let nUBucketPos := pinfo.getBucketPosition rules man.nKey true nUBucket
    match man.vvNew nUBucket nUBucketPos with
    | none => man.putNew nId nUBucket nUBucketPos
    | some nIdExisting =>
      if nIdExisting = nId then some man
      else
        match man.mapInfo.find? nIdExisting with
        | none => none
        | some infoExisting =>
          if infoExisting.isTerrible nNow ∨ (1 < infoExisting.nRefCount ∧ pinfo.nRefCount = 0) then
            man.putNew nId nUBucket nUBucketPos
          else if pinfo.nRefCount = 0 then man.delete nId
          else some man

def refreshed (addr : CAddress) (nTimePenalty nNow : Int) (pinfo : CAddrInfo) : CAddrInfo :=
  let fCurrentlyOnline := decide (nNow - addr.nTime.toNat < 24 * 60 * 60)
  let nUpdateInterval : Int := if fCurrentlyOnline then 60 * 60 else 24 * 60 * 60
  let nTime :=
    if addr.nTime ≠ 0 ∧ (pinfo.nTime = 0 ∨
        (pinfo.nTime.toNat : Int) < addr.nTime.toNat - nUpdateInterval - nTimePenalty) then
      UInt32.ofNat (max 0 (addr.nTime.toNat - nTimePenalty)).toNat
    else pinfo.nTime
  { pinfo with nTime := nTime, nServices := pinfo.nServices ||| addr.nServices }

def add (addr : CAddress) (source : CNetAddr) (nTimePenalty nNow : Int) (getRandInt : Nat → Nat) :
    Option (CAddrMan × Bool) :=
  if !rules.isRoutable addr.service.toCNetAddr then some (man, false)
  else
    match man.find addr.service.toCNetAddr with
    | some (nId, pinfo) =>
      let pinfo := refreshed addr nTimePenalty nNow pinfo
      let man := man.setInfo nId pinfo
      let nFactor := 2 ^ pinfo.nRefCount.toNat
      if addr.nTime = 0 ∨ (pinfo.nTime ≠ 0 ∧ addr.nTime ≤ pinfo.nTime) then some (man, false)
      else if pinfo.fInTried then some (man, false)
      else if pinfo.nRefCount = ADDRMAN_NEW_BUCKETS_PER_ADDRESS then some (man, false)
      else if 1 < nFactor ∧ getRandInt nFactor ≠ 0 then some (man, false)
      else (man.enterNew rules nId source nNow).map fun man => (man, false)
    | none =>
      let nId := man.nIdCount
      let created := man.create addr source
      match created.mapInfo.find? nId with
      | none => none
      | some pinfo =>
        let nTime := UInt32.ofNat (max 0 (pinfo.nTime.toNat - nTimePenalty)).toNat
        let man := { created.setInfo nId { pinfo with nTime } with nNew := created.nNew + 1 }
        (man.enterNew rules nId source nNow).map fun man => (man, true)

def attempt (addr : CService) (nTime : Int64) : CAddrMan :=
  match man.find addr.toCNetAddr with
  | none => man
  | some (nId, info) =>
    if info.service ≠ addr then man
    else man.setInfo nId { info with nLastTry := nTime, nAttempts := info.nAttempts + 1 }

def connected (addr : CService) (nTime : Int64) : CAddrMan :=
  match man.find addr.toCNetAddr with
  | none => man
  | some (nId, info) =>
    if info.service ≠ addr then man
    else if 20 * 60 < nTime.toInt - info.nTime.toNat then
      man.setInfo nId { info with nTime := UInt32.ofInt nTime.toInt }
    else man

def getAddrFrom (nNow : Int) (nNodes : Nat) : List Nat → Nat → List CAddress → CAddrMan →
    Option (CAddrMan × List CAddress)
  | [], _, vAddr, man => some (man, vAddr)
  | draw :: draws, n, vAddr, man =>
    if nNodes ≤ vAddr.length then some (man, vAddr)
    else
      match man.swapRandom n (draw % (man.vRandom.length - n) + n : Nat) with
      | none => none
      | some man =>
        match (man.vRandom[n]?).bind man.mapInfo.find? with
        | none => none
        | some ai =>
          getAddrFrom nNow nNodes draws (n + 1)
            (if ai.isTerrible nNow then vAddr else vAddr ++ [ai.toCAddress]) man

def getAddr (nNow : Int) (draw : Nat → Nat) : Option (CAddrMan × List CAddress) :=
  let nNodes := min (ADDRMAN_GETADDR_MAX_PCT * man.vRandom.length / 100) ADDRMAN_GETADDR_MAX
  getAddrFrom nNow nNodes ((List.range man.vRandom.length).map draw) 0 [] man

/-- The loop of `Select_` over a table: a draw is a place and whether its entry is taken. -/
def selectFrom {count : Nat} (table : Table count) :
    List (Fin count × Position × (CAddrInfo → Bool)) → Option (Option CAddress)
  | [] => some none
  | (bucket, pos, taken) :: draws =>
    match table bucket pos with
    | none => selectFrom table draws
    | some nId =>
      match man.mapInfo.find? nId with
      | none => none
      | some info => if taken info then some (some info.toCAddress) else selectFrom table draws

structure Draws where
  coin : Bool
  tried : List (TriedBucket × Position × (CAddrInfo → Bool))
  new : List (NewBucket × Position × (CAddrInfo → Bool))

def select (draws : Draws) (empty : CAddress) : Option (Option CAddress) :=
  if man.vRandom.length = 0 then some (some empty)
  else if 0 < man.nTried ∧ (man.nNew = 0 ∨ draws.coin) then
    man.selectFrom man.vvTried draws.tried
  else man.selectFrom man.vvNew draws.new

def checkEntry (n : Nat) (info : CAddrInfo) : Int :=
  if info.fInTried ∧ info.nLastSuccess = 0 then -1
  else if info.fInTried ∧ info.nRefCount ≠ 0 then -2
  else if ¬ info.fInTried ∧
      (info.nRefCount < 0 ∨ ADDRMAN_NEW_BUCKETS_PER_ADDRESS < info.nRefCount) then -3
  else if ¬ info.fInTried ∧ info.nRefCount = 0 then -4
  else if (man.mapAddr.find? info.ip).getD 0 ≠ n then -5
  else if info.nRandomPos < 0 ∨ man.vRandom[info.nRandomPos.toNat]? ≠ some n then -14
  else if info.nLastTry < 0 then -6
  else if info.nLastSuccess < 0 then -8
  else 0

/-- `setTried` and `mapNew`, as the loop over the entries fills them. -/
structure Tallies where
  setTried : OrderedMap Nat Unit
  mapNew : OrderedMap Nat Int

def tallyEntries : List (Nat × CAddrInfo) → Tallies → Except Int Tallies
  | [], tallies => .ok tallies
  | (n, info) :: rest, tallies =>
    if man.checkEntry n info ≠ 0 then .error (man.checkEntry n info)
    else if info.fInTried then
      tallyEntries rest { tallies with setTried := tallies.setTried.set n () }
    else tallyEntries rest { tallies with mapNew := tallies.mapNew.set n info.nRefCount }

def occupied {count : Nat} (table : Table count) : List (Fin count × Position × Nat) :=
  (List.finRange count).flatMap fun bucket =>
    (List.finRange ADDRMAN_BUCKET_SIZE).filterMap fun pos =>
      (table bucket pos).map fun nId => (bucket, pos, nId)

def strikeTried : List (TriedBucket × Position × Nat) → OrderedMap Nat Unit →
    Except Int (OrderedMap Nat Unit)
  | [], setTried => .ok setTried
  | (bucket, pos, nId) :: rest, setTried =>
    if !setTried.count nId then .error (-11)
    else if (man.mapInfo.find? nId).any fun info => info.getTriedBucket rules man.nKey != bucket then
      .error (-17)
    else if (man.mapInfo.find? nId).any fun info =>
        info.getBucketPosition rules man.nKey false bucket != pos then .error (-18)
    else strikeTried rest (setTried.erase nId)

def strikeNew : List (NewBucket × Position × Nat) → OrderedMap Nat Int →
    Except Int (OrderedMap Nat Int)
  | [], mapNew => .ok mapNew
  | (bucket, pos, nId) :: rest, mapNew =>
    match mapNew.find? nId with
    | none => .error (-12)
    | some left =>
      if (man.mapInfo.find? nId).any fun info =>
          info.getBucketPosition rules man.nKey true bucket != pos then .error (-19)
      else if left - 1 = 0 then strikeNew rest (mapNew.erase nId)
      else strikeNew rest (mapNew.set nId (left - 1))

def check : Int :=
  if (man.vRandom.length : Int) ≠ man.nTried + man.nNew then -7
  else
    match man.tallyEntries man.mapInfo.entries ⟨∅, ∅⟩ with
    | .error err => err
    | .ok tallies =>
      if (tallies.setTried.size : Int) ≠ man.nTried then -9
      else if (tallies.mapNew.size : Int) ≠ man.nNew then -10
      else
        match man.strikeTried rules (occupied man.vvTried) tallies.setTried with
        | .error err => err
        | .ok setTried =>
          match man.strikeNew rules (occupied man.vvNew) tallies.mapNew with
          | .error err => err
          | .ok mapNew =>
            if setTried.size ≠ 0 then -13
            else if mapNew.size ≠ 0 then -15
            else if man.nKey = 0 then -16
            else 0

end CAddrMan

end OxidAddrMan
