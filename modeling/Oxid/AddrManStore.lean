import Oxid.AddrManCheck
import Oxid.MasternodeStore

/-!
The file of the address manager. The entries are written without their ids: the new ones,
the tried ones, then where the entries of each new bucket stand in that order. Reading
numbers them again.
-/
namespace OxidAddrManStore
open OxidPrimitives OxidMasternode OxidMasternodeMan OxidMasternodeStore OxidAddrMan OrderedMaps
  Serialize

def CLIENT_VERSION : Int32 := 2010000

def unsigned64 : Codec UInt64 := (number 8).via UInt64.toNat UInt64.ofNat

def NODE_NETWORK : UInt64 := 1

def CAddress.init (addr : CAddress) : CAddress :=
  { addr with nServices := NODE_NETWORK, nTime := 100000000, nLastTry := 0 }

def CAddrInfo.fresh : CAddrInfo :=
  CAddrInfo.ofAddress (CAddress.init ⟨⟨⟨0⟩, 0⟩, 0, 0, 0⟩) ⟨0⟩

/-- `CAddrInfo::SerializationOp` on disk, read onto an entry that stands already. -/
def addrInfo (standing : CAddrInfo) : Codec CAddrInfo :=
  object { standing with toCAddress := CAddress.init standing.toCAddress } [
    readWrite signedInt (fun _ => CLIENT_VERSION) fun info _ => info,
    readWrite unsignedInt (·.nTime) fun info nTime => { info with nTime },
    readWrite unsigned64 (·.nServices) fun info nServices => { info with nServices },
    readWrite OxidMasternodeStore.service (·.service) fun info service => { info with service },
    readWrite netAddr (·.source) fun info source => { info with source },
    readWrite int64 (·.nLastSuccess) fun info nLastSuccess => { info with nLastSuccess },
    readWrite signedInt (·.nAttempts) fun info nAttempts => { info with nAttempts }]

def CAddrInfo.readOnto (standing saved : CAddrInfo) : CAddrInfo :=
  { saved with
    nLastTry := 0
    nRefCount := standing.nRefCount
    fInTried := standing.fInTried
    nRandomPos := standing.nRandomPos }

def nBucketsWritten : Int32 := Int32.ofNat (ADDRMAN_NEW_BUCKET_COUNT ^^^ 2 ^ 30)

section Write

variable (man : CAddrMan)

def writeNew : List (Nat × CAddrInfo) → Nat → OrderedMap Nat Nat → Option (Bytes × OrderedMap Nat Nat)
  | [], _, mapUnkIds => some ([], mapUnkIds)
  | (n, info) :: rest, nIds, mapUnkIds =>
    let mapUnkIds := mapUnkIds.set n nIds
    if info.nRefCount ≠ 0 then
      if (nIds : Int) = man.nNew then none
      else
        (writeNew rest (nIds + 1) mapUnkIds).map fun (written, mapUnkIds) =>
          ((addrInfo info).write info ++ written, mapUnkIds)
    else writeNew rest nIds mapUnkIds

def writeTried : List (Nat × CAddrInfo) → Nat → Option Bytes
  | [], _ => some []
  | (_, info) :: rest, nIds =>
    if info.fInTried then
      if (nIds : Int) = man.nTried then none
      else (writeTried rest (nIds + 1)).map fun written => (addrInfo info).write info ++ written
    else writeTried rest nIds

def writeBucket (mapUnkIds : OrderedMap Nat Nat) (bucket : NewBucket) : Bytes :=
  let nIds := (List.finRange ADDRMAN_BUCKET_SIZE).filterMap (man.vvNew bucket)
  signedInt.write (Int32.ofNat nIds.length) ++
    nIds.flatMap fun nId => signedInt.write (Int32.ofNat ((mapUnkIds.find? nId).getD 0))

def serialize : Option Bytes :=
  (writeNew man man.mapInfo.entries 0 ∅).bind fun (new, mapUnkIds) =>
    (writeTried man man.mapInfo.entries 0).map fun tried =>
      byte.write 1 ++ byte.write 32 ++ uint256.write man.nKey ++
        signedInt.write (Int32.ofInt man.nNew) ++ signedInt.write (Int32.ofInt man.nTried) ++
        signedInt.write nBucketsWritten ++ new ++ tried ++
        (List.finRange ADDRMAN_NEW_BUCKET_COUNT).flatMap (writeBucket man mapUnkIds)

end Write

def clear (randHash : Uint256) (man : CAddrMan) : CAddrMan :=
  { man with
    vRandom := []
    nKey := randHash
    vvNew := fun _ _ => none
    vvTried := fun _ _ => none
    nIdCount := 0
    nTried := 0
    nNew := 0 }

section Read

variable (rules : AddrRules)

/-- One of the new entries, read onto what has its id. Without the buckets of the file it gets the
    place of its source. -/
def readNewEntry (current : Bool) (n : Nat) (stream : Bytes) (man : CAddrMan) :
    Option (CAddrMan × Bytes) :=
  ((addrInfo ((man.mapInfo.find? n).getD CAddrInfo.fresh)).read stream).map fun (info, stream) =>
    let info := { info with nRandomPos := man.vRandom.length }
    let man :=
      { man with
        mapInfo := man.mapInfo.set n info
        mapAddr := man.mapAddr.set info.ip n
        vRandom := man.vRandom ++ [n] }
    if current then (man, stream)
    else
      let nUBucket := info.getNewBucket rules man.nKey info.source
      let nUBucketPos := info.getBucketPosition rules man.nKey true nUBucket
      if man.vvNew nUBucket nUBucketPos = none then
        ({ man.setInfo n { info with nRefCount := info.nRefCount + 1 } with
            vvNew := man.vvNew.set nUBucket nUBucketPos (some n) }, stream)
      else (man, stream)

def readNew (current : Bool) : Nat → Nat → Bytes → CAddrMan → Option (CAddrMan × Bytes)
  | 0, _, stream, man => some (man, stream)
  | left + 1, n, stream, man =>
    (readNewEntry rules current n stream man).bind fun (man, stream) =>
      readNew current left (n + 1) stream man

def readTried : Nat → Int → Bytes → CAddrMan → Option (CAddrMan × Int × Bytes)
  | 0, nLost, stream, man => some (man, nLost, stream)
  | left + 1, nLost, stream, man =>
    ((addrInfo CAddrInfo.fresh).read stream).bind fun (info, stream) =>
      let nKBucket := info.getTriedBucket rules man.nKey
      let nKBucketPos := info.getBucketPosition rules man.nKey false nKBucket
      if man.vvTried nKBucket nKBucketPos = none then
        let info := { info with nRandomPos := man.vRandom.length, fInTried := true }
        readTried left nLost stream
          { man with
            vRandom := man.vRandom ++ [man.nIdCount]
            mapInfo := man.mapInfo.set man.nIdCount info
            mapAddr := man.mapAddr.set info.ip man.nIdCount
            vvTried := man.vvTried.set nKBucket nKBucketPos (some man.nIdCount)
            nIdCount := man.nIdCount + 1 }
      else readTried left (nLost + 1) stream man

/-- One index of a bucket: its entry gets a place there, if the place is free and the entry is not
    in too many. -/
def takeIndex (current : Bool) (bucket : Nat) (nIndex : Int32) (man : CAddrMan) : CAddrMan :=
  if 0 ≤ nIndex.toInt ∧ nIndex.toInt < man.nNew then
    let n := nIndex.toInt.toNat
    let info := (man.mapInfo.find? n).getD CAddrInfo.fresh
    let nUBucketPos := info.getBucketPosition rules man.nKey true bucket
    let nUBucket : NewBucket := Fin.ofNat _ bucket
    if current ∧ man.vvNew nUBucket nUBucketPos = none ∧
        info.nRefCount < ADDRMAN_NEW_BUCKETS_PER_ADDRESS then
      { man.setInfo n { info with nRefCount := info.nRefCount + 1 } with
        vvNew := man.vvNew.set nUBucket nUBucketPos (some n) }
    else man
  else man

def readIndexes (current : Bool) (bucket : Nat) :
    Nat → Bytes → CAddrMan → Option (CAddrMan × Bytes)
  | 0, stream, man => some (man, stream)
  | left + 1, stream, man =>
    (signedInt.read stream).bind fun (nIndex, stream) =>
      readIndexes current bucket left stream (takeIndex rules current bucket nIndex man)

def readBuckets (current : Bool) : Nat → Nat → Bytes → CAddrMan → Option (CAddrMan × Bytes)
  | 0, _, stream, man => some (man, stream)
  | left + 1, bucket, stream, man =>
    (signedInt.read stream).bind fun (nSize, stream) =>
      (readIndexes rules current bucket nSize.toInt.toNat stream man).bind fun (man, stream) =>
        readBuckets current left (bucket + 1) stream man

def prune : List Nat → CAddrMan → Option CAddrMan
  | [], man => some man
  | n :: rest, man =>
    match man.mapInfo.find? n with
    | none => prune rest man
    | some info =>
      if info.fInTried = false ∧ info.nRefCount = 0 then (man.delete n).bind (prune rest)
      else prune rest man

/-- `Unserialize`, unless the stream ends early or an assertion fails. A number of new entries
    below none, which no manager has, is read as none. -/
def unserialize (randHash : Uint256) (stream : Bytes) (man : CAddrMan) :
    Option (CAddrMan × Bytes) := do
  let man := clear randHash man
  let (nVersion, stream) ← byte.read stream
  let (nKeySize, stream) ← byte.read stream
  if nKeySize ≠ 32 then none
  else
    let (nKey, stream) ← uint256.read stream
    let (nNew, stream) ← signedInt.read stream
    let (nTried, stream) ← signedInt.read stream
    let (nUBuckets, stream) ← signedInt.read stream
    let nUBuckets := if nVersion ≠ 0 then nUBuckets ^^^ Int32.ofNat (2 ^ 30) else nUBuckets
    let current := decide (nVersion = 1 ∧ nUBuckets.toInt = ADDRMAN_NEW_BUCKET_COUNT)
    let man := { man with nKey := nKey, nNew := nNew.toInt, nTried := nTried.toInt }
    let (man, stream) ← readNew rules current man.nNew.toNat 0 stream man
    let man := { man with nIdCount := man.nNew.toNat }
    let (man, nLost, stream) ← readTried rules man.nTried.toNat 0 stream man
    let man := { man with nTried := man.nTried - nLost }
    let (man, stream) ← readBuckets rules current nUBuckets.toInt.toNat 0 stream man
    let man ← prune (man.mapInfo.entries.map Prod.fst) man
    some (man, stream)

end Read

end OxidAddrManStore
