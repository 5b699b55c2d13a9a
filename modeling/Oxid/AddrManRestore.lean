import Oxid.AddrManStore

/-!
Reading the file of an address manager that passes the check. Its entries are numbered from
none on, the new ones first.
-/
namespace OxidAddrManRestore
open OxidPrimitives OxidMasternode OxidMasternodeMan OxidMasternodeStore OxidAddrMan
  OxidAddrManInvariant OxidAddrManCheck OxidAddrManStore OrderedMaps OrderedMap Serialize

theorem signedInt_back (value : Int32) (rest : Bytes) :
    signedInt.read (signedInt.write value ++ rest) = some (value, rest) := by
  rw [signedInt.reads_back value rest trivial, signedInt_lossless value]

theorem unsigned64_lossless : unsigned64.Lossless := by
  intro value
  have bound := value.toNat_lt
  simp only [unsigned64, Codec.via, number]
  rw [Nat.mod_eq_of_lt (by omega)]
  exact UInt64.ofNat_toNat

theorem addrInfo_fits (standing info : CAddrInfo) : (addrInfo standing).Fits info := by
  intro field member
  simp only [List.mem_cons, List.not_mem_nil, or_false] at member
  rcases member with same | same | same | same | same | same | same
  · rw [same]
    trivial
  · rw [same]
    trivial
  · rw [same]
    trivial
  · rw [same]
    intro part inside
    simp only [List.mem_cons, List.not_mem_nil, or_false] at inside
    rcases inside with same | same
    · rw [same]
      trivial
    · rw [same]
      trivial
  · rw [same]
    trivial
  · rw [same]
    trivial
  · rw [same]
    trivial

theorem addrInfo_back (standing other saved : CAddrInfo) (rest : Bytes) :
    (addrInfo standing).read ((addrInfo other).write saved ++ rest) =
      some (CAddrInfo.readOnto standing saved, rest) := by
  have same : (addrInfo other).write saved = (addrInfo standing).write saved := rfl
  have kept : (addrInfo standing).kept saved = CAddrInfo.readOnto standing saved := by
    simp only [addrInfo, object, copyMembers, readWrite, unsignedInt_lossless saved.nTime,
      unsigned64_lossless saved.nServices, service_lossless saved.service,
      netAddr_lossless saved.source, int64_lossless saved.nLastSuccess,
      signedInt_lossless saved.nAttempts]
    rfl
  rw [same, (addrInfo standing).reads_back saved rest (addrInfo_fits standing saved), kept]

def enteredInfo : List CAddrInfo → Nat → Entries → Entries
  | [], _, mapInfo => mapInfo
  | info :: rest, n, mapInfo => enteredInfo rest (n + 1) (mapInfo.set n info)

def enteredAddr : List CAddrInfo → Nat → OrderedMap CNetAddr Nat → OrderedMap CNetAddr Nat
  | [], _, mapAddr => mapAddr
  | info :: rest, n, mapAddr => enteredAddr rest (n + 1) (mapAddr.set info.ip n)

def entered (entries : List CAddrInfo) (n : Nat) (man : CAddrMan) : CAddrMan :=
  { man with
    mapInfo := enteredInfo entries n man.mapInfo
    mapAddr := enteredAddr entries n man.mapAddr
    vRandom := man.vRandom ++ List.range' n entries.length }

def readNews (mapInfo : Entries) : List CAddrInfo → Nat → List CAddrInfo
  | [], _ => []
  | saved :: rest, n =>
    { CAddrInfo.readOnto ((mapInfo.find? n).getD CAddrInfo.fresh) saved with
      nRandomPos := n } :: readNews mapInfo rest (n + 1)

def readTrieds : List CAddrInfo → Nat → List CAddrInfo
  | [], _ => []
  | saved :: rest, n =>
    { CAddrInfo.readOnto CAddrInfo.fresh saved with nRandomPos := n, fInTried := true } ::
      readTrieds rest (n + 1)

def placeTrieds (rules : AddrRules) (nKey : Uint256) : List CAddrInfo → Nat →
    Table ADDRMAN_TRIED_BUCKET_COUNT → Table ADDRMAN_TRIED_BUCKET_COUNT
  | [], _, vvTried => vvTried
  | saved :: rest, n, vvTried =>
    placeTrieds rules nKey rest (n + 1)
      (vvTried.set (saved.getTriedBucket rules nKey)
        (saved.getBucketPosition rules nKey false (saved.getTriedBucket rules nKey)) (some n))

def writeInfos (infos : List CAddrInfo) : Bytes :=
  infos.flatMap fun info => (addrInfo info).write info

theorem readNews_behind (mapInfo : Entries) (info : CAddrInfo) (saved : List CAddrInfo)
    {before n : Nat} (behind : before < n) :
    readNews (mapInfo.set before info) saved n = readNews mapInfo saved n := by
  induction saved generalizing n with
  | nil => rfl
  | cons first rest ih =>
    simp only [readNews]
    rw [find?_set_other _ _ (show n ≠ before by omega), ih (show before < n + 1 by omega)]

theorem range'_behind (vRandom : List Nat) (n length : Nat) :
    vRandom ++ [n] ++ List.range' (n + 1) length = vRandom ++ List.range' n (length + 1) := by
  rw [List.range'_succ, List.append_assoc, List.singleton_append]

variable {rules : AddrRules}

theorem readNew_written (saved : List CAddrInfo) (n : Nat) (rest : Bytes) (man : CAddrMan)
    (size : man.vRandom.length = n) :
    readNew rules true saved.length n (writeInfos saved ++ rest) man =
      some (entered (readNews man.mapInfo saved n) n man, rest) := by
  induction saved generalizing n man with
  | nil => simp [readNew, writeInfos, entered, readNews, enteredInfo, enteredAddr]
  | cons first others ih =>
    have next := ih (n + 1)
      { man with
        mapInfo := man.mapInfo.set n
          { CAddrInfo.readOnto ((man.mapInfo.find? n).getD CAddrInfo.fresh) first with
            nRandomPos := n }
        mapAddr := man.mapAddr.set first.ip n
        vRandom := man.vRandom ++ [n] }
      (by simp [size])
    simp only [writeInfos, List.flatMap_cons, List.length_cons, readNew, readNewEntry,
      List.append_assoc, addrInfo_back, Option.map_some, Option.bind_some, if_true, size]
    refine next.trans ?_
    simp only [entered, readNews, enteredInfo, enteredAddr, List.length_cons,
      readNews_behind _ _ _ (Nat.lt_succ_self n), range'_behind]
    rfl

def Free (rules : AddrRules) (nKey : Uint256) (vvTried : Table ADDRMAN_TRIED_BUCKET_COUNT) :
    List CAddrInfo → Nat → Prop
  | [], _ => True
  | saved :: rest, n =>
    vvTried (saved.getTriedBucket rules nKey)
        (saved.getBucketPosition rules nKey false (saved.getTriedBucket rules nKey)) = none ∧
      Free rules nKey (vvTried.set (saved.getTriedBucket rules nKey)
        (saved.getBucketPosition rules nKey false (saved.getTriedBucket rules nKey)) (some n))
        rest (n + 1)

theorem readTried_written (saved : List CAddrInfo) (n : Nat) (rest : Bytes) (man : CAddrMan)
    (size : man.vRandom.length = n) (count : man.nIdCount = n)
    (free : Free rules man.nKey man.vvTried saved n) :
    readTried rules saved.length 0 (writeInfos saved ++ rest) man =
      some ({ entered (readTrieds saved n) n man with
          vvTried := placeTrieds rules man.nKey saved n man.vvTried
          nIdCount := n + saved.length }, 0, rest) := by
  induction saved generalizing n man with
  | nil =>
    simp [readTried, writeInfos, entered, readTrieds, enteredInfo, enteredAddr, placeTrieds,
      ← count]
  | cons first others ih =>
    obtain ⟨here, later⟩ := free
    have next := ih (n + 1)
      { man with
        vRandom := man.vRandom ++ [n]
        mapInfo := man.mapInfo.set n
          { CAddrInfo.readOnto CAddrInfo.fresh first with nRandomPos := n, fInTried := true }
        mapAddr := man.mapAddr.set first.ip n
        vvTried := man.vvTried.set (first.getTriedBucket rules man.nKey)
          (first.getBucketPosition rules man.nKey false (first.getTriedBucket rules man.nKey))
          (some n)
        nIdCount := n + 1 }
      (by simp [size]) rfl later
    have bucket : (CAddrInfo.readOnto CAddrInfo.fresh first).getTriedBucket rules man.nKey =
      first.getTriedBucket rules man.nKey := triedBucket_service rfl
    have position : ∀ b, (CAddrInfo.readOnto CAddrInfo.fresh first).getBucketPosition rules
        man.nKey false b = first.getBucketPosition rules man.nKey false b :=
      fun b => bucketPosition_service rfl false b
    simp only [writeInfos, List.flatMap_cons, List.length_cons, readTried, List.append_assoc,
      addrInfo_back, Option.bind_some, bucket, position, here, if_true, size, count]
    refine next.trans ?_
    simp only [entered, readTrieds, enteredInfo, enteredAddr, placeTrieds, List.length_cons,
      range'_behind, show n + (others.length + 1) = n + 1 + others.length by omega]
    rfl

theorem enteredInfo_outside (entries : List CAddrInfo) (n m : Nat) (mapInfo : Entries)
    (outside : m < n ∨ n + entries.length ≤ m) :
    (enteredInfo entries n mapInfo).find? m = mapInfo.find? m := by
  induction entries generalizing n mapInfo with
  | nil => rfl
  | cons info rest ih =>
    simp only [List.length_cons] at outside
    rw [enteredInfo, ih (n + 1) _ (by omega), find?_set_other _ _ (by omega)]

variable {entries : List CAddrInfo} {place : Nat} {saved : List CAddrInfo}

theorem enteredInfo_at {info : CAddrInfo} (here : entries[place]? = some info) (n : Nat)
    (mapInfo : Entries) :
    (enteredInfo entries n mapInfo).find? (n + place) = some info := by
  induction entries generalizing n place mapInfo with
  | nil => cases here
  | cons first rest ih =>
    cases place with
    | zero =>
      cases here
      rw [enteredInfo, enteredInfo_outside _ _ _ _ (by omega), Nat.add_zero, find?_set_same]
    | succ place =>
      rw [enteredInfo, show n + (place + 1) = n + 1 + place by omega]
      exact ih here (n + 1) _

theorem enteredAddr_outside (entries : List CAddrInfo) (n : Nat) (mapAddr : OrderedMap CNetAddr Nat)
    {addr : CNetAddr} (outside : ∀ info ∈ entries, info.ip ≠ addr) :
    (enteredAddr entries n mapAddr).find? addr = mapAddr.find? addr := by
  induction entries generalizing n mapAddr with
  | nil => rfl
  | cons info rest ih =>
    rw [enteredAddr, ih (n + 1) _ fun other member => outside other (List.mem_cons_of_mem _ member),
      find?_set_other _ _ (Ne.symm (outside info List.mem_cons_self))]

theorem enteredAddr_at {info : CAddrInfo} (here : entries[place]? = some info)
    (apart : (entries.map CAddrInfo.ip).Nodup) (n : Nat) (mapAddr : OrderedMap CNetAddr Nat) :
    (enteredAddr entries n mapAddr).find? info.ip = some (n + place) := by
  induction entries generalizing n place mapAddr with
  | nil => cases here
  | cons first rest ih =>
    obtain ⟨fresh, distinct⟩ := List.nodup_cons.mp apart
    cases place with
    | zero =>
      cases here
      rw [enteredAddr, enteredAddr_outside, find?_set_same, Nat.add_zero]
      intro other member same
      exact fresh (List.mem_map.mpr ⟨other, member, same⟩)
    | succ place =>
      rw [enteredAddr, show n + (place + 1) = n + 1 + place by omega]
      exact ih here distinct (n + 1) _

theorem enteredInfo_append (first second : List CAddrInfo) (n : Nat) (mapInfo : Entries) :
    enteredInfo (first ++ second) n mapInfo =
      enteredInfo second (n + first.length) (enteredInfo first n mapInfo) := by
  induction first generalizing n mapInfo with
  | nil => rfl
  | cons info rest ih =>
    rw [List.cons_append, enteredInfo, ih (n + 1), enteredInfo, List.length_cons,
      show n + 1 + rest.length = n + (rest.length + 1) by omega]

theorem enteredAddr_append (first second : List CAddrInfo) (n : Nat)
    (mapAddr : OrderedMap CNetAddr Nat) :
    enteredAddr (first ++ second) n mapAddr =
      enteredAddr second (n + first.length) (enteredAddr first n mapAddr) := by
  induction first generalizing n mapAddr with
  | nil => rfl
  | cons info rest ih =>
    rw [List.cons_append, enteredAddr, ih (n + 1), enteredAddr, List.length_cons,
      show n + 1 + rest.length = n + (rest.length + 1) by omega]

theorem readNews_at {info : CAddrInfo} (here : saved[place]? = some info) (mapInfo : Entries)
    (n : Nat) :
    (readNews mapInfo saved n)[place]? =
      some { CAddrInfo.readOnto ((mapInfo.find? (n + place)).getD CAddrInfo.fresh) info with
        nRandomPos := (n + place : Nat) } := by
  induction saved generalizing n place with
  | nil => cases here
  | cons first rest ih =>
    cases place with
    | zero =>
      cases here
      rfl
    | succ place =>
      rw [readNews, List.getElem?_cons_succ, ih here (n + 1),
        show n + 1 + place = n + (place + 1) by omega]

theorem readTrieds_at {info : CAddrInfo} (here : saved[place]? = some info) (n : Nat) :
    (readTrieds saved n)[place]? =
      some { CAddrInfo.readOnto CAddrInfo.fresh info with
        nRandomPos := (n + place : Nat), fInTried := true } := by
  induction saved generalizing n place with
  | nil => cases here
  | cons first rest ih =>
    cases place with
    | zero =>
      cases here
      rfl
    | succ place =>
      rw [readTrieds, List.getElem?_cons_succ, ih here (n + 1),
        show n + 1 + place = n + (place + 1) by omega]

theorem readNews_length (mapInfo : Entries) (saved : List CAddrInfo) (n : Nat) :
    (readNews mapInfo saved n).length = saved.length := by
  induction saved generalizing n with
  | nil => rfl
  | cons first rest ih => rw [readNews, List.length_cons, List.length_cons, ih]

theorem readTrieds_length (saved : List CAddrInfo) (n : Nat) :
    (readTrieds saved n).length = saved.length := by
  induction saved generalizing n with
  | nil => rfl
  | cons first rest ih => rw [readTrieds, List.length_cons, List.length_cons, ih]

theorem readNews_ips (mapInfo : Entries) (saved : List CAddrInfo) (n : Nat) :
    (readNews mapInfo saved n).map CAddrInfo.ip = saved.map CAddrInfo.ip := by
  induction saved generalizing n with
  | nil => rfl
  | cons first rest ih =>
    rw [readNews, List.map_cons, List.map_cons, ih]
    rfl

theorem readTrieds_ips (saved : List CAddrInfo) (n : Nat) :
    (readTrieds saved n).map CAddrInfo.ip = saved.map CAddrInfo.ip := by
  induction saved generalizing n with
  | nil => rfl
  | cons first rest ih =>
    rw [readTrieds, List.map_cons, List.map_cons, ih]
    rfl

def triedSlot (rules : AddrRules) (nKey : Uint256) (info : CAddrInfo) : TriedBucket × Position :=
  (info.getTriedBucket rules nKey,
    info.getBucketPosition rules nKey false (info.getTriedBucket rules nKey))

theorem set_apart {count : Nat} {table : Table count} {bucket bucket' : Fin count}
    {pos pos' : Position} (nId : Option Nat) (apart : (bucket, pos) ≠ (bucket', pos')) :
    table.set bucket pos nId bucket' pos' = table bucket' pos' := by
  unfold Table.set
  rw [if_neg]
  intro same
  exact apart (by rw [same.1, same.2])

section Tried

variable {nKey : Uint256} {vvTried : Table ADDRMAN_TRIED_BUCKET_COUNT}

theorem placeTrieds_outside (saved : List CAddrInfo) (n : Nat)
    (vvTried : Table ADDRMAN_TRIED_BUCKET_COUNT) {bucket : TriedBucket} {pos : Position}
    (outside : ∀ info ∈ saved, triedSlot rules nKey info ≠ (bucket, pos)) :
    placeTrieds rules nKey saved n vvTried bucket pos = vvTried bucket pos := by
  induction saved generalizing n vvTried with
  | nil => rfl
  | cons first rest ih =>
    rw [placeTrieds, ih (n + 1) _ fun info member => outside info (List.mem_cons_of_mem _ member)]
    exact set_apart (some n) (outside first List.mem_cons_self)

theorem placeTrieds_at {saved : List CAddrInfo} {place : Nat} {info : CAddrInfo}
    (here : saved[place]? = some info) (apart : (saved.map (triedSlot rules nKey)).Nodup) (n : Nat)
    (vvTried : Table ADDRMAN_TRIED_BUCKET_COUNT) :
    placeTrieds rules nKey saved n vvTried (triedSlot rules nKey info).1
      (triedSlot rules nKey info).2 = some (n + place) := by
  induction saved generalizing n place vvTried with
  | nil => cases here
  | cons first rest ih =>
    obtain ⟨fresh, distinct⟩ := List.nodup_cons.mp apart
    cases place with
    | zero =>
      cases here
      rw [placeTrieds, placeTrieds_outside]
      · exact set_at _ _ _ _
      · intro other member same
        exact fresh (List.mem_map.mpr ⟨other, member, same⟩)
    | succ place =>
      rw [placeTrieds, show n + (place + 1) = n + 1 + place by omega]
      exact ih here distinct (n + 1) _

theorem free_of_apart {saved : List CAddrInfo} (n : Nat)
    (apart : (saved.map (triedSlot rules nKey)).Nodup)
    (empty : ∀ info ∈ saved,
      vvTried (triedSlot rules nKey info).1 (triedSlot rules nKey info).2 = none) :
    Free rules nKey vvTried saved n := by
  induction saved generalizing n vvTried with
  | nil => trivial
  | cons first rest ih =>
    obtain ⟨fresh, distinct⟩ := List.nodup_cons.mp apart
    refine ⟨empty first List.mem_cons_self, ih (n + 1) distinct ?_⟩
    intro info member
    rw [set_apart]
    · exact empty info (List.mem_cons_of_mem _ member)
    · intro same
      exact fresh (List.mem_map.mpr ⟨info, member, same.symm⟩)

end Tried

abbrev NewPlace := NewBucket × Position × Nat

def takeAll (rules : AddrRules) : List NewPlace → CAddrMan → CAddrMan
  | [], man => man
  | (bucket, _, n) :: rest, man =>
    takeAll rules rest (takeIndex rules true bucket (Int32.ofNat n) man)

theorem takeAll_append (first second : List NewPlace) (man : CAddrMan) :
    takeAll rules (first ++ second) man = takeAll rules second (takeAll rules first man) := by
  induction first generalizing man with
  | nil => rfl
  | cons place rest ih => exact ih _

def writeIndexes (places : List NewPlace) : Bytes :=
  places.flatMap fun place => signedInt.write (Int32.ofNat place.2.2)

theorem readIndexes_written (bucket : NewBucket) (places : List NewPlace)
    (own : ∀ place ∈ places, place.1 = bucket) (rest : Bytes) (man : CAddrMan) :
    readIndexes rules true bucket places.length (writeIndexes places ++ rest) man =
      some (takeAll rules places man, rest) := by
  induction places generalizing man with
  | nil => rfl
  | cons place others ih =>
    obtain ⟨bucket', pos, n⟩ := place
    have same : bucket' = bucket := own _ List.mem_cons_self
    simp only [writeIndexes, List.flatMap_cons, List.length_cons, readIndexes, List.append_assoc,
      signedInt_back, Option.bind_some, takeAll]
    rw [same]
    exact ih (fun other member => own other (List.mem_cons_of_mem _ member)) _

theorem size_back {size : Nat} (small : size < 2 ^ 31) : (Int32.ofNat size).toInt = size := by
  rw [Int32.toInt_ofNat_of_lt small]

theorem readBuckets_written (within : NewBucket → List NewPlace)
    (own : ∀ bucket, ∀ place ∈ within bucket, place.1 = bucket)
    (short : ∀ bucket, (within bucket).length < 2 ^ 31) (buckets : List NewBucket) (number : Nat)
    (consecutive : buckets.map Fin.val = List.range' number buckets.length) (rest : Bytes)
    (man : CAddrMan) :
    readBuckets rules true buckets.length number
        (buckets.flatMap (fun bucket =>
          signedInt.write (Int32.ofNat (within bucket).length) ++ writeIndexes (within bucket)) ++
            rest) man =
      some (takeAll rules (buckets.flatMap within) man, rest) := by
  induction buckets generalizing number man with
  | nil => rfl
  | cons bucket others ih =>
    obtain ⟨here, later⟩ := List.cons.inj consecutive
    simp only [List.flatMap_cons, List.length_cons, readBuckets, List.append_assoc, signedInt_back,
      Option.bind_some, size_back (short bucket), Int.toNat_natCast]
    rw [← here, readIndexes_written bucket (within bucket) (own bucket), Option.bind_some,
      takeAll_append, here]
    exact ih (number + 1) later _

def inBucket (table : Table ADDRMAN_NEW_BUCKET_COUNT) (bucket : NewBucket) : List NewPlace :=
  (List.finRange ADDRMAN_BUCKET_SIZE).filterMap fun pos =>
    (table bucket pos).map fun nId => (bucket, pos, nId)

theorem writeBucket_places {src : CAddrMan} {mapUnkIds : OrderedMap Nat Nat} {renumber : Nat → Nat}
    (noted : ∀ bucket pos n, src.vvNew bucket pos = some n → mapUnkIds.find? n = some (renumber n))
    (bucket : NewBucket) :
    writeBucket src mapUnkIds bucket =
      signedInt.write (Int32.ofNat
        (inBucket (fun bucket pos => (src.vvNew bucket pos).map renumber) bucket).length) ++
      writeIndexes (inBucket (fun bucket pos => (src.vvNew bucket pos).map renumber) bucket) := by
  unfold writeBucket inBucket writeIndexes
  have sizes : ∀ positions : List Position, (positions.filterMap (src.vvNew bucket)).length =
      (positions.filterMap fun pos =>
        ((src.vvNew bucket pos).map renumber).map fun nId => (bucket, pos, nId)).length := by
    intro positions
    induction positions with
    | nil => rfl
    | cons pos rest ih =>
      cases held : src.vvNew bucket pos with
      | none => simpa [held] using ih
      | some n => simpa [held] using ih
  have indexes : ∀ positions : List Position,
      (positions.filterMap (src.vvNew bucket)).flatMap (fun nId =>
        signedInt.write (Int32.ofNat ((mapUnkIds.find? nId).getD 0))) =
      (positions.filterMap fun pos =>
        ((src.vvNew bucket pos).map renumber).map fun nId => (bucket, pos, nId)).flatMap
          fun place => signedInt.write (Int32.ofNat place.2.2) := by
    intro positions
    induction positions with
    | nil => rfl
    | cons pos rest ih =>
      cases held : src.vvNew bucket pos with
      | none => simpa [held] using ih
      | some n => simpa [held, noted bucket pos n held] using ih
  simp [sizes, indexes]

theorem takeIndex_at {man : CAddrMan} {n : Nat} {info : CAddrInfo} (inside : (n : Int) < man.nNew)
    (small : n < 2 ^ 31) (found : man.mapInfo.find? n = some info) (bucket : NewBucket) :
    takeIndex rules true bucket (Int32.ofNat n) man =
      if man.vvNew bucket (info.getBucketPosition rules man.nKey true bucket) = none ∧
          info.nRefCount < ADDRMAN_NEW_BUCKETS_PER_ADDRESS then
        { man.setInfo n { info with nRefCount := info.nRefCount + 1 } with
          vvNew := man.vvNew.set bucket (info.getBucketPosition rules man.nKey true bucket)
            (some n) }
      else man := by
  have number := size_back small
  have itself : (Fin.ofNat ADDRMAN_NEW_BUCKET_COUNT bucket.val) = bucket :=
    Fin.ext (Nat.mod_eq_of_lt bucket.isLt)
  unfold takeIndex
  rw [number, if_pos ⟨by omega, inside⟩]
  simp only [Int.toNat_natCast, found, Option.getD_some, itself, true_and]

def counting (info : CAddrInfo) (more : Nat) : CAddrInfo :=
  { info with nRefCount := info.nRefCount + more }

theorem counting_succ (info : CAddrInfo) (more : Nat) :
    { counting info more with nRefCount := (counting info more).nRefCount + 1 } =
      counting info (more + 1) := by
  simp [counting, Int.add_assoc]

structure Filled (rules : AddrRules) (start man : CAddrMan) : Prop where
  same : man = { start with mapInfo := man.mapInfo, vvNew := man.vvNew }
  others : ∀ (m : Nat), start.nNew ≤ m → man.mapInfo.find? m = start.mapInfo.find? m
  news : ∀ (m : Nat) info, (m : Int) < start.nNew → start.mapInfo.find? m = some info →
    man.mapInfo.find? m = some (counting info (newCount rules start.nKey man.vvNew m info))
  inNew : ∀ bucket pos (m : Nat), man.vvNew bucket pos = some m → (m : Int) < start.nNew ∧
    ∃ info, start.mapInfo.find? m = some info ∧
      info.getBucketPosition rules start.nKey true bucket = pos

section Fill

variable {start man : CAddrMan}

section
variable (filled : Filled rules start man)
include filled

theorem Filled.key : man.nKey = start.nKey := by
  rw [filled.same]

theorem Filled.count : man.nNew = start.nNew := by
  rw [filled.same]

theorem Filled.random : man.vRandom = start.vRandom := by
  rw [filled.same]

theorem Filled.addr : man.mapAddr = start.mapAddr := by
  rw [filled.same]

theorem Filled.tried : man.vvTried = start.vvTried := by
  rw [filled.same]

theorem Filled.countTried : man.nTried = start.nTried := by
  rw [filled.same]

theorem Filled.take {n : Nat} {info : CAddrInfo} (inside : (n : Int) < start.nNew)
    (small : n < 2 ^ 31) (found : start.mapInfo.find? n = some info) (bucket : NewBucket) :
    Filled rules start (takeIndex rules true bucket (Int32.ofNat n) man) := by
  have standing := filled.news n info inside found
  have place : (counting info (newCount rules start.nKey man.vvNew n info)).getBucketPosition rules
      man.nKey true bucket = info.getBucketPosition rules start.nKey true bucket := by
    rw [filled.key]
    exact bucketPosition_service rfl true bucket
  rw [takeIndex_at (by rw [filled.count]; exact inside) small standing, place]
  split
  · rename_i taken
    have before : ∀ m, man.vvNew bucket (info.getBucketPosition rules start.nKey true bucket) =
        some m → m = n := by
      intro m here
      rw [taken.1] at here
      cases here
    have after : ∀ m, some n = some m → m = n := fun m here => (Option.some.inj here).symm
    constructor
    · rw [filled.same]
      rfl
    · intro m beyond
      have different : m ≠ n := by omega
      exact (find?_set_other _ _ different).trans (filled.others m beyond)
    · intro m entry below here
      by_cases own : m = n
      · rw [own, found] at here
        cases here
        have counted := @newCount_set rules start.nKey n info man.vvNew bucket _ (some n) rfl
        rw [taken.1] at counted
        simp only [reduceCtorEq, decide_false, Bool.toNat_false, decide_true, Bool.toNat_true,
          Nat.add_zero] at counted
        rw [own]
        refine (find?_set_same _ _ _).trans ?_
        simp [counted, counting_succ]
      · have fewer := @newCount_other rules start.nKey n man.vvNew bucket (some n) _ before after m
          own entry
        simp only [fewer]
        exact (find?_set_other _ _ own).trans (filled.news m entry below here)
    · intro bucket' pos' m here
      by_cases own : m = n
      · rw [own]
        refine ⟨inside, info, found, ?_⟩
        by_cases spot : bucket' = bucket ∧ pos' = info.getBucketPosition rules start.nKey true bucket
        · rw [spot.1, spot.2]
        · simp only [Table.set, if_neg spot] at here
          rw [own] at here
          obtain ⟨_, entry, here', at'⟩ := filled.inNew bucket' pos' n here
          rw [found] at here'
          cases here'
          exact at'
      · exact filled.inNew bucket' pos' m ((set_other before after own bucket' pos').mp here)
  · exact filled

theorem Filled.takeAll (places : List NewPlace)
    (valid : ∀ bucket pos (n : Nat), (bucket, pos, n) ∈ places →
      (n : Int) < start.nNew ∧ n < 2 ^ 31 ∧ ∃ info, start.mapInfo.find? n = some info) :
    Filled rules start (takeAll rules places man) := by
  induction places generalizing man with
  | nil => exact filled
  | cons place rest ih =>
    obtain ⟨bucket, pos, n⟩ := place
    obtain ⟨inside, small, info, found⟩ := valid bucket pos n List.mem_cons_self
    apply ih (filled.take inside small found bucket)
    intro bucket' pos' n' member
    exact valid bucket' pos' n' (List.mem_cons_of_mem _ member)

end

structure Target (rules : AddrRules) (start : CAddrMan) (goal : Table ADDRMAN_NEW_BUCKET_COUNT) :
    Prop where
  valid : ∀ bucket pos (n : Nat), goal bucket pos = some n →
    (n : Int) < start.nNew ∧ n < 2 ^ 31 ∧ ∃ info, start.mapInfo.find? n = some info ∧
      info.nRefCount = 0 ∧ info.getBucketPosition rules start.nKey true bucket = pos
  few : ∀ (n : Nat) info, (n : Int) < start.nNew → start.mapInfo.find? n = some info →
    (newCount rules start.nKey goal n info : Int) ≤ ADDRMAN_NEW_BUCKETS_PER_ADDRESS

theorem newCount_fewer {nKey : Uint256} {goal vvNew : Table ADDRMAN_NEW_BUCKET_COUNT} {n : Nat}
    {info : CAddrInfo} {bucket : NewBucket}
    (within : ∀ bucket pos m, vvNew bucket pos = some m → goal bucket pos = some m)
    (missing : vvNew bucket (info.getBucketPosition rules nKey true bucket) = none)
    (wanted : goal bucket (info.getBucketPosition rules nKey true bucket) = some n) :
    newCount rules nKey vvNew n info < newCount rules nKey goal n info := by
  have counted := @newCount_set rules nKey n info vvNew bucket _ (some n) rfl
  rw [missing] at counted
  simp only [reduceCtorEq, decide_false, Bool.toNat_false, decide_true, Bool.toNat_true,
    Nat.add_zero] at counted
  have most : newCount rules nKey (vvNew.set bucket
      (info.getBucketPosition rules nKey true bucket) (some n)) n info ≤
      newCount rules nKey goal n info := by
    apply List.countP_mono_left
    intro bucket' _ here
    rw [decide_eq_true_eq] at here ⊢
    simp only [Table.set] at here
    split at here
    · rename_i spot
      rw [spot.1]
      exact wanted
    · exact within _ _ _ here
  omega

theorem Filled.reaches {goal : Table ADDRMAN_NEW_BUCKET_COUNT}
    (target : Target rules start goal) (places : List NewPlace) (filled : Filled rules start man)
    (within : ∀ bucket pos m, man.vvNew bucket pos = some m → goal bucket pos = some m)
    (wanted : ∀ bucket pos n, (bucket, pos, n) ∈ places → goal bucket pos = some n)
    (left : ∀ bucket pos n, goal bucket pos = some n →
      man.vvNew bucket pos = some n ∨ (bucket, pos, n) ∈ places) :
    (OxidAddrManRestore.takeAll rules places man).vvNew = goal := by
  induction places generalizing man with
  | nil =>
    funext bucket pos
    apply Option.ext
    intro n
    constructor
    · exact within bucket pos n
    · intro here
      rcases left bucket pos n here with there | absent
      · exact there
      · cases absent
  | cons place rest ih =>
    obtain ⟨bucket, pos, n⟩ := place
    have here := wanted bucket pos n List.mem_cons_self
    obtain ⟨inside, small, info, found, unreferenced, atPos⟩ := target.valid bucket pos n here
    have next := filled.take inside small found bucket
    have standing := filled.news n info inside found
    have place : (counting info (newCount rules start.nKey man.vvNew n info)).getBucketPosition
        rules man.nKey true bucket = pos := by
      rw [filled.key, ← atPos]
      exact bucketPosition_service rfl true bucket
    have step := @takeIndex_at rules man n _ (by rw [filled.count]; exact inside) small
      standing bucket
    rw [place] at step
    have wanted' := fun bucket' pos' n' member =>
      wanted bucket' pos' n' (List.mem_cons_of_mem _ member)
    unfold OxidAddrManRestore.takeAll
    cases held : man.vvNew bucket pos with
    | some m =>
      have same : m = n := by
        have there := within bucket pos m held
        rw [here] at there
        exact (Option.some.inj there).symm
      rw [if_neg (by rw [held]; exact fun absent => nomatch absent.1)] at step
      rw [step] at next ⊢
      apply ih next within wanted'
      intro bucket' pos' n' goes
      rcases left bucket' pos' n' goes with there | member
      · exact .inl there
      · rcases List.mem_cons.mp member with own | further
        · cases own
          exact .inl (by rw [held, same])
        · exact .inr further
    | none =>
      have room : info.nRefCount + newCount rules start.nKey man.vvNew n info <
          ADDRMAN_NEW_BUCKETS_PER_ADDRESS := by
        have fewer := @newCount_fewer rules start.nKey goal man.vvNew n info bucket within
          (by rw [atPos, held]) (by rw [atPos, here])
        have few := target.few n info inside found
        omega
      rw [if_pos ⟨held, room⟩] at step
      rw [step] at next ⊢
      apply ih next
      · intro bucket' pos' m there
        simp only [Table.set] at there
        split at there
        · rename_i spot
          cases there
          rw [spot.1, spot.2]
          exact here
        · exact within bucket' pos' m there
      · exact wanted'
      · intro bucket' pos' n' goes
        simp only [Table.set]
        split
        · rename_i spot
          rw [spot.1, spot.2, here] at goes
          exact .inl goes
        · rename_i spot
          rcases left bucket' pos' n' goes with there | member
          · exact .inl there
          · rcases List.mem_cons.mp member with own | further
            · cases own
              exact absurd ⟨rfl, rfl⟩ spot
            · exact .inr further

end Fill

end OxidAddrManRestore
