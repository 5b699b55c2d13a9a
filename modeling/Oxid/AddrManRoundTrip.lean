import Oxid.AddrManRestore
import Oxid.AddrManRuns

/-!
What the reader makes of the file that an address manager wrote: the same manager under new
numbers, if nothing is left under others.
-/
namespace OxidAddrManRoundTrip
open OxidPrimitives OxidMasternode OxidMasternodeMan OxidMasternodeStore OxidAddrMan
  OxidAddrManInvariant OxidAddrManCheck OxidAddrManStore OxidAddrManRestore OrderedMaps OrderedMap
  Serialize

def news (src : CAddrMan) : List (Nat × CAddrInfo) :=
  src.mapInfo.entries.filter fun entry => !isTried entry

def trieds (src : CAddrMan) : List (Nat × CAddrInfo) := src.mapInfo.entries.filter isTried

def order (src : CAddrMan) : List (Nat × CAddrInfo) := news src ++ trieds src

def renumber (src : CAddrMan) (n : Nat) : Nat := ((order src).map Prod.fst).idxOf n

def newGoal (src : CAddrMan) : Table ADDRMAN_NEW_BUCKET_COUNT :=
  fun bucket pos => (src.vvNew bucket pos).map (renumber src)

def triedGoal (src : CAddrMan) : Table ADDRMAN_TRIED_BUCKET_COUNT :=
  fun bucket pos => (src.vvTried bucket pos).map (renumber src)

section Order

variable {src : CAddrMan} {info : CAddrInfo} {n : Nat}

theorem mem_order :
    (n, info) ∈ order src ↔ src.mapInfo.find? n = some info := by
  rw [order, List.mem_append, ← mem_entries_iff]
  constructor
  · intro listed
    rcases listed with new | tried
    · exact (List.mem_filter.mp new).1
    · exact (List.mem_filter.mp tried).1
  · intro member
    cases tried : isTried (n, info) with
    | false => exact .inl (List.mem_filter.mpr ⟨member, by rw [tried]; rfl⟩)
    | true => exact .inr (List.mem_filter.mpr ⟨member, tried⟩)

theorem order_perm : (order src).Perm src.mapInfo.entries := by
  have split := List.filter_append_perm isTried src.mapInfo.entries
  exact (List.perm_append_comm.trans split)

theorem order_nodup : ((order src).map Prod.fst).Nodup :=
  (order_perm.map Prod.fst).nodup_iff.mpr src.mapInfo.keys_nodup

theorem renumber_at {place n : Nat} (here : (order src)[place]? = some (n, info)) :
    renumber src n = place := by
  have listed : ((order src).map Prod.fst)[place]? = some n := by
    rw [List.getElem?_map, here]
    rfl
  obtain ⟨inside, same⟩ := List.getElem?_eq_some_iff.mp listed
  rw [renumber, ← same]
  exact List.Nodup.idxOf_getElem order_nodup place inside

theorem at_renumber (found : src.mapInfo.find? n = some info) :
    (order src)[renumber src n]? = some (n, info) := by
  obtain ⟨place, here⟩ := List.mem_iff_getElem?.mp (mem_order.mpr found)
  rw [renumber_at here, here]

theorem renumber_inj {n m : Nat} {info info' : CAddrInfo}
    (found : src.mapInfo.find? n = some info) (found' : src.mapInfo.find? m = some info')
    (same : renumber src n = renumber src m) : n = m := by
  have here := at_renumber found
  rw [same, at_renumber found'] at here
  cases here
  rfl

theorem news_at {place : Nat} (inside : place < (news src).length) :
    (order src)[place]? = (news src)[place]? := List.getElem?_append_left inside

theorem trieds_at (place : Nat) :
    (order src)[(news src).length + place]? = (trieds src)[place]? := by
  rw [order, List.getElem?_append_right (by omega), Nat.add_sub_cancel_left]

theorem renumber_new (found : src.mapInfo.find? n = some info) (untried : info.fInTried = false) :
    renumber src n < (news src).length ∧ (news src)[renumber src n]? = some (n, info) := by
  have member : (n, info) ∈ news src :=
    List.mem_filter.mpr ⟨(mem_entries_iff _ _ _).mpr found, by simp [isTried, untried]⟩
  obtain ⟨place, here⟩ := List.mem_iff_getElem?.mp member
  have inside := (List.getElem?_eq_some_iff.mp here).1
  have same := renumber_at ((news_at inside).trans here)
  rw [same]
  exact ⟨inside, here⟩

theorem renumber_tried (found : src.mapInfo.find? n = some info) (tried : info.fInTried = true) :
    ∃ place, renumber src n = (news src).length + place ∧
      (trieds src)[place]? = some (n, info) := by
  have member : (n, info) ∈ trieds src :=
    List.mem_filter.mpr ⟨(mem_entries_iff _ _ _).mpr found, tried⟩
  obtain ⟨place, here⟩ := List.mem_iff_getElem?.mp member
  exact ⟨place, renumber_at ((trieds_at place).trans here), here⟩

end Order

section Writing

variable {rules : AddrRules} {src : CAddrMan}

theorem writeNew_written (entries : List (Nat × CAddrInfo)) (nIds : Nat)
    (mapUnkIds : OrderedMap Nat Nat)
    (referenced : ∀ entry ∈ entries, entry.2.nRefCount ≠ 0 ↔ isTried entry = false)
    (room : (nIds : Int) + (entries.countP fun entry => !isTried entry) ≤ src.nNew)
    (apart : (entries.map Prod.fst).Nodup) :
    ∃ mapUnkIds', writeNew src entries nIds mapUnkIds =
        some (writeInfos ((entries.filter fun entry => !isTried entry).map Prod.snd), mapUnkIds') ∧
      (∀ (place : Nat) entry, (entries.filter fun entry => !isTried entry)[place]? = some entry →
        mapUnkIds'.find? entry.1 = some (nIds + place)) ∧
      ∀ n, n ∉ entries.map Prod.fst → mapUnkIds'.find? n = mapUnkIds.find? n := by
  induction entries generalizing nIds mapUnkIds with
  | nil =>
    refine ⟨mapUnkIds, rfl, ?_, fun n _ => rfl⟩
    intro place entry absent
    cases absent
  | cons first rest ih =>
    obtain ⟨n, info⟩ := first
    obtain ⟨fresh, distinct⟩ := List.nodup_cons.mp apart
    have others := fun entry member => referenced entry (List.mem_cons_of_mem _ member)
    have outside : ∀ (mapUnkIds' : OrderedMap Nat Nat),
        (∀ m, m ∉ rest.map Prod.fst → mapUnkIds'.find? m = (mapUnkIds.set n nIds).find? m) →
        ∀ m, m ∉ ((n, info) :: rest).map Prod.fst → mapUnkIds'.find? m = mapUnkIds.find? m := by
      intro mapUnkIds' rest' m away
      rw [List.map_cons, List.mem_cons, not_or] at away
      rw [rest' m away.2, find?_set_other _ _ away.1]
    cases tried : isTried (n, info) with
    | true =>
      have none : info.nRefCount = 0 := by
        by_contra some
        have untried := (referenced (n, info) List.mem_cons_self).mp some
        rw [tried] at untried
        cases untried
      rw [List.countP_cons_of_neg (by simp [tried])] at room
      obtain ⟨mapUnkIds', written, noted, kept⟩ := ih nIds (mapUnkIds.set n nIds) others room distinct
      refine ⟨mapUnkIds', ?_, ?_, outside mapUnkIds' kept⟩
      · rw [writeNew, if_neg (fun some => some none), written]
        simp [tried]
      · simpa [tried] using noted
    | false =>
      have some : info.nRefCount ≠ 0 := (referenced (n, info) List.mem_cons_self).mpr tried
      rw [List.countP_cons_of_pos (by simp [tried])] at room
      obtain ⟨mapUnkIds', written, noted, kept⟩ :=
        ih (nIds + 1) (mapUnkIds.set n nIds) others (by omega) distinct
      refine ⟨mapUnkIds', ?_, ?_, outside mapUnkIds' kept⟩
      · rw [writeNew, if_pos some, if_neg (by omega), written]
        simp [tried, writeInfos]
      · intro place entry here
        rw [List.filter_cons_of_pos (by simp [tried])] at here
        cases place with
        | zero =>
          cases here
          rw [kept n fresh, find?_set_same]
          rfl
        | succ place =>
          rw [noted place entry here]
          congr 1
          omega

theorem writeTried_written (entries : List (Nat × CAddrInfo)) (nIds : Nat)
    (room : (nIds : Int) + entries.countP isTried ≤ src.nTried) :
    writeTried src entries nIds = some (writeInfos ((entries.filter isTried).map Prod.snd)) := by
  induction entries generalizing nIds with
  | nil => rfl
  | cons first rest ih =>
    obtain ⟨n, info⟩ := first
    cases tried : isTried (n, info) with
    | true =>
      rw [List.countP_cons_of_pos tried] at room
      rw [writeTried, if_pos (by exact tried), if_neg (by omega), ih (nIds + 1) (by omega)]
      simp [tried, writeInfos]
    | false =>
      rw [List.countP_cons_of_neg (by simp [tried])] at room
      rw [writeTried, if_neg (by intro inTried; rw [isTried, inTried] at tried; cases tried),
        ih nIds room]
      simp [tried]

theorem occupied_length {count : Nat} (table : Table count) :
    (CAddrMan.occupied table).length ≤ count * ADDRMAN_BUCKET_SIZE := by
  have buckets : ∀ buckets : List (Fin count), (buckets.flatMap fun bucket =>
      (List.finRange ADDRMAN_BUCKET_SIZE).filterMap fun pos =>
        (table bucket pos).map fun nId => (bucket, pos, nId)).length ≤
      buckets.length * ADDRMAN_BUCKET_SIZE := by
    intro buckets
    induction buckets with
    | nil => simp
    | cons bucket rest ih =>
      have one := List.length_filterMap_le
        (fun pos => (table bucket pos).map fun nId => (bucket, pos, nId))
        (List.finRange ADDRMAN_BUCKET_SIZE)
      rw [List.length_finRange] at one
      rw [List.flatMap_cons, List.length_append, List.length_cons, Nat.succ_mul]
      omega
  have all := buckets (List.finRange count)
  rwa [List.length_finRange] at all

theorem listed_length {count : Nat} {table : Table count} {entries : List (Nat × CAddrInfo)}
    (apart : (entries.map Prod.fst).Nodup)
    (placed : ∀ entry ∈ entries, ∃ bucket pos, table bucket pos = some entry.1) :
    entries.length ≤ count * ADDRMAN_BUCKET_SIZE := by
  have within : entries.map Prod.fst ⊆ (CAddrMan.occupied table).map fun place => place.2.2 := by
    intro n member
    obtain ⟨entry, inside, same⟩ := List.mem_map.mp member
    obtain ⟨bucket, pos, here⟩ := placed entry inside
    rw [same] at here
    exact List.mem_map.mpr ⟨_, mem_occupied here, rfl⟩
  have fewer := (List.subperm_of_subset apart within).length_le
  rw [List.length_map, List.length_map] at fewer
  exact fewer.trans (occupied_length table)

theorem new_length (checked : Checked rules src) : src.nNew = (news src).length := by
  rw [checked.new, List.countP_eq_length_filter]
  rfl

theorem tried_length (checked : Checked rules src) : src.nTried = (trieds src).length := by
  rw [checked.tried, List.countP_eq_length_filter]
  rfl

theorem found_in {keep : Nat × CAddrInfo → Bool} {entry : Nat × CAddrInfo}
    (member : entry ∈ src.mapInfo.entries.filter keep) :
    src.mapInfo.find? entry.1 = some entry.2 ∧ keep entry = true := by
  obtain ⟨inside, kept⟩ := List.mem_filter.mp member
  exact ⟨(mem_entries_iff _ _ _).mp inside, kept⟩

theorem news_small (checked : Checked rules src) : (news src).length ≤ 65536 := by
  apply @listed_length ADDRMAN_NEW_BUCKET_COUNT src.vvNew
  · exact ((List.filter_sublist).map Prod.fst).nodup src.mapInfo.keys_nodup
  · intro entry member
    obtain ⟨found, untried⟩ := found_in member
    have some := (checked.entry _ _ found).referenced (by simpa [isTried] using untried)
    have counted := held_new checked.bucketed found
    exact held_some (by omega)

theorem trieds_small (checked : Checked rules src) : (trieds src).length ≤ 16384 := by
  apply @listed_length ADDRMAN_TRIED_BUCKET_COUNT src.vvTried
  · exact ((List.filter_sublist).map Prod.fst).nodup src.mapInfo.keys_nodup
  · intro entry member
    obtain ⟨found, tried⟩ := found_in member
    exact ⟨_, _, (checked.bucketed.tried _ _ found tried).2⟩

def written (src : CAddrMan) : Bytes :=
  byte.write 1 ++ byte.write 32 ++ uint256.write src.nKey ++
    signedInt.write (Int32.ofInt src.nNew) ++ signedInt.write (Int32.ofInt src.nTried) ++
    signedInt.write nBucketsWritten ++ writeInfos ((news src).map Prod.snd) ++
    writeInfos ((trieds src).map Prod.snd) ++
    (List.finRange ADDRMAN_NEW_BUCKET_COUNT).flatMap fun bucket =>
      signedInt.write (Int32.ofNat (inBucket (newGoal src) bucket).length) ++
        writeIndexes (inBucket (newGoal src) bucket)

theorem serialize_written (checked : Checked rules src) : serialize src = some (written src) := by
  have referenced : ∀ entry ∈ src.mapInfo.entries,
      entry.2.nRefCount ≠ 0 ↔ isTried entry = false := by
    intro entry member
    have passes := checked.entry _ _ ((mem_entries_iff _ _ _).mp member)
    constructor
    · intro some
      by_contra tried
      exact some (passes.unreferenced (by simpa [isTried] using tried))
    · intro untried
      have some := passes.referenced untried
      omega
  obtain ⟨mapUnkIds, new, noted, _⟩ := writeNew_written src.mapInfo.entries 0 ∅ referenced
    (by rw [checked.new]; omega) src.mapInfo.keys_nodup
  have tried := @writeTried_written src src.mapInfo.entries 0 (by rw [checked.tried]; omega)
  have numbered : ∀ bucket pos n, src.vvNew bucket pos = some n →
      mapUnkIds.find? n = some (renumber src n) := by
    intro bucket pos n here
    obtain ⟨info, found, untried, _⟩ := checked.bucketed.inNew bucket pos n here
    obtain ⟨_, listed⟩ := renumber_new found untried
    rw [noted _ (n, info) listed, Nat.zero_add]
  have buckets : (List.finRange ADDRMAN_NEW_BUCKET_COUNT).flatMap (writeBucket src mapUnkIds) =
      (List.finRange ADDRMAN_NEW_BUCKET_COUNT).flatMap fun bucket =>
        signedInt.write (Int32.ofNat (inBucket (newGoal src) bucket).length) ++
          writeIndexes (inBucket (newGoal src) bucket) := by
    congr 1
    funext bucket
    exact writeBucket_places numbered bucket
  simp only [serialize, new, Option.bind_some, tried, Option.map_some, buckets]
  rfl

end Writing

section Reading

variable {rules : AddrRules} {src : CAddrMan}

def loaded (rules : AddrRules) (src dst : CAddrMan) : CAddrMan where
  nKey := src.nKey
  nIdCount := (news src).length + (trieds src).length
  mapInfo :=
    enteredInfo (readTrieds ((trieds src).map Prod.snd) (news src).length) (news src).length
      (enteredInfo (readNews dst.mapInfo ((news src).map Prod.snd) 0) 0 dst.mapInfo)
  mapAddr :=
    enteredAddr (readTrieds ((trieds src).map Prod.snd) (news src).length) (news src).length
      (enteredAddr (readNews dst.mapInfo ((news src).map Prod.snd) 0) 0 dst.mapAddr)
  vRandom := List.range ((news src).length + (trieds src).length)
  nTried := src.nTried
  vvTried :=
    placeTrieds rules src.nKey ((trieds src).map Prod.snd) (news src).length fun _ _ => none
  nNew := src.nNew
  vvNew := fun _ _ => none

theorem byte_back (value : UInt8) (rest : Bytes) :
    byte.read (byte.write value ++ rest) = some (value, rest) := by
  rw [byte.reads_back value rest trivial, byte_lossless value]

theorem uint256_back (value : Uint256) (rest : Bytes) :
    uint256.read (uint256.write value ++ rest) = some (value, rest) := by
  rw [uint256.reads_back value rest trivial, uint256_lossless value]

theorem int_back {value : Int} {size : Nat} (same : value = size) (small : size ≤ 65536) :
    (Int32.ofInt value).toInt = value := by
  rw [Int32.toInt_ofInt]
  apply Int.bmod_eq_of_le
  · have word : Int32.size = 2 ^ 32 := rfl
    omega
  · have word : Int32.size = 2 ^ 32 := rfl
    omega

theorem occupied_inBucket (table : Table ADDRMAN_NEW_BUCKET_COUNT) :
    (List.finRange ADDRMAN_NEW_BUCKET_COUNT).flatMap (inBucket table) =
      CAddrMan.occupied table := by
  congr 1

theorem inBucket_own (bucket : NewBucket) : ∀ place ∈ inBucket (newGoal src) bucket,
    place.1 = bucket := by
  intro place member
  obtain ⟨pos, _, here⟩ := List.mem_filterMap.mp member
  obtain ⟨n, _, same⟩ := Option.map_eq_some_iff.mp here
  rw [← same]

theorem inBucket_short (bucket : NewBucket) : (inBucket (newGoal src) bucket).length < 2 ^ 31 := by
  have fewer := List.length_filterMap_le
    (fun pos => (newGoal src bucket pos).map fun nId => (bucket, pos, nId))
    (List.finRange ADDRMAN_BUCKET_SIZE)
  exact Nat.lt_of_le_of_lt fewer (by decide)

theorem trieds_free (checked : Checked rules src) :
    (((trieds src).map Prod.snd).map (triedSlot rules src.nKey)).Nodup := by
  rw [List.map_map]
  apply List.Nodup.map_on
  · intro entry member entry' member' same
    obtain ⟨found, tried⟩ := found_in member
    obtain ⟨found', tried'⟩ := found_in member'
    have here := (checked.bucketed.tried _ _ found tried).2
    have there := (checked.bucketed.tried _ _ found' tried').2
    have atBucket := congrArg Prod.fst same
    have atPos := congrArg Prod.snd same
    simp only [Function.comp, triedSlot] at atBucket atPos
    rw [atBucket] at here atPos
    rw [atPos, there] at here
    have own := Option.some.inj here
    rw [← own, found'] at found
    exact Prod.ext own.symm (Option.some.inj found).symm
  · exact (List.Nodup.of_map Prod.fst src.mapInfo.keys_nodup).filter _

theorem unserialize_written (checked : Checked rules src) (randHash : Uint256) (dst : CAddrMan) :
    unserialize rules randHash (written src) dst =
      (prune
        ((takeAll rules (CAddrMan.occupied (newGoal src)) (loaded rules src dst)).mapInfo.entries.map
          Prod.fst)
        (takeAll rules (CAddrMan.occupied (newGoal src)) (loaded rules src dst))).map
          fun man => (man, []) := by
  have countNew := new_length checked
  have countTried := tried_length checked
  have numberNew := int_back countNew (news_small checked)
  have numberTried := int_back countTried ((trieds_small checked).trans (by decide))
  have sizeNew : src.nNew.toNat = ((news src).map Prod.snd).length := by
    rw [countNew, List.length_map, Int.toNat_natCast]
  have sizeTried : src.nTried.toNat = ((trieds src).map Prod.snd).length := by
    rw [countTried, List.length_map, Int.toNat_natCast]
  have buckets : (nBucketsWritten ^^^ Int32.ofNat (2 ^ 30)).toInt = ADDRMAN_NEW_BUCKET_COUNT := by
    decide
  unfold unserialize written
  simp only [List.append_assoc, byte_back, uint256_back, signedInt_back, Option.bind_eq_bind,
    Option.bind_some, numberNew, numberTried]
  generalize indexes : (List.finRange ADDRMAN_NEW_BUCKET_COUNT).flatMap (fun bucket =>
    signedInt.write (Int32.ofNat (inBucket (newGoal src) bucket).length) ++
      writeIndexes (inBucket (newGoal src) bucket)) = stream
  have compare : (if (1 : UInt8) ≠ 0 then nBucketsWritten ^^^ Int32.ofNat (2 ^ 30)
      else nBucketsWritten) = nBucketsWritten ^^^ Int32.ofNat (2 ^ 30) := rfl
  rw [if_neg (by decide), sizeNew]
  simp only [compare, buckets, true_and, decide_true, Int.toNat_natCast]
  rw [readNew_written _ 0 _ _ rfl]
  simp only [Option.bind_some, entered, sizeTried, sizeNew]
  rw [readTried_written _ (news src).length]
  · have taken := @readBuckets_written rules (inBucket (newGoal src)) inBucket_own
      inBucket_short (List.finRange ADDRMAN_NEW_BUCKET_COUNT) 0 (by
        rw [List.length_finRange, List.map_coe_finRange_eq_range, List.range_eq_range']) []
      (loaded rules src dst)
    rw [List.length_finRange, List.append_nil, indexes] at taken
    have random : (clear randHash dst).vRandom ++ List.range' 0 (news src).length ++
        List.range' (news src).length (trieds src).length =
        List.range ((news src).length + (trieds src).length) := by
      rw [List.range_eq_range', ← List.range'_append_1, Nat.zero_add]
      rfl
    simp only [Option.bind_some, entered, readNews_length, readTrieds_length, List.length_map,
      Int.sub_zero, random]
    change ((readBuckets rules true ADDRMAN_NEW_BUCKET_COUNT 0 stream (loaded rules src dst)).bind
      fun read => (prune (read.1.mapInfo.entries.map Prod.fst) read.1).bind
        fun man => some (man, read.2)) = _
    rw [occupied_inBucket] at taken
    rw [taken, Option.bind_some]
    generalize takeAll rules (CAddrMan.occupied (newGoal src)) (loaded rules src dst) = man
    exact (Option.map_eq_bind).symm
  · simp [clear, readNews_length]
  · simp
  · exact free_of_apart _ (trieds_free checked) fun _ _ => rfl

end Reading

section Read

variable {rules : AddrRules} {src : CAddrMan} (dst : CAddrMan)

def entriesRead (src dst : CAddrMan) : List CAddrInfo :=
  readNews dst.mapInfo ((news src).map Prod.snd) 0 ++
    readTrieds ((trieds src).map Prod.snd) (news src).length

theorem loaded_mapInfo :
    (loaded rules src dst).mapInfo = enteredInfo (entriesRead src dst) 0 dst.mapInfo := by
  rw [entriesRead, enteredInfo_append, readNews_length, List.length_map, Nat.zero_add]
  rfl

theorem loaded_mapAddr :
    (loaded rules src dst).mapAddr = enteredAddr (entriesRead src dst) 0 dst.mapAddr := by
  rw [entriesRead, enteredAddr_append, readNews_length, List.length_map, Nat.zero_add]
  rfl

theorem entriesRead_length :
    (entriesRead src dst).length = (news src).length + (trieds src).length := by
  rw [entriesRead, List.length_append, readNews_length, readTrieds_length, List.length_map,
    List.length_map]

theorem entriesRead_ips :
    (entriesRead src dst).map CAddrInfo.ip = (order src).map fun entry => entry.2.ip := by
  rw [entriesRead, List.map_append, readNews_ips, readTrieds_ips, List.map_map, List.map_map, order,
    List.map_append]
  rfl

variable {info : CAddrInfo}

theorem loaded_new {m n : Nat} (here : (news src)[m]? = some (n, info)) :
    (loaded rules src dst).mapInfo.find? m =
      some { CAddrInfo.readOnto ((dst.mapInfo.find? m).getD CAddrInfo.fresh) info with
        nRandomPos := m } := by
  have inside := (List.getElem?_eq_some_iff.mp here).1
  have saved : ((news src).map Prod.snd)[m]? = some info := by
    rw [List.getElem?_map, here]
    rfl
  have read : (entriesRead src dst)[m]? =
      some { CAddrInfo.readOnto ((dst.mapInfo.find? (0 + m)).getD CAddrInfo.fresh) info with
        nRandomPos := (0 + m : Nat) } := by
    rw [entriesRead, List.getElem?_append_left (by rwa [readNews_length, List.length_map])]
    exact readNews_at saved dst.mapInfo 0
  have found := enteredInfo_at read 0 dst.mapInfo
  rw [Nat.zero_add] at found
  rw [loaded_mapInfo, found]

theorem loaded_tried {place n : Nat} (here : (trieds src)[place]? = some (n, info)) :
    (loaded rules src dst).mapInfo.find? ((news src).length + place) =
      some { CAddrInfo.readOnto CAddrInfo.fresh info with
        nRandomPos := ((news src).length + place : Nat), fInTried := true } := by
  have saved : ((trieds src).map Prod.snd)[place]? = some info := by
    rw [List.getElem?_map, here]
    rfl
  exact enteredInfo_at (readTrieds_at saved _) _ _

theorem loaded_beyond {m : Nat} (beyond : (news src).length + (trieds src).length ≤ m) :
    (loaded rules src dst).mapInfo.find? m = dst.mapInfo.find? m := by
  rw [loaded_mapInfo, enteredInfo_outside]
  rw [entriesRead_length]
  omega

theorem order_ips (checked : Checked rules src) :
    ((order src).map fun entry => entry.2.ip).Nodup := by
  apply List.Nodup.map_on
  · intro entry member entry' member' same
    have found := mem_order.mp (show (entry.1, entry.2) ∈ order src from member)
    have found' := mem_order.mp (show (entry'.1, entry'.2) ∈ order src from member')
    have named := (checked.entry _ _ found).named
    rw [same, (checked.entry _ _ found').named] at named
    rw [← named, found'] at found
    exact Prod.ext named.symm (Option.some.inj found).symm
  · exact List.Nodup.of_map Prod.fst order_nodup

theorem loaded_named (checked : Checked rules src) {m n : Nat}
    (here : (order src)[m]? = some (n, info)) :
    (loaded rules src dst).mapAddr.find? info.ip = some m := by
  have ips := @entriesRead_ips src dst
  have listed : ((entriesRead src dst).map CAddrInfo.ip)[m]? = some info.ip := by
    rw [ips, List.getElem?_map, here]
    rfl
  rw [List.getElem?_map] at listed
  obtain ⟨entry, read, same⟩ := Option.map_eq_some_iff.mp listed
  rw [loaded_mapAddr, ← same, enteredAddr_at read (by rw [ips]; exact order_ips checked),
    Nat.zero_add]

theorem loaded_unnamed {addr : CNetAddr}
    (absent : ∀ n info, src.mapInfo.find? n = some info → info.ip ≠ addr) :
    (loaded rules src dst).mapAddr.find? addr = dst.mapAddr.find? addr := by
  rw [loaded_mapAddr, enteredAddr_outside]
  intro entry member same
  have listed : addr ∈ (entriesRead src dst).map CAddrInfo.ip := by
    rw [← same]
    exact List.mem_map.mpr ⟨entry, member, rfl⟩
  rw [entriesRead_ips] at listed
  obtain ⟨⟨n, info⟩, inside, here⟩ := List.mem_map.mp listed
  exact absent n info (mem_order.mp inside) here

theorem loaded_vvTried (checked : Checked rules src) :
    (loaded rules src dst).vvTried = triedGoal src := by
  funext bucket pos
  change placeTrieds rules src.nKey ((trieds src).map Prod.snd) (news src).length (fun _ _ => none)
    bucket pos = (src.vvTried bucket pos).map (renumber src)
  cases held : src.vvTried bucket pos with
  | none =>
    rw [placeTrieds_outside, Option.map_none]
    intro info member same
    obtain ⟨⟨n, info'⟩, inside, own⟩ := List.mem_map.mp member
    obtain ⟨found, tried⟩ := found_in inside
    have there := (checked.bucketed.tried n info' found tried).2
    simp only at own
    rw [own] at there
    simp only [triedSlot, Prod.mk.injEq] at same
    rw [same.1] at there same
    rw [same.2, held] at there
    cases there
  | some n =>
    obtain ⟨info, found, tried, atBucket, atPos⟩ := checked.bucketed.inTried bucket pos n held
    obtain ⟨place, number, listed⟩ := renumber_tried found tried
    have saved : ((trieds src).map Prod.snd)[place]? = some info := by
      rw [List.getElem?_map, listed]
      rfl
    have placed := placeTrieds_at saved (trieds_free checked) (news src).length fun _ _ => none
    simp only [triedSlot, atBucket, atPos] at placed
    rw [placed, Option.map_some, number]

theorem newCount_goal (checked : Checked rules src) {n : Nat} {info info' : CAddrInfo}
    (found : src.mapInfo.find? n = some info) (same : info'.service = info.service) :
    (newCount rules src.nKey (newGoal src) (renumber src n) info' : Int) = info.nRefCount := by
  have counts : newCount rules src.nKey (newGoal src) (renumber src n) info =
      newCount rules src.nKey src.vvNew n info := by
    apply List.countP_congr
    intro bucket _
    rw [decide_eq_true_eq, decide_eq_true_eq]
    constructor
    · intro here
      obtain ⟨m, held, number⟩ := Option.map_eq_some_iff.mp here
      obtain ⟨entry, standing, _⟩ := checked.bucketed.inNew _ _ m held
      rw [held, renumber_inj standing found number]
    · intro held
      rw [newGoal, held, Option.map_some]
  rw [checked.bucketed.refs n info found, newCount_service same, counts]

end Read

end OxidAddrManRoundTrip
