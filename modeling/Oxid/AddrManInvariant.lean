import Mathlib.Data.List.FinRange
import Oxid.AddrMan

/-!
What holds of an address manager between its calls. Within a call some entries are in no
table, and the number of new entries is ahead by a surplus.
-/
namespace OxidAddrManInvariant
open OxidPrimitives OxidMasternode OxidMasternodeMan OxidAddrMan OrderedMaps OrderedMap

abbrev Entries := OrderedMap Nat CAddrInfo

section Parts

variable (rules : AddrRules) (nKey : Uint256) (mapInfo : Entries)

structure Indexed (mapAddr : OrderedMap CNetAddr Nat) (nIdCount : Nat) : Prop where
  below : ∀ n info, mapInfo.find? n = some info → n < nIdCount
  named : ∀ n info, mapInfo.find? n = some info → mapAddr.find? info.ip = some n
  owned : ∀ addr n, mapAddr.find? addr = some n →
    ∃ info, mapInfo.find? n = some info ∧ info.ip = addr

structure Shuffled (vRandom : List Nat) : Prop where
  standing : ∀ n info, mapInfo.find? n = some info →
    ∃ place : Nat, info.nRandomPos = place ∧ vRandom[place]? = some n
  listed : ∀ (place n : Nat), vRandom[place]? = some n →
    ∃ info, mapInfo.find? n = some info ∧ info.nRandomPos = place

def newCount (vvNew : Table ADDRMAN_NEW_BUCKET_COUNT) (n : Nat) (info : CAddrInfo) : Nat :=
  (List.finRange ADDRMAN_NEW_BUCKET_COUNT).countP fun bucket =>
    vvNew bucket (info.getBucketPosition rules nKey true bucket) = some n

structure Bucketed (vvTried : Table ADDRMAN_TRIED_BUCKET_COUNT)
    (vvNew : Table ADDRMAN_NEW_BUCKET_COUNT) : Prop where
  tried : ∀ n info, mapInfo.find? n = some info → info.fInTried = true →
    info.nRefCount = 0 ∧
      vvTried (info.getTriedBucket rules nKey)
        (info.getBucketPosition rules nKey false (info.getTriedBucket rules nKey)) = some n
  inTried : ∀ bucket pos n, vvTried bucket pos = some n →
    ∃ info, mapInfo.find? n = some info ∧ info.fInTried = true ∧
      info.getTriedBucket rules nKey = bucket ∧
        info.getBucketPosition rules nKey false bucket = pos
  inNew : ∀ bucket pos n, vvNew bucket pos = some n →
    ∃ info, mapInfo.find? n = some info ∧ info.fInTried = false ∧
      info.getBucketPosition rules nKey true bucket = pos
  refs : ∀ n info, mapInfo.find? n = some info → info.nRefCount = newCount rules nKey vvNew n info
  few : ∀ n info, mapInfo.find? n = some info → info.nRefCount ≤ ADDRMAN_NEW_BUCKETS_PER_ADDRESS

def isTried (entry : Nat × CAddrInfo) : Bool := entry.2.fInTried

def isReferenced (entry : Nat × CAddrInfo) : Bool := decide (0 < entry.2.nRefCount)

variable {entry : Nat × CAddrInfo}

theorem referenced_one (positive : 0 < entry.2.nRefCount) :
    (isReferenced entry).toNat = 1 := by
  simp [isReferenced, positive]

theorem referenced_zero (unreferenced : entry.2.nRefCount = 0) :
    (isReferenced entry).toNat = 0 := by
  simp [isReferenced, unreferenced]

structure Numbered (nTried nNew surplus : Int) : Prop where
  tried : nTried = mapInfo.entries.countP isTried
  new : nNew = mapInfo.entries.countP isReferenced + surplus

structure Timed : Prop where
  success : ∀ n info, mapInfo.find? n = some info → info.fInTried = true → 0 < info.nLastSuccess
  lastSuccess : ∀ n info, mapInfo.find? n = some info → 0 ≤ info.nLastSuccess
  lastTry : ∀ n info, mapInfo.find? n = some info → 0 ≤ info.nLastTry

def Referenced (loose : Nat → Prop) : Prop :=
  ∀ n info, mapInfo.find? n = some info → info.fInTried = false → info.nRefCount = 0 → loose n

end Parts

structure Booked (rules : AddrRules) (man : CAddrMan) (loose : Nat → Prop) (surplus : Int) :
    Prop where
  indexed : Indexed man.mapInfo man.mapAddr man.nIdCount
  bucketed : Bucketed rules man.nKey man.mapInfo man.vvTried man.vvNew
  numbered : Numbered man.mapInfo man.nTried man.nNew surplus
  timed : Timed man.mapInfo
  referenced : Referenced man.mapInfo loose

structure Kept (rules : AddrRules) (man : CAddrMan) (loose : Nat → Prop) (surplus : Int) : Prop
    extends Booked rules man loose surplus where
  shuffled : Shuffled man.mapInfo man.vRandom

def Consistent (rules : AddrRules) (man : CAddrMan) : Prop :=
  man.nKey ≠ 0 ∧ Kept rules man (fun _ => False) 0

section Entry

variable {rules : AddrRules} {nKey : Uint256} {mapInfo : Entries} {n : Nat}
  {info info' : CAddrInfo}

variable {mapAddr : OrderedMap CNetAddr Nat} {vRandom : List Nat} {nIdCount : Nat}

theorem Indexed.set (indexed : Indexed mapInfo mapAddr nIdCount)
    (found : mapInfo.find? n = some info) (same : info'.service = info.service) :
    Indexed (mapInfo.set n info') mapAddr nIdCount := by
  have ip : info'.ip = info.ip := congrArg CService.toCNetAddr same
  constructor
  · intro other entry here
    rcases find?_set_some here with ⟨own, _⟩ | ⟨_, standing⟩
    · rw [own]
      exact indexed.below n info found
    · exact indexed.below other entry standing
  · intro other entry here
    rcases find?_set_some here with ⟨own, value⟩ | ⟨_, standing⟩
    · rw [own, value, ip]
      exact indexed.named n info found
    · exact indexed.named other entry standing
  · intro addr other here
    obtain ⟨entry, standing, at'⟩ := indexed.owned addr other here
    rw [find?_set]
    by_cases own : other = n
    · rw [own, found] at standing
      cases standing
      exact ⟨info', if_pos own, ip.trans at'⟩
    · exact ⟨entry, by rw [if_neg own, standing], at'⟩

theorem Shuffled.set (shuffled : Shuffled mapInfo vRandom) (found : mapInfo.find? n = some info)
    (same : info'.nRandomPos = info.nRandomPos) :
    Shuffled (mapInfo.set n info') vRandom := by
  constructor
  · intro other entry here
    rcases find?_set_some here with ⟨own, value⟩ | ⟨_, standing⟩
    · rw [own, value, same]
      exact shuffled.standing n info found
    · exact shuffled.standing other entry standing
  · intro place other here
    obtain ⟨entry, standing, at'⟩ := shuffled.listed place other here
    rw [find?_set]
    by_cases own : other = n
    · rw [own, found] at standing
      cases standing
      exact ⟨info', if_pos own, same.trans at'⟩
    · exact ⟨entry, by rw [if_neg own, standing], at'⟩

theorem Timed.set (timed : Timed mapInfo)
    (success : info'.fInTried = true → 0 < info'.nLastSuccess)
    (lastSuccess : 0 ≤ info'.nLastSuccess) (lastTry : 0 ≤ info'.nLastTry) :
    Timed (mapInfo.set n info') := by
  constructor
  · intro other entry here inTried
    rcases find?_set_some here with ⟨_, value⟩ | ⟨_, standing⟩
    · rw [value] at inTried ⊢
      exact success inTried
    · exact timed.success other entry standing inTried
  · intro other entry here
    rcases find?_set_some here with ⟨_, value⟩ | ⟨_, standing⟩
    · rw [value]
      exact lastSuccess
    · exact timed.lastSuccess other entry standing
  · intro other entry here
    rcases find?_set_some here with ⟨_, value⟩ | ⟨_, standing⟩
    · rw [value]
      exact lastTry
    · exact timed.lastTry other entry standing

theorem Referenced.set {loose : Nat → Prop} (referenced : Referenced mapInfo loose)
    (own : info'.fInTried = false → info'.nRefCount = 0 → loose n) :
    Referenced (mapInfo.set n info') loose := by
  intro other entry here untried unreferenced
  rcases find?_set_some here with ⟨same, value⟩ | ⟨_, standing⟩
  · rw [same]
    rw [value] at untried unreferenced
    exact own untried unreferenced
  · exact referenced other entry standing untried unreferenced

theorem Numbered.set {nTried nNew surplus nTried' nNew' surplus' : Int}
    (numbered : Numbered mapInfo nTried nNew surplus) (found : mapInfo.find? n = some info)
    (tried : nTried' + (isTried (n, info)).toNat = nTried + (isTried (n, info')).toNat)
    (new : nNew' - surplus' + (isReferenced (n, info)).toNat =
      nNew - surplus + (isReferenced (n, info')).toNat) :
    Numbered (mapInfo.set n info') nTried' nNew' surplus' := by
  have countTried := countP_set isTried info' found
  have countNew := countP_set isReferenced info' found
  have ofTried := numbered.tried
  have ofNew := numbered.new
  constructor
  · omega
  · omega

theorem other_than_new (unused : mapInfo.find? n = none) {m : Nat}
    (standing : mapInfo.find? m = some info) : m ≠ n := by
  intro same
  rw [same, unused] at standing
  cases standing

theorem Indexed.add (indexed : Indexed mapInfo mapAddr nIdCount)
    (unused : mapInfo.find? nIdCount = none) (absent : mapAddr.find? info.ip = none) :
    Indexed (mapInfo.set nIdCount info) (mapAddr.set info.ip nIdCount) (nIdCount + 1) := by
  constructor
  · intro m entry here
    rcases find?_set_some here with ⟨own, _⟩ | ⟨_, standing⟩
    · omega
    · have below := indexed.below m entry standing
      omega
  · intro m entry here
    rcases find?_set_some here with ⟨own, value⟩ | ⟨_, standing⟩
    · rw [own, value]
      exact find?_set_same _ _ _
    · have named := indexed.named m entry standing
      rw [← named]
      apply find?_set_other
      intro same
      rw [same, absent] at named
      cases named
  · intro addr m here
    rcases find?_set_some here with ⟨own, value⟩ | ⟨_, standing⟩
    · rw [own, value]
      exact ⟨info, find?_set_same _ _ _, rfl⟩
    · obtain ⟨entry, found, at'⟩ := indexed.owned addr m standing
      exact ⟨entry, (find?_set_other _ _ (other_than_new unused found)).trans found, at'⟩

theorem Bucketed.add {vvTried : Table ADDRMAN_TRIED_BUCKET_COUNT}
    {vvNew : Table ADDRMAN_NEW_BUCKET_COUNT} (bucketed : Bucketed rules nKey mapInfo vvTried vvNew)
    (unused : mapInfo.find? n = none) (untried : info.fInTried = false)
    (refs : info.nRefCount = 0) : Bucketed rules nKey (mapInfo.set n info) vvTried vvNew := by
  constructor
  · intro m entry here tried
    rcases find?_set_some here with ⟨_, value⟩ | ⟨_, standing⟩
    · rw [value, untried] at tried
      cases tried
    · exact bucketed.tried m entry standing tried
  · intro bucket pos m here
    obtain ⟨entry, standing, at'⟩ := bucketed.inTried bucket pos m here
    exact ⟨entry, (find?_set_other _ _ (other_than_new unused standing)).trans standing, at'⟩
  · intro bucket pos m here
    obtain ⟨entry, standing, at'⟩ := bucketed.inNew bucket pos m here
    exact ⟨entry, (find?_set_other _ _ (other_than_new unused standing)).trans standing, at'⟩
  · intro m entry here
    rcases find?_set_some here with ⟨own, value⟩ | ⟨_, standing⟩
    · have none : newCount rules nKey vvNew n info = 0 := by
        apply List.countP_eq_zero.mpr
        intro bucket _ holds
        obtain ⟨other, standing, _⟩ := bucketed.inNew bucket _ n (of_decide_eq_true holds)
        exact other_than_new unused standing rfl
      rw [own, value, refs, none]
      rfl
    · exact bucketed.refs m entry standing
  · intro m entry here
    rcases find?_set_some here with ⟨_, value⟩ | ⟨_, standing⟩
    · rw [value, refs]
      decide
    · exact bucketed.few m entry standing

theorem Shuffled.add (shuffled : Shuffled mapInfo vRandom) (unused : mapInfo.find? n = none)
    (place : info.nRandomPos = vRandom.length) :
    Shuffled (mapInfo.set n info) (vRandom ++ [n]) := by
  constructor
  · intro m entry here
    rcases find?_set_some here with ⟨own, value⟩ | ⟨_, standing⟩
    · exact ⟨vRandom.length, by rw [value, place], by rw [own]; simp⟩
    · obtain ⟨spot, atSpot, listed⟩ := shuffled.standing m entry standing
      refine ⟨spot, atSpot, ?_⟩
      rw [List.getElem?_append_left (List.getElem?_eq_some_iff.mp listed).1, listed]
  · intro spot m listed
    by_cases before : spot < vRandom.length
    · rw [List.getElem?_append_left before] at listed
      obtain ⟨entry, standing, atSpot⟩ := shuffled.listed spot m listed
      exact ⟨entry, (find?_set_other _ _ (other_than_new unused standing)).trans standing, atSpot⟩
    · rw [List.getElem?_append_right (by omega)] at listed
      have inside := (List.getElem?_eq_some_iff.mp listed).1
      simp only [List.length_singleton] at inside
      rw [show spot - vRandom.length = 0 by omega] at listed
      cases listed
      exact ⟨info, find?_set_same _ _ _, by omega⟩

end Entry

section Place

variable {rules : AddrRules} {nKey : Uint256} {info info' : CAddrInfo}
  (same : info'.service = info.service)
include same

theorem bucketPosition_service (fNew : Bool) (bucket : Nat) :
    info'.getBucketPosition rules nKey fNew bucket =
      info.getBucketPosition rules nKey fNew bucket := by
  simp only [CAddrInfo.getBucketPosition, same]

theorem triedBucket_service :
    info'.getTriedBucket rules nKey = info.getTriedBucket rules nKey := by
  simp only [CAddrInfo.getTriedBucket, CAddrInfo.ip, same]

theorem newCount_service (vvNew : Table ADDRMAN_NEW_BUCKET_COUNT) (n : Nat) :
    newCount rules nKey vvNew n info' = newCount rules nKey vvNew n info := by
  simp [newCount, bucketPosition_service same]

end Place

theorem countP_change {α : Type} [DecidableEq α] {elements : List α} (distinct : elements.Nodup)
    {element : α} (member : element ∈ elements) {before after : α → Bool}
    (alike : ∀ other, other ≠ element → before other = after other) :
    elements.countP after + (before element).toNat =
      elements.countP before + (after element).toNat := by
  induction elements with
  | nil => cases member
  | cons first rest ih =>
    obtain ⟨fresh, apart⟩ := List.nodup_cons.mp distinct
    rw [List.countP_cons, List.countP_cons]
    rcases List.mem_cons.mp member with here | further
    · have others : rest.countP before = rest.countP after := by
        apply List.countP_congr
        intro other inside
        rw [alike other fun same => fresh (by rwa [← here, ← same])]
      rw [others, here]
      cases before first <;> cases after first <;> simp only [Bool.toNat] <;> simp
    · have rest := ih apart further
      rw [alike first fun same => fresh (by rwa [same])]
      omega

section Tables

variable {rules : AddrRules} {nKey : Uint256} {mapInfo : Entries} {n : Nat}
  {info info' : CAddrInfo} {vvTried : Table ADDRMAN_TRIED_BUCKET_COUNT}
  {vvNew : Table ADDRMAN_NEW_BUCKET_COUNT}

theorem set_at {count : Nat} (table : Table count) (bucket : Fin count) (pos : Position)
    (nId : Option Nat) : table.set bucket pos nId bucket pos = nId :=
  if_pos ⟨rfl, rfl⟩

variable {bucket : NewBucket} {nId : Option Nat}

theorem set_other {count : Nat} {table : Table count} {bucket : Fin count} {pos : Position}
    (before : ∀ m, table bucket pos = some m → m = n) (after : ∀ m, nId = some m → m = n) {m : Nat}
    (other : m ≠ n) (bucket' : Fin count) (pos' : Position) :
    table.set bucket pos nId bucket' pos' = some m ↔ table bucket' pos' = some m := by
  unfold Table.set
  split
  · rename_i here
    rw [here.1, here.2]
    constructor
    · intro holds
      exact absurd (after m holds) other
    · intro holds
      exact absurd (before m holds) other
  · exact Iff.rfl

theorem newCount_other {pos : Position} (before : ∀ m, vvNew bucket pos = some m → m = n)
    (after : ∀ m, nId = some m → m = n) {m : Nat} (other : m ≠ n) (entry : CAddrInfo) :
    newCount rules nKey (vvNew.set bucket pos nId) m entry = newCount rules nKey vvNew m entry := by
  apply List.countP_congr
  intro bucket' _
  simp [set_other before after other]

theorem newCount_set {pos : Position} (nId : Option Nat)
    (place : info.getBucketPosition rules nKey true bucket = pos) :
    newCount rules nKey (vvNew.set bucket pos nId) n info +
        (decide (vvNew bucket pos = some n)).toNat =
      newCount rules nKey vvNew n info + (decide (nId = some n)).toNat := by
  have change := @countP_change _ _ _ (List.nodup_finRange ADDRMAN_NEW_BUCKET_COUNT) bucket
    (List.mem_finRange bucket)
    (fun bucket => decide (vvNew bucket (info.getBucketPosition rules nKey true bucket) = some n))
    (fun bucket' => decide (vvNew.set bucket pos nId bucket'
      (info.getBucketPosition rules nKey true bucket') = some n)) (by
      intro other different
      simp only [Table.set, different, false_and, if_false])
  simp only [place, set_at] at change
  exact change

section
variable (bucketed : Bucketed rules nKey mapInfo vvTried vvNew)
  (found : mapInfo.find? n = some info)
include bucketed found

theorem Bucketed.nonneg : 0 ≤ info.nRefCount := by
  have refs := bucketed.refs n info found
  omega

theorem Bucketed.nowhere (unreferenced : info.nRefCount = 0) (bucket : NewBucket) (pos : Position) :
    vvNew bucket pos ≠ some n := by
  intro here
  obtain ⟨entry, standing, _, place⟩ := bucketed.inNew bucket pos n here
  rw [found] at standing
  cases standing
  have none := bucketed.refs n info found
  have zero : newCount rules nKey vvNew n info = 0 := by omega
  have away := List.countP_eq_zero.mp zero bucket (List.mem_finRange bucket)
  simp only [place, here, decide_true, not_true] at away

theorem Bucketed.set (same : info'.service = info.service)
    (inTried : info'.fInTried = info.fInTried) (refs : info'.nRefCount = info.nRefCount) :
    Bucketed rules nKey (mapInfo.set n info') vvTried vvNew := by
  constructor
  · intro other entry here tried
    rcases find?_set_some here with ⟨own, value⟩ | ⟨_, standing⟩
    · rw [own, value, refs, triedBucket_service same, bucketPosition_service same]
      exact bucketed.tried n info found (by rw [← inTried, ← value, tried])
    · exact bucketed.tried other entry standing tried
  · intro bucket pos other here
    obtain ⟨entry, standing, tried, atBucket, atPos⟩ := bucketed.inTried bucket pos other here
    rw [find?_set]
    by_cases own : other = n
    · rw [own, found] at standing
      cases standing
      refine ⟨info', if_pos own, inTried.trans tried, ?_, ?_⟩
      · rw [triedBucket_service same, atBucket]
      · rw [bucketPosition_service same, atPos]
    · exact ⟨entry, by rw [if_neg own, standing], tried, atBucket, atPos⟩
  · intro bucket pos other here
    obtain ⟨entry, standing, untried, atPos⟩ := bucketed.inNew bucket pos other here
    rw [find?_set]
    by_cases own : other = n
    · rw [own, found] at standing
      cases standing
      exact ⟨info', if_pos own, inTried.trans untried, by rw [bucketPosition_service same, atPos]⟩
    · exact ⟨entry, by rw [if_neg own, standing], untried, atPos⟩
  · intro other entry here
    rcases find?_set_some here with ⟨own, value⟩ | ⟨_, standing⟩
    · rw [own, value, refs, newCount_service same]
      exact bucketed.refs n info found
    · exact bucketed.refs other entry standing
  · intro other entry here
    rcases find?_set_some here with ⟨own, value⟩ | ⟨_, standing⟩
    · rw [value, refs]
      exact bucketed.few n info found
    · exact bucketed.few other entry standing

theorem Bucketed.setNew (same : info'.service = info.service) (untried : info.fInTried = false)
    (untried' : info'.fInTried = false) {pos : Position}
    (place : info.getBucketPosition rules nKey true bucket = pos)
    (before : ∀ m, vvNew bucket pos = some m → m = n) (after : ∀ m, nId = some m → m = n)
    (refs : info'.nRefCount + (decide (vvNew bucket pos = some n)).toNat =
      info.nRefCount + (decide (nId = some n)).toNat)
    (few : info'.nRefCount ≤ ADDRMAN_NEW_BUCKETS_PER_ADDRESS) :
    Bucketed rules nKey (mapInfo.set n info') vvTried (vvNew.set bucket pos nId) := by
  constructor
  · intro other entry here tried
    rcases find?_set_some here with ⟨own, value⟩ | ⟨_, standing⟩
    · rw [value, untried'] at tried
      cases tried
    · exact bucketed.tried other entry standing tried
  · intro bucket' pos' other here
    obtain ⟨entry, standing, tried, at'⟩ := bucketed.inTried bucket' pos' other here
    rw [find?_set]
    by_cases own : other = n
    · rw [own, found] at standing
      cases standing
      rw [untried] at tried
      cases tried
    · exact ⟨entry, by rw [if_neg own, standing], tried, at'⟩
  · intro bucket' pos' other here
    rw [find?_set]
    by_cases own : other = n
    · refine ⟨info', if_pos own, untried', ?_⟩
      rw [bucketPosition_service same]
      by_cases spot : bucket' = bucket ∧ pos' = pos
      · rw [spot.1, spot.2, place]
      · rw [Table.set, if_neg spot, own] at here
        obtain ⟨entry, standing, _, at'⟩ := bucketed.inNew bucket' pos' n here
        rw [found] at standing
        cases standing
        exact at'
    · rw [set_other before after own] at here
      rw [if_neg own]
      exact bucketed.inNew bucket' pos' other here
  · intro other entry here
    rcases find?_set_some here with ⟨own, value⟩ | ⟨different, standing⟩
    · have counted := @newCount_set rules nKey n info vvNew bucket pos nId place
      have held := bucketed.refs n info found
      rw [own, value, newCount_service same]
      omega
    · rw [newCount_other before after different]
      exact bucketed.refs other entry standing
  · intro other entry here
    rcases find?_set_some here with ⟨_, value⟩ | ⟨_, standing⟩
    · rw [value]
      exact few
    · exact bucketed.few other entry standing

theorem Bucketed.setTried (same : info'.service = info.service) (unreferenced : info.nRefCount = 0)
    (unreferenced' : info'.nRefCount = 0) {bucket : TriedBucket} {pos : Position}
    (atBucket : info.getTriedBucket rules nKey = bucket)
    (atPos : info.getBucketPosition rules nKey false bucket = pos)
    (before : ∀ m, vvTried bucket pos = some m → m = n) :
    Bucketed rules nKey (mapInfo.set n info')
      (vvTried.set bucket pos (if info'.fInTried then some n else none)) vvNew := by
  have after : ∀ m, (if info'.fInTried then some n else none) = some m → m = n := by
    intro m taken
    split at taken
    · exact (Option.some.inj taken).symm
    · cases taken
  constructor
  · intro other entry here tried
    rcases find?_set_some here with ⟨own, value⟩ | ⟨different, standing⟩
    · rw [value] at tried ⊢
      rw [triedBucket_service same, bucketPosition_service same, atBucket, atPos, set_at,
        if_pos tried, own]
      exact ⟨unreferenced', rfl⟩
    · rw [set_other before after different]
      exact bucketed.tried other entry standing tried
  · intro bucket' pos' other here
    rw [find?_set]
    by_cases own : other = n
    · by_cases spot : bucket' = bucket ∧ pos' = pos
      · rw [spot.1, spot.2, set_at] at here
        refine ⟨info', if_pos own, ?_, ?_, ?_⟩
        · by_contra left
          rw [if_neg left] at here
          cases here
        · rw [triedBucket_service same, atBucket, spot.1]
        · rw [bucketPosition_service same, spot.1, spot.2, atPos]
      · rw [Table.set, if_neg spot, own] at here
        obtain ⟨entry, standing, _, inBucket, inPos⟩ := bucketed.inTried bucket' pos' n here
        rw [found] at standing
        cases standing
        rw [atBucket] at inBucket
        subst inBucket
        exact absurd ⟨rfl, inPos.symm.trans atPos⟩ spot
    · rw [set_other before after own] at here
      rw [if_neg own]
      exact bucketed.inTried bucket' pos' other here
  · intro bucket' pos' other here
    obtain ⟨entry, standing, untried, at'⟩ := bucketed.inNew bucket' pos' other here
    rw [find?_set]
    by_cases own : other = n
    · rw [own] at here
      exact absurd here (bucketed.nowhere found unreferenced bucket' pos')
    · exact ⟨entry, by rw [if_neg own, standing], untried, at'⟩
  · intro other entry here
    rcases find?_set_some here with ⟨own, value⟩ | ⟨_, standing⟩
    · rw [own, value, newCount_service same, unreferenced', ← unreferenced]
      exact bucketed.refs n info found
    · exact bucketed.refs other entry standing
  · intro other entry here
    rcases find?_set_some here with ⟨_, value⟩ | ⟨_, standing⟩
    · rw [value, unreferenced']
      decide
    · exact bucketed.few other entry standing

end

end Tables

def Remains (mapInfo mapInfo' : Entries) (n : Nat) : Prop :=
  ∀ info, mapInfo.find? n = some info →
    ∃ place, mapInfo'.find? n = some { info with nRandomPos := place }

theorem Remains.trans {mapInfo mapInfo' mapInfo'' : Entries} {n : Nat}
    (first : Remains mapInfo mapInfo' n) (second : Remains mapInfo' mapInfo'' n) :
    Remains mapInfo mapInfo'' n := by
  intro info found
  obtain ⟨place, found'⟩ := first info found
  obtain ⟨place', found''⟩ := second { info with nRandomPos := place } found'
  exact ⟨place', found''⟩

theorem Remains.same (mapInfo : Entries) (n : Nat) : Remains mapInfo mapInfo n := by
  intro info found
  exact ⟨info.nRandomPos, found⟩

theorem Remains.set_other {mapInfo mapInfo' : Entries} {n other : Nat}
    (remains : Remains mapInfo mapInfo' n) (info : CAddrInfo) (different : n ≠ other) :
    Remains mapInfo (mapInfo'.set other info) n := by
  intro entry found
  obtain ⟨place, found'⟩ := remains entry found
  exact ⟨place, by rw [find?_set_other _ _ different, found']⟩

section Steps

variable {rules : AddrRules} {man : CAddrMan} {loose loose' : Nat → Prop} {surplus : Int}
  {n : Nat} {info : CAddrInfo}

theorem Kept.loosen (kept : Kept rules man loose surplus) (weaker : ∀ m, loose m → loose' m) :
    Kept rules man loose' surplus := by
  refine { kept with referenced := ?_ }
  intro m entry found untried unreferenced
  exact weaker m (kept.referenced m entry found untried unreferenced)

theorem Booked.touch (booked : Booked rules man loose surplus)
    (found : man.mapInfo.find? n = some info) (info' : CAddrInfo) (same : info'.service = info.service)
    (inTried : info'.fInTried = info.fInTried) (refs : info'.nRefCount = info.nRefCount)
    (success : info'.fInTried = true → 0 < info'.nLastSuccess)
    (lastSuccess : 0 ≤ info'.nLastSuccess) (lastTry : 0 ≤ info'.nLastTry) :
    Booked rules (man.setInfo n info') loose surplus where
  indexed := booked.indexed.set found same
  bucketed := booked.bucketed.set found same inTried refs
  numbered := by
    apply booked.numbered.set found
    · simp only [isTried, inTried]
      rfl
    · simp only [isReferenced, refs]
      rfl
  timed := booked.timed.set success lastSuccess lastTry
  referenced := by
    apply booked.referenced.set
    intro untried unreferenced
    rw [inTried] at untried
    rw [refs] at unreferenced
    exact booked.referenced n info found untried unreferenced

section
variable (kept : Kept rules man loose surplus) (found : man.mapInfo.find? n = some info)
  (info' : CAddrInfo)
include kept found info'

theorem Kept.touch (same : info'.service = info.service) (inTried : info'.fInTried = info.fInTried)
    (refs : info'.nRefCount = info.nRefCount) (place : info'.nRandomPos = info.nRandomPos)
    (success : info'.fInTried = true → 0 < info'.nLastSuccess)
    (lastSuccess : 0 ≤ info'.nLastSuccess) (lastTry : 0 ≤ info'.nLastTry) :
    Kept rules (man.setInfo n info') loose surplus where
  toBooked := kept.toBooked.touch found info' same inTried refs success lastSuccess lastTry
  shuffled := kept.shuffled.set found place

theorem Kept.setNew (changed : info' = { info with nRefCount := info'.nRefCount })
    (untried : info.fInTried = false) {bucket : NewBucket} {pos : Position} {nId : Option Nat}
    {nNew surplus' : Int} (place : info.getBucketPosition rules man.nKey true bucket = pos)
    (before : ∀ m, man.vvNew bucket pos = some m → m = n) (after : ∀ m, nId = some m → m = n)
    (refs : info'.nRefCount + (decide (man.vvNew bucket pos = some n)).toNat =
      info.nRefCount + (decide (nId = some n)).toNat)
    (few : info'.nRefCount ≤ ADDRMAN_NEW_BUCKETS_PER_ADDRESS)
    (number : nNew - surplus' + (isReferenced (n, info)).toNat =
      man.nNew - surplus + (isReferenced (n, info')).toNat)
    (weaker : ∀ m, m ≠ n → loose m → loose' m) (own : info'.nRefCount = 0 → loose' n) :
    Kept rules
      { man.setInfo n info' with vvNew := man.vvNew.set bucket pos nId, nNew := nNew }
      loose' surplus' := by
  have same : info'.service = info.service := by rw [changed]
  have untried' : info'.fInTried = false := by rw [changed, untried]
  constructor
  · constructor
    · exact kept.indexed.set found same
    · exact kept.bucketed.setNew found same untried untried' place before after refs few
    · apply kept.numbered.set found
      · simp only [isTried, untried, untried']
        rfl
      · exact number
    · rw [changed]
      exact kept.timed.set (kept.timed.success n info found) (kept.timed.lastSuccess n info found)
        (kept.timed.lastTry n info found)
    · intro m entry here left unreferenced
      rcases find?_set_some here with ⟨this, value⟩ | ⟨different, standing⟩
      · rw [value] at unreferenced
        rw [this]
        exact own unreferenced
      · exact weaker m different (kept.referenced m entry standing left unreferenced)
  · exact kept.shuffled.set found (by rw [changed])

theorem Kept.setTried (changed : info' = { info with fInTried := info'.fInTried })
    (unreferenced : info.nRefCount = 0) {bucket : TriedBucket} {pos : Position} {nTried : Int}
    (atBucket : info.getTriedBucket rules man.nKey = bucket)
    (atPos : info.getBucketPosition rules man.nKey false bucket = pos)
    (before : ∀ m, man.vvTried bucket pos = some m → m = n)
    (number : nTried + (isTried (n, info)).toNat = man.nTried + (isTried (n, info')).toNat)
    (success : info'.fInTried = true → 0 < info.nLastSuccess)
    (weaker : ∀ m, m ≠ n → loose m → loose' m) (own : info'.fInTried = false → loose' n) :
    Kept rules
      { man.setInfo n info' with
        vvTried := man.vvTried.set bucket pos (if info'.fInTried then some n else none)
        nTried := nTried }
      loose' surplus := by
  have same : info'.service = info.service := by rw [changed]
  have refs : info'.nRefCount = info.nRefCount := by rw [changed]
  constructor
  · constructor
    · exact kept.indexed.set found same
    · exact kept.bucketed.setTried found same unreferenced (refs.trans unreferenced) atBucket atPos
        before
    · apply kept.numbered.set found
      · exact number
      · simp only [isReferenced, refs]
        rfl
    · apply kept.timed.set
      · intro tried
        rw [changed]
        exact success tried
      · rw [changed]
        exact kept.timed.lastSuccess n info found
      · rw [changed]
        exact kept.timed.lastTry n info found
    · intro m entry here untried loosened
      rcases find?_set_some here with ⟨this, value⟩ | ⟨different, standing⟩
      · rw [value] at untried
        rw [this]
        exact own untried
      · exact weaker m different (kept.referenced m entry standing untried loosened)
  · exact kept.shuffled.set found (by rw [changed])

end

variable {mapInfo : Entries} {vRandom : List Nat}

theorem Shuffled.swap {first second nId1 nId2 : Nat} {info1 info2 : CAddrInfo}
    (shuffled : Shuffled mapInfo vRandom) (apart : first ≠ second) (different : nId2 ≠ nId1)
    (here1 : vRandom[first]? = some nId1) (here2 : vRandom[second]? = some nId2)
    (found1 : mapInfo.find? nId1 = some info1) (found2 : mapInfo.find? nId2 = some info2) :
    Shuffled
      ((mapInfo.set nId1 { info1 with nRandomPos := (second : Int) }).set nId2
        { info2 with nRandomPos := (first : Int) })
      ((vRandom.set first nId2).set second nId1) := by
  have inside1 := (List.getElem?_eq_some_iff.mp here1).1
  have inside2 := (List.getElem?_eq_some_iff.mp here2).1
  constructor
  · intro n info here
    rcases find?_set_some here with ⟨own, value⟩ | ⟨other2, standing⟩
    · refine ⟨first, by rw [value], ?_⟩
      rw [List.getElem?_set_ne (Ne.symm apart), List.getElem?_set_self inside1, own]
    · rcases find?_set_some standing with ⟨own, value⟩ | ⟨other1, standing⟩
      · refine ⟨second, by rw [value], ?_⟩
        rw [List.getElem?_set_self (by rwa [List.length_set]), own]
      · obtain ⟨place, atPlace, listed⟩ := shuffled.standing n info standing
        refine ⟨place, atPlace, ?_⟩
        rw [List.getElem?_set_ne, List.getElem?_set_ne, listed]
        · intro same
          rw [← same, here1] at listed
          exact other1 (Option.some.inj listed).symm
        · intro same
          rw [← same, here2] at listed
          exact other2 (Option.some.inj listed).symm
  · intro place n listed
    rw [find?_set, find?_set]
    by_cases atSecond : second = place
    · rw [← atSecond, List.getElem?_set_self (by rwa [List.length_set])] at listed
      cases listed
      exact ⟨_, by rw [if_neg (Ne.symm different), if_pos rfl], by rw [atSecond]⟩
    · rw [List.getElem?_set_ne atSecond] at listed
      by_cases atFirst : first = place
      · rw [← atFirst, List.getElem?_set_self inside1] at listed
        cases listed
        exact ⟨_, if_pos rfl, by rw [atFirst]⟩
      · rw [List.getElem?_set_ne atFirst] at listed
        obtain ⟨info, standing, atPlace⟩ := shuffled.listed place n listed
        refine ⟨info, ?_, atPlace⟩
        rw [if_neg, if_neg, standing]
        · intro same
          rw [same, found1] at standing
          cases standing
          obtain ⟨entry, standing, atEntry⟩ := shuffled.listed first nId1 here1
          rw [found1] at standing
          cases standing
          omega
        · intro same
          rw [same, found2] at standing
          cases standing
          obtain ⟨entry, standing, atEntry⟩ := shuffled.listed second nId2 here2
          rw [found2] at standing
          cases standing
          omega

theorem Booked.moved (booked : Booked rules man loose surplus)
    (found : man.mapInfo.find? n = some info) (place : Int) :
    Booked rules (man.setInfo n { info with nRandomPos := place }) loose surplus := by
  apply booked.touch found
  · rfl
  · rfl
  · rfl
  · exact booked.timed.success n info found
  · exact booked.timed.lastSuccess n info found
  · exact booked.timed.lastTry n info found

theorem Booked.relisted (booked : Booked rules man loose surplus) (vRandom : List Nat) :
    Booked rules { man with vRandom := vRandom } loose surplus where
  indexed := booked.indexed
  bucketed := booked.bucketed
  numbered := booked.numbered
  timed := booked.timed
  referenced := booked.referenced

theorem Kept.swapRandom (kept : Kept rules man loose surplus) {first second : Nat}
    (inside : first < man.vRandom.length) (inside' : second < man.vRandom.length) :
    ∃ mapInfo vRandom,
      man.swapRandom first second = some { man with mapInfo := mapInfo, vRandom := vRandom } ∧
      Kept rules { man with mapInfo := mapInfo, vRandom := vRandom } loose surplus ∧
      vRandom.length = man.vRandom.length ∧ vRandom[first]? = man.vRandom[second]? ∧
      vRandom[second]? = man.vRandom[first]? ∧ ∀ m, Remains man.mapInfo mapInfo m := by
  by_cases same : first = second
  · refine ⟨man.mapInfo, man.vRandom, ?_, kept, rfl, by rw [same], by rw [same], ?_⟩
    · unfold CAddrMan.swapRandom
      rw [if_pos (by rw [same])]
    · intro m
      exact Remains.same man.mapInfo m
  · have here : man.vRandom[first]? = some man.vRandom[first] := List.getElem?_eq_getElem inside
    have here' : man.vRandom[second]? = some man.vRandom[second] := List.getElem?_eq_getElem inside'
    generalize man.vRandom[first] = nId1 at here
    generalize man.vRandom[second] = nId2 at here'
    obtain ⟨info1, found1, place1⟩ := kept.shuffled.listed first nId1 here
    obtain ⟨info2, found2, place2⟩ := kept.shuffled.listed second nId2 here'
    have different : nId2 ≠ nId1 := by
      intro alike
      rw [alike, found1] at found2
      cases found2
      omega
    have found2' :
        (man.setInfo nId1 { info1 with nRandomPos := (second : Int) }).mapInfo.find? nId2 =
          some info2 := by
      rw [← found2]
      exact find?_set_other man.mapInfo _ different
    refine ⟨(man.mapInfo.set nId1 { info1 with nRandomPos := (second : Int) }).set nId2
      { info2 with nRandomPos := (first : Int) },
      (man.vRandom.set first nId2).set second nId1, ?_, ⟨?_, ?_⟩, ?_, ?_, ?_, ?_⟩
    · unfold CAddrMan.swapRandom
      rw [if_neg (by omega), if_neg (by omega)]
      simp only [Int.toNat_natCast, here, here', found1, found2]
      rw [found2']
      rfl
    · exact ((kept.toBooked.moved found1 second).moved found2' first).relisted _
    · exact kept.shuffled.swap same different here here' found1 found2
    · simp
    · rw [List.getElem?_set_ne (Ne.symm same), List.getElem?_set_self inside, here']
    · rw [List.getElem?_set_self (by rwa [List.length_set]), here]
    · intro m entry standing
      rw [find?_set, find?_set]
      by_cases own2 : m = nId2
      · rw [own2, found2] at standing
        cases standing
        exact ⟨first, if_pos own2⟩
      · rw [if_neg own2]
        by_cases own1 : m = nId1
        · rw [own1, found1] at standing
          cases standing
          exact ⟨second, if_pos own1⟩
        · exact ⟨entry.nRandomPos, by rw [if_neg own1, standing]⟩

theorem Indexed.erase {mapAddr : OrderedMap CNetAddr Nat} {nIdCount : Nat}
    (indexed : Indexed mapInfo mapAddr nIdCount) (found : mapInfo.find? n = some info) :
    Indexed (mapInfo.erase n) (mapAddr.erase info.ip) nIdCount := by
  constructor
  · intro other entry here
    exact indexed.below other entry (find?_erase_some here).2
  · intro other entry here
    obtain ⟨different, standing⟩ := find?_erase_some here
    have named := indexed.named other entry standing
    rw [find?_erase_other, named]
    intro same
    rw [same, indexed.named n info found] at named
    exact different (Option.some.inj named).symm
  · intro addr other here
    obtain ⟨away, standing⟩ := find?_erase_some here
    obtain ⟨entry, own, at'⟩ := indexed.owned addr other standing
    refine ⟨entry, ?_, at'⟩
    rw [find?_erase_other, own]
    intro same
    rw [same, found] at own
    cases own
    exact away at'.symm

theorem Shuffled.erase (shuffled : Shuffled mapInfo vRandom) (found : mapInfo.find? n = some info)
    (last : info.nRandomPos = (vRandom.length - 1 : Nat)) :
    Shuffled (mapInfo.erase n) vRandom.dropLast := by
  constructor
  · intro other entry here
    obtain ⟨different, standing⟩ := find?_erase_some here
    obtain ⟨place, atPlace, listed⟩ := shuffled.standing other entry standing
    refine ⟨place, atPlace, ?_⟩
    have inside := (List.getElem?_eq_some_iff.mp listed).1
    rw [List.getElem?_dropLast, if_pos, listed]
    by_contra beyond
    obtain ⟨own, atOwn, listedOwn⟩ := shuffled.standing n info found
    rw [show own = place by omega, listed] at listedOwn
    exact different (Option.some.inj listedOwn)
  · intro place other listed
    rw [List.getElem?_dropLast] at listed
    split at listed
    · rename_i before
      obtain ⟨entry, standing, atPlace⟩ := shuffled.listed place other listed
      refine ⟨entry, ?_, atPlace⟩
      rw [find?_erase_other, standing]
      intro same
      rw [same, found] at standing
      cases standing
      omega
    · cases listed

theorem Bucketed.erase {nKey : Uint256} {vvTried : Table ADDRMAN_TRIED_BUCKET_COUNT}
    {vvNew : Table ADDRMAN_NEW_BUCKET_COUNT} (bucketed : Bucketed rules nKey mapInfo vvTried vvNew)
    (found : mapInfo.find? n = some info) (untried : info.fInTried = false)
    (unreferenced : info.nRefCount = 0) :
    Bucketed rules nKey (mapInfo.erase n) vvTried vvNew := by
  constructor
  · intro other entry here
    exact bucketed.tried other entry (find?_erase_some here).2
  · intro bucket pos other here
    obtain ⟨entry, standing, tried, at'⟩ := bucketed.inTried bucket pos other here
    refine ⟨entry, ?_, tried, at'⟩
    rw [find?_erase_other, standing]
    intro same
    rw [same, found] at standing
    cases standing
    rw [untried] at tried
    cases tried
  · intro bucket pos other here
    obtain ⟨entry, standing, at'⟩ := bucketed.inNew bucket pos other here
    refine ⟨entry, ?_, at'⟩
    rw [find?_erase_other, standing]
    intro same
    rw [same] at here
    exact bucketed.nowhere found unreferenced bucket pos here
  · intro other entry here
    exact bucketed.refs other entry (find?_erase_some here).2
  · intro other entry here
    exact bucketed.few other entry (find?_erase_some here).2

theorem Numbered.erase {nTried nNew : Int} (numbered : Numbered mapInfo nTried nNew surplus)
    (found : mapInfo.find? n = some info) (untried : info.fInTried = false)
    (unreferenced : info.nRefCount = 0) :
    Numbered (mapInfo.erase n) nTried (nNew - 1) (surplus - 1) := by
  have countTried := countP_erase isTried found
  have countNew := countP_erase isReferenced found
  have none : (isTried (n, info)).toNat = 0 := by simp only [isTried, untried, Bool.toNat_false]
  have none' : (isReferenced (n, info)).toNat = 0 := referenced_zero unreferenced
  have ofTried := numbered.tried
  have ofNew := numbered.new
  constructor
  · omega
  · omega

section
variable (kept : Kept rules man loose surplus) (found : man.mapInfo.find? n = some info)
  (untried : info.fInTried = false) (unreferenced : info.nRefCount = 0)
include kept found untried unreferenced

theorem Kept.erase (last : info.nRandomPos = (man.vRandom.length - 1 : Nat))
    (weaker : ∀ m, m ≠ n → loose m → loose' m) :
    Kept rules
      { man with
        vRandom := man.vRandom.dropLast
        mapAddr := man.mapAddr.erase info.ip
        mapInfo := man.mapInfo.erase n
        nNew := man.nNew - 1 }
      loose' (surplus - 1) := by
  constructor
  · constructor
    · exact kept.indexed.erase found
    · exact kept.bucketed.erase found untried unreferenced
    · exact kept.numbered.erase found untried unreferenced
    · constructor
      · intro m entry here
        exact kept.timed.success m entry (find?_erase_some here).2
      · intro m entry here
        exact kept.timed.lastSuccess m entry (find?_erase_some here).2
      · intro m entry here
        exact kept.timed.lastTry m entry (find?_erase_some here).2
    · intro m entry here left unreferenced
      obtain ⟨different, standing⟩ := find?_erase_some here
      exact weaker m different (kept.referenced m entry standing left unreferenced)
  · exact kept.shuffled.erase found last

theorem Kept.delete (weaker : ∀ m, m ≠ n → loose m → loose' m) :
    ∃ man', man.delete n = some man' ∧ Kept rules man' loose' (surplus - 1) ∧
      man'.nKey = man.nKey ∧ man'.vvTried = man.vvTried ∧ man'.vvNew = man.vvNew ∧
      ∀ m, m ≠ n → Remains man.mapInfo man'.mapInfo m := by
  obtain ⟨place, atPlace, listed⟩ := kept.shuffled.standing n info found
  have inside := (List.getElem?_eq_some_iff.mp listed).1
  have positive : 0 < man.vRandom.length := by omega
  obtain ⟨mapInfo, vRandom, swapped, kept', size, _, last, remains⟩ :=
    kept.swapRandom inside (Nat.sub_one_lt_of_lt positive)
  obtain ⟨place', found'⟩ := remains n info found
  have lastPlace : place' = (vRandom.length - 1 : Nat) := by
    obtain ⟨entry, standing, here⟩ := kept'.shuffled.listed (man.vRandom.length - 1) n
      (by rw [last, listed])
    rw [found'] at standing
    cases standing
    rw [size]
    exact here
  have erased := kept'.erase found' untried unreferenced lastPlace weaker
  refine ⟨_, ?_, erased, rfl, rfl, rfl, ?_⟩
  · unfold CAddrMan.delete
    rw [found]
    simp only [untried, unreferenced]
    rw [atPlace, show (man.vRandom.length : Int) - 1 = (man.vRandom.length - 1 : Nat) by omega,
      swapped]
    rfl
  · intro m different entry standing
    obtain ⟨place, here⟩ := remains m entry standing
    exact ⟨place, (find?_erase_other mapInfo different).trans here⟩

end

theorem Kept.clearNew (kept : Kept rules man loose surplus) (bucket : NewBucket) (pos : Position) :
    ∃ man', man.clearNew bucket pos = some man' ∧ Kept rules man' loose surplus ∧
      man'.nKey = man.nKey ∧ man'.vvTried = man.vvTried ∧
      man'.vvNew = man.vvNew.set bucket pos none ∧
      ∀ m, man.vvNew bucket pos ≠ some m → Remains man.mapInfo man'.mapInfo m := by
  unfold CAddrMan.clearNew
  cases held : man.vvNew bucket pos with
  | none =>
    refine ⟨man, rfl, kept, rfl, rfl, ?_, ?_⟩
    · funext bucket' pos'
      unfold Table.set
      split
      · rename_i here
        rw [here.1, here.2, held]
      · rfl
    · intro m _
      exact Remains.same man.mapInfo m
  | some n =>
    obtain ⟨info, found, untried, place⟩ := kept.bucketed.inNew bucket pos n held
    have positive : 0 < info.nRefCount := by
      have refs := kept.bucketed.refs n info found
      by_contra zero
      exact kept.bucketed.nowhere found (by omega) bucket pos held
    have few := kept.bucketed.few n info found
    have before : ∀ m, man.vvNew bucket pos = some m → m = n := by
      intro m here
      rw [held] at here
      exact (Option.some.inj here).symm
    have after : ∀ m, none = some m → m = n := by
      intro m absent
      cases absent
    have counted : (isReferenced (n, info)).toNat = 1 := referenced_one positive
    have step := fun loose' surplus' => @Kept.setNew rules man loose loose' surplus n info kept
      found { info with nRefCount := info.nRefCount - 1 } rfl untried bucket pos none man.nNew
      surplus' place before after (by simp [held]) (by simp only; omega)
    simp only [found]
    rw [if_neg (by omega)]
    by_cases last : info.nRefCount - 1 = 0
    · rw [if_pos last]
      have cleared := step (fun m => loose m ∨ m = n) (surplus + 1)
        (by rw [counted, referenced_zero last]; omega)
        (fun m _ held => .inl held) (fun _ => .inr rfl)
      obtain ⟨man', deleted, kept', key, tried, new, remains⟩ :=
        @Kept.delete _ _ _ loose _ _ _ cleared (find?_set_same _ _ _) untried last (by
          intro m different held
          rcases held with held | same
          · exact held
          · exact absurd same different)
      rw [Int.add_sub_cancel] at kept'
      refine ⟨man', deleted, kept', key, tried, new, ?_⟩
      intro m apart
      have different : m ≠ n := fun same => apart (by rw [same])
      exact (Remains.set_other (Remains.same man.mapInfo m) _ different).trans (remains m different)
    · rw [if_neg last]
      refine ⟨_, rfl, ?_, rfl, rfl, rfl, ?_⟩
      · apply step loose surplus
        · rw [counted, referenced_one (by simp only; omega)]
        · intro m _ held
          exact held
        · intro zero
          exact absurd zero last
      · intro m apart
        have different : m ≠ n := fun same => apart (by rw [same])
        exact Remains.set_other (Remains.same man.mapInfo m) _ different

end Steps

end OxidAddrManInvariant
