import Oxid.AddrManRoundTrip

/-!
When reading the file of an address manager gives that manager.
-/
namespace OxidAddrManReload
open OxidPrimitives OxidMasternode OxidMasternodeMan OxidAddrMan
  OxidAddrManInvariant OxidAddrManCheck OxidAddrManStore OxidAddrManRestore OxidAddrManRoundTrip
  OrderedMaps OrderedMap Serialize

/-- The manager that was written, under other numbers and without what is in memory only. -/
structure Restored (rules : AddrRules) (src man : CAddrMan) : Prop where
  check : man.check rules = 0
  key : man.nKey = src.nKey
  nNew : man.nNew = src.nNew
  nTried : man.nTried = src.nTried
  renumbered : ∃ renumber : Nat → Nat,
    (∀ n info, src.mapInfo.find? n = some info → ∃ place,
      man.mapInfo.find? (renumber n) = some { info with nLastTry := 0, nRandomPos := place }) ∧
    (∀ m info, man.mapInfo.find? m = some info →
      ∃ n info', src.mapInfo.find? n = some info' ∧ renumber n = m) ∧
    (∀ bucket pos, man.vvNew bucket pos = (src.vvNew bucket pos).map renumber) ∧
    ∀ bucket pos, man.vvTried bucket pos = (src.vvTried bucket pos).map renumber
  addresses : ∀ addr m, man.mapAddr.find? addr = some m →
    ∃ info, man.mapInfo.find? m = some info ∧ info.ip = addr

/-- Nothing stands where the file does not write, nor where it writes on. -/
structure Vacant (src dst : CAddrMan) : Prop where
  entries : ∀ (n : Nat) info, dst.mapInfo.find? n = some info →
    ((n : Int) < src.nNew ∧ info.fInTried = false ∧ info.nRefCount = 0) ∨
      (src.nNew ≤ n ∧ (n : Int) < src.nNew + src.nTried)
  addresses : ∀ addr n, dst.mapAddr.find? addr = some n →
    ∃ m info, src.mapInfo.find? m = some info ∧ info.ip = addr

section Prune

variable {man man' : CAddrMan}

theorem prune_keeps (kept : ∀ n info, man.mapInfo.find? n = some info →
    ¬ (info.fInTried = false ∧ info.nRefCount = 0)) (ids : List Nat) :
    prune ids man = some man := by
  induction ids with
  | nil => rfl
  | cons n rest ih =>
    unfold prune
    cases found : man.mapInfo.find? n with
    | none => exact ih
    | some info =>
      simp only
      rw [if_neg (kept n info found)]
      exact ih

theorem swapRandom_nNew {nRndPos1 nRndPos2 : Int}
    (swapped : man.swapRandom nRndPos1 nRndPos2 = some man') : man'.nNew = man.nNew := by
  unfold CAddrMan.swapRandom at swapped
  split at swapped
  · cases swapped
    rfl
  · split at swapped
    · cases swapped
    · split at swapped
      · split at swapped
        · cases swapped
          rfl
        · cases swapped
      · cases swapped

theorem delete_nNew {n : Nat} (deleted : man.delete n = some man') : man'.nNew = man.nNew - 1 := by
  unfold CAddrMan.delete at deleted
  split at deleted
  · cases deleted
  · split at deleted
    · cases deleted
    · obtain ⟨swapped, swaps, same⟩ := Option.map_eq_some_iff.mp deleted
      rw [← same]
      simp [swapRandom_nNew swaps]

theorem prune_fewer (ids : List Nat) (pruned : prune ids man = some man') :
    man' = man ∨ man'.nNew < man.nNew := by
  induction ids generalizing man with
  | nil =>
    cases pruned
    exact .inl rfl
  | cons n rest ih =>
    unfold prune at pruned
    split at pruned
    · exact ih pruned
    · split at pruned
      · obtain ⟨left, deleted, pruned⟩ := Option.bind_eq_some_iff.mp pruned
        have fewer := delete_nNew deleted
        rcases ih pruned with same | less
        · rw [same]
          exact .inr (by omega)
        · exact .inr (by omega)
      · exact ih pruned

end Prune

section Refill

variable {rules : AddrRules} {src : CAddrMan} (dst : CAddrMan)

def refilled (rules : AddrRules) (src dst : CAddrMan) : CAddrMan :=
  takeAll rules (CAddrMan.occupied (newGoal src)) (loaded rules src dst)

theorem unserialize_refilled (checked : Checked rules src) (randHash : Uint256) :
    unserialize rules randHash (written src) dst =
      (prune ((refilled rules src dst).mapInfo.entries.map Prod.fst) (refilled rules src dst)).map
        fun man => (man, []) := by
  unfold refilled
  exact unserialize_written checked randHash dst

theorem goal_valid (checked : Checked rules src) {bucket : NewBucket} {pos : Position} {m : Nat}
    (here : newGoal src bucket pos = some m) :
    ∃ n info, src.mapInfo.find? n = some info ∧ info.fInTried = false ∧
      src.vvNew bucket pos = some n ∧ renumber src n = m ∧
      (news src)[m]? = some (n, info) ∧ m < (news src).length ∧
      info.getBucketPosition rules src.nKey true bucket = pos := by
  obtain ⟨n, held, number⟩ := Option.map_eq_some_iff.mp here
  obtain ⟨info, found, untried, atPos⟩ := checked.bucketed.inNew bucket pos n held
  obtain ⟨inside, listed⟩ := renumber_new found untried
  rw [number] at inside listed
  exact ⟨n, info, found, untried, held, number, listed, inside, atPos⟩

theorem newCount_none {nKey : Uint256} (n : Nat) (info : CAddrInfo) :
    newCount rules nKey (fun _ _ => none) n info = 0 := by
  apply List.countP_eq_zero.mpr
  intro bucket _
  simp

theorem loaded_filled : Filled rules (loaded rules src dst) (loaded rules src dst) := by
  constructor
  · rfl
  · intro m _
    rfl
  · intro m info _ found
    have none := @newCount_none rules src.nKey m info
    change newCount rules (loaded rules src dst).nKey (loaded rules src dst).vvNew m info = 0
      at none
    rw [found, none]
    simp [counting]
  · intro bucket pos m absent
    cases absent

section
variable (checked : Checked rules src)
include checked

theorem refilled_filled : Filled rules (loaded rules src dst) (refilled rules src dst) := by
  apply (loaded_filled dst).takeAll
  intro bucket pos m member
  obtain ⟨n, info, _, _, _, _, listed, inside, _⟩ := goal_valid checked (occupied_mem member)
  have small := news_small checked
  have count := new_length checked
  refine ⟨?_, by omega, _, loaded_new dst listed⟩
  change (m : Int) < src.nNew
  omega

theorem refilled_key : (refilled rules src dst).nKey = src.nKey := by
  rw [(refilled_filled dst checked).key]
  rfl

theorem refilled_vRandom : (refilled rules src dst).vRandom =
    List.range ((news src).length + (trieds src).length) := by
  rw [(refilled_filled dst checked).random]
  rfl

theorem refilled_mapAddr : (refilled rules src dst).mapAddr = (loaded rules src dst).mapAddr :=
  (refilled_filled dst checked).addr

theorem refilled_vvTried : (refilled rules src dst).vvTried = triedGoal src := by
  rw [(refilled_filled dst checked).tried, loaded_vvTried dst checked]

theorem refilled_nNew : (refilled rules src dst).nNew = src.nNew := by
  rw [(refilled_filled dst checked).count]
  rfl

theorem refilled_nTried : (refilled rules src dst).nTried = src.nTried := by
  rw [(refilled_filled dst checked).countTried]
  rfl

theorem refilled_new {m n : Nat} {info : CAddrInfo} (listed : (news src)[m]? = some (n, info)) :
    ∃ read : CAddrInfo,
      read = { CAddrInfo.readOnto ((dst.mapInfo.find? m).getD CAddrInfo.fresh) info with
        nRandomPos := m } ∧
      (refilled rules src dst).mapInfo.find? m =
        some (counting read (newCount rules src.nKey (refilled rules src dst).vvNew m read)) := by
  have inside := (List.getElem?_eq_some_iff.mp listed).1
  have count := new_length checked
  refine ⟨_, rfl, (refilled_filled dst checked).news m _ ?_ (loaded_new dst listed)⟩
  change (m : Int) < src.nNew
  omega

theorem refilled_other {m : Nat} (beyond : (news src).length ≤ m) :
    (refilled rules src dst).mapInfo.find? m = (loaded rules src dst).mapInfo.find? m := by
  have count := new_length checked
  apply (refilled_filled dst checked).others m
  change src.nNew ≤ m
  omega

end

theorem order_bound {m : Nat} {entry : Nat × CAddrInfo} (listed : (order src)[m]? = some entry) :
    m < (news src).length + (trieds src).length := by
  have within := (List.getElem?_eq_some_iff.mp listed).1
  rwa [order, List.length_append] at within

section Forth

variable {dst} (checked : Checked rules src) (vacant : Vacant src dst)
include checked vacant

theorem vacant_standing {m : Nat} (inside : m < (news src).length) :
    ((dst.mapInfo.find? m).getD CAddrInfo.fresh).fInTried = false ∧
      ((dst.mapInfo.find? m).getD CAddrInfo.fresh).nRefCount = 0 := by
  cases found : dst.mapInfo.find? m with
  | none => exact ⟨rfl, rfl⟩
  | some info =>
    have count := new_length checked
    rcases vacant.entries m info found with below | beyond
    · exact below.2
    · omega

theorem refilled_vvNew : (refilled rules src dst).vvNew = newGoal src := by
  have target : Target rules (loaded rules src dst) (newGoal src) := by
    have count := new_length checked
    constructor
    · intro bucket pos m here
      obtain ⟨n, info, found, _, _, _, listed, inside, atPos⟩ := goal_valid checked here
      have small := news_small checked
      refine ⟨?_, by omega, _, loaded_new dst listed, ?_, ?_⟩
      · change (m : Int) < src.nNew
        omega
      · exact (vacant_standing checked vacant inside).2
      · rw [← atPos]
        exact bucketPosition_service rfl true bucket
    · intro m read below here
      change (m : Int) < src.nNew at below
      have inside : m < (news src).length := by omega
      have listed := List.getElem?_eq_getElem inside
      generalize (news src)[m] = entry at listed
      obtain ⟨n, info⟩ := entry
      have number := renumber_at ((news_at inside).trans listed)
      obtain ⟨found, _⟩ := found_in (List.mem_of_getElem? listed)
      rw [loaded_new dst listed] at here
      have few := checked.bucketed.few n info found
      have same : read.service = info.service := by
        rw [← Option.some.inj here]
        rfl
      have counted := newCount_goal checked found same
      rw [number] at counted
      exact counted.trans_le few
  apply Filled.reaches target (CAddrMan.occupied (newGoal src)) (loaded_filled dst)
  · intro bucket pos m absent
    cases absent
  · intro bucket pos m member
    exact occupied_mem member
  · intro bucket pos m here
    exact .inr (mem_occupied here)

theorem refilled_find (m : Nat) :
    (refilled rules src dst).mapInfo.find? m =
      (order src)[m]?.map fun entry => { entry.2 with nLastTry := 0, nRandomPos := m } := by
  have countTried := tried_length checked
  have count := new_length checked
  by_cases inside : m < (news src).length
  · have listed := List.getElem?_eq_getElem inside
    generalize (news src)[m] = entry at listed
    obtain ⟨n, info⟩ := entry
    have number := renumber_at ((news_at inside).trans listed)
    obtain ⟨found, untried⟩ := found_in (List.mem_of_getElem? listed)
    obtain ⟨read, readIs, here⟩ := refilled_new dst checked listed
    have standing := vacant_standing checked vacant inside
    have counted := newCount_goal checked found (show read.service = info.service by rw [readIs]; rfl)
    rw [number] at counted
    rw [here, refilled_vvNew checked vacant, news_at inside, listed, Option.map_some, counting,
      counted, readIs]
    simp only [CAddrInfo.readOnto, standing.1, standing.2, Int.zero_add]
    have left : info.fInTried = false := by simpa [isTried] using untried
    rw [← left]
  · rw [refilled_other dst checked (by omega)]
    obtain ⟨place, same⟩ : ∃ place, m = (news src).length + place := ⟨m - (news src).length, by omega⟩
    rw [same, trieds_at]
    cases listed : (trieds src)[place]? with
    | none =>
      have beyond := List.getElem?_eq_none_iff.mp listed
      rw [loaded_beyond dst (by omega), Option.map_none]
      cases found : dst.mapInfo.find? ((news src).length + place) with
      | none => rfl
      | some info =>
        rcases vacant.entries _ info found with below | within
        · omega
        · omega
    | some entry =>
      obtain ⟨n, info⟩ := entry
      obtain ⟨found, tried⟩ := found_in (List.mem_of_getElem? listed)
      have none := (checked.entry n info found).unreferenced tried
      rw [loaded_tried dst listed, Option.map_some]
      simp only [CAddrInfo.readOnto]
      rw [none, show info.fInTried = true from tried]
      rfl

theorem refilled_entry {m : Nat} {read : CAddrInfo}
    (here : (refilled rules src dst).mapInfo.find? m = some read) :
    ∃ n info, src.mapInfo.find? n = some info ∧ (order src)[m]? = some (n, info) ∧
      renumber src n = m ∧ read = { info with nLastTry := 0, nRandomPos := m } := by
  rw [refilled_find checked vacant] at here
  obtain ⟨⟨n, info⟩, listed, same⟩ := Option.map_eq_some_iff.mp here
  exact ⟨n, info, mem_order.mp (List.mem_of_getElem? listed), listed, renumber_at listed, same.symm⟩

theorem refilled_countP (count : CAddrInfo → Bool)
    (blind : ∀ (info : CAddrInfo) (m : Nat),
      count { info with nLastTry := 0, nRandomPos := m } = count info) :
    (refilled rules src dst).mapInfo.entries.countP (fun entry => count entry.2) =
      src.mapInfo.entries.countP fun entry => count entry.2 := by
  have perm : (refilled rules src dst).mapInfo.entries.Perm ((order src).zipIdx.map fun entry =>
      (entry.2, { entry.1.2 with nLastTry := 0, nRandomPos := (entry.2 : Int) })) := by
    apply (List.perm_ext_iff_of_nodup _ _).mpr
    · intro entry
      obtain ⟨m, read⟩ := entry
      rw [mem_entries_iff, refilled_find checked vacant, Option.map_eq_some_iff, List.mem_map]
      constructor
      · intro standing
        obtain ⟨entry, listed, same⟩ := standing
        exact ⟨(entry, m), List.mem_zipIdx_iff_getElem?.mpr listed, by rw [← same]⟩
      · intro standing
        obtain ⟨⟨entry, m'⟩, listed, same⟩ := standing
        cases same
        exact ⟨entry, List.mem_zipIdx_iff_getElem?.mp listed, rfl⟩
    · exact List.Nodup.of_map Prod.fst (OrderedMap.keys_nodup _)
    · apply List.Nodup.of_map Prod.fst
      rw [List.map_map]
      change ((order src).zipIdx.map Prod.snd).Nodup
      rw [List.zipIdx_map_snd]
      exact List.nodup_range'
  rw [perm.countP_eq, List.countP_map, ← order_perm.countP_eq]
  have firsts : (order src).zipIdx.map Prod.fst = order src := List.zipIdx_map_fst 0 _
  conv_rhs => rw [← firsts, List.countP_map]
  apply List.countP_congr
  intro entry _
  simp [blind]

theorem refilled_standing {n : Nat} {info : CAddrInfo} (found : src.mapInfo.find? n = some info) :
    (refilled rules src dst).mapInfo.find? (renumber src n) =
      some { info with nLastTry := 0, nRandomPos := renumber src n } := by
  rw [refilled_find checked vacant, at_renumber found, Option.map_some]

theorem refilled_entries {m : Nat} {read : CAddrInfo}
    (here : (refilled rules src dst).mapInfo.find? m = some read) :
    EntryChecked (refilled rules src dst) m read := by
  obtain ⟨n, info, found, listed, number, readIs⟩ := refilled_entry checked vacant here
  have passes := checked.entry n info found
  rw [readIs]
  constructor
  · exact passes.success
  · exact passes.unreferenced
  · exact passes.referenced
  · rw [refilled_mapAddr dst checked]
    change ((loaded rules src dst).mapAddr.find? info.ip).getD 0 = m
    rw [loaded_named dst checked listed]
    rfl
  · refine ⟨m, rfl, ?_⟩
    rw [refilled_vRandom dst checked, List.getElem?_range (order_bound listed)]
  · exact Int64.le_refl 0
  · exact passes.lastSuccess

theorem refilled_shuffled :
    Shuffled (refilled rules src dst).mapInfo (refilled rules src dst).vRandom := by
  have random := refilled_vRandom dst checked
  constructor
  · intro m read here
    obtain ⟨n, info, _, listed, _, readIs⟩ := refilled_entry checked vacant here
    refine ⟨m, by rw [readIs], ?_⟩
    rw [random, List.getElem?_range (order_bound listed)]
  · intro place m here
    rw [random] at here
    obtain ⟨within, same⟩ := List.getElem?_eq_some_iff.mp here
    rw [List.getElem_range] at same
    rw [List.length_range] at within
    have listed := List.getElem?_eq_getElem (show place < (order src).length by
      rw [order, List.length_append]
      exact within)
    rw [← same, refilled_find checked vacant, listed]
    exact ⟨_, rfl, rfl⟩

theorem refilled_bucketed :
    Bucketed rules (refilled rules src dst).nKey (refilled rules src dst).mapInfo
      (refilled rules src dst).vvTried (refilled rules src dst).vvNew := by
  rw [refilled_key dst checked, refilled_vvTried dst checked, refilled_vvNew checked vacant]
  constructor
  · intro m read here tried
    obtain ⟨n, info, found, _, number, readIs⟩ := refilled_entry checked vacant here
    rw [readIs] at tried ⊢
    obtain ⟨none, held⟩ := checked.bucketed.tried n info found tried
    refine ⟨none, ?_⟩
    rw [triedGoal, ← number]
    exact congrArg (Option.map (renumber src)) held
  · intro bucket pos m here
    obtain ⟨n, held, number⟩ := Option.map_eq_some_iff.mp here
    obtain ⟨info, found, tried, atBucket, atPos⟩ := checked.bucketed.inTried bucket pos n held
    rw [← number]
    exact ⟨_, refilled_standing checked vacant found, tried, atBucket, atPos⟩
  · intro bucket pos m here
    obtain ⟨n, held, number⟩ := Option.map_eq_some_iff.mp here
    obtain ⟨info, found, untried, atPos⟩ := checked.bucketed.inNew bucket pos n held
    rw [← number]
    exact ⟨_, refilled_standing checked vacant found, untried, atPos⟩
  · intro m read here
    obtain ⟨n, info, found, _, number, readIs⟩ := refilled_entry checked vacant here
    have same : read.service = info.service := by rw [readIs]
    rw [← number, newCount_goal checked found same, readIs]
  · intro m read here
    obtain ⟨n, info, found, _, _, readIs⟩ := refilled_entry checked vacant here
    rw [readIs]
    exact checked.bucketed.few n info found

theorem refilled_checked : Checked rules (refilled rules src dst) := by
  constructor
  · rw [refilled_key dst checked]
    exact checked.keyed
  · exact fun m read here => refilled_entries checked vacant here
  · exact refilled_shuffled checked vacant
  · exact refilled_bucketed checked vacant
  · rw [refilled_nTried dst checked, checked.tried]
    exact congrArg Nat.cast
      (refilled_countP checked vacant CAddrInfo.fInTried fun _ _ => rfl).symm
  · rw [refilled_nNew dst checked, checked.new]
    exact congrArg Nat.cast
      (refilled_countP checked vacant (fun info => !info.fInTried) fun _ _ => rfl).symm

end Forth

theorem restored_of_vacant (checked : Checked rules src) (vacant : Vacant src dst) :
    Restored rules src (refilled rules src dst) := by
  constructor
  · exact check_sound (refilled_checked checked vacant)
  · exact refilled_key dst checked
  · exact refilled_nNew dst checked
  · exact refilled_nTried dst checked
  · refine ⟨renumber src, ?_, ?_, ?_, ?_⟩
    · intro n info found
      refine ⟨renumber src n, ?_⟩
      rw [refilled_find checked vacant, at_renumber found]
      rfl
    · intro m read here
      obtain ⟨n, info, found, _, number, _⟩ := refilled_entry checked vacant here
      exact ⟨n, info, found, number⟩
    · intro bucket pos
      rw [refilled_vvNew checked vacant]
      rfl
    · intro bucket pos
      rw [refilled_vvTried dst checked]
      rfl
  · intro addr m here
    rw [refilled_mapAddr dst checked] at here
    by_cases known : ∃ n info, src.mapInfo.find? n = some info ∧ info.ip = addr
    · obtain ⟨n, info, found, same⟩ := known
      have listed := at_renumber found
      rw [← same, loaded_named dst checked listed] at here
      cases here
      refine ⟨{ info with nLastTry := 0, nRandomPos := renumber src n }, ?_, same⟩
      rw [refilled_find checked vacant, listed]
      rfl
    · rw [loaded_unnamed dst fun n info found same => known ⟨n, info, found, same⟩] at here
      exact absurd (vacant.addresses addr m here) known

theorem vacant_of_restored (checked : Checked rules src)
    (restored : Restored rules src (refilled rules src dst)) : Vacant src dst := by
  have passes := checked_of_check restored.check
  have key := refilled_key dst checked
  have countNew := new_length checked
  have countTried := tried_length checked
  constructor
  · intro n info found
    by_cases inside : n < (news src).length
    · have listed := List.getElem?_eq_getElem inside
      generalize (news src)[n] = entry at listed
      obtain ⟨read, readIs, here⟩ := refilled_new dst checked listed
      rw [found, Option.getD_some] at readIs
      have refs := passes.bucketed.refs n _ here
      rw [key, newCount_service (show (counting read _).service = read.service from rfl)] at refs
      have none : info.nRefCount = 0 := by
        have same : read.nRefCount = info.nRefCount := by rw [readIs]; rfl
        simp only [counting] at refs
        omega
      have untried : info.fInTried = false := by
        by_contra tried
        have same : read.fInTried = info.fInTried := by rw [readIs]; rfl
        have inTried : read.fInTried = true := by rw [same]; simpa using tried
        have held := (passes.bucketed.tried n _ here inTried).2
        rw [refilled_vvTried dst checked] at held
        obtain ⟨m, standing, number⟩ := Option.map_eq_some_iff.mp held
        obtain ⟨entry, found', tried', _⟩ := checked.bucketed.inTried _ _ m standing
        obtain ⟨place, beyond, _⟩ := renumber_tried found' tried'
        omega
      exact .inl ⟨by omega, untried, none⟩
    · by_cases within : n < (news src).length + (trieds src).length
      · exact .inr ⟨by omega, by omega⟩
      · have here : (refilled rules src dst).mapInfo.find? n = some info := by
          rw [refilled_other dst checked (by omega), loaded_beyond dst (by omega), found]
        obtain ⟨place, _, listed⟩ := passes.shuffled.standing n info here
        rw [refilled_vRandom dst checked] at listed
        have member := List.mem_range.mp (List.mem_of_getElem? listed)
        omega
  · intro addr n named
    by_contra unknown
    have here : (refilled rules src dst).mapAddr.find? addr = some n := by
      rw [refilled_mapAddr dst checked, loaded_unnamed dst, named]
      intro m info found same
      exact unknown ⟨m, info, found, same⟩
    obtain ⟨read, standing, ip⟩ := restored.addresses addr n here
    obtain ⟨renumbered, entries, only, _⟩ := restored.renumbered
    obtain ⟨m, info, found, number⟩ := only n read standing
    obtain ⟨place, back⟩ := entries m info found
    rw [number, standing] at back
    cases back
    exact unknown ⟨m, info, found, ip⟩

theorem vacant_of_read (checked : Checked rules src) {randHash : Uint256} {stream : Bytes}
    {man : CAddrMan} (serialized : serialize src = some stream)
    (read : unserialize rules randHash stream dst = some (man, []))
    (restored : Restored rules src man) : Vacant src dst := by
  rw [serialize_written checked] at serialized
  cases serialized
  rw [unserialize_refilled dst checked, Option.map_eq_some_iff] at read
  obtain ⟨left, pruned, same⟩ := read
  cases same
  have whole : man = refilled rules src dst := by
    rcases prune_fewer _ pruned with same | fewer
    · exact same
    · rw [restored.nNew, refilled_nNew dst checked] at fewer
      omega
  rw [whole] at restored
  exact vacant_of_restored dst checked restored

end Refill

/-- Reading back what a manager wrote gives that manager exactly when nothing stands in the way:
    no entry under a number that is not written over, none that counts references or is tried
    under the numbers of the new entries, and no other address. -/
theorem unserialize_restores_iff (rules : AddrRules) (src dst : CAddrMan) (randHash : Uint256)
    (passes : src.check rules = 0) :
    (∃ stream man, serialize src = some stream ∧
      unserialize rules randHash stream dst = some (man, []) ∧ Restored rules src man) ↔
      Vacant src dst := by
  have checked := checked_of_check passes
  constructor
  · intro back
    obtain ⟨stream, man, serialized, read, restored⟩ := back
    exact vacant_of_read dst checked serialized read restored
  · intro vacant
    refine ⟨written src, refilled rules src dst, serialize_written checked, ?_,
      restored_of_vacant dst checked vacant⟩
    rw [unserialize_refilled dst checked, prune_keeps, Option.map_some]
    intro m read here loose
    have some := ((refilled_checked checked vacant).entry m read here).referenced loose.1
    omega

section Stale

open OxidAddrManRuns

theorem crowded_reload :
    ∃ src, run crowded
        [oneAdded, .good somePeer 1000 0, .add ⟨otherPeer, 1, 1000, 0⟩ ⟨1⟩ 0 1000 fun _ => 0]
        (CAddrMan.init 1) = some src ∧
      ((∃ stream man, serialize src = some stream ∧
        unserialize crowded 7 stream (CAddrMan.init 2) = some (man, []) ∧
          Restored crowded src man) ↔ Vacant src (CAddrMan.init 2)) := by
  obtain ⟨src, ran, consistent⟩ := @run_consistent crowded
    [oneAdded, .good somePeer 1000 0, .add ⟨otherPeer, 1, 1000, 0⟩ ⟨1⟩ 0 1000 fun _ => 0]
    (CAddrMan.init 1) (init_consistent (by decide)) (by simp [oneAdded, Call.Positive])
    (by simp [oneAdded, Call.Dated])
  exact ⟨src, ran, unserialize_restores_iff crowded src (CAddrMan.init 2) 7
    (check_sound (checked_of_consistent consistent))⟩

def otherAdded : Call := .add ⟨otherPeer, 1, 1000, 0⟩ ⟨1⟩ 0 1000 fun _ => 0

/-- A manager that knew another address still knows it after reading the file. -/
theorem stale_address_stays :
    ¬ ∀ (rules : AddrRules) (src dst : CAddrMan) (randHash : Uint256),
      src.check rules = 0 → dst.check rules = 0 →
        ∃ stream man, serialize src = some stream ∧
          unserialize rules randHash stream dst = some (man, []) ∧ Restored rules src man := by
  intro claimed
  have passes : ∀ (call : Call), call.Positive → call.Dated →
      ∃ man, run crowded [call] (CAddrMan.init 1) = some man ∧ man.check crowded = 0 := by
    intro call positive dated
    obtain ⟨man, ran, consistent⟩ := @run_consistent crowded [call] (CAddrMan.init 1)
      (init_consistent (by decide)) (by simpa using positive) (by simpa using dated)
    exact ⟨man, ran, check_sound (checked_of_consistent consistent)⟩
  obtain ⟨src, ranSrc, passesSrc⟩ := passes otherAdded trivial trivial
  obtain ⟨dst, ranDst, passesDst⟩ := passes oneAdded trivial trivial
  obtain ⟨stream, man, serialized, read, restored⟩ := claimed crowded src dst 7 passesSrc passesDst
  have vacant := vacant_of_read dst (checked_of_check passesSrc) serialized read restored
  have known : (run crowded [oneAdded] (CAddrMan.init 1)).map (fun man =>
      man.mapAddr.find? somePeer.toCNetAddr) = some (some 0) := by
    decide +kernel
  rw [ranDst, Option.map_some, Option.some.injEq] at known
  obtain ⟨m, info, found, ip⟩ := vacant.addresses _ _ known
  have others : (run crowded [otherAdded] (CAddrMan.init 1)).map (fun man =>
      man.mapInfo.entries.map fun entry => entry.2.ip) = some [otherPeer.toCNetAddr] := by
    decide +kernel
  rw [ranSrc, Option.map_some, Option.some.injEq] at others
  have listed : info.ip ∈ src.mapInfo.entries.map fun entry => entry.2.ip :=
    List.mem_map.mpr ⟨(m, info), (mem_entries_iff _ _ _).mpr found, rfl⟩
  rw [others, ip, List.mem_singleton] at listed
  exact absurd listed (by decide)

end Stale

end OxidAddrManReload
