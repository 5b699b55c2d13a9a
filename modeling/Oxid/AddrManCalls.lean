import Oxid.AddrManInvariant

/-!
Every call on a consistent address manager comes to its end, and leaves a consistent one on
which the check finds nothing.
-/
namespace OxidAddrManCalls
open OxidPrimitives OxidMasternode OxidMasternodeMan OxidAddrMan OxidAddrManInvariant OrderedMaps
  OrderedMap

section Calls

variable {rules : AddrRules} {man : CAddrMan} {loose loose' : Nat → Prop} {surplus : Int}
  {n : Nat} {info : CAddrInfo}

def shortfall (info : CAddrInfo) : Int := if info.nRefCount = 0 then 1 else 0

theorem referenced_shortfall (nonneg : 0 ≤ info.nRefCount) :
    ((isReferenced (n, info)).toNat : Int) = 1 - shortfall info := by
  unfold shortfall
  split
  · rename_i zero
    rw [referenced_zero zero]
    rfl
  · rename_i positive
    rw [referenced_one (by simp only; omega)]
    rfl

section
variable (kept : Kept rules man loose surplus) (found : man.mapInfo.find? n = some info)
  (untried : info.fInTried = false)
include kept found untried

theorem kept_take {bucket : NewBucket} {pos : Position}
    (place : info.getBucketPosition rules man.nKey true bucket = pos)
    (free : man.vvNew bucket pos = none) {refs nNew surplus' : Int}
    (more : refs = info.nRefCount + 1) (few : refs ≤ ADDRMAN_NEW_BUCKETS_PER_ADDRESS)
    (number : nNew - surplus' = man.nNew - surplus + shortfall info)
    (weaker : ∀ m, m ≠ n → loose m → loose' m) :
    Kept rules
      { man.setInfo n { info with nRefCount := refs } with
        vvNew := man.vvNew.set bucket pos (some n)
        nNew := nNew }
      loose' surplus' := by
  have nonneg := kept.bucketed.nonneg found
  apply kept.setNew found _ rfl untried place
  · intro m here
    rw [free] at here
    cases here
  · intro m here
    exact (Option.some.inj here).symm
  · simp [free, more]
  · exact few
  · rw [referenced_shortfall nonneg, referenced_one (by simp only; omega)]
    omega
  · exact weaker
  · intro zero
    simp only at zero
    omega

theorem putNew_kept (few : info.nRefCount ≠ ADDRMAN_NEW_BUCKETS_PER_ADDRESS) {bucket : NewBucket}
    {pos : Position} (place : info.getBucketPosition rules man.nKey true bucket = pos)
    (apart : man.vvNew bucket pos ≠ some n) (weaker : ∀ m, m ≠ n → loose m → loose' m) :
    ∃ man', man.putNew n bucket pos = some man' ∧
      Kept rules man' loose' (surplus - shortfall info) ∧ man'.nKey = man.nKey := by
  obtain ⟨man', cleared, kept', key, _, new, remains⟩ := kept.clearNew bucket pos
  obtain ⟨random, found'⟩ := remains n apart info found
  have bound := kept.bucketed.few n info found
  unfold CAddrMan.putNew
  rw [cleared, Option.bind_some, found']
  refine ⟨_, rfl, ?_, key⟩
  apply kept_take kept' found' untried
  · rw [key]
    exact place
  · rw [new, set_at]
  · rfl
  · simp only
    omega
  · change _ = man'.nNew - surplus + shortfall info
    simp only [CAddrMan.setInfo]
    omega
  · exact weaker

end

theorem enterNew_kept (kept : Kept rules man (fun m => m = n) (shortfall info))
    (found : man.mapInfo.find? n = some info) (untried : info.fInTried = false)
    (few : info.nRefCount ≠ ADDRMAN_NEW_BUCKETS_PER_ADDRESS) (source : CNetAddr) (nNow : Int) :
    ∃ man', man.enterNew rules n source nNow = some man' ∧
      Kept rules man' (fun _ => False) 0 ∧ man'.nKey = man.nKey := by
  have put : ∀ (bucket : NewBucket) (pos : Position),
      info.getBucketPosition rules man.nKey true bucket = pos →
      man.vvNew bucket pos ≠ some n → ∃ man', man.putNew n bucket pos = some man' ∧
        Kept rules man' (fun _ => False) 0 ∧ man'.nKey = man.nKey := by
    intro bucket pos place apart
    have entered := @putNew_kept _ _ _ (fun _ => False) _ _ _ kept found untried few bucket pos
      place apart (fun m different same => different same)
    rwa [Int.sub_self] at entered
  have referenced : info.nRefCount ≠ 0 → Kept rules man (fun _ => False) 0 := by
    intro some
    rw [shortfall, if_neg some] at kept
    refine { kept with referenced := ?_ }
    intro m entry standing left unreferenced
    have same := kept.referenced m entry standing left unreferenced
    rw [same, found] at standing
    cases standing
    exact some unreferenced
  unfold CAddrMan.enterNew
  simp only [found]
  generalize bucketIs : info.getNewBucket rules man.nKey source = bucket
  generalize place : info.getBucketPosition rules man.nKey true bucket = pos
  cases held : man.vvNew bucket pos with
  | none => exact put bucket pos place (by simp [held])
  | some nIdExisting =>
    simp only
    by_cases own : nIdExisting = n
    · rw [if_pos own]
      rw [own] at held
      exact ⟨man, rfl, referenced fun zero => kept.bucketed.nowhere found zero bucket pos held, rfl⟩
    · rw [if_neg own]
      obtain ⟨infoExisting, standing, _⟩ := kept.bucketed.inNew bucket pos nIdExisting held
      simp only [standing]
      split
      · exact put bucket pos place (by rw [held]; exact fun same => own (Option.some.inj same))
      · split
        · rename_i zero
          rw [shortfall, if_pos zero] at kept
          obtain ⟨man', deleted, kept', key, _⟩ := @Kept.delete _ _ _ (fun _ => False) _ _ _ kept
            found untried zero (fun m different same => different same)
          exact ⟨man', deleted, kept', key⟩
        · rename_i some
          exact ⟨man, rfl, referenced some, rfl⟩

theorem leaveNew_kept {origin : CAddrInfo} (buckets : List NewBucket) (man : CAddrMan)
    (kept : Kept rules man (fun m => m = n) (shortfall info))
    (found : man.mapInfo.find? n = some info) (untried : info.fInTried = false)
    (same : origin.service = info.service) :
    ∃ man' refs, man'.mapInfo.find? n = some { info with nRefCount := refs } ∧
      man.leaveNew rules n origin buckets = man' ∧
      Kept rules man' (fun m => m = n) (shortfall { info with nRefCount := refs }) ∧
      man'.nKey = man.nKey ∧
      (∀ bucket ∈ buckets,
        man'.vvNew bucket (info.getBucketPosition rules man.nKey true bucket) ≠ some n) ∧
      ∀ bucket pos, man.vvNew bucket pos ≠ some n → man'.vvNew bucket pos ≠ some n := by
  induction buckets generalizing man info with
  | nil =>
    refine ⟨man, info.nRefCount, found, rfl, kept, rfl, ?_, ?_⟩
    · intro bucket absent
      cases absent
    · intro bucket pos away
      exact away
  | cons bucket rest ih =>
    unfold CAddrMan.leaveNew
    simp only [bucketPosition_service same]
    generalize place : info.getBucketPosition rules man.nKey true bucket = pos
    by_cases held : man.vvNew bucket pos = some n
    · rw [if_pos held]
      simp only [found]
      have nonneg := kept.bucketed.nonneg found
      have positive : 0 < info.nRefCount := by
        by_contra zero
        exact kept.bucketed.nowhere found (by omega) bucket pos held
      have few := kept.bucketed.few n info found
      have left : Kept rules
          { man.setInfo n { info with nRefCount := info.nRefCount - 1 } with
            vvNew := man.vvNew.set bucket pos none }
          (fun m => m = n) (shortfall { info with nRefCount := info.nRefCount - 1 }) := by
        apply kept.setNew found _ rfl untried place
        · intro m here
          rw [held] at here
          exact (Option.some.inj here).symm
        · intro m absent
          cases absent
        · simp [held]
        · simp only
          omega
        · rw [referenced_shortfall nonneg, referenced_shortfall (by simp only; omega)]
          change man.nNew - _ + _ = _
          omega
        · intro m different same
          exact absurd same different
        · intro _
          rfl
      obtain ⟨man', refs, found', ends, kept', key, away, stays⟩ :=
        ih _ left (find?_set_same _ _ _) untried same
      refine ⟨man', refs, found', ends, kept', key, ?_, ?_⟩
      · intro bucket' member
        rcases List.mem_cons.mp member with here | further
        · rw [here, place]
          apply stays
          simp only [set_at]
          exact fun absent => nomatch absent
        · exact away bucket' further
      · intro bucket' pos' elsewhere
        apply stays
        intro here
        simp only [Table.set] at here
        split at here
        · cases here
        · exact elsewhere here
    · rw [if_neg held]
      obtain ⟨man', refs, found', ends, kept', key, away, stays⟩ := ih man kept found untried same
      refine ⟨man', refs, found', ends, kept', key, ?_, stays⟩
      intro bucket' member
      rcases List.mem_cons.mp member with here | further
      · rw [here, place]
        exact stays bucket pos held
      · exact away bucket' further

theorem evict_kept (kept : Kept rules man (fun m => m = n) 0)
    (found : man.mapInfo.find? n = some info) (untried : info.fInTried = false)
    (unreferenced : info.nRefCount = 0) (bucket : TriedBucket) (pos : Position) :
    ∃ man', man.evict rules bucket pos = some man' ∧ Kept rules man' (fun m => m = n) 0 ∧
      man'.nKey = man.nKey ∧ man'.vvTried bucket pos = none ∧
      Remains man.mapInfo man'.mapInfo n := by
  unfold CAddrMan.evict
  cases held : man.vvTried bucket pos with
  | none => exact ⟨man, rfl, kept, rfl, held, Remains.same man.mapInfo n⟩
  | some nIdEvict =>
    obtain ⟨infoOld, standing, tried, atBucket, atPos⟩ :=
      kept.bucketed.inTried bucket pos nIdEvict held
    have different : n ≠ nIdEvict := by
      intro same
      rw [← same, found] at standing
      cases standing
      rw [untried] at tried
      cases tried
    have free : infoOld.nRefCount = 0 := (kept.bucketed.tried nIdEvict infoOld standing tried).1
    simp only [standing]
    generalize bucketIs : infoOld.getNewBucket rules man.nKey infoOld.source = nUBucket
    generalize place : infoOld.getBucketPosition rules man.nKey true nUBucket = nUBucketPos
    have left : Kept rules
        { man.setInfo nIdEvict { infoOld with fInTried := false } with
          vvTried := man.vvTried.set bucket pos none
          nTried := man.nTried - 1 }
        (fun m => m = n ∨ m = nIdEvict) 0 := by
      apply kept.setTried standing { infoOld with fInTried := false } rfl free atBucket atPos
      · intro m here
        rw [held] at here
        exact (Option.some.inj here).symm
      · simp [isTried, tried]
      · intro absent
        cases absent
      · intro m _ same
        exact .inl same
      · intro _
        exact .inr rfl
    obtain ⟨man', cleared, kept', key, triedTable, new, remains⟩ :=
      left.clearNew nUBucket nUBucketPos
    have outside : ∀ m entry, man.mapInfo.find? m = some entry → entry.nRefCount = 0 →
        man.vvNew nUBucket nUBucketPos ≠ some m := by
      intro m entry here zero
      exact kept.bucketed.nowhere here zero nUBucket nUBucketPos
    obtain ⟨random, found'⟩ := remains nIdEvict (outside nIdEvict infoOld standing free) _
      (find?_set_same _ _ _)
    rw [cleared]
    simp only [new, set_at, Option.isSome_none, Bool.false_eq_true, if_false, found',
      Option.map_some]
    refine ⟨_, rfl, ?_, key, ?_, ?_⟩
    · have entered := @kept_take _ _ _ (fun m => m = n) _ _ _ kept' found' rfl nUBucket nUBucketPos
        (by rw [key]; exact place) (by rw [new, set_at]) 1 (man'.nNew + 1) 0 (by simp [free])
        (by decide) (by simp [shortfall, free]) (by
          intro m apart same
          rcases same with same | same
          · exact same
          · exact absurd same apart)
      rw [new] at entered
      exact entered
    · simp only [CAddrMan.setInfo, triedTable, set_at]
    · apply Remains.set_other _ _ different
      exact (Remains.set_other (Remains.same man.mapInfo n) _ different).trans
        (remains n (outside n info found unreferenced))

section
variable (kept : Kept rules man (fun _ => False) 0) (found : man.mapInfo.find? n = some info)
  (untried : info.fInTried = false)
include kept found untried

theorem kept_ahead : Kept rules man (fun m => m = n) (shortfall info) := by
  have some : info.nRefCount ≠ 0 := fun zero => kept.referenced n info found untried zero
  rw [shortfall, if_neg some]
  exact kept.loosen fun m absent => absent.elim

theorem makeTried_kept (success : 0 < info.nLastSuccess) :
    ∃ man', man.makeTried rules info n = some man' ∧ Kept rules man' (fun _ => False) 0 ∧
      man'.nKey = man.nKey := by
  obtain ⟨man1, refs, found1, ends, kept1, key1, away, _⟩ :=
    leaveNew_kept (List.finRange ADDRMAN_NEW_BUCKET_COUNT) man (kept_ahead kept found untried) found
      untried rfl
  have zero : refs = 0 := by
    have counted := kept1.bucketed.refs n _ found1
    have none : newCount rules man1.nKey man1.vvNew n { info with nRefCount := refs } = 0 := by
      apply List.countP_eq_zero.mpr
      intro bucket _
      rw [key1]
      exact fun here => away bucket (List.mem_finRange bucket) (of_decide_eq_true here)
    rw [none] at counted
    exact counted
  subst zero
  have lowered : Kept rules { man1 with nNew := man1.nNew - 1 } (fun m => m = n) 0 := by
    have new := kept1.numbered.new
    refine { kept1 with numbered := ⟨kept1.numbered.tried, ?_⟩ }
    simp only [shortfall, if_true] at new
    simp only
    omega
  unfold CAddrMan.makeTried
  rw [ends]
  simp only [found1, ne_eq, not_true, if_false]
  generalize atBucket : CAddrInfo.getTriedBucket rules _ _ = bucket
  generalize atPos : CAddrInfo.getBucketPosition rules _ _ _ _ = pos
  obtain ⟨man2, evicted, kept2, key2, free, remains⟩ :=
    evict_kept lowered found1 untried rfl bucket pos
  obtain ⟨random, found2⟩ := remains _ found1
  rw [evicted]
  simp only [free, Option.isSome_none, Bool.false_eq_true, if_false, found2, Option.map_some]
  refine ⟨_, rfl, ?_, key2.trans key1⟩
  have entered := @Kept.setTried _ _ _ (fun _ => False) _ _ _ kept2 found2
    { info with nRefCount := 0, nRandomPos := random, fInTried := true } rfl rfl bucket pos
    (man2.nTried + 1) (by rw [← atBucket, key2]; rfl) (by rw [← atPos, key2]; rfl)
    (fun m here => by rw [free] at here; cases here) (by simp [isTried, untried])
    (fun _ => success) (fun m different same => different same) (fun absent => by cases absent)
  exact entered

end

theorem find_some {addr : CNetAddr} (here : man.find addr = some (n, info)) :
    man.mapAddr.find? addr = some n ∧ man.mapInfo.find? n = some info := by
  obtain ⟨nId, named, rest⟩ := Option.bind_eq_some_iff.mp here
  obtain ⟨entry, standing, same⟩ := Option.map_eq_some_iff.mp rest
  cases same
  exact ⟨named, standing⟩

theorem find_none (kept : Kept rules man loose surplus) {addr : CNetAddr}
    (absent : man.find addr = none) : man.mapAddr.find? addr = none := by
  cases named : man.mapAddr.find? addr with
  | none => rfl
  | some nId =>
    obtain ⟨info, standing, _⟩ := kept.indexed.owned addr nId named
    rw [CAddrMan.find, named, Option.bind_some, standing] at absent
    cases absent

section
variable (kept : Kept rules man (fun _ => False) 0)
include kept

theorem good_kept (addr : CService) {nTime : Int64} (positive : 0 < nTime) (nRnd : NewBucket) :
    ∃ man', man.good rules addr nTime nRnd = some man' ∧ Kept rules man' (fun _ => False) 0 ∧
      man'.nKey = man.nKey := by
  unfold CAddrMan.good
  cases here : man.find addr.toCNetAddr with
  | none => exact ⟨man, rfl, kept, rfl⟩
  | some found =>
    obtain ⟨nId, info⟩ := found
    have found : man.mapInfo.find? nId = some info := by
      exact (find_some here).2
    simp only
    split
    · exact ⟨man, rfl, kept, rfl⟩
    · have noted := kept.touch found
        { info with nLastSuccess := nTime, nLastTry := nTime, nAttempts := 0 } rfl rfl rfl rfl
        (fun _ => positive) (Int64.le_of_lt positive) (Int64.le_of_lt positive)
      split
      · exact ⟨_, rfl, noted, rfl⟩
      · rename_i untried
        split
        · obtain ⟨man', made, kept', key⟩ := makeTried_kept noted (find?_set_same _ _ _)
            (by simpa using untried) positive
          exact ⟨man', made, kept', key⟩
        · exact ⟨_, rfl, noted, rfl⟩

theorem attempt_kept (addr : CService) {nTime : Int64} (nonneg : 0 ≤ nTime) :
    Kept rules (man.attempt addr nTime) (fun _ => False) 0 ∧
      (man.attempt addr nTime).nKey = man.nKey := by
  unfold CAddrMan.attempt
  cases here : man.find addr.toCNetAddr with
  | none => exact ⟨kept, rfl⟩
  | some found =>
    obtain ⟨nId, info⟩ := found
    have found := (find_some here).2
    simp only
    split
    · exact ⟨kept, rfl⟩
    · exact ⟨kept.touch found _ rfl rfl rfl rfl (kept.timed.success nId info found)
        (kept.timed.lastSuccess nId info found) nonneg, rfl⟩

theorem connected_kept (addr : CService) (nTime : Int64) :
    Kept rules (man.connected addr nTime) (fun _ => False) 0 ∧
      (man.connected addr nTime).nKey = man.nKey := by
  unfold CAddrMan.connected
  cases here : man.find addr.toCNetAddr with
  | none => exact ⟨kept, rfl⟩
  | some found =>
    obtain ⟨nId, info⟩ := found
    have found := (find_some here).2
    simp only
    split
    · exact ⟨kept, rfl⟩
    · split
      · exact ⟨kept.touch found _ rfl rfl rfl rfl (kept.timed.success nId info found)
          (kept.timed.lastSuccess nId info found) (kept.timed.lastTry nId info found), rfl⟩
      · exact ⟨kept, rfl⟩

theorem create_kept (addr : CAddress) (source : CNetAddr)
    (absent : man.mapAddr.find? addr.service.toCNetAddr = none) :
    Kept rules { man.create addr source with nNew := man.nNew + 1 }
      (fun m => m = man.nIdCount) 1 := by
  generalize entryIs :
    { CAddrInfo.ofAddress addr source with nRandomPos := man.vRandom.length } = entry
  have place : entry.nRandomPos = man.vRandom.length := by rw [← entryIs]
  have refs : entry.nRefCount = 0 := by rw [← entryIs]; rfl
  have untried : entry.fInTried = false := by rw [← entryIs]; rfl
  have ip : addr.service.toCNetAddr = entry.ip := by rw [← entryIs]; rfl
  have unused : man.mapInfo.find? man.nIdCount = none := by
    cases found : man.mapInfo.find? man.nIdCount with
    | none => rfl
    | some info =>
      have below := kept.indexed.below man.nIdCount info found
      omega
  have created : man.create addr source =
      { man with
        nIdCount := man.nIdCount + 1
        mapInfo := man.mapInfo.set man.nIdCount entry
        mapAddr := man.mapAddr.set entry.ip man.nIdCount
        vRandom := man.vRandom ++ [man.nIdCount] } := by
    rw [← entryIs]
    rfl
  rw [ip] at absent
  rw [created]
  refine ⟨⟨kept.indexed.add unused absent, kept.bucketed.add unused untried refs, ?_, ?_, ?_⟩,
    kept.shuffled.add unused place⟩
  · have tried := countP_set_absent isTried entry unused
    have new := countP_set_absent isReferenced entry unused
    rw [referenced_zero refs] at new
    simp only [isTried, untried, Bool.toNat_false] at tried
    have ofTried := kept.numbered.tried
    have ofNew := kept.numbered.new
    constructor
    · simp only
      omega
    · simp only
      omega
  · apply kept.timed.set
    · intro tried
      rw [untried] at tried
      cases tried
    · rw [← entryIs]
      exact Int64.le_refl 0
    · rw [← entryIs]
      exact Int64.le_refl 0
  · intro m info here left unreferenced
    rcases find?_set_some here with ⟨own, _⟩ | ⟨_, standing⟩
    · exact own
    · exact (kept.referenced m info standing left unreferenced).elim

theorem add_kept (addr : CAddress) (source : CNetAddr) (nTimePenalty nNow : Int)
    (getRandInt : Nat → Nat) :
    ∃ result, man.add rules addr source nTimePenalty nNow getRandInt = some result ∧
      Kept rules result.1 (fun _ => False) 0 ∧ result.1.nKey = man.nKey := by
  unfold CAddrMan.add
  split
  · exact ⟨_, rfl, kept, rfl⟩
  · cases here : man.find addr.service.toCNetAddr with
    | some found =>
      obtain ⟨nId, pinfo⟩ := found
      have found := (find_some here).2
      simp only
      have noted := kept.touch found (CAddrMan.refreshed addr nTimePenalty nNow pinfo) rfl rfl rfl rfl
        (kept.timed.success nId pinfo found) (kept.timed.lastSuccess nId pinfo found)
        (kept.timed.lastTry nId pinfo found)
      split
      · exact ⟨_, rfl, noted, rfl⟩
      · split
        · exact ⟨_, rfl, noted, rfl⟩
        · rename_i untried
          split
          · exact ⟨_, rfl, noted, rfl⟩
          · rename_i few
            split
            · exact ⟨_, rfl, noted, rfl⟩
            · have standing := find?_set_same man.mapInfo nId
                (CAddrMan.refreshed addr nTimePenalty nNow pinfo)
              have left := Bool.eq_false_iff.mpr untried
              obtain ⟨man', entered, kept', key⟩ :=
                enterNew_kept (kept_ahead noted standing left) standing left few source nNow
              rw [entered]
              exact ⟨_, rfl, kept', key⟩
    | none =>
      have created := create_kept kept addr source (find_none kept here)
      have standing := find?_set_same man.mapInfo man.nIdCount
        { CAddrInfo.ofAddress addr source with nRandomPos := man.vRandom.length }
      generalize dating : UInt32.ofNat (max 0 (addr.nTime.toNat - nTimePenalty)).toNat = nTime
      generalize entryIs : { CAddrInfo.ofAddress addr source with
        nRandomPos := man.vRandom.length, nTime := nTime } = entry
      have refs : entry.nRefCount = 0 := by rw [← entryIs]; rfl
      have untried : entry.fInTried = false := by rw [← entryIs]; rfl
      have dated := created.touch standing entry (by rw [← entryIs]) (by rw [← entryIs])
        (by rw [← entryIs]) (by rw [← entryIs]) (fun tried => by rw [untried] at tried; cases tried)
        (by rw [← entryIs]; exact Int64.le_refl 0) (by rw [← entryIs]; exact Int64.le_refl 0)
      rw [show (1 : Int) = shortfall entry by rw [shortfall, if_pos refs]] at dated
      obtain ⟨man', entered, kept', key⟩ := enterNew_kept dated (find?_set_same _ _ _) untried
        (by rw [refs]; decide) source nNow
      have made : (man.create addr source).mapInfo.find? man.nIdCount = _ := standing
      simp only [made]
      refine ⟨(man', true), ?_, kept', key⟩
      rw [← entryIs, ← dating] at entered
      exact congrArg (Option.map fun man => (man, true)) entered

end

theorem getAddrFrom_kept (nNow : Int) (nNodes : Nat) (draws : List Nat) (n : Nat)
    (vAddr : List CAddress) (man : CAddrMan) (kept : Kept rules man (fun _ => False) 0)
    (left : n + draws.length = man.vRandom.length) :
    ∃ result, CAddrMan.getAddrFrom nNow nNodes draws n vAddr man = some result ∧
      Kept rules result.1 (fun _ => False) 0 ∧ result.1.nKey = man.nKey := by
  induction draws generalizing n vAddr man with
  | nil => exact ⟨_, rfl, kept, rfl⟩
  | cons draw rest ih =>
    unfold CAddrMan.getAddrFrom
    split
    · exact ⟨_, rfl, kept, rfl⟩
    · have inside : n < man.vRandom.length := by
        rw [List.length_cons] at left
        omega
      have drawn : draw % (man.vRandom.length - n) + n < man.vRandom.length := by
        have below := Nat.mod_lt draw (show 0 < man.vRandom.length - n by omega)
        omega
      obtain ⟨mapInfo, vRandom, swapped, kept', size, _⟩ := kept.swapRandom inside drawn
      rw [swapped]
      have here : vRandom[n]? = some vRandom[n] := List.getElem?_eq_getElem (by omega)
      obtain ⟨ai, standing, _⟩ := kept'.shuffled.listed n _ here
      simp only [here, Option.bind_some, standing]
      exact ih _ _ _ kept' (by simp only [size]; rw [List.length_cons] at left; omega)

theorem getAddr_kept (kept : Kept rules man (fun _ => False) 0) (nNow : Int) (draw : Nat → Nat) :
    ∃ result, man.getAddr nNow draw = some result ∧ Kept rules result.1 (fun _ => False) 0 ∧
      result.1.nKey = man.nKey := by
  apply getAddrFrom_kept nNow _ _ 0 [] man kept
  rw [List.length_map, List.length_range]
  omega

theorem selectFrom_finds {count : Nat} {table : Table count}
    (listed : ∀ bucket pos n, table bucket pos = some n → ∃ info, man.mapInfo.find? n = some info)
    (draws : List (Fin count × Position × (CAddrInfo → Bool))) :
    ∃ selected, man.selectFrom table draws = some selected := by
  induction draws with
  | nil => exact ⟨none, rfl⟩
  | cons first rest ih =>
    obtain ⟨bucket, pos, taken⟩ := first
    unfold CAddrMan.selectFrom
    cases held : table bucket pos with
    | none => exact ih
    | some n =>
      obtain ⟨info, standing⟩ := listed bucket pos n held
      simp only [standing]
      split
      · exact ⟨_, rfl⟩
      · exact ih

theorem select_finds (kept : Kept rules man (fun _ => False) 0) (draws : CAddrMan.Draws)
    (empty : CAddress) : ∃ selected, man.select draws empty = some selected := by
  unfold CAddrMan.select
  split
  · exact ⟨_, rfl⟩
  · split
    · apply selectFrom_finds
      intro bucket pos n held
      obtain ⟨info, standing, _⟩ := kept.bucketed.inTried bucket pos n held
      exact ⟨info, standing⟩
    · apply selectFrom_finds
      intro bucket pos n held
      obtain ⟨info, standing, _⟩ := kept.bucketed.inNew bucket pos n held
      exact ⟨info, standing⟩

end Calls

end OxidAddrManCalls
