import Oxid.AddrManInvariant

/-!
What the check of the address manager finds. It does not see addresses that stand for no
entry.
-/
namespace OxidAddrManCheck
open OxidPrimitives OxidMasternode OxidMasternodeMan OxidAddrMan OxidAddrManInvariant OrderedMaps
  OrderedMap

structure EntryChecked (man : CAddrMan) (n : Nat) (info : CAddrInfo) : Prop where
  success : info.fInTried = true → info.nLastSuccess ≠ 0
  unreferenced : info.fInTried = true → info.nRefCount = 0
  referenced : info.fInTried = false →
    1 ≤ info.nRefCount ∧ info.nRefCount ≤ ADDRMAN_NEW_BUCKETS_PER_ADDRESS
  named : (man.mapAddr.find? info.ip).getD 0 = n
  listed : ∃ place : Nat, info.nRandomPos = place ∧ man.vRandom[place]? = some n
  lastTry : 0 ≤ info.nLastTry
  lastSuccess : 0 ≤ info.nLastSuccess

structure Checked (rules : AddrRules) (man : CAddrMan) : Prop where
  keyed : man.nKey ≠ 0
  entry : ∀ n info, man.mapInfo.find? n = some info → EntryChecked man n info
  shuffled : Shuffled man.mapInfo man.vRandom
  bucketed : Bucketed rules man.nKey man.mapInfo man.vvTried man.vvNew
  tried : man.nTried = man.mapInfo.entries.countP isTried
  new : man.nNew = man.mapInfo.entries.countP fun entry => !isTried entry

section Check

variable {rules : AddrRules} {man : CAddrMan}

theorem checkEntry_iff (n : Nat) (info : CAddrInfo) :
    man.checkEntry n info = 0 ↔ EntryChecked man n info := by
  unfold CAddrMan.checkEntry
  constructor
  · intro passes
    split_ifs at passes with success unreferenced few referenced named place lastTry lastSuccess
    constructor
    · intro tried never
      exact success ⟨tried, never⟩
    · intro tried
      by_contra some
      exact unreferenced ⟨tried, some⟩
    · intro untried
      rw [untried] at few referenced
      simp only [Bool.false_eq_true, not_false_eq_true, true_and] at few referenced
      omega
    · by_contra other
      exact named other
    · refine ⟨info.nRandomPos.toNat, by omega, ?_⟩
      by_contra other
      exact place (.inr other)
    · exact Int64.not_lt.mp lastTry
    · exact Int64.not_lt.mp lastSuccess
  · intro checked
    obtain ⟨place, atPlace, listed⟩ := checked.listed
    rw [if_neg, if_neg, if_neg, if_neg, if_neg, if_neg, if_neg, if_neg]
    · exact Int64.not_lt.mpr checked.lastSuccess
    · exact Int64.not_lt.mpr checked.lastTry
    · rw [atPlace, Int.toNat_natCast, listed]
      simp
    · rw [checked.named]
      simp
    · intro none
      have referenced := checked.referenced (Bool.eq_false_iff.mpr none.1)
      omega
    · intro outside
      have referenced := checked.referenced (Bool.eq_false_iff.mpr outside.1)
      omega
    · intro some
      exact some.2 (checked.unreferenced some.1)
    · intro never
      exact checked.success never.1 never.2

variable {count : Nat} {n : Nat} {bucket : Fin count} {mapInfo : Entries} {pos : Position}
variable {vRandom : List Nat}

theorem set_last {Value : Type} (map : OrderedMap Nat Value) (value : Value)
    (behind : ∀ old ∈ map.entries, old.1 < n) :
    (map.set n value).entries = map.entries ++ [(n, value)] :=
  editEntries_last n _ map.entries behind

theorem tallyEntries_sorts (entries : List (Nat × CAddrInfo)) (tallies : CAddrMan.Tallies)
    (sound : ∀ entry ∈ entries, man.checkEntry entry.1 entry.2 = 0)
    (ascending : entries.Pairwise fun earlier later => earlier.1 < later.1)
    (tried : ∀ entry ∈ entries, ∀ old ∈ tallies.setTried.entries, old.1 < entry.1)
    (new : ∀ entry ∈ entries, ∀ old ∈ tallies.mapNew.entries, old.1 < entry.1) :
    ∃ tallies', man.tallyEntries entries tallies = .ok tallies' ∧
      tallies'.setTried.entries =
        tallies.setTried.entries ++ (entries.filter isTried).map (fun entry => (entry.1, ())) ∧
      tallies'.mapNew.entries = tallies.mapNew.entries ++
        (entries.filter fun entry => !isTried entry).map fun entry =>
          (entry.1, entry.2.nRefCount) := by
  induction entries generalizing tallies with
  | nil => exact ⟨tallies, rfl, by simp, by simp⟩
  | cons first rest ih =>
    obtain ⟨n, info⟩ := first
    obtain ⟨before, apart⟩ := List.pairwise_cons.mp ascending
    have lastTried := set_last tallies.setTried () (tried (n, info) List.mem_cons_self)
    have lastNew := set_last tallies.mapNew info.nRefCount (new (n, info) List.mem_cons_self)
    have sound' := fun entry inside => sound entry (List.mem_cons_of_mem _ inside)
    have tried' := fun entry inside => tried entry (List.mem_cons_of_mem _ inside)
    have new' := fun entry inside => new entry (List.mem_cons_of_mem _ inside)
    unfold CAddrMan.tallyEntries
    rw [if_neg (by rw [sound (n, info) List.mem_cons_self]; exact fun differs => differs rfl)]
    by_cases inTried : info.fInTried = true
    · rw [if_pos inTried]
      obtain ⟨tallies', ends, endTried, endNew⟩ := ih
        { tallies with setTried := tallies.setTried.set n () } sound' apart (by
          intro entry inside old member
          rw [lastTried, List.mem_append, List.mem_singleton] at member
          rcases member with earlier | own
          · exact tried' entry inside old earlier
          · rw [own]
            exact before entry inside) new'
      refine ⟨tallies', ends, ?_, ?_⟩
      · rw [endTried, lastTried]
        simp [isTried, inTried]
      · rw [endNew]
        simp [isTried, inTried]
    · rw [if_neg inTried]
      obtain ⟨tallies', ends, endTried, endNew⟩ := ih
        { tallies with mapNew := tallies.mapNew.set n info.nRefCount } sound' apart tried' (by
          intro entry inside old member
          rw [lastNew, List.mem_append, List.mem_singleton] at member
          rcases member with earlier | own
          · exact new' entry inside old earlier
          · rw [own]
            exact before entry inside)
      refine ⟨tallies', ends, ?_, ?_⟩
      · rw [endTried]
        simp [isTried, inTried]
      · rw [endNew, lastNew]
        simp [isTried, inTried]

def held {count : Nat} (places : List (Fin count × Position × Nat)) (n : Nat) : Nat :=
  places.countP fun place => place.2.2 = n

theorem held_cons (bucket : Fin count) (pos : Position) (nId n : Nat)
    (rest : List (Fin count × Position × Nat)) :
    held ((bucket, pos, nId) :: rest) n = held rest n + if nId = n then 1 else 0 := by
  unfold held
  rw [List.countP_cons]
  simp

theorem held_occupied (table : Table count) (n : Nat) (spot : Fin count → Position)
    (only : ∀ bucket pos, table bucket pos = some n → pos = spot bucket) :
    held (CAddrMan.occupied table) n =
      (List.finRange count).countP fun bucket => table bucket (spot bucket) = some n := by
  unfold held CAddrMan.occupied
  induction List.finRange count with
  | nil => rfl
  | cons bucket rest ih =>
    rw [List.flatMap_cons, List.countP_append, ih, List.countP_cons, List.countP_filterMap]
    have inBucket := @countP_change Position _ _ (List.nodup_finRange ADDRMAN_BUCKET_SIZE)
      (spot bucket) (List.mem_finRange _) (fun _ => false)
      (fun pos => decide (table bucket pos = some n)) (by
        intro pos different
        exact (decide_eq_false fun here => different (only bucket pos here)).symm)
    have same : (List.finRange ADDRMAN_BUCKET_SIZE).countP (fun pos =>
        (((table bucket pos).map fun nId => (bucket, pos, nId)).map
          fun place => decide (place.2.2 = n)).getD false) =
        (List.finRange ADDRMAN_BUCKET_SIZE).countP fun pos => table bucket pos = some n := by
      apply List.countP_congr
      intro pos _
      cases table bucket pos <;> simp
    have none : (List.finRange ADDRMAN_BUCKET_SIZE).countP (fun _ => false) = 0 := by simp
    rw [same]
    rw [none, Bool.toNat_false, Nat.add_zero, Nat.zero_add] at inBucket
    rw [inBucket, Nat.add_comm]
    cases decide (table bucket (spot bucket) = some n) <;> rfl

theorem strikeTried_clears (places : List (TriedBucket × Position × Nat))
    (setTried : OrderedMap Nat Unit)
    (belongs : ∀ bucket pos n, (bucket, pos, n) ∈ places → ∀ info, man.mapInfo.find? n = some info →
      info.getTriedBucket rules man.nKey = bucket ∧
        info.getBucketPosition rules man.nKey false bucket = pos)
    (tallied : ∀ n, held places n = (setTried.count n).toNat) :
    man.strikeTried rules places setTried = .ok ∅ := by
  induction places generalizing setTried with
  | nil =>
    have empty : setTried = ∅ := by
      apply eq_of_find?
      intro n
      have none := tallied n
      unfold OrderedMap.count at none
      cases found : setTried.find? n with
      | none => rfl
      | some _ =>
        rw [found] at none
        cases none
    rw [empty]
    rfl
  | cons first rest ih =>
    obtain ⟨bucket, pos, nId⟩ := first
    have own := tallied nId
    rw [held_cons, if_pos rfl] at own
    have standing : setTried.count nId = true := by
      cases here : setTried.count nId with
      | true => rfl
      | false =>
        rw [here] at own
        simp at own
    rw [standing, Bool.toNat_true] at own
    unfold CAddrMan.strikeTried
    rw [standing]
    have right := belongs bucket pos nId List.mem_cons_self
    have bucketRight : ((man.mapInfo.find? nId).any fun info =>
        info.getTriedBucket rules man.nKey != bucket) = false := by
      cases found : man.mapInfo.find? nId with
      | none => rfl
      | some info => simp [(right info found).1]
    have posRight : ((man.mapInfo.find? nId).any fun info =>
        info.getBucketPosition rules man.nKey false bucket != pos) = false := by
      cases found : man.mapInfo.find? nId with
      | none => rfl
      | some info => simp [(right info found).2]
    rw [if_neg (by simp), if_neg (by rw [bucketRight]; simp), if_neg (by rw [posRight]; simp)]
    apply ih
    · intro bucket' pos' n member
      exact belongs bucket' pos' n (List.mem_cons_of_mem _ member)
    · intro n
      have left := tallied n
      rw [held_cons] at left
      by_cases same : n = nId
      · rw [same, OrderedMap.count, find?_erase_same]
        simp only [Option.isSome_none, Bool.toNat_false]
        omega
      · rw [if_neg fun alike => same alike.symm] at left
        rw [OrderedMap.count, find?_erase_other _ same]
        exact left

theorem strikeNew_clears (places : List (NewBucket × Position × Nat))
    (mapNew : OrderedMap Nat Int)
    (belongs : ∀ bucket pos n, (bucket, pos, n) ∈ places → ∀ info, man.mapInfo.find? n = some info →
      info.getBucketPosition rules man.nKey true bucket = pos)
    (tallied : ∀ n, mapNew.find? n = if held places n = 0 then none else some (held places n : Int)) :
    man.strikeNew rules places mapNew = .ok ∅ := by
  induction places generalizing mapNew with
  | nil =>
    have empty : mapNew = ∅ := by
      apply eq_of_find?
      intro n
      exact tallied n
    rw [empty]
    rfl
  | cons first rest ih =>
    obtain ⟨bucket, pos, nId⟩ := first
    have own := tallied nId
    rw [held_cons, if_pos rfl, if_neg (by omega)] at own
    have others : ∀ n, n ≠ nId → mapNew.find? n =
        if held rest n = 0 then none else some (held rest n : Int) := by
      intro n different
      have as_before := held_cons bucket pos nId n rest
      rw [if_neg fun same => different same.symm, Nat.add_zero] at as_before
      rw [tallied n, as_before]
    unfold CAddrMan.strikeNew
    rw [own]
    have posRight : ((man.mapInfo.find? nId).any fun info =>
        info.getBucketPosition rules man.nKey true bucket != pos) = false := by
      cases found : man.mapInfo.find? nId with
      | none => rfl
      | some info => simp [belongs bucket pos nId List.mem_cons_self info found]
    have belongs' := fun bucket' pos' n member =>
      belongs bucket' pos' n (List.mem_cons_of_mem _ member)
    simp only [posRight, Bool.false_eq_true, if_false]
    split
    · rename_i last
      apply ih _ belongs'
      intro n
      by_cases same : n = nId
      · rw [same, find?_erase_same, if_pos (by omega)]
      · rw [find?_erase_other _ same, others n same]
    · rename_i more
      apply ih _ belongs'
      intro n
      by_cases same : n = nId
      · rw [same, find?_set_same, if_neg (by omega)]
        congr 1
        omega
      · rw [find?_set_other _ _ same, others n same]

variable {table : Table count}

theorem occupied_mem (member : (bucket, pos, n) ∈ CAddrMan.occupied table) :
    table bucket pos = some n := by
  obtain ⟨bucket', _, inside⟩ := List.mem_flatMap.mp member
  obtain ⟨pos', _, here⟩ := List.mem_filterMap.mp inside
  obtain ⟨nId, standing, same⟩ := Option.map_eq_some_iff.mp here
  cases same
  exact standing

theorem held_none {count : Nat} {table : Table count} {n : Nat}
    (away : ∀ bucket pos, table bucket pos ≠ some n) : held (CAddrMan.occupied table) n = 0 := by
  apply List.countP_eq_zero.mpr
  intro place member here
  obtain ⟨bucket, pos, nId⟩ := place
  have same : nId = n := of_decide_eq_true here
  exact away bucket pos (by rw [← same, occupied_mem member])

theorem held_tried (bucketed : Bucketed rules man.nKey man.mapInfo man.vvTried man.vvNew)
    (n : Nat) :
    held (CAddrMan.occupied man.vvTried) n =
      ((man.mapInfo.find? n).any CAddrInfo.fInTried).toNat := by
  cases found : man.mapInfo.find? n with
  | none =>
    apply held_none
    intro bucket pos here
    obtain ⟨info, standing, _⟩ := bucketed.inTried bucket pos n here
    rw [found] at standing
    cases standing
  | some info =>
    cases tried : info.fInTried with
    | false =>
      rw [Option.any_some, tried]
      apply held_none
      intro bucket pos here
      obtain ⟨entry, standing, inTried, _⟩ := bucketed.inTried bucket pos n here
      rw [found] at standing
      cases standing
      rw [tried] at inTried
      cases inTried
    | true =>
      have inPlace := (bucketed.tried n info found tried).2
      have only : ∀ bucket pos, man.vvTried bucket pos = some n →
          info.getTriedBucket rules man.nKey = bucket ∧
            info.getBucketPosition rules man.nKey false bucket = pos := by
        intro bucket pos here
        obtain ⟨entry, standing, _, place⟩ := bucketed.inTried bucket pos n here
        rw [found] at standing
        cases standing
        exact place
      rw [Option.any_some, tried, Bool.toNat_true,
        held_occupied man.vvTried n (fun bucket => info.getBucketPosition rules man.nKey false bucket)
          fun bucket pos here => (only bucket pos here).2.symm,
        ← List.count_eq_one_of_mem (List.nodup_finRange ADDRMAN_TRIED_BUCKET_COUNT)
          (List.mem_finRange (info.getTriedBucket rules man.nKey))]
      apply List.countP_congr
      intro bucket _
      rw [decide_eq_true_eq, beq_iff_eq]
      constructor
      · intro here
        exact (only bucket _ here).1.symm
      · intro same
        rw [same]
        exact inPlace

theorem held_new (bucketed : Bucketed rules man.nKey man.mapInfo man.vvTried man.vvNew)
    {info : CAddrInfo} (found : man.mapInfo.find? n = some info) :
    held (CAddrMan.occupied man.vvNew) n = info.nRefCount := by
  rw [bucketed.refs n info found, held_occupied man.vvNew n
    (fun bucket => info.getBucketPosition rules man.nKey true bucket)]
  · rfl
  · intro bucket pos here
    obtain ⟨entry, standing, _, place⟩ := bucketed.inNew bucket pos n here
    rw [found] at standing
    cases standing
    exact place.symm

theorem shuffled_perm (shuffled : Shuffled mapInfo vRandom) :
    vRandom.Perm (mapInfo.entries.map Prod.fst) := by
  have once : vRandom.Nodup := by
    apply List.nodup_iff_injective_getElem.mpr
    intro first second same
    have here := List.getElem?_eq_getElem first.isLt
    have here' := List.getElem?_eq_getElem second.isLt
    simp only at same
    rw [← same] at here'
    obtain ⟨info, standing, place⟩ := shuffled.listed first _ here
    obtain ⟨info', standing', place'⟩ := shuffled.listed second _ here'
    rw [standing] at standing'
    cases standing'
    apply Fin.ext
    omega
  apply (List.perm_ext_iff_of_nodup once mapInfo.keys_nodup).mpr
  intro n
  rw [List.mem_map]
  constructor
  · intro member
    obtain ⟨place, listed⟩ := List.mem_iff_getElem?.mp member
    obtain ⟨info, standing, _⟩ := shuffled.listed place n listed
    exact ⟨(n, info), (mem_entries_iff _ _ _).mpr standing, rfl⟩
  · intro entered
    obtain ⟨⟨n', info⟩, member, same⟩ := entered
    obtain ⟨place, _, listed⟩ :=
      shuffled.standing n' info ((mem_entries_iff _ _ _).mp member)
    rw [← same]
    exact List.mem_iff_getElem?.mpr ⟨place, listed⟩

theorem tally_sound (entry : ∀ n info, man.mapInfo.find? n = some info → EntryChecked man n info) :
    ∃ tallies, man.tallyEntries man.mapInfo.entries ⟨∅, ∅⟩ = .ok tallies ∧
      tallies.setTried.entries =
        (man.mapInfo.entries.filter isTried).map (fun entry => (entry.1, ())) ∧
      tallies.mapNew.entries = (man.mapInfo.entries.filter fun entry => !isTried entry).map
        fun entry => (entry.1, entry.2.nRefCount) := by
  apply tallyEntries_sorts
  · intro given member
    exact (checkEntry_iff _ _).mpr (entry _ _ ((mem_entries_iff _ _ _).mp member))
  · exact man.mapInfo.ascending
  · intro given _ old absent
    cases absent
  · intro given _ old absent
    cases absent

theorem tallied_tried {setTried : OrderedMap Nat Unit}
    (tallied : setTried.entries = (mapInfo.entries.filter isTried).map fun entry => (entry.1, ()))
    (n : Nat) : setTried.count n = (mapInfo.find? n).any CAddrInfo.fInTried := by
  have members : ∀ value, (n, value) ∈ setTried.entries ↔
      ∃ info, mapInfo.find? n = some info ∧ info.fInTried = true := by
    intro value
    rw [tallied]
    constructor
    · intro member
      obtain ⟨⟨n', info⟩, inside, same⟩ := List.mem_map.mp member
      obtain ⟨standing, tried⟩ := List.mem_filter.mp inside
      cases same
      exact ⟨info, (mem_entries_iff _ _ _).mp standing, tried⟩
    · intro standing
      obtain ⟨info, found, tried⟩ := standing
      exact List.mem_map.mpr
        ⟨(n, info), List.mem_filter.mpr ⟨(mem_entries_iff _ _ _).mpr found, tried⟩, rfl⟩
  rw [Bool.eq_iff_iff, OrderedMap.count, Option.isSome_iff_exists, Option.any_eq_true]
  constructor
  · intro standing
    obtain ⟨value, here⟩ := standing
    exact (members value).mp ((mem_entries_iff _ _ _).mpr here)
  · intro tried
    exact ⟨(), (mem_entries_iff _ _ _).mp ((members ()).mpr tried)⟩

theorem tallied_new (checked : Checked rules man) {mapNew : OrderedMap Nat Int}
    (tallied : mapNew.entries = (man.mapInfo.entries.filter fun entry => !isTried entry).map
      fun entry => (entry.1, entry.2.nRefCount)) (n : Nat) :
    mapNew.find? n = if held (CAddrMan.occupied man.vvNew) n = 0 then none
      else some (held (CAddrMan.occupied man.vvNew) n : Int) := by
  split
  · rename_i unheld
    rw [absent_iff]
    intro refs member
    rw [tallied] at member
    obtain ⟨⟨n', info⟩, inside, same⟩ := List.mem_map.mp member
    obtain ⟨standing, untried⟩ := List.mem_filter.mp inside
    cases same
    have found := (mem_entries_iff _ _ _).mp standing
    have refs := held_new checked.bucketed found
    rw [unheld] at refs
    have some := (checked.entry _ info found).referenced (by simpa [isTried] using untried)
    omega
  · rename_i holds
    cases found : man.mapInfo.find? n with
    | none =>
      refine absurd (held_none ?_) holds
      intro bucket pos here
      obtain ⟨info, standing, _⟩ := checked.bucketed.inNew bucket pos n here
      rw [found] at standing
      cases standing
    | some info =>
      have refs := held_new checked.bucketed found
      have untried : info.fInTried = false := by
        by_contra tried
        have none := (checked.bucketed.tried n info found (by simpa using tried)).1
        omega
      rw [refs, ← mem_entries_iff, tallied]
      exact List.mem_map.mpr ⟨(n, info), List.mem_filter.mpr
        ⟨(mem_entries_iff _ _ _).mpr found, by simp [isTried, untried]⟩, rfl⟩

theorem referenced_untried (kept : Kept rules man (fun _ => False) 0) :
    man.mapInfo.entries.countP isReferenced =
      man.mapInfo.entries.countP fun entry => !isTried entry := by
  apply List.countP_congr
  intro entry member
  obtain ⟨n, info⟩ := entry
  have found := (mem_entries_iff _ _ _).mp member
  have nonneg := kept.bucketed.nonneg found
  simp only [isReferenced, isTried, decide_eq_true_eq, Bool.not_eq_true']
  constructor
  · intro positive
    by_contra tried
    have none := (kept.bucketed.tried n info found (by simpa using tried)).1
    omega
  · intro untried
    have some : info.nRefCount ≠ 0 := fun zero => kept.referenced n info found untried zero
    omega

theorem checked_of_consistent (consistent : Consistent rules man) : Checked rules man := by
  obtain ⟨keyed, kept⟩ := consistent
  constructor
  · exact keyed
  · intro n info found
    have nonneg := kept.bucketed.nonneg found
    constructor
    · intro tried never
      have success := kept.timed.success n info found tried
      rw [never] at success
      exact Int64.lt_irrefl success
    · intro tried
      exact (kept.bucketed.tried n info found tried).1
    · intro untried
      have some : info.nRefCount ≠ 0 := fun zero => kept.referenced n info found untried zero
      exact ⟨by omega, kept.bucketed.few n info found⟩
    · rw [kept.indexed.named n info found]
      rfl
    · exact kept.shuffled.standing n info found
    · exact kept.timed.lastTry n info found
    · exact kept.timed.lastSuccess n info found
  · exact kept.shuffled
  · exact kept.bucketed
  · exact kept.numbered.tried
  · rw [kept.numbered.new, referenced_untried kept, Int.add_zero]

theorem check_sound (checked : Checked rules man) : man.check rules = 0 := by
  obtain ⟨tallies, tallied, tried, new⟩ := tally_sound checked.entry
  have count : man.vRandom.length = man.mapInfo.entries.length := by
    rw [(shuffled_perm checked.shuffled).length_eq, List.length_map]
  have parts : man.mapInfo.entries.length = man.mapInfo.entries.countP isTried +
      man.mapInfo.entries.countP fun entry => !isTried entry := by
    rw [List.length_eq_countP_add_countP isTried]
    simp
  have ofTried := checked.tried
  have ofNew := checked.new
  have sizeTried : (tallies.setTried.size : Int) = man.nTried := by
    rw [OrderedMap.size, tried, List.length_map, ofTried, List.countP_eq_length_filter]
  have sizeNew : (tallies.mapNew.size : Int) = man.nNew := by
    rw [OrderedMap.size, new, List.length_map, ofNew, List.countP_eq_length_filter]
  have struckTried : man.strikeTried rules (CAddrMan.occupied man.vvTried) tallies.setTried =
      .ok ∅ := by
    apply strikeTried_clears
    · intro bucket pos n member info found
      obtain ⟨entry, standing, _, place⟩ :=
        checked.bucketed.inTried bucket pos n (occupied_mem member)
      rw [found] at standing
      cases standing
      exact place
    · intro n
      rw [held_tried checked.bucketed, tallied_tried tried]
  have struckNew : man.strikeNew rules (CAddrMan.occupied man.vvNew) tallies.mapNew = .ok ∅ := by
    apply strikeNew_clears
    · intro bucket pos n member info found
      obtain ⟨entry, standing, _, place⟩ :=
        checked.bucketed.inNew bucket pos n (occupied_mem member)
      rw [found] at standing
      cases standing
      exact place
    · exact tallied_new checked new
  unfold CAddrMan.check
  rw [if_neg (by omega), tallied]
  simp only [sizeTried, sizeNew, struckTried, struckNew, ne_eq, not_true, if_false, checked.keyed]
  rfl

/-! And the other way round: what a check that passes has seen. -/

theorem tallyEntries_passes (entries : List (Nat × CAddrInfo)) (tallies : CAddrMan.Tallies) :
    (∀ err, man.tallyEntries entries tallies = .error err → err ≠ 0) ∧
      ∀ tallies', man.tallyEntries entries tallies = .ok tallies' →
        ∀ entry ∈ entries, man.checkEntry entry.1 entry.2 = 0 := by
  induction entries generalizing tallies with
  | nil =>
    constructor
    · intro err fails
      cases fails
    · intro tallies' _ entry absent
      cases absent
  | cons first rest ih =>
    obtain ⟨n, info⟩ := first
    unfold CAddrMan.tallyEntries
    by_cases passes : man.checkEntry n info = 0
    · rw [if_neg fun fails => fails passes]
      have passing : (∀ entry ∈ rest, man.checkEntry entry.1 entry.2 = 0) →
          ∀ entry ∈ (n, info) :: rest, man.checkEntry entry.1 entry.2 = 0 := by
        intro others entry member
        rcases List.mem_cons.mp member with here | further
        · rw [here]
          exact passes
        · exact others entry further
      split
      · exact ⟨(ih _).1, fun tallies' ends => passing ((ih _).2 tallies' ends)⟩
      · exact ⟨(ih _).1, fun tallies' ends => passing ((ih _).2 tallies' ends)⟩
    · rw [if_pos passes]
      constructor
      · intro err fails
        cases fails
        exact passes
      · intro tallies' absent
        cases absent

theorem size_zero {Value : Type} {map : OrderedMap Nat Value} (empty : map.size = 0) (n : Nat) :
    map.find? n = none := by
  have same : map = ∅ := OrderedMap.ext (List.eq_nil_of_length_eq_zero empty)
  rw [same]
  rfl

theorem strikeTried_error (places : List (TriedBucket × Position × Nat))
    (setTried : OrderedMap Nat Unit) {err : Int}
    (fails : man.strikeTried rules places setTried = .error err) : err ≠ 0 := by
  induction places generalizing setTried with
  | nil => cases fails
  | cons first rest ih =>
    unfold CAddrMan.strikeTried at fails
    split_ifs at fails
    · cases fails
      decide
    · cases fails
      decide
    · cases fails
      decide
    · exact ih _ fails

theorem strikeNew_error (places : List (NewBucket × Position × Nat))
    (mapNew : OrderedMap Nat Int) {err : Int}
    (fails : man.strikeNew rules places mapNew = .error err) : err ≠ 0 := by
  induction places generalizing mapNew with
  | nil => cases fails
  | cons first rest ih =>
    unfold CAddrMan.strikeNew at fails
    split at fails
    · cases fails
      decide
    · split_ifs at fails
      · cases fails
        decide
      · exact ih _ fails
      · exact ih _ fails

theorem strikeTried_struck (places : List (TriedBucket × Position × Nat))
    (setTried final : OrderedMap Nat Unit)
    (struck : man.strikeTried rules places setTried = .ok final) (empty : final.size = 0) :
    (∀ n, held places n = (setTried.count n).toNat) ∧
      ∀ bucket pos n, (bucket, pos, n) ∈ places → ∀ info, man.mapInfo.find? n = some info →
        info.getTriedBucket rules man.nKey = bucket ∧
          info.getBucketPosition rules man.nKey false bucket = pos := by
  induction places generalizing setTried with
  | nil =>
    cases struck
    constructor
    · intro n
      rw [OrderedMap.count, size_zero empty]
      rfl
    · intro bucket pos n absent
      cases absent
  | cons first rest ih =>
    obtain ⟨bucket, pos, nId⟩ := first
    unfold CAddrMan.strikeTried at struck
    split_ifs at struck with absent wrongBucket wrongPos
    obtain ⟨tallied, belongs⟩ := ih _ struck
    have standing : setTried.count nId = true := by simpa using absent
    constructor
    · intro n
      have left := tallied n
      rw [held_cons]
      by_cases same : n = nId
      · rw [same] at left ⊢
        rw [OrderedMap.count, find?_erase_same] at left
        rw [left, standing, if_pos rfl]
        rfl
      · rw [OrderedMap.count, find?_erase_other _ same] at left
        rw [if_neg fun alike => same alike.symm, Nat.add_zero, left]
        rfl
    · intro bucket' pos' n member info found
      rcases List.mem_cons.mp member with here | further
      · cases here
        rw [found] at wrongBucket wrongPos
        simp only [Option.any_some, bne_iff_ne, ne_eq, Decidable.not_not] at wrongBucket wrongPos
        exact ⟨wrongBucket, wrongPos⟩
      · exact belongs bucket' pos' n further info found

theorem tallied_struck {mapNew struck : OrderedMap Nat Int} {left : Int} {nId : Nat}
    (bucket : NewBucket) (pos : Position) (rest : List (NewBucket × Position × Nat))
    (found : mapNew.find? nId = some left)
    (here : struck.find? nId = if left - 1 = 0 then none else some (left - 1))
    (elsewhere : ∀ n, n ≠ nId → struck.find? n = mapNew.find? n)
    (tallied : ∀ n, struck.find? n = if held rest n = 0 then none else some (held rest n : Int))
    (n : Nat) :
    mapNew.find? n = if held ((bucket, pos, nId) :: rest) n = 0 then none
      else some (held ((bucket, pos, nId) :: rest) n : Int) := by
  have counted := held_cons bucket pos nId n rest
  have after := tallied n
  by_cases same : n = nId
  · rw [same] at after counted ⊢
    rw [if_pos rfl] at counted
    rw [here] at after
    rw [found, if_neg (by omega), counted]
    split_ifs at after with last none_left
    · congr 1
      omega
    · have value := Option.some.inj after
      congr 1
      omega
  · rw [elsewhere n same] at after
    rw [if_neg fun alike => same alike.symm, Nat.add_zero] at counted
    rw [after, counted]

theorem strikeNew_struck (places : List (NewBucket × Position × Nat))
    (mapNew final : OrderedMap Nat Int)
    (struck : man.strikeNew rules places mapNew = .ok final) (empty : final.size = 0) :
    (∀ n, mapNew.find? n = if held places n = 0 then none else some (held places n : Int)) ∧
      ∀ bucket pos n, (bucket, pos, n) ∈ places → ∀ info, man.mapInfo.find? n = some info →
        info.getBucketPosition rules man.nKey true bucket = pos := by
  induction places generalizing mapNew with
  | nil =>
    cases struck
    constructor
    · intro n
      rw [size_zero empty]
      rfl
    · intro bucket pos n absent
      cases absent
  | cons first rest ih =>
    obtain ⟨bucket, pos, nId⟩ := first
    unfold CAddrMan.strikeNew at struck
    cases left : mapNew.find? nId with
    | none =>
      rw [left] at struck
      cases struck
    | some count =>
      rw [left] at struck
      simp only at struck
      have headed : ((man.mapInfo.find? nId).any fun info =>
          info.getBucketPosition rules man.nKey true bucket != pos) = false →
          (∀ bucket pos n, (bucket, pos, n) ∈ rest → ∀ info, man.mapInfo.find? n = some info →
            info.getBucketPosition rules man.nKey true bucket = pos) →
          ∀ bucket' pos' n, (bucket', pos', n) ∈ (bucket, pos, nId) :: rest →
            ∀ info, man.mapInfo.find? n = some info →
              info.getBucketPosition rules man.nKey true bucket' = pos' := by
        intro right belongs bucket' pos' n member info found
        rcases List.mem_cons.mp member with here | further
        · cases here
          rw [found] at right
          simpa using right
        · exact belongs bucket' pos' n further info found
      split_ifs at struck with wrong last
      · obtain ⟨tallied, belongs⟩ := ih _ struck
        refine ⟨tallied_struck bucket pos rest left ?_ ?_ tallied,
          headed (by simpa using wrong) belongs⟩
        · rw [find?_erase_same, if_pos last]
        · exact fun n other => find?_erase_other _ other
      · obtain ⟨tallied, belongs⟩ := ih _ struck
        refine ⟨tallied_struck bucket pos rest left ?_ ?_ tallied,
          headed (by simpa using wrong) belongs⟩
        · rw [find?_set_same, if_neg last]
        · exact fun n other => find?_set_other _ _ other

theorem mem_occupied (here : table bucket pos = some n) :
    (bucket, pos, n) ∈ CAddrMan.occupied table := by
  apply List.mem_flatMap.mpr
  refine ⟨bucket, List.mem_finRange bucket, List.mem_filterMap.mpr ⟨pos, List.mem_finRange pos, ?_⟩⟩
  rw [here]
  rfl

theorem held_pos (here : table bucket pos = some n) : 0 < held (CAddrMan.occupied table) n :=
  List.countP_pos_iff.mpr ⟨_, mem_occupied here, decide_eq_true rfl⟩

theorem held_some {count : Nat} {table : Table count} {n : Nat}
    (holds : 0 < held (CAddrMan.occupied table) n) :
    ∃ bucket pos, table bucket pos = some n := by
  obtain ⟨⟨bucket, pos, nId⟩, member, same⟩ := List.countP_pos_iff.mp holds
  have own : nId = n := of_decide_eq_true same
  exact ⟨bucket, pos, by rw [← own, occupied_mem member]⟩

theorem shuffled_of_listed
    (standing : ∀ n info, mapInfo.find? n = some info →
      ∃ place : Nat, info.nRandomPos = place ∧ vRandom[place]? = some n)
    (size : vRandom.length = mapInfo.entries.length) : Shuffled mapInfo vRandom := by
  refine ⟨standing, ?_⟩
  have listed : ∀ entry ∈ mapInfo.entries,
      vRandom[entry.2.nRandomPos.toNat]? = some entry.1 := by
    intro entry member
    obtain ⟨place, atPlace, here⟩ := standing entry.1 entry.2 ((mem_entries_iff _ _ _).mp member)
    rw [atPlace]
    exact here
  have apart : (mapInfo.entries.map fun entry => entry.2.nRandomPos.toNat).Nodup := by
    apply List.pairwise_map.mpr
    apply mapInfo.ascending.imp_of_mem
    intro earlier later inside inside' before same
    have here := listed earlier inside
    rw [same, listed later inside'] at here
    rw [Option.some.inj here] at before
    exact Nat.lt_irrefl _ before
  have within : (mapInfo.entries.map fun entry => entry.2.nRandomPos.toNat) ⊆
      List.range vRandom.length := by
    intro place member
    obtain ⟨entry, inside, same⟩ := List.mem_map.mp member
    rw [← same, List.mem_range]
    exact (List.getElem?_eq_some_iff.mp (listed entry inside)).1
  have every := (List.subperm_of_subset apart within).perm_of_length_le (by
    rw [List.length_range, List.length_map, size])
  intro place n here
  have inside := (List.getElem?_eq_some_iff.mp here).1
  obtain ⟨entry, member, same⟩ := List.mem_map.mp (every.mem_iff.mpr (List.mem_range.mpr inside))
  have own := listed entry member
  rw [same, here] at own
  cases own
  have found := (mem_entries_iff _ _ _).mp member
  obtain ⟨place', atPlace, _⟩ := standing _ _ found
  refine ⟨entry.2, found, ?_⟩
  omega

theorem check_steps (passes : man.check rules = 0) :
    (man.vRandom.length : Int) = man.nTried + man.nNew ∧ man.nKey ≠ 0 ∧
      ∃ tallies setTried mapNew, man.tallyEntries man.mapInfo.entries ⟨∅, ∅⟩ = .ok tallies ∧
        (tallies.setTried.size : Int) = man.nTried ∧ (tallies.mapNew.size : Int) = man.nNew ∧
        man.strikeTried rules (CAddrMan.occupied man.vvTried) tallies.setTried = .ok setTried ∧
        man.strikeNew rules (CAddrMan.occupied man.vvNew) tallies.mapNew = .ok mapNew ∧
        setTried.size = 0 ∧ mapNew.size = 0 := by
  unfold CAddrMan.check at passes
  by_cases size : (man.vRandom.length : Int) = man.nTried + man.nNew
  · rw [if_neg fun differs => differs size] at passes
    refine ⟨size, ?_⟩
    cases tallied : man.tallyEntries man.mapInfo.entries ⟨∅, ∅⟩ with
    | error err =>
      rw [tallied] at passes
      exact absurd passes ((tallyEntries_passes _ _).1 err tallied)
    | ok tallies =>
      rw [tallied] at passes
      simp only at passes
      by_cases sizeTried : (tallies.setTried.size : Int) = man.nTried
      · rw [if_neg fun differs => differs sizeTried] at passes
        by_cases sizeNew : (tallies.mapNew.size : Int) = man.nNew
        · rw [if_neg fun differs => differs sizeNew] at passes
          cases struckTried :
              man.strikeTried rules (CAddrMan.occupied man.vvTried) tallies.setTried with
          | error err =>
            rw [struckTried] at passes
            exact absurd passes (strikeTried_error _ _ struckTried)
          | ok setTried =>
            rw [struckTried] at passes
            cases struckNew : man.strikeNew rules (CAddrMan.occupied man.vvNew) tallies.mapNew with
            | error err =>
              rw [struckNew] at passes
              exact absurd passes (strikeNew_error _ _ struckNew)
            | ok mapNew =>
              rw [struckNew] at passes
              simp only at passes
              split_ifs at passes with leftTried leftNew keyed
              exact ⟨keyed, tallies, setTried, mapNew, rfl, sizeTried, sizeNew, struckTried, struckNew,
                Decidable.not_not.mp leftTried, Decidable.not_not.mp leftNew⟩
        · rw [if_pos sizeNew] at passes
          cases passes
      · rw [if_pos sizeTried] at passes
        cases passes
  · rw [if_pos size] at passes
    cases passes

structure Struck (rules : AddrRules) (man : CAddrMan) (setTried : OrderedMap Nat Unit)
    (mapNew : OrderedMap Nat Int) : Prop where
  entry : ∀ n info, man.mapInfo.find? n = some info → EntryChecked man n info
  tried : setTried.entries = (man.mapInfo.entries.filter isTried).map fun entry => (entry.1, ())
  new : mapNew.entries = (man.mapInfo.entries.filter fun entry => !isTried entry).map
    fun entry => (entry.1, entry.2.nRefCount)
  heldTried : ∀ n, held (CAddrMan.occupied man.vvTried) n = (setTried.count n).toNat
  inTried : ∀ bucket pos n, (bucket, pos, n) ∈ CAddrMan.occupied man.vvTried →
    ∀ info, man.mapInfo.find? n = some info → info.getTriedBucket rules man.nKey = bucket ∧
      info.getBucketPosition rules man.nKey false bucket = pos
  heldNew : ∀ n, mapNew.find? n = if held (CAddrMan.occupied man.vvNew) n = 0 then none
    else some (held (CAddrMan.occupied man.vvNew) n : Int)
  inNew : ∀ bucket pos n, (bucket, pos, n) ∈ CAddrMan.occupied man.vvNew →
    ∀ info, man.mapInfo.find? n = some info →
      info.getBucketPosition rules man.nKey true bucket = pos

section Struck

variable {setTried : OrderedMap Nat Unit} {mapNew : OrderedMap Nat Int}
  (struck : Struck rules man setTried mapNew)
include struck

variable {n : Nat} {info : CAddrInfo} {pos : Position}

theorem struck_tried (found : man.mapInfo.find? n = some info) (inside : info.fInTried = true) :
    man.vvTried (info.getTriedBucket rules man.nKey)
      (info.getBucketPosition rules man.nKey false (info.getTriedBucket rules man.nKey)) =
        some n := by
  have counted := struck.heldTried n
  rw [tallied_tried struck.tried, found, Option.any_some, inside, Bool.toNat_true] at counted
  have positive : 0 < held (CAddrMan.occupied man.vvTried) n := by omega
  obtain ⟨bucket, pos, here⟩ := held_some positive
  obtain ⟨atBucket, atPos⟩ := struck.inTried bucket pos n (mem_occupied here) info found
  rw [atBucket, atPos]
  exact here

theorem struck_inTried {bucket : TriedBucket} (here : man.vvTried bucket pos = some n) :
    ∃ info, man.mapInfo.find? n = some info ∧ info.fInTried = true ∧
      info.getTriedBucket rules man.nKey = bucket ∧
        info.getBucketPosition rules man.nKey false bucket = pos := by
  have counted := struck.heldTried n
  rw [tallied_tried struck.tried] at counted
  have positive := held_pos here
  cases found : man.mapInfo.find? n with
  | none =>
    rw [found, Option.any_none, Bool.toNat_false] at counted
    omega
  | some info =>
    rw [found, Option.any_some] at counted
    refine ⟨info, rfl, ?_, struck.inTried bucket pos n (mem_occupied here) info found⟩
    cases tried : info.fInTried with
    | true => rfl
    | false =>
      rw [tried, Bool.toNat_false] at counted
      omega

theorem struck_inNew {bucket : NewBucket} {pos : Position} {n : Nat}
    (here : man.vvNew bucket pos = some n) :
    ∃ info, man.mapInfo.find? n = some info ∧ info.fInTried = false ∧
      info.getBucketPosition rules man.nKey true bucket = pos := by
  have counted := struck.heldNew n
  rw [if_neg (Nat.ne_of_gt (held_pos here)), ← mem_entries_iff, struck.new] at counted
  obtain ⟨⟨n', info⟩, member, same⟩ := List.mem_map.mp counted
  obtain ⟨inside, untried⟩ := List.mem_filter.mp member
  have own : n' = n := congrArg Prod.fst same
  rw [own] at inside
  have found := (mem_entries_iff _ _ _).mp inside
  exact ⟨info, found, by simpa [isTried] using untried,
    struck.inNew bucket pos n (mem_occupied here) info found⟩

theorem struck_refs (found : man.mapInfo.find? n = some info) :
    info.nRefCount = newCount rules man.nKey man.vvNew n info := by
  have only : ∀ bucket pos, man.vvNew bucket pos = some n →
      pos = info.getBucketPosition rules man.nKey true bucket := by
    intro bucket pos here
    exact (struck.inNew bucket pos n (mem_occupied here) info found).symm
  have spots : held (CAddrMan.occupied man.vvNew) n = newCount rules man.nKey man.vvNew n info :=
    held_occupied man.vvNew n (fun bucket => info.getBucketPosition rules man.nKey true bucket)
      only
  rw [← spots]
  cases tried : info.fInTried with
  | true =>
    rw [(struck.entry n info found).unreferenced tried, held_none]
    · rfl
    · intro bucket pos here
      obtain ⟨info', found', untried, _⟩ := struck_inNew struck here
      rw [found] at found'
      cases found'
      rw [tried] at untried
      cases untried
  | false =>
    have counted := struck.heldNew n
    have member : (n, info.nRefCount) ∈ mapNew.entries := by
      rw [struck.new]
      exact List.mem_map.mpr ⟨(n, info), List.mem_filter.mpr
        ⟨(mem_entries_iff _ _ _).mpr found, by simp [isTried, tried]⟩, rfl⟩
    rw [(mem_entries_iff _ _ _).mp member] at counted
    split at counted
    · cases counted
    · exact Option.some.inj counted

theorem struck_bucketed :
    Bucketed rules man.nKey man.mapInfo man.vvTried man.vvNew := by
  constructor
  · intro n info found inside
    exact ⟨(struck.entry n info found).unreferenced inside, struck_tried struck found inside⟩
  · intro bucket pos n here
    exact struck_inTried struck here
  · intro bucket pos n here
    exact struck_inNew struck here
  · intro n info found
    exact struck_refs struck found
  · intro n info found
    cases tried : info.fInTried with
    | true =>
      rw [(struck.entry n info found).unreferenced tried]
      decide
    | false => exact ((struck.entry n info found).referenced tried).2

end Struck

theorem checked_of_check (passes : man.check rules = 0) : Checked rules man := by
  obtain ⟨size, keyed, tallies, setTried, mapNew, tallied, sizeTried, sizeNew, struckTried, struckNew,
    noneTried, noneNew⟩ := check_steps passes
  have entry : ∀ n info, man.mapInfo.find? n = some info → EntryChecked man n info := by
    intro n info found
    apply (checkEntry_iff n info).mp
    exact (tallyEntries_passes _ _).2 tallies tallied (n, info) ((mem_entries_iff _ _ _).mpr found)
  obtain ⟨tallies', same, tried, new⟩ := tally_sound entry
  rw [tallied] at same
  cases same
  obtain ⟨heldTried, inTried⟩ := strikeTried_struck _ _ _ struckTried noneTried
  obtain ⟨heldNew, inNew⟩ := strikeNew_struck _ _ _ struckNew noneNew
  have countTried : man.nTried = man.mapInfo.entries.countP isTried := by
    rw [← sizeTried, OrderedMap.size, tried, List.length_map, List.countP_eq_length_filter]
  have countNew : man.nNew = man.mapInfo.entries.countP fun entry => !isTried entry := by
    rw [← sizeNew, OrderedMap.size, new, List.length_map, List.countP_eq_length_filter]
  have parts : man.mapInfo.entries.length = man.mapInfo.entries.countP isTried +
      man.mapInfo.entries.countP fun entry => !isTried entry := by
    rw [List.length_eq_countP_add_countP isTried]
    simp
  refine ⟨keyed, entry, ?_, struck_bucketed ⟨entry, tried, new, heldTried, inTried, heldNew, inNew⟩,
    countTried, countNew⟩
  apply shuffled_of_listed
  · intro n info found
    exact (entry n info found).listed
  · omega

end Check

end OxidAddrManCheck
