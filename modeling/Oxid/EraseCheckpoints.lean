import Oxid.CheckpointChain

/-!
`EraseCheckpoints` on both places that hold accumulator values, the map in memory and the
database.
-/
namespace OxidEraseCheckpoints
open OxidPrimitives OxidChainParams OxidNode OxidZerocoin OxidConnectBlock OxidAccumulators

structure AccumulatorStore where
  mapAccumulatorValues : AccumulatorValues
  zerocoinDB : AccumulatorValues

def AccumulatorStore.eraseChecksum (store : AccumulatorStore) (nChecksum : UInt32) :
    AccumulatorStore where
  mapAccumulatorValues := Function.update store.mapAccumulatorValues nChecksum none
  zerocoinDB := Function.update store.zerocoinDB nChecksum none

def countsCheckpoint (listCheckpointsPrev : List UInt32) (nCheckpointDelete : Uint256) : Bool :=
  listCheckpointsPrev.any fun checksum => BitVec.ofNat 256 checksum.toNat == nCheckpointDelete

def eraseChecksums (listCheckpointsPrev : List UInt32) (nCheckpointDelete : Uint256)
    (store : AccumulatorStore) : AccumulatorStore :=
  zerocoinDenomList.foldl (fun store denom =>
    if countsCheckpoint listCheckpointsPrev nCheckpointDelete then store
    else store.eraseChecksum (parseChecksum nCheckpointDelete denom)) store

def eraseBlocks (listCheckpointsPrev : List UInt32) (nEndHeight : Int) :
    List CBlockIndex → AccumulatorStore → Except Ending AccumulatorStore
  | [], _ => .error .nullPointer
  | pindex :: rest, store =>
    let store := eraseChecksums listCheckpointsPrev pindex.nAccumulatorCheckpoint store
    if pindex.nHeight + 1 ≤ nEndHeight then eraseBlocks listCheckpointsPrev nEndHeight rest store
    else .ok store

def checksumsOf (nCheckpoint : Uint256) : List UInt32 :=
  zerocoinDenomList.map fun denom => parseChecksum nCheckpoint denom

def eraseCheckpoints (node : Node) (nStartHeight nEndHeight : Int) (store : AccumulatorStore) :
    Except Ending AccumulatorStore :=
  if node.height < nStartHeight then .error .failed
  else
    match node.at? (nStartHeight - 1) with
    | none => .error .nullPointer
    | some pprev =>
      eraseBlocks (checksumsOf pprev.nAccumulatorCheckpoint) (min node.height nEndHeight)
        (entriesFrom node nStartHeight) store

section Stores
variable {listCheckpointsPrev : List UInt32} {nCheckpointDelete : Uint256}

def AccumulatorStore.Holds (store : AccumulatorStore) (nChecksum : UInt32) : Prop :=
  store.mapAccumulatorValues nChecksum ≠ none ∨ store.zerocoinDB nChecksum ≠ none

theorem not_holds {store : AccumulatorStore} {nChecksum : UInt32} : ¬store.Holds nChecksum ↔
    store.mapAccumulatorValues nChecksum = none ∧ store.zerocoinDB nChecksum = none := by
  unfold AccumulatorStore.Holds
  rw [not_or, not_not, not_not]

structure Erased (gone : UInt32 → Prop) (before after : AccumulatorStore) : Prop where
  erased : ∀ nChecksum, gone nChecksum → ¬after.Holds nChecksum
  inMemory : ∀ nChecksum, ¬gone nChecksum →
    after.mapAccumulatorValues nChecksum = before.mapAccumulatorValues nChecksum
  inDatabase : ∀ nChecksum, ¬gone nChecksum →
    after.zerocoinDB nChecksum = before.zerocoinDB nChecksum

variable {gone more : UInt32 → Prop} {before between after : AccumulatorStore}

theorem Erased.none (same : ∀ nChecksum, ¬gone nChecksum) : Erased gone before before where
  erased nChecksum isGone := absurd isGone (same nChecksum)
  inMemory _ _ := rfl
  inDatabase _ _ := rfl

theorem Erased.congr (erased : Erased gone before after)
    (same : ∀ nChecksum, gone nChecksum ↔ more nChecksum) : Erased more before after := by
  have : gone = more := funext fun nChecksum => propext (same nChecksum)
  rwa [← this]

theorem Erased.andThen (first : Erased gone before between) (second : Erased more between after) :
    Erased (fun nChecksum => gone nChecksum ∨ more nChecksum) before after where
  erased nChecksum isGone := by
    by_cases later : more nChecksum
    · exact second.erased nChecksum later
    · have sooner := isGone.resolve_right later
      have absent := first.erased nChecksum sooner
      unfold AccumulatorStore.Holds at absent ⊢
      rwa [second.inMemory nChecksum later, second.inDatabase nChecksum later]
  inMemory nChecksum kept := by
    obtain ⟨sooner, later⟩ := not_or.mp kept
    rw [second.inMemory nChecksum later, first.inMemory nChecksum sooner]
  inDatabase nChecksum kept := by
    obtain ⟨sooner, later⟩ := not_or.mp kept
    rw [second.inDatabase nChecksum later, first.inDatabase nChecksum sooner]

theorem eraseChecksum_erased (store : AccumulatorStore) (nChecksum : UInt32) :
    Erased (fun other => other = nChecksum) store (store.eraseChecksum nChecksum) where
  erased other same := by
    rintro (held | held) <;> rw [same] at held <;> exact held (Function.update_self ..)
  inMemory _ differs := Function.update_of_ne differs _ _
  inDatabase _ differs := Function.update_of_ne differs _ _

theorem erased_iff (erased : Erased gone before after) : Erased more before after ↔
    ∀ nChecksum, before.Holds nChecksum → (gone nChecksum ↔ more nChecksum) := by
  constructor
  · intro claimed nChecksum held
    constructor
    · intro isGone
      by_contra kept
      apply erased.erased nChecksum isGone
      unfold AccumulatorStore.Holds
      rw [claimed.inMemory nChecksum kept, claimed.inDatabase nChecksum kept]
      exact held
    · intro isGone
      by_contra kept
      apply claimed.erased nChecksum isGone
      unfold AccumulatorStore.Holds
      rw [erased.inMemory nChecksum kept, erased.inDatabase nChecksum kept]
      exact held
  · intro agree
    refine ⟨?_, ?_, ?_⟩
    · intro nChecksum isGone
      by_cases held : before.Holds nChecksum
      · exact erased.erased nChecksum ((agree nChecksum held).mpr isGone)
      · by_cases was : gone nChecksum
        · exact erased.erased nChecksum was
        · unfold AccumulatorStore.Holds
          rw [erased.inMemory nChecksum was, erased.inDatabase nChecksum was]
          exact held
    · intro nChecksum kept
      by_cases was : gone nChecksum
      · have unheld : ¬before.Holds nChecksum := fun held => kept ((agree nChecksum held).mp was)
        rw [(not_holds.mp unheld).1, (not_holds.mp (erased.erased nChecksum was)).1]
      · exact erased.inMemory nChecksum was
    · intro nChecksum kept
      by_cases was : gone nChecksum
      · have unheld : ¬before.Holds nChecksum := fun held => kept ((agree nChecksum held).mp was)
        rw [(not_holds.mp unheld).2, (not_holds.mp (erased.erased nChecksum was)).2]
      · exact erased.inDatabase nChecksum was

theorem eraseChecksums_erased (store : AccumulatorStore) :
    Erased (fun nChecksum => countsCheckpoint listCheckpointsPrev nCheckpointDelete = false ∧
        nChecksum ∈ checksumsOf nCheckpointDelete) store
      (eraseChecksums listCheckpointsPrev nCheckpointDelete store) := by
  unfold eraseChecksums checksumsOf
  cases counted : countsCheckpoint listCheckpointsPrev nCheckpointDelete with
  | true =>
    have idle : (zerocoinDenomList.foldl (fun (store : AccumulatorStore) denom =>
        if true = true then store
        else store.eraseChecksum (parseChecksum nCheckpointDelete denom)) store) = store := by
      simp
    exact Erased.none fun _ gone => absurd gone.1 (by decide)
  | false =>
    generalize zerocoinDenomList = denoms
    induction denoms generalizing store with
    | nil => exact Erased.none fun _ gone => by simp at gone
    | cons denom rest ih =>
      have first := eraseChecksum_erased store (parseChecksum nCheckpointDelete denom)
      exact (first.andThen (ih _)).congr fun nChecksum => by simp

section Chains
variable {node : Node}

def HeightsAgree (node : Node) : Prop :=
  ∀ (place : Nat) (pindex : CBlockIndex), node.chainActive[place]? = some pindex →
    pindex.nHeight = place

/-- The loop turns at a height: one of the range on the chain, or the first one whatever
    the range. -/
def Visits (node : Node) (nStartHeight nEndHeight height : Int) : Prop :=
  height = nStartHeight ∨ (nStartHeight ≤ height ∧ height ≤ nEndHeight ∧ height ≤ node.height)

theorem at?_natCast (place : Nat) : node.at? place = node.chainActive[place]? := by
  unfold Node.at?
  rw [if_neg (by omega), Int.toNat_natCast]

theorem at_only {start : Nat} {pindex : CBlockIndex} {visited : Int → Prop}
    {P : CBlockIndex → Prop} (found : node.chainActive[start]? = some pindex)
    (only : ∀ height, visited height ↔ height = start) :
    (∃ height other, visited height ∧ node.at? height = some other ∧ P other) ↔ P pindex := by
  constructor
  · rintro ⟨height, other, turn, there, holds⟩
    rw [(only height).mp turn, at?_natCast, found] at there
    exact Option.some.inj there ▸ holds
  · intro holds
    exact ⟨start, pindex, (only _).mpr rfl, by rw [at?_natCast, found], holds⟩

theorem eraseBlocks_erased (heights : HeightsAgree node) {nEndHeight : Int}
    (onChain : nEndHeight ≤ node.height) (count : Nat) {start : Nat}
    (inside : start < node.chainActive.length) (left : nEndHeight ≤ start + count)
    (store : AccumulatorStore) : ∃ after,
    eraseBlocks listCheckpointsPrev nEndHeight (node.chainActive.drop start) store = .ok after ∧
      Erased (fun nChecksum => ∃ height pindex, Visits node start nEndHeight height ∧
        node.at? height = some pindex ∧
        countsCheckpoint listCheckpointsPrev pindex.nAccumulatorCheckpoint = false ∧
        nChecksum ∈ checksumsOf pindex.nAccumulatorCheckpoint) store after := by
  have found := List.getElem?_eq_getElem inside
  have height := heights start _ found
  have tip : node.height = (node.chainActive.length : Int) - 1 := rfl
  have first := @eraseChecksums_erased listCheckpointsPrev
    node.chainActive[start].nAccumulatorCheckpoint store
  rw [List.drop_eq_getElem_cons inside]
  induction count generalizing start store with
  | zero =>
    refine ⟨_, ?_, first.congr fun nChecksum => ?_⟩
    · unfold eraseBlocks
      exact if_neg (by omega)
    · rw [at_only found fun other => by unfold Visits; omega]
  | succ count ih =>
    by_cases more : node.chainActive[start].nHeight + 1 ≤ nEndHeight
    · have inside' : start + 1 < node.chainActive.length := by omega
      have found' := List.getElem?_eq_getElem inside'
      obtain ⟨after, run, erased⟩ := ih inside' (by push_cast; omega) _ found'
        (heights _ _ found') (eraseChecksums_erased _)
      refine ⟨after, ?_, (first.andThen erased).congr fun nChecksum => ?_⟩
      · unfold eraseBlocks
        rw [if_pos more, List.drop_eq_getElem_cons inside']
        exact run
      · constructor
        · rintro (here | ⟨later, pindex, turn, there, wiped⟩)
          · exact ⟨start, _, .inl rfl, by rw [at?_natCast, found], here⟩
          · refine ⟨later, pindex, .inr ?_, there, wiped⟩
            unfold Visits at turn
            omega
        · rintro ⟨later, pindex, turn, there, wiped⟩
          by_cases same : later = start
          · rw [same, at?_natCast, found] at there
            exact .inl (Option.some.inj there ▸ wiped)
          · refine .inr ⟨later, pindex, ?_, there, wiped⟩
            unfold Visits at turn ⊢
            omega
    · refine ⟨_, ?_, first.congr fun nChecksum => ?_⟩
      · unfold eraseBlocks
        exact if_neg more
      · rw [at_only found fun other => by unfold Visits; omega]

section Ranges
variable (node : Node) (nStartHeight nEndHeight : Int)

def OccursInRange (nChecksum : UInt32) : Prop :=
  ∃ height pindex, nStartHeight ≤ height ∧ height ≤ nEndHeight ∧ node.at? height = some pindex ∧
    nChecksum ∈ checksumsOf pindex.nAccumulatorCheckpoint

def OccursBefore (nChecksum : UInt32) : Prop :=
  ∃ pprev, node.at? (nStartHeight - 1) = some pprev ∧
    nChecksum ∈ checksumsOf pprev.nAccumulatorCheckpoint

def PassedBy (pindex : CBlockIndex) : Prop :=
  ∃ pprev, node.at? (nStartHeight - 1) = some pprev ∧
    countsCheckpoint (checksumsOf pprev.nAccumulatorCheckpoint) pindex.nAccumulatorCheckpoint = true

def leftBy (store : AccumulatorStore) : Option AccumulatorStore :=
  match eraseCheckpoints node nStartHeight nEndHeight store with
  | .ok after => some after
  | .error .failed => some store
  | .error .nullPointer => none

def ErasesSuperseded (store : AccumulatorStore) : Prop :=
  ∃ after, leftBy node nStartHeight nEndHeight store = some after ∧
    Erased (fun nChecksum => OccursInRange node nStartHeight nEndHeight nChecksum ∧
      ¬OccursBefore node nStartHeight nChecksum) store after

/-- No value held is under a checksum that the blocks where the loop turns share with the
    block before, and every other one of the range is met in a block not passed by. -/
structure NothingShared (store : AccumulatorStore) : Prop where
  unshared : ∀ height pindex nChecksum, Visits node nStartHeight nEndHeight height →
    node.at? height = some pindex → ¬PassedBy node nStartHeight pindex → store.Holds nChecksum →
    nChecksum ∈ checksumsOf pindex.nAccumulatorCheckpoint →
    nStartHeight ≤ nEndHeight ∧ ¬OccursBefore node nStartHeight nChecksum
  met : ∀ nChecksum, store.Holds nChecksum → OccursInRange node nStartHeight nEndHeight nChecksum →
    ¬OccursBefore node nStartHeight nChecksum → ∃ height pindex, nStartHeight ≤ height ∧
      height ≤ nEndHeight ∧ node.at? height = some pindex ∧ ¬PassedBy node nStartHeight pindex ∧
      nChecksum ∈ checksumsOf pindex.nAccumulatorCheckpoint

end Ranges

variable {nStartHeight nEndHeight : Int} {store : AccumulatorStore}

theorem at?_bounds {height : Int} {pindex : CBlockIndex} (found : node.at? height = some pindex) :
    0 ≤ height ∧ height ≤ node.height := by
  unfold Node.at? at found
  split at found
  · cases found
  · obtain ⟨bound, -⟩ := List.getElem?_eq_some_iff.mp found
    have tip : node.height = (node.chainActive.length : Int) - 1 := rfl
    omega

theorem leftBy_above (above : node.height < nStartHeight) :
    leftBy node nStartHeight nEndHeight store = some store := by
  unfold leftBy eraseCheckpoints
  rw [if_pos above]

theorem leftBy_unrooted (low : nStartHeight < 1) (inside : nStartHeight ≤ node.height) :
    leftBy node nStartHeight nEndHeight store = none := by
  have absent : node.at? (nStartHeight - 1) = none := by
    unfold Node.at?
    rw [if_pos (by omega)]
  unfold leftBy eraseCheckpoints
  rw [if_neg (by omega), absent]

theorem leftBy_erased (heights : HeightsAgree node) (rooted : 1 ≤ nStartHeight)
    (inside : nStartHeight ≤ node.height) : ∃ after,
    leftBy node nStartHeight nEndHeight store = some after ∧
      Erased (fun nChecksum => ∃ height pindex, Visits node nStartHeight nEndHeight height ∧
        node.at? height = some pindex ∧ ¬PassedBy node nStartHeight pindex ∧
        nChecksum ∈ checksumsOf pindex.nAccumulatorCheckpoint) store after := by
  have tip : node.height = (node.chainActive.length : Int) - 1 := rfl
  obtain ⟨start, rfl⟩ := Int.eq_ofNat_of_zero_le (show 0 ≤ nStartHeight by omega)
  have previous : node.at? ((start : Int) - 1) = some node.chainActive[start - 1] := by
    rw [show (start : Int) - 1 = ((start - 1 : Nat) : Int) by omega, at?_natCast]
    exact List.getElem?_eq_getElem (by omega)
  obtain ⟨after, run, erased⟩ := @eraseBlocks_erased
    (checksumsOf node.chainActive[start - 1].nAccumulatorCheckpoint) node heights
    (min node.height nEndHeight) (by omega) node.chainActive.length start (by omega) (by omega) store
  refine ⟨after, ?_, erased.congr fun nChecksum => ?_⟩
  · unfold leftBy eraseCheckpoints
    rw [if_neg (by omega), previous]
    dsimp only
    unfold entriesFrom
    rw [if_neg (by omega), Int.toNat_natCast, run]
  · have visits (height : Int) : Visits node start (min node.height nEndHeight) height ↔
        Visits node start nEndHeight height := by
      unfold Visits
      omega
    have passed (pindex : CBlockIndex) : countsCheckpoint
        (checksumsOf node.chainActive[start - 1].nAccumulatorCheckpoint)
          pindex.nAccumulatorCheckpoint = false ↔ ¬PassedBy node start pindex := by
      unfold PassedBy
      rw [previous]
      simp
    simp [visits, passed]

theorem agree_iff_nothingShared : (∀ nChecksum, store.Holds nChecksum →
    ((∃ height pindex, Visits node nStartHeight nEndHeight height ∧
        node.at? height = some pindex ∧ ¬PassedBy node nStartHeight pindex ∧
        nChecksum ∈ checksumsOf pindex.nAccumulatorCheckpoint) ↔
      OccursInRange node nStartHeight nEndHeight nChecksum ∧
        ¬OccursBefore node nStartHeight nChecksum)) ↔
    NothingShared node nStartHeight nEndHeight store := by
  constructor
  · intro agree
    refine ⟨?_, ?_⟩
    · intro height pindex nChecksum turn found unspared held occurs
      obtain ⟨⟨other, -, low, high, -⟩, fresh⟩ :=
        (agree nChecksum held).mp ⟨height, pindex, turn, found, unspared, occurs⟩
      exact ⟨low.trans high, fresh⟩
    · intro nChecksum held inRange fresh
      obtain ⟨height, pindex, turn, found, unspared, occurs⟩ :=
        (agree nChecksum held).mpr ⟨inRange, fresh⟩
      obtain ⟨other, -, low, high, -⟩ := inRange
      exact ⟨height, pindex, by unfold Visits at turn; omega, by unfold Visits at turn; omega,
        found, unspared, occurs⟩
  · intro nothing nChecksum held
    constructor
    · rintro ⟨height, pindex, turn, found, unspared, occurs⟩
      obtain ⟨proper, fresh⟩ :=
        nothing.unshared height pindex nChecksum turn found unspared held occurs
      exact ⟨⟨height, pindex, by unfold Visits at turn; omega, by unfold Visits at turn; omega,
        found, occurs⟩, fresh⟩
    · rintro ⟨inRange, fresh⟩
      obtain ⟨height, pindex, low, high, found, unspared, occurs⟩ :=
        nothing.met nChecksum held inRange fresh
      exact ⟨height, pindex, .inr ⟨low, high, (at?_bounds found).2⟩, found, unspared, occurs⟩

/-- The checksums of the range that the block before does not have are the ones erased
    exactly when there is no block in reach, or none shared of the values held. -/
theorem erases_superseded_iff (heights : HeightsAgree node) :
    ErasesSuperseded node nStartHeight nEndHeight store ↔ node.height < nStartHeight ∨
      (1 ≤ nStartHeight ∧ NothingShared node nStartHeight nEndHeight store) := by
  by_cases above : node.height < nStartHeight
  · refine ⟨fun _ => .inl above, fun _ => ⟨store, leftBy_above above, Erased.none ?_⟩⟩
    rintro nChecksum ⟨⟨height, pindex, low, -, found, -⟩, -⟩
    have bounds := at?_bounds found
    omega
  · by_cases rooted : 1 ≤ nStartHeight
    · obtain ⟨after, left, erased⟩ := @leftBy_erased node nStartHeight nEndHeight store heights
        rooted (not_lt.mp above)
      constructor
      · rintro ⟨after', left', claimed⟩
        rw [left] at left'
        cases left'
        exact .inr ⟨rooted, agree_iff_nothingShared.mp ((erased_iff erased).mp claimed)⟩
      · rintro (off | ⟨-, nothing⟩)
        · exact absurd off above
        · exact ⟨after, left, (erased_iff erased).mpr (agree_iff_nothingShared.mpr nothing)⟩
    · have crash := @leftBy_unrooted node nStartHeight nEndHeight store (not_le.mp rooted)
        (not_lt.mp above)
      constructor
      · rintro ⟨after, left, -⟩
        rw [crash] at left
        cases left
      · rintro (off | ⟨on, -⟩)
        · exact absurd off above
        · exact absurd on rooted

end Chains

end Stores

def levelCheckpoint (checksum : Nat) : Uint256 := BitVec.ofNat 256
  (Packing.packFrom 32 0 (List.replicate 8 checksum))

def twelveBlocks (nCheckpoint : Uint256) : Node :=
  OxidChainRun.syncingNode ((List.range 12).map (OxidCheckpointChain.entryAt fun tens =>
    if tens = 0 then levelCheckpoint 5 else nCheckpoint))

def fiveAndSix : AccumulatorStore where
  mapAccumulatorValues nChecksum := if nChecksum = 5 then some 50 else none
  zerocoinDB nChecksum := if nChecksum = 5 then some 50 else if nChecksum = 6 then some 60 else none

theorem twelveBlocks_at {nCheckpoint : Uint256} {height : Int} {pindex : CBlockIndex}
    (found : (twelveBlocks nCheckpoint).at? height = some pindex) : 0 ≤ height ∧ height < 12 ∧
      pindex.nHeight = height ∧ pindex.nAccumulatorCheckpoint =
        if height < 10 then levelCheckpoint 5 else nCheckpoint := by
  have bounds := at?_bounds found
  have tip : (twelveBlocks nCheckpoint).height = 11 := rfl
  obtain ⟨place, rfl⟩ := Int.eq_ofNat_of_zero_le bounds.1
  rw [at?_natCast] at found
  have here : (twelveBlocks nCheckpoint).chainActive[place]? =
      ((List.range 12).map (OxidCheckpointChain.entryAt fun tens =>
        if tens = 0 then levelCheckpoint 5 else nCheckpoint))[place]? := rfl
  rw [here, List.getElem?_map, List.getElem?_range (by omega)] at found
  cases found
  refine ⟨bounds.1, by omega, rfl, ?_⟩
  change (if place / 10 = 0 then levelCheckpoint 5 else nCheckpoint) = _
  split <;> split <;> first | rfl | omega

theorem twelveBlocks_heights (nCheckpoint : Uint256) : HeightsAgree (twelveBlocks nCheckpoint) := by
  intro place pindex found
  rw [← at?_natCast] at found
  exact (twelveBlocks_at found).2.2.1

theorem changed_checkpoint_erased :
    ErasesSuperseded (twelveBlocks (levelCheckpoint 6)) 10 11 fiveAndSix := by
  apply (erases_superseded_iff (twelveBlocks_heights (levelCheckpoint 6))).mpr
  refine .inr ⟨by decide, ?_, ?_⟩
  · intro height pindex nChecksum turn found unspared held occurs
    refine ⟨by decide, ?_⟩
    rintro ⟨pprev, previous, before⟩
    have bounds := twelveBlocks_at found
    unfold Visits at turn
    rw [bounds.2.2.2, if_neg (by omega)] at occurs
    rw [(twelveBlocks_at previous).2.2.2, if_pos (by decide)] at before
    have apart : (checksumsOf (levelCheckpoint 6)).all (fun checksum =>
        !(checksumsOf (levelCheckpoint 5)).contains checksum) = true := by decide +kernel
    have fresh := List.all_eq_true.mp apart nChecksum occurs
    rw [List.contains_iff_mem.mpr before] at fresh
    cases fresh
  · rintro nChecksum held ⟨height, pindex, low, high, found, occurs⟩ fresh
    refine ⟨height, pindex, low, high, found, ?_, occurs⟩
    rintro ⟨pprev, previous, counted⟩
    rw [(twelveBlocks_at previous).2.2.2, if_pos (by decide), (twelveBlocks_at found).2.2.2,
      if_neg (by omega)] at counted
    exact absurd counted (by decide +kernel)

theorem shared_checksum_erased : HeightsAgree (twelveBlocks (levelCheckpoint 5)) ∧
    OccursBefore (twelveBlocks (levelCheckpoint 5)) 10 5 ∧ fiveAndSix.Holds 5 ∧
    ¬ErasesSuperseded (twelveBlocks (levelCheckpoint 5)) 10 11 fiveAndSix := by
  have before : OccursBefore (twelveBlocks (levelCheckpoint 5)) 10 5 :=
    ⟨_, rfl, by decide +kernel⟩
  refine ⟨twelveBlocks_heights _, before, .inl (by decide), ?_⟩
  rintro ⟨after, left, erased⟩
  have kept := erased.inMemory 5 fun gone => gone.2 before
  have lost : ((leftBy (twelveBlocks (levelCheckpoint 5)) 10 11 fiveAndSix).map
      fun store => store.mapAccumulatorValues 5) = some none := by decide +kernel
  rw [left, Option.map_some, kept] at lost
  exact absurd lost (by decide)

end OxidEraseCheckpoints
