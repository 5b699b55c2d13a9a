import Oxid.Library.Clearing
import Oxid.Library.MapValues
import Oxid.MasternodeBroadcast

/-!
The pruning of what the node has seen from masternodes, with the list that synchronisation
keeps beside it. What is seen of a removed masternode goes, so that its broadcast is new
again. Its pings stay until they are old.
-/
namespace OxidSeenBroadcasts
open OxidPrimitives OxidMapKeys OxidMasternode OxidMasternodeMan OxidMasternodeMan.CMasternodeMan
open OxidMasternodeBroadcast OrderedMaps OrderedMap ShiftingErase Clearing

/-- The manager, and how often synchronisation has met each broadcast. -/
structure SyncedMan where
  man : CMasternodeMan
  mapSeenSyncMNB : OrderedMap Uint256 Int

def expired (time since : Int64) : Bool :=
  decide (since.toInt < time.toInt - MASTERNODE_REMOVAL_SECONDS * 2)

def seenOf (vin : CTxIn) (man : CMasternodeMan) : List (Uint256 × CMasternodeBroadcast) :=
  man.mapSeenMasternodeBroadcast.entries.filter fun entry => entry.2.vin == vin

def forgetSynced (state : SyncedMan) (removed : CMasternode) : SyncedMan where
  man := forget state.man removed
  mapSeenSyncMNB := (seenOf removed.vin state.man).foldl
    (fun mapSeenSyncMNB entry => mapSeenSyncMNB.erase entry.1) state.mapSeenSyncMNB

/-- The loop over the old broadcasts. The iterator has moved on when the companion's key is
    read: it is the next broadcast's hash, or whatever is read behind the last one. -/
def expireSynced (rules : MnbRules) (pastEnd : Uint256) (time : Int64) :
    List (Uint256 × CMasternodeBroadcast) → OrderedMap Uint256 Int → OrderedMap Uint256 Int
  | [], mapSeenSyncMNB => mapSeenSyncMNB
  | (_, mnb) :: rest, mapSeenSyncMNB =>
    if expired time mnb.lastPing.sigTime then
      let it3Hash := match rest with
        | [] => pastEnd
        | (_, next) :: _ => rules.getHash next.toCMasternode
      expireSynced rules pastEnd time rest (mapSeenSyncMNB.erase it3Hash)
    else expireSynced rules pastEnd time rest mapSeenSyncMNB

section Prune

variable (rules : MnbRules) (pastEnd : Uint256) (calls : Nat → CheckCall)
  (forceExpiredRemoval : Bool) (minProto : Int32) (time : Int64)

def removeSynced (state : SyncedMan) : SyncedMan :=
  let checked := state.man.check calls
  let scan := eraseAll CMasternode.assign (outdated forceExpiredRemoval minProto)
    checked.vMasternodes
  scan.2.foldl forgetSynced ⟨{ checked with vMasternodes := scan.1 }, state.mapSeenSyncMNB⟩

def checkAndRemove (state : SyncedMan) : SyncedMan :=
  let removed := removeSynced calls forceExpiredRemoval minProto state
  ⟨dropStale time removed.man,
    expireSynced rules pastEnd time removed.man.mapSeenMasternodeBroadcast.entries
      removed.mapSeenSyncMNB⟩

def Removed (state : SyncedMan) (vin : CTxIn) : Prop :=
  ∃ mn ∈ (state.man.check calls).vMasternodes,
    outdated forceExpiredRemoval minProto mn = true ∧ mn.vin = vin

end Prune

/-- A broadcast that passes all checks but the one whether it was seen. -/
structure Acceptable (call : MnbCall) (rules : MnbRules) (mnb : CMasternodeBroadcast)
    (man : CMasternodeMan) : Prop where
  active : call.liteMode = false ∧ call.blockchainSynced = true
  signed : call.refusal rules mnb = none
  unlisted : man.find mnb.vin = none
  associated : call.vinAssociated mnb.vin mnb.pubKeyCollateralAddress = true
  backed : call.standing mnb = .good

structure Pruned (rules : MnbRules) (calls : Nat → CheckCall) (forceExpiredRemoval : Bool)
    (minProto : Int32) (time : Int64) (before after : SyncedMan) : Prop where
  broadcasts : ∀ hash mnb, after.man.mapSeenMasternodeBroadcast.find? hash = some mnb ↔
    before.man.mapSeenMasternodeBroadcast.find? hash = some mnb ∧
      ¬ Removed calls forceExpiredRemoval minProto before mnb.vin ∧
        expired time mnb.lastPing.sigTime = false
  pings : ∀ hash ping, after.man.mapSeenMasternodePing.find? hash = some ping ↔
    before.man.mapSeenMasternodePing.find? hash = some ping ∧ expired time ping.sigTime = false
  dropped : ∀ hash mnb, before.man.mapSeenMasternodeBroadcast.find? hash = some mnb →
    Removed calls forceExpiredRemoval minProto before mnb.vin →
      after.mapSeenSyncMNB.find? hash = none
  kept : (∀ hash mnb, before.man.mapSeenMasternodeBroadcast.find? hash = some mnb →
      ¬ Removed calls forceExpiredRemoval minProto before mnb.vin →
        expired time mnb.lastPing.sigTime = false) →
    ∀ hash, (∀ mnb, before.man.mapSeenMasternodeBroadcast.find? hash = some mnb →
      ¬ Removed calls forceExpiredRemoval minProto before mnb.vin) →
        after.mapSeenSyncMNB.find? hash = before.mapSeenSyncMNB.find? hash
  again : ∀ hash mnb, before.man.mapSeenMasternodeBroadcast.find? hash = some mnb →
    Removed calls forceExpiredRemoval minProto before mnb.vin →
      rules.getHash mnb.toCMasternode = hash → ∀ call, Acceptable call rules mnb after.man →
        (processMnb call rules mnb after.man).1.1 = .accepted

section Forgetting

theorem forgets_man (removed : List CMasternode) (state : SyncedMan) :
    (removed.foldl forgetSynced state).man = removed.foldl forget state.man := by
  induction removed generalizing state with
  | nil => rfl
  | cons mn rest ih =>
    rw [List.foldl_cons, List.foldl_cons, ih]
    rfl

theorem forgets_seen (removed : List CMasternode) (man : CMasternodeMan) {hash : Uint256}
    {mnb : CMasternodeBroadcast} :
    (removed.foldl forget man).mapSeenMasternodeBroadcast.find? hash = some mnb ↔
      man.mapSeenMasternodeBroadcast.find? hash = some mnb ∧ ∀ mn ∈ removed, mnb.vin ≠ mn.vin := by
  induction removed generalizing man with
  | nil => simp
  | cons mn rest ih =>
    rw [List.foldl_cons, ih]
    change (man.mapSeenMasternodeBroadcast.filter _).find? hash = some mnb ∧ _ ↔ _
    rw [find?_filter]
    simp only [bne_iff_ne, ne_eq, List.forall_mem_cons]
    exact and_assoc

theorem forgets_pings (removed : List CMasternode) (man : CMasternodeMan) :
    (removed.foldl forget man).mapSeenMasternodePing = man.mapSeenMasternodePing := by
  induction removed generalizing man with
  | nil => rfl
  | cons mn rest ih =>
    rw [List.foldl_cons, ih]
    rfl

def SeenOf (removed : List CMasternode) (man : CMasternodeMan) (hash : Uint256) : Prop :=
  ∃ mnb, man.mapSeenMasternodeBroadcast.find? hash = some mnb ∧ ∃ mn ∈ removed, mnb.vin = mn.vin

theorem forgetSynced_cleared (state : SyncedMan) (mn : CMasternode) :
    Cleared (SeenOf [mn] state.man) state.mapSeenSyncMNB
      (forgetSynced state mn).mapSeenSyncMNB := by
  have cleared := cleared_erases (seenOf mn.vin state.man) Prod.fst state.mapSeenSyncMNB
  apply cleared.congr
  intro hash _
  unfold SeenOf seenOf
  simp only [List.mem_map, List.mem_filter, List.mem_singleton, beq_iff_eq, exists_eq_left]
  constructor
  · rintro ⟨⟨hash, mnb⟩, ⟨listed, same⟩, rfl⟩
    exact ⟨mnb, (mem_entries_iff _ _ _).mp listed, same⟩
  · rintro ⟨mnb, found, same⟩
    exact ⟨(hash, mnb), ⟨(mem_entries_iff _ _ _).mpr found, same⟩, rfl⟩

theorem forgets_cleared (removed : List CMasternode) (state : SyncedMan) :
    Cleared (SeenOf removed state.man) state.mapSeenSyncMNB
      (removed.foldl forgetSynced state).mapSeenSyncMNB := by
  induction removed generalizing state with
  | nil =>
    apply Cleared.none
    rintro hash ⟨_, _, _, inside, _⟩
    cases inside
  | cons mn rest ih =>
    apply ((forgetSynced_cleared state mn).andThen (ih (forgetSynced state mn))).congr
    intro hash _
    unfold SeenOf
    simp only [List.mem_singleton, exists_eq_left, List.exists_mem_cons_iff]
    change (_ ∨ ∃ mnb, (state.man.mapSeenMasternodeBroadcast.filter _).find? hash = some mnb ∧ _) ↔ _
    simp only [find?_filter, bne_iff_ne, ne_eq]
    constructor
    · rintro (⟨mnb, found, same⟩ | ⟨mnb, ⟨found, _⟩, later⟩)
      · exact ⟨mnb, found, Or.inl same⟩
      · exact ⟨mnb, found, Or.inr later⟩
    · rintro ⟨mnb, found, same | later⟩
      · exact Or.inl ⟨mnb, found, same⟩
      · by_cases same : mnb.vin = mn.vin
        · exact Or.inl ⟨mnb, found, same⟩
        · exact Or.inr ⟨mnb, ⟨found, same⟩, later⟩

end Forgetting

section Pruning

variable {rules : MnbRules} {pastEnd : Uint256} {calls : Nat → CheckCall}
  {forceExpiredRemoval : Bool} {minProto : Int32} {time : Int64} {state : SyncedMan}

def takenOff (calls : Nat → CheckCall) (forceExpiredRemoval : Bool) (minProto : Int32)
    (man : CMasternodeMan) : List CMasternode :=
  (eraseAll CMasternode.assign (outdated forceExpiredRemoval minProto)
    (man.check calls).vMasternodes).2

theorem removed_iff (vin : CTxIn) :
    Removed calls forceExpiredRemoval minProto state vin ↔
      ∃ mn ∈ takenOff calls forceExpiredRemoval minProto state.man, vin = mn.vin := by
  have parts := eraseAll_erased assign_splits (outdated forceExpiredRemoval minProto)
    (outdated_listed forceExpiredRemoval minProto) (state.man.check calls).vMasternodes
  constructor
  · rintro ⟨mn, listed, gone, rfl⟩
    have member : mn.listed ∈ (eraseAll CMasternode.assign (outdated forceExpiredRemoval minProto)
        (state.man.check calls).vMasternodes).2.map CMasternode.listed := by
      rw [parts]
      exact List.mem_filter.mpr ⟨List.mem_map_of_mem listed, gone⟩
    obtain ⟨taken, inside, same⟩ := List.mem_map.mp member
    exact ⟨taken, inside, (congrArg CMasternode.vin same).symm⟩
  · rintro ⟨taken, inside, rfl⟩
    have member : taken.listed ∈ ((state.man.check calls).vMasternodes.map
        CMasternode.listed).filter (outdated forceExpiredRemoval minProto) := by
      rw [← parts]
      exact List.mem_map_of_mem inside
    obtain ⟨source, gone⟩ := List.mem_filter.mp member
    obtain ⟨mn, listed, same⟩ := List.mem_map.mp source
    have vin : mn.listed.vin = taken.listed.vin := congrArg CMasternode.vin same
    refine ⟨mn, listed, ?_, vin⟩
    rw [outdated_listed, same]
    exact gone

variable {entries : List (Uint256 × CMasternodeBroadcast)} {mnb : CMasternodeBroadcast}
variable {hash : Uint256}

theorem expireSynced_none {mapSeenSyncMNB : OrderedMap Uint256 Int}
    (absent : mapSeenSyncMNB.find? hash = none) :
    (expireSynced rules pastEnd time entries mapSeenSyncMNB).find? hash = none := by
  induction entries generalizing mapSeenSyncMNB with
  | nil => exact absent
  | cons entry rest ih =>
    unfold expireSynced
    split_ifs
    · apply ih
      cases still : (mapSeenSyncMNB.erase _).find? hash with
      | none => rfl
      | some count =>
        have held := (find?_erase_some still).2
        rw [absent] at held
        cases held
    · exact ih absent

theorem expireSynced_fresh (mapSeenSyncMNB : OrderedMap Uint256 Int)
    (fresh : ∀ entry ∈ entries, expired time entry.2.lastPing.sigTime = false) :
    expireSynced rules pastEnd time entries mapSeenSyncMNB = mapSeenSyncMNB := by
  induction entries with
  | nil => rfl
  | cons entry rest ih =>
    obtain ⟨here, later⟩ := List.forall_mem_cons.mp fresh
    unfold expireSynced
    rw [if_neg (by rw [here]; decide)]
    exact ih later

theorem removeSynced_seen :
    (removeSynced calls forceExpiredRemoval minProto
        state).man.mapSeenMasternodeBroadcast.find? hash = some mnb ↔
      state.man.mapSeenMasternodeBroadcast.find? hash = some mnb ∧
        ¬ Removed calls forceExpiredRemoval minProto state mnb.vin := by
  unfold removeSynced
  rw [forgets_man, forgets_seen, removed_iff]
  apply and_congr_right
  intro _
  constructor
  · rintro apart ⟨mn, taken, same⟩
    exact apart mn taken same
  · intro apart mn taken same
    exact apart ⟨mn, taken, same⟩

theorem removeSynced_cleared :
    Cleared (fun hash => ∃ mnb, state.man.mapSeenMasternodeBroadcast.find? hash = some mnb ∧
        Removed calls forceExpiredRemoval minProto state mnb.vin)
      state.mapSeenSyncMNB
      (removeSynced calls forceExpiredRemoval minProto state).mapSeenSyncMNB := by
  have cleared := forgets_cleared (takenOff calls forceExpiredRemoval minProto state.man)
    ⟨{ state.man.check calls with
        vMasternodes := (eraseAll CMasternode.assign (outdated forceExpiredRemoval minProto)
          (state.man.check calls).vMasternodes).1 }, state.mapSeenSyncMNB⟩
  apply cleared.congr
  intro hash _
  simp only [removed_iff]
  exact Iff.rfl

theorem checkAndRemove_seen :
    (checkAndRemove rules pastEnd calls forceExpiredRemoval minProto time
        state).man.mapSeenMasternodeBroadcast.find? hash = some mnb ↔
      state.man.mapSeenMasternodeBroadcast.find? hash = some mnb ∧
        ¬ Removed calls forceExpiredRemoval minProto state mnb.vin ∧
          expired time mnb.lastPing.sigTime = false := by
  change ((removeSynced calls forceExpiredRemoval minProto
    state).man.mapSeenMasternodeBroadcast.filter _).find? hash = some mnb ↔ _
  rw [find?_filter, removeSynced_seen, and_assoc, Bool.not_eq_true']
  exact Iff.rfl

theorem checkAndRemove_pings {ping : CMasternodePing} :
    (checkAndRemove rules pastEnd calls forceExpiredRemoval minProto time
        state).man.mapSeenMasternodePing.find? hash = some ping ↔
      state.man.mapSeenMasternodePing.find? hash = some ping ∧
        expired time ping.sigTime = false := by
  change ((removeSynced calls forceExpiredRemoval minProto
    state).man.mapSeenMasternodePing.filter _).find? hash = some ping ↔ _
  rw [find?_filter, Bool.not_eq_true']
  unfold removeSynced
  rw [forgets_man, forgets_pings]
  exact Iff.rfl

theorem processMnb_accepts {call : MnbCall} {man : CMasternodeMan}
    (unseen : man.mapSeenMasternodeBroadcast.find? (rules.getHash mnb.toCMasternode) = none)
    (acceptable : Acceptable call rules mnb man) :
    (processMnb call rules mnb man).1.1 = .accepted := by
  have looked : (noteSeen rules mnb man).find mnb.vin = none := acceptable.unlisted
  have updated : call.checkAndUpdate rules mnb (noteSeen rules mnb man) =
      ((none, []), noteSeen rules mnb man) := by
    unfold MnbCall.checkAndUpdate
    rw [acceptable.signed]
    rw [looked]
  have added : (call.checkInputsAndAdd rules mnb (noteSeen rules mnb man)).1.1 = true := by
    unfold MnbCall.checkInputsAndAdd
    split_ifs
    · rfl
    · rw [looked]
      unfold MnbCall.addsEntry
      rw [acceptable.backed]
  unfold processMnb
  rw [if_neg (by rw [acceptable.active.1, acceptable.active.2]; decide),
    if_neg (by unfold OrderedMap.count; rw [unseen]; decide)]
  unfold MnbCall.checksBroadcast
  rw [updated]
  dsimp only
  rw [if_neg (by rw [acceptable.associated]; decide)]
  rw [if_pos added]

end Pruning

theorem check_and_remove_prunes (rules : MnbRules) (pastEnd : Uint256) (calls : Nat → CheckCall)
    (forceExpiredRemoval : Bool) (minProto : Int32) (time : Int64) (state : SyncedMan) :
    Pruned rules calls forceExpiredRemoval minProto time state
      (checkAndRemove rules pastEnd calls forceExpiredRemoval minProto time state) where
  broadcasts _ _ := checkAndRemove_seen
  pings _ _ := checkAndRemove_pings
  dropped hash mnb seen removed :=
    expireSynced_none (removeSynced_cleared.taken hash ⟨mnb, seen, removed⟩)
  kept := by
    intro fresh hash stays
    have unexpired : ∀ entry ∈ (removeSynced calls forceExpiredRemoval minProto
        state).man.mapSeenMasternodeBroadcast.entries,
        expired time entry.2.lastPing.sigTime = false := by
      intro entry member
      obtain ⟨seen, left⟩ := removeSynced_seen.mp ((mem_entries_iff _ entry.1 entry.2).mp member)
      exact fresh entry.1 entry.2 seen left
    change (expireSynced rules pastEnd time _ _).find? hash = _
    rw [expireSynced_fresh _ unexpired]
    apply removeSynced_cleared.kept hash
    rintro ⟨mnb, seen, removed⟩
    exact stays mnb seen removed
  again := by
    rintro hash mnb seen removed rfl call acceptable
    refine processMnb_accepts ?_ acceptable
    cases standing : (checkAndRemove rules pastEnd calls forceExpiredRemoval minProto time
        state).man.mapSeenMasternodeBroadcast.find? (rules.getHash mnb.toCMasternode) with
    | none => rfl
    | some other =>
      obtain ⟨same, left, _⟩ := checkAndRemove_seen.mp standing
      rw [seen] at same
      cases same
      exact absurd removed left

section Samples

def leaving : CMasternode :=
  { CMasternode.fresh 0 with
    vin := ⟨⟨7, 0⟩, [], 0xffffffff⟩
    activeState := MASTERNODE_REMOVE
    lastTimeChecked := 1600000000 }

def recentPing : CMasternodePing := ⟨leaving.vin, 5, 1599999000, []⟩

def leavingState : SyncedMan where
  man :=
    { vMasternodes := [leaving]
      mAskedUsForMasternodeList := ∅
      mWeAskedForMasternodeList := ∅
      mWeAskedForMasternodeListEntry := ∅
      nDsqCount := 0
      mapSeenMasternodeBroadcast := ∅
      mapSeenMasternodePing := (∅ : OrderedMap Uint256 CMasternodePing).set 11 recentPing }
  mapSeenSyncMNB := ∅

def idleCall : CheckCall :=
  ⟨false, false, 1600000000, 1600000000, fun _ => none, [], true, fun _ => true⟩

def sampleRules : MnbRules := ⟨fun _ => 9, fun _ => 11, fun _ => []⟩

theorem removed_ping_stays :
    ∃ hash ping, (checkAndRemove sampleRules 0 (fun _ => idleCall) false 70002 1600000000
        leavingState).man.mapSeenMasternodePing.find? hash = some ping ∧
      Removed (fun _ => idleCall) false 70002 leavingState ping.vin := by
  refine ⟨11, recentPing, by decide +kernel, leaving, ?_, by decide, rfl⟩
  decide +kernel

end Samples

end OxidSeenBroadcasts
