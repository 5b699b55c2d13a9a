import Oxid.MasternodeBroadcast

/-!
Two masternode managers that differ in the seen broadcasts a forged message left in the
first, in the deposits of their entries, and in whom they asked for an entry.
-/
namespace OxidAlikeManagers
open OxidPrimitives OxidMapKeys OxidMasternode OxidMasternodeMan OxidMasternodePayments
open OxidMasternodeBroadcast OrderedMaps OrderedMap ShiftingErase

section Seen
variable {Value : Type} {marks : List Uint256} {noted plain : OrderedMap Uint256 Value}

structure SeenAlike (marks : List Uint256) (noted plain : OrderedMap Uint256 Value) : Prop where
  unmarked : ∀ key, key ∉ marks → noted.find? key = plain.find? key
  marked : ∀ key ∈ marks, noted.count key = true ∧ plain.count key = false

theorem SeenAlike.refl (map : OrderedMap Uint256 Value) : SeenAlike [] map map :=
  ⟨fun _ _ => rfl, fun _ marked => nomatch marked⟩

variable {key : Uint256}

theorem SeenAlike.count (alike : SeenAlike marks noted plain) (clear : key ∉ marks) :
    noted.count key = plain.count key := by
  rw [OrderedMap.count, OrderedMap.count, alike.unmarked key clear]

theorem count_edit_other (map : OrderedMap Uint256 Value) {key other : Uint256}
    (change : Option Value → Value) (different : other ≠ key) :
    (map.edit key change).count other = map.count other := by
  rw [OrderedMap.count, OrderedMap.count, find?_edit_other _ _ different]

section
variable (alike : SeenAlike marks noted plain)
include alike

theorem SeenAlike.edit (clear : key ∉ marks) (change : Option Value → Value) :
    SeenAlike marks (noted.edit key change) (plain.edit key change) := by
  constructor
  · intro other away
    by_cases same : other = key
    · rw [same, find?_edit_same, find?_edit_same, alike.unmarked key clear]
    · rw [find?_edit_other _ _ same, find?_edit_other _ _ same, alike.unmarked other away]
  · intro other marked
    have different : other ≠ key := fun same => clear (same ▸ marked)
    rw [count_edit_other _ _ different, count_edit_other _ _ different]
    exact alike.marked other marked

theorem SeenAlike.erase (clear : key ∉ marks) :
    SeenAlike marks (noted.erase key) (plain.erase key) := by
  constructor
  · intro other away
    by_cases same : other = key
    · rw [same, find?_erase_same, find?_erase_same]
    · rw [find?_erase_other _ same, find?_erase_other _ same, alike.unmarked other away]
  · intro other marked
    have different : other ≠ key := fun same => clear (same ▸ marked)
    rw [OrderedMap.count, OrderedMap.count, find?_erase_other _ different,
      find?_erase_other _ different]
    exact alike.marked other marked

theorem SeenAlike.refresh (key : Uint256) (change : Option Value → Value) :
    SeenAlike marks (if noted.count key then noted.edit key change else noted)
      (if plain.count key then plain.edit key change else plain) := by
  by_cases clear : key ∈ marks
  · obtain ⟨stands, lacks⟩ := alike.marked key clear
    rw [if_pos stands, if_neg (by rw [lacks]; exact Bool.false_ne_true)]
    constructor
    · intro other away
      have different : other ≠ key := fun same => away (same ▸ clear)
      rw [find?_edit_other _ _ different, alike.unmarked other away]
    · intro other marked
      refine ⟨?_, (alike.marked other marked).2⟩
      by_cases same : other = key
      · rw [same, OrderedMap.count, find?_edit_same]
        rfl
      · rw [count_edit_other _ _ same]
        exact (alike.marked other marked).1
  · rw [alike.count clear]
    split
    · exact alike.edit clear change
    · exact alike

theorem SeenAlike.note (value : Value) (absent : noted.count key = false) :
    SeenAlike (key :: marks) (noted.set key value) plain := by
  have clear : key ∉ marks := by
    intro marked
    rw [(alike.marked key marked).1] at absent
    cases absent
  constructor
  · intro other away
    rw [List.mem_cons, not_or] at away
    obtain ⟨different, unmarked⟩ := away
    rw [find?_set_other _ _ different, alike.unmarked other unmarked]
  · intro other marked
    rcases List.mem_cons.mp marked with here | earlier
    · subst here
      rw [← alike.count clear, absent, OrderedMap.count, find?_set_same]
      exact ⟨rfl, rfl⟩
    · have different : other ≠ key := fun same => clear (same ▸ earlier)
      rw [OrderedMap.set, count_edit_other _ _ different]
      exact alike.marked other earlier

end

end Seen

def bare (mn : CMasternode) : CMasternode := { mn with deposit := 0 }

theorem reads_bare {Read : Type} {read : CMasternode → Read}
    (blind : ∀ mn, read (bare mn) = read mn) {a b : CMasternode} (same : bare a = bare b) :
    read a = read b := by
  rw [← blind a, same, blind]

structure ManagersAlike (marks : List Uint256) (noted plain : CMasternodeMan) : Prop where
  entries : noted.vMasternodes.map bare = plain.vMasternodes.map bare
  pings : noted.mapSeenMasternodePing = plain.mapSeenMasternodePing
  seen : SeenAlike marks noted.mapSeenMasternodeBroadcast plain.mapSeenMasternodeBroadcast

section Managers
variable {marks : List Uint256} {noted plain : CMasternodeMan}

theorem ManagersAlike.refl (man : CMasternodeMan) : ManagersAlike [] man man :=
  ⟨rfl, rfl, SeenAlike.refl _⟩

structure SameCore (later earlier : CMasternodeMan) : Prop where
  entries : later.vMasternodes.map bare = earlier.vMasternodes.map bare
  pings : later.mapSeenMasternodePing = earlier.mapSeenMasternodePing
  seen : later.mapSeenMasternodeBroadcast = earlier.mapSeenMasternodeBroadcast

theorem SameCore.refl (man : CMasternodeMan) : SameCore man man := ⟨rfl, rfl, rfl⟩

theorem SameCore.trans {latest later earlier : CMasternodeMan} (second : SameCore latest later)
    (first : SameCore later earlier) : SameCore latest earlier :=
  ⟨second.entries.trans first.entries, second.pings.trans first.pings,
    second.seen.trans first.seen⟩

variable {change : CMasternode → CMasternode} {later : CMasternodeMan}

theorem ManagersAlike.onNoted (alike : ManagersAlike marks noted plain)
    (core : SameCore later noted) : ManagersAlike marks later plain :=
  ⟨core.entries.trans alike.entries, core.pings.trans alike.pings, core.seen ▸ alike.seen⟩

theorem ManagersAlike.onPlain (alike : ManagersAlike marks noted plain)
    (core : SameCore later plain) : ManagersAlike marks noted later :=
  ⟨alike.entries.trans core.entries.symm, alike.pings.trans core.pings.symm,
    core.seen ▸ alike.seen⟩

theorem askForMN_core (time : Int64) (vin : CTxIn) (man : CMasternodeMan) :
    SameCore (askForMN time vin man) man := by
  unfold askForMN
  dsimp only
  split
  · exact SameCore.refl man
  · exact ⟨rfl, rfl, rfl⟩

theorem setDeposit_core (position : Nat) (deposit : Int) (man : CMasternodeMan) :
    SameCore (setDeposit position deposit man) man := by
  refine ⟨?_, rfl, rfl⟩
  change (man.vMasternodes.modify position _).map bare = man.vMasternodes.map bare
  apply List.ext_getElem?
  intro i
  rw [List.getElem?_map, List.getElem?_map, List.getElem?_modify]
  cases man.vMasternodes[i]? with
  | none => rfl
  | some mn =>
    by_cases here : position = i
    · simp [here, bare]
    · simp [here]

theorem find_bare (man : CMasternodeMan) (vin : CTxIn) :
    (man.find vin).map bare =
      (man.vMasternodes.map bare).find? fun mn => mn.vin.prevout == vin.prevout := by
  rw [List.find?_map]
  rfl

theorem ManagersAlike.find (alike : ManagersAlike marks noted plain) (vin : CTxIn) :
    (noted.find vin).map bare = (plain.find vin).map bare := by
  rw [find_bare, find_bare, alike.entries]

theorem ManagersAlike.find_cases (alike : ManagersAlike marks noted plain) (vin : CTxIn) :
    (noted.find vin = none ∧ plain.find vin = none) ∨
      ∃ a b, noted.find vin = some a ∧ plain.find vin = some b ∧ bare a = bare b := by
  have same := alike.find vin
  cases first : noted.find vin with
  | none =>
    rw [first, Option.map_none] at same
    exact .inl ⟨rfl, Option.map_eq_none_iff.mp same.symm⟩
  | some a =>
    rw [first, Option.map_some] at same
    obtain ⟨b, found, equal⟩ := Option.map_eq_some_iff.mp same.symm
    exact .inr ⟨a, b, rfl, found, equal.symm⟩

theorem ManagersAlike.asks {Read : Type} (alike : ManagersAlike marks noted plain) (vin : CTxIn)
    {read : CMasternode → Read} (blind : ∀ mn, read (bare mn) = read mn) :
    (noted.find vin).map read = (plain.find vin).map read := by
  rcases alike.find_cases vin with ⟨first, second⟩ | ⟨a, b, first, second, same⟩
  · rw [first, second]
  · rw [first, second, Option.map_some, Option.map_some, reads_bare blind same]

theorem amendFirst_bare (vin : CTxIn) (blind : ∀ mn, bare (change (bare mn)) = bare (change mn))
    (mns : List CMasternode) :
    (amendFirst vin change (mns.map bare)).map bare = (amendFirst vin change mns).map bare := by
  induction mns with
  | nil => rfl
  | cons mn rest ih =>
    have place : (bare mn).vin = mn.vin := rfl
    simp only [List.map_cons, amendFirst, place]
    split
    · rw [List.map_cons, List.map_cons, blind, List.map_map]
      rfl
    · rw [List.map_cons, List.map_cons, ih]
      rfl

theorem ManagersAlike.amend (alike : ManagersAlike marks noted plain) (vin : CTxIn)
    (blind : ∀ mn, bare (change (bare mn)) = bare (change mn)) :
    ManagersAlike marks (amend vin change noted) (amend vin change plain) := by
  constructor
  · change (amendFirst vin change noted.vMasternodes).map bare =
      (amendFirst vin change plain.vMasternodes).map bare
    rw [← amendFirst_bare vin blind, alike.entries, amendFirst_bare vin blind]
  · exact alike.pings
  · exact alike.seen

theorem check_bare (call : CheckCall) (mn : CMasternode) :
    bare ((bare mn).check call) = bare (mn.check call) := by
  have time : (bare mn).lastTimeChecked = mn.lastTimeChecked := rfl
  have state : (bare mn).checkedState call = mn.checkedState call := rfl
  simp only [CMasternode.check, time, state]
  split
  · rfl
  · split
    · rfl
    · rfl

theorem ManagersAlike.refreshSeen (alike : ManagersAlike marks noted plain) (hash : Uint256)
    (ping : CMasternodePing) :
    ManagersAlike marks (refreshSeen hash ping noted) (refreshSeen hash ping plain) := by
  have seen := alike.seen.refresh hash fun standing =>
    let mnb := standing.getD ⟨CMasternode.fresh 0⟩
    { mnb with lastPing := ping }
  unfold OxidMasternodeBroadcast.refreshSeen
  constructor
  · split <;> split <;> exact alike.entries
  · split <;> split <;> exact alike.pings
  · split <;> split <;> simp_all

theorem shiftDown_bare (position : CMasternode) (rest : List CMasternode) :
    (shiftDown CMasternode.assign position rest).map bare =
      shiftDown CMasternode.assign (bare position) (rest.map bare) := by
  induction rest generalizing position with
  | nil => rfl
  | cons next rest ih =>
    simp only [shiftDown, List.map_cons, ih]
    rfl

theorem eraseFirst_bare (vin : CTxIn) (mns : List CMasternode) :
    (eraseFirst CMasternode.assign (fun mn => mn.vin == vin) mns).map bare =
      eraseFirst CMasternode.assign (fun mn => mn.vin == vin) (mns.map bare) := by
  induction mns with
  | nil => rfl
  | cons mn rest ih =>
    have place : (bare mn).vin = mn.vin := rfl
    simp only [eraseFirst, List.map_cons, place]
    split
    · exact shiftDown_bare mn rest
    · rw [List.map_cons, ih]

theorem ManagersAlike.remove (alike : ManagersAlike marks noted plain) (vin : CTxIn) :
    ManagersAlike marks (noted.remove vin) (plain.remove vin) := by
  constructor
  · change (eraseFirst _ _ noted.vMasternodes).map bare = (eraseFirst _ _ plain.vMasternodes).map bare
    rw [eraseFirst_bare, eraseFirst_bare, alike.entries]
  · exact alike.pings
  · exact alike.seen

theorem ManagersAlike.add (alike : ManagersAlike marks noted plain) (mn : CMasternode) :
    ManagersAlike marks (noted.add mn) (plain.add mn) := by
  have known : (noted.find mn.vin).isSome = (plain.find mn.vin).isSome := by
    rw [← Option.isSome_map, alike.find, Option.isSome_map]
  unfold CMasternodeMan.add
  rw [known]
  split
  · exact alike
  · split
    · exact alike
    · constructor
      · change (noted.vMasternodes ++ [mn]).map bare = (plain.vMasternodes ++ [mn]).map bare
        rw [List.map_append, List.map_append, alike.entries]
      · exact alike.pings
      · exact alike.seen

theorem ManagersAlike.forgetSeen (alike : ManagersAlike marks noted plain) {hash : Uint256}
    (clear : hash ∉ marks) :
    ManagersAlike marks
      { noted with mapSeenMasternodeBroadcast := noted.mapSeenMasternodeBroadcast.erase hash }
      { plain with mapSeenMasternodeBroadcast := plain.mapSeenMasternodeBroadcast.erase hash } :=
  ⟨alike.entries, alike.pings, alike.seen.erase clear⟩

end Managers

section Calls
variable {marks : List Uint256} {noted plain : CMasternodeMan} (call : MnbCall) (rules : MnbRules)

structure AnswersAlike {Answer : Type} (marks : List Uint256)
    (noted plain : Answer × CMasternodeMan) : Prop where
  answer : noted.1 = plain.1
  managers : ManagersAlike marks noted.2 plain.2

theorem withPing_blind (ping : CMasternodePing) (mn : CMasternode) :
    bare (withPing ping (bare mn)) = bare (withPing ping mn) := rfl

theorem renewed_blind (mnb : CMasternodeBroadcast) (mn : CMasternode) :
    bare (MnbCall.renewed mnb (bare mn)) = bare (MnbCall.renewed mnb mn) := rfl

section
variable (alike : ManagersAlike marks noted plain)
include alike

theorem enabledAt_alike (vin : CTxIn) : enabledAt vin noted = enabledAt vin plain := by
  have same := @ManagersAlike.asks marks noted plain Bool alike vin CMasternode.isEnabled
    fun _ => rfl
  unfold enabledAt
  rcases alike.find_cases vin with ⟨first, second⟩ | ⟨a, b, first, second, equal⟩
  · rw [first, second]
  · rw [first, second] at same ⊢
    exact Option.some.inj same

theorem pingCheckAndUpdate_alike (required : Bool) (ping : CMasternodePing) :
    AnswersAlike marks (call.pingCheckAndUpdate rules required ping noted)
      (call.pingCheckAndUpdate rules required ping plain) := by
  unfold MnbCall.pingCheckAndUpdate
  split
  · exact ⟨rfl, alike⟩
  · rcases alike.find_cases ping.vin with ⟨first, second⟩ | ⟨a, b, first, second, same⟩
    · rw [first, second]
      exact ⟨rfl, alike⟩
    · have passes : call.pingChecks required ping a = call.pingChecks required ping b :=
        reads_bare (fun _ => rfl) same
      have hash : rules.getHash a = rules.getHash b := reads_bare (fun _ => rfl) same
      have updated := ((alike.amend ping.vin (withPing_blind ping)).refreshSeen
        (rules.getHash b) ping).amend ping.vin (check_bare call.forcedCheck)
      rw [first, second]
      simp only [passes, hash, enabledAt_alike updated]
      split
      · split
        · exact ⟨rfl, updated⟩
        · exact ⟨rfl, updated⟩
      · exact ⟨rfl, alike⟩

theorem takePing_alike (mnb : CMasternodeBroadcast) :
    ManagersAlike marks (MnbCall.takePing rules mnb noted) (MnbCall.takePing rules mnb plain) := by
  have amended := alike.amend mnb.vin (withPing_blind mnb.lastPing)
  constructor
  · exact amended.entries
  · exact congrArg (fun pings => OrderedMap.insert pings _ _) amended.pings
  · exact amended.seen

theorem updateFromNewBroadcast_alike (mnb : CMasternodeBroadcast) :
    AnswersAlike marks (call.updateFromNewBroadcast rules mnb noted)
      (call.updateFromNewBroadcast rules mnb plain) := by
  have amended := alike.amend mnb.vin (renewed_blind mnb)
  unfold MnbCall.updateFromNewBroadcast
  split
  · exact ⟨rfl, takePing_alike rules amended mnb⟩
  · obtain ⟨answer, managers⟩ := pingCheckAndUpdate_alike call rules amended false mnb.lastPing
    constructor
    · simp [answer]
    · simp only [answer]
      split
      · exact takePing_alike rules managers mnb
      · exact managers

theorem updateEntry_alike (mnb : CMasternodeBroadcast) {a b : CMasternode} (same : bare a = bare b)
    :
    AnswersAlike marks (call.updateEntry rules mnb a noted) (call.updateEntry rules mnb b plain) := by
  have time : a.sigTime = b.sigTime := reads_bare (fun _ => rfl) same
  have updated := updateFromNewBroadcast_alike call rules alike mnb
  have checked := updated.managers.amend mnb.vin (check_bare call.check)
  unfold MnbCall.updateEntry
  rw [time]
  split
  · constructor
    · simp only [updated.answer, enabledAt_alike checked]
    · exact checked
  · exact ⟨rfl, alike⟩

theorem checkAndUpdate_alike (mnb : CMasternodeBroadcast) :
    AnswersAlike marks (call.checkAndUpdate rules mnb noted) (call.checkAndUpdate rules mnb plain) := by
  unfold MnbCall.checkAndUpdate
  split
  · exact ⟨rfl, alike⟩
  · rcases alike.find_cases mnb.vin with ⟨first, second⟩ | ⟨a, b, first, second, same⟩
    · rw [first, second]
      exact ⟨rfl, alike⟩
    · have time : a.sigTime = b.sigTime := reads_bare (fun _ => rfl) same
      have enabled : a.isEnabled = b.isEnabled := reads_bare (fun _ => rfl) same
      have key : a.pubKeyCollateralAddress = b.pubKeyCollateralAddress :=
        reads_bare (fun _ => rfl) same
      have recent : call.isBroadcastedWithin a MASTERNODE_MIN_MNB_SECONDS =
          call.isBroadcastedWithin b MASTERNODE_MIN_MNB_SECONDS := by
        rw [MnbCall.isBroadcastedWithin, MnbCall.isBroadcastedWithin, time]
      have updated := updateEntry_alike call rules alike mnb same
      rw [first, second]
      simp only [time, enabled, key, recent]
      split
      · exact ⟨rfl, alike⟩
      · split
        · exact ⟨rfl, alike⟩
        · split
          · exact ⟨by simp only [updated.answer], updated.managers⟩
          · exact ⟨rfl, alike⟩

end

variable {mnb : CMasternodeBroadcast}

section
variable (alike : ManagersAlike marks noted plain) (clear : rules.getHash mnb.toCMasternode ∉ marks)
include alike clear

theorem addsEntry_alike :
    AnswersAlike marks (call.addsEntry rules mnb noted) (call.addsEntry rules mnb plain) := by
  unfold MnbCall.addsEntry
  split
  · exact ⟨rfl, alike⟩
  · exact ⟨rfl, alike.forgetSeen clear⟩
  · exact ⟨rfl, alike.add (call.fromBroadcast mnb)⟩

theorem checkInputsAndAdd_alike :
    AnswersAlike marks (call.checkInputsAndAdd rules mnb noted) (call.checkInputsAndAdd rules mnb plain) := by
  unfold MnbCall.checkInputsAndAdd
  split
  · exact ⟨rfl, alike⟩
  · rcases alike.find_cases mnb.vin with ⟨first, second⟩ | ⟨a, b, first, second, same⟩
    · rw [first, second]
      exact addsEntry_alike call rules alike clear
    · have enabled : a.isEnabled = b.isEnabled := reads_bare (fun _ => rfl) same
      have vin : a.vin = b.vin := reads_bare (fun _ => rfl) same
      rw [first, second]
      simp only [enabled, vin]
      split
      · exact ⟨rfl, alike⟩
      · exact addsEntry_alike call rules (alike.remove b.vin) clear

theorem checksBroadcast_alike :
    AnswersAlike marks (call.checksBroadcast rules mnb noted)
      (call.checksBroadcast rules mnb plain) := by
  obtain ⟨answer, managers⟩ := checkAndUpdate_alike call rules alike mnb
  unfold MnbCall.checksBroadcast
  cases first : call.checkAndUpdate rules mnb noted with
  | mk said man =>
    cases second : call.checkAndUpdate rules mnb plain with
    | mk told other =>
      rw [first, second] at answer managers
      obtain rfl : said = told := answer
      obtain ⟨refusal, relayed⟩ := said
      cases refusal with
      | some nDoS => exact ⟨rfl, managers⟩
      | none =>
        dsimp only
        split
        · exact ⟨rfl, managers⟩
        · have added := checkInputsAndAdd_alike call rules managers clear
          exact ⟨by simp only [added.answer], added.managers⟩

end

theorem processMnb_alike (alike : ManagersAlike marks noted plain)
    (clear : (call.liteMode || !call.blockchainSynced) = false →
      rules.getHash mnb.toCMasternode ∉ marks) :
    AnswersAlike marks (processMnb call rules mnb noted) (processMnb call rules mnb plain) := by
  unfold processMnb
  cases gate : call.liteMode || !call.blockchainSynced with
  | true => exact ⟨rfl, alike⟩
  | false =>
    have unmarked := clear gate
    simp only [Bool.false_eq_true, if_false, alike.seen.count unmarked]
    split
    · exact ⟨rfl, alike⟩
    · apply checksBroadcast_alike call rules _ unmarked
      exact ⟨alike.entries, alike.pings, alike.seen.edit unmarked _⟩

theorem processMnb_shadowed (alike : ManagersAlike marks noted plain)
    (gate : (call.liteMode || !call.blockchainSynced) = false)
    (shadowed : rules.getHash mnb.toCMasternode ∈ marks) :
    (processMnb call rules mnb noted).1 ≠ (processMnb call rules mnb plain).1 := by
  obtain ⟨stands, lacks⟩ := alike.seen.marked _ shadowed
  have seen : (processMnb call rules mnb noted).1 = (.alreadySeen, []) := by
    simp [processMnb, gate, stands]
  have fresh : (processMnb call rules mnb plain).1.1 ≠ .alreadySeen := by
    simp only [processMnb, gate, Bool.false_eq_true, if_false, lacks]
    unfold MnbCall.checksBroadcast
    split
    · nofun
    · split
      · nofun
      · dsimp only
        split <;> nofun
  intro same
  rw [← same, seen] at fresh
  exact fresh rfl

theorem processMnb_forged (mnb : CMasternodeBroadcast) (man : CMasternodeMan)
    (forged : call.verifyMessage mnb.pubKeyCollateralAddress mnb.sig (broadcastContent mnb) =
      false) :
    (processMnb call rules mnb man).2 = man ∨
      (man.mapSeenMasternodeBroadcast.count (rules.getHash mnb.toCMasternode) = false ∧
        (processMnb call rules mnb man).2 = noteSeen rules mnb man) := by
  have refused : ∃ nDoS, call.refusal rules mnb = some nDoS := by
    unfold MnbCall.refusal
    simp only [forged, Bool.not_false, if_true]
    split_ifs <;> exact ⟨_, rfl⟩
  obtain ⟨nDoS, refusal⟩ := refused
  unfold processMnb
  split
  · exact .inl rfl
  · split
    · exact .inl rfl
    · rename_i unseen
      right
      constructor
      · exact Bool.eq_false_iff.mpr unseen
      · simp only [MnbCall.checksBroadcast, MnbCall.checkAndUpdate, refusal]

end Calls

end OxidAlikeManagers
