import Oxid.BudgetCollateral
import Mathlib.Tactic.IntervalCases

/-!
The masternode that is picked at random among those not used yet. The random number is
counted down before it is looked at, so that 0 and 1 both stand for the first of them.
-/
namespace OxidRandomMasternode
open OxidPrimitives OxidMasternode OxidMasternodeMan OxidBudgetThreshold OxidBudgetCollateral

/-- The greatest multiple of the bound that the source's draws stay below. -/
def nRange (nMax : Nat) : Nat := (2 ^ 64 - 1) / nMax * nMax

def getRand (nMax nRand : Nat) : Nat := if nMax = 0 then 0 else nRand % nMax

def asUint64 (value : Int) : Nat := (value % 2 ^ 64).toNat

def getRandInt (nMax : Int) (nRand : Nat) : Int := asInt (getRand (asUint64 nMax) nRand)

/-- A draw that ends the loop of `GetRand`. -/
def Drawn (nMax : Int) (nRand : Nat) : Prop :=
  asUint64 nMax = 0 ∨ nRand < nRange (asUint64 nMax)

section Find

variable (sporks : ProtocolSporks) (mnTier : UInt32) (vecToExclude : List CTxIn)
  (protocolVersion : Int32)

def neededProtocol : Int32 :=
  if protocolVersion = -1 then getMinMasternodePaymentsProto sporks else protocolVersion

def eligible (mn : CMasternode) : Bool :=
  !(decide (mn.protocolVersion < neededProtocol sporks protocolVersion) || !mn.isEnabled) &&
    !(mnTier != UNKNOWN && mn.mnTier != mnTier) &&
    !vecToExclude.any fun usedVin => mn.vin.prevout == usedVin.prevout

def countDown (wanted : CMasternode → Bool) (rand : Int) (place : Nat) :
    List CMasternode → Option Nat
  | [] => none
  | mn :: rest =>
    if !wanted mn then countDown wanted rand (place + 1) rest
    else if asInt (rand - 1) < 1 then some place
    else countDown wanted (asInt (rand - 1)) (place + 1) rest

def notExcluded (checked : List CMasternode) : Nat :=
  asUint64 (asInt (countEnabled sporks checked mnTier (neededProtocol sporks protocolVersion)) -
    vecToExclude.length)

/-- The bound that is handed to `GetRandInt`. -/
def randomBound (checked : List CMasternode) : Int :=
  asInt (notExcluded sporks mnTier vecToExclude protocolVersion checked)

def pickRandom (nRand : Nat) (checked : List CMasternode) : Option Nat :=
  if notExcluded sporks mnTier vecToExclude protocolVersion checked < 1 then none
  else countDown (eligible sporks mnTier vecToExclude protocolVersion)
    (getRandInt (randomBound sporks mnTier vecToExclude protocolVersion checked) nRand) 0 checked

def findRandomNotInVec (calls : Nat → CheckCall) (nRand : Nat) (man : CMasternodeMan) :
    Option Nat × CMasternodeMan :=
  let man := man.check calls
  (pickRandom sporks mnTier vecToExclude protocolVersion nRand man.vMasternodes, man)

end Find

def places (wanted : CMasternode → Bool) (place : Nat) : List CMasternode → List Nat
  | [] => []
  | mn :: rest =>
    if wanted mn then place :: places wanted (place + 1) rest
    else places wanted (place + 1) rest

def passed (rand : Int) : Nat :=
  if rand = -2 ^ 31 then 2 ^ 31 - 1 else (rand - 1).toNat

def reach (nMax : Int) : Nat := if nMax < 0 then 2 ^ 31 else (max (nMax - 1) 1).toNat

section Count

variable {wanted : CMasternode → Bool}

theorem mem_places {place spot : Nat} {mns : List CMasternode} :
    spot ∈ places wanted place mns ↔
      ∃ i mn, mns[i]? = some mn ∧ wanted mn = true ∧ spot = place + i := by
  induction mns generalizing place with
  | nil => simp [places]
  | cons first rest ih =>
    have later : (∃ i mn, rest[i]? = some mn ∧ wanted mn = true ∧ spot = place + 1 + i) ↔
        ∃ i mn, (first :: rest)[i + 1]? = some mn ∧ wanted mn = true ∧
          spot = place + (i + 1) := by
      constructor
      · rintro ⟨i, mn, at_i, good, rfl⟩
        exact ⟨i, mn, at_i, good, by omega⟩
      · rintro ⟨i, mn, at_i, good, rfl⟩
        exact ⟨i, mn, at_i, good, by omega⟩
    unfold places
    split_ifs with good
    · rw [List.mem_cons, ih, later]
      constructor
      · rintro (rfl | ⟨i, mn, found⟩)
        · exact ⟨0, first, rfl, good, rfl⟩
        · exact ⟨i + 1, mn, found⟩
      · rintro ⟨i, mn, found⟩
        cases i with
        | zero => exact Or.inl found.2.2
        | succ i => exact Or.inr ⟨i, mn, found⟩
    · rw [ih, later]
      constructor
      · rintro ⟨i, mn, found⟩
        exact ⟨i + 1, mn, found⟩
      · rintro ⟨i, mn, found⟩
        cases i with
        | zero =>
          cases found.1
          exact absurd found.2.1 good
        | succ i => exact ⟨i, mn, found⟩

theorem places_length (place : Nat) (mns : List CMasternode) :
    (places wanted place mns).length = mns.countP wanted := by
  induction mns generalizing place with
  | nil => rfl
  | cons mn rest ih =>
    unfold places
    split_ifs with good
    · rw [List.length_cons, ih, List.countP_cons_of_pos good]
    · rw [ih, List.countP_cons_of_neg good]

theorem places_ascending (place : Nat) (mns : List CMasternode) :
    (places wanted place mns).Pairwise (· < ·) := by
  induction mns generalizing place with
  | nil => exact List.Pairwise.nil
  | cons mn rest ih =>
    unfold places
    split_ifs
    · refine List.Pairwise.cons ?_ (ih (place + 1))
      intro later member
      obtain ⟨i, _, _, _, rfl⟩ := mem_places.mp member
      omega
    · exact ih (place + 1)

theorem passed_step {rand : Int} (low : -2 ^ 31 ≤ rand) (high : rand < 2 ^ 31) :
    if asInt (rand - 1) < 1 then passed rand = 0
    else passed rand = passed (asInt (rand - 1)) + 1 := by
  by_cases least : rand = -2 ^ 31
  · subst least
    decide
  · have fits : asInt (rand - 1) = rand - 1 := asInt_fits (by omega) (by omega)
    unfold passed
    split_ifs
    · omega
    · omega
    · omega

theorem countDown_places {rand : Int} (place : Nat) (mns : List CMasternode)
    (low : -2 ^ 31 ≤ rand) (high : rand < 2 ^ 31) :
    countDown wanted rand place mns = (places wanted place mns)[passed rand]? := by
  induction mns generalizing rand place with
  | nil => rfl
  | cons mn rest ih =>
    unfold countDown places
    by_cases good : wanted mn = true
    · have step := passed_step low high
      have range := asInt_range (rand - 1)
      rw [if_neg (by simp [good]), if_pos good]
      by_cases out : asInt (rand - 1) < 1
      · rw [if_pos out] at step ⊢
        rw [step]
        rfl
      · rw [if_neg out] at step ⊢
        rw [step, List.getElem?_cons_succ, ih (place + 1) range.1 range.2]
    · rw [if_pos (by simp [good]), if_neg good, ih (place + 1) low high]

end Count

section Draws

theorem nRange_covers {nMax : Nat} (some : 0 < nMax) (fits : nMax < 2 ^ 64) :
    nMax ≤ nRange nMax := by
  have once : 1 ≤ (2 ^ 64 - 1) / nMax := (Nat.le_div_iff_mul_le some).mpr (by omega)
  calc nMax = 1 * nMax := (Nat.one_mul nMax).symm
    _ ≤ (2 ^ 64 - 1) / nMax * nMax := Nat.mul_le_mul_right nMax once

theorem getRandInt_range (nMax : Int) (nRand : Nat) :
    -2 ^ 31 ≤ getRandInt nMax nRand ∧ getRandInt nMax nRand < 2 ^ 31 :=
  asInt_range _

theorem drawn_iff {nMax rand : Int} (low : -2 ^ 31 ≤ nMax) (high : nMax < 2 ^ 31) :
    (∃ nRand, Drawn nMax nRand ∧ getRandInt nMax nRand = rand) ↔
      if nMax < 0 then -2 ^ 31 ≤ rand ∧ rand < 2 ^ 31 else 0 ≤ rand ∧ rand < max nMax 1 := by
  unfold Drawn getRandInt getRand
  by_cases negative : nMax < 0
  · rw [if_pos negative]
    have wide : asUint64 nMax = (2 ^ 64 + nMax).toNat := by
      unfold asUint64
      omega
    have big : 0 < asUint64 nMax := by omega
    constructor
    · rintro ⟨nRand, _, rfl⟩
      exact asInt_range _
    · rintro ⟨least, most⟩
      refine ⟨(rand % 2 ^ 32).toNat, Or.inr ?_, ?_⟩
      · exact lt_of_lt_of_le (by omega) (nRange_covers big (by omega))
      · rw [if_neg big.ne', Nat.mod_eq_of_lt (by omega), Int.toNat_of_nonneg (by omega)]
        unfold asInt
        rw [show (2 : Int) ^ 32 = ((2 ^ 32 : Nat) : Int) from rfl, Int.emod_bmod]
        exact asInt_fits least most
  · rw [if_neg negative]
    have narrow : asUint64 nMax = nMax.toNat := by
      unfold asUint64
      omega
    rw [narrow]
    by_cases none : nMax.toNat = 0
    · have zero : asInt ((0 : Nat) : Int) = 0 := by decide
      rw [none]
      constructor
      · rintro ⟨nRand, _, rfl⟩
        rw [if_pos rfl, zero]
        omega
      · rintro ⟨least, most⟩
        refine ⟨0, Or.inl rfl, ?_⟩
        rw [if_pos rfl, zero]
        omega
    · simp only [if_neg none]
      have some : 0 < nMax.toNat := Nat.pos_of_ne_zero none
      constructor
      · rintro ⟨nRand, _, rfl⟩
        have below := Nat.mod_lt nRand some
        rw [asInt_fits (by omega) (by omega)]
        omega
      · rintro ⟨least, most⟩
        refine ⟨rand.toNat, Or.inr ?_, ?_⟩
        · exact lt_of_lt_of_le (by omega) (nRange_covers some (by omega))
        · rw [Nat.mod_eq_of_lt (by omega), asInt_fits (by omega) (by omega)]
          omega

theorem passed_iff {nMax : Int} {count : Nat} (low : -2 ^ 31 ≤ nMax) (high : nMax < 2 ^ 31) :
    (∃ nRand, Drawn nMax nRand ∧ passed (getRandInt nMax nRand) = count) ↔
      count < reach nMax := by
  have numbers : (∃ nRand, Drawn nMax nRand ∧ passed (getRandInt nMax nRand) = count) ↔
      ∃ rand, (∃ nRand, Drawn nMax nRand ∧ getRandInt nMax nRand = rand) ∧
        passed rand = count := by
    constructor
    · rintro ⟨nRand, drawn, counted⟩
      exact ⟨_, ⟨nRand, drawn, rfl⟩, counted⟩
    · rintro ⟨rand, ⟨nRand, drawn, rfl⟩, counted⟩
      exact ⟨nRand, drawn, counted⟩
  rw [numbers]
  simp only [drawn_iff low high]
  unfold reach passed
  split_ifs with negative
  · constructor
    · rintro ⟨rand, range, counted⟩
      split_ifs at counted
      · omega
      · omega
    · intro short
      by_cases last : count = 2 ^ 31 - 1
      · exact ⟨-2 ^ 31, by omega, by rw [if_pos rfl, last]⟩
      · exact ⟨count + 1, by omega, by rw [if_neg (by omega)]; omega⟩
  · constructor
    · rintro ⟨rand, range, counted⟩
      rw [if_neg (by omega)] at counted
      omega
    · intro short
      by_cases first : count = 0
      · exact ⟨0, by omega, by rw [first]; rfl⟩
      · exact ⟨count + 1, by omega, by rw [if_neg (by omega)]; omega⟩

end Draws

section Finds

variable (sporks : ProtocolSporks) (mnTier : UInt32) (vecToExclude : List CTxIn)
  (protocolVersion : Int32)

def EligibleAt (mns : List CMasternode) (place : Nat) : Prop :=
  ∃ mn, mns[place]? = some mn ∧ eligible sporks mnTier vecToExclude protocolVersion mn = true

/-- A search of the list that finds an eligible one whenever there is one, and may find any.
    The draws are those that `GetRandInt` can end with, and a masternode is known by its
    place. -/
structure FindsAny (checked : List CMasternode) (search : Nat → Option Nat) : Prop where
  finds : (∃ place, EligibleAt sporks mnTier vecToExclude protocolVersion checked place) →
    ∀ nRand, Drawn (randomBound sporks mnTier vecToExclude protocolVersion checked) nRand →
      ∃ place, search nRand = some place ∧
        EligibleAt sporks mnTier vecToExclude protocolVersion checked place
  misses : (¬ ∃ place, EligibleAt sporks mnTier vecToExclude protocolVersion checked place) →
    ∀ nRand, search nRand = none
  reaches : ∀ place, EligibleAt sporks mnTier vecToExclude protocolVersion checked place →
    ∃ nRand, Drawn (randomBound sporks mnTier vecToExclude protocolVersion checked) nRand ∧
      search nRand = some place

def eligibleCount (checked : List CMasternode) : Nat :=
  checked.countP (eligible sporks mnTier vecToExclude protocolVersion)

variable {sporks mnTier vecToExclude protocolVersion} {checked : List CMasternode}

theorem eligibleAt_iff {place : Nat} :
    EligibleAt sporks mnTier vecToExclude protocolVersion checked place ↔
      place ∈ places (eligible sporks mnTier vecToExclude protocolVersion) 0 checked := by
  rw [mem_places]
  constructor
  · rintro ⟨mn, here, good⟩
    exact ⟨place, mn, here, good, (Nat.zero_add place).symm⟩
  · rintro ⟨i, mn, here, good, rfl⟩
    rw [Nat.zero_add]
    exact ⟨mn, here, good⟩

theorem pickRandom_places (nRand : Nat)
    (left : notExcluded sporks mnTier vecToExclude protocolVersion checked ≠ 0) :
    pickRandom sporks mnTier vecToExclude protocolVersion nRand checked =
      (places (eligible sporks mnTier vecToExclude protocolVersion) 0 checked)[passed
        (getRandInt (randomBound sporks mnTier vecToExclude protocolVersion checked) nRand)]? := by
  have range := getRandInt_range
    (randomBound sporks mnTier vecToExclude protocolVersion checked) nRand
  rw [← countDown_places 0 checked range.1 range.2]
  unfold pickRandom
  rw [if_neg (by omega)]

theorem places_eligible :
    (places (eligible sporks mnTier vecToExclude protocolVersion) 0 checked).length =
      eligibleCount sporks mnTier vecToExclude protocolVersion checked :=
  places_length 0 checked

theorem randomBound_range : -2 ^ 31 ≤ randomBound sporks mnTier vecToExclude protocolVersion
    checked ∧ randomBound sporks mnTier vecToExclude protocolVersion checked < 2 ^ 31 :=
  asInt_range _

theorem pickRandom_none (nRand : Nat)
    (none : eligibleCount sporks mnTier vecToExclude protocolVersion checked = 0) :
    pickRandom sporks mnTier vecToExclude protocolVersion nRand checked = .none := by
  by_cases left : notExcluded sporks mnTier vecToExclude protocolVersion checked = 0
  · unfold pickRandom
    rw [if_pos (by omega)]
  · rw [pickRandom_places nRand left, List.getElem?_eq_none]
    rw [places_eligible, none]
    exact Nat.zero_le _

theorem eligibleCount_pos :
    (∃ place, EligibleAt sporks mnTier vecToExclude protocolVersion checked place) ↔
      0 < eligibleCount sporks mnTier vecToExclude protocolVersion checked := by
  simp only [eligibleAt_iff]
  rw [← places_eligible, List.length_pos_iff_exists_mem]

variable (sporks mnTier vecToExclude protocolVersion checked)

/-- No masternode is eligible; or there is a difference of the counts, and as many are eligible
    as the numbers drawn below it stop at. -/
def DrawsFit : Prop :=
  eligibleCount sporks mnTier vecToExclude protocolVersion checked = 0 ∨
    notExcluded sporks mnTier vecToExclude protocolVersion checked ≠ 0 ∧
      eligibleCount sporks mnTier vecToExclude protocolVersion checked =
        reach (randomBound sporks mnTier vecToExclude protocolVersion checked)

variable {sporks mnTier vecToExclude protocolVersion checked}

theorem reach_pos (nMax : Int) : 0 < reach nMax := by
  unfold reach
  split_ifs
  · exact Nat.two_pow_pos 31
  · omega

theorem drawsFit_of_finds (search : FindsAny sporks mnTier vecToExclude protocolVersion checked
      fun nRand => pickRandom sporks mnTier vecToExclude protocolVersion nRand checked)
    (some : 0 < eligibleCount sporks mnTier vecToExclude protocolVersion checked) :
    notExcluded sporks mnTier vecToExclude protocolVersion checked ≠ 0 ∧
      eligibleCount sporks mnTier vecToExclude protocolVersion checked =
        reach (randomBound sporks mnTier vecToExclude protocolVersion checked) := by
  have range : -2 ^ 31 ≤ randomBound sporks mnTier vecToExclude protocolVersion checked ∧
      randomBound sporks mnTier vecToExclude protocolVersion checked < 2 ^ 31 :=
    randomBound_range
  have draws := fun count => @passed_iff _ count range.1 range.2
  have found := search.finds (eligibleCount_pos.mpr some)
  have left : notExcluded sporks mnTier vecToExclude protocolVersion checked ≠ 0 := by
    intro equal
    obtain ⟨nRand, drawn, _⟩ := (draws 0).mpr (reach_pos _)
    obtain ⟨place, picked, _⟩ := found nRand drawn
    unfold pickRandom at picked
    rw [if_pos (by omega)] at picked
    cases picked
  refine ⟨left, Nat.le_antisymm ?_ ?_⟩
  · -- the last eligible one is stopped at
    have last : eligibleCount sporks mnTier vecToExclude protocolVersion checked - 1 <
        (places (eligible sporks mnTier vecToExclude protocolVersion) 0 checked).length := by
      rw [places_eligible]
      omega
    obtain ⟨nRand, drawn, picked⟩ := search.reaches _
      (eligibleAt_iff.mpr (List.getElem_mem last))
    rw [pickRandom_places nRand left, List.getElem?_eq_some_iff] at picked
    obtain ⟨bound, same⟩ := picked
    have counted := (List.Nodup.getElem_inj_iff
      ((places_ascending 0 checked).imp Nat.ne_of_lt)).mp same
    have short := (draws _).mp ⟨nRand, drawn, rfl⟩
    omega
  · have positive := reach_pos (randomBound sporks mnTier vecToExclude protocolVersion checked)
    obtain ⟨nRand, drawn, counted⟩ := (draws (reach (randomBound sporks mnTier vecToExclude
      protocolVersion checked) - 1)).mpr (by omega)
    obtain ⟨place, picked, _⟩ := found nRand drawn
    rw [pickRandom_places nRand left, counted, List.getElem?_eq_some_iff] at picked
    obtain ⟨bound, _⟩ := picked
    rw [places_eligible] at bound
    omega

theorem finds_of_drawsFit
    (fit : DrawsFit sporks mnTier vecToExclude protocolVersion checked) :
    FindsAny sporks mnTier vecToExclude protocolVersion checked
      fun nRand => pickRandom sporks mnTier vecToExclude protocolVersion nRand checked := by
  have range : -2 ^ 31 ≤ randomBound sporks mnTier vecToExclude protocolVersion checked ∧
      randomBound sporks mnTier vecToExclude protocolVersion checked < 2 ^ 31 :=
    randomBound_range
  have draws := fun count => @passed_iff _ count range.1 range.2
  refine ⟨?finds, ?misses, ?reaches⟩
  case finds =>
    intro exist nRand drawn
    have some := eligibleCount_pos.mp exist
    rcases fit with none | ⟨left, equal⟩
    · omega
    · have short := (draws _).mp ⟨nRand, drawn, rfl⟩
      rw [← equal, ← places_eligible] at short
      rw [pickRandom_places nRand left, List.getElem?_eq_getElem short]
      exact ⟨_, rfl, eligibleAt_iff.mpr (List.getElem_mem short)⟩
  case misses =>
    intro lacking nRand
    rw [eligibleCount_pos] at lacking
    exact pickRandom_none nRand (by omega)
  case reaches =>
    intro place here
    have some := eligibleCount_pos.mp ⟨place, here⟩
    rcases fit with none | ⟨left, equal⟩
    · omega
    · obtain ⟨count, bound, rfl⟩ := List.getElem_of_mem (eligibleAt_iff.mp here)
      have short := bound
      rw [places_eligible, equal] at short
      obtain ⟨nRand, drawn, counted⟩ := (draws count).mpr short
      refine ⟨nRand, drawn, ?_⟩
      rw [pickRandom_places nRand left, counted, List.getElem?_eq_getElem bound]

theorem findRandomNotInVec_pick (calls : Nat → CheckCall) (nRand : Nat) (man : CMasternodeMan) :
    (findRandomNotInVec sporks mnTier vecToExclude protocolVersion calls nRand man).1 =
      pickRandom sporks mnTier vecToExclude protocolVersion nRand
        (man.check calls).vMasternodes := by
  unfold findRandomNotInVec
  dsimp only

end Finds

theorem finds_any_iff (sporks : ProtocolSporks) (mnTier : UInt32) (vecToExclude : List CTxIn)
    (protocolVersion : Int32) (calls : Nat → CheckCall) (man : CMasternodeMan) :
    FindsAny sporks mnTier vecToExclude protocolVersion (man.check calls).vMasternodes
        (fun nRand => (findRandomNotInVec sporks mnTier vecToExclude protocolVersion calls nRand
          man).1) ↔
      DrawsFit sporks mnTier vecToExclude protocolVersion (man.check calls).vMasternodes := by
  simp only [findRandomNotInVec_pick]
  constructor
  · intro search
    rcases Nat.eq_zero_or_pos (eligibleCount sporks mnTier vecToExclude protocolVersion
      (man.check calls).vMasternodes) with none | some
    · exact Or.inl none
    · exact Or.inr (drawsFit_of_finds search some)
  · exact finds_of_drawsFit

section Samples

def sampleAddr (place : Nat) : CService := ⟨⟨BitVec.ofNat 128 place⟩, 9999⟩

def sampleMasternode (place : Nat) : CMasternode :=
  { CMasternode.fresh 0 with
    vin := ⟨⟨BitVec.ofNat 256 place, 0⟩, [], 0xffffffff⟩
    addr := sampleAddr place }

def threeMasternodes : CMasternodeMan :=
  ⟨[sampleMasternode 1, sampleMasternode 2, sampleMasternode 3], ∅, ∅, ∅, 0, ∅, ∅⟩

def idleCall : CheckCall := ⟨false, false, 0, 0, fun _ => none, [], true, fun _ => true⟩

theorem third_never_found :
    ¬ FindsAny ⟨true, true⟩ UNKNOWN [] (-1) (threeMasternodes.check fun _ => idleCall).vMasternodes
        fun nRand => (findRandomNotInVec ⟨true, true⟩ UNKNOWN [] (-1) (fun _ => idleCall) nRand
          threeMasternodes).1 := by
  intro search
  simp only [findRandomNotInVec_pick] at search
  have listed : places (eligible ⟨true, true⟩ UNKNOWN [] (-1)) 0
      (threeMasternodes.check fun _ => idleCall).vMasternodes = [0, 1, 2] := by
    decide +kernel
  have bound : randomBound ⟨true, true⟩ UNKNOWN [] (-1)
      (threeMasternodes.check fun _ => idleCall).vMasternodes = 3 := by
    decide +kernel
  have left : notExcluded ⟨true, true⟩ UNKNOWN [] (-1)
      (threeMasternodes.check fun _ => idleCall).vMasternodes ≠ 0 := by
    decide +kernel
  obtain ⟨nRand, drawn, picked⟩ := search.reaches 2 (eligibleAt_iff.mpr (by rw [listed]; simp))
  rw [pickRandom_places nRand left, listed, bound] at picked
  rw [bound] at drawn
  have short := (@passed_iff 3 _ (by decide) (by decide)).mp ⟨nRand, drawn, rfl⟩
  have two : reach 3 = 2 := by decide
  rw [two] at short
  generalize passed (getRandInt 3 nRand) = count at picked short
  interval_cases count
  · cases picked
  · cases picked

end Samples

end OxidRandomMasternode
