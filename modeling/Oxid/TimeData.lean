import Mathlib.Data.List.DropRight
import Oxid.Library.OrderStatistic
import Oxid.Masternode

/-!
The time that peers tell. The median of the filter becomes the offset of the node's clock,
where it is not too large. The absolute value is taken in 64 bits, where the least number
has none.
-/
namespace OxidTimeData
open OxidMasternode OrderStatistic

section Filter

/-- The filter, apart from the median, for values of any ordered type. -/
structure CMedianFilter (T : Type) where
  vValues : List T
  vSorted : List T
  nSize : Nat

variable {T : Type} [LinearOrder T]

def CMedianFilter.init (size : Nat) (initial_value : T) : CMedianFilter T :=
  ⟨[initial_value], [initial_value], size⟩

def CMedianFilter.input (filter : CMedianFilter T) (value : T) : CMedianFilter T :=
  let vValues := if filter.vValues.length = filter.nSize then filter.vValues.tail else filter.vValues
  let vValues := vValues ++ [value]
  ⟨vValues, vValues.insertionSort (· ≤ ·), filter.nSize⟩

def CMedianFilter.size (filter : CMedianFilter T) : Nat := filter.vValues.length

def CMedianFilter.inputs (filter : CMedianFilter T) (values : List T) : CMedianFilter T :=
  values.foldl CMedianFilter.input filter

end Filter

def minInt64 : Int := -2 ^ 63
def maxInt64 : Int := 2 ^ 63 - 1

def toInt64 (n : Int) : Int := n.bmod (2 ^ 64)

def abs64 (n : Int) : Int := if 0 ≤ n then n else toInt64 (-n)

/-- The median of the filter. It asserts that there are values. -/
def CMedianFilter.median (filter : CMedianFilter Int) : Option Int :=
  let size := filter.vSorted.length
  if size % 2 = 1 then filter.vSorted[size / 2]?
  else do
    let lower ← filter.vSorted[size / 2 - 1]?
    let upper ← filter.vSorted[size / 2]?
    some ((toInt64 (lower + upper)).tdiv 2)

/-- The globals and the static variables of `AddTimeData`. -/
structure TimeData where
  nTimeOffset : Int
  setKnown : List CNetAddr
  vTimeOffsets : CMedianFilter Int
  fDone : Bool
  strMiscWarning : String

def TimeData.init : TimeData := ⟨0, [], .init 200 0, false, ""⟩

/-- A peer's address and time, and the clock when they come in. -/
structure Sample where
  ip : CNetAddr
  nTime : Int
  now : Int

def dateWarning : String :=
  "Warning: Please check that your computer's date and time are correct! If your clock is wrong Oxid will not work properly."

def tooFar (data : TimeData) : TimeData :=
  let data := { data with nTimeOffset := 0 }
  if data.fDone then data
  else if data.vTimeOffsets.vSorted.any fun nOffset =>
      nOffset != 0 && decide (abs64 nOffset < 5 * 60) then data
  else { data with fDone := true, strMiscWarning := dateWarning }

def consulted (filter : CMedianFilter Int) : Bool :=
  decide (5 ≤ filter.size) && filter.size % 2 == 1

def TimeData.record (data : TimeData) (sample : Sample) : TimeData :=
  { data with
    setKnown := sample.ip :: data.setKnown
    vTimeOffsets := data.vTimeOffsets.input (toInt64 (sample.nTime - sample.now)) }

def TimeData.adjust (data : TimeData) (nMedian : Int) : TimeData :=
  if abs64 nMedian < 70 * 60 then { data with nTimeOffset := nMedian } else tooFar data

def addTimeData (data : TimeData) (sample : Sample) : Option TimeData :=
  if sample.ip ∈ data.setKnown then some data
  else
    let data := data.record sample
    if consulted data.vTimeOffsets then data.vTimeOffsets.median.map data.adjust else some data

def addAll : List Sample → TimeData → Option TimeData
  | [], data => some data
  | sample :: later, data => (addTimeData data sample).bind (addAll later)

def recorded (known : List CNetAddr) : List Sample → List Int
  | [] => []
  | sample :: later =>
    if sample.ip ∈ known then recorded known later
    else toInt64 (sample.nTime - sample.now) :: recorded (sample.ip :: known) later

section Window

variable {T : Type} [LinearOrder T]

structure Windowed (filter : CMedianFilter T) (history : List T) : Prop where
  values : filter.vValues = history.rtake filter.nSize
  sorted : filter.vSorted = filter.vValues.insertionSort (· ≤ ·)

theorem Windowed.init {size : Nat} (positive : 0 < size) (initial : T) :
    Windowed (.init size initial) [initial] := by
  constructor
  · simp [CMedianFilter.init, List.rtake, show 1 - size = 0 by omega]
  · rfl

variable {filter : CMedianFilter T} {history : List T}

theorem Windowed.input (windowed : Windowed filter history) (positive : 0 < filter.nSize)
    (value : T) :
    Windowed (filter.input value) (history ++ [value]) := by
  constructor
  · obtain ⟨room, size⟩ := Nat.exists_eq_add_one_of_ne_zero (Nat.pos_iff_ne_zero.mp positive)
    have values := windowed.values
    show (if filter.vValues.length = filter.nSize then filter.vValues.tail
      else filter.vValues) ++ [value] = (history ++ [value]).rtake filter.nSize
    rw [size, List.rtake_concat_succ]
    congr 1
    rw [values, size]
    unfold List.rtake
    split
    · rename_i full
      simp only [List.length_drop] at full
      rw [List.tail_drop]
      congr 1
      omega
    · rename_i other
      simp only [List.length_drop] at other
      congr 1
      omega
  · rfl

theorem Windowed.inputs (windowed : Windowed filter history) (positive : 0 < filter.nSize)
    (values : List T) :
    Windowed (filter.inputs values) (history ++ values) := by
  induction values generalizing filter history with
  | nil => simpa [CMedianFilter.inputs] using windowed
  | cons value later ih =>
    have step := ih (windowed.input positive value) positive
    simpa [CMedianFilter.inputs] using step

theorem inputs_filled (filter : CMedianFilter T) (values : List T) (filled : filter.vValues ≠ []) :
    (filter.inputs values).vValues ≠ [] := by
  induction values generalizing filter with
  | nil => exact filled
  | cons value later ih => exact ih (filter.input value) (by simp [CMedianFilter.input])

theorem filter_newest_iff (size : Nat) (initial : T) (values : List T) :
    ((CMedianFilter.init size initial).inputs values).vValues =
      (initial :: values).rtake size ↔ 0 < size := by
  constructor
  · intro newest
    by_contra none'
    have zero : size = 0 := by omega
    have filled := inputs_filled (.init size initial) values (by simp [CMedianFilter.init])
    rw [newest, zero, List.rtake_zero] at filled
    exact filled rfl
  · intro positive
    have kept : ((CMedianFilter.init size initial).inputs values).nSize = size := by
      induction values using List.reverseRecOn with
      | nil => rfl
      | append_singleton values value ih =>
        simpa [CMedianFilter.inputs, CMedianFilter.input] using ih
    have windowed := (Windowed.init positive initial).inputs positive values
    rw [windowed.values, kept]
    rfl

end Window

section Steps

variable {data : TimeData} {sample : Sample} {history : List Int}

def filterUsed (data : TimeData) (sample : Sample) : Option (CMedianFilter Int) :=
  if sample.ip ∈ data.setKnown then none
  else if consulted (data.record sample).vTimeOffsets then some (data.record sample).vTimeOffsets
  else none

def absArguments (data : TimeData) (sample : Sample) : List Int :=
  match filterUsed data sample with
  | none => []
  | some filter =>
    match filter.median with
    | none => []
    | some nMedian => nMedian ::
      if abs64 nMedian < 70 * 60 || data.fDone then [] else filter.vSorted.filter (· != 0)

/-- What is asked of a step: a small offset, the true median of what the filter has, and
    differences and absolute values that do not wrap. -/
structure StepRight (data : TimeData) (sample : Sample) : Prop where
  offset : ∃ after, addTimeData data sample = some after ∧ |after.nTimeOffset| < 70 * 60
  median : ∀ filter, filterUsed data sample = some filter →
    ∃ nMedian, filter.median = some nMedian ∧ IsMedian nMedian filter.vValues
  difference : toInt64 (sample.nTime - sample.now) = sample.nTime - sample.now
  absolute : ∀ n ∈ absArguments data sample, abs64 n = |n|

def newest (data : TimeData) (sample : Sample) : List Int :=
  (data.vTimeOffsets.vValues ++ [sample.nTime - sample.now]).rtake 200

/-- A difference of 64 bits; and where the samples of distinct peers become an odd number from
    five on, the least number is not their median, nor one of them while they are far off and
    no warning has been given. -/
def Measured (data : TimeData) (sample : Sample) : Prop :=
  (minInt64 ≤ sample.nTime - sample.now ∧ sample.nTime - sample.now ≤ maxInt64) ∧
    (sample.ip ∉ data.setKnown → 5 ≤ (newest data sample).length →
      (newest data sample).length % 2 = 1 → ∀ value, median (newest data sample) = some value →
        value ≠ minInt64 ∧
          (70 * 60 ≤ |value| → data.fDone = false → minInt64 ∉ newest data sample))

structure Kept (data : TimeData) (history : List Int) : Prop where
  windowed : Windowed data.vTimeOffsets history
  size : data.vTimeOffsets.nSize = 200
  range : ∀ value ∈ history, minInt64 ≤ value ∧ value ≤ maxInt64

theorem toInt64_range (n : Int) : minInt64 ≤ toInt64 n ∧ toInt64 n ≤ maxInt64 := by
  have lower := @Int.le_bmod n (2 ^ 64) (by decide)
  have upper := @Int.bmod_lt n (2 ^ 64) (by decide)
  unfold minInt64 maxInt64 toInt64
  omega

theorem toInt64_eq_iff (n : Int) : toInt64 n = n ↔ minInt64 ≤ n ∧ n ≤ maxInt64 := by
  constructor
  · intro same
    rw [← same]
    exact toInt64_range n
  · rintro ⟨least, most⟩
    unfold minInt64 at least
    unfold maxInt64 at most
    exact Int.bmod_eq_of_le (by omega) (by omega)

theorem abs64_eq_iff {n : Int} (least : minInt64 ≤ n) (most : n ≤ maxInt64) :
    abs64 n = |n| ↔ n ≠ minInt64 := by
  constructor
  · rintro same rfl
    exact absurd same (by decide)
  · intro other
    unfold abs64
    split
    · rename_i positive
      exact (abs_of_nonneg positive).symm
    · rename_i negative
      rw [abs_of_neg (by omega), toInt64_eq_iff]
      unfold minInt64 maxInt64 at *
      omega

variable {filter : CMedianFilter Int}

theorem median_sorted {history : List Int} (windowed : Windowed filter history)
    (odd : filter.size % 2 = 1) :
    filter.median = median filter.vValues := by
  have length : filter.vSorted.length = filter.size := by
    rw [windowed.sorted, List.length_insertionSort]
    rfl
  unfold CMedianFilter.median
  rw [length, if_pos odd, windowed.sorted]
  rfl

theorem Kept.init : Kept TimeData.init [0] where
  windowed := Windowed.init (by decide) 0
  size := rfl
  range := by
    intro value member
    rw [List.mem_singleton.mp member]
    decide

theorem Kept.record (kept : Kept data history) (sample : Sample) : Kept (data.record sample)
    (history ++ [toInt64 (sample.nTime - sample.now)]) where
  windowed := kept.windowed.input (by rw [kept.size]; decide) _
  size := kept.size
  range := by
    intro value member
    rcases List.mem_append.mp member with old | new
    · exact kept.range value old
    · rw [List.mem_singleton.mp new]
      exact toInt64_range _

@[simp] theorem tooFar_kept (data : TimeData) : (tooFar data).vTimeOffsets = data.vTimeOffsets ∧
    (tooFar data).setKnown = data.setKnown ∧ (tooFar data).nTimeOffset = 0 := by
  unfold tooFar
  dsimp only
  split_ifs <;> exact ⟨rfl, rfl, rfl⟩

theorem adjust_kept (data : TimeData) (nMedian : Int) :
    (data.adjust nMedian).vTimeOffsets = data.vTimeOffsets ∧
      (data.adjust nMedian).setKnown = data.setKnown := by
  unfold TimeData.adjust
  split <;> simp

theorem adjust_nTimeOffset (data : TimeData) (nMedian : Int) :
    (data.adjust nMedian).nTimeOffset = if abs64 nMedian < 70 * 60 then nMedian else 0 := by
  unfold TimeData.adjust
  split <;> simp

theorem filterUsed_some (used : filterUsed data sample = some filter) : sample.ip ∉ data.setKnown ∧
      consulted filter = true ∧ filter = (data.record sample).vTimeOffsets := by
  unfold filterUsed at used
  split_ifs at used with known looked
  have same := Option.some.inj used
  exact ⟨known, same ▸ looked, same.symm⟩

theorem filterUsed_median (kept : Kept data history) (used : filterUsed data sample = some filter) :
    ∃ nMedian, filter.median = some nMedian ∧ median filter.vValues = some nMedian := by
  obtain ⟨_, looked, rfl⟩ := filterUsed_some used
  simp only [consulted, Bool.and_eq_true, decide_eq_true_eq, beq_iff_eq] at looked
  obtain ⟨many, odd⟩ := looked
  have size : (data.record sample).vTimeOffsets.size =
      (data.record sample).vTimeOffsets.vValues.length := rfl
  obtain ⟨nMedian, found⟩ := @nth_exists _ _ (data.record sample).vTimeOffsets.vValues
    ((data.record sample).vTimeOffsets.vValues.length / 2) (by omega)
  exact ⟨nMedian, (median_sorted (kept.record sample).windowed odd).trans found, found⟩

theorem addTimeData_ends (kept : Kept data history) (sample : Sample) :
    (sample.ip ∈ data.setKnown ∧ filterUsed data sample = none ∧
        addTimeData data sample = some data) ∨
      sample.ip ∉ data.setKnown ∧
        (filterUsed data sample = none ∧ addTimeData data sample = some (data.record sample) ∨
          ∃ nMedian, filterUsed data sample = some (data.record sample).vTimeOffsets ∧
            (data.record sample).vTimeOffsets.median = some nMedian ∧
            addTimeData data sample = some ((data.record sample).adjust nMedian)) := by
  by_cases known : sample.ip ∈ data.setKnown
  · left
    simp [known, filterUsed, addTimeData]
  · right
    refine ⟨known, ?_⟩
    cases looked : consulted (data.record sample).vTimeOffsets with
    | false =>
      left
      simp [known, filterUsed, addTimeData, looked]
    | true =>
      right
      have used : filterUsed data sample = some (data.record sample).vTimeOffsets := by
        simp [known, filterUsed, looked]
      obtain ⟨nMedian, found, _⟩ := filterUsed_median kept used
      exact ⟨nMedian, used, found, by simp [known, addTimeData, looked, found]⟩

theorem addTimeData_kept (kept : Kept data history) (sample : Sample) :
    ∃ after, addTimeData data sample = some after ∧
      Kept after (history ++ recorded data.setKnown [sample]) ∧
      after.setKnown =
        if sample.ip ∈ data.setKnown then data.setKnown else sample.ip :: data.setKnown := by
  rcases addTimeData_ends kept sample with
    ⟨known, _, done⟩ | ⟨known, ⟨_, done⟩ | ⟨nMedian, _, _, done⟩⟩
  · exact ⟨data, done, by simpa [recorded, known] using kept, by simp [known]⟩
  · exact ⟨_, done, by simpa [recorded, known] using kept.record sample,
      by simp [known, TimeData.record]⟩
  · obtain ⟨filter, addresses⟩ := adjust_kept (data.record sample) nMedian
    have grown := kept.record sample
    refine ⟨_, done, ?_, by rw [addresses, if_neg known]; rfl⟩
    simp only [recorded, known, if_false]
    exact ⟨by rw [filter]; exact grown.windowed, by rw [filter]; exact grown.size, grown.range⟩

theorem rtake_append (history : List Int) (value : Int) (room : Nat) :
    (history.rtake (room + 1) ++ [value]).rtake (room + 1) =
      (history ++ [value]).rtake (room + 1) := by
  rw [List.rtake_concat_succ, List.rtake_concat_succ]
  congr 1
  unfold List.rtake
  rw [List.drop_drop, List.length_drop]
  congr 1
  omega

theorem record_newest (kept : Kept data history)
    (difference : toInt64 (sample.nTime - sample.now) = sample.nTime - sample.now) :
    (data.record sample).vTimeOffsets.vValues = newest data sample := by
  have grown := kept.record sample
  rw [grown.windowed.values, grown.size, newest, kept.windowed.values, kept.size, difference]
  exact (rtake_append history _ 199).symm

theorem record_range (kept : Kept data history) {value : Int}
    (member : value ∈ (data.record sample).vTimeOffsets.vValues) :
    minInt64 ≤ value ∧ value ≤ maxInt64 := by
  have grown := kept.record sample
  rw [grown.windowed.values] at member
  exact grown.range value (List.mem_of_mem_drop member)

theorem absArguments_used {nMedian : Int} (used : filterUsed data sample = some filter)
    (found : filter.median = some nMedian) :
    absArguments data sample = nMedian ::
      if abs64 nMedian < 70 * 60 || data.fDone then [] else filter.vSorted.filter (· != 0) := by
  simp [absArguments, used, found]

theorem Measured.stepRight (kept : Kept data history) (small : |data.nTimeOffset| < 70 * 60)
    (measured : Measured data sample) : StepRight data sample := by
  obtain ⟨range, middle⟩ := measured
  have difference := (toInt64_eq_iff (sample.nTime - sample.now)).mpr range
  rcases addTimeData_ends kept sample with
    ⟨_, unused, done⟩ | ⟨fresh, ⟨unused, done⟩ | ⟨nMedian, used, found, done⟩⟩
  · exact ⟨⟨data, done, small⟩, by simp [unused], difference, by simp [absArguments, unused]⟩
  · exact ⟨⟨_, done, small⟩, by simp [unused], difference, by simp [absArguments, unused]⟩
  · have grown := kept.record sample
    have values := record_newest kept difference
    obtain ⟨_, looked, _⟩ := filterUsed_some used
    simp only [consulted, Bool.and_eq_true, decide_eq_true_eq, beq_iff_eq] at looked
    obtain ⟨many, odd⟩ := looked
    have medianValue := (median_sorted grown.windowed odd).symm.trans found
    have isMedian := median_isMedian odd medianValue
    unfold CMedianFilter.size at many odd
    rw [values] at many odd medianValue
    obtain ⟨other, far⟩ := middle fresh many odd nMedian medianValue
    obtain ⟨least, most⟩ := record_range kept isMedian.among
    have absolute := (abs64_eq_iff least most).mpr other
    constructor
    · refine ⟨_, done, ?_⟩
      rw [adjust_nTimeOffset, absolute]
      split
      · assumption
      · decide
    · intro filter same
      rw [used] at same
      cases same
      exact ⟨nMedian, found, isMedian⟩
    · exact difference
    · rw [absArguments_used used found, absolute]
      intro n member
      rcases List.mem_cons.mp member with rfl | inner
      · exact absolute
      · split at inner
        · cases inner
        · rename_i warned
          simp only [Bool.or_eq_true, decide_eq_true_eq, not_or, not_lt, Bool.not_eq_true] at warned
          have among : n ∈ (data.record sample).vTimeOffsets.vValues := by
            have sorted := (List.mem_filter.mp inner).1
            exact (List.mem_insertionSort _).mp sorted
          obtain ⟨nLeast, nMost⟩ := record_range kept among
          refine (abs64_eq_iff nLeast nMost).mpr fun isLeast => ?_
          rw [isLeast, values] at among
          exact far warned.1 warned.2 among

theorem StepRight.measured (kept : Kept data history) (right : StepRight data sample) :
    Measured data sample := by
  have difference := right.difference
  refine ⟨(toInt64_eq_iff _).mp difference, fun fresh many odd value found => ?_⟩
  have grown := kept.record sample
  have values := record_newest kept difference
  have size : (data.record sample).vTimeOffsets.size = (newest data sample).length := by
    rw [← values]
    rfl
  have used : filterUsed data sample = some (data.record sample).vTimeOffsets := by
    simp [filterUsed, fresh, consulted, size, many, odd]
  have medianValue : (data.record sample).vTimeOffsets.median = some value := by
    rw [median_sorted grown.windowed (by rw [size]; exact odd), values, found]
  have absolute := right.absolute
  rw [absArguments_used used medianValue] at absolute
  have here := absolute value List.mem_cons_self
  have none' : abs64 minInt64 ≠ |minInt64| := by decide
  constructor
  · rintro rfl
    exact none' here
  · intro far unwarned among
    apply none'
    apply absolute
    apply List.mem_cons_of_mem
    have tooLarge : ¬(abs64 value < 70 * 60 || data.fDone) = true := by
      rw [here, unwarned]
      simpa using far
    rw [if_neg tooLarge, List.mem_filter, grown.windowed.sorted, values]
    exact ⟨(List.mem_insertionSort _).mpr among, by decide⟩

end Steps

section Runs

theorem addAll_append (before later : List Sample) (data : TimeData) :
    addAll (before ++ later) data = (addAll before data).bind (addAll later) := by
  induction before generalizing data with
  | nil => rfl
  | cons sample rest ih =>
    cases step : addTimeData data sample with
    | none => simp [addAll, step]
    | some after => simp [addAll, step, ih]

theorem addAll_kept {data : TimeData} {history : List Int} (kept : Kept data history)
    (samples : List Sample) :
    ∃ after, addAll samples data = some after ∧
      Kept after (history ++ recorded data.setKnown samples) := by
  induction samples generalizing data history with
  | nil => exact ⟨data, rfl, by simpa [recorded] using kept⟩
  | cons sample later ih =>
    obtain ⟨middle, done, grown, known⟩ := addTimeData_kept kept sample
    obtain ⟨after, run, ends⟩ := ih grown
    refine ⟨after, by simp [addAll, done, run], ?_⟩
    by_cases old : sample.ip ∈ data.setKnown
    · simpa [recorded, old, known] using ends
    · simpa [recorded, old, known] using ends

def Throughout (property : TimeData → Sample → Prop) (samples : List Sample) : Prop :=
  ∀ before sample later, samples = before ++ sample :: later →
    ∃ data, addAll before .init = some data ∧ property data sample

theorem measured_small (samples : List Sample) (measured : Throughout Measured samples) :
    ∃ data, addAll samples .init = some data ∧ |data.nTimeOffset| < 70 * 60 := by
  induction samples using List.reverseRecOn with
  | nil => exact ⟨TimeData.init, rfl, by decide⟩
  | append_singleton samples sample ih =>
    obtain ⟨data, run, small⟩ := ih fun before other later split =>
      measured before other (later ++ [sample]) (by simp [split])
    obtain ⟨same, again, here⟩ := measured samples sample [] rfl
    rw [run] at again
    cases again
    obtain ⟨kept', runKept, kept⟩ := addAll_kept Kept.init samples
    rw [run] at runKept
    cases runKept
    obtain ⟨after, done, offset⟩ := (here.stepRight kept small).offset
    exact ⟨after, by simp [addAll_append, run, addAll, done], offset⟩

/-- The offset of every run is small, its medians true and its numbers unwrapped exactly when
    every sample is measured; the filter always has the newest samples of distinct addresses. -/
theorem time_offsets_iff {T : Type} [LinearOrder T] (samples : List Sample) (size : Nat)
    (initial : T) (values : List T) :
    (Throughout StepRight samples ↔ Throughout Measured samples) ∧
    (∃ data, addAll samples .init = some data ∧
      data.vTimeOffsets.vValues = (0 :: recorded [] samples).rtake 200) ∧
    (((CMedianFilter.init size initial).inputs values).vValues = (initial :: values).rtake size ↔
      0 < size) := by
  refine ⟨⟨fun right before sample later split => ?_,
    fun measured before sample later split => ?_⟩, ?_, filter_newest_iff size initial values⟩
  · obtain ⟨data, run, step⟩ := right before sample later split
    obtain ⟨_, same, kept⟩ := addAll_kept Kept.init before
    rw [run] at same
    cases same
    exact ⟨data, run, step.measured kept⟩
  · obtain ⟨data, run, step⟩ := measured before sample later split
    obtain ⟨_, same, kept⟩ := addAll_kept Kept.init before
    rw [run] at same
    cases same
    obtain ⟨_, again, small⟩ := measured_small before fun earlier other rest inner =>
      measured earlier other (rest ++ sample :: later) (by simp [split, inner])
    rw [run] at again
    cases again
    exact ⟨data, run, step.stepRight kept small⟩
  · obtain ⟨data, run, kept⟩ := addAll_kept Kept.init samples
    refine ⟨data, run, ?_⟩
    rw [kept.windowed.values, kept.size]
    rfl

def earliest (place : Nat) : Sample := ⟨⟨.ofNat 128 place⟩, minInt64 + 1500000000, 1500000000⟩

def fourPeers : List Sample := [earliest 1, earliest 2, earliest 3, earliest 4]

theorem least_offset_accepted :
    (addAll fourPeers .init).map TimeData.nTimeOffset = some minInt64 ∧
      ¬Throughout StepRight fourPeers := by
  have run : (addAll fourPeers .init).map TimeData.nTimeOffset = some minInt64 := by
    decide +kernel
  refine ⟨run, fun right => ?_⟩
  obtain ⟨data, before, step⟩ := right [earliest 1, earliest 2, earliest 3] (earliest 4) [] rfl
  obtain ⟨after, done, small⟩ := step.offset
  have whole : addAll ([earliest 1, earliest 2, earliest 3] ++ [earliest 4]) .init = some after := by
    rw [addAll_append, before]
    simp [addAll, done]
  have least := run.symm.trans (congrArg (Option.map TimeData.nTimeOffset) whole)
  rw [← Option.some.inj least] at small
  exact absurd small (by decide)

end Runs

end OxidTimeData
