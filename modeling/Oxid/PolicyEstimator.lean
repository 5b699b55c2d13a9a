import Oxid.CreateTransaction

/-!
The fee and priority estimates of the memory pool. The sorted samples are kept between calls
and made again where there are none, so a state is the history with both sorted lists.
-/
namespace OxidPolicyEstimator
open OxidMiner OxidCreateTransaction Runs

section Estimates
variable {α : Type} [LinearOrder α]

def refreshed (buckets : List (List α)) (sorted : List α) : List α :=
  if sorted.length = 0 then buckets.flatten.mergeSort fun a b => decide (b ≤ a) else sorted

/-- The samples of all faster targets and half of the samples of this one. -/
def historyIndex (buckets : List (List α)) (sorted : List α) (nBlocksToConfirm : Nat) : Nat :=
  let sizes := buckets.map List.length
  let nBucketSize := sizes.getD nBlocksToConfirm 0
  let nPrevSize := (sizes.take nBlocksToConfirm).sum
  min (nPrevSize + nBucketSize / 2) (sorted.length - 1)

/-- `none` is an index outside the sorted samples. -/
def estimate (missing : α) (buckets : List (List α)) (sorted : List α) (nBlocksToConfirm : Int) :
    Option α × List α :=
  let nBlocksToConfirm := nBlocksToConfirm - 1
  if nBlocksToConfirm < 0 ∨ (buckets.length : Int) ≤ nBlocksToConfirm then (some missing, sorted)
  else
    let sorted := refreshed buckets sorted
    if sorted.length < 11 then (some missing, sorted)
    else (sorted[historyIndex buckets sorted nBlocksToConfirm.toNat]?, sorted)

end Estimates

section Source

/-- The doubles that are numbers, in their order. -/
structure Priorities (P : Type) [LinearOrder P] where
  zero : P
  minusOne : P
  allowFreeThreshold : P
  below : minusOne < zero

variable {P : Type} [LinearOrder P] (doubles : Priorities P)

structure CTxMemPoolEntry (P : Type) where
  nHeight : Nat
  nFee : Int
  nTxSize : Nat
  /-- `GetPriority` at the entry's own height; `none` where that is not a number. -/
  dPriority : Option P

structure CBlockAverage (P : Type) where
  feeSamples : List Int
  prioritySamples : List P

def newest {α : Type} (samples : List α) : List α := samples.drop (samples.length - 100)

namespace CBlockAverage

def empty : CBlockAverage P := ⟨[], []⟩

def recordFee (average : CBlockAverage P) (feeRate : Int) : CBlockAverage P :=
  { average with feeSamples := newest (average.feeSamples ++ [feeRate]) }

def recordPriority (average : CBlockAverage P) (priority : P) : CBlockAverage P :=
  { average with prioritySamples := newest (average.prioritySamples ++ [priority]) }

end CBlockAverage

def feeSane (fee minRelayFee : Int) : Bool :=
  if fee < 0 then false
  else if getFee minRelayFee 1000 * 10000 < getFee fee 1000 then false
  else true

def prioritySane (priority : Option P) : Bool := priority.any fun d => decide (doubles.zero ≤ d)

/-- `Read` of one average; `none` where it throws. -/
def readAverage (minRelayFee : Int) (file : List Int × List (Option P)) :
    Option (CBlockAverage P) :=
  if file.1.all (feeSane · minRelayFee) && file.2.all (prioritySane doubles) then
    some ⟨newest file.1, newest (file.2.filterMap id)⟩
  else none

def readHistory (minRelayFee : Int) :
    List (List Int × List (Option P)) → Option (List (CBlockAverage P))
  | [] => some []
  | first :: rest => do
    let entry ← readAverage doubles minRelayFee first
    let later ← readHistory minRelayFee rest
    some (entry :: later)

structure CMinerPolicyEstimator (P : Type) where
  history : List (CBlockAverage P)
  sortedFeeSamples : List Int
  sortedPrioritySamples : List P
  nBestSeenHeight : Int

namespace CMinerPolicyEstimator

def init (nEntries : Nat) : CMinerPolicyEstimator P :=
  ⟨List.replicate nEntries CBlockAverage.empty, [], [], 0⟩

def feeBuckets (estimator : CMinerPolicyEstimator P) : List (List Int) :=
  estimator.history.map CBlockAverage.feeSamples

def priorityBuckets (estimator : CMinerPolicyEstimator P) : List (List P) :=
  estimator.history.map CBlockAverage.prioritySamples

def estimateFee (estimator : CMinerPolicyEstimator P) (nBlocksToConfirm : Int) :
    Option Int × CMinerPolicyEstimator P :=
  let answer := estimate 0 estimator.feeBuckets estimator.sortedFeeSamples nBlocksToConfirm
  (answer.1, { estimator with sortedFeeSamples := answer.2 })

def estimatePriority (estimator : CMinerPolicyEstimator P) (nBlocksToConfirm : Int) :
    Option P × CMinerPolicyEstimator P :=
  let answer := estimate doubles.minusOne estimator.priorityBuckets
    estimator.sortedPrioritySamples nBlocksToConfirm
  (answer.1, { estimator with sortedPrioritySamples := answer.2 })

end CMinerPolicyEstimator

def confirmTx (feeRate minRelayFee : Int) (dPriority : Option P) (average : CBlockAverage P) :
    CBlockAverage P :=
  let sufficientFee := decide (minRelayFee < feeRate)
  let sufficientPriority := dPriority.any fun d => decide (doubles.allowFreeThreshold < d)
  if sufficientFee && !sufficientPriority && feeSane feeRate minRelayFee then
    average.recordFee feeRate
  else if sufficientPriority && !sufficientFee && prioritySane doubles dPriority then
    match dPriority with
    | some d => average.recordPriority d
    | none => average
  else average

def seenTxConfirm (feeRate minRelayFee : Int) (dPriority : Option P) (nBlocksAgo : Nat)
    (history : List (CBlockAverage P)) : List (CBlockAverage P) :=
  let nBlocksTruncated := min nBlocksAgo (history.length - 1)
  history.modify nBlocksTruncated (confirmTx doubles feeRate minRelayFee dPriority)

def bucketOf (size : Nat) (nBlockHeight : Int) (entry : CTxMemPoolEntry P) : Option Nat :=
  let delta := Int.bmod (nBlockHeight - entry.nHeight) (2 ^ 32)
  if delta ≤ 0 then none
  else if (size : Int) ≤ delta - 1 then some (size - 1)
  else some (delta - 1).toNat

def thinned (randomShuffle : List (CTxMemPoolEntry P) → List (CTxMemPoolEntry P))
    (e : List (CTxMemPoolEntry P)) : List (CTxMemPoolEntry P) :=
  if 10 < e.length then (randomShuffle e).take 10 else e

structure SeenBlock (P : Type) where
  entries : List (CTxMemPoolEntry P)
  nBlockHeight : Int
  minRelayFee : Int
  randomShuffle : List (CTxMemPoolEntry P) → List (CTxMemPoolEntry P)

def recordBucket (block : SeenBlock P) (size : Nat) (history : List (CBlockAverage P)) (i : Nat) :
    List (CBlockAverage P) :=
  let e := block.entries.filter fun entry => bucketOf size block.nBlockHeight entry == some i
  (thinned block.randomShuffle e).foldl (fun history entry =>
    seenTxConfirm doubles (cFeeRate entry.nFee entry.nTxSize) block.minRelayFee entry.dPriority i
      history) history

def logBucket (estimator : CMinerPolicyEstimator P) (i : Nat) : CMinerPolicyEstimator P :=
  match estimator.history[i]? with
  | none => estimator
  | some average =>
    if 0 < average.feeSamples.length + average.prioritySamples.length then
      ((estimator.estimateFee (i + 1)).2.estimatePriority doubles (i + 1)).2
    else estimator

namespace CMinerPolicyEstimator

def seenBlock (estimator : CMinerPolicyEstimator P) (block : SeenBlock P) :
    CMinerPolicyEstimator P :=
  if block.nBlockHeight ≤ estimator.nBestSeenHeight then estimator
  else
    let size := estimator.history.length
    let history := (List.range size).foldl (recordBucket doubles block size) estimator.history
    (List.range size).foldl (logBucket doubles) ⟨history, [], [], block.nBlockHeight⟩

/-- The file as it is decoded. Nothing changes where `Read` throws; the sorted samples stay
    in any case. -/
def read (estimator : CMinerPolicyEstimator P) (minRelayFee nFileBestSeenHeight : Int)
    (file : List (List Int × List (Option P))) : CMinerPolicyEstimator P :=
  if file.length = 0 ∨ 10000 < file.length then estimator
  else
    match readHistory doubles minRelayFee file with
    | none => estimator
    | some fileHistory =>
      { estimator with history := fileHistory, nBestSeenHeight := nFileBestSeenHeight }

end CMinerPolicyEstimator

inductive Call (P : Type) where
  | seenBlock (block : SeenBlock P)
  | read (minRelayFee nFileBestSeenHeight : Int) (file : List (List Int × List (Option P)))
  | estimateFee (nBlocksToConfirm : Int)
  | estimatePriority (nBlocksToConfirm : Int)

def step : Call P → CMinerPolicyEstimator P → CMinerPolicyEstimator P
  | .seenBlock block, estimator => estimator.seenBlock doubles block
  | .read minRelayFee nFileBestSeenHeight file, estimator =>
    estimator.read doubles minRelayFee nFileBestSeenHeight file
  | .estimateFee nBlocksToConfirm, estimator => (estimator.estimateFee nBlocksToConfirm).2
  | .estimatePriority nBlocksToConfirm, estimator =>
    (estimator.estimatePriority doubles nBlocksToConfirm).2

end Source

section Falling
variable {α : Type} [LinearOrder α] {missing : α} {buckets : List (List α)} {sorted : List α}

omit [LinearOrder α] in
theorem historyIndex_inside (some' : 0 < sorted.length) (nBlocksToConfirm : Nat) :
    historyIndex buckets sorted nBlocksToConfirm < sorted.length := by
  unfold historyIndex
  dsimp only
  omega

omit [LinearOrder α] in
theorem historyIndex_mono {n m : Nat} (slower : n ≤ m) :
    historyIndex buckets sorted n ≤ historyIndex buckets sorted m := by
  rcases Nat.eq_or_lt_of_le slower with rfl | later
  · exact le_refl _
  · unfold historyIndex
    generalize buckets.map List.length = sizes
    have whole : (sizes.take (n + 1)).sum = (sizes.take n).sum + sizes.getD n 0 := by
      rw [List.take_add_one, List.sum_append, List.getD_eq_getElem?_getD]
      cases sizes[n]? <;> simp
    have front : (sizes.take (n + 1)).sum ≤ (sizes.take m).sum :=
      ((List.take_prefix_take_left later).sublist).sum_le_sum fun _ _ => Nat.zero_le _
    dsimp only
    omega

structure Falling (missing : α) (buckets : List (List α)) (sorted : List α) : Prop where
  falls : sorted.Pairwise fun a b => b ≤ a
  above : ∀ sample ∈ sorted, missing ≤ sample
  sane : ∀ bucket ∈ buckets, ∀ sample ∈ bucket, missing ≤ sample

theorem refreshed_falling (held : Falling missing buckets sorted) :
    Falling missing buckets (refreshed buckets sorted) := by
  unfold refreshed
  split
  · constructor
    · have falls := @List.pairwise_mergeSort _ (fun a b : α => decide (b ≤ a))
        (fun a b c first second => by
          rw [decide_eq_true_iff] at first second ⊢
          exact second.trans first)
        (fun a b => by simpa using le_total b a) buckets.flatten
      exact falls.imp fun le => of_decide_eq_true le
    · intro sample member
      obtain ⟨bucket, among, inside⟩ := List.mem_flatten.mp (List.mem_mergeSort.mp member)
      exact held.sane bucket among sample inside
    · exact held.sane
  · exact held

theorem refreshed_kept (kept : sorted.length ≠ 0) : refreshed buckets sorted = sorted :=
  if_neg kept

theorem refreshed_refreshed (buckets : List (List α)) (sorted : List α) :
    refreshed buckets (refreshed buckets sorted) = refreshed buckets sorted := by
  by_cases fresh : (refreshed buckets sorted).length = 0
  · have none : sorted.length = 0 := by
      by_contra kept
      rw [refreshed_kept kept] at fresh
      exact kept fresh
    have first := List.eq_nil_of_length_eq_zero fresh
    have second := List.eq_nil_of_length_eq_zero none
    rw [first, ← second]
    exact first.trans second.symm
  · exact refreshed_kept fresh

theorem estimate_falling (held : Falling missing buckets sorted) (n : Int) :
    Falling missing buckets (estimate missing buckets sorted n).2 := by
  unfold estimate
  dsimp only
  split
  · exact held
  · split
    · exact refreshed_falling held
    · exact refreshed_falling held

theorem estimate_again (n m : Int) :
    (estimate missing buckets (estimate missing buckets sorted n).2 m).1 =
      (estimate missing buckets sorted m).1 := by
  have kept : (estimate missing buckets sorted n).2 = sorted ∨
      (estimate missing buckets sorted n).2 = refreshed buckets sorted := by
    unfold estimate
    dsimp only
    split
    · exact Or.inl rfl
    · split
      · exact Or.inr rfl
      · exact Or.inr rfl
  rcases kept with same | again
  · rw [same]
  · rw [again]
    unfold estimate
    simp only [refreshed_refreshed]
    split
    · rfl
    · split
      · rfl
      · rfl

theorem estimate_antitone (held : Falling missing buckets sorted) {n m : Int} (first : 1 ≤ n)
    (slower : n ≤ m) :
    ∃ faster slow, (estimate missing buckets sorted n).1 = some faster ∧
      (estimate missing buckets sorted m).1 = some slow ∧ slow ≤ faster := by
  have fresh := refreshed_falling held
  have index : (n - 1).toNat ≤ (m - 1).toNat := by omega
  unfold estimate
  dsimp only
  by_cases outside : (buckets.length : Int) ≤ n - 1
  · rw [if_pos (Or.inr outside), if_pos (Or.inr (by omega))]
    exact ⟨missing, missing, rfl, rfl, le_refl _⟩
  · rw [if_neg (by omega : ¬(n - 1 < 0 ∨ (buckets.length : Int) ≤ n - 1))]
    by_cases few : (refreshed buckets sorted).length < 11
    · rw [if_pos few]
      split
      · exact ⟨missing, missing, rfl, rfl, le_refl _⟩
      · exact ⟨missing, missing, rfl, rfl, le_refl _⟩
    · rw [if_neg few]
      have many : 0 < (refreshed buckets sorted).length := by omega
      have inside := @historyIndex_inside _ buckets _ many
      have kept := @historyIndex_mono _ buckets (refreshed buckets sorted) _ _ index
      rw [List.getElem?_eq_getElem (inside _)]
      split
      · exact ⟨_, missing, rfl, rfl, fresh.above _ (List.getElem_mem _)⟩
      · rw [List.getElem?_eq_getElem (inside _)]
        refine ⟨_, _, rfl, rfl, ?_⟩
        rcases Nat.eq_or_lt_of_le kept with same | later
        · simp only [same, le_refl]
        · exact List.pairwise_iff_getElem.mp fresh.falls _ _ _ _ later

end Falling

section History
variable {P : Type} [LinearOrder P] {doubles : Priorities P}

structure Sane (doubles : Priorities P) (average : CBlockAverage P) : Prop where
  fees : ∀ fee ∈ average.feeSamples, 0 ≤ fee
  priorities : ∀ priority ∈ average.prioritySamples, doubles.zero ≤ priority

theorem newest_mem {α : Type} {samples : List α} {sample : α} (member : sample ∈ newest samples) :
    sample ∈ samples :=
  List.mem_of_mem_drop member

theorem feeSane_nonneg {fee minRelayFee : Int} (sane : feeSane fee minRelayFee = true) :
    0 ≤ fee := by
  unfold feeSane at sane
  split at sane
  · cases sane
  · omega

theorem prioritySane_some {d : P} (sane : prioritySane doubles (some d) = true) :
    doubles.zero ≤ d :=
  of_decide_eq_true sane

theorem empty_sane : Sane doubles CBlockAverage.empty where
  fees _ member := by cases member
  priorities _ member := by cases member

variable {average : CBlockAverage P}

theorem recordFee_sane (held : Sane doubles average) {fee : Int} (nonneg : 0 ≤ fee) :
    Sane doubles (average.recordFee fee) where
  fees other member := by
    rcases List.mem_append.mp (newest_mem member) with earlier | last
    · exact held.fees other earlier
    · rw [List.mem_singleton.mp last]
      exact nonneg
  priorities := held.priorities

theorem recordPriority_sane (held : Sane doubles average) {d : P} (nonneg : doubles.zero ≤ d) :
    Sane doubles (average.recordPriority d) where
  fees := held.fees
  priorities other member := by
    rcases List.mem_append.mp (newest_mem member) with earlier | last
    · exact held.priorities other earlier
    · rw [List.mem_singleton.mp last]
      exact nonneg

theorem confirmTx_sane (held : Sane doubles average) (feeRate minRelayFee : Int)
    (dPriority : Option P) :
    Sane doubles (confirmTx doubles feeRate minRelayFee dPriority average) := by
  unfold confirmTx
  dsimp only
  split
  · rename_i recorded
    exact recordFee_sane held (feeSane_nonneg (Bool.and_eq_true_iff.mp recorded).2)
  · split
    · rename_i recorded
      cases dPriority with
      | none => exact held
      | some d =>
        exact recordPriority_sane held (prioritySane_some (Bool.and_eq_true_iff.mp recorded).2)
    · exact held

variable {history : List (CBlockAverage P)}

theorem seenTxConfirm_sane (held : ∀ average ∈ history, Sane doubles average)
    (feeRate minRelayFee : Int) (dPriority : Option P) (nBlocksAgo : Nat) :
    ∀ average ∈ seenTxConfirm doubles feeRate minRelayFee dPriority nBlocksAgo history,
      Sane doubles average := by
  intro average member
  unfold seenTxConfirm at member
  rw [List.mem_iff_getElem?] at member
  obtain ⟨place, at'⟩ := member
  rw [List.getElem?_modify] at at'
  cases found : history[place]? with
  | none => simp [found] at at'
  | some before =>
    have sane := held before (List.mem_of_getElem? found)
    rw [found] at at'
    cases Option.some.inj at'
    split
    · exact confirmTx_sane sane feeRate minRelayFee dPriority
    · exact sane

theorem recordBucket_sane (block : SeenBlock P) (size : Nat) (i : Nat)
    (held : ∀ average ∈ history, Sane doubles average) :
    ∀ average ∈ recordBucket doubles block size history i, Sane doubles average := by
  unfold recordBucket
  dsimp only
  generalize thinned block.randomShuffle _ = e
  induction e generalizing history with
  | nil => exact held
  | cons entry rest ih => exact ih (seenTxConfirm_sane held _ _ _ _)

theorem recordBuckets_sane (block : SeenBlock P) (size : Nat) (places : List Nat)
    (held : ∀ average ∈ history, Sane doubles average) :
    ∀ average ∈ places.foldl (recordBucket doubles block size) history, Sane doubles average := by
  induction places generalizing history with
  | nil => exact held
  | cons i rest ih => exact ih (recordBucket_sane block size i held)

theorem readAverage_sane {minRelayFee : Int} {file : List Int × List (Option P)}
    (ran : readAverage doubles minRelayFee file = some average) : Sane doubles average := by
  unfold readAverage at ran
  split at ran
  · rename_i checked
    obtain ⟨fees, priorities⟩ := Bool.and_eq_true_iff.mp checked
    cases ran
    constructor
    · intro fee member
      exact feeSane_nonneg (List.all_eq_true.mp fees fee (newest_mem member))
    · intro d member
      obtain ⟨_, among, rfl⟩ := List.mem_filterMap.mp (newest_mem member)
      exact prioritySane_some (List.all_eq_true.mp priorities _ among)
  · cases ran

theorem readHistory_sane {minRelayFee : Int} {file : List (List Int × List (Option P))}
    (ran : readHistory doubles minRelayFee file = some history) :
    ∀ average ∈ history, Sane doubles average := by
  induction file generalizing history with
  | nil =>
    cases ran
    simp
  | cons first rest ih =>
    simp only [readHistory, Option.bind_eq_bind, Option.bind_eq_some_iff] at ran
    obtain ⟨entry, read, later, ran, joined⟩ := ran
    cases joined
    intro average member
    rcases List.mem_cons.mp member with here | tail
    · rw [here]
      exact readAverage_sane read
    · exact ih ran average tail

structure Ready (doubles : Priorities P) (estimator : CMinerPolicyEstimator P) : Prop where
  history : ∀ average ∈ estimator.history, Sane doubles average
  fees : Falling 0 estimator.feeBuckets estimator.sortedFeeSamples
  priorities : Falling doubles.minusOne estimator.priorityBuckets estimator.sortedPrioritySamples

variable {estimator : CMinerPolicyEstimator P}

theorem feeBuckets_sane (held : ∀ average ∈ estimator.history, Sane doubles average) :
    ∀ bucket ∈ estimator.feeBuckets, ∀ fee ∈ bucket, 0 ≤ fee := by
  intro bucket member
  obtain ⟨average, among, rfl⟩ := List.mem_map.mp member
  exact (held average among).fees

theorem priorityBuckets_sane (held : ∀ average ∈ estimator.history, Sane doubles average) :
    ∀ bucket ∈ estimator.priorityBuckets, ∀ d ∈ bucket, doubles.minusOne ≤ d := by
  intro bucket member d inside
  obtain ⟨average, among, rfl⟩ := List.mem_map.mp member
  exact doubles.below.le.trans ((held average among).priorities d inside)

theorem ready_history (held : Ready doubles estimator) {fileHistory : List (CBlockAverage P)}
    (nBestSeenHeight : Int) (sane : ∀ average ∈ fileHistory, Sane doubles average) :
    Ready doubles { estimator with
      history := fileHistory, nBestSeenHeight := nBestSeenHeight } where
  history := sane
  fees := ⟨held.fees.falls, held.fees.above, feeBuckets_sane sane⟩
  priorities := ⟨held.priorities.falls, held.priorities.above, priorityBuckets_sane sane⟩

theorem ready_cleared (nBestSeenHeight : Int) (sane : ∀ average ∈ history, Sane doubles average) :
    Ready doubles ⟨history, [], [], nBestSeenHeight⟩ where
  history := sane
  fees := ⟨List.Pairwise.nil, by simp, feeBuckets_sane sane⟩
  priorities := ⟨List.Pairwise.nil, by simp, priorityBuckets_sane sane⟩

theorem ready_init (nEntries : Nat) : Ready doubles (CMinerPolicyEstimator.init nEntries) := by
  refine ready_cleared 0 fun average member => ?_
  rw [List.eq_of_mem_replicate member]
  exact empty_sane

theorem estimateFee_ready (held : Ready doubles estimator) (n : Int) :
    Ready doubles (estimator.estimateFee n).2 where
  history := held.history
  fees := estimate_falling held.fees n
  priorities := held.priorities

theorem estimatePriority_ready (held : Ready doubles estimator) (n : Int) :
    Ready doubles (estimator.estimatePriority doubles n).2 where
  history := held.history
  fees := held.fees
  priorities := estimate_falling held.priorities n

theorem logBuckets_ready (places : List Nat) (held : Ready doubles estimator) :
    Ready doubles (places.foldl (logBucket doubles) estimator) := by
  induction places generalizing estimator with
  | nil => exact held
  | cons i rest ih =>
    refine ih ?_
    unfold logBucket
    split
    · exact held
    · split
      · exact estimatePriority_ready (estimateFee_ready held _) _
      · exact held

theorem step_ready (call : Call P) (held : Ready doubles estimator) :
    Ready doubles (step doubles call estimator) := by
  cases call with
  | seenBlock block =>
    unfold step CMinerPolicyEstimator.seenBlock
    dsimp only
    split
    · exact held
    · exact logBuckets_ready _ (ready_cleared _ (recordBuckets_sane block _ _ held.history))
  | read minRelayFee nFileBestSeenHeight file =>
    unfold step CMinerPolicyEstimator.read
    dsimp only
    split
    · exact held
    · split
      · exact held
      · rename_i fileHistory ran
        exact ready_history held _ (readHistory_sane ran)
  | estimateFee n => exact estimateFee_ready held n
  | estimatePriority n => exact estimatePriority_ready held n

theorem run_ready (nEntries : Nat) (calls : List (Call P)) :
    Ready doubles (runAll (step doubles) calls (CMinerPolicyEstimator.init nEntries)) :=
  runAll_kept (fun call _ held => step_ready call held) calls (ready_init nEntries)

end History

/-- Whatever blocks, files and estimates an estimator has seen: both estimates take their
    sample from inside the sorted ones, and a slower target has none that is larger. -/
theorem estimates_antitone {P : Type} [LinearOrder P] (doubles : Priorities P) (nEntries : Nat)
    (calls : List (Call P)) {n m : Int} (first : 1 ≤ n) (slower : n ≤ m) :
    let estimator := runAll (step doubles) calls (CMinerPolicyEstimator.init nEntries)
    (∃ faster slow, (estimator.estimateFee n).1 = some faster ∧
      (estimator.estimateFee m).1 = some slow ∧
      ((estimator.estimateFee n).2.estimateFee m).1 = some slow ∧ slow ≤ faster) ∧
    (∃ faster slow, (estimator.estimatePriority doubles n).1 = some faster ∧
      (estimator.estimatePriority doubles m).1 = some slow ∧
      ((estimator.estimatePriority doubles n).2.estimatePriority doubles m).1 = some slow ∧
      slow ≤ faster) := by
  intro estimator
  have held : Ready doubles estimator := run_ready nEntries calls
  obtain ⟨fast, slow, one, other, falls⟩ := estimate_antitone held.fees first slower
  obtain ⟨fast', slow', one', other', falls'⟩ := estimate_antitone held.priorities first slower
  exact ⟨⟨fast, slow, one, other, (estimate_again n m).trans other, falls⟩,
    ⟨fast', slow', one', other', (estimate_again n m).trans other', falls'⟩⟩

def wholeDoubles : Priorities Int := ⟨0, -1, 576000000, by decide⟩

def twelveSamples : Call Int :=
  .read 1000 100 [((List.range 11).map fun (k : Nat) => (30000 + k : Int), []), ([20000], [])]

theorem twelve_samples_fall :
    (runAll (step wholeDoubles) [twelveSamples] (CMinerPolicyEstimator.init 2)).feeBuckets.flatten.length
      = 12 ∧
    ∃ faster slow : Int,
      ((runAll (step wholeDoubles) [twelveSamples]
        (CMinerPolicyEstimator.init 2)).estimateFee 1).1 = some faster ∧
      ((runAll (step wholeDoubles) [twelveSamples]
        (CMinerPolicyEstimator.init 2)).estimateFee 2).1 = some slow ∧ slow ≤ faster := by
  refine ⟨by decide +kernel, ?_⟩
  obtain ⟨faster, slow, one, other, -, falls⟩ :=
    (estimates_antitone wholeDoubles 2 [twelveSamples] (by decide : (1 : Int) ≤ 1)
      (by decide : (1 : Int) ≤ 2)).1
  exact ⟨faster, slow, one, other, falls⟩

end OxidPolicyEstimator
