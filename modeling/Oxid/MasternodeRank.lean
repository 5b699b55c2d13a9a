import Oxid.BlockHashCache
import Oxid.BudgetThreshold
import Oxid.Library.Ties

/-!
The masternodes ranked by score at a height, asked for in two ways. While payments are
enforced the first leaves out masternodes that are too young, the second does not. A score
is compared in compact form, and the order of equal ones is the sort's own.
-/
namespace OxidMasternodeRank
open OxidPrimitives OxidPow OxidMasternode OxidMasternodeMan OxidBlockHashCache
open Ranking Ties

def MN_WINNER_MINIMUM_AGE : Int := 8000

/-- What a query for scores finds around it. A `Check` is given by the masternode's output. -/
structure RankCall where
  calls : COutPoint → CheckCall
  hashes : ScoreHashes
  blockHash : Int → Option Uint256
  paymentEnforcement : Bool
  adjustedTime : Int64

namespace RankCall

def checked (call : RankCall) (mn : CMasternode) : CMasternode :=
  mn.check (call.calls mn.vin.prevout)

def calculateScore (call : RankCall) (nBlockHeight : Int) (mn : CMasternode) : Uint256 :=
  ((call.blockHash nBlockHeight).map (scoreOf call.hashes mn.vin.prevout)).getD 0

def compactScore (call : RankCall) (nBlockHeight : Int) (mn : CMasternode) : Int :=
  (getCompact (call.calculateScore nBlockHeight mn)).toNat

def tooYoung (call : RankCall) (mn : CMasternode) : Bool :=
  call.paymentEnforcement &&
    decide (call.adjustedTime.toInt - mn.sigTime.toInt < MN_WINNER_MINIMUM_AGE)

end RankCall

abbrev ScoreSorter := Sorter (Prod.fst : Int × CTxIn → Int)

def stableSort : ScoreSorter := stable Prod.fst

def DistinctVins (mns : List CMasternode) : Prop :=
  (mns.map fun mn => mn.vin.prevout).Nodup

instance (mns : List CMasternode) : Decidable (DistinctVins mns) :=
  inferInstanceAs (Decidable (List.Nodup _))

/-- The arguments of a query for ranks, with what it finds around it. -/
structure RankQuery extends RankCall where
  nBlockHeight : Int
  minProtocol : Int32
  fOnlyActive : Bool

namespace RankQuery

variable (query : RankQuery)

def scored (mn : CMasternode) : Int × CTxIn := (query.compactScore query.nBlockHeight mn, mn.vin)

def inactive (mn : CMasternode) : Bool := query.fOnlyActive && !(query.checked mn).isEnabled

def rankEntry (mn : CMasternode) : Option (Int × CTxIn) :=
  if mn.protocolVersion < query.minProtocol then none
  else if query.tooYoung mn then none
  else if query.inactive mn then none
  else some (query.scored mn)

def byRankEntry (mn : CMasternode) : Option (Int × CTxIn) :=
  if mn.protocolVersion < query.minProtocol then none
  else if query.inactive mn then none
  else some (query.scored mn)

def visited (mn : CMasternode) : CMasternode :=
  if mn.protocolVersion < query.minProtocol then mn
  else if query.fOnlyActive then query.checked mn else mn

end RankQuery

def rankIn (vin : CTxIn) : Int → List (Int × CTxIn) → Int
  | _, [] => -1
  | rank, s :: rest => if s.2.prevout = vin.prevout then rank + 1 else rankIn vin (rank + 1) rest

def atRank (nRank : Int) : Int → List (Int × CTxIn) → Option CTxIn
  | _, [] => none
  | rank, s :: rest => if rank + 1 = nRank then some s.2 else atRank nRank (rank + 1) rest

namespace RankQuery

variable (query : RankQuery) (sorter : ScoreSorter)

def getMasternodeRank (vin : CTxIn) (man : CMasternodeMan) : Int :=
  if (query.blockHash query.nBlockHeight).isNone then -1
  else rankIn vin 0 (sorter.sort (man.vMasternodes.filterMap query.rankEntry))

def getMasternodeByRank (nRank : Int) (man : CMasternodeMan) : Option CMasternode :=
  match atRank nRank 0 (sorter.sort (man.vMasternodes.filterMap query.byRankEntry)) with
  | none => none
  | some vin => { man with vMasternodes := man.vMasternodes.map query.visited }.find vin

def rankedScores (man : CMasternodeMan) : List (Int × CTxIn) :=
  if (query.blockHash query.nBlockHeight).isNone then []
  else man.vMasternodes.filterMap query.rankEntry

end RankQuery

theorem check_vin (call : CheckCall) (mn : CMasternode) : (mn.check call).vin = mn.vin := by
  unfold CMasternode.check
  split
  · rfl
  · split
    · rfl
    · rfl

section Vins

variable {mns : List CMasternode}

theorem DistinctVins.same (distinct : DistinctVins mns) {mn other : CMasternode}
    (member : mn ∈ mns) (member' : other ∈ mns) (same : mn.vin.prevout = other.vin.prevout) :
    mn = other := List.inj_on_of_nodup_map distinct member member' same

theorem DistinctVins.find_map (distinct : DistinctVins mns) {change : CMasternode → CMasternode}
    (keeps : ∀ mn, (change mn).vin = mn.vin) {mn : CMasternode} (member : mn ∈ mns) :
    ((mns.map change).find? fun one => one.vin.prevout == mn.vin.prevout) = some (change mn) := by
  induction mns with
  | nil => cases member
  | cons first rest ih =>
    obtain ⟨new, distinct⟩ := List.nodup_cons.mp distinct
    rw [List.map_cons]
    cases List.mem_cons.mp member with
    | inl same =>
      rw [same, List.find?_cons_of_pos (by simp [keeps])]
    | inr later =>
      rw [List.find?_cons_of_neg]
      · exact ih distinct later
      · intro same
        rw [keeps, beq_iff_eq] at same
        exact new (List.mem_map.mpr ⟨mn, later, same.symm⟩)

variable {man : CMasternodeMan}

theorem DistinctVins.filterMap {Made : Type} (distinct : DistinctVins mns)
    {make : CMasternode → Option Made} {prevout : Made → COutPoint}
    (keeps : ∀ mn made, make mn = some made → prevout made = mn.vin.prevout) :
    ((mns.filterMap make).map prevout).Nodup := by
  induction mns with
  | nil => exact List.nodup_nil
  | cons first rest ih =>
    obtain ⟨new, distinct⟩ := List.nodup_cons.mp distinct
    cases made : make first with
    | none =>
      rw [List.filterMap_cons_none made]
      exact ih distinct
    | some made' =>
      rw [List.filterMap_cons_some made, List.map_cons, List.nodup_cons]
      refine ⟨fun again => ?_, ih distinct⟩
      obtain ⟨other, member, same⟩ := List.mem_map.mp again
      obtain ⟨mn, inRest, madeOther⟩ := List.mem_filterMap.mp member
      rw [keeps mn other madeOther, keeps first made' made] at same
      exact new (List.mem_map.mpr ⟨mn, inRest, same⟩)

end Vins

section Loops

variable {vin : CTxIn} {scores : List (Int × CTxIn)}

theorem rankIn_later (rank : Int) :
    rankIn vin rank scores = -1 ∨ rank < rankIn vin rank scores := by
  induction scores generalizing rank with
  | nil => exact Or.inl rfl
  | cons s rest ih =>
    rw [rankIn]
    split
    · exact Or.inr (Int.lt_succ rank)
    · exact (ih (rank + 1)).imp_right (Int.lt_succ rank).trans

theorem rankIn_at {rank : Int} (counted : 0 ≤ rank)
    (distinct : (scores.map fun s => s.2.prevout).Nodup) {place : Nat}
    (inside : place < scores.length) :
    rankIn vin rank scores = rank + place + 1 ↔
      (scores[place]?).map (fun s => s.2.prevout) = some vin.prevout := by
  induction scores generalizing rank place with
  | nil => exact absurd inside (Nat.not_lt_zero place)
  | cons s rest ih =>
    obtain ⟨new, distinct⟩ := List.nodup_cons.mp distinct
    rw [rankIn]
    cases place with
    | zero =>
      split
      · rename_i same
        simp [same]
      · rename_i different
        have later := @rankIn_later vin rest (rank + 1)
        simp only [List.getElem?_cons_zero, Option.map_some, Option.some.injEq, different,
          iff_false]
        omega
    | succ place =>
      rw [List.getElem?_cons_succ, Nat.cast_succ]
      split
      · rename_i same
        constructor
        · omega
        · intro again
          obtain ⟨other, found, same'⟩ := Option.map_eq_some_iff.mp again
          exact absurd (List.mem_map.mpr
            ⟨other, List.mem_of_getElem? found, same'.trans same.symm⟩) new
      · rw [← ih (Int.le_add_one counted) distinct (Nat.lt_of_succ_lt_succ inside)]
        omega

theorem atRank_at (rank : Int) (place : Nat) :
    atRank (rank + place + 1) rank scores = (scores[place]?).map Prod.snd := by
  induction scores generalizing rank place with
  | nil => rfl
  | cons s rest ih =>
    rw [atRank]
    cases place with
    | zero => simp
    | succ place =>
      rw [if_neg (by omega), List.getElem?_cons_succ, ← ih (rank + 1) place]
      congr 1
      omega

end Loops

namespace RankQuery

section Entries

variable (query : RankQuery)

def listed (mn : CMasternode) : Bool :=
  !decide (mn.protocolVersion < query.minProtocol) && !query.inactive mn

def RanksInverse (man : CMasternodeMan) : Prop :=
  ∀ (sorter : ScoreSorter) (nRank : Int), 1 ≤ nRank → nRank ≤ (query.rankedScores man).length →
    ∀ mn ∈ man.vMasternodes,
      query.getMasternodeByRank sorter nRank man = some (query.visited mn) ↔
        query.getMasternodeRank sorter mn.vin man = nRank

def NoneYoung (man : CMasternodeMan) : Prop :=
  ∀ mn ∈ man.vMasternodes, query.listed mn → ¬ query.tooYoung mn

/-- Those that are too young score less than all others, and the others all differ. -/
structure YoungBehind (man : CMasternodeMan) : Prop where
  behind : ∀ young ∈ man.vMasternodes, query.listed young → query.tooYoung young →
    ∀ old ∈ man.vMasternodes, query.listed old → ¬ query.tooYoung old →
      query.compactScore query.nBlockHeight young < query.compactScore query.nBlockHeight old
  untied : ∀ first ∈ man.vMasternodes, query.listed first → ¬ query.tooYoung first →
    ∀ second ∈ man.vMasternodes, query.listed second → ¬ query.tooYoung second →
      query.compactScore query.nBlockHeight first = query.compactScore query.nBlockHeight second →
        first = second

theorem byRankEntry_eq (mn : CMasternode) :
    query.byRankEntry mn = if query.listed mn then some (query.scored mn) else none := by
  unfold byRankEntry listed
  split
  · rename_i old
    simp [old]
  · rename_i new
    cases query.inactive mn with
    | true => simp
    | false => simp [new]

theorem rankEntry_eq (mn : CMasternode) :
    query.rankEntry mn = if query.tooYoung mn then none else query.byRankEntry mn := by
  unfold rankEntry byRankEntry
  split
  · exact (ite_self none).symm
  · rfl

end Entries

section Inverse

variable {query : RankQuery} {man : CMasternodeMan} {scored : Int × CTxIn}

def notYoung (query : RankQuery) (man : CMasternodeMan) (scored : Int × CTxIn) : Bool :=
  !(man.find scored.2).any query.tooYoung

theorem mem_byRank : scored ∈ man.vMasternodes.filterMap query.byRankEntry ↔
    ∃ mn ∈ man.vMasternodes, query.listed mn ∧ query.scored mn = scored := by
  simp [byRankEntry_eq]

variable {mn : CMasternode}

section
variable (distinct : DistinctVins man.vMasternodes)
include distinct

theorem find_self (member : mn ∈ man.vMasternodes) : man.find mn.vin = some mn := by
  have found := @DistinctVins.find_map _ distinct id (fun _ => rfl) mn member
  rw [List.map_id] at found
  exact found

theorem notYoung_scored (member : mn ∈ man.vMasternodes) :
    query.notYoung man (query.scored mn) = !query.tooYoung mn := by
  rw [notYoung, RankQuery.scored, find_self distinct member, Option.any_some]

theorem rankEntries_eq :
    man.vMasternodes.filterMap query.rankEntry =
      (man.vMasternodes.filterMap query.byRankEntry).filter (query.notYoung man) := by
  rw [List.filter_filterMap]
  apply List.filterMap_congr
  intro mn member
  rw [rankEntry_eq, byRankEntry_eq]
  cases query.listed mn with
  | false => simp
  | true =>
    rw [if_pos rfl, Option.filter_some, notYoung_scored distinct member]
    cases query.tooYoung mn with
    | false => rfl
    | true => rfl

theorem mem_ranked :
    scored ∈ (man.vMasternodes.filterMap query.byRankEntry).filter (query.notYoung man) ↔
      ∃ mn ∈ man.vMasternodes, query.listed mn ∧ ¬ query.tooYoung mn ∧
        query.scored mn = scored := by
  rw [List.mem_filter, mem_byRank]
  constructor
  · intro both
    obtain ⟨⟨mn, member, listed, rfl⟩, old⟩ := both
    rw [notYoung_scored distinct member, Bool.not_eq_true'] at old
    exact ⟨mn, member, listed, ne_true_of_eq_false old, rfl⟩
  · intro some'
    obtain ⟨mn, member, listed, old, rfl⟩ := some'
    refine ⟨⟨mn, member, listed, rfl⟩, ?_⟩
    rw [notYoung_scored distinct member, eq_false_of_ne_true old]
    rfl

theorem byRank_distinct :
    ((man.vMasternodes.filterMap query.byRankEntry).map fun scored => scored.2.prevout).Nodup := by
  apply distinct.filterMap
  intro mn entry made
  rw [byRankEntry_eq, Option.ite_none_right_eq_some, Option.some.injEq] at made
  rw [← made.2, RankQuery.scored]

theorem scored_same (member : mn ∈ man.vMasternodes)
    (inList : scored ∈ man.vMasternodes.filterMap query.byRankEntry)
    (same : scored.2.prevout = mn.vin.prevout) : query.scored mn = scored := by
  obtain ⟨other, member', -, rfl⟩ := mem_byRank.mp inList
  rw [distinct.same member member' same.symm]

end

theorem visited_vin (mn : CMasternode) : (query.visited mn).vin = mn.vin := by
  unfold visited
  split
  · rfl
  · split
    · exact check_vin _ mn
    · rfl

section
variable (distinct : DistinctVins man.vMasternodes)
include distinct

theorem byRank_at (sorter : ScoreSorter) (place : Nat) (member : mn ∈ man.vMasternodes) :
    query.getMasternodeByRank sorter (place + 1) man = some (query.visited mn) ↔
      ((sorter.sort (man.vMasternodes.filterMap query.byRankEntry))[place]?).map
        (fun scored => scored.2.prevout) = some mn.vin.prevout := by
  have entry := @atRank_at (sorter.sort (man.vMasternodes.filterMap query.byRankEntry)) 0 place
  rw [zero_add] at entry
  rw [getMasternodeByRank, entry]
  cases found : (sorter.sort (man.vMasternodes.filterMap query.byRankEntry))[place]? with
  | none => simp
  | some scored =>
    obtain ⟨other, member', -, rfl⟩ :=
      mem_byRank.mp (sorter.mem_sort.mp (List.mem_of_getElem? found))
    have itself := distinct.find_map (@visited_vin query) member'
    simp only [Option.map_some, RankQuery.scored, CMasternodeMan.find, itself, Option.some.injEq]
    constructor
    · intro same
      rw [← @visited_vin query other, same, visited_vin]
    · intro same
      rw [distinct.same member' member same]

theorem rank_at (sorter : ScoreSorter) {place : Nat}
    (known : query.blockHash query.nBlockHeight ≠ none)
    (inside : place < (man.vMasternodes.filterMap query.rankEntry).length) (vin : CTxIn) :
    query.getMasternodeRank sorter vin man = place + 1 ↔
      ((sorter.sort (man.vMasternodes.filterMap query.rankEntry))[place]?).map
        (fun scored => scored.2.prevout) = some vin.prevout := by
  have perm := sorter.perm (man.vMasternodes.filterMap query.rankEntry)
  have distinct' : ((sorter.sort (man.vMasternodes.filterMap query.rankEntry)).map
      fun scored => scored.2.prevout).Nodup := by
    rw [(perm.map _).nodup_iff, rankEntries_eq distinct]
    exact (byRank_distinct distinct).sublist (List.filter_sublist.map _)
  have ranks := @rankIn_at vin _ 0 le_rfl distinct' place (perm.length_eq ▸ inside)
  rw [zero_add] at ranks
  rw [getMasternodeRank, if_neg (by simpa using known)]
  exact ranks

theorem ranks_inverse_parts (known : query.blockHash query.nBlockHeight ≠ none) :
    query.RanksInverse man ↔ ∀ sorter : ScoreSorter,
      sorter.sort ((man.vMasternodes.filterMap query.byRankEntry).filter (query.notYoung man)) =
        (sorter.sort (man.vMasternodes.filterMap query.byRankEntry)).take
          ((man.vMasternodes.filterMap query.byRankEntry).filter (query.notYoung man)).length := by
  have count : query.rankedScores man = man.vMasternodes.filterMap query.rankEntry := by
    rw [rankedScores, if_neg (by simpa using known)]
  rw [← rankEntries_eq distinct]
  constructor
  · intro inverse sorter
    apply List.ext_getElem?
    intro place
    rw [List.getElem?_take]
    have length := (sorter.perm (man.vMasternodes.filterMap query.rankEntry)).length_eq
    split
    · rename_i inside
      obtain ⟨scored, found⟩ : ∃ scored,
          (sorter.sort (man.vMasternodes.filterMap query.rankEntry))[place]? = some scored :=
        ⟨_, List.getElem?_eq_getElem (length ▸ inside)⟩
      have kept := sorter.mem_sort.mp (List.mem_of_getElem? found)
      rw [rankEntries_eq distinct] at kept
      obtain ⟨mn, member, -, -, rfl⟩ := (mem_ranked distinct).mp kept
      have rank := (rank_at distinct sorter known inside mn.vin).mpr (by rw [found]; rfl)
      have inRange : (place : Int) + 1 ≤ (query.rankedScores man).length := by
        rw [count]
        omega
      have byRank := (inverse sorter (place + 1) (by omega) inRange mn member).mpr rank
      obtain ⟨other, found', same⟩ :=
        Option.map_eq_some_iff.mp ((byRank_at distinct sorter place member).mp byRank)
      have inList := sorter.mem_sort.mp (List.mem_of_getElem? found')
      rw [found, found', scored_same distinct member inList same]
    · rename_i outside
      exact List.getElem?_eq_none (length ▸ not_lt.mp outside)
  · intro parts sorter nRank first last mn member
    obtain ⟨place, rfl⟩ : ∃ place : Nat, nRank = place + 1 := ⟨(nRank - 1).toNat, by omega⟩
    rw [count] at last
    have inside : place < (man.vMasternodes.filterMap query.rankEntry).length := by omega
    rw [byRank_at distinct sorter place member, rank_at distinct sorter known inside,
      parts sorter, List.getElem?_take_of_lt inside]

theorem young_behind_iff :
    query.YoungBehind man ↔
      DropsLowest (Prod.fst : Int × CTxIn → Int) (query.notYoung man)
          (man.vMasternodes.filterMap query.byRankEntry) ∧
        Untied (Prod.fst : Int × CTxIn → Int)
          ((man.vMasternodes.filterMap query.byRankEntry).filter (query.notYoung man)) := by
  constructor
  · intro clear
    constructor
    · intro dropped inDropped out kept inKept keptIn
      obtain ⟨young, member, listed, rfl⟩ := mem_byRank.mp inDropped
      obtain ⟨old, member', listed', rfl⟩ := mem_byRank.mp inKept
      rw [notYoung_scored distinct member, Bool.not_eq_false'] at out
      rw [notYoung_scored distinct member', Bool.not_eq_true'] at keptIn
      exact clear.behind young member listed out old member' listed' (ne_true_of_eq_false keptIn)
    · intro first inFirst second inSecond tied
      obtain ⟨mn, member, listed, old, rfl⟩ := (mem_ranked distinct).mp inFirst
      obtain ⟨mn', member', listed', old', rfl⟩ := (mem_ranked distinct).mp inSecond
      rw [clear.untied mn member listed old mn' member' listed' old' tied]
  · intro both
    constructor
    · intro young member listed tooYoung old member' listed' notTooYoung
      apply both.1 (query.scored young) (mem_byRank.mpr ⟨young, member, listed, rfl⟩) ?_
        (query.scored old) (mem_byRank.mpr ⟨old, member', listed', rfl⟩)
      · rw [notYoung_scored distinct member', eq_false_of_ne_true notTooYoung]
        rfl
      · rw [notYoung_scored distinct member, tooYoung]
        rfl
    · intro first member listed old second member' listed' old' tied
      have same := both.2 (query.scored first)
        ((mem_ranked distinct).mpr ⟨first, member, listed, old, rfl⟩) (query.scored second)
        ((mem_ranked distinct).mpr ⟨second, member', listed', old', rfl⟩) tied
      exact distinct.same member member' (congrArg (fun scored => scored.2.prevout) same)

theorem none_young_iff :
    query.NoneYoung man ↔
      (man.vMasternodes.filterMap query.byRankEntry).filter (query.notYoung man) =
        man.vMasternodes.filterMap query.byRankEntry := by
  rw [List.filter_eq_self]
  constructor
  · intro noneYoung scored inList
    obtain ⟨mn, member, listed, rfl⟩ := mem_byRank.mp inList
    rw [notYoung_scored distinct member, eq_false_of_ne_true (noneYoung mn member listed)]
    rfl
  · intro allKept mn member listed young
    have kept := allKept (query.scored mn) (mem_byRank.mpr ⟨mn, member, listed, rfl⟩)
    rw [notYoung_scored distinct member, young] at kept
    cases kept

end

end Inverse

end RankQuery

def signedAt (sigTime : Int64) (hash : Uint256) : CMasternode :=
  { CMasternode.fresh sigTime with vin := ⟨⟨hash, 0⟩, [], 0xffffffff⟩ }

def listOf (mns : List CMasternode) : CMasternodeMan := ⟨mns, ∅, ∅, ∅, 0, ∅, ∅⟩

def plainCheck : CheckCall := ⟨false, false, 1, 1, fun _ => none, [], true, fun _ => true⟩

def enforcedQuery : RankQuery where
  calls _ := plainCheck
  hashes := ⟨id, fun hash aux => hash + aux⟩
  blockHash _ := some 7
  paymentEnforcement := true
  adjustedTime := 1600000000
  nBlockHeight := 100
  minProtocol := 70003
  fOnlyActive := false

def oldEntry : CMasternode := signedAt 1500000000 3

def youngEntry : CMasternode := signedAt 1599999999 5

end OxidMasternodeRank
