import Oxid.MasternodeRank
import Oxid.PayeeAgreement

/-!
How masternodes are chosen on two nodes that hold the same ones in different orders: by
rank, by the greatest score, and from the queue of those that wait for a payment. Scores are
compared in compact form. The order that a sort leaves open is the list's.
-/
namespace OxidPaymentQueue
open OxidPrimitives OxidPow OxidMasternode OxidMasternodeMan OxidMasternodePayments
open OxidBudgetThreshold OxidBlockHashCache OxidPayeeAgreement OxidMasternodeRank
open Ranking Ties OrderedMaps

def ranksScore (query : RankQuery) (mn : CMasternode) : Int :=
  if !mn.isEnabled then 9999 else query.compactScore query.nBlockHeight mn

/-- The entry it makes. A vector's sort moves the listed members alone. -/
def ranksEntry (query : RankQuery) (mn : CMasternode) : Option (Int × CMasternode) :=
  if (query.checked mn).protocolVersion < query.minProtocol then none
  else some (ranksScore query (query.checked mn), (query.checked mn).listed)

def getMasternodeRanks (query : RankQuery)
    (sorter : Sorter (Prod.fst : Int × CMasternode → Int)) (man : CMasternodeMan) :
    List (Int × CMasternode) :=
  if (query.blockHash query.nBlockHeight).isNone then []
  else (sorter.sort (man.vMasternodes.filterMap (ranksEntry query))).mapIdx
    fun place s => ((place : Int) + 1, s.2)

def electable (query : RankQuery) (mnTier : UInt32) (mn : CMasternode) : Bool :=
  !(decide (mn.protocolVersion < query.minProtocol) || !mn.isEnabled) &&
    !(mnTier != UNKNOWN && mn.mnTier != mnTier)

def getCurrentMasterNode (query : RankQuery) (mnTier : UInt32) (man : CMasternodeMan) :
    Option CMasternode :=
  firstMax (query.compactScore query.nBlockHeight) 0 none
    ((man.vMasternodes.map query.checked).filter (electable query mnTier))

/-- What a choice from the payment queue finds around it: the heights and times of the chain
    from its tip down, and whether the sum of a signature's time and a number of cycles, in
    doubles, is later than a time. -/
structure QueueCall extends RankCall where
  sporks : ProtocolSporks
  chain : List (Int × Nat)
  payments : CMasternodePayments
  lockMain : Bool
  payScript : CPubKey → CScript
  hashSigned : CTxIn → Int64 → Uint256
  getInputAge : CTxIn → Int
  later : Int64 → Nat → Int64 → Bool

def hasPayeeWithVotes (block : CMasternodeBlockPayees) (payee : CScript) (nVotesReq : Int32) :
    Bool :=
  block.vecPayments.any fun p => decide (p.nVotes ≥ nVotesReq) && p.scriptPubKey == payee

/-- The walk of `GetLastPaid` down the chain. -/
def lastPaidFrom (payments : CMasternodePayments) (mnpayee : CScript) (nOffset : Int)
    (nMnCount : Nat) : Nat → List (Int × Nat) → Int
  | _, [] => 0
  | n, (nHeight, nTime) :: rest =>
    if nHeight ≤ 0 then 0
    else if n ≥ nMnCount then 0
    else if (payments.mapMasternodeBlocks.find? (Int32.ofInt nHeight)).any
        fun block => hasPayeeWithVotes block mnpayee 2 then nTime + nOffset
    else lastPaidFrom payments mnpayee nOffset nMnCount (n + 1) rest

namespace QueueCall

variable (call : QueueCall)

def getLastPaid (enabled : UInt32 → Nat) (mn : CMasternode) : Int :=
  let nOffset := ((getCompact (call.hashSigned mn.vin mn.sigTime)).toNat % 150 : Nat)
  lastPaidFrom call.payments (call.payScript mn.pubKeyCollateralAddress) nOffset
    (enabled mn.mnTier * 5 / 4) 0 call.chain

def secondsSincePayment (enabled : UInt32 → Nat) (mn : CMasternode) : Int :=
  let sec := call.adjustedTime.toInt - call.getLastPaid enabled mn
  let month := 60 * 60 * 24 * 30
  if sec < month then sec
  else month + (getCompact (call.hashSigned mn.vin mn.sigTime)).toNat

def tipHeight : Option Int := call.chain.head?.map Prod.fst

def isScheduled (nNotBlockHeight : Int) (mn : CMasternode) : Bool :=
  if !call.lockMain then false
  else
    match call.tipHeight with
    | none => false
    | some nHeight =>
      (List.range 9).any fun (ahead : Nat) =>
        let h := nHeight + ahead
        h != nNotBlockHeight &&
          ((call.payments.mapMasternodeBlocks.find? (Int32.ofInt h)).any fun block =>
            getPayee block mn.mnTier == some (call.payScript mn.pubKeyCollateralAddress))

def getMasternodeInputAge (mn : CMasternode) : Int :=
  match call.tipHeight with
  | none => 0
  | some nHeight =>
    if mn.cacheInputAge = 0 then call.getInputAge mn.vin
    else mn.cacheInputAge.toInt + (nHeight - mn.cacheInputAgeBlock.toInt)

def enabledOf (man : CMasternodeMan) (mnTier : UInt32) : Nat :=
  countEnabled call.sporks (man.vMasternodes.map call.checked) mnTier (-1)

end QueueCall

structure QueueQuery extends QueueCall where
  nBlockHeight : Int
  mnTier : UInt32

namespace QueueQuery

variable (query : QueueQuery)

def queueEntry (enabled : UInt32 → Nat) (fFilterSigTime : Bool) (mn : CMasternode) :
    Option (Int × CTxIn) :=
  let nMnCount := enabled query.mnTier
  if !mn.isEnabled then none
  else if mn.mnTier ≠ query.mnTier then none
  else if mn.protocolVersion < getMinMasternodePaymentsProto query.sporks then none
  else if query.isScheduled query.nBlockHeight mn then none
  else if fFilterSigTime && query.later mn.sigTime nMnCount query.adjustedTime then none
  else if query.getMasternodeInputAge mn < nMnCount then none
  else some (query.secondsSincePayment enabled mn, mn.vin)

def vecMasternodeLastPaid (fFilterSigTime : Bool) (man : CMasternodeMan) : List (Int × CTxIn) :=
  (man.vMasternodes.map query.checked).filterMap
    (query.queueEntry (query.enabledOf man) fFilterSigTime)

/-- The last loop: the first of the greatest scores among the first tenth of the network. -/
def bestOf (find : CTxIn → Option CMasternode) (nTenthNetwork : Nat) :
    List (Int × CTxIn) → Nat → Uint256 → Option CMasternode → Option CMasternode
  | [], _, _, pBestMasternode => pBestMasternode
  | s :: rest, nCountTenth, nHigh, pBestMasternode =>
    match find s.2 with
    | none => pBestMasternode
    | some pmn =>
      let n := query.calculateScore (query.nBlockHeight - 100) pmn
      let nHigh' := if nHigh < n then n else nHigh
      let pBestMasternode := if nHigh < n then some pmn else pBestMasternode
      if nCountTenth + 1 ≥ nTenthNetwork then pBestMasternode
      else bestOf find nTenthNetwork rest (nCountTenth + 1) nHigh' pBestMasternode

def choose (sorter : ScoreSorter) (fFilterSigTime : Bool) (man : CMasternodeMan) :
    Option CMasternode × Nat :=
  let vec := query.vecMasternodeLastPaid fFilterSigTime man
  let checked := { man with vMasternodes := man.vMasternodes.map query.checked }
  (query.bestOf checked.find (query.enabledOf man query.mnTier / 10) (sorter.sort vec) 0 0 none,
    vec.length)

/-- So few pass the filter that the network seems to be upgrading. -/
def upgrading (man : CMasternodeMan) : Bool :=
  let nCount := (query.vecMasternodeLastPaid true man).length
  decide (0 < nCount) && decide (nCount < query.enabledOf man query.mnTier / 3)

/-- `GetNextMasternodeInQueueForPayment`, with the count it sets. It asks again without the
    filter where that left few. -/
def getNextMasternodeInQueueForPayment (sorter : ScoreSorter) (fFilterSigTime : Bool)
    (man : CMasternodeMan) : Option CMasternode × Nat :=
  if fFilterSigTime && query.upgrading man then query.choose sorter false man
  else query.choose sorter fFilterSigTime man

end QueueQuery

/-- An answer made of sorted entries is the same for every list of the same masternodes where
    it is settled for the entries. -/
theorem same_lists_iff {Made Result : Type} {key : Made → Int} (make : CMasternode → Option Made)
    (answer : List Made → Result) (man : CMasternodeMan) :
    (∀ (sorter : Sorter key) (man' : CMasternodeMan), man.vMasternodes.Perm man'.vMasternodes →
        answer (sorter.sort (man.vMasternodes.filterMap make)) =
          answer (sorter.sort (man'.vMasternodes.filterMap make))) ↔
      Settled key answer (man.vMasternodes.filterMap make) := by
  rw [← settled_sources_iff]
  constructor
  · intro same sorter sources' perm
    exact same sorter { man with vMasternodes := sources' } perm
  · intro settled sorter man' perm
    exact settled sorter _ perm

section Ranks

variable (query : RankQuery) (vin : CTxIn) (man : CMasternodeMan)

def SameRank : Prop :=
  ∀ (sorter : ScoreSorter) (man' : CMasternodeMan), man.vMasternodes.Perm man'.vMasternodes →
    query.getMasternodeRank sorter vin man = query.getMasternodeRank sorter vin man'

def UntiedAt : Prop :=
  ∀ own ∈ query.rankedScores man, own.2.prevout = vin.prevout →
    ∀ other ∈ query.rankedScores man, other.1 = own.1 → other = own

variable {scores : List (Int × CTxIn)}

theorem rankIn_absent (absent : ∀ s ∈ scores, s.2.prevout ≠ vin.prevout) (rank : Int) :
    rankIn vin rank scores = -1 := by
  induction scores generalizing rank with
  | nil => rfl
  | cons s rest ih =>
    obtain ⟨other, absent⟩ := List.forall_mem_cons.mp absent
    rw [rankIn, if_neg other, ih absent]

theorem rankIn_place (distinct : (scores.map fun s => s.2.prevout).Nodup) {own : Int × CTxIn}
    (member : own ∈ scores) (same : own.2.prevout = vin.prevout) :
    rankIn vin 0 scores = (place scores own : Int) + 1 := by
  have ranks := @rankIn_at vin scores 0 le_rfl distinct _ (place_inside member)
  rw [zero_add] at ranks
  rw [ranks, get_place member, Option.map_some, same]

theorem rankEntries_distinct (distinct : DistinctVins man.vMasternodes) :
    ((man.vMasternodes.filterMap query.rankEntry).map fun scored => scored.2.prevout).Nodup := by
  rw [RankQuery.rankEntries_eq distinct]
  exact (RankQuery.byRank_distinct distinct).sublist (List.filter_sublist.map _)

theorem rank_settled_iff (distinct : (scores.map fun s => s.2.prevout).Nodup) :
    Settled Prod.fst (rankIn vin 0) scores ↔
      ∀ own ∈ scores, own.2.prevout = vin.prevout →
        ∀ other ∈ scores, other.1 = own.1 → other = own := by
  by_cases present : ∃ own ∈ scores, own.2.prevout = vin.prevout
  · obtain ⟨own, member, same⟩ := present
    have ranks : ∀ order : List (Int × CTxIn), scores.Perm order →
        rankIn vin 0 order = (place order own : Int) + 1 := by
      intro order perm
      exact rankIn_place vin ((perm.map _).nodup_iff.mp distinct) (perm.mem_iff.mp member) same
    have places : Settled Prod.fst (rankIn vin 0) scores ↔
        Settled Prod.fst (fun order => place order own) scores := by
      apply settled_congr
      intro one other perm perm'
      rw [ranks one perm, ranks other perm']
      omega
    rw [places, place_settled_iff (List.Nodup.of_map _ distinct) member]
    constructor
    · intro untied own' member' same'
      rw [List.inj_on_of_nodup_map distinct member' member (same'.trans same.symm)]
      exact untied
    · intro untied
      exact untied own member same
  · have absent : ∀ s ∈ scores, s.2.prevout ≠ vin.prevout :=
      fun s member same => present ⟨s, member, same⟩
    refine iff_of_true ?_ (fun own member same => absurd same (absent own member))
    apply settled_of (-1)
    intro sorter order perm
    apply rankIn_absent
    intro s member
    exact absent s (perm.mem_iff.mpr (sorter.mem_sort.mp member))

theorem same_rank_iff (distinct : DistinctVins man.vMasternodes) :
    SameRank query vin man ↔ UntiedAt query vin man := by
  unfold UntiedAt
  by_cases known : query.blockHash query.nBlockHeight = none
  · have noScores : query.rankedScores man = [] := by rw [RankQuery.rankedScores, known]; rfl
    rw [noScores]
    refine iff_of_true ?_ (by simp)
    intro sorter man' perm
    simp [RankQuery.getMasternodeRank, known]
  · have scores : query.rankedScores man = man.vMasternodes.filterMap query.rankEntry := by
      rw [RankQuery.rankedScores, if_neg (by simpa using known)]
    have rank : ∀ (sorter : ScoreSorter) (man' : CMasternodeMan),
        query.getMasternodeRank sorter vin man' =
          rankIn vin 0 (sorter.sort (man'.vMasternodes.filterMap query.rankEntry)) := by
      intro sorter man'
      rw [RankQuery.getMasternodeRank, if_neg (by simpa using known)]
    unfold SameRank
    simp only [rank, scores]
    rw [same_lists_iff query.rankEntry (rankIn vin 0) man]
    exact rank_settled_iff vin (rankEntries_distinct query man distinct)

def SameRanks : Prop :=
  ∀ (sorter : Sorter (Prod.fst : Int × CMasternode → Int)) (man' : CMasternodeMan),
    man.vMasternodes.Perm man'.vMasternodes →
      getMasternodeRanks query sorter man = getMasternodeRanks query sorter man'

/-- The entries that `GetMasternodeRanks` sorts. -/
def ranksEntries : List (Int × CMasternode) :=
  if (query.blockHash query.nBlockHeight).isNone then []
  else man.vMasternodes.filterMap (ranksEntry query)

theorem ranksEntries_distinct (distinct : DistinctVins man.vMasternodes) :
    ((man.vMasternodes.filterMap (ranksEntry query)).map fun s => s.2.vin.prevout).Nodup := by
  apply distinct.filterMap
  intro mn entry made
  unfold ranksEntry at made
  split at made
  · cases made
  · rw [← Option.some.inj made]
    exact congrArg CTxIn.prevout (check_vin _ mn)

theorem ranks_alike {entries one other : List (Int × CMasternode)}
    (distinct : (entries.map fun s => s.2.vin.prevout).Nodup) (perm : entries.Perm one)
    (perm' : entries.Perm other) :
    (one.mapIdx fun place s => ((place : Int) + 1, s.2)) =
        (other.mapIdx fun place s => ((place : Int) + 1, s.2)) ↔ one = other := by
  constructor
  · intro same
    apply List.ext_getElem
    · have lengths := congrArg List.length same
      rwa [List.length_mapIdx, List.length_mapIdx] at lengths
    · intro place inside inside'
      have entry := congrArg (fun ranks => ranks[place]?) same
      simp only [List.getElem?_mapIdx, List.getElem?_eq_getElem inside,
        List.getElem?_eq_getElem inside', Option.map_some, Option.some.injEq, Prod.mk.injEq,
        true_and] at entry
      exact List.inj_on_of_nodup_map distinct (perm.mem_iff.mpr (List.getElem_mem inside))
        (perm'.mem_iff.mpr (List.getElem_mem inside')) (congrArg (fun mn => mn.vin.prevout) entry)
  · intro same
    rw [same]

theorem same_ranks_iff (distinct : DistinctVins man.vMasternodes) :
    SameRanks query man ↔ Untied Prod.fst (ranksEntries query man) := by
  have nodup := List.Nodup.of_map _ (ranksEntries_distinct query man distinct)
  unfold SameRanks getMasternodeRanks ranksEntries
  split
  · exact iff_of_true (fun _ _ _ => rfl) (by simp [Untied])
  · rw [same_lists_iff (ranksEntry query)
      (fun sorted => sorted.mapIdx fun place s => ((place : Int) + 1, s.2)) man,
      ← sort_settled_iff nodup]
    apply settled_congr
    intro one other perm perm'
    exact ranks_alike (ranksEntries_distinct query man distinct) perm perm'

end Ranks

section Winner

variable (query : RankQuery) (mnTier : UInt32) (man : CMasternodeMan)

def SameCurrent : Prop :=
  ∀ man' : CMasternodeMan, man.vMasternodes.Perm man'.vMasternodes →
    getCurrentMasterNode query mnTier man = getCurrentMasterNode query mnTier man'

def electables : List CMasternode :=
  (man.vMasternodes.map query.checked).filter (electable query mnTier)

theorem same_current_iff :
    SameCurrent query mnTier man ↔
      ClearMaximum (query.compactScore query.nBlockHeight) 0 (electables query mnTier man) := by
  rw [← firstMax_perm_iff]
  constructor
  · intro same items' perm
    have made : ∀ mns : List CMasternode, (mns.map query.checked).filter (electable query mnTier) =
        mns.filterMap (Option.guard (electable query mnTier) ∘ query.checked) := by
      intro mns
      rw [← List.filterMap_eq_filter, List.filterMap_map]
    rw [electables, made] at perm
    obtain ⟨mns', perm', made'⟩ := perm_lift perm
    rw [← made', ← made]
    exact same { man with vMasternodes := mns' } perm'
  · intro clear man' perm
    exact clear _ ((perm.map query.checked).filter _)

end Winner

namespace QueueQuery

section Queue

variable (query : QueueQuery) (fFilterSigTime : Bool) (man : CMasternodeMan)

def SameNext : Prop :=
  ∀ (sorter : ScoreSorter) (man' : CMasternodeMan), man.vMasternodes.Perm man'.vMasternodes →
    query.getNextMasternodeInQueueForPayment sorter fFilterSigTime man =
      query.getNextMasternodeInQueueForPayment sorter fFilterSigTime man'

def queueScore (s : Int × CTxIn) : Nat :=
  (((query.blockHash (query.nBlockHeight - 100)).map
    (scoreOf query.hashes s.2.prevout)).getD 0).toNat

def queue : List (Int × CTxIn) :=
  query.vecMasternodeLastPaid (fFilterSigTime && !query.upgrading man) man

def lookedAt : Nat := max 1 (query.enabledOf man query.mnTier / 10)

variable {s : Int × CTxIn} {order : List (Int × CTxIn)} {mn : CMasternode}

theorem calculateScore_toNat {pmn : CMasternode} (found : pmn.vin = s.2) :
    (query.calculateScore (query.nBlockHeight - 100) pmn).toNat = query.queueScore s := by
  rw [RankCall.calculateScore, found, queueScore]

theorem bestOf_eq {find : CTxIn → Option CMasternode} {queue : List (Int × CTxIn)}
    (found : ∀ s ∈ queue, ∃ pmn, find s.2 = some pmn ∧ pmn.vin = s.2)
    (nTenthNetwork nCountTenth : Nat) (nHigh : Uint256) (best : Option (Int × CTxIn)) :
    query.bestOf find nTenthNetwork queue nCountTenth nHigh (best.bind fun s => find s.2) =
      (firstMax query.queueScore nHigh.toNat best
        (queue.take (max 1 (nTenthNetwork - nCountTenth)))).bind fun s => find s.2 := by
  induction queue generalizing nCountTenth nHigh best with
  | nil =>
    rw [List.take_nil]
    rfl
  | cons s rest ih =>
    obtain ⟨first, found⟩ := List.forall_mem_cons.mp found
    obtain ⟨pmn, isFound, same⟩ := first
    have score := query.calculateScore_toNat same
    obtain ⟨left, more⟩ : ∃ left, max 1 (nTenthNetwork - nCountTenth) = left + 1 :=
      ⟨_, (Nat.succ_pred_eq_of_pos (Nat.lt_of_lt_of_le Nat.one_pos (le_max_left _ _))).symm⟩
    have later : ∀ (high : Uint256) (best : Option (Int × CTxIn)),
        (if nCountTenth + 1 ≥ nTenthNetwork then best.bind fun s => find s.2
          else query.bestOf find nTenthNetwork rest (nCountTenth + 1) high
            (best.bind fun s => find s.2)) =
          (firstMax query.queueScore high.toNat best (rest.take left)).bind fun s => find s.2 := by
      intro high best
      split
      · have noneLeft : left = 0 := by omega
        rw [noneLeft, List.take_zero, firstMax]
      · have leftLater : left = max 1 (nTenthNetwork - (nCountTenth + 1)) := by omega
        rw [leftLater, ← ih found]
    rw [bestOf, isFound, more, List.take_succ_cons, firstMax]
    by_cases higher : nHigh < query.calculateScore (query.nBlockHeight - 100) pmn
    · have above : nHigh.toNat < query.queueScore s := score ▸ BitVec.lt_def.mp higher
      have chosen := later (query.calculateScore (query.nBlockHeight - 100) pmn) (some s)
      rw [Option.bind_some, isFound, score] at chosen
      simp only [if_pos higher, if_pos above]
      exact chosen
    · have below : ¬ nHigh.toNat < query.queueScore s :=
        fun above => higher (BitVec.lt_def.mpr (score.symm ▸ above))
      simp only [if_neg higher, if_neg below]
      exact later nHigh best

theorem queueEntry_vin {enabled : UInt32 → Nat}
    (made : query.queueEntry enabled fFilterSigTime mn = some s) : s.2 = mn.vin := by
  unfold queueEntry at made
  dsimp only at made
  repeat
    split at made
    · cases made
  rw [← Option.some.inj made]

def checkedMan : CMasternodeMan := { man with vMasternodes := man.vMasternodes.map query.checked }

variable {man} {man' : CMasternodeMan}

section
variable (perm : man.vMasternodes.Perm man'.vMasternodes)
include perm

theorem enabledOf_perm : query.enabledOf man' = query.enabledOf man := by
  funext tier
  exact ((perm.map query.checked).symm.countP_eq _)

theorem vec_perm :
    (query.vecMasternodeLastPaid fFilterSigTime man).Perm
      (query.vecMasternodeLastPaid fFilterSigTime man') := by
  rw [vecMasternodeLastPaid, vecMasternodeLastPaid, query.enabledOf_perm perm]
  exact (perm.map query.checked).filterMap _

theorem upgrading_perm : query.upgrading man' = query.upgrading man := by
  rw [upgrading, upgrading, (query.vec_perm true perm).length_eq, query.enabledOf_perm perm]

end

section
variable (distinct : DistinctVins man.vMasternodes)
include distinct

theorem checked_distinct : DistinctVins (query.checkedMan man).vMasternodes := by
  have same : (query.checkedMan man).vMasternodes.map (fun mn => mn.vin.prevout) =
      man.vMasternodes.map fun mn => mn.vin.prevout := by
    rw [checkedMan, List.map_map]
    exact List.map_congr_left fun mn _ => congrArg CTxIn.prevout (check_vin _ mn)
  rw [DistinctVins, same]
  exact distinct

theorem find_iff {vin : CTxIn} :
    man.find vin = some mn ↔ mn ∈ man.vMasternodes ∧ mn.vin.prevout = vin.prevout := by
  constructor
  · intro found
    have same := List.find?_some found
    exact ⟨List.mem_of_find?_eq_some found, beq_iff_eq.mp same⟩
  · intro both
    have itself := RankQuery.find_self distinct both.1
    rwa [CMasternodeMan.find, both.2] at itself

theorem find_perm (perm : man.vMasternodes.Perm man'.vMasternodes) (vin : CTxIn) :
    man'.find vin = man.find vin := by
  have distinct' : DistinctVins man'.vMasternodes := (perm.map _).nodup_iff.mp distinct
  ext mn
  rw [find_iff distinct', find_iff distinct, perm.mem_iff]

theorem vec_found (member : s ∈ query.vecMasternodeLastPaid fFilterSigTime man) :
    ∃ pmn, (query.checkedMan man).find s.2 = some pmn ∧ pmn.vin = s.2 := by
  obtain ⟨pmn, inList, made⟩ := List.mem_filterMap.mp member
  have same := query.queueEntry_vin fFilterSigTime made
  refine ⟨pmn, ?_, same.symm⟩
  rw [same]
  exact RankQuery.find_self (query.checked_distinct distinct) inList

end

def pick (man : CMasternodeMan) (sorted : List (Int × CTxIn)) : Option CMasternode :=
  (firstMax query.queueScore 0 none (sorted.take (query.lookedAt man))).bind fun s =>
    (query.checkedMan man).find s.2

theorem next_eq (distinct : DistinctVins man.vMasternodes) (sorter : ScoreSorter) :
    query.getNextMasternodeInQueueForPayment sorter fFilterSigTime man =
      (query.pick man (sorter.sort (query.queue fFilterSigTime man)),
        (query.queue fFilterSigTime man).length) := by
  have choice : ∀ filter, query.choose sorter filter man =
      (query.pick man (sorter.sort (query.vecMasternodeLastPaid filter man)),
        (query.vecMasternodeLastPaid filter man).length) := by
    intro filter
    have found : ∀ s ∈ sorter.sort (query.vecMasternodeLastPaid filter man),
        ∃ pmn, (query.checkedMan man).find s.2 = some pmn ∧ pmn.vin = s.2 :=
      fun s member => query.vec_found filter distinct (sorter.mem_sort.mp member)
    have best := query.bestOf_eq found (query.enabledOf man query.mnTier / 10) 0 0 none
    exact Prod.ext best rfl
  rw [getNextMasternodeInQueueForPayment, queue, choice, choice]
  cases query.upgrading man with
  | false => simp
  | true =>
    cases fFilterSigTime with
    | false => rfl
    | true => rfl

theorem queue_distinct (distinct : DistinctVins man.vMasternodes) :
    ((query.queue fFilterSigTime man).map fun s => s.2.prevout).Nodup := by
  apply (query.checked_distinct distinct).filterMap
  intro mn s made
  rw [query.queueEntry_vin _ made]

theorem pick_some (distinct : DistinctVins man.vMasternodes)
    (perm : (query.queue fFilterSigTime man).Perm order)
    (best : firstMax query.queueScore 0 none (order.take (query.lookedAt man)) = some s) :
    s ∈ query.queue fFilterSigTime man ∧
      ∃ pmn, query.pick man order = some pmn ∧ pmn.vin = s.2 := by
  have member := perm.mem_iff.mpr (List.mem_of_mem_take (firstMax_eq_some_iff.mp best).mem)
  obtain ⟨pmn, found, same⟩ := query.vec_found _ distinct member
  refine ⟨member, pmn, ?_, same⟩
  rw [pick, best, Option.bind_some, found]

theorem pick_none (best : firstMax query.queueScore 0 none (order.take (query.lookedAt man)) = none)
    :
    query.pick man order = none := by
  rw [pick, best, Option.bind_none]

theorem pick_alike (distinct : DistinctVins man.vMasternodes) {one other : List (Int × CTxIn)}
    (perm : (query.queue fFilterSigTime man).Perm one)
    (perm' : (query.queue fFilterSigTime man).Perm other) :
    query.pick man one = query.pick man other ↔
      firstMax query.queueScore 0 none (one.take (query.lookedAt man)) =
        firstMax query.queueScore 0 none (other.take (query.lookedAt man)) := by
  constructor
  · intro same
    cases best : firstMax query.queueScore 0 none (one.take (query.lookedAt man)) with
    | none =>
      cases best' : firstMax query.queueScore 0 none (other.take (query.lookedAt man)) with
      | none => rfl
      | some s' =>
        obtain ⟨-, pmn', picked', -⟩ := query.pick_some fFilterSigTime distinct perm' best'
        rw [query.pick_none best, picked'] at same
        cases same
    | some s =>
      obtain ⟨member, pmn, picked, sameVin⟩ := query.pick_some fFilterSigTime distinct perm best
      rw [picked] at same
      cases best' : firstMax query.queueScore 0 none (other.take (query.lookedAt man)) with
      | none =>
        rw [query.pick_none best'] at same
        cases same
      | some s' =>
        obtain ⟨member', pmn', picked', sameVin'⟩ :=
          query.pick_some fFilterSigTime distinct perm' best'
        rw [picked', Option.some.injEq] at same
        have vins : s.2 = s'.2 := by rw [← sameVin, same, sameVin']
        exact congrArg some (List.inj_on_of_nodup_map
          (query.queue_distinct fFilterSigTime distinct) member member'
          (congrArg CTxIn.prevout vins))
  · intro same
    rw [pick, pick, same]

def made (man : CMasternodeMan) : CMasternode → Option (Int × CTxIn) :=
  query.queueEntry (query.enabledOf man) (fFilterSigTime && !query.upgrading man) ∘ query.checked

theorem queue_made (perm : man.vMasternodes.Perm man'.vMasternodes) :
    query.queue fFilterSigTime man' =
      man'.vMasternodes.filterMap (query.made fFilterSigTime man) := by
  rw [queue, vecMasternodeLastPaid, query.upgrading_perm perm, query.enabledOf_perm perm,
    List.filterMap_map, made]

theorem pick_perm (distinct : DistinctVins man.vMasternodes)
    (perm : man.vMasternodes.Perm man'.vMasternodes) : query.pick man' = query.pick man := by
  funext sorted
  have looked : query.lookedAt man' = query.lookedAt man := by
    rw [lookedAt, lookedAt, query.enabledOf_perm perm]
  have found : ∀ vin, (query.checkedMan man').find vin = (query.checkedMan man).find vin :=
    find_perm (query.checked_distinct distinct) (perm.map query.checked)
  simp [pick, looked, found]

/-- One entry of the queue wins however it is sorted, or none does. -/
def Undisputed (man : CMasternodeMan) : Prop :=
  (∃ s, Wins Prod.fst query.queueScore 0 (query.lookedAt man)
      (query.queue fFilterSigTime man) s) ∨
    NoneWins Prod.fst query.queueScore 0 (query.lookedAt man) (query.queue fFilterSigTime man)

theorem same_next_iff (distinct : DistinctVins man.vMasternodes) :
    query.SameNext fFilterSigTime man ↔ query.Undisputed fFilterSigTime man := by
  have own := query.queue_made fFilterSigTime (List.Perm.refl man.vMasternodes)
  have picks : query.SameNext fFilterSigTime man ↔
      Settled Prod.fst (query.pick man) (query.queue fFilterSigTime man) := by
    rw [own, ← same_lists_iff]
    have next : ∀ (sorter : ScoreSorter) (man' : CMasternodeMan),
        man.vMasternodes.Perm man'.vMasternodes →
          (query.getNextMasternodeInQueueForPayment sorter fFilterSigTime man =
              query.getNextMasternodeInQueueForPayment sorter fFilterSigTime man' ↔
            query.pick man (sorter.sort
                (man.vMasternodes.filterMap (query.made fFilterSigTime man))) =
              query.pick man (sorter.sort
                (man'.vMasternodes.filterMap (query.made fFilterSigTime man)))) := by
      intro sorter man' perm
      have distinct' : DistinctVins man'.vMasternodes := (perm.map _).nodup_iff.mp distinct
      have lengths := (perm.filterMap (query.made fFilterSigTime man)).length_eq
      rw [query.next_eq fFilterSigTime distinct, query.next_eq fFilterSigTime distinct',
        query.pick_perm distinct perm, own, query.queue_made fFilterSigTime perm, Prod.mk.injEq,
        and_iff_left lengths]
    exact forall_congr' fun sorter => forall_congr' fun man' => forall_congr' (next sorter man')
  rw [picks, Undisputed,
    ← top_settled_iff (List.Nodup.of_map _ (query.queue_distinct fFilterSigTime distinct))]
  apply settled_congr
  intro one other perm perm'
  exact query.pick_alike fFilterSigTime distinct perm perm'

end Queue

end QueueQuery

def plainQueue : QueueQuery where
  toRankCall := enforcedQuery.toRankCall
  sporks := ⟨true, true⟩
  chain := [(1, 1500000000), (0, 1400000000)]
  payments := ⟨∅, ∅, ∅⟩
  lockMain := true
  payScript key := key.bytes
  hashSigned vin _ := vin.prevout.hash
  getInputAge _ := 1000
  later sigTime nMnCount time := decide (time.toInt < sigTime.toInt + nMnCount * 156)
  nBlockHeight := 200
  mnTier := UNKNOWN

theorem single_undisputed : plainQueue.Undisputed true (listOf [oldEntry]) := by
  refine Or.inl ⟨(19565824, oldEntry.vin), by decide, by decide, by decide, ?_⟩
  intro other member different
  have single : plainQueue.queue true (listOf [oldEntry]) = [(19565824, oldEntry.vin)] := by decide
  exact absurd (List.mem_singleton.mp member) different

def firstTied : CMasternode := signedAt 1500000000 0x1000001

def secondTied : CMasternode := signedAt 1500000000 0x1000002

end OxidPaymentQueue
