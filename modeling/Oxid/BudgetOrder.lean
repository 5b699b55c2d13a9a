import Oxid.BudgetThreshold
import Oxid.Library.Ranking

/-!
Which proposals share a month's budget, and in what order. Two proposals may be paid for by
one transaction, and the sort then leaves their order open.
-/
namespace OxidBudgetOrder
open OxidPrimitives OxidChainParams OxidMapKeys OxidBudgetThreshold OrderedMaps Ranking

def rankKey (entry : Uint256 × CBudgetProposal) : Int ×ₗ Nat :=
  toLex (entry.2.netVotes, entry.2.nFeeTXHash.toNat)

def taken (proposal : CBudgetProposal) : CBudgetProposal :=
  { proposal with nAlloted := proposal.nAmount }

def grab (query : BudgetQuery) (nHeight : Int) (sorted : List (Uint256 × CBudgetProposal)) :
    List CBudgetProposal :=
  (allot query (nextCycle query.params nHeight)
    (getTotalBudget query.params (nextCycle query.params nHeight)) sorted 0 ∅).1

def cleanedWalk (query : BudgetQuery) (walk : List (Uint256 × CBudgetProposal)) :
    List (Uint256 × CBudgetProposal) :=
  walk.map fun entry => (entry.1, entry.2.cleanAndRemove query.man)

/-- `GetBudget`, with any sort and the proposals in the order in which the map is walked. -/
def getBudget (sorter : Sorter rankKey) (query : BudgetQuery)
    (walk : List (Uint256 × CBudgetProposal)) : List CBudgetProposal :=
  match query.tipHeight with
  | none => []
  | some nHeight => grab query nHeight (sorter.sort (cleanedWalk query walk))

/-- A proposal that passes the first check for the cycle. -/
def passes (query : BudgetQuery) (nHeight : Int) (entry : Uint256 × CBudgetProposal) : Bool :=
  runsAt query (nextCycle query.params nHeight) entry.2 &&
    decide (entry.2.netVotes > (countAsked query.sporks query.man.vMasternodes / 10 : Nat))

def allotted (proposals : List CBudgetProposal) : Int :=
  (proposals.map CBudgetProposal.nAlloted).sum

/-- One proposal before another: by more votes, or by as many and no lesser hash. -/
def Before (first second : CBudgetProposal) : Prop :=
  second.netVotes < first.netVotes ∨
    second.netVotes = first.netVotes ∧ second.nFeeTXHash ≤ first.nFeeTXHash

structure Served (query : BudgetQuery) (nHeight : Int)
    (sorted : List (Uint256 × CBudgetProposal)) (ret : List CBudgetProposal) : Prop where
  ordered : ret.Pairwise Before
  listed : ∀ proposal ∈ ret, ∃ entry ∈ sorted, passes query nHeight entry = true ∧
    proposal = taken entry.2
  within : allotted ret ≤ getTotalBudget query.params (nextCycle query.params nHeight)
  left : ∀ ahead entry behind, sorted = ahead ++ entry :: behind →
    passes query nHeight entry = true →
      (∃ more, ret = grab query nHeight ahead ++ taken entry.2 :: more) ∨
        getTotalBudget query.params (nextCycle query.params nHeight) <
          entry.2.nAmount + allotted (grab query nHeight ahead)

/-- No two proposals that pass the checks have both the same votes and the same fee
    transaction. -/
def Distinguished (query : BudgetQuery) (nHeight : Int)
    (walk : List (Uint256 × CBudgetProposal)) : Prop :=
  Untied rankKey ((cleanedWalk query walk).filter (passes query nHeight))

section Grabbing

variable {query : BudgetQuery} {nHeight : Int}

def amounts (proposals : List CBudgetProposal) : Int :=
  (proposals.map CBudgetProposal.nAmount).sum

theorem allotted_taken (proposals : List CBudgetProposal) :
    allotted (proposals.map taken) = amounts proposals := by
  unfold allotted amounts
  rw [List.map_map]
  rfl

theorem affordable_sublist (room : Int) (proposals : List CBudgetProposal) :
    (affordable room proposals).Sublist proposals := by
  induction proposals generalizing room with
  | nil => exact List.Sublist.refl []
  | cons first rest ih =>
    unfold affordable
    split_ifs
    · exact (ih _).cons_cons first
    · exact (ih room).cons first

theorem affordable_within {room : Int} (some : 0 ≤ room) (proposals : List CBudgetProposal) :
    amounts (affordable room proposals) ≤ room := by
  induction proposals generalizing room with
  | nil => exact some
  | cons first rest ih =>
    unfold affordable
    split_ifs with fits
    · have later := ih (sub_nonneg.mpr fits)
      unfold amounts at later ⊢
      rw [List.map_cons, List.sum_cons]
      omega
    · exact ih some

theorem affordable_append (room : Int) (ahead behind : List CBudgetProposal) :
    affordable room (ahead ++ behind) =
      affordable room ahead ++ affordable (room - amounts (affordable room ahead)) behind := by
  induction ahead generalizing room with
  | nil => simp [affordable, amounts]
  | cons first rest ih =>
    rw [List.cons_append]
    by_cases fits : first.nAmount ≤ room
    · have here : affordable room (first :: rest) =
          first :: affordable (room - first.nAmount) rest := by
        rw [affordable, if_pos fits]
      have spent : room - amounts (affordable room (first :: rest)) =
          room - first.nAmount - amounts (affordable (room - first.nAmount) rest) := by
        rw [here]
        unfold amounts
        rw [List.map_cons, List.sum_cons]
        omega
      rw [spent, here, affordable, if_pos fits, ih]
      rfl
    · have here : affordable room (first :: rest) = affordable room rest := by
        rw [affordable, if_neg fits]
      rw [here, affordable, if_neg fits, ih]

theorem passes_supported :
    passes query nHeight = fun entry =>
      Supported query (nextCycle query.params nHeight) entry.2 := by
  funext entry
  unfold passes Supported
  rw [countAsked_zero]
  rfl

def served (query : BudgetQuery) (nHeight : Int) (sorted : List (Uint256 × CBudgetProposal)) :
    List CBudgetProposal :=
  affordable (getTotalBudget query.params (nextCycle query.params nHeight))
    ((sorted.filter (passes query nHeight)).map Prod.snd)

theorem grab_served (sorted : List (Uint256 × CBudgetProposal)) :
    grab query nHeight sorted = (served query nHeight sorted).map taken := by
  unfold grab served
  rw [allot_taken, Int.sub_zero, passes_supported, List.filter_map]
  rfl

theorem getTotalBudget_nonneg (params : ChainParams) (height : Int) :
    0 ≤ getTotalBudget params height := by
  unfold getTotalBudget
  split_ifs
  · decide
  · decide

theorem before_of_key {first second : Uint256 × CBudgetProposal}
    (below : rankKey second ≤ rankKey first) : Before (taken first.2) (taken second.2) := by
  rcases Prod.Lex.le_iff.mp below with less | ⟨same, less⟩
  · exact Or.inl less
  · exact Or.inr ⟨same, BitVec.le_def.mpr less⟩

theorem served_sublist (sorted : List (Uint256 × CBudgetProposal)) :
    (grab query nHeight sorted).Sublist (sorted.map fun entry => taken entry.2) := by
  rw [grab_served]
  have listed := ((affordable_sublist (getTotalBudget query.params (nextCycle query.params nHeight))
    ((sorted.filter (passes query nHeight)).map Prod.snd)).trans
      (List.filter_sublist.map Prod.snd)).map taken
  rw [List.map_map] at listed
  exact listed

theorem grab_serves {sorted : List (Uint256 × CBudgetProposal)}
    (falling : sorted.Pairwise fun first second => rankKey second ≤ rankKey first) :
    Served query nHeight sorted (grab query nHeight sorted) where
  ordered := List.Pairwise.sublist (served_sublist sorted)
    (List.pairwise_map.mpr (falling.imp before_of_key))
  listed := by
    intro proposal member
    rw [grab_served] at member
    obtain ⟨source, inside, rfl⟩ := List.mem_map.mp member
    obtain ⟨entry, kept, rfl⟩ := List.mem_map.mp (affordable_mem inside)
    obtain ⟨listed, passing⟩ := List.mem_filter.mp kept
    exact ⟨entry, listed, passing, rfl⟩
  within := by
    rw [grab_served, allotted_taken]
    exact affordable_within (getTotalBudget_nonneg _ _) _
  left := by
    rintro ahead entry behind rfl passing
    have parts : served query nHeight (ahead ++ entry :: behind) =
        served query nHeight ahead ++ affordable
          (getTotalBudget query.params (nextCycle query.params nHeight) -
            amounts (served query nHeight ahead))
          (entry.2 :: (behind.filter (passes query nHeight)).map Prod.snd) := by
      unfold served
      rw [List.filter_append, List.filter_cons_of_pos passing, List.map_append,
        affordable_append]
      rfl
    rw [grab_served, grab_served, parts, allotted_taken]
    by_cases fits : entry.2.nAmount ≤
        getTotalBudget query.params (nextCycle query.params nHeight) -
          amounts (served query nHeight ahead)
    · left
      rw [affordable, if_pos fits, List.map_append, List.map_cons]
      exact ⟨_, rfl⟩
    · right
      omega

end Grabbing

section Walks

variable {query : BudgetQuery} {walk walk' : List (Uint256 × CBudgetProposal)}

theorem getBudget_walks {nHeight : Int} (tip : query.tipHeight = some nHeight)
    (apart : Distinguished query nHeight walk) (perm : walk.Perm walk')
    (sorter other : Sorter rankKey) :
    getBudget sorter query walk = getBudget other query walk' := by
  unfold getBudget
  rw [tip]
  dsimp only
  rw [grab_served, grab_served]
  unfold served
  have walks : (cleanedWalk query walk).Perm (cleanedWalk query walk') := perm.map _
  rw [sorter.filter_unique other walks apart]

end Walks

theorem budget_served (sorter : Sorter rankKey) (query : BudgetQuery)
    (walk : List (Uint256 × CBudgetProposal)) :
    match query.tipHeight with
    | none => getBudget sorter query walk = []
    | some nHeight =>
      (∃ sorted, sorted.Perm (cleanedWalk query walk) ∧
        Served query nHeight sorted (getBudget sorter query walk)) ∧
      (Distinguished query nHeight walk → ∀ (other : Sorter rankKey) (walk' : List _),
        walk.Perm walk' → getBudget sorter query walk = getBudget other query walk') := by
  cases tip : query.tipHeight with
  | none =>
    unfold getBudget
    rw [tip]
  | some nHeight =>
    refine ⟨⟨sorter.sort (cleanedWalk query walk), sorter.perm _, ?_⟩, ?_⟩
    · have here : getBudget sorter query walk =
          grab query nHeight (sorter.sort (cleanedWalk query walk)) := by
        unfold getBudget
        rw [tip]
      rw [here]
      exact grab_serves (sorter.falling _)
    · intro apart other walk' perm
      exact getBudget_walks tip apart perm sorter other

section Samples

def sharing (nAmount : Int) : CBudgetProposal :=
  ⟨0, true, 43200, 172800, nAmount, 1500000000, 7, singleVote⟩

def sharingWalk : List (Uint256 × CBudgetProposal) :=
  [(9, sharing (30000 * COIN)), (10, sharing (40000 * COIN))]

theorem shared_fee_order :
    sharingWalk.Perm sharingWalk.reverse ∧
      getBudget (stable rankKey) sampleQuery sharingWalk ≠
        getBudget (stable rankKey) sampleQuery sharingWalk.reverse := by
  refine ⟨(List.reverse_perm sharingWalk).symm, fun same => ?_⟩
  have tied : ∀ walk, walk = sharingWalk ∨ walk = sharingWalk.reverse →
      getBudget (stable rankKey) sampleQuery walk =
        grab sampleQuery 50000 (cleanedWalk sampleQuery walk) := by
    intro walk either
    unfold getBudget
    rw [stable_settled]
    · rfl
    · rcases either with rfl | rfl
      · decide +kernel
      · decide +kernel
  rw [tied _ (Or.inl rfl), tied _ (Or.inr rfl)] at same
  exact absurd (congrArg (List.map CBudgetProposal.nAmount) same) (by decide +kernel)

end Samples

end OxidBudgetOrder
