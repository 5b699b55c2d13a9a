import Oxid.StakeModifier
import Mathlib.Data.List.MinMax
import Mathlib.Data.List.Perm.Subperm

/-!
The rounds in which a new stake modifier takes its bits from the blocks of the selection
interval.
-/
namespace OxidModifierSelection
open OxidPrimitives OxidStakeModifier

def stamp (pindex : StakeIndex) : Int × Uint256 := (pindex.getBlockTime, pindex.hash)

def StampLe (a b : Int × Uint256) : Prop := a.1 < b.1 ∨ a.1 = b.1 ∧ a.2 ≤ b.2

/-- An entry over which the next modifier is selected: a modifier is known below it, and its
    interval is over. The block index knows the entries, each one above its parent. -/
structure SelectingChain where
  node : NodeRun
  pindexPrev : StakeIndex
  ancestry : List StakeIndex
  held : Holds node (pindexPrev :: ancestry)
  linked : (pindexPrev :: ancestry).IsChain fun pindex pprev => pindex.nHeight = pprev.nHeight + 1
  higher : pindexPrev.nHeight ≠ 0
  nStakeModifier : UInt64
  nModifierTime : Int
  last : getLastStakeModifier (pindexPrev :: ancestry) = some (nStakeModifier, nModifierTime)
  elapsed : nModifierTime / 60 < pindexPrev.getBlockTime / 60

variable (hash : Uint256 → UInt64 → Uint256)

namespace SelectingChain
variable (chain : SelectingChain)

def nSelectionIntervalStart : Int :=
  chain.pindexPrev.getBlockTime / 60 * 60 - getStakeModifierSelectionInterval

def entries : List StakeIndex :=
  ((chain.pindexPrev :: chain.ancestry).takeWhile fun pindex =>
    chain.nSelectionIntervalStart ≤ pindex.getBlockTime).reverse.mergeSort fun a b =>
      (stamp a).1 < (stamp b).1 || ((stamp a).1 == (stamp b).1 && (stamp a).2 ≤ (stamp b).2)

/-- Which calculation the rounds use, settled by the first candidate. -/
def fModifierV2 : Bool :=
  match chain.entries with
  | [] => false
  | pindex :: _ => decide (nModifierUpdateBlock ≤ pindex.nHeight)

def hashSelection (pindex : StakeIndex) : Nat :=
  (selectionHash hash chain.fModifierV2 chain.nStakeModifier pindex).toNat

def stopAfter (sections : Nat) : Int :=
  chain.nSelectionIntervalStart +
    (((List.range sections).map getStakeModifierSelectionIntervalSection).sum : Nat)

def Unselected (earlier : List StakeIndex) (pindex : StakeIndex) : Prop :=
  pindex ∈ chain.entries ∧ pindex ∉ earlier

/-- Of the unselected candidates up to the stop, one of the least selection hash. -/
structure LeastWithin (earlier : List StakeIndex) (stop : Int) (pick : StakeIndex) : Prop where
  fresh : chain.Unselected earlier pick
  within : pick.getBlockTime ≤ stop
  least : ∀ other, chain.Unselected earlier other → other.getBlockTime ≤ stop →
    chain.hashSelection hash pick ≤ chain.hashSelection hash other

/-- What a round picks: the least within the stop, the first of them where hashes are
    equal; and the first unselected candidate where there are none within the stop. -/
structure Picked (earlier : List StakeIndex) (stop : Int) (pick : StakeIndex) : Prop where
  fresh : chain.Unselected earlier pick
  within : (∃ other, chain.Unselected earlier other ∧ other.getBlockTime ≤ stop) →
    chain.LeastWithin hash earlier stop pick
  tie : ∀ other, chain.Unselected earlier other → other.getBlockTime ≤ stop →
    chain.hashSelection hash other = chain.hashSelection hash pick →
      StampLe (stamp pick) (stamp other)
  beyond : (∀ other, chain.Unselected earlier other → stop < other.getBlockTime) →
    ∀ other, chain.Unselected earlier other → StampLe (stamp pick) (stamp other)

/-- The picks of the rounds, each by a rule on the picks before it, and a modifier of their
    entropy bits. -/
structure Selection (rule : List StakeIndex → Int → StakeIndex → Prop) (picks : List StakeIndex)
    (nStakeModifierNew : UInt64) : Prop where
  rounds : picks.length = min 64 chain.entries.length
  distinct : picks.Nodup
  picked : ∀ nRound pick, picks[nRound]? = some pick →
    rule (picks.take nRound) (chain.stopAfter (nRound + 1)) pick
  bits : ∀ nRound, nStakeModifierNew.toNat.testBit nRound = true ↔
    ∃ pick, picks[nRound]? = some pick ∧ pick.getStakeEntropyBit = 1

def SelectsBy (rule : List StakeIndex → Int → StakeIndex → Prop) : Prop :=
  ∃ picks nStakeModifierNew,
    computeNextStakeModifier hash chain.node (chain.pindexPrev :: chain.ancestry) =
      ⟨true, nStakeModifierNew, true⟩ ∧
    chain.Selection rule picks nStakeModifierNew

end SelectingChain

section Scan
variable {hash} {node : NodeRun} {mapSelectedBlocks : List Uint256} {stop : Int} {prev : UInt64}
  {fModifierV2 : Bool}

def fresh (mapSelectedBlocks : List Uint256) (entries : List StakeIndex) : List StakeIndex :=
  entries.filter fun pindex => decide (pindex.hash ∉ mapSelectedBlocks)

def withinStop (stop : Int) (entries : List StakeIndex) : List StakeIndex :=
  entries.filter fun pindex => decide (pindex.getBlockTime ≤ stop)

def compared (stop : Int) : List StakeIndex → List StakeIndex
  | [] => []
  | pindex :: rest => pindex :: withinStop stop rest

def lesser (hashSelection : StakeIndex → Nat) (picked : Option StakeIndex)
    (entries : List StakeIndex) : Option StakeIndex :=
  entries.foldl (List.argAux fun b c => hashSelection b < hashSelection c) picked

def scanning (hash : Uint256 → UInt64 → Uint256) (fModifierV2 : Bool) (prev : UInt64)
    (picked : Option StakeIndex) : Selecting :=
  ⟨fModifierV2, false, picked.map fun pindex =>
    (selectionHash hash fModifierV2 prev pindex, pindex)⟩

def selectionNumber (hash : Uint256 → UInt64 → Uint256) (fModifierV2 : Bool) (prev : UInt64)
    (pindex : StakeIndex) : Nat :=
  (selectionHash hash fModifierV2 prev pindex).toNat

variable {pindex : StakeIndex} {rest : List StakeIndex} {picked : Option StakeIndex}
variable {hashSelection : StakeIndex → Nat} {entries : List StakeIndex}

theorem lesser_one (best pindex : StakeIndex) :
    lesser hashSelection (some best) [pindex] =
      if hashSelection pindex < hashSelection best then some pindex else some best := rfl

theorem offer_scanning (picked : Option StakeIndex) (pindex : StakeIndex) :
    (scanning hash fModifierV2 prev picked).offer (selectionHash hash fModifierV2 prev pindex)
      pindex = scanning hash fModifierV2 prev
        (lesser (selectionNumber hash fModifierV2 prev) picked [pindex]) := by
  cases picked with
  | none => rfl
  | some best =>
    rw [lesser_one]
    unfold scanning Selecting.offer
    dsimp only [Option.map_some]
    by_cases smaller : selectionHash hash fModifierV2 prev pindex <
        selectionHash hash fModifierV2 prev best
    · have number : selectionNumber hash fModifierV2 prev pindex <
          selectionNumber hash fModifierV2 prev best := BitVec.lt_def.mp smaller
      rw [if_pos smaller, if_pos number]
      rfl
    · have number : ¬selectionNumber hash fModifierV2 prev pindex <
          selectionNumber hash fModifierV2 prev best := mt BitVec.lt_def.mpr smaller
      rw [if_neg smaller, if_neg number]
      rfl

theorem fresh_cons_of_mem (taken : pindex.hash ∈ mapSelectedBlocks) :
    fresh mapSelectedBlocks (pindex :: rest) = fresh mapSelectedBlocks rest := by
  unfold fresh
  rw [List.filter_cons_of_neg (by simpa using taken)]

theorem fresh_cons_of_notMem (untaken : pindex.hash ∉ mapSelectedBlocks) :
    fresh mapSelectedBlocks (pindex :: rest) = pindex :: fresh mapSelectedBlocks rest := by
  unfold fresh
  rw [List.filter_cons_of_pos (by simpa using untaken)]

theorem withinStop_beyond
    (sorted : (pindex :: rest).Pairwise fun a b => a.getBlockTime ≤ b.getBlockTime)
    (late : stop < pindex.getBlockTime) :
    withinStop stop (fresh mapSelectedBlocks (pindex :: rest)) = [] := by
  unfold withinStop fresh
  rw [List.filter_eq_nil_iff]
  intro other member
  have listed := (List.mem_filter.mp member).1
  have behind : pindex.getBlockTime ≤ other.getBlockTime := by
    rcases List.mem_cons.mp listed with rfl | later
    · exact le_refl _
    · exact List.rel_of_pairwise_cons sorted later
  rw [decide_eq_true_iff]
  omega

theorem selectFrom_cons (held : node.mapBlockIndex pindex.hash = some pindex)
    (goes : picked.isSome → pindex.getBlockTime ≤ stop) :
    selectFrom hash node mapSelectedBlocks stop prev (scanning hash fModifierV2 prev picked)
        ((pindex :: rest).map stamp) =
      selectFrom hash node mapSelectedBlocks stop prev (scanning hash fModifierV2 prev
        (if pindex.hash ∈ mapSelectedBlocks then picked
          else lesser (selectionNumber hash fModifierV2 prev) picked [pindex]))
        (rest.map stamp) := by
  have isSome : (scanning hash fModifierV2 prev picked).best.isSome = picked.isSome := by
    cases picked <;> rfl
  have stamped : (stamp pindex).2 = pindex.hash := rfl
  rw [List.map_cons, selectFrom]
  simp only [stamped, held]
  rw [isSome, if_neg (by intro stops; have := goes stops.1; omega)]
  split
  · rfl
  · exact congrArg (fun state => selectFrom hash node mapSelectedBlocks stop prev state _)
      (offer_scanning picked pindex)

theorem lesser_isSome : (lesser hashSelection picked [pindex]).isSome := by
  cases picked with
  | none => rfl
  | some best =>
    rw [lesser_one]
    split <;> rfl

section
variable (held : ∀ pindex ∈ entries, node.mapBlockIndex pindex.hash = some pindex)
  (sorted : entries.Pairwise fun a b => a.getBlockTime ≤ b.getBlockTime)
include held sorted

theorem selectFrom_some (selected : picked.isSome) :
    selectFrom hash node mapSelectedBlocks stop prev (scanning hash fModifierV2 prev picked)
        (entries.map stamp) =
      some (scanning hash fModifierV2 prev (lesser (selectionNumber hash fModifierV2 prev) picked
        (withinStop stop (fresh mapSelectedBlocks entries)))) := by
  induction entries generalizing picked with
  | nil => rfl
  | cons pindex rest ih =>
    have here := held pindex List.mem_cons_self
    have heldRest : ∀ other ∈ rest, node.mapBlockIndex other.hash = some other := by
      intro other member
      exact held other (List.mem_cons_of_mem pindex member)
    by_cases late : stop < pindex.getBlockTime
    · have isSome : (scanning hash fModifierV2 prev picked).best.isSome := by
        rw [scanning, Option.isSome_map]
        exact selected
      have stamped : (stamp pindex).2 = pindex.hash := rfl
      rw [withinStop_beyond sorted late, List.map_cons, selectFrom]
      simp only [stamped, here]
      rw [if_pos ⟨isSome, late⟩]
      rfl
    · rw [selectFrom_cons here (fun _ => by omega)]
      by_cases taken : pindex.hash ∈ mapSelectedBlocks
      · rw [if_pos taken, fresh_cons_of_mem taken]
        exact ih heldRest (List.pairwise_cons.mp sorted).2 selected
      · rw [if_neg taken, fresh_cons_of_notMem taken,
          ih heldRest (List.pairwise_cons.mp sorted).2 lesser_isSome, withinStop, withinStop,
          List.filter_cons_of_pos (by rw [decide_eq_true_iff]; omega)]
        rfl

theorem selectFrom_none :
    selectFrom hash node mapSelectedBlocks stop prev (scanning hash fModifierV2 prev none)
        (entries.map stamp) =
      some (scanning hash fModifierV2 prev ((compared stop (fresh mapSelectedBlocks entries)).argmin
        (selectionNumber hash fModifierV2 prev))) := by
  induction entries with
  | nil => rfl
  | cons pindex rest ih =>
    have heldRest : ∀ other ∈ rest, node.mapBlockIndex other.hash = some other := by
      intro other member
      exact held other (List.mem_cons_of_mem pindex member)
    have sortedRest := (List.pairwise_cons.mp sorted).2
    rw [selectFrom_cons (held pindex List.mem_cons_self) (by intro none'; cases none')]
    by_cases taken : pindex.hash ∈ mapSelectedBlocks
    · rw [if_pos taken, fresh_cons_of_mem taken]
      exact ih heldRest sortedRest
    · rw [if_neg taken, fresh_cons_of_notMem taken, selectFrom_some heldRest sortedRest rfl]
      rfl

end

theorem selectBlockFromCandidates_eq
    (held : ∀ other ∈ pindex :: rest, node.mapBlockIndex other.hash = some other)
    (sorted : (pindex :: rest).Pairwise fun a b => a.getBlockTime ≤ b.getBlockTime) :
    selectBlockFromCandidates hash node ((pindex :: rest).map stamp) mapSelectedBlocks stop prev =
      (compared stop (fresh mapSelectedBlocks (pindex :: rest))).argmin
        (selectionNumber hash (decide (nModifierUpdateBlock ≤ pindex.nHeight)) prev) := by
  have settled : selectFrom hash node mapSelectedBlocks stop prev .start
        ((pindex :: rest).map stamp) =
      selectFrom hash node mapSelectedBlocks stop prev
        (scanning hash (decide (nModifierUpdateBlock ≤ pindex.nHeight)) prev none)
        ((pindex :: rest).map stamp) := by
    have here := held pindex List.mem_cons_self
    simp [selectFrom, stamp, here, Selecting.start, scanning, Selecting.settleVersion]
  rw [selectBlockFromCandidates, settled, selectFrom_none held sorted]
  dsimp only [scanning]
  rw [Option.map_map]
  exact Option.map_id'

end Scan

namespace SelectingChain
variable {hash} {chain : SelectingChain}

theorem stamp_le_iff (a b : Int × Uint256) :
    (a.1 < b.1 || (a.1 == b.1 && a.2 ≤ b.2)) = true ↔ StampLe a b := by
  unfold StampLe
  rw [Bool.or_eq_true, decide_eq_true_iff, Bool.and_eq_true, beq_iff_eq, decide_eq_true_iff]

theorem stampLe_trans {a b c : Int × Uint256} (first : StampLe a b) (second : StampLe b c) :
    StampLe a c := by
  rcases first with before | ⟨same, below⟩
  · rcases second with later | ⟨level, -⟩ <;> left <;> omega
  · rcases second with later | ⟨level, under⟩
    · left
      omega
    · exact Or.inr ⟨by omega, BitVec.le_trans below under⟩

theorem stampLe_total (a b : Int × Uint256) : StampLe a b ∨ StampLe b a := by
  rcases Int.lt_trichotomy a.1 b.1 with before | same | after
  · exact Or.inl (Or.inl before)
  · rcases BitVec.le_total a.2 b.2 with below | above
    · exact Or.inl (Or.inr ⟨same, below⟩)
    · exact Or.inr (Or.inr ⟨same.symm, above⟩)
  · exact Or.inr (Or.inl after)

theorem sorted_entries : sortedByTimestamp (candidates chain.nSelectionIntervalStart
    (chain.pindexPrev :: chain.ancestry)) = chain.entries.map stamp := by
  unfold sortedByTimestamp candidates entries
  rw [← List.map_reverse]
  symm
  refine List.map_mergeSort ?_
  intro a _ b _
  rfl

theorem entries_perm : chain.entries.Perm ((chain.pindexPrev :: chain.ancestry).takeWhile
    fun pindex => chain.nSelectionIntervalStart ≤ pindex.getBlockTime) :=
  (List.mergeSort_perm _ _).trans (List.reverse_perm _)

theorem entries_stamped : chain.entries.Pairwise fun a b => StampLe (stamp a) (stamp b) := by
  refine (List.pairwise_mergeSort ?_ ?_ _).imp (fun le => (stamp_le_iff _ _).mp le)
  · intro a b c first second
    exact (stamp_le_iff _ _).mpr
      (stampLe_trans ((stamp_le_iff _ _).mp first) ((stamp_le_iff _ _).mp second))
  · intro a b
    rw [Bool.or_eq_true]
    exact (stampLe_total (stamp a) (stamp b)).imp (stamp_le_iff _ _).mpr (stamp_le_iff _ _).mpr

theorem entries_sorted : chain.entries.Pairwise fun a b => a.getBlockTime ≤ b.getBlockTime := by
  refine entries_stamped.imp ?_
  rintro a b (before | ⟨same, -⟩)
  · exact le_of_lt before
  · exact le_of_eq same

theorem entries_held {pindex : StakeIndex} (member : pindex ∈ chain.entries) :
    chain.node.mapBlockIndex pindex.hash = some pindex :=
  chain.held pindex ((List.takeWhile_sublist _).subset (entries_perm.subset member))

theorem entries_nodup : chain.entries.Nodup := by
  have falling : (chain.pindexPrev :: chain.ancestry).Pairwise fun a b => b.nHeight < a.nHeight := by
    refine List.isChain_iff_pairwise.mp (chain.linked.imp ?_)
    intro pindex pprev step
    omega
  refine entries_perm.nodup_iff.mpr (List.Nodup.sublist (List.takeWhile_sublist _) ?_)
  refine falling.imp ?_
  rintro a b below rfl
  exact lt_irrefl _ below

theorem hash_injective {a b : StakeIndex} (left : a ∈ chain.entries) (right : b ∈ chain.entries)
    (same : a.hash = b.hash) : a = b := by
  have here := entries_held left
  rw [same, entries_held right] at here
  exact (Option.some.inj here).symm

theorem entries_ne_nil : chain.entries ≠ [] := by
  have inside : chain.nSelectionIntervalStart ≤ chain.pindexPrev.getBlockTime := by
    unfold nSelectionIntervalStart
    omega
  have member : chain.pindexPrev ∈ chain.entries := by
    refine entries_perm.mem_iff.mpr ?_
    rw [List.takeWhile_cons_of_pos (by rw [decide_eq_true_iff]; exact inside)]
    exact List.mem_cons_self
  exact List.ne_nil_of_mem member

structure Running (hash : Uint256 → UInt64 → Uint256) (chain : SelectingChain)
    (picks : List StakeIndex) (state : Rounds) : Prop where
  stop : state.nSelectionIntervalStop = chain.stopAfter picks.length
  selected : state.mapSelectedBlocks = (picks.map StakeIndex.hash).reverse
  candidates : ∀ pick ∈ picks, pick ∈ chain.entries
  distinct : picks.Nodup
  picked : ∀ nRound pick, picks[nRound]? = some pick →
    chain.Picked hash (picks.take nRound) (chain.stopAfter (nRound + 1)) pick
  bits : ∀ nRound, state.nStakeModifierNew.toNat.testBit nRound = true ↔
    ∃ pick, picks[nRound]? = some pick ∧ pick.getStakeEntropyBit = 1

theorem running_start : Running hash chain [] ⟨0, chain.nSelectionIntervalStart, []⟩ where
  stop := by simp [stopAfter]
  selected := rfl
  candidates := by simp
  distinct := List.nodup_nil
  picked := by simp
  bits := by simp

variable {picks : List StakeIndex} {state : Rounds}

theorem mem_fresh (running : Running hash chain picks state) (pindex : StakeIndex) :
    pindex ∈ fresh state.mapSelectedBlocks chain.entries ↔ chain.Unselected picks pindex := by
  unfold fresh Unselected
  rw [List.mem_filter, decide_eq_true_iff, running.selected, List.mem_reverse, List.mem_map]
  refine and_congr_right fun member => not_congr ?_
  constructor
  · rintro ⟨pick, earlier, same⟩
    obtain rfl := hash_injective (running.candidates pick earlier) member same
    exact earlier
  · intro earlier
    exact ⟨pindex, earlier, rfl⟩

theorem fresh_ne_nil (running : Running hash chain picks state)
    (more : picks.length < chain.entries.length) :
    fresh state.mapSelectedBlocks chain.entries ≠ [] := by
  intro none'
  have inside : chain.entries ⊆ picks := by
    intro pindex member
    by_contra unselected
    have left' := (mem_fresh running pindex).mpr ⟨member, unselected⟩
    rw [none'] at left'
    cases left'
  have counted := (entries_nodup.subperm inside).length_le
  omega

theorem stampLe_of_idxOf {listed : List StakeIndex} {a b : StakeIndex}
    (ordered : listed.Pairwise fun a b => StampLe (stamp a) (stamp b)) (left : a ∈ listed)
    (right : b ∈ listed) (before : listed.idxOf a ≤ listed.idxOf b) :
    StampLe (stamp a) (stamp b) := by
  have placeA := List.idxOf_lt_length_of_mem left
  have placeB := List.idxOf_lt_length_of_mem right
  rcases Nat.lt_or_eq_of_le before with earlier | same
  · have le := List.pairwise_iff_getElem.mp ordered _ _ placeA placeB earlier
    rwa [List.getElem_idxOf, List.getElem_idxOf] at le
  · rw [(List.idxOf_inj left).mp same]
    exact Or.inr ⟨rfl, BitVec.le_refl _⟩

section Round

variable {stop : Int} {first pick : StakeIndex} {rest : List StakeIndex}

section
variable (ordered : (first :: rest).Pairwise fun a b => StampLe (stamp a) (stamp b))
  (unselected : ∀ other, other ∈ first :: rest ↔ chain.Unselected picks other)
include ordered unselected

theorem first_lowest (other : StakeIndex) (left' : chain.Unselected picks other) :
    StampLe (stamp first) (stamp other) := by
  rcases List.mem_cons.mp ((unselected other).mpr left') with rfl | later
  · exact Or.inr ⟨rfl, BitVec.le_refl _⟩
  · exact List.rel_of_pairwise_cons ordered later

theorem picked_late (late : stop < first.getBlockTime)
    (member : pick ∈ compared stop (first :: rest)) : chain.Picked hash picks stop pick := by
  have lowest := first_lowest ordered unselected
  have none' : ∀ other, chain.Unselected picks other → ¬other.getBlockTime ≤ stop := by
    intro other fresh within
    rcases lowest other fresh with before | ⟨same, -⟩
    · have after : first.getBlockTime < other.getBlockTime := before
      omega
    · have level : first.getBlockTime = other.getBlockTime := same
      omega
  have alone : pick = first := by
    rcases List.mem_cons.mp member with rfl | later
    · rfl
    · have kept := List.mem_filter.mp later
      have fresh := (unselected pick).mp (List.mem_cons_of_mem _ kept.1)
      exact absurd (of_decide_eq_true kept.2) (none' pick fresh)
  rw [alone]
  refine ⟨(unselected first).mp List.mem_cons_self, ?_, ?_, fun _ => lowest⟩
  · rintro ⟨other, left', within⟩
    exact absurd within (none' other left')
  · intro other left' within
    exact absurd within (none' other left')

theorem picked_early (early : first.getBlockTime ≤ stop)
    (least : (compared stop (first :: rest)).argmin
      (chain.hashSelection hash) = some pick) : chain.Picked hash picks stop pick := by
  have sublist : (compared stop (first :: rest)).Sublist (first :: rest) :=
    List.filter_sublist.cons_cons first
  obtain ⟨member, smallest, earliest⟩ := List.argmin_eq_some_iff.mp least
  have fresh := (unselected pick).mp (sublist.subset member)
  have comparedAll : ∀ other, chain.Unselected picks other → other.getBlockTime ≤ stop →
      other ∈ compared stop (first :: rest) := by
    intro other left' within
    rcases List.mem_cons.mp ((unselected other).mpr left') with rfl | later
    · exact List.mem_cons_self
    · exact List.mem_cons_of_mem _ (List.mem_filter.mpr ⟨later, decide_eq_true within⟩)
  have within : pick.getBlockTime ≤ stop := by
    rcases List.mem_cons.mp member with rfl | later
    · exact early
    · exact of_decide_eq_true (List.mem_filter.mp later).2
  refine ⟨fresh, ?_, ?_, ?_⟩
  · intro _
    exact ⟨fresh, within, fun other left' early =>
      smallest other (comparedAll other left' early)⟩
  · intro other left' early same
    have there := comparedAll other left' early
    exact stampLe_of_idxOf (ordered.sublist sublist) member there
      (earliest other there (le_of_eq same))
  · intro beyond
    exact absurd within (not_le.mpr (beyond pick fresh))

end

end Round

theorem picked_of_argmin (running : Running hash chain picks state) {stop : Int} {pick : StakeIndex}
    (least : (compared stop (fresh state.mapSelectedBlocks chain.entries)).argmin
      (chain.hashSelection hash) = some pick) : chain.Picked hash picks stop pick := by
  have ordered : (fresh state.mapSelectedBlocks chain.entries).Pairwise
      fun a b => StampLe (stamp a) (stamp b) := entries_stamped.filter _
  have unselected := mem_fresh running
  generalize fresh state.mapSelectedBlocks chain.entries = untaken at least ordered unselected
  cases untaken with
  | nil => cases least
  | cons first rest =>
    by_cases late : stop < first.getBlockTime
    · exact picked_late ordered unselected late (List.argmin_mem least)
    · exact picked_early ordered unselected (not_lt.mp late) least

theorem entropy_cases (pindex : StakeIndex) :
    pindex.getStakeEntropyBit = 0 ∨ pindex.getStakeEntropyBit = 1 := by
  unfold StakeIndex.getStakeEntropyBit
  rcases Nat.mod_two_eq_zero_or_one pindex.hash.toNat with even | odd
  · exact Or.inl (by rw [even]; rfl)
  · exact Or.inr (by rw [odd]; rfl)

theorem one_shifted {nRound : Nat} (few : nRound < 64) :
    ((1 : UInt64) <<< UInt64.ofNat nRound).toNat = 2 ^ nRound := by
  have power : 2 ^ nRound < 2 ^ 64 := Nat.pow_lt_pow_right (by decide) few
  rw [UInt64.toNat_shiftLeft, UInt64.toNat_ofNat', Nat.mod_mod_of_dvd _ (by decide),
    Nat.mod_eq_of_lt few, Nat.shiftLeft_eq, UInt64.toNat_one, Nat.one_mul, Nat.mod_eq_of_lt power]

theorem bit_added (modifier : UInt64) (pindex : StakeIndex) {nRound : Nat} (few : nRound < 64)
    (bit : Nat) :
    (modifier ||| pindex.getStakeEntropyBit <<< UInt64.ofNat nRound).toNat.testBit bit = true ↔
      modifier.toNat.testBit bit = true ∨ bit = nRound ∧ pindex.getStakeEntropyBit = 1 := by
  rw [UInt64.toNat_or, Nat.testBit_or, Bool.or_eq_true]
  refine or_congr_right ?_
  rcases entropy_cases pindex with even | odd
  · simp [even]
  · rw [odd, one_shifted few, Nat.testBit_two_pow, decide_eq_true_iff]
    simp [eq_comm]

theorem getElem?_concat_iff (pick other : StakeIndex) (nRound : Nat) :
    (picks ++ [pick])[nRound]? = some other ↔
      picks[nRound]? = some other ∨ nRound = picks.length ∧ other = pick := by
  rcases Nat.lt_trichotomy nRound picks.length with earlier | rfl | later
  · rw [List.getElem?_append_left earlier]
    exact (or_iff_left fun last => by omega).symm
  · rw [List.getElem?_concat_length, List.getElem?_eq_none (le_refl _)]
    simp [eq_comm]
  · rw [List.getElem?_eq_none (by simp; omega), List.getElem?_eq_none (by omega)]
    simp
    omega

theorem stopAfter_succ (sections : Nat) : chain.stopAfter (sections + 1) =
    chain.stopAfter sections + getStakeModifierSelectionIntervalSection sections := by
  unfold stopAfter
  rw [List.range_succ, List.map_append, List.sum_append]
  simp only [List.map_cons, List.map_nil, List.sum_singleton]
  omega

theorem selectBlockFromCandidates_isSome (running : Running hash chain picks state) (stop : Int)
    (more : picks.length < chain.entries.length) : ∃ pick,
    selectBlockFromCandidates hash chain.node (chain.entries.map stamp) state.mapSelectedBlocks
      stop chain.nStakeModifier = some pick ∧ chain.Picked hash picks stop pick := by
  have untaken := fresh_ne_nil running more
  have version : chain.fModifierV2 = match chain.entries with
      | [] => false
      | pindex :: _ => decide (nModifierUpdateBlock ≤ pindex.nHeight) := rfl
  have picked : selectBlockFromCandidates hash chain.node (chain.entries.map stamp)
      state.mapSelectedBlocks stop chain.nStakeModifier =
        (compared stop (fresh state.mapSelectedBlocks chain.entries)).argmin
          (chain.hashSelection hash) := by
    cases listed : chain.entries with
    | nil => exact absurd listed entries_ne_nil
    | cons first rest =>
      rw [listed] at version
      have held : ∀ other ∈ first :: rest, chain.node.mapBlockIndex other.hash = some other := by
        intro other member
        rw [← listed] at member
        exact entries_held member
      have sorted := @entries_sorted chain
      rw [listed] at sorted
      rw [selectBlockFromCandidates_eq held sorted]
      dsimp only at version
      rw [← version]
      rfl
  cases least : (compared stop (fresh state.mapSelectedBlocks chain.entries)).argmin
      (chain.hashSelection hash) with
  | none =>
    rw [List.argmin_eq_none] at least
    cases listed : fresh state.mapSelectedBlocks chain.entries with
    | nil => exact absurd listed untaken
    | cons first rest =>
      rw [listed] at least
      cases least
  | some pick => exact ⟨pick, picked.trans least, picked_of_argmin running least⟩

theorem running_step (running : Running hash chain picks state) (few : picks.length < 64)
    {pick : StakeIndex} (picked : chain.Picked hash picks
      (state.nSelectionIntervalStop + getStakeModifierSelectionIntervalSection picks.length) pick) :
    Running hash chain (picks ++ [pick])
      ⟨state.nStakeModifierNew ||| (pick.getStakeEntropyBit <<< UInt64.ofNat picks.length),
        state.nSelectionIntervalStop + getStakeModifierSelectionIntervalSection picks.length,
        pick.hash :: state.mapSelectedBlocks⟩ where
  stop := by
    rw [List.length_append, List.length_singleton, stopAfter_succ, running.stop]
  selected := by
    rw [List.map_append, List.map_singleton, List.reverse_append, running.selected]
    rfl
  candidates := by
    intro other member
    rcases List.mem_append.mp member with earlier | last
    · exact running.candidates other earlier
    · rw [List.mem_singleton.mp last]
      exact picked.fresh.1
  distinct := by
    rw [List.nodup_append]
    refine ⟨running.distinct, List.nodup_singleton pick, ?_⟩
    rintro other earlier last member rfl
    rw [List.mem_singleton.mp member] at earlier
    exact picked.fresh.2 earlier
  picked := by
    intro nRound other found
    rcases (getElem?_concat_iff pick other nRound).mp found with earlier | ⟨rfl, rfl⟩
    · have inside := (List.getElem?_eq_some_iff.mp earlier).1
      rw [List.take_append_of_le_length (by omega)]
      exact running.picked nRound other earlier
    · rw [List.take_append_of_le_length (le_refl _), List.take_length, stopAfter_succ,
        ← running.stop]
      exact picked
  bits := by
    intro nRound
    rw [bit_added _ _ few, running.bits]
    constructor
    · rintro (⟨other, earlier, odd⟩ | ⟨last, odd⟩)
      · exact ⟨other, (getElem?_concat_iff pick other nRound).mpr (Or.inl earlier), odd⟩
      · exact ⟨pick, (getElem?_concat_iff pick pick nRound).mpr (Or.inr ⟨last, rfl⟩), odd⟩
    · rintro ⟨other, found, odd⟩
      rcases (getElem?_concat_iff pick other nRound).mp found with earlier | ⟨last, rfl⟩
      · exact Or.inl ⟨other, earlier, odd⟩
      · exact Or.inr ⟨last, odd⟩

theorem running_rounds (left' : Nat) (running : Running hash chain picks state)
    (enough : picks.length + left' ≤ chain.entries.length) (few : picks.length + left' ≤ 64) :
    ∃ picks' state', selectRounds hash chain.node (chain.entries.map stamp) chain.nStakeModifier
        left' picks.length state = some state' ∧
      Running hash chain picks' state' ∧ picks'.length = picks.length + left' := by
  induction left' generalizing picks state with
  | zero => exact ⟨picks, state, rfl, running, rfl⟩
  | succ left' ih =>
    obtain ⟨pick, found, picked⟩ := selectBlockFromCandidates_isSome running
      (state.nSelectionIntervalStop + getStakeModifierSelectionIntervalSection picks.length)
      (by omega)
    have next := running_step running (by omega) picked
    have length : (picks ++ [pick]).length = picks.length + 1 := by
      rw [List.length_append, List.length_singleton]
    obtain ⟨picks', state', rounds, later, count⟩ := ih next (by omega) (by omega)
    rw [length] at rounds
    refine ⟨picks', state', ?_, later, by omega⟩
    rw [selectRounds, found]
    exact rounds

theorem computeNextStakeModifier_eq {state : Rounds}
    (rounds : selectRounds hash chain.node (chain.entries.map stamp) chain.nStakeModifier
      (min 64 chain.entries.length) 0 ⟨0, chain.nSelectionIntervalStart, []⟩ = some state) :
    computeNextStakeModifier hash chain.node (chain.pindexPrev :: chain.ancestry) =
      ⟨true, state.nStakeModifierNew, true⟩ := by
  have elapsed := chain.elapsed
  have sorted := @sorted_entries chain
  have length : (chain.entries.map stamp).length = chain.entries.length := List.length_map _
  unfold nSelectionIntervalStart at rounds sorted
  unfold computeNextStakeModifier selectNextModifier
  dsimp only
  rw [if_neg chain.higher, chain.last]
  dsimp only
  rw [show ((getIntervalVersion : Nat) : Int) = 60 from rfl, if_neg (by omega), sorted, length,
    rounds]

end SelectingChain

/-- The rounds never fail: their picks are distinct, each the least within its stop or else
    the next in order, and the modifier is made of their entropy bits. -/
theorem rounds_select (chain : SelectingChain) : chain.SelectsBy hash (chain.Picked hash) := by
  have start : SelectingChain.Running hash chain [] ⟨0, chain.nSelectionIntervalStart, []⟩ :=
    SelectingChain.running_start
  obtain ⟨picks, state, rounds, running, count⟩ :=
    SelectingChain.running_rounds (min 64 chain.entries.length) start (by simp) (by simp)
  rw [List.length_nil, Nat.zero_add] at count
  exact ⟨picks, state.nStakeModifierNew, SelectingChain.computeNextStakeModifier_eq rounds,
    count, running.distinct, running.picked, running.bits⟩

def lateIndex : StakeIndex := ⟨0x17, 2, 1535003600, true, false, 0⟩

def modifiedIndex : StakeIndex := ⟨0x16, 1, 1535000000, true, true, 9⟩

def lateChain : SelectingChain where
  node := ⟨0, fun hash => [lateIndex, modifiedIndex].find? fun pindex => decide (pindex.hash = hash)⟩
  pindexPrev := lateIndex
  ancestry := [modifiedIndex]
  held := by
    unfold Holds
    decide
  linked := by decide
  higher := by decide
  nStakeModifier := 9
  nModifierTime := 1535000000
  last := rfl
  elapsed := by decide

theorem picked_beyond_stop : ¬∀ (hash : Uint256 → UInt64 → Uint256) (chain : SelectingChain),
    chain.SelectsBy hash (chain.LeastWithin hash) := by
  intro promised
  obtain ⟨picks, modifier, -, selection⟩ := promised (fun proof _ => proof) lateChain
  have some' : 0 < picks.length := by
    have candidates := List.length_pos_iff.mpr (@SelectingChain.entries_ne_nil lateChain)
    have rounds := selection.rounds
    omega
  have least := selection.picked 0 _ (List.getElem?_eq_getElem some')
  have inside := SelectingChain.entries_perm.mem_iff.mp least.fresh.1
  have within := least.within
  have alone : ∀ pindex ∈ (lateChain.pindexPrev :: lateChain.ancestry).takeWhile
      fun pindex => lateChain.nSelectionIntervalStart ≤ pindex.getBlockTime,
        ¬pindex.getBlockTime ≤ lateChain.stopAfter 1 := by decide +kernel
  exact alone _ inside within

end OxidModifierSelection
