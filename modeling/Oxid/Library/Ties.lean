import Oxid.Library.Ranking
import Mathlib.Data.List.Nodup
import Mathlib.Data.List.Perm.Basic

/-!
What a sort may do with items of one key. What it cannot change is how many are strictly
ahead of an item and how many are not behind it.
-/
namespace Ties
open Ranking
variable {Elem Result κ σ : Type} [LinearOrder κ] [LinearOrder σ] {key : Elem → κ}

/-- An answer that is the same for every order before and every sorter. -/
def Settled (key : Elem → κ) (answer : List Elem → Result) (items : List Elem) : Prop :=
  ∀ (sorter : Sorter key) (items' : List Elem), items.Perm items' →
    answer (sorter.sort items) = answer (sorter.sort items')

section Sorters

/-- The sort that puts what it favours first among equal keys. -/
def favouring (key : Elem → κ) (favour : Elem → Bool) : Sorter key where
  sort := (stable fun item => toLex (key item, favour item)).sort
  perm := (stable fun item => toLex (key item, favour item)).perm
  falling items := by
    apply ((stable fun item => toLex (key item, favour item)).falling items).imp
    intro first second below
    exact Prod.Lex.monotone_fst _ _ below

/-- The sort that does as one of two, depending on what it is given. -/
def either (choose : List Elem → Bool) (one other : Sorter key) : Sorter key where
  sort items := if choose items then one.sort items else other.sort items
  perm items := by
    split
    · exact one.perm items
    · exact other.perm items
  falling items := by
    split
    · exact one.falling items
    · exact other.falling items

variable {answer : List Elem → Result} {items : List Elem}

theorem Settled.agree [DecidableEq Elem] (settled : Settled key answer items) (nodup : items.Nodup)
    (one other : Sorter key) :
    answer (one.sort items) = answer (other.sort items) := by
  match items, settled, nodup with
  | [], _, _ => rw [(one.perm []).eq_nil, (other.perm []).eq_nil]
  | [item], _, _ =>
    rw [List.perm_singleton.mp (one.perm [item]), List.perm_singleton.mp (other.perm [item])]
  | first :: second :: rest, settled, nodup =>
    have apart : second :: first :: rest ≠ first :: second :: rest := by
      intro same
      rw [List.cons.injEq] at same
      rw [same.1] at nodup
      exact (List.nodup_cons.mp nodup).1 List.mem_cons_self
    have swapped := List.Perm.swap second first rest
    have mixed := settled (either (fun items => items == first :: second :: rest) one other) _
      swapped
    have plain := settled other _ swapped
    simp only [either, beq_self_eq_true, if_true, beq_eq_false_iff_ne.mpr apart,
      Bool.false_eq_true, if_false] at mixed
    rw [mixed, plain]

theorem settled_of (outcome : Result)
    (fixed : ∀ (sorter : Sorter key) (items' : List Elem), items.Perm items' →
      answer (sorter.sort items') = outcome) : Settled key answer items := by
  intro sorter items' perm
  rw [fixed sorter items (List.Perm.refl items), fixed sorter items' perm]

theorem settled_congr {Other : Type} {answer' : List Elem → Other}
    (alike : ∀ one other : List Elem, items.Perm one → items.Perm other →
      (answer one = answer other ↔ answer' one = answer' other)) :
    Settled key answer items ↔ Settled key answer' items := by
  have sorted : ∀ (sorter : Sorter key) (items' : List Elem), items.Perm items' →
      items.Perm (sorter.sort items') :=
    fun sorter items' perm => perm.trans (sorter.perm items').symm
  constructor
  · intro settled sorter items' perm
    exact (alike _ _ (sorted sorter items (List.Perm.refl items)) (sorted sorter items' perm)).mp
      (settled sorter items' perm)
  · intro settled sorter items' perm
    exact (alike _ _ (sorted sorter items (List.Perm.refl items)) (sorted sorter items' perm)).mpr
      (settled sorter items' perm)

end Sorters

section Sources

variable {Source : Type} {look : Source → Option Elem}

theorem perm_lift {sources : List Source} {items : List Elem}
    (perm : (sources.filterMap look).Perm items) :
    ∃ sources', sources.Perm sources' ∧ sources'.filterMap look = items := by
  generalize found : sources.filterMap look = items' at perm
  induction perm generalizing sources with
  | nil => exact ⟨sources, List.Perm.refl sources, found⟩
  | cons item _ ih =>
    obtain ⟨front, source, rest, rfl, passed, hit, later⟩ := List.filterMap_eq_cons_iff.mp found
    obtain ⟨rest', perm, found'⟩ := ih later
    refine ⟨front ++ source :: rest', (perm.cons source).append_left front, ?_⟩
    rw [List.filterMap_append, List.filterMap_eq_nil_iff.mpr passed,
      List.filterMap_cons_some hit, found', List.nil_append]
  | swap first second items =>
    obtain ⟨front, source, rest, rfl, passed, hit, later⟩ := List.filterMap_eq_cons_iff.mp found
    obtain ⟨middle, next, back, rfl, passed', hit', later'⟩ :=
      List.filterMap_eq_cons_iff.mp later
    refine ⟨front ++ (middle ++ next :: source :: back), ?_, ?_⟩
    · apply List.Perm.append_left
      have moved := @List.perm_middle Source source (middle ++ [next]) back
      simp only [List.append_assoc, List.singleton_append] at moved
      exact moved.symm
    · simp only [List.filterMap_append, List.filterMap_eq_nil_iff.mpr passed,
        List.filterMap_eq_nil_iff.mpr passed', List.filterMap_cons_some hit,
        List.filterMap_cons_some hit', later', List.nil_append]
  | trans _ _ ih ih' =>
    obtain ⟨middle, perm, found'⟩ := ih found
    obtain ⟨last, perm', found''⟩ := ih' found'
    exact ⟨last, perm.trans perm', found''⟩

theorem settled_sources_iff {answer : List Elem → Result} {sources : List Source} :
    (∀ (sorter : Sorter key) (sources' : List Source), sources.Perm sources' →
        answer (sorter.sort (sources.filterMap look)) =
          answer (sorter.sort (sources'.filterMap look))) ↔
      Settled key answer (sources.filterMap look) := by
  constructor
  · intro settled sorter items perm
    obtain ⟨sources', perm', found⟩ := perm_lift perm
    rw [settled sorter sources' perm', found]
  · intro settled sorter sources' perm
    exact settled sorter _ (perm.filterMap look)

end Sources

section Favours

variable [DecidableEq Elem]

def Before (key : Elem → κ) (favoured first second : Elem) : Prop :=
  key second < key first ∨
    key second = key first ∧ (second == favoured) ≤ (first == favoured)

theorem favouring_falls (key : Elem → κ) (favoured : Elem) (items : List Elem) :
    ((favouring key fun item => item == favoured).sort items).Pairwise (Before key favoured) :=
  ((stable fun item => toLex (key item, item == favoured)).falling items).imp Prod.Lex.le_iff.mp

theorem Before.above {favoured item : Elem} (before : Before key favoured item favoured)
    (different : item ≠ favoured) : key favoured < key item := by
  rw [Before, beq_self_eq_true, beq_eq_false_iff_ne.mpr different] at before
  cases before with
  | inl below => exact below
  | inr level => exact absurd level.2 (by decide)

end Favours

section Places

variable [DecidableEq Elem]

/-- Where an item stands in a list, counted from 0. -/
def place (items : List Elem) (item : Elem) : Nat := items.idxOf item

variable {items : List Elem} {item : Elem}

theorem place_inside (member : item ∈ items) :
    place items item < items.length := List.idxOf_lt_length_of_mem member

theorem get_place (member : item ∈ items) :
    items[place items item]? = some item := by
  rw [List.getElem?_eq_getElem (place_inside member)]
  exact congrArg some (List.getElem_idxOf _)

def ahead (key : Elem → κ) (items : List Elem) (item : Elem) : Nat :=
  (items.erase item).countP fun other => decide (key item < key other)

def level (key : Elem → κ) (items : List Elem) (item : Elem) : Nat :=
  (items.erase item).countP fun other => decide (key item ≤ key other)

theorem ahead_perm {items items' : List Elem} (perm : items.Perm items') (item : Elem) :
    ahead key items item = ahead key items' item := (perm.erase item).countP_eq _

theorem level_perm {items items' : List Elem} (perm : items.Perm items') (item : Elem) :
    level key items item = level key items' item := (perm.erase item).countP_eq _

theorem falling_place {sorted : List Elem}
    (falling : sorted.Pairwise fun first second => key second ≤ key first) (member : item ∈ sorted)
    :
    ahead key sorted item ≤ place sorted item ∧ place sorted item ≤ level key sorted item := by
  obtain ⟨before, after, rfl, new⟩ := List.eq_append_cons_of_mem member
  obtain ⟨-, later, between⟩ := List.pairwise_append.mp falling
  have stands : place (before ++ item :: after) item = before.length := by
    rw [place, List.idxOf_append_of_notMem new, List.idxOf_cons_self, Nat.add_zero]
  have others : (before ++ item :: after).erase item = before ++ after := by
    rw [List.erase_append_right _ new, List.erase_cons_head]
  have noneLater : after.countP (fun other => decide (key item < key other)) = 0 := by
    rw [List.countP_eq_zero]
    intro other inAfter
    simpa using List.rel_of_pairwise_cons later inAfter
  have allBefore : before.countP (fun other => decide (key item ≤ key other)) =
      before.length := by
    rw [List.countP_eq_length]
    intro other inBefore
    simpa using between other inBefore item List.mem_cons_self
  rw [ahead, level, stands, others, List.countP_append, List.countP_append, noneLater, allBefore]
  exact ⟨List.countP_le_length, Nat.le_add_right _ _⟩

theorem place_bounds (sorter : Sorter key) (member : item ∈ items) :
    ahead key items item ≤ place (sorter.sort items) item ∧
      place (sorter.sort items) item ≤ level key items item := by
  have bounds := falling_place (sorter.falling items) (sorter.mem_sort.mpr member)
  rw [ahead_perm (sorter.perm items), level_perm (sorter.perm items)] at bounds
  exact bounds

theorem favoured_place (nodup : items.Nodup) (member : item ∈ items) :
    place ((favouring key fun other => other == item).sort items) item =
      ahead key items item := by
  apply le_antisymm ?_ (place_bounds _ member).1
  have bound := (place_bounds (stable fun other => toLex (key other, other == item)) member).2
  refine bound.trans (List.countP_mono_left ?_)
  intro other inRest notBehind
  have different : other ≠ item := (nodup.mem_erase_iff.mp inRest).1
  have either := Prod.Lex.le_iff.mp (of_decide_eq_true notBehind)
  simp only [ofLex_toLex, beq_self_eq_true, beq_eq_false_iff_ne.mpr different] at either
  cases either with
  | inl above => exact decide_eq_true above
  | inr tied => exact absurd tied.2 (by decide)

theorem deferred_place (nodup : items.Nodup) (member : item ∈ items) :
    place ((favouring key fun other => other != item).sort items) item =
      level key items item := by
  apply le_antisymm (place_bounds _ member).2
  have bound := (place_bounds (stable fun other => toLex (key other, other != item)) member).1
  refine le_trans (List.countP_mono_left ?_) bound
  intro other inRest notBehind
  have different : other ≠ item := (nodup.mem_erase_iff.mp inRest).1
  apply decide_eq_true
  apply Prod.Lex.lt_iff.mpr
  simp only [ofLex_toLex, bne_self_eq_false, bne_iff_ne.mpr different]
  simpa using lt_or_eq_of_le (of_decide_eq_true notBehind)

theorem ahead_lt_level {item other : Elem} (member : other ∈ items) (tied : key other = key item)
    (different : other ≠ item) :
    ahead key items item < level key items item := by
  have inRest := (List.mem_erase_of_ne different).mpr member
  have front := List.perm_cons_erase inRest
  have more : ((items.erase item).erase other).countP (fun one => decide (key item < key one)) ≤
      ((items.erase item).erase other).countP (fun one => decide (key item ≤ key one)) := by
    apply List.countP_mono_left
    intro one _ above
    exact decide_eq_true (le_of_lt (of_decide_eq_true above))
  rw [ahead, level, front.countP_eq, front.countP_eq, List.countP_cons, List.countP_cons]
  simp only [tied, lt_irrefl, decide_false, Bool.false_eq_true, if_false, le_refl, decide_true,
    if_true]
  omega

theorem level_eq_ahead (nodup : items.Nodup)
    (untied : ∀ other ∈ items, key other = key item → other = item) :
    level key items item = ahead key items item := by
  apply List.countP_congr
  intro other inRest
  obtain ⟨different, member⟩ := nodup.mem_erase_iff.mp inRest
  simp only [decide_eq_true_eq]
  constructor
  · intro notBehind
    exact lt_of_le_of_ne notBehind fun same => different (untied other member same.symm)
  · exact le_of_lt

/-- The place of an item is settled exactly where no other is level with it. -/
theorem place_settled_iff (nodup : items.Nodup) (member : item ∈ items) :
    Settled key (fun sorted => place sorted item) items ↔
      ∀ other ∈ items, key other = key item → other = item := by
  constructor
  · intro settled other inItems tied
    by_contra different
    have same := settled.agree nodup (favouring key fun other => other == item)
      (favouring key fun other => other != item)
    simp only [favoured_place nodup member, deferred_place nodup member] at same
    exact absurd same (ne_of_lt (ahead_lt_level inItems tied different))
  · intro untied
    apply settled_of (ahead key items item)
    intro sorter items' perm
    have bounds := place_bounds sorter (perm.mem_iff.mp member)
    rw [← ahead_perm perm, ← level_perm perm, level_eq_ahead nodup untied] at bounds
    exact le_antisymm bounds.2 bounds.1

theorem sort_settled_iff (nodup : items.Nodup) :
    Settled key id items ↔ Untied key items := by
  constructor
  · intro settled first inFirst second inSecond tied
    have places : Settled key (fun sorted => place sorted second) items := by
      intro sorter items' perm
      exact congrArg (fun sorted => place sorted second) (settled sorter items' perm)
    exact (place_settled_iff nodup inSecond).mp places first inFirst tied
  · intro untied sorter items' perm
    exact sorter.sort_unique sorter perm untied

end Places

section Maximum

/-- The scan for the first item that scores most, above a bound. -/
def firstMax (score : Elem → σ) : σ → Option Elem → List Elem → Option Elem
  | _, best, [] => best
  | high, best, item :: rest =>
    if high < score item then firstMax score (score item) (some item) rest
    else firstMax score high best rest

variable {score : Elem → σ} {high bound : σ} {best : Option Elem}

/-- The item is the first of those that score most, and scores more than the bound. -/
def FirstMax (score : Elem → σ) (bound : σ) (items : List Elem) (item : Elem) : Prop :=
  bound < score item ∧ ∃ before after, items = before ++ item :: after ∧
    (∀ other ∈ before, score other < score item) ∧ ∀ other ∈ after, score other ≤ score item

variable {items : List Elem} {item : Elem}

theorem firstMax_none (low : ∀ item ∈ items, score item ≤ high) :
    firstMax score high best items = best := by
  induction items with
  | nil => rfl
  | cons item rest ih =>
    rw [firstMax, if_neg (not_lt.mpr (low item List.mem_cons_self))]
    exact ih fun other inRest => low other (List.mem_cons_of_mem item inRest)

theorem firstMax_some (first : FirstMax score high items item) :
    firstMax score high best items = some item := by
  obtain ⟨above, before, after, rfl, lower, noHigher⟩ := first
  induction before generalizing high best with
  | nil =>
    rw [List.nil_append, firstMax, if_pos above]
    exact firstMax_none noHigher
  | cons other before ih =>
    have rest : ∀ one ∈ before, score one < score item :=
      fun one inRest => lower one (List.mem_cons_of_mem other inRest)
    rw [List.cons_append, firstMax]
    split
    · exact ih (lower other List.mem_cons_self) rest
    · exact ih above rest

theorem firstMax_exists (score : Elem → σ) (bound : σ) (items : List Elem) :
    (∀ item ∈ items, score item ≤ bound) ∨ ∃ item, FirstMax score bound items item := by
  induction items generalizing bound with
  | nil => exact Or.inl fun item inNil => absurd inNil List.not_mem_nil
  | cons first rest ih =>
    rcases lt_or_ge bound (score first) with above | low
    · cases ih (score first) with
      | inl noHigher => exact Or.inr ⟨first, above, [], rest, rfl, by simp, noHigher⟩
      | inr more =>
        obtain ⟨item, higher, before, after, rfl, lower, noHigher⟩ := more
        exact Or.inr ⟨item, above.trans higher, first :: before, after, rfl,
          List.forall_mem_cons.mpr ⟨higher, lower⟩, noHigher⟩
    · cases ih bound with
      | inl noHigher => exact Or.inl (List.forall_mem_cons.mpr ⟨low, noHigher⟩)
      | inr more =>
        obtain ⟨item, higher, before, after, rfl, lower, noHigher⟩ := more
        exact Or.inr ⟨item, higher, first :: before, after, rfl,
          List.forall_mem_cons.mpr ⟨low.trans_lt higher, lower⟩, noHigher⟩

theorem firstMax_eq_some_iff :
    firstMax score bound none items = some item ↔ FirstMax score bound items item := by
  refine ⟨fun found => ?_, firstMax_some⟩
  cases firstMax_exists score bound items with
  | inl low =>
    rw [firstMax_none low] at found
    cases found
  | inr more =>
    obtain ⟨other, first⟩ := more
    rw [firstMax_some first, Option.some.injEq] at found
    exact found ▸ first

theorem firstMax_eq_none_iff :
    firstMax score bound none items = none ↔ ∀ item ∈ items, score item ≤ bound := by
  refine ⟨fun nothing => ?_, firstMax_none⟩
  cases firstMax_exists score bound items with
  | inl low => exact low
  | inr more =>
    obtain ⟨other, first⟩ := more
    rw [firstMax_some first] at nothing
    cases nothing

theorem FirstMax.mem (first : FirstMax score bound items item) :
    item ∈ items := by
  obtain ⟨-, before, after, rfl, -, -⟩ := first
  simp

theorem FirstMax.most {item other : Elem} (first : FirstMax score bound items item)
    (member : other ∈ items) :
    score other ≤ score item := by
  obtain ⟨-, before, after, rfl, lower, noHigher⟩ := first
  cases List.mem_append.mp member with
  | inl inBefore => exact le_of_lt (lower other inBefore)
  | inr inRest =>
    cases List.mem_cons.mp inRest with
    | inl same => exact same ▸ le_refl _
    | inr inAfter => exact noHigher other inAfter

/-- No item shares the greatest score, if that is above the bound. -/
def ClearMaximum (score : Elem → σ) (bound : σ) (items : List Elem) : Prop :=
  ∀ first ∈ items, ∀ second ∈ items, bound < score first → score first = score second →
    (∀ other ∈ items, score other ≤ score first) → first = second

theorem firstMax_perm_iff [DecidableEq Elem] :
    (∀ items', items.Perm items' →
        firstMax score bound none items = firstMax score bound none items') ↔
      ClearMaximum score bound items := by
  constructor
  · intro settled first inFirst second inSecond above tied most
    have leads : ∀ item ∈ items, score item = score first →
        firstMax score bound none items = some item := by
      intro item member same
      rw [settled _ (List.perm_cons_erase member)]
      refine firstMax_some ⟨same ▸ above, [], items.erase item, rfl, by simp, ?_⟩
      intro other inRest
      exact same ▸ most other (List.mem_of_mem_erase inRest)
    exact Option.some.inj ((leads first inFirst rfl).symm.trans (leads second inSecond tied.symm))
  · intro clear items' perm
    cases firstMax_exists score bound items with
    | inl low =>
      rw [firstMax_none low, firstMax_none fun item member => low item (perm.mem_iff.mpr member)]
    | inr more =>
      obtain ⟨item, first⟩ := more
      cases firstMax_exists score bound items' with
      | inl low => exact absurd first.1 (not_lt.mpr (low item (perm.mem_iff.mp first.mem)))
      | inr more' =>
        obtain ⟨other, first'⟩ := more'
        have inItems := perm.mem_iff.mpr first'.mem
        have tied : score item = score other :=
          le_antisymm (first'.most (perm.mem_iff.mp first.mem)) (first.most inItems)
        rw [firstMax_some first, firstMax_some first']
        exact congrArg some
          (clear item first.mem other inItems first.1 tied fun one => first.most)

end Maximum

section Top

variable [DecidableEq Elem] {score : Elem → σ} {bound : σ} {top : Nat} {items : List Elem}
variable {item : Elem}

theorem mem_top_iff (sorter : Sorter key) (member : item ∈ items) :
    item ∈ (sorter.sort items).take top ↔ place (sorter.sort items) item < top :=
  List.mem_take_iff_idxOf_lt (sorter.mem_sort.mpr member)

/-- The item wins in every order: it is sure to be at the top, and whatever scores as much
    is sure to be below the top or, scoring no more, behind it. -/
structure Wins (key : Elem → κ) (score : Elem → σ) (bound : σ) (top : Nat) (items : List Elem)
    (item : Elem) : Prop where
  member : item ∈ items
  above : bound < score item
  inside : level key items item < top
  rivals : ∀ other ∈ items, other ≠ item → score item ≤ score other →
    top ≤ ahead key items other ∨ score other = score item ∧ key other < key item

/-- Nothing that scores above the bound can be at the top. -/
def NoneWins (key : Elem → κ) (score : Elem → σ) (bound : σ) (top : Nat) (items : List Elem) :
    Prop := ∀ item ∈ items, bound < score item → top ≤ ahead key items item

theorem Wins.firstMax {items items' : List Elem} (wins : Wins key score bound top items item)
    (sorter : Sorter key) (perm : items.Perm items') :
    Ties.firstMax score bound none ((sorter.sort items').take top) = some item := by
  have inside : item ∈ (sorter.sort items').take top := by
    have member := perm.mem_iff.mp wins.member
    apply (mem_top_iff sorter member).mpr
    have last := (place_bounds sorter member).2
    rw [← level_perm perm] at last
    exact last.trans_lt wins.inside
  have falling := (sorter.falling items').sublist (List.take_sublist top _)
  have rivals : ∀ other ∈ (sorter.sort items').take top, other ≠ item →
      score item ≤ score other → score other = score item ∧ key other < key item := by
    intro other inTop different high
    have member := sorter.mem_sort.mp (List.mem_of_mem_take inTop)
    have stands := (mem_top_iff sorter member).mp inTop
    have first := (place_bounds sorter member).1
    rw [← ahead_perm perm] at first
    cases wins.rivals other (perm.mem_iff.mpr member) different high with
    | inl outside => exact absurd stands (not_lt.mpr (outside.trans first))
    | inr behind => exact behind
  obtain ⟨before, after, split, new⟩ := List.eq_append_cons_of_mem inside
  rw [split] at falling rivals ⊢
  obtain ⟨-, -, between⟩ := List.pairwise_append.mp falling
  refine firstMax_some ⟨wins.above, before, after, rfl, ?_, ?_⟩
  · intro other inBefore
    by_contra high
    have different : other ≠ item := fun same => new (same ▸ inBefore)
    have behind := rivals other (List.mem_append_left _ inBefore) different (not_lt.mp high)
    exact absurd behind.2 (not_lt.mpr (between other inBefore item List.mem_cons_self))
  · intro other inAfter
    by_contra high
    have higher := not_le.mp high
    have different : other ≠ item := fun same => absurd higher (same ▸ lt_irrefl _)
    have behind := rivals other (List.mem_append_right _ (List.mem_cons_of_mem _ inAfter))
      different (le_of_lt higher)
    exact absurd behind.1 (ne_of_gt higher)

theorem NoneWins.firstMax {items items' : List Elem}
    (none' : NoneWins key score bound top items) (sorter : Sorter key)
    (perm : items.Perm items') :
    Ties.firstMax score bound none ((sorter.sort items').take top) = none := by
  apply firstMax_none
  intro item inTop
  by_contra above
  have member := sorter.mem_sort.mp (List.mem_of_mem_take inTop)
  have stands := (mem_top_iff sorter member).mp inTop
  have first := (place_bounds sorter member).1
  rw [← ahead_perm perm] at first
  exact absurd stands
    (not_lt.mpr ((none' item (perm.mem_iff.mpr member) (not_le.mp above)).trans first))

theorem favoured_top (nodup : items.Nodup) (member : item ∈ items)
    (few : ahead key items item < top) :
    item ∈ ((favouring key fun other => other == item).sort items).take top := by
  rw [mem_top_iff _ member, favoured_place nodup member]
  exact few

theorem favoured_behind {item other : Elem} (different : other ≠ item)
    (first : FirstMax score bound
      (((favouring key fun one => one == other).sort items).take top) item)
    (inTop : other ∈ ((favouring key fun one => one == other).sort items).take top)
    (tied : score other = score item) : key other < key item := by
  have falls := (favouring_falls key other items).sublist (List.take_sublist top _)
  obtain ⟨-, before, after, split, lower, -⟩ := first
  rw [split] at falls inTop
  cases List.mem_append.mp inTop with
  | inl inBefore => exact absurd tied (ne_of_lt (lower other inBefore))
  | inr inRest =>
    have inAfter := List.mem_of_ne_of_mem different inRest
    have next := List.rel_of_pairwise_cons (List.pairwise_append.mp falls).2.1 inAfter
    exact next.above different.symm

/-- The winner among the first of a sorted list is settled exactly where one item wins in
    every order, or none does in any. -/
theorem top_settled_iff (nodup : items.Nodup) :
    Settled key (fun sorted => firstMax score bound none (sorted.take top)) items ↔
      (∃ item, Wins key score bound top items item) ∨ NoneWins key score bound top items := by
  constructor
  · intro settled
    have agree := settled.agree nodup
    cases found : firstMax score bound none (((stable key).sort items).take top) with
    | none =>
      refine Or.inr fun item member above => ?_
      by_contra few
      have inTop := favoured_top nodup member (not_le.mp few)
      have nothing := (agree (favouring key fun other => other == item) (stable key)).trans found
      exact absurd (firstMax_eq_none_iff.mp nothing item inTop) (not_le.mpr above)
    | some item =>
      have always : ∀ sorter : Sorter key,
          FirstMax score bound ((sorter.sort items).take top) item :=
        fun sorter => firstMax_eq_some_iff.mp ((agree sorter (stable key)).trans found)
      have member := (stable key).mem_sort.mp (List.mem_of_mem_take (always _).mem)
      refine Or.inl ⟨item, member, (always (stable key)).1, ?_, ?_⟩
      · have inTop := (always (favouring key fun other => other != item)).mem
        rw [mem_top_iff _ member, deferred_place nodup member] at inTop
        exact inTop
      · intro other inItems different high
        by_contra neither
        obtain ⟨few, notBehind⟩ := not_or.mp neither
        have inTop := favoured_top nodup inItems (not_le.mp few)
        have tied := le_antisymm ((always _).most inTop) high
        exact notBehind ⟨tied, favoured_behind different (always _) inTop tied⟩
  · intro outcome
    cases outcome with
    | inl some' =>
      obtain ⟨item, wins⟩ := some'
      exact settled_of (some item) fun sorter items' => wins.firstMax sorter
    | inr none' => exact settled_of none fun sorter items' => none'.firstMax sorter

end Top

section Parts

variable {keep : Elem → Bool}

/-- Whatever is dropped has a key below every key that is kept. -/
def DropsLowest (key : Elem → κ) (keep : Elem → Bool) (items : List Elem) : Prop :=
  ∀ dropped ∈ items, keep dropped = false → ∀ kept ∈ items, keep kept → key dropped < key kept

theorem filter_eq_take {sorted : List Elem}
    (lastDropped : sorted.Pairwise fun first second => keep second → keep first) :
    sorted.filter keep = sorted.take (sorted.filter keep).length := by
  induction sorted with
  | nil => rfl
  | cons item rest ih =>
    obtain ⟨leads, lastDropped⟩ := List.pairwise_cons.mp lastDropped
    cases kept : keep item with
    | true =>
      rw [List.filter_cons_of_pos kept, List.length_cons, List.take_succ_cons, ← ih lastDropped]
    | false =>
      have noneKept : rest.filter keep = [] := by
        rw [List.filter_eq_nil_iff]
        intro other inRest keptOther
        rw [leads other inRest keptOther] at kept
        cases kept
      rw [List.filter_cons_of_neg (ne_true_of_eq_false kept), noneKept]
      rfl

variable {items : List Elem}

theorem sort_filter (sorter : Sorter key) (lowest : DropsLowest key keep items)
    (untied : Untied key (items.filter keep)) :
    sorter.sort (items.filter keep) =
      (sorter.sort items).take (items.filter keep).length := by
  have perm := (sorter.perm items).filter keep
  have falling := sorter.falling items
  have lastDropped : (sorter.sort items).Pairwise fun first second => keep second → keep first := by
    apply falling.imp_of_mem
    intro first second inFirst inSecond below keptSecond
    by_contra dropped
    exact absurd below (not_le.mpr (lowest first (sorter.mem_sort.mp inFirst)
      (eq_false_of_ne_true dropped) second (sorter.mem_sort.mp inSecond) keptSecond))
  rw [← perm.length_eq, ← filter_eq_take lastDropped]
  apply falling_unique ((sorter.perm _).trans perm.symm) ?_ (sorter.falling _)
    (falling.filter keep)
  intro first inFirst second inSecond
  exact untied first (sorter.mem_sort.mp inFirst) second (sorter.mem_sort.mp inSecond)

section
variable
  (parts : ∀ sorter : Sorter key, sorter.sort (items.filter keep) = (sorter.sort items).take (items.filter keep).length)
include parts

theorem prefix_drops_lowest [DecidableEq Elem] : DropsLowest key keep items := by
  intro dropped inItems out kept inKept keptIn
  have same := parts (favouring key fun item => item == dropped)
  have whole := List.take_append_drop (items.filter keep).length
    ((favouring key fun item => item == dropped).sort items)
  rw [← same] at whole
  have first : kept ∈ (favouring key fun item => item == dropped).sort (items.filter keep) :=
    (Sorter.mem_sort _).mpr (List.mem_filter.mpr ⟨inKept, keptIn⟩)
  have falls := favouring_falls key dropped items
  have member := (Sorter.mem_sort (favouring key fun item => item == dropped)).mpr inItems
  rw [← whole] at falls member
  cases List.mem_append.mp member with
  | inl inFront =>
    have keptToo := (List.mem_filter.mp ((Sorter.mem_sort _).mp inFront)).2
    rw [out] at keptToo
    cases keptToo
  | inr inBack =>
    have different : kept ≠ dropped := by
      intro same
      rw [same, out] at keptIn
      cases keptIn
    exact ((List.pairwise_append.mp falls).2.2 kept first dropped inBack).above different

theorem prefix_untied [DecidableEq Elem] (fewer : items.filter keep ≠ items) :
    Untied key (items.filter keep) := by
  intro first inFirst second inSecond tied
  by_contra different
  -- The whole list favours one of the two, the part of it the other.
  have same := parts (either (fun list => list == items)
    (favouring key fun item => item == first) (favouring key fun item => item == second))
  simp only [either, beq_self_eq_true, if_true, beq_eq_false_iff_ne.mpr fewer,
    Bool.false_eq_true, if_false] at same
  have oneWay := (favouring_falls key first items).sublist
    (List.take_sublist (items.filter keep).length _)
  rw [← same] at oneWay
  have otherWay := favouring_falls key second (items.filter keep)
  obtain ⟨before, after, split⟩ := List.append_of_mem ((Sorter.mem_sort
    (favouring key fun item => item == second)).mpr inFirst)
  have member := (Sorter.mem_sort (favouring key fun item => item == second)).mpr inSecond
  rw [split] at oneWay otherWay member
  cases List.mem_append.mp member with
  | inl inBefore =>
    have next := (List.pairwise_append.mp oneWay).2.2 second inBefore first List.mem_cons_self
    exact absurd tied (ne_of_lt (next.above (Ne.symm different)))
  | inr inRest =>
    have inAfter := List.mem_of_ne_of_mem (Ne.symm different) inRest
    have next := List.rel_of_pairwise_cons (List.pairwise_append.mp otherWay).2.1 inAfter
    exact absurd tied (ne_of_gt (next.above different))

end

/-- The sorted part is the beginning of the whole list sorted, for every sorter, exactly
    where the part is the whole, or what is dropped is behind and what is kept untied. -/
theorem prefix_iff [DecidableEq Elem] :
    (∀ sorter : Sorter key, sorter.sort (items.filter keep) =
        (sorter.sort items).take (items.filter keep).length) ↔
      items.filter keep = items ∨
        DropsLowest key keep items ∧ Untied key (items.filter keep) := by
  constructor
  · intro parts
    by_cases whole : items.filter keep = items
    · exact Or.inl whole
    · exact Or.inr ⟨prefix_drops_lowest parts, prefix_untied parts whole⟩
  · intro cases sorter
    cases cases with
    | inl whole => rw [whole, ← (sorter.perm items).length_eq, List.take_length]
    | inr apart => exact sort_filter sorter apart.1 apart.2

end Parts

end Ties
