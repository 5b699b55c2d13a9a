import Mathlib.Algebra.Order.Ring.Int
import Mathlib.Algebra.Order.BigOperators.Group.List
import Mathlib.Tactic.Linarith
import Mathlib.Tactic.Ring

/-!
Amounts taken coin by coin from a list of denominations, each with so many coins at hand,
where every denomination divides the ones before it.
-/
namespace GreedyCoins
variable {D : Type} (value : D → Int)

/-- What some coins are worth together. -/
def total (ds : List D) (u : D → Nat) : Int := (ds.map fun d => (u d : Int) * value d).sum

def coins (ds : List D) (u : D → Nat) : Nat := (ds.map u).sum

/-- Coins of one value taken while a test of the amount that remains says so: how many, and
    what remains. -/
def grab (more : Int → Bool) (v : Int) : Nat → Int → Nat × Int
  | 0, remaining => (0, remaining)
  | room + 1, remaining =>
    if more remaining then
      let later := grab more v room (remaining - v)
      (later.1 + 1, later.2)
    else (0, remaining)

section Grab
variable (more : Int → Bool) (v : Int)

theorem grab_spent (room : Nat) (remaining : Int) :
    (grab more v room remaining).2 = remaining - (grab more v room remaining).1 * v := by
  induction room generalizing remaining with
  | zero => simp [grab]
  | succ room ih =>
    unfold grab
    split
    · dsimp only
      rw [ih]
      push_cast
      ring
    · simp

theorem grab_room (room : Nat) (remaining : Int) : (grab more v room remaining).1 ≤ room := by
  induction room generalizing remaining with
  | zero => exact Nat.le_refl _
  | succ room ih =>
    unfold grab
    split
    · exact Nat.succ_le_succ (ih _)
    · exact Nat.zero_le _

theorem grab_idle {more : Int → Bool} {remaining : Int} (idle : more remaining = false)
    (v : Int) (room : Nat) : grab more v room remaining = (0, remaining) := by
  cases room with
  | zero => rfl
  | succ room =>
    unfold grab
    rw [idle]
    rfl

theorem grab_stops (room : Nat) (remaining : Int) :
    (grab more v room remaining).1 = room ∨ more (grab more v room remaining).2 = false := by
  induction room generalizing remaining with
  | zero => exact .inl rfl
  | succ room ih =>
    unfold grab
    split
    · rcases ih (remaining - v) with all | stopped
      · exact .inl (congrArg (· + 1) all)
      · exact .inr stopped
    · rename_i stopped
      exact .inr (by simpa using stopped)

theorem grab_went (room : Nat) (remaining : Int) (some' : 0 < (grab more v room remaining).1) :
    more ((grab more v room remaining).2 + v) = true := by
  induction room generalizing remaining with
  | zero => exact absurd some' (Nat.lt_irrefl 0)
  | succ room ih =>
    unfold grab at some' ⊢
    split
    · rename_i went
      rcases Nat.eq_zero_or_pos (grab more v room (remaining - v)).1 with none' | later
      · have spent := grab_spent more v room (remaining - v)
        rw [none'] at spent
        rw [spent]
        simpa using went
      · exact ih _ later
    · rename_i stopped
      rw [if_neg stopped] at some'
      exact absurd some' (Nat.lt_irrefl 0)

theorem grab_leaves {remaining : Int} (less : ∀ left, more left = true → v < left) (room : Nat)
    (open' : 0 < remaining) : 0 < (grab more v room remaining).2 := by
  rcases Nat.eq_zero_or_pos (grab more v room remaining).1 with none' | some'
  · rw [grab_spent, none']
    simpa using open'
  · linarith [less _ (grab_went more v room remaining some')]

end Grab

variable {ds : List D} {u w : D → Nat} {vs : List Int} {d : D}

theorem total_congr (same : ∀ d ∈ ds, u d = w d) :
    total value ds u = total value ds w := by
  unfold total
  congr 1
  exact List.map_congr_left fun d member => by rw [same d member]

theorem coins_congr (same : ∀ d ∈ ds, u d = w d) :
    coins ds u = coins ds w := by
  unfold coins
  congr 1
  exact List.map_congr_left same

theorem total_cons (d : D) (ds : List D) (u : D → Nat) :
    total value (d :: ds) u = u d * value d + total value ds u := by
  unfold total
  rw [List.map_cons, List.sum_cons]

theorem coins_cons (d : D) (ds : List D) (u : D → Nat) : coins (d :: ds) u = u d + coins ds u := by
  unfold coins
  rw [List.map_cons, List.sum_cons]

theorem coins_zero (ds : List D) : coins ds (fun _ => 0) = 0 := by
  unfold coins
  simp

/-- Denominations of which each divides the ones before it. -/
structure Chain (ds : List D) : Prop where
  positive : ∀ d ∈ ds, 0 < value d
  divides : ds.Pairwise fun high low => value low ∣ value high
  distinct : ds.Nodup

variable {value}

section
variable (chain : Chain value (d :: ds))
include chain

theorem Chain.tail : Chain value ds where
  positive other member := chain.positive other (List.mem_cons_of_mem _ member)
  divides := (List.pairwise_cons.mp chain.divides).2
  distinct := (List.nodup_cons.mp chain.distinct).2

theorem Chain.below : ∀ low ∈ ds, value low ∣ value d := (List.pairwise_cons.mp chain.divides).1

theorem Chain.le : ∀ low ∈ d :: ds, value low ≤ value d := by
  intro low member
  rcases List.mem_cons.mp member with same | later
  · rw [same]
  · exact Int.le_of_dvd (chain.positive d List.mem_cons_self) (chain.below low later)

theorem Chain.fresh : d ∉ ds :=
  (List.nodup_cons.mp chain.distinct).1

end

theorem total_nonneg (positive : ∀ d ∈ ds, 0 < value d) (u : D → Nat) :
    0 ≤ total value ds u := by
  induction ds with
  | nil => exact le_refl _
  | cons d ds ih =>
    have here := mul_nonneg (Int.natCast_nonneg (u d)) (le_of_lt (positive d List.mem_cons_self))
    have later := ih fun other member => positive other (List.mem_cons_of_mem _ member)
    exact add_nonneg here later

theorem total_le {most : Int} (bounded : ∀ d ∈ ds, value d ≤ most) (u : D → Nat) :
    total value ds u ≤ coins ds u * most := by
  induction ds with
  | nil => simp [total, coins]
  | cons d ds ih =>
    rw [total_cons, coins_cons]
    have here := mul_le_mul_of_nonneg_left (bounded d List.mem_cons_self) (Int.natCast_nonneg (u d))
    have later := ih fun other member => bounded other (List.mem_cons_of_mem _ member)
    push_cast
    linarith

theorem total_mono (positive : ∀ d ∈ ds, 0 < value d) (fewer : ∀ d ∈ ds, u d ≤ w d) :
    total value ds u ≤ total value ds w := by
  induction ds with
  | nil => exact le_refl _
  | cons d ds ih =>
    have here : (u d : Int) * value d ≤ w d * value d :=
      mul_le_mul_of_nonneg_right (by exact_mod_cast fewer d List.mem_cons_self)
        (le_of_lt (positive d List.mem_cons_self))
    have later := ih (fun other member => positive other (List.mem_cons_of_mem _ member))
      fun other member => fewer other (List.mem_cons_of_mem _ member)
    exact add_le_add here later

theorem total_sub (value : D → Int) (fewer : ∀ d ∈ ds, w d ≤ u d) :
    total value ds (fun d => u d - w d) = total value ds u - total value ds w := by
  induction ds with
  | nil => rfl
  | cons d ds ih =>
    rw [total_cons, total_cons, total_cons, ih fun other member =>
      fewer other (List.mem_cons_of_mem _ member), Nat.cast_sub (fewer d List.mem_cons_self)]
    ring

theorem le_total (positive : ∀ d ∈ ds, 0 < value d) (u : D → Nat) :
    ∀ d ∈ ds, (u d : Int) ≤ total value ds u := by
  induction ds with
  | nil => simp
  | cons d ds ih =>
    have rest : ∀ d ∈ ds, 0 < value d := fun other member =>
      positive other (List.mem_cons_of_mem _ member)
    intro other member
    rw [total_cons]
    have here : (u d : Int) ≤ u d * value d :=
      le_mul_of_one_le_right (Int.natCast_nonneg _) (positive d List.mem_cons_self)
    rcases List.mem_cons.mp member with same | later
    · rw [same]
      linarith [total_nonneg rest u]
    · linarith [ih rest other later, Int.natCast_nonneg (u d)]

theorem dvd_total {unit' : Int} (whole : ∀ d ∈ ds, unit' ∣ value d) (u : D → Nat) :
    unit' ∣ total value ds u := by
  induction ds with
  | nil => exact dvd_zero _
  | cons d ds ih =>
    exact Int.dvd_add (Dvd.dvd.mul_left (whole d List.mem_cons_self) _)
      (ih fun other member => whole other (List.mem_cons_of_mem _ member))

theorem total_reverse (value : D → Int) (ds : List D) (u : D → Nat) :
    total value ds.reverse u = total value ds u := by
  unfold total
  rw [List.map_reverse, List.sum_reverse]

theorem coins_reverse (ds : List D) (u : D → Nat) : coins ds.reverse u = coins ds u := by
  unfold coins
  rw [List.map_reverse, List.sum_reverse]

theorem total_zero (value : D → Int) (ds : List D) : total value ds (fun _ => 0) = 0 := by
  unfold total
  simp

theorem coins_pos {u : D → Nat} (worth : 0 < total value ds u) : 0 < coins ds u := by
  rcases Nat.eq_zero_or_pos (coins ds u) with none' | some'
  · have nothing : total value ds u = total value ds fun _ => 0 :=
      total_congr value fun d member => by
        have zeros := List.sum_eq_zero_iff.mp none'
        exact zeros (u d) (List.mem_map_of_mem member)
    rw [nothing, total_zero] at worth
    exact absurd worth (lt_irrefl 0)
  · exact some'

section Updates
variable [DecidableEq D] {ds : List D} {d : D}

theorem total_update (value : D → Int) (apart : d ∉ ds) (u : D → Nat) (n : Nat) :
    total value (d :: ds) (Function.update u d n) = n * value d + total value ds u := by
  rw [total_cons, Function.update_self]
  congr 1
  exact total_congr value fun other member =>
    Function.update_of_ne (fun same : other = d => apart (same ▸ member)) _ _

theorem coins_update (apart : d ∉ ds) (u : D → Nat) (n : Nat) :
    coins (d :: ds) (Function.update u d n) = n + coins ds u := by
  rw [coins_cons, Function.update_self]
  congr 1
  exact coins_congr fun other member =>
    Function.update_of_ne (fun same : other = d => apart (same ▸ member)) _ _

theorem total_more (value : D → Int) (distinct : ds.Nodup) (u : D → Nat) (listed : d ∈ ds) :
    total value ds (Function.update u d (u d + 1)) = total value ds u + value d := by
  induction ds with
  | nil => exact absurd listed List.not_mem_nil
  | cons first rest ih =>
    obtain ⟨apart, distinct⟩ := List.nodup_cons.mp distinct
    rcases List.mem_cons.mp listed with same | later
    · rw [← same] at apart ⊢
      rw [total_update value apart, total_cons]
      push_cast
      ring
    · rw [total_cons, total_cons, ih distinct later, Function.update_of_ne
        fun same : first = d => apart (same ▸ later)]
      ring

theorem split_off (chain : Chain value ds) {v : Int} (positive : 0 < v)
    (below : ∀ d ∈ ds, value d ∣ v) {m : Nat} {u : D → Nat} (enough : m * v ≤ total value ds u) :
    ∃ kept : D → Nat, (∀ d, kept d ≤ u d) ∧ total value ds kept = total value ds u - m * v ∧
      coins ds kept + m ≤ coins ds u := by
  induction ds generalizing v m with
  | nil =>
    have none' : m = 0 := by
      by_contra some'
      have more : 0 < (m : Int) * v := mul_pos (by omega) positive
      simp only [total, List.map_nil, List.sum_nil] at enough
      omega
    exact ⟨u, fun _ => Nat.le_refl _, by simp [none'], by simp [none']⟩
  | cons w rest ih =>
    have small := chain.positive w List.mem_cons_self
    obtain ⟨c, times⟩ := below w List.mem_cons_self
    have cPos : 0 < c := by
      rw [times] at positive
      exact (mul_pos_iff_of_pos_left small).mp positive
    obtain ⟨c, rfl⟩ := Int.eq_ofNat_of_zero_le (le_of_lt cPos)
    have atLeast : m ≤ m * c := Nat.le_mul_of_pos_right m (by omega)
    have worth : (m : Int) * v = ((m * c : Nat) : Int) * value w := by
      rw [times]
      push_cast
      ring
    rw [total_cons] at enough ⊢
    rw [coins_cons]
    rcases Nat.lt_or_ge (u w) (m * c) with short | plenty
    · obtain ⟨kept, fewer, left, count⟩ := @ih chain.tail (value w) small chain.below
        (m * c - u w) (by
          rw [Nat.cast_sub (le_of_lt short)]
          linarith)
      refine ⟨Function.update kept w 0, ?_, ?_, ?_⟩
      · intro d
        by_cases same : d = w
        · rw [same, Function.update_self]
          exact Nat.zero_le _
        · rw [Function.update_of_ne same]
          exact fewer d
      · rw [total_update value chain.fresh, left, worth, Nat.cast_sub (le_of_lt short)]
        ring
      · rw [coins_update chain.fresh]
        omega
    · refine ⟨Function.update u w (u w - m * c), ?_, ?_, ?_⟩
      · intro d
        by_cases same : d = w
        · rw [same, Function.update_self]
          exact Nat.sub_le _ _
        · rw [Function.update_of_ne same]
      · rw [total_update value chain.fresh, worth, Nat.cast_sub plenty]
        ring
      · rw [coins_update chain.fresh]
        omega

def sweep (value : D → Int) (more : D → Int → Bool) (room : D → Nat) :
    List D → Int → (D → Nat) × Int
  | [], remaining => (fun _ => 0, remaining)
  | d :: rest, remaining =>
    let here := grab (more d) (value d) (room d) remaining
    let later := sweep value more room rest here.2
    (Function.update later.1 d here.1, later.2)

section Sweeps
variable {more : D → Int → Bool} {room : D → Nat}

theorem sweep_cons (d : D) (rest : List D) (remaining : Int) :
    sweep value more room (d :: rest) remaining =
      (Function.update (sweep value more room rest
          (grab (more d) (value d) (room d) remaining).2).1 d
        (grab (more d) (value d) (room d) remaining).1,
      (sweep value more room rest (grab (more d) (value d) (room d) remaining).2).2) := rfl

variable {ds : List D} {amount : Int} {remaining : Int} {u : D → Nat} {d : D}

theorem sweep_spent (distinct : ds.Nodup) (remaining : Int) :
    (sweep value more room ds remaining).2 =
      remaining - total value ds (sweep value more room ds remaining).1 := by
  induction ds generalizing remaining with
  | nil => simp [sweep, total]
  | cons d rest ih =>
    obtain ⟨apart, distinct⟩ := List.nodup_cons.mp distinct
    unfold sweep
    rw [total_update value apart, ih distinct, grab_spent]
    ring

theorem sweep_room (remaining : Int) :
    ∀ d ∈ ds, (sweep value more room ds remaining).1 d ≤ room d := by
  induction ds generalizing remaining with
  | nil => simp
  | cons d rest ih =>
    intro other member
    unfold sweep
    dsimp only
    by_cases same : other = d
    · rw [same, Function.update_self]
      exact grab_room _ _ _ _
    · rw [Function.update_of_ne same]
      exact ih _ other ((List.mem_cons.mp member).resolve_left same)

theorem coins_sweep {rest : List D} (apart : d ∉ rest) (remaining : Int) :
    coins (d :: rest) (sweep value more room (d :: rest) remaining).1 =
      (grab (more d) (value d) (room d) remaining).1 + coins rest (sweep value more room rest
        (grab (more d) (value d) (room d) remaining).2).1 := by
  conv_lhs => unfold sweep
  rw [coins_update apart]

theorem sweep_idle (idle : ∀ d ∈ ds, more d remaining = false) :
    sweep value more room ds remaining = (fun _ => 0, remaining) := by
  induction ds with
  | nil => rfl
  | cons d rest ih =>
    rw [sweep_cons, grab_idle (idle d List.mem_cons_self),
      ih fun other member => idle other (List.mem_cons_of_mem _ member)]
    exact congrArg (·, remaining) (Function.update_eq_self d fun _ => 0)

/-- Coins that still fit meet what can be met, and no other coins at hand are fewer. -/
theorem sweep_least {ds : List D} (chain : Chain value ds) {u : D → Nat} {amount : Int}
    (held : ∀ d ∈ ds, u d ≤ room d) (met : total value ds u = amount) :
    (sweep value (fun d remaining => decide (value d ≤ remaining)) room ds amount).2 = 0 ∧
      coins ds (sweep value (fun d remaining => decide (value d ≤ remaining)) room ds amount).1 ≤
        coins ds u := by
  induction ds generalizing u amount with
  | nil => exact ⟨met.symm, Nat.le_refl _⟩
  | cons d rest ih =>
    have positive := chain.positive d List.mem_cons_self
    have nonneg := total_nonneg chain.tail.positive u
    rw [coins_sweep chain.fresh, coins_cons]
    rw [total_cons] at met
    rw [sweep_cons]
    have spent := grab_spent (fun remaining => decide (value d ≤ remaining)) (value d) (room d)
      amount
    have stops := grab_stops (fun remaining => decide (value d ≤ remaining)) (value d) (room d)
      amount
    have went := grab_went (fun remaining => decide (value d ≤ remaining)) (value d) (room d)
      amount
    generalize grab (fun remaining => decide (value d ≤ remaining)) (value d) (room d) amount = here
      at spent stops went ⊢
    obtain ⟨n, left⟩ := here
    dsimp only at spent stops went ⊢
    simp only [decide_eq_false_iff_not, decide_eq_true_eq] at stops went
    have part : 0 ≤ (u d : Int) * value d := mul_nonneg (Int.natCast_nonneg _) (le_of_lt positive)
    have leftNonneg : 0 ≤ left := by
      rcases Nat.eq_zero_or_pos n with none' | some'
      · rw [none'] at spent
        push_cast at spent
        linarith
      · linarith [went some']
    have atLeast : u d ≤ n := by
      rcases stops with all | small
      · rw [all]
        exact held d List.mem_cons_self
      · by_contra more'
        have next : ((n : Int) + 1) * value d ≤ (u d : Int) * value d :=
          mul_le_mul_of_nonneg_right (by omega) (le_of_lt positive)
        linarith
    obtain ⟨kept, fewer, worth, count⟩ := @split_off D value _ rest chain.tail (value d) positive
      chain.below (n - u d) u (by
        rw [Nat.cast_sub atLeast]
        linarith)
    obtain ⟨exact', least⟩ := @ih chain.tail kept left
      (fun other member => (fewer other).trans (held other (List.mem_cons_of_mem _ member)))
      (by rw [worth, Nat.cast_sub atLeast]; linarith)
    exact ⟨exact', by omega⟩

/-- Coins taken from the largest on until an amount is reached: none at hand that reach it,
    with so many of a larger one to spare, are fewer by that many. -/
theorem sweep_fewest {ds : List D} (chain : Chain value ds) {u : D → Nat} {amount most : Int}
    {k : Nat} (nonneg : 0 ≤ amount) (large : 0 < most) (bounded : ∀ d ∈ ds, value d ≤ most)
    (held : ∀ d ∈ ds, u d ≤ room d) (reached : amount + k * most ≤ total value ds u) :
    coins ds (sweep value (fun _ remaining => decide (0 < remaining)) room ds amount).1 + k ≤
      coins ds u := by
  induction ds generalizing u amount most k with
  | nil =>
    rcases Nat.eq_zero_or_pos k with none' | some'
    · rw [none']
      exact Nat.le_refl _
    · have more : 0 < (k : Int) * most := mul_pos (by omega) large
      have nothing : total value ([] : List D) u = 0 := rfl
      omega
  | cons d rest ih =>
    have positive := chain.positive d List.mem_cons_self
    have atMost := bounded d List.mem_cons_self
    rw [coins_sweep chain.fresh]
    have spent := grab_spent (fun remaining => decide (0 < remaining)) (value d) (room d) amount
    have stops := grab_stops (fun remaining => decide (0 < remaining)) (value d) (room d) amount
    have went := grab_went (fun remaining => decide (0 < remaining)) (value d) (room d) amount
    generalize grab (fun remaining => decide (0 < remaining)) (value d) (room d) amount = here
      at spent stops went ⊢
    obtain ⟨n, left⟩ := here
    dsimp only at spent stops went ⊢
    simp only [decide_eq_false_iff_not, decide_eq_true_eq] at stops went
    have spare : (k : Int) * value d ≤ k * most :=
      mul_le_mul_of_nonneg_left atMost (Int.natCast_nonneg k)
    by_cases done : 0 < left
    · have all : n = room d := stops.resolve_right (not_not.mpr done)
      have here : u d ≤ n := all ▸ held d List.mem_cons_self
      have later := @ih chain.tail u left (value d) (n - u d + k) (le_of_lt done) positive
        (fun low member => chain.le low (List.mem_cons_of_mem _ member))
        (fun low member => held low (List.mem_cons_of_mem _ member)) (by
          rw [total_cons] at reached
          push_cast [Nat.cast_sub here]
          linarith)
      rw [coins_cons]
      omega
    · rw [sweep_idle fun _ _ => by simpa using done, coins_zero]
      have worth := total_le chain.le u
      by_contra fewer
      have few : (coins (d :: rest) u : Int) * value d ≤ ((n : Int) + k - 1) * value d :=
        mul_le_mul_of_nonneg_right (by omega) (le_of_lt positive)
      have apart : ((n : Int) + k - 1) * value d = n * value d + k * value d - value d := by ring
      rcases Nat.eq_zero_or_pos n with none' | some'
      · rw [none'] at few apart
        push_cast at few apart
        linarith
      · linarith [went some']

theorem sweep_refused (refused : ∀ left, more d left = false) (ds : List D) (remaining : Int) :
    (sweep value more room ds remaining).1 d = 0 := by
  induction ds generalizing remaining with
  | nil => rfl
  | cons first rest ih =>
    rw [sweep_cons]
    dsimp only
    by_cases same : d = first
    · rw [← same, grab_idle (refused remaining), Function.update_self]
    · rw [Function.update_of_ne same]
      exact ih _

theorem sweep_leaves (less : ∀ d ∈ ds, ∀ left, more d left = true → value d < left)
    (open' : 0 < remaining) :
    0 < (sweep value more room ds remaining).2 := by
  induction ds generalizing remaining with
  | nil => exact open'
  | cons d rest ih =>
    exact ih (fun low member => less low (List.mem_cons_of_mem _ member))
      (grab_leaves _ _ (less d List.mem_cons_self) _ open')

theorem sweep_passes (chain : Chain value ds) (open' : 0 < amount) (listed : d ∈ ds)
    (held : room d ≠ 0) (more : amount < value d) :
    (sweep value (fun _ remaining => decide (0 < remaining)) room ds amount).2 < 0 := by
  induction ds with
  | nil => exact absurd listed List.not_mem_nil
  | cons first rest ih =>
    rw [sweep_cons]
    cases here : room first with
    | zero =>
      rcases List.mem_cons.mp listed with same | later
      · exact absurd here (same ▸ held)
      · exact ih chain.tail later
    | succ room =>
      have large := more.trans_le (chain.le d listed)
      have passed : ¬0 < amount - value first := by omega
      rw [grab, if_pos (decide_eq_true open'),
        @grab_idle (fun remaining => decide (0 < remaining)) _ (by simpa using passed),
        sweep_idle fun _ _ => by simpa using passed]
      dsimp only
      omega

theorem sweep_spare (chain : Chain value ds) {allowed : D → Bool} (open' : 0 < amount)
    (usable : ∀ d ∈ ds, room d ≠ 0 → allowed d = true)
    (beyond : (sweep value (fun _ remaining => decide (0 < remaining)) room ds amount).2 < 0) :
    ∃ d ∈ ds, (sweep value (fun d remaining => allowed d && decide (value d < remaining))
        room ds amount).2 < value d ∧
      (sweep value (fun d remaining => allowed d && decide (value d < remaining))
        room ds amount).1 d < room d := by
  induction ds generalizing amount with
  | nil => exact absurd beyond (not_lt.mpr (le_of_lt open'))
  | cons d rest ih =>
    have positive := chain.positive d List.mem_cons_self
    rw [sweep_cons] at beyond ⊢
    have spent := grab_spent (fun left => allowed d && decide (value d < left)) (value d) (room d)
      amount
    have stops := grab_stops (fun left => allowed d && decide (value d < left)) (value d) (room d)
      amount
    have held := grab_room (fun left => allowed d && decide (value d < left)) (value d) (room d)
      amount
    have leftPos := grab_leaves (fun left => allowed d && decide (value d < left)) (value d)
      (fun left went => of_decide_eq_true (Bool.and_eq_true_iff.mp went).2) (room d) open'
    generalize grab (fun left => allowed d && decide (value d < left)) (value d) (room d) amount
      = here at spent stops held leftPos ⊢
    obtain ⟨m, left⟩ := here
    have topSpent := grab_spent (fun left => decide (0 < left)) (value d) (room d) amount
    have topStops := grab_stops (fun left => decide (0 < left)) (value d) (room d) amount
    have topWent := grab_went (fun left => decide (0 < left)) (value d) (room d) amount
    have topHeld := grab_room (fun left => decide (0 < left)) (value d) (room d) amount
    generalize grab (fun left => decide (0 < left)) (value d) (room d) amount = top
      at topSpent topStops topWent topHeld beyond
    obtain ⟨n, topLeft⟩ := top
    dsimp only at spent stops held leftPos topSpent topStops topWent topHeld beyond ⊢
    simp only [Bool.and_eq_false_iff, decide_eq_true_eq, decide_eq_false_iff_not]
      at stops topStops topWent
    rcases Nat.lt_or_ge m (room d) with spare | all
    · have small : left ≤ value d := by
        rcases stops with all | refused | small
        · exact absurd all (Nat.ne_of_lt spare)
        · rw [usable d List.mem_cons_self (Nat.ne_of_gt (Nat.zero_lt_of_lt spare))] at refused
          exact absurd refused (by decide)
        · exact not_lt.mp small
      have fewer := @sweep_spent _ value _
        (fun d left => allowed d && decide (value d < left)) room _ chain.tail.distinct left
      have some' := total_nonneg chain.tail.positive
        (sweep value (fun d left => allowed d && decide (value d < left)) room rest left).1
      refine ⟨d, List.mem_cons_self, lt_of_le_of_ne (by linarith) fun even => ?_, by
        rwa [Function.update_self]⟩
      -- nothing was left beyond one more coin, so taking from the largest on ends exactly
      have left_eq : topLeft = ((m : Int) + 1 - n) * value d := by
        linarith
      have atMost : n ≤ m + 1 := by
        by_contra more
        have less : ((m : Int) + 1 - n) * value d ≤ (-1) * value d :=
          mul_le_mul_of_nonneg_right (by omega) (le_of_lt positive)
        linarith [topWent (by omega)]
      have atLeast : m + 1 ≤ n := by
        by_contra fewer
        have more : 1 * value d ≤ ((m : Int) + 1 - n) * value d :=
          mul_le_mul_of_nonneg_right (by omega) (le_of_lt positive)
        exact topStops.elim (fun all => by omega) fun done => done (by linarith)
      rw [Nat.le_antisymm atMost atLeast] at left_eq
      have nothing : topLeft = 0 := by
        rw [left_eq]
        push_cast
        ring
      rw [nothing, sweep_idle fun _ _ => by simp] at beyond
      exact lt_irrefl 0 beyond
    · have same : n = room d := by
        refine topStops.resolve_right fun done => ?_
        rcases Nat.lt_or_ge n m with fewer | enough
        · have more : 1 * value d ≤ ((m : Int) - n) * value d :=
            mul_le_mul_of_nonneg_right (by omega) (le_of_lt positive)
          linarith
        · rw [topSpent, Nat.le_antisymm (topHeld.trans all) enough, ← spent] at done
          exact done leftPos
      have left_eq : topLeft = left := by
        rw [topSpent, spent, same, Nat.le_antisymm held all]
      rw [left_eq] at beyond
      obtain ⟨low, member, less, short⟩ := ih chain.tail leftPos
        (fun low member => usable low (List.mem_cons_of_mem _ member)) beyond
      refine ⟨low, List.mem_cons_of_mem _ member, less, ?_⟩
      rw [Function.update_of_ne fun same : low = d => chain.fresh (same ▸ member)]
      exact short

end Sweeps

end Updates

/-- Coins listed one by one, taken in that order until an amount is reached. -/
def reach : List Int → Int → Nat × Int
  | [], remaining => (0, remaining)
  | v :: later, remaining =>
    if 0 < remaining then ((reach later (remaining - v)).1 + 1, (reach later (remaining - v)).2)
    else (0, remaining)

theorem reach_cons (v : Int) (later : List Int) (remaining : Int) :
    reach (v :: later) remaining = if 0 < remaining then
      ((reach later (remaining - v)).1 + 1, (reach later (remaining - v)).2)
    else (0, remaining) := rfl

theorem reach_idle {remaining : Int} (done : remaining ≤ 0) :
    reach vs remaining = (0, remaining) := by
  cases vs with
  | nil => rfl
  | cons v later => rw [reach_cons, if_neg (not_lt.mpr done)]

theorem reach_append (xs ys : List Int) (remaining : Int) :
    reach (xs ++ ys) remaining = ((reach xs remaining).1 + (reach ys (reach xs remaining).2).1,
      (reach ys (reach xs remaining).2).2) := by
  induction xs generalizing remaining with
  | nil => simp [reach]
  | cons v later ih =>
    rw [List.cons_append, reach_cons, reach_cons]
    by_cases open' : 0 < remaining
    · rw [if_pos open', if_pos open', ih]
      rw [Nat.add_right_comm]
    · rw [if_neg open', if_neg open']
      simp [reach_idle (not_lt.mp open')]

theorem reach_spent (vs : List Int) (remaining : Int) :
    (reach vs remaining).2 = remaining - (vs.take (reach vs remaining).1).sum := by
  induction vs generalizing remaining with
  | nil => simp [reach]
  | cons v later ih =>
    rw [reach_cons]
    split
    · dsimp only
      rw [ih, List.take_succ_cons, List.sum_cons]
      ring
    · simp

theorem grab_reach (v : Int) (room : Nat) (remaining : Int) :
    grab (fun left => decide (0 < left)) v room remaining =
      reach (List.replicate room v) remaining := by
  induction room generalizing remaining with
  | zero => rfl
  | succ room ih =>
    rw [List.replicate_succ, reach_cons]
    unfold grab
    rw [ih]
    simp

theorem sweep_reach [DecidableEq D] {room : D → Nat} (distinct : ds.Nodup) (remaining : Int) :
    reach (ds.flatMap fun d => List.replicate (room d) (value d)) remaining =
      (coins ds (sweep value (fun _ left => decide (0 < left)) room ds remaining).1,
        (sweep value (fun _ left => decide (0 < left)) room ds remaining).2) := by
  induction ds generalizing remaining with
  | nil => rfl
  | cons d rest ih =>
    obtain ⟨apart, distinct⟩ := List.nodup_cons.mp distinct
    rw [List.flatMap_cons, reach_append, coins_sweep apart, sweep_cons, ← grab_reach, ih distinct]

theorem reach_beyond (positive : ∀ v ∈ vs, 0 < v) {amount : Int} (open' : 0 < amount) (n : Nat) :
    (reach vs amount).2 < 0 ∧ (reach vs amount).1 = n + 1 ↔
      n < vs.length ∧ (vs.take n).sum < amount ∧ amount < (vs.take (n + 1)).sum := by
  induction vs generalizing amount n with
  | nil => simp [reach]
  | cons v later ih =>
    have rest : ∀ v ∈ later, 0 < v := fun v member => positive v (List.mem_cons_of_mem _ member)
    rw [reach_cons, if_pos open']
    rw [List.take_succ_cons, List.sum_cons, List.length_cons]
    have nonneg : ∀ k, 0 ≤ (later.take k).sum := fun k =>
      List.sum_nonneg fun v member => le_of_lt (rest v (List.mem_of_mem_take member))
    rcases lt_or_ge 0 (amount - v) with more | done
    · cases n with
      | zero =>
        have spent := reach_spent later (amount - v)
        constructor
        · rintro ⟨passed, single⟩
          rw [Nat.succ.inj single] at spent
          rw [List.take_zero, List.sum_nil] at spent
          omega
        · rintro ⟨-, -, passed⟩
          rw [List.take_zero, List.sum_nil] at passed
          omega
      | succ n =>
        rw [Nat.succ_inj, ih rest more n, List.take_succ_cons, List.sum_cons]
        constructor <;> rintro ⟨enough, short, passed⟩ <;> refine ⟨?_, ?_, ?_⟩ <;> omega
    · rw [reach_idle done]
      cases n with
      | zero =>
        rw [List.take_zero, List.take_zero, List.sum_nil]
        constructor
        · rintro ⟨passed, -⟩
          exact ⟨Nat.succ_pos _, open', by omega⟩
        · rintro ⟨-, -, passed⟩
          exact ⟨by omega, rfl⟩
      | succ n =>
        constructor
        · rintro ⟨-, single⟩
          omega
        · rintro ⟨-, short, -⟩
          rw [List.take_succ_cons, List.sum_cons] at short
          linarith [nonneg n]

end GreedyCoins
