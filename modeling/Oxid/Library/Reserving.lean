import Mathlib.Order.Bounds.Basic

/-!
Ranges taken one after another from the end of what is used, among ranges at places that are
given.
-/
namespace Reserving

structure Range where
  start : Nat
  size : Nat
  given : Bool

def Range.stop (range : Range) : Nat := range.start + range.size

/-- The ranges that bring the used size from where it began to where it is. -/
inductive Reserves (begun : Nat) : List Range → Nat → Prop
  | nothing : Reserves begun [] begun
  | next {ranges : List Range} {used : Nat} (before : Reserves begun ranges used) (size : Nat) :
      Reserves begun (ranges ++ [⟨used, size, false⟩]) (used + size)
  | given {ranges : List Range} {used : Nat} (before : Reserves begun ranges used)
      (start size : Nat) :
      Reserves begun (ranges ++ [⟨start, size, true⟩]) (max (start + size) used)

variable {begun used : Nat} {ranges : List Range}

section
variable (reserves : Reserves begun ranges used)
include reserves

theorem Reserves.begun_le : begun ≤ used := by
  induction reserves with
  | nothing => exact le_refl _
  | next before size ih => exact le_trans ih (Nat.le_add_right _ _)
  | given before start size ih => exact le_trans ih (le_max_right _ _)

theorem Reserves.within : ∀ range ∈ ranges, range.stop ≤ used := by
  induction reserves with
  | nothing => intro range none'; cases none'
  | next before size ih =>
    intro range member
    rcases List.mem_append.mp member with earlier | last
    · exact le_trans (ih range earlier) (Nat.le_add_right _ _)
    · rw [List.mem_singleton.mp last]
      exact le_refl _
  | given before start size ih =>
    intro range member
    rcases List.mem_append.mp member with earlier | last
    · exact le_trans (ih range earlier) (le_max_right _ _)
    · rw [List.mem_singleton.mp last]
      exact le_max_left _ _

theorem Reserves.apart :
    ranges.Pairwise fun earlier later => later.given = false → earlier.stop ≤ later.start := by
  induction reserves with
  | nothing => exact .nil
  | next before size ih =>
    refine List.pairwise_append.mpr ⟨ih, List.pairwise_singleton _ _, ?_⟩
    intro earlier member last same _
    rw [List.mem_singleton.mp same]
    exact before.within earlier member
  | given before start size ih =>
    refine List.pairwise_append.mpr ⟨ih, List.pairwise_singleton _ _, ?_⟩
    intro earlier member last same taken
    rw [List.mem_singleton.mp same] at taken
    cases taken

theorem Reserves.behind : ∀ range ∈ ranges, range.given = false → begun ≤ range.start := by
  induction reserves with
  | nothing => intro range none'; cases none'
  | next before size ih =>
    intro range member taken
    rcases List.mem_append.mp member with earlier | last
    · exact ih range earlier taken
    · rw [List.mem_singleton.mp last]
      exact before.begun_le
  | given before start size ih =>
    intro range member taken
    rcases List.mem_append.mp member with earlier | last
    · exact ih range earlier taken
    · rw [List.mem_singleton.mp last] at taken
      cases taken

theorem Reserves.greatest :
    IsGreatest {stop | stop = begun ∨ ∃ range ∈ ranges, range.stop = stop} used := by
  constructor
  · induction reserves with
    | nothing => exact Or.inl rfl
    | next before size ih => exact Or.inr ⟨_, List.mem_append_right _ List.mem_cons_self, rfl⟩
    | given before start size ih =>
      rcases Nat.le_total (start + size) _ with inside | beyond
      · rw [max_eq_right inside]
        refine ih.imp_right ?_
        rintro ⟨range, member, same⟩
        exact ⟨range, List.mem_append_left _ member, same⟩
      · rw [max_eq_left beyond]
        exact Or.inr ⟨_, List.mem_append_right _ List.mem_cons_self, rfl⟩
  · rintro stop (rfl | ⟨range, member, rfl⟩)
    · exact reserves.begun_le
    · exact reserves.within range member

end

end Reserving
