import Mathlib.Data.List.Forall2
import Mathlib.Data.List.NodupEquivFin

/-!
Items of one list matched with items of another in order. A scan over the second list that
takes whatever fits the next item matches all of them where they can be matched at all.
-/
namespace OrderedMatch

variable {α β : Type}

/-- Every item has one of the others to it, in the same order. -/
def Assigned (fits : α → β → Prop) (items : List α) (others : List β) : Prop :=
  ∃ place : Fin items.length → Fin others.length, StrictMono place ∧
    ∀ i, fits (items.get i) (others.get (place i))

/-- A scan over the others: whether all items are matched, and the pairs tried. It gives up
    when fewer of the others are left than items wait. -/
def scan (fits : α → β → Bool) : List α → List β → Bool × List (α × β)
  | [], _ => (true, [])
  | _ :: _, [] => (false, [])
  | item :: waiting, other :: others =>
    let left := if fits item other then waiting else item :: waiting
    let later := if others.length < left.length then (false, []) else scan fits left others
    (later.1, (item, other) :: later.2)

variable {others : List β} {R : α → β → Prop} {waiting : List α} {items : List α}

theorem assigned_iff {fits : α → β → Prop} :
    Assigned fits items others ↔ List.SublistForall₂ fits items others := by
  rw [List.sublistForall₂_iff]
  constructor
  · rintro ⟨place, increasing, fit⟩
    refine ⟨List.ofFn fun i => others.get (place i), ?_, ?_⟩
    · rw [List.forall₂_iff_get]
      refine ⟨List.length_ofFn.symm, fun i first second => ?_⟩
      rw [List.get_ofFn]
      exact fit ⟨i, first⟩
    · rw [List.sublist_iff_exists_fin_orderEmbedding_get_eq]
      refine ⟨(Fin.castOrderIso List.length_ofFn).toOrderEmbedding.trans
        (OrderEmbedding.ofStrictMono place increasing), fun i => ?_⟩
      rw [List.get_ofFn]
      rfl
  · rintro ⟨chosen, fit, sub⟩
    obtain ⟨place, same⟩ := List.sublist_iff_exists_fin_orderEmbedding_get_eq.mp sub
    refine ⟨fun i => place (Fin.cast fit.length_eq i), fun i j less => ?_, fun i => ?_⟩
    · exact place.lt_iff_lt.mpr less
    · rw [← same]
      exact fit.get i.isLt _

theorem sublist_tail {item : α} (sub : List.SublistForall₂ R (item :: waiting) others) :
    List.SublistForall₂ R waiting others := by
  obtain ⟨chosen, fit, sub⟩ := List.sublistForall₂_iff.mp sub
  cases fit with
  | cons _ later =>
    exact List.sublistForall₂_iff.mpr ⟨_, later, (List.sublist_cons_self _ _).trans sub⟩

theorem sublist_short (sub : List.SublistForall₂ R items others) :
    items.length ≤ others.length := by
  obtain ⟨chosen, fit, sub⟩ := List.sublistForall₂_iff.mp sub
  rw [fit.length_eq]
  exact sub.length_le

variable {fits : α → β → Bool}

theorem scan_cons (item : α) (waiting : List α) (other : β) (others : List β) :
    scan fits (item :: waiting) (other :: others) =
      let left := if fits item other then waiting else item :: waiting
      let later := if others.length < left.length then (false, []) else scan fits left others
      (later.1, (item, other) :: later.2) := rfl

theorem scan_tries (items : List α) (others : List β) :
    (scan fits items others).2.length ≤ others.length := by
  induction others generalizing items with
  | nil => cases items <;> exact Nat.le_refl _
  | cons other others ih =>
    cases items with
    | nil => exact Nat.zero_le _
    | cons item waiting =>
      rw [scan_cons]
      generalize (if fits item other then waiting else item :: waiting) = left
      apply Nat.succ_le_succ
      split
      · exact Nat.zero_le _
      · exact ih left

/-- Taking what fits the next item costs nothing: what could be matched with it later can be
    matched without it. -/
theorem sublist_cons_iff {item : α} {other : β} :
    List.SublistForall₂ (fun a b => fits a b = true) (item :: waiting) (other :: others) ↔
      List.SublistForall₂ (fun a b => fits a b = true)
        (if fits item other then waiting else item :: waiting) others := by
  split
  · rename_i fit
    constructor
    · intro sub
      cases sub with
      | cons _ later => exact later
      | cons_right later => exact sublist_tail later
    · exact List.SublistForall₂.cons fit
  · rename_i apart
    constructor
    · intro sub
      cases sub with
      | cons fit _ => exact absurd fit apart
      | cons_right later => exact later
    · exact List.SublistForall₂.cons_right

theorem scan_iff (items : List α) (others : List β) :
    (scan fits items others).1 = true ↔
      List.SublistForall₂ (fun a b => fits a b = true) items others := by
  induction others generalizing items with
  | nil =>
    cases items with
    | nil => exact ⟨fun _ => .nil, fun _ => rfl⟩
    | cons item waiting => exact ⟨(nomatch ·), (nomatch ·)⟩
  | cons other others ih =>
    cases items with
    | nil => exact ⟨fun _ => .nil, fun _ => rfl⟩
    | cons item waiting =>
      rw [sublist_cons_iff, scan_cons]
      generalize (if fits item other then waiting else item :: waiting) = left
      dsimp only
      split
      · rename_i few
        constructor
        · intro found
          cases found
        · intro sub
          exact absurd (sublist_short sub) (Nat.not_le.mpr few)
      · exact ih left

theorem scan_reverse_iff (items : List α) (others : List β) :
    (scan fits items.reverse others.reverse).1 = true ↔
      Assigned (fun a b => fits a b = true) items others := by
  rw [scan_iff, assigned_iff, List.sublistForall₂_iff, List.sublistForall₂_iff]
  constructor
  · rintro ⟨chosen, fit, sub⟩
    refine ⟨chosen.reverse, ?_, ?_⟩
    · rw [← List.forall₂_reverse_iff, List.reverse_reverse]
      exact fit
    · rw [← List.reverse_sublist, List.reverse_reverse]
      exact sub
  · rintro ⟨chosen, fit, sub⟩
    exact ⟨chosen.reverse, List.forall₂_reverse_iff.mpr fit, sub.reverse⟩

end OrderedMatch
