import Mathlib.Algebra.Order.BigOperators.Group.List
import Mathlib.Algebra.Ring.Int.Defs
import Mathlib.Data.List.Nodup
import Mathlib.Data.List.Perm.Subperm

/-!
Items chosen from a list, each worth an amount. What is chosen is kept as a set of keys next
to a running total.
-/
namespace Selection

/-- A change of the order only. -/
structure Reorder (α : Type) where
  order : List α → List α
  perm : ∀ items, (order items).Perm items

def Reorder.same {α : Type} : Reorder α := ⟨id, fun _ => List.Perm.refl _⟩

variable {α κ : Type} [DecidableEq κ] (key : α → κ) (value : α → Int)

def worth (items : List α) : Int := (items.map value).sum

def insertOnce (item : α) (chosen : List α) : List α :=
  if key item ∈ chosen.map key then chosen else chosen ++ [item]

def choose (item : α) (state : List α × Int) : List α × Int :=
  (insertOnce key item state.1, state.2 + value item)

def gather (keep : Int → α → Bool) : List α → List α × Int → List α × Int
  | [], state => state
  | item :: rest, state =>
    gather keep rest (if keep state.2 item then choose key value item state else state)

/-- Distinct items of a list, and what they are worth. -/
structure Chosen (items chosen : List α) (total : Int) : Prop where
  distinct : (chosen.map key).Nodup
  within : ∀ item ∈ chosen, item ∈ items
  worth_total : worth value chosen = total

variable {key value}

@[simp] theorem worth_nil : worth value [] = 0 := rfl

@[simp] theorem worth_cons (item : α) (items : List α) :
    worth value (item :: items) = value item + worth value items := by
  simp [worth]

@[simp] theorem worth_append (first second : List α) :
    worth value (first ++ second) = worth value first + worth value second := by
  simp [worth]

theorem worth_perm {first second : List α} (same : first.Perm second) :
    worth value first = worth value second := (same.map value).sum_eq

variable {total : Int} {items chosen : List α} {item : α}

omit [DecidableEq κ] in
theorem Chosen.bounded (chose : Chosen key value items chosen total)
    (nonnegative : ∀ item ∈ items, 0 ≤ value item) :
    total ≤ worth value items := by
  have distinct : chosen.Nodup := List.Nodup.of_map key chose.distinct
  obtain ⟨sorted, same, sub⟩ := distinct.subperm chose.within
  rw [← chose.worth_total, ← worth_perm same]
  apply (sub.map value).sum_le_sum
  intro amount member
  obtain ⟨item, standing, rfl⟩ := List.mem_map.mp member
  exact nonnegative item standing

omit [DecidableEq κ] in
theorem Chosen.nil (items : List α) : Chosen key value items [] 0 :=
  ⟨List.nodup_nil, fun _ member => absurd member List.not_mem_nil, rfl⟩

omit [DecidableEq κ] in
theorem Chosen.mono {items more chosen : List α} (chose : Chosen key value items chosen total)
    (sub : ∀ item ∈ items, item ∈ more) :
    Chosen key value more chosen total :=
  ⟨chose.distinct, fun item member => sub item (chose.within item member), chose.worth_total⟩

theorem choose_fresh {chosen : List α} (total : Int) (fresh : key item ∉ chosen.map key) :
    choose key value item (chosen, total) = (chosen ++ [item], total + value item) := by
  rw [choose, insertOnce, if_neg fresh]

theorem Chosen.choose (chose : Chosen key value items chosen total)
    (fresh : key item ∉ chosen.map key) (member : item ∈ items) :
    Chosen key value items (Selection.choose key value item (chosen, total)).1
      (Selection.choose key value item (chosen, total)).2 := by
  rw [choose_fresh total fresh]
  refine ⟨?_, ?_, ?_⟩
  · rw [List.map_append, List.nodup_append]
    refine ⟨chose.distinct, List.nodup_singleton _, ?_⟩
    intro old standing new here
    rw [List.map_singleton, List.mem_singleton] at here
    subst here
    exact fun same => fresh (same ▸ standing)
  · intro other standing
    rcases List.mem_append.mp standing with old | new
    · exact chose.within other old
    · rw [List.mem_singleton] at new
      exact new ▸ member
  · rw [worth_append, chose.worth_total]
    simp

theorem gather_filter {keep : Int → α → Bool} {meets : α → Bool}
    (needed : ∀ total item, keep total item = true → meets item = true) (items : List α)
    (state : List α × Int) :
    gather key value keep items state = gather key value keep (items.filter meets) state := by
  induction items generalizing state with
  | nil => rfl
  | cons item rest ih =>
    by_cases met : meets item = true
    · rw [List.filter_cons_of_pos met]
      exact ih _
    · rw [List.filter_cons_of_neg met]
      have passed : keep state.2 item = false := by
        cases kept : keep state.2 item with
        | true => exact absurd (needed _ _ kept) met
        | false => rfl
      rw [gather, passed]
      exact ih state

theorem gather_chosen (keep : Int → α → Bool) {all items chosen : List α}
    (chose : Chosen key value all chosen total) (sub : ∀ item ∈ items, item ∈ all)
    (fresh : (chosen.map key ++ items.map key).Nodup) :
    Chosen key value all (gather key value keep items (chosen, total)).1
      (gather key value keep items (chosen, total)).2 := by
  induction items generalizing chosen total with
  | nil => exact chose
  | cons item rest ih =>
    rw [List.map_cons, List.nodup_middle, List.nodup_cons] at fresh
    obtain ⟨new, later⟩ := fresh
    have later' := fun other member => sub other (List.mem_cons_of_mem item member)
    rw [gather]
    split
    · have absent : key item ∉ chosen.map key := fun member => new (List.mem_append_left _ member)
      have chooses := chose.choose absent (sub item List.mem_cons_self)
      rw [choose_fresh total absent] at chooses ⊢
      refine ih chooses later' ?_
      rw [List.map_append, List.map_singleton, List.append_assoc, List.singleton_append,
        List.nodup_middle, List.nodup_cons]
      exact ⟨new, later⟩
    · exact ih chose later' later

theorem gather_mem (keep : Int → α → Bool) {items : List α} {state : List α × Int}
    (member : item ∈ (gather key value keep items state).1) :
    item ∈ state.1 ∨ (item ∈ items ∧ ∃ total, keep total item = true) := by
  induction items generalizing state with
  | nil => exact .inl member
  | cons first rest ih =>
    rcases ih member with before | ⟨later, kept⟩
    · split at before
      · rename_i keeps
        unfold Selection.choose insertOnce at before
        split at before
        · exact .inl before
        · rcases List.mem_append.mp before with old | new
          · exact .inl old
          · rw [List.mem_singleton] at new
            subst new
            exact .inr ⟨List.mem_cons_self, state.2, keeps⟩
      · exact .inl before
    · exact .inr ⟨List.mem_cons_of_mem first later, kept⟩

theorem gather_all (items : List α) (state : List α × Int) :
    (gather key value (fun _ _ => true) items state).2 = state.2 + worth value items := by
  induction items generalizing state with
  | nil => simp [gather]
  | cons item rest ih =>
    rw [gather, if_pos rfl, ih, worth_cons]
    simp only [choose]
    omega

section Masks

def picked : List Bool → List α → List α
  | true :: mask, item :: rest => item :: picked mask rest
  | false :: mask, _ :: rest => picked mask rest
  | _, _ => []

theorem picked_sublist (mask : List Bool) (items : List α) : (picked mask items).Sublist items := by
  induction items generalizing mask with
  | nil =>
    cases mask with
    | nil => exact List.Sublist.refl _
    | cons bit mask => cases bit <;> exact List.Sublist.refl _
  | cons item rest ih =>
    cases mask with
    | nil => exact List.nil_sublist _
    | cons bit mask =>
      cases bit with
      | true => exact (ih mask).cons_cons item
      | false => exact (ih mask).cons item

theorem picked_all (items : List α) : picked (List.replicate items.length true) items = items := by
  induction items with
  | nil => rfl
  | cons item rest ih =>
    rw [List.length_cons, List.replicate_succ, picked, ih]

theorem picked_none (count : Nat) (items : List α) :
    picked (List.replicate count false) items = [] := by
  induction items generalizing count with
  | nil =>
    cases count with
    | zero => rfl
    | succ count => rfl
  | cons item rest ih =>
    cases count with
    | zero => rfl
    | succ count => exact ih count

theorem worth_set {mask : List Bool} {items : List α} {place : Nat} {item : α}
    (open' : mask[place]? = some false) (standing : items[place]? = some item) :
    worth value (picked (mask.set place true) items) =
      worth value (picked mask items) + value item := by
  induction items generalizing mask place with
  | nil => simp at standing
  | cons first rest ih =>
    cases mask with
    | nil => simp at open'
    | cons bit mask =>
      cases place with
      | zero =>
        rw [List.getElem?_cons_zero, Option.some.injEq] at open' standing
        subst open' standing
        rw [List.set_cons_zero, picked, picked, worth_cons]
        omega
      | succ place =>
        rw [List.getElem?_cons_succ] at open' standing
        have later := ih open' standing
        rw [List.set_cons_succ]
        cases bit with
        | true =>
          rw [picked, picked, worth_cons, worth_cons, later]
          omega
        | false => exact later

end Masks

end Selection
