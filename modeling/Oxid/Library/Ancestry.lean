import Mathlib.Data.Option.Basic

/-!
Nodes with at most one parent and a height one above the parent's.
-/
namespace Ancestry

section Climbing
variable {Node : Type*} (parent : Node → Option Node)

/-- The node a number of parents up. -/
def up : Nat → Node → Option Node
  | 0, node => some node
  | steps + 1, node => (parent node).bind (up steps)

def Ancestor (above node : Node) : Prop := ∃ steps, up parent steps node = some above

/-- Roots are at height 0 and every other node one above its parent. -/
structure Graded (height : Node → Nat) : Prop where
  root : ∀ node, parent node = none → height node = 0
  child : ∀ node above, parent node = some above → height node = height above + 1

variable {parent} {height : Node → Nat}

theorem up_one (node : Node) : up parent 1 node = parent node := by
  cases linked : parent node with
  | none => simp [up, linked]
  | some above => simp [up, linked]

theorem up_add (first second : Nat) (node : Node) :
    up parent (first + second) node = (up parent first node).bind (up parent second) := by
  induction first generalizing node with
  | zero => rw [Nat.zero_add]; rfl
  | succ first ih =>
    rw [Nat.add_right_comm]
    show (parent node).bind (up parent (first + second)) = _
    cases linked : parent node with
    | none => simp [up, linked]
    | some above =>
      rw [Option.bind_some, ih]
      simp [up, linked]

variable {node above : Node} {first second : Nat}

theorem up_trans {node middle above : Node} (low : up parent first node = some middle)
    (high : up parent second middle = some above) :
    up parent (first + second) node = some above := by
  rw [up_add, low, Option.bind_some, high]

theorem up_from {node middle : Node} (low : up parent first node = some middle) :
    up parent (first + second) node = up parent second middle := by
  rw [up_add, low, Option.bind_some]

theorem Ancestor.refl (node : Node) : Ancestor parent node node := ⟨0, rfl⟩

theorem Ancestor.trans {node middle above : Node} (low : Ancestor parent middle node)
    (high : Ancestor parent above middle) : Ancestor parent above node := by
  obtain ⟨first, climbed⟩ := low
  obtain ⟨second, further⟩ := high
  exact ⟨first + second, up_trans climbed further⟩

theorem Ancestor.of_parent (linked : parent node = some above) :
    Ancestor parent above node := ⟨1, by rw [up_one, linked]⟩

theorem Ancestor.eq_or_parent (ancestor : Ancestor parent above node) :
    above = node ∨ ∃ next, parent node = some next ∧ Ancestor parent above next := by
  obtain ⟨steps, climbed⟩ := ancestor
  cases steps with
  | zero => exact Or.inl (Option.some.inj climbed).symm
  | succ steps =>
    obtain ⟨next, linked, rest⟩ := Option.bind_eq_some_iff.mp climbed
    exact Or.inr ⟨next, linked, steps, rest⟩

theorem up_congr {parent' : Node → Option Node} {inside : Node → Prop}
    (agree : ∀ node, inside node → parent' node = parent node)
    (closed : ∀ node above, inside node → parent node = some above → inside above)
    (steps : Nat) {node : Node} (here : inside node) :
    up parent' steps node = up parent steps node := by
  induction steps generalizing node with
  | zero => rfl
  | succ steps ih =>
    rw [up, up, agree node here]
    cases linked : parent node with
    | none => rfl
    | some above => exact ih (closed node above here linked)

variable (graded : Graded parent height)
include graded

theorem up_height {steps : Nat} (climbed : up parent steps node = some above) :
    height node = height above + steps := by
  induction steps generalizing node with
  | zero =>
    obtain rfl := Option.some.inj climbed
    rfl
  | succ steps ih =>
    obtain ⟨middle, linked, further⟩ := Option.bind_eq_some_iff.mp climbed
    rw [graded.child node middle linked, ih further]
    omega

theorem up_exists (node : Node) {steps : Nat} (within : steps ≤ height node) :
    ∃ above, up parent steps node = some above := by
  induction steps generalizing node with
  | zero => exact ⟨node, rfl⟩
  | succ steps ih =>
    cases linked : parent node with
    | none =>
      have lowest := graded.root node linked
      omega
    | some middle =>
      have higher := graded.child node middle linked
      obtain ⟨above, climbed⟩ := ih middle (by omega)
      exact ⟨above, by rw [up, linked, Option.bind_some, climbed]⟩

theorem Ancestor.height_le (ancestor : Ancestor parent above node) :
    height above ≤ height node := by
  obtain ⟨steps, climbed⟩ := ancestor
  have counted := up_height graded climbed
  omega

theorem Ancestor.found (ancestor : Ancestor parent above node) :
    up parent (height node - height above) node = some above := by
  obtain ⟨steps, climbed⟩ := ancestor
  have counted := up_height graded climbed
  rw [show height node - height above = steps by omega]
  exact climbed

theorem Ancestor.of_height_le {node above other : Node} (low : Ancestor parent above node)
    (high : Ancestor parent other node) (le : height above ≤ height other) :
    Ancestor parent above other := by
  have climbed := low.found graded
  have before := high.height_le graded
  rw [show height node - height above = (height node - height other) +
    (height other - height above) by omega, up_from (high.found graded)] at climbed
  exact ⟨_, climbed⟩

end Climbing

end Ancestry
