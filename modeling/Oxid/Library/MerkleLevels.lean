import Mathlib.Algebra.Group.Nat.Defs
import Mathlib.Data.Nat.Log
import Mathlib.Data.Set.Function
import Mathlib.Tactic.Common

/-!
The levels of a hash tree whose odd last node is paired with itself. A level is bound by the
one above it unless it closes with two equal nodes.
-/
namespace MerkleLevels

variable {Hash : Type} (pair : Hash → Hash → Hash)

/-- The pairs that are hashed into the level above. -/
def paired : List Hash → List (Hash × Hash)
  | [] => []
  | [last] => [(last, last)]
  | first :: second :: rest => (first, second) :: paired rest

def up (nodes : List Hash) : List Hash := (paired nodes).map fun both => pair both.1 both.2

def level (leaves : List Hash) : Nat → List Hash
  | 0 => leaves
  | height + 1 => up pair (level leaves height)

/-- A level of even size that ends in two equal nodes. -/
def Twin : List Hash → Prop
  | [] => False
  | [_] => False
  | [first, second] => first = second
  | _ :: _ :: third :: rest => Twin (third :: rest)

instance decidableTwin [DecidableEq Hash] : (nodes : List Hash) → Decidable (Twin nodes)
  | [] => .isFalse id
  | [_] => .isFalse id
  | [first, second] => inferInstanceAs (Decidable (first = second))
  | _ :: _ :: third :: rest => decidableTwin (third :: rest)

@[simp] theorem twin_nil : ¬ Twin ([] : List Hash) := id

@[simp] theorem twin_single (node : Hash) : ¬ Twin [node] := id

theorem twin_step (first second : Hash) (rest : List Hash) :
    Twin (first :: second :: rest) ↔ rest = [] ∧ first = second ∨ Twin rest := by
  cases rest with
  | nil => simp [Twin]
  | cons third more => simp [Twin]

theorem paired_length (nodes : List Hash) : (paired nodes).length = (nodes.length + 1) / 2 := by
  induction nodes using paired.induct with
  | case1 => simp [paired]
  | case2 last => simp [paired]
  | case3 first second rest ih =>
    rw [paired, List.length_cons, ih, List.length_cons, List.length_cons]
    omega

theorem up_length (nodes : List Hash) : (up pair nodes).length = (nodes.length + 1) / 2 := by
  unfold up
  rw [List.length_map, paired_length]

theorem paired_binds {left right : List Hash} (same : paired left = paired right)
    (leftTwin : ¬ Twin left) (rightTwin : ¬ Twin right) : left = right := by
  induction left using paired.induct generalizing right with
  | case1 =>
    cases right with
    | nil => rfl
    | cons first rest => cases rest <;> cases same
  | case2 last =>
    match right with
    | [] => cases same
    | [other] =>
      simp only [paired, List.cons.injEq, Prod.mk.injEq, and_true] at same
      rw [same.1]
    | first :: second :: rest =>
      simp only [paired, List.cons.injEq, Prod.mk.injEq] at same
      obtain ⟨⟨one, two⟩, ends⟩ := same
      match rest with
      | [] => exact absurd (one.symm.trans two) rightTwin
      | [third] => cases ends
      | third :: fourth :: more => cases ends
  | case3 first second rest ih =>
    match right with
    | [] => cases same
    | [other] =>
      simp only [paired, List.cons.injEq, Prod.mk.injEq] at same
      obtain ⟨⟨one, two⟩, ends⟩ := same
      match rest with
      | [] => exact absurd (one.trans two.symm) leftTwin
      | [third] => cases ends
      | third :: fourth :: more => cases ends
    | other :: another :: more =>
      simp only [paired, List.cons.injEq, Prod.mk.injEq] at same
      obtain ⟨⟨one, two⟩, ends⟩ := same
      have below : rest = more := by
        apply ih ends
        · intro twin
          cases rest with
          | nil => exact twin
          | cons third after => exact leftTwin twin
        · intro twin
          cases more with
          | nil => exact twin
          | cons third after => exact rightTwin twin
      rw [one, two, below]

theorem map_binds {Item Image : Type} {image : Item → Image} {among : Set Item}
    (injective : Set.InjOn image among) {left right : List Item}
    (leftAmong : ∀ item ∈ left, item ∈ among) (rightAmong : ∀ item ∈ right, item ∈ among)
    (same : left.map image = right.map image) : left = right := by
  induction left generalizing right with
  | nil => exact (List.map_eq_nil_iff.mp same.symm).symm
  | cons first rest ih =>
    cases right with
    | nil => cases same
    | cons other more =>
      simp only [List.map_cons, List.cons.injEq] at same
      have heads : first = other := injective (leftAmong first List.mem_cons_self)
        (rightAmong other List.mem_cons_self) same.1
      have tails : rest = more := ih
        (fun item member => leftAmong item (List.mem_cons_of_mem _ member))
        (fun item member => rightAmong item (List.mem_cons_of_mem _ member)) same.2
      rw [heads, tails]

section Levels

variable {pair} {hashed : Set (Hash × Hash)}

theorem level_up (leaves : List Hash) (height : Nat) :
    level pair (up pair leaves) height = level pair leaves (height + 1) := by
  induction height with
  | zero => rfl
  | succ height ih => rw [level, ih, level, level, level]

theorem level_add (leaves : List Hash) (lower upper : Nat) :
    level pair (level pair leaves lower) upper = level pair leaves (lower + upper) := by
  induction upper with
  | zero => rfl
  | succ upper ih => rw [level, ih, ← Nat.add_assoc, level]

theorem level_length (leaves : List Hash) (height : Nat) :
    (level pair leaves height).length = (leaves.length + 2 ^ height - 1) / 2 ^ height := by
  induction height with
  | zero => simp [level]
  | succ height ih =>
    have positive : 0 < 2 ^ height := Nat.two_pow_pos height
    have shift : leaves.length + 2 ^ (height + 1) - 1 =
        leaves.length + 2 ^ height - 1 + 2 ^ height := by
      omega
    rw [level, up_length, ih, shift, Nat.pow_succ, ← Nat.div_div_eq_div_mul,
      Nat.add_div_right _ positive]

/-- Without collisions among the pairs that are hashed, equal levels have equal ones
    under them when no level in between has a twin. -/
theorem level_binds (noCollision : Set.InjOn (fun both => pair both.1 both.2) hashed)
    {left right : List Hash} {height : Nat}
    (leftHashed : ∀ below < height, ∀ both ∈ paired (level pair left below), both ∈ hashed)
    (rightHashed : ∀ below < height, ∀ both ∈ paired (level pair right below), both ∈ hashed)
    (leftTwin : ∀ below < height, ¬ Twin (level pair left below))
    (rightTwin : ∀ below < height, ¬ Twin (level pair right below))
    (same : level pair left height = level pair right height) : left = right := by
  induction height with
  | zero => exact same
  | succ height ih =>
    have pairs : paired (level pair left height) = paired (level pair right height) :=
      map_binds noCollision (leftHashed height (Nat.lt_succ_self height))
        (rightHashed height (Nat.lt_succ_self height)) same
    apply ih
    · exact fun below lower => leftHashed below (Nat.lt_succ_of_lt lower)
    · exact fun below lower => rightHashed below (Nat.lt_succ_of_lt lower)
    · exact fun below lower => leftTwin below (Nat.lt_succ_of_lt lower)
    · exact fun below lower => rightTwin below (Nat.lt_succ_of_lt lower)
    · exact paired_binds pairs (leftTwin height (Nat.lt_succ_self height))
        (rightTwin height (Nat.lt_succ_self height))

def rightOf (width index : Nat) : Nat := if 2 * index + 1 < width then 2 * index + 1 else 2 * index

variable {leaves : List Hash} {nodes : List Hash}

theorem paired_at {index : Nat} {both : Hash × Hash} (found : (paired nodes)[index]? = some both) :
    nodes[2 * index]? = some both.1 ∧
      nodes[rightOf nodes.length index]? = some both.2 := by
  induction nodes using paired.induct generalizing index with
  | case1 => cases found
  | case2 last =>
    cases index with
    | zero =>
      have alone : both = (last, last) := by simpa [paired] using found.symm
      rw [alone]
      exact ⟨rfl, rfl⟩
    | succ index => simp [paired] at found
  | case3 first second rest ih =>
    cases index with
    | zero =>
      have here : both = (first, second) := by simpa [paired] using found.symm
      rw [here]
      constructor
      · rfl
      · simp [rightOf]
    | succ index =>
      obtain ⟨left, right⟩ := ih found
      have twice : 2 * (index + 1) = 2 * index + 1 + 1 := by omega
      have shifted : rightOf (first :: second :: rest).length (index + 1) =
          rightOf rest.length index + 1 + 1 := by
        unfold rightOf
        rw [List.length_cons, List.length_cons]
        split_ifs <;> omega
      rw [twice, shifted, List.getElem?_cons_succ, List.getElem?_cons_succ,
        List.getElem?_cons_succ, List.getElem?_cons_succ]
      exact ⟨left, right⟩

theorem level_node {height index : Nat} {node : Hash}
    (found : (level pair leaves (height + 1))[index]? = some node) :
    ∃ both ∈ paired (level pair leaves height), pair both.1 both.2 = node ∧
      (level pair leaves height)[2 * index]? = some both.1 ∧
      (level pair leaves height)[rightOf (level pair leaves height).length index]? =
        some both.2 := by
  rw [level, up, List.getElem?_map] at found
  obtain ⟨both, listed, image⟩ := Option.map_eq_some_iff.mp found
  exact ⟨both, List.mem_of_getElem? listed, image, paired_at listed⟩

def siblingOf (width index : Nat) : Nat :=
  if index % 2 = 1 then index - 1 else min (index + 1) (width - 1)

theorem up_node {index : Nat} {node : Hash} (found : nodes[index]? = some node) :
    ∃ other, nodes[siblingOf nodes.length index]? = some other ∧
      (up pair nodes)[index / 2]? =
        some (if index % 2 = 1 then pair other node else pair node other) := by
  obtain ⟨inside, _⟩ := List.getElem?_eq_some_iff.mp found
  have under : index / 2 < (paired nodes).length := by
    rw [paired_length]
    omega
  have here := List.getElem?_eq_getElem under
  obtain ⟨left, right⟩ := paired_at here
  have above : (up pair nodes)[index / 2]? =
      some (pair (paired nodes)[index / 2].1 (paired nodes)[index / 2].2) := by
    simp [up, here]
  unfold rightOf at right
  unfold siblingOf
  by_cases odd : index % 2 = 1
  · have same : 2 * (index / 2) + 1 = index := by omega
    rw [same, if_pos inside, found] at right
    refine ⟨(paired nodes)[index / 2].1, ?_, ?_⟩
    · rw [if_pos odd, ← left]
      congr 1
      omega
    · rw [if_pos odd, above, Option.some.inj right]
  · have same : 2 * (index / 2) = index := by omega
    rw [same, found] at left
    refine ⟨(paired nodes)[index / 2].2, ?_, ?_⟩
    · rw [if_neg odd, ← right]
      congr 1
      split <;> omega
    · rw [if_neg odd, above, Option.some.inj left]

def stacked (pair : Hash → Hash → Hash) (nodes : List Hash) : List Hash :=
  if 1 < nodes.length then nodes ++ stacked pair (up pair nodes) else nodes
termination_by nodes.length
decreasing_by
  rw [up_length]
  omega

def treeHeight (size : Nat) : Nat := Nat.clog 2 size

theorem treeHeight_small {size : Nat} (small : size ≤ 1) : treeHeight size = 0 :=
  Nat.clog_of_right_le_one small 2

theorem treeHeight_large {size : Nat} (large : 2 ≤ size) :
    treeHeight size = treeHeight ((size + 1) / 2) + 1 := Nat.clog_of_two_le (by decide) large

theorem level_top (pair : Hash → Hash → Hash) (filled : leaves ≠ []) :
    ∃ root, level pair leaves (treeHeight leaves.length) = [root] := by
  induction size : leaves.length using Nat.strong_induction_on generalizing leaves with
  | _ count ih =>
    have positive := List.length_pos_iff.mpr filled
    by_cases large : 2 ≤ count
    · have shorter : (up pair leaves).length = (count + 1) / 2 := by rw [up_length, size]
      have some' : up pair leaves ≠ [] := by
        rw [← List.length_pos_iff, shorter]
        omega
      obtain ⟨root, top⟩ := ih ((count + 1) / 2) (by omega) some' shorter
      rw [treeHeight_large large, ← level_up]
      exact ⟨root, top⟩
    · obtain ⟨root, alone⟩ := List.length_eq_one_iff.mp (show leaves.length = 1 by omega)
      rw [treeHeight_small (by omega), alone]
      exact ⟨root, rfl⟩

def hashedPairs (pair : Hash → Hash → Hash) (leaves : List Hash) : Set (Hash × Hash) :=
  {both | ∃ below < treeHeight leaves.length, both ∈ paired (level pair leaves below)}

/-- A tree with a twin on one of its levels below the root. -/
def Mutated (pair : Hash → Hash → Hash) (leaves : List Hash) : Prop :=
  ∃ below < treeHeight leaves.length, Twin (level pair leaves below)

/-- Two trees in which no two pairs collide and no leaf is the hash of a pair. -/
structure Unmixed (pair : Hash → Hash → Hash) (left right : List Hash) : Prop where
  noCollision : Set.InjOn (fun both => pair both.1 both.2)
    (hashedPairs pair left ∪ hashedPairs pair right)
  leaves : ∀ leaf ∈ left ++ right,
    ∀ both ∈ hashedPairs pair left ∪ hashedPairs pair right,
      pair both.1 both.2 ≠ leaf

theorem Unmixed.symm {left right : List Hash} (unmixed : Unmixed pair left right) :
    Unmixed pair right left := by
  constructor
  · rw [Set.union_comm]
    exact unmixed.noCollision
  · intro leaf member
    rw [Set.union_comm]
    rw [List.mem_append, or_comm, ← List.mem_append] at member
    exact unmixed.leaves leaf member

theorem root_binds_lower {left right : List Hash} (leftFilled : left ≠ [])
    (unmixed : Unmixed pair left right) (leftTwin : ¬ Mutated pair left)
    (rightTwin : ¬ Mutated pair right)
    (lower : treeHeight left.length ≤ treeHeight right.length)
    (same : level pair left (treeHeight left.length) =
      level pair right (treeHeight right.length)) : left = right := by
  obtain ⟨more, split⟩ := Nat.exists_eq_add_of_le' lower
  have bottom : left = level pair right more := by
    apply @level_binds Hash pair (hashedPairs pair left ∪ hashedPairs pair right)
      unmixed.noCollision left (level pair right more) (treeHeight left.length)
    · intro below under both member
      exact Or.inl ⟨below, under, member⟩
    · intro below under both member
      rw [level_add] at member
      exact Or.inr ⟨more + below, by omega, member⟩
    · intro below under twin
      exact leftTwin ⟨below, under, twin⟩
    · intro below under twin
      rw [level_add] at twin
      exact rightTwin ⟨more + below, by omega, twin⟩
    · rw [level_add, ← split]
      exact same
  cases more with
  | zero => exact bottom
  | succ more =>
    obtain ⟨leaf, member⟩ := List.exists_mem_of_ne_nil left leftFilled
    have inner : leaf ∈ level pair right (more + 1) := bottom ▸ member
    obtain ⟨both, hashed, image⟩ := List.mem_map.mp inner
    exact absurd image (unmixed.leaves leaf (List.mem_append_left _ member) both
      (Or.inr ⟨more, by omega, hashed⟩))

theorem root_binds {left right : List Hash} (leftFilled : left ≠ []) (rightFilled : right ≠ [])
    (unmixed : Unmixed pair left right) (leftTwin : ¬ Mutated pair left)
    (rightTwin : ¬ Mutated pair right)
    (same : level pair left (treeHeight left.length) =
      level pair right (treeHeight right.length)) : left = right := by
  rcases Nat.le_total (treeHeight left.length) (treeHeight right.length) with lower | higher
  · exact root_binds_lower leftFilled unmixed leftTwin rightTwin lower same
  · exact (root_binds_lower rightFilled unmixed.symm rightTwin leftTwin higher
      same.symm).symm

end Levels

end MerkleLevels
