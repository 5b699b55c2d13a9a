import Oxid.Primitives
import Oxid.Library.Ancestry

/-!
The entries of the block index with their pointers. An entry is at the place in memory where
it was put; its parent and the entry its skip pointer names are places too. Heights and
places are numbers from 0 on.
-/
namespace OxidSkipList
open OxidPrimitives Ancestry

structure CBlockIndex where
  hashBlock : Uint256
  pprev : Option Nat
  pskip : Option Nat
  nHeight : Nat
deriving DecidableEq

abbrev Memory := List CBlockIndex

namespace Memory

def pprev (memory : Memory) (pindex : Nat) : Option Nat := memory[pindex]?.bind CBlockIndex.pprev

def pskip (memory : Memory) (pindex : Nat) : Option Nat := memory[pindex]?.bind CBlockIndex.pskip

def nHeight (memory : Memory) (pindex : Nat) : Nat :=
  match memory[pindex]? with
  | none => 0
  | some entry => entry.nHeight

end Memory

def invertLowestOne (n : Nat) : Nat := n &&& (n - 1)

def getSkipHeight (height : Nat) : Nat :=
  if height < 2 then 0
  else if height % 2 = 1 then invertLowestOne (invertLowestOne (height - 1)) + 1
  else invertLowestOne height

def followsSkip (heightWalk height : Nat) : Bool :=
  let heightSkip := getSkipHeight heightWalk
  let heightSkipPrev := getSkipHeight (heightWalk - 1)
  decide (heightSkip = height) || (decide (height < heightSkip) &&
    !(decide (heightSkipPrev + 2 < heightSkip) && decide (height ≤ heightSkipPrev)))

/-- The loop of `GetAncestor`. Nothing where it follows a null pointer, or where the steps
    it is given are not enough. -/
def walk (memory : Memory) (height : Nat) : Nat → Nat → Nat → Option Nat
  | steps, pindexWalk, heightWalk =>
    if heightWalk ≤ height then some pindexWalk
    else
      match steps with
      | 0 => none
      | left + 1 =>
        if followsSkip heightWalk height then
          (memory.pskip pindexWalk).bind fun next => walk memory height left next
            (getSkipHeight heightWalk)
        else
          (memory.pprev pindexWalk).bind fun next => walk memory height left next (heightWalk - 1)

/-- `GetAncestor`, which has no answer above the entry or below its genesis block. Every
    step goes down, so there are no more of them than the height. -/
def getAncestor (memory : Memory) (pindex : Nat) (height : Int) : Option Nat :=
  if (memory.nHeight pindex : Int) < height ∨ height < 0 then none
  else walk memory height.toNat (memory.nHeight pindex) pindex (memory.nHeight pindex)

def newEntry (memory : Memory) (hash : Uint256) : Option Nat → CBlockIndex
  | none => ⟨hash, none, none, 0⟩
  | some pprev =>
    let nHeight := memory.nHeight pprev + 1
    ⟨hash, some pprev, getAncestor memory pprev (getSkipHeight nHeight), nHeight⟩

def addToBlockIndex (memory : Memory) (hash : Uint256) (pprev : Option Nat) : Memory :=
  memory ++ [newEntry memory hash pprev]

/-- The trees that grow by adding an entry after its parent. A height is an `int`. -/
inductive Grown : Memory → Prop
  | empty : Grown []
  | add {memory : Memory} (hash : Uint256) (pprev : Option Nat) (grown : Grown memory)
      (fresh : ∀ entry ∈ memory, entry.hashBlock ≠ hash)
      (known : ∀ parent ∈ pprev, parent < memory.length ∧ memory.nHeight parent + 1 < 2 ^ 31) :
      Grown (addToBlockIndex memory hash pprev)

theorem invertLowestOne_le (n : Nat) : invertLowestOne n ≤ n - 1 := Nat.and_le_right

theorem getSkipHeight_lt {height : Nat} (positive : 0 < height) : getSkipHeight height < height := by
  unfold getSkipHeight
  split
  · exact positive
  · split
    · have inner := invertLowestOne_le (height - 1)
      have outer := invertLowestOne_le (invertLowestOne (height - 1))
      omega
    · have lower := invertLowestOne_le height
      omega

theorem followsSkip_le {heightWalk height : Nat} (follows : followsSkip heightWalk height = true) :
    height ≤ getSkipHeight heightWalk := by
  unfold followsSkip at follows
  rw [Bool.or_eq_true, decide_eq_true_iff] at follows
  rcases follows with level | above
  · exact le_of_eq level.symm
  · rw [Bool.and_eq_true, decide_eq_true_iff] at above
    exact le_of_lt above.1

/-- What holds in a tree: pointers stay inside, heights go up by one, and a skip pointer
    names the ancestor at its skip height. -/
structure Linked (memory : Memory) : Prop where
  graded : Graded memory.pprev memory.nHeight
  inside : ∀ pindex above, memory.pprev pindex = some above → above < memory.length
  skips : ∀ pindex above, memory.pprev pindex = some above → memory.pskip pindex =
    up memory.pprev (memory.nHeight above - getSkipHeight (memory.nHeight pindex)) above

section Walking
variable {memory : Memory}

theorem Linked.pskip_eq (linked : Linked memory) {pindex : Nat}
    (positive : 0 < memory.nHeight pindex) : memory.pskip pindex =
      up memory.pprev (memory.nHeight pindex - getSkipHeight (memory.nHeight pindex)) pindex := by
  cases parent : memory.pprev pindex with
  | none =>
    have lowest := linked.graded.root pindex parent
    omega
  | some above =>
    have higher := linked.graded.child pindex above parent
    have lower := getSkipHeight_lt positive
    have one : up memory.pprev 1 pindex = some above := by rw [up_one, parent]
    rw [linked.skips pindex above parent, ← up_from one]
    congr 1
    omega

theorem walk_eq (linked : Linked memory) {height : Nat} (steps : Nat) {pindex : Nat}
    (within : height ≤ memory.nHeight pindex)
    (enough : memory.nHeight pindex - height ≤ steps) :
    walk memory height steps pindex (memory.nHeight pindex) =
      up memory.pprev (memory.nHeight pindex - height) pindex := by
  induction steps generalizing pindex with
  | zero =>
    rw [walk, if_pos (by omega), show memory.nHeight pindex - height = 0 by omega]
    rfl
  | succ left ih =>
    rw [walk]
    split
    · rw [show memory.nHeight pindex - height = 0 by omega]
      rfl
    · split
      · rename_i follows
        have least := followsSkip_le follows
        have lower := getSkipHeight_lt (show 0 < memory.nHeight pindex by omega)
        obtain ⟨next, climbed⟩ := up_exists linked.graded pindex
          (Nat.sub_le (memory.nHeight pindex) (getSkipHeight (memory.nHeight pindex)))
        have level := up_height linked.graded climbed
        have height_next : memory.nHeight next = getSkipHeight (memory.nHeight pindex) := by omega
        rw [linked.pskip_eq (by omega), climbed, Option.bind_some, ← height_next,
          ih (by omega) (by omega), ← up_from climbed]
        congr 1
        omega
      · cases parent : memory.pprev pindex with
        | none =>
          have lowest := linked.graded.root pindex parent
          omega
        | some next =>
          have higher := linked.graded.child pindex next parent
          have one : up memory.pprev 1 pindex = some next := by rw [up_one, parent]
          rw [Option.bind_some, show memory.nHeight pindex - 1 = memory.nHeight next by omega,
            ih (by omega) (by omega), ← up_from one]
          congr 1
          omega

theorem getAncestor_eq (linked : Linked memory) {pindex height : Nat}
    (within : height ≤ memory.nHeight pindex) :
    getAncestor memory pindex height = up memory.pprev (memory.nHeight pindex - height) pindex := by
  unfold getAncestor
  rw [if_neg (by omega), Int.toNat_natCast]
  exact walk_eq linked _ within (Nat.sub_le _ _)

end Walking

section Growing
variable {memory : Memory} {entry : CBlockIndex} {pindex : Nat}

theorem pprev_old (old : pindex < memory.length) :
    Memory.pprev (memory ++ [entry]) pindex = memory.pprev pindex := by
  unfold Memory.pprev
  rw [List.getElem?_append_left old]

theorem pskip_old (old : pindex < memory.length) :
    Memory.pskip (memory ++ [entry]) pindex = memory.pskip pindex := by
  unfold Memory.pskip
  rw [List.getElem?_append_left old]

theorem nHeight_old (old : pindex < memory.length) :
    Memory.nHeight (memory ++ [entry]) pindex = memory.nHeight pindex := by
  unfold Memory.nHeight
  rw [List.getElem?_append_left old]

theorem pprev_new : Memory.pprev (memory ++ [entry]) memory.length = entry.pprev := by
  unfold Memory.pprev
  rw [List.getElem?_concat_length]
  rfl

theorem pskip_new : Memory.pskip (memory ++ [entry]) memory.length = entry.pskip := by
  unfold Memory.pskip
  rw [List.getElem?_concat_length]
  rfl

theorem nHeight_new : Memory.nHeight (memory ++ [entry]) memory.length = entry.nHeight := by
  unfold Memory.nHeight
  rw [List.getElem?_concat_length]

theorem pprev_outside (outside : memory.length ≤ pindex) :
    memory.pprev pindex = none := by
  unfold Memory.pprev
  rw [List.getElem?_eq_none outside]
  rfl

theorem nHeight_outside (outside : memory.length ≤ pindex) :
    memory.nHeight pindex = 0 := by
  unfold Memory.nHeight
  rw [List.getElem?_eq_none outside]

theorem up_old (linked : Linked memory) (steps : Nat) (old : pindex < memory.length) :
    up (Memory.pprev (memory ++ [entry])) steps pindex = up memory.pprev steps pindex :=
  up_congr (fun _ inside => pprev_old inside)
    (fun node above _ parent => linked.inside node above parent) steps old

theorem pprev_append {pindex above : Nat}
    (parent : Memory.pprev (memory ++ [entry]) pindex = some above) :
    pindex < memory.length ∧ memory.pprev pindex = some above ∨
      pindex = memory.length ∧ entry.pprev = some above := by
  rcases Nat.lt_trichotomy pindex memory.length with old | rfl | beyond
  · rw [pprev_old old] at parent
    exact Or.inl ⟨old, parent⟩
  · rw [pprev_new] at parent
    exact Or.inr ⟨rfl, parent⟩
  · rw [pprev_outside (by simpa using Nat.succ_le_of_lt beyond)] at parent
    cases parent

theorem linked_append (linked : Linked memory)
    (root : entry.pprev = none → entry.nHeight = 0)
    (known : ∀ parent, entry.pprev = some parent → parent < memory.length)
    (higher : ∀ parent, entry.pprev = some parent → entry.nHeight = memory.nHeight parent + 1)
    (skip : ∀ parent, entry.pprev = some parent → entry.pskip =
      up memory.pprev (memory.nHeight parent - getSkipHeight entry.nHeight) parent) :
    Linked (memory ++ [entry]) := by
  refine ⟨⟨?_, ?_⟩, ?_, ?_⟩
  · intro pindex none'
    rcases Nat.lt_trichotomy pindex memory.length with old | rfl | beyond
    · rw [pprev_old old] at none'
      rw [nHeight_old old]
      exact linked.graded.root pindex none'
    · rw [pprev_new] at none'
      rw [nHeight_new]
      exact root none'
    · exact nHeight_outside (by simpa using Nat.succ_le_of_lt beyond)
  · intro pindex above parent
    rcases pprev_append parent with ⟨old, named⟩ | ⟨rfl, named⟩
    · rw [nHeight_old old, nHeight_old (linked.inside pindex above named)]
      exact linked.graded.child pindex above named
    · rw [nHeight_new, nHeight_old (known above named)]
      exact higher above named
  · intro pindex above parent
    rw [List.length_append, List.length_singleton]
    rcases pprev_append parent with ⟨old, named⟩ | ⟨rfl, named⟩
    · exact Nat.lt_succ_of_lt (linked.inside pindex above named)
    · exact Nat.lt_succ_of_lt (known above named)
  · intro pindex above parent
    rcases pprev_append parent with ⟨old, named⟩ | ⟨rfl, named⟩
    · have inside := linked.inside pindex above named
      rw [pskip_old old, nHeight_old old, nHeight_old inside, up_old linked _ inside]
      exact linked.skips pindex above named
    · have inside := known above named
      rw [pskip_new, nHeight_new, nHeight_old inside, up_old linked _ inside]
      exact skip above named

theorem linked_empty : Linked [] := by
  refine ⟨⟨fun _ _ => rfl, ?_⟩, ?_, ?_⟩ <;> intro pindex above parent <;> cases parent

theorem Grown.linked (grown : Grown memory) : Linked memory := by
  induction grown with
  | empty => exact linked_empty
  | @add memory hash pprev grown fresh known ih =>
    cases pprev with
    | none =>
      refine linked_append ih (fun _ => rfl) ?_ ?_ ?_ <;> intro parent linked <;> cases linked
    | some pprev =>
      have inside := (known pprev rfl).1
      have lower := getSkipHeight_lt (Nat.succ_pos (memory.nHeight pprev))
      refine linked_append ih (fun none' => by cases none') ?_ ?_ ?_
      · rintro parent ⟨rfl⟩
        exact inside
      · rintro parent ⟨rfl⟩
        rfl
      · rintro parent ⟨rfl⟩
        exact getAncestor_eq ih (Nat.lt_succ_iff.mp lower)

theorem Grown.bounded (grown : Grown memory) (pindex : Nat) : memory.nHeight pindex < 2 ^ 31 := by
  induction grown with
  | empty => exact Nat.two_pow_pos 31
  | @add memory hash pprev grown fresh known ih =>
    unfold addToBlockIndex
    by_cases old : pindex < memory.length
    · rw [nHeight_old old]
      exact ih
    · by_cases new : pindex = memory.length
      · rw [new, nHeight_new]
        cases pprev with
        | none => exact Nat.two_pow_pos 31
        | some pprev => exact (known pprev rfl).2
      · rw [nHeight_outside (by rw [List.length_append, List.length_singleton]; omega)]
        exact Nat.two_pow_pos 31

end Growing

/-- `GetAncestor` comes to an end, at the entry that as many steps to the parent lead to. -/
theorem getAncestor_follows {memory : Memory} (grown : Grown memory) {pindex height : Nat}
    (within : height ≤ memory.nHeight pindex) :
    ∃ ancestor, up memory.pprev (memory.nHeight pindex - height) pindex = some ancestor ∧
      getAncestor memory pindex height = some ancestor ∧
      ∀ steps, memory.nHeight pindex - height ≤ steps →
        walk memory height steps pindex (memory.nHeight pindex) = some ancestor := by
  have linked := grown.linked
  obtain ⟨ancestor, climbed⟩ := up_exists linked.graded pindex
    (Nat.sub_le (memory.nHeight pindex) height)
  refine ⟨ancestor, climbed, (getAncestor_eq linked within).trans climbed, ?_⟩
  intro steps enough
  exact (walk_eq linked steps within enough).trans climbed

def forkedMemory : Memory :=
  addToBlockIndex (addToBlockIndex (addToBlockIndex (addToBlockIndex (addToBlockIndex [] 10 none)
    11 (some 0)) 12 (some 1)) 13 (some 2)) 23 (some 2)

theorem forkedMemory_grown : Grown forkedMemory := by
  have known : ∀ {memory : Memory} {parent : Nat}, parent < memory.length ∧
      memory.nHeight parent + 1 < 2 ^ 31 → ∀ pprev ∈ some parent, pprev < memory.length ∧
        memory.nHeight pprev + 1 < 2 ^ 31 := by
    rintro memory parent inside pprev ⟨rfl⟩
    exact inside
  have genesis : Grown (addToBlockIndex [] 10 none) :=
    .add 10 none .empty (by decide) (fun _ none' => by cases none')
  have first := genesis.add 11 (some 0) (by decide) (known (by decide))
  have second := first.add 12 (some 1) (by decide) (known (by decide))
  have third := second.add 13 (some 2) (by decide) (known (by decide))
  exact third.add 23 (some 2) (by decide) (known (by decide))

theorem fork_follows : 1 ≤ forkedMemory.nHeight 4 ∧
    ∃ ancestor, up forkedMemory.pprev (forkedMemory.nHeight 4 - 1) 4 = some ancestor ∧
      getAncestor forkedMemory 4 (1 : Nat) = some ancestor ∧
      ∀ steps, forkedMemory.nHeight 4 - 1 ≤ steps →
        walk forkedMemory 1 steps 4 (forkedMemory.nHeight 4) = some ancestor :=
  ⟨by decide, getAncestor_follows forkedMemory_grown (by decide)⟩

end OxidSkipList
