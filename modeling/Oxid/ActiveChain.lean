import Oxid.SkipList

/-!
The active chain, a vector of entries by height: the fork of a branch, and a locator from
which another node finds a block that both have.
-/
namespace OxidActiveChain
open OxidPrimitives OxidSkipList Ancestry

/-- The vector of `CChain`. A place that was never written is a null pointer. -/
abbrev CChain := List (Option Nat)

namespace CChain

def genesis : CChain → Option Nat
  | [] => none
  | first :: _ => first

def tip (vChain : CChain) : Option Nat := vChain.getLast?.join

/-- The entry at a height, by `operator[]`. -/
def entryAt (vChain : CChain) (nHeight : Int) : Option Nat :=
  if nHeight < 0 ∨ (vChain.length : Int) ≤ nHeight then none else vChain[nHeight.toNat]?.join

def height (vChain : CChain) : Int := vChain.length - 1

def contains (memory : Memory) (vChain : CChain) (pindex : Nat) : Bool :=
  decide (vChain.entryAt (memory.nHeight pindex) = some pindex)

def resize (vChain : CChain) (size : Nat) : CChain :=
  vChain.take size ++ List.replicate (size - vChain.length) none

def overwrite (memory : Memory) : Nat → CChain → Option Nat → CChain
  | 0, vChain, _ => vChain
  | _ + 1, vChain, none => vChain
  | left + 1, vChain, some pindex =>
    if vChain[memory.nHeight pindex]? = some (some pindex) then vChain
    else overwrite memory left (vChain.set (memory.nHeight pindex) (some pindex))
      (memory.pprev pindex)

def setTip (memory : Memory) (vChain : CChain) : Option Nat → CChain
  | none => []
  | some pindex => overwrite memory (memory.nHeight pindex + 1)
      (vChain.resize (memory.nHeight pindex + 1)) (some pindex)

/-- The loop of `FindFork`. -/
def findForkFrom (memory : Memory) (vChain : CChain) : Nat → Option Nat → Option Nat
  | _, none => none
  | 0, some _ => none
  | left + 1, some pindex =>
    if vChain.contains memory pindex then some pindex
    else findForkFrom memory vChain left (memory.pprev pindex)

def findFork (memory : Memory) (vChain : CChain) (pindex : Nat) : Option Nat :=
  findForkFrom memory vChain (memory.nHeight pindex + 1)
    (if vChain.height < memory.nHeight pindex then getAncestor memory pindex vChain.height
      else some pindex)

end CChain

def hashOf (memory : Memory) (pindex : Nat) : Uint256 :=
  match memory[pindex]? with
  | none => 0
  | some entry => entry.hashBlock

/-- What is left of a number in an `int`. -/
def int32 (number : Int) : Int := number.bmod (2 ^ 32)

def locatorHeight (nHeight : Nat) (nStep : Int) : Int := max (int32 (nHeight - nStep)) 0

namespace CChain

def locate (memory : Memory) (vChain : CChain) :
    Nat → Option Nat → Int → List Uint256 → List Uint256
  | 0, _, _, vHave => vHave
  | _ + 1, none, _, vHave => vHave
  | left + 1, some pindex, nStep, vHave =>
    let vHave := vHave ++ [hashOf memory pindex]
    if memory.nHeight pindex = 0 then vHave
    else
      let nHeight := locatorHeight (memory.nHeight pindex) nStep
      let next := if vChain.contains memory pindex then vChain.entryAt nHeight
        else getAncestor memory pindex nHeight
      locate memory vChain left next (if 10 < vHave.length then int32 (nStep * 2) else nStep) vHave

def getLocator (memory : Memory) (vChain : CChain) (pindex : Option Nat) : List Uint256 :=
  match pindex.or vChain.tip with
  | none => []
  | some pindex => locate memory vChain (memory.nHeight pindex + 1) (some pindex) 1 []

def find (memory : Memory) (hash : Uint256) : Option Nat :=
  memory.findIdx? fun entry => decide (entry.hashBlock = hash)

def findForkInGlobalIndex (memory : Memory) (vChain : CChain) : List Uint256 → Option Nat
  | [] => vChain.genesis
  | hash :: vHave =>
    match find memory hash with
    | none => findForkInGlobalIndex memory vChain vHave
    | some pindex =>
      if vChain.contains memory pindex then some pindex
      else findForkInGlobalIndex memory vChain vHave

end CChain

/-- A node's index and chain: entries are added and tips are set, in any order. -/
inductive Run : Memory → CChain → Option Nat → Prop
  | start : Run [] [] none
  | add {memory : Memory} {vChain : CChain} {tip : Option Nat} (hash : Uint256)
      (pprev : Option Nat) (run : Run memory vChain tip)
      (fresh : ∀ entry ∈ memory, entry.hashBlock ≠ hash)
      (known : ∀ parent ∈ pprev, parent < memory.length ∧ memory.nHeight parent + 1 < 2 ^ 31) :
      Run (addToBlockIndex memory hash pprev) vChain tip
  | setTip {memory : Memory} {vChain : CChain} {tip : Option Nat} (pindex : Option Nat)
      (run : Run memory vChain tip) (known : ∀ entry ∈ pindex, entry < memory.length) :
      Run memory (vChain.setTip memory pindex) pindex

def Line (memory : Memory) (vChain : CChain) : Option Nat → Prop
  | none => vChain = []
  | some tip => vChain.length = memory.nHeight tip + 1 ∧ ∀ height ≤ memory.nHeight tip,
      vChain[height]? = some (up memory.pprev (memory.nHeight tip - height) tip)

def Common (memory : Memory) (tip : Option Nat) (pindex above : Nat) : Prop :=
  Ancestor memory.pprev above pindex ∧ ∃ last, tip = some last ∧ Ancestor memory.pprev above last

def HighestCommon (memory : Memory) (tip : Option Nat) (pindex : Nat) : Option Nat → Prop
  | none => ∀ above, ¬Common memory tip pindex above
  | some fork => Common memory tip pindex fork ∧
      ∀ above, Common memory tip pindex above → memory.nHeight above ≤ memory.nHeight fork

/-- Ancestors of an entry, strictly down from it to its genesis entry. -/
structure Descends (memory : Memory) (pindex : Nat) (entries : List Nat) : Prop where
  first : entries.head? = some pindex
  last : ∃ genesis, entries.getLast? = some genesis ∧ memory.nHeight genesis = 0
  falling : entries.Pairwise fun a b => memory.nHeight b < memory.nHeight a
  ancestors : ∀ entry ∈ entries, Ancestor memory.pprev entry pindex

section SettingTips
variable {memory : Memory} {vChain : CChain} {tip : Option Nat}

def Closed (memory : Memory) (vChain : CChain) (bound : Nat) : Prop :=
  ∀ pindex, memory.nHeight pindex < bound →
    vChain[memory.nHeight pindex]? = some (some pindex) → ∀ height ≤ memory.nHeight pindex,
      vChain[height]? = some (up memory.pprev (memory.nHeight pindex - height) pindex)

theorem overwrite_none (steps : Nat) (vChain : CChain) :
    CChain.overwrite memory steps vChain none = vChain := by
  cases steps <;> rfl

theorem overwrite_spec (linked : Linked memory) (steps : Nat) {vChain : CChain} {pindex : Nat}
    (enough : memory.nHeight pindex < steps) (room : memory.nHeight pindex < vChain.length)
    (closed : Closed memory vChain (memory.nHeight pindex + 1)) :
    (CChain.overwrite memory steps vChain (some pindex)).length = vChain.length ∧
    (∀ height ≤ memory.nHeight pindex,
      (CChain.overwrite memory steps vChain (some pindex))[height]? =
        some (up memory.pprev (memory.nHeight pindex - height) pindex)) ∧
    ∀ height, memory.nHeight pindex < height →
      (CChain.overwrite memory steps vChain (some pindex))[height]? = vChain[height]? := by
  induction steps generalizing vChain pindex with
  | zero => omega
  | succ left ih =>
    rw [CChain.overwrite]
    split
    · rename_i standing
      exact ⟨rfl, closed pindex (Nat.lt_succ_self _) standing, fun _ _ => rfl⟩
    · have placed : (vChain.set (memory.nHeight pindex) (some pindex))[memory.nHeight pindex]? =
          some (some pindex) := List.getElem?_set_self room
      have others : ∀ height, memory.nHeight pindex ≠ height →
          (vChain.set (memory.nHeight pindex) (some pindex))[height]? = vChain[height]? :=
        fun height apart => List.getElem?_set_ne apart
      cases parent : memory.pprev pindex with
      | none =>
        have lowest := linked.graded.root pindex parent
        rw [overwrite_none]
        refine ⟨List.length_set, ?_, fun height above => others height (by omega)⟩
        intro height within
        rw [show height = memory.nHeight pindex by omega, placed, Nat.sub_self]
        rfl
      | some next =>
        have higher := linked.graded.child pindex next parent
        have one : up memory.pprev 1 pindex = some next := by rw [up_one, parent]
        have still : Closed memory (vChain.set (memory.nHeight pindex) (some pindex))
            (memory.nHeight next + 1) := by
          intro entry below standing height within
          rw [others _ (by omega)] at standing
          rw [others _ (by omega)]
          exact closed entry (by omega) standing height within
        obtain ⟨length, lower, upper⟩ := ih (show memory.nHeight next < left by omega)
          (by rw [List.length_set]; omega) still
        refine ⟨length.trans List.length_set, ?_, ?_⟩
        · intro height within
          by_cases level : height = memory.nHeight pindex
          · rw [level, upper _ (by omega), placed, Nat.sub_self]
            rfl
          · rw [lower height (by omega), ← up_from one]
            congr 2
            omega
        · intro height above
          rw [upper height (by omega), others height (by omega)]

theorem up_below {pindex other height : Nat}
    (ancestor : up memory.pprev (memory.nHeight pindex - memory.nHeight other) pindex = some other)
    (low : height ≤ memory.nHeight other) (high : memory.nHeight other ≤ memory.nHeight pindex) :
    up memory.pprev (memory.nHeight pindex - height) pindex =
      up memory.pprev (memory.nHeight other - height) other := by
  rw [← up_from ancestor]
  congr 1
  omega

theorem resize_closed (line : Line memory vChain tip) (size : Nat) :
    Closed memory (vChain.resize size) size := by
  intro pindex below standing height within
  have old : ∀ place, place < size → place < vChain.length →
      (vChain.resize size)[place]? = vChain[place]? := by
    intro place inside there
    unfold CChain.resize
    rw [List.getElem?_append_left (by rw [List.length_take]; omega), List.getElem?_take_of_lt inside]
  by_cases there : memory.nHeight pindex < vChain.length
  · rw [old _ below there] at standing
    rw [old height (by omega) (by omega)]
    cases tip with
    | none =>
      rw [show vChain = [] from line] at there
      cases there
    | some last =>
      obtain ⟨length, ancestors⟩ := line
      have climbed := ancestors (memory.nHeight pindex) (by omega)
      rw [standing] at climbed
      rw [ancestors height (by omega),
        up_below (Option.some.inj climbed).symm within (by omega)]
  · unfold CChain.resize at standing
    rw [List.getElem?_append_right (by rw [List.length_take]; omega)] at standing
    have null := List.mem_of_getElem? standing
    cases List.eq_of_mem_replicate null

theorem resize_length (size : Nat) : (vChain.resize size).length = size := by
  unfold CChain.resize
  rw [List.length_append, List.length_take, List.length_replicate]
  omega

theorem setTip_line (linked : Linked memory) (line : Line memory vChain tip)
    (pindex : Option Nat) : Line memory (vChain.setTip memory pindex) pindex := by
  cases pindex with
  | none => rfl
  | some pindex =>
    have closed := resize_closed line (memory.nHeight pindex + 1)
    have room := @resize_length vChain (memory.nHeight pindex + 1)
    obtain ⟨length, ancestors, -⟩ := overwrite_spec linked (memory.nHeight pindex + 1)
      (Nat.lt_succ_self _) (by rw [room]; exact Nat.lt_succ_self _) closed
    exact ⟨length.trans room, ancestors⟩

theorem line_append (linked : Linked memory) (line : Line memory vChain tip)
    (inside : ∀ last ∈ tip, last < memory.length) (entry : CBlockIndex) :
    Line (memory ++ [entry]) vChain tip := by
  cases tip with
  | none => exact line
  | some last =>
    obtain ⟨length, ancestors⟩ := line
    have old := inside last rfl
    refine ⟨by rw [nHeight_old old]; exact length, ?_⟩
    intro height within
    rw [nHeight_old old] at within ⊢
    rw [up_old linked _ old]
    exact ancestors height within

theorem Run.grown (run : Run memory vChain tip) : Grown memory := by
  induction run with
  | start => exact .empty
  | add hash pprev run fresh known ih => exact ih.add hash pprev fresh known
  | setTip pindex run known ih => exact ih

theorem Run.inside (run : Run memory vChain tip) : ∀ last ∈ tip, last < memory.length := by
  induction run with
  | start => intro last none'; cases none'
  | add hash pprev run fresh known ih =>
    intro last set
    have old := ih last set
    unfold addToBlockIndex
    rw [List.length_append]
    omega
  | setTip pindex run known ih => exact known

theorem Run.line (run : Run memory vChain tip) : Line memory vChain tip := by
  induction run with
  | start => rfl
  | add hash pprev run fresh known ih => exact line_append run.grown.linked ih run.inside _
  | setTip pindex run known ih => exact setTip_line run.grown.linked ih pindex

end SettingTips

section Forks
variable {memory : Memory} {vChain : CChain} {tip : Option Nat}

theorem entryAt_eq (vChain : CChain) (height : Nat) :
    vChain.entryAt height = vChain[height]?.join := by
  unfold CChain.entryAt
  split
  · rw [List.getElem?_eq_none (by omega)]
    rfl
  · rfl

theorem line_at (line : Line memory vChain tip) {last height : Nat} (set : tip = some last)
    (within : height ≤ memory.nHeight last) :
    vChain.entryAt height = up memory.pprev (memory.nHeight last - height) last := by
  subst set
  rw [entryAt_eq, line.2 height within]
  rfl

theorem contains_iff (linked : Linked memory) (line : Line memory vChain tip) (pindex : Nat) :
    vChain.contains memory pindex = true ↔
      ∃ last, tip = some last ∧ Ancestor memory.pprev pindex last := by
  unfold CChain.contains
  rw [decide_eq_true_iff]
  constructor
  · intro standing
    rw [entryAt_eq] at standing
    cases tip with
    | none =>
      rw [show vChain = [] from line] at standing
      cases standing
    | some last =>
      have inside : memory.nHeight pindex ≤ memory.nHeight last := by
        by_contra outside
        rw [List.getElem?_eq_none (by rw [line.1]; omega)] at standing
        cases standing
      rw [line.2 _ inside] at standing
      exact ⟨last, rfl, _, standing⟩
  · rintro ⟨last, rfl, ancestor⟩
    rw [line_at line rfl (ancestor.height_le linked.graded), ancestor.found linked.graded]

theorem findForkFrom_none (steps : Nat) : CChain.findForkFrom memory vChain steps none = none := by
  cases steps <;> rfl

theorem findForkFrom_spec (linked : Linked memory) (steps : Nat) {pindex : Nat}
    (enough : memory.nHeight pindex < steps) :
    match CChain.findForkFrom memory vChain steps (some pindex) with
    | none => ∀ above, Ancestor memory.pprev above pindex → ¬vChain.contains memory above = true
    | some fork => Ancestor memory.pprev fork pindex ∧ vChain.contains memory fork = true ∧
        ∀ above, Ancestor memory.pprev above pindex → vChain.contains memory above = true →
          memory.nHeight above ≤ memory.nHeight fork := by
  induction steps generalizing pindex with
  | zero => omega
  | succ left ih =>
    rw [CChain.findForkFrom]
    by_cases here : vChain.contains memory pindex = true
    · rw [if_pos here]
      exact ⟨.refl pindex, here, fun above ancestor _ => ancestor.height_le linked.graded⟩
    · rw [if_neg here]
      have further : ∀ above, Ancestor memory.pprev above pindex →
          vChain.contains memory above = true → ∃ next, memory.pprev pindex = some next ∧
            Ancestor memory.pprev above next := by
        intro above ancestor contained
        rcases ancestor.eq_or_parent with rfl | beyond
        · exact absurd contained here
        · exact beyond
      cases parent : memory.pprev pindex with
      | none =>
        rw [findForkFrom_none]
        intro above ancestor contained
        obtain ⟨next, linkedTo, -⟩ := further above ancestor contained
        rw [parent] at linkedTo
        cases linkedTo
      | some next =>
        have higher := linked.graded.child pindex next parent
        have spec := ih (show memory.nHeight next < left by omega)
        have below : Ancestor memory.pprev next pindex := .of_parent parent
        have onto : ∀ above, Ancestor memory.pprev above pindex →
            vChain.contains memory above = true → Ancestor memory.pprev above next := by
          intro above ancestor contained
          obtain ⟨other, linkedTo, ancestorOf⟩ := further above ancestor contained
          rw [parent] at linkedTo
          obtain rfl := Option.some.inj linkedTo
          exact ancestorOf
        cases found : CChain.findForkFrom memory vChain left (some next) with
        | none =>
          rw [found] at spec
          intro above ancestor contained
          exact spec above (onto above ancestor contained) contained
        | some fork =>
          rw [found] at spec
          obtain ⟨ancestorFork, contained, most⟩ := spec
          exact ⟨below.trans ancestorFork, contained, fun above ancestor there =>
            most above (onto above ancestor there) there⟩

theorem common_some {last pindex above : Nat} : Common memory (some last) pindex above ↔
    Ancestor memory.pprev above pindex ∧ Ancestor memory.pprev above last := by
  unfold Common
  simp

theorem findFork_start (linked : Linked memory) {last : Nat}
    (line : Line memory vChain (some last)) (pindex : Nat) : ∃ start,
      (if vChain.height < memory.nHeight pindex then getAncestor memory pindex vChain.height
        else some pindex) = some start ∧ Ancestor memory.pprev start pindex ∧
      ∀ above, Common memory (some last) pindex above → Ancestor memory.pprev above start := by
  have height : vChain.height = memory.nHeight last := by
    unfold CChain.height
    rw [line.1]
    omega
  rw [height]
  split
  · rename_i lower
    obtain ⟨start, climbed⟩ := up_exists linked.graded pindex
      (Nat.sub_le (memory.nHeight pindex) (memory.nHeight last))
    have counted := up_height linked.graded climbed
    refine ⟨start, (getAncestor_eq linked (by omega)).trans climbed, ⟨_, climbed⟩, ?_⟩
    intro above common
    obtain ⟨ancestor, ancestorLast⟩ := common_some.mp common
    have below := ancestorLast.height_le linked.graded
    exact ancestor.of_height_le linked.graded ⟨_, climbed⟩ (by omega)
  · exact ⟨pindex, rfl, .refl pindex, fun above common => common.1⟩

theorem findFork_highest (linked : Linked memory) (line : Line memory vChain tip) (pindex : Nat) :
    HighestCommon memory tip pindex (vChain.findFork memory pindex) := by
  cases tip with
  | none =>
    have nothing : vChain.findFork memory pindex = none := by
      rw [show vChain = [] from line]
      exact findForkFrom_none _
    rw [nothing]
    rintro above ⟨-, last, none', -⟩
    cases none'
  | some last =>
    obtain ⟨start, started, below, all⟩ := findFork_start linked line pindex
    have lower := below.height_le linked.graded
    have spec := @findForkFrom_spec memory vChain linked (memory.nHeight pindex + 1) start
      (Nat.lt_succ_of_le lower)
    have contained : ∀ above, vChain.contains memory above = true ↔
        Ancestor memory.pprev above last := by
      intro above
      rw [contains_iff linked line]
      simp
    unfold CChain.findFork
    rw [started]
    cases found : CChain.findForkFrom memory vChain (memory.nHeight pindex + 1) (some start) with
    | none =>
      rw [found] at spec
      intro above common
      have ancestorLast := (common_some.mp common).2
      exact spec above (all above common) ((contained above).mpr ancestorLast)
    | some fork =>
      rw [found] at spec
      obtain ⟨ancestorStart, inChain, most⟩ := spec
      refine ⟨common_some.mpr ⟨below.trans ancestorStart, (contained fork).mp inChain⟩, ?_⟩
      intro above common
      have ancestorLast := (common_some.mp common).2
      exact most above (all above common) ((contained above).mpr ancestorLast)

end Forks

section Locators
variable {memory : Memory} {vChain : CChain} {tip : Option Nat}

def Doubled (nStep : Int) : Prop := (∃ power ≤ 30, nStep = 2 ^ power) ∨ nStep = -2 ^ 31

theorem int32_of_fits {number : Int} (low : -2 ^ 31 ≤ number) (high : number < 2 ^ 31) :
    int32 number = number := by
  exact Int.bmod_eq_of_le (by omega) (by omega)

theorem power_bounds {power : Nat} (small : power ≤ 30) :
    (1 : Int) ≤ 2 ^ power ∧ (2 : Int) ^ power ≤ 2 ^ 30 := by
  have least : 1 ≤ 2 ^ power := Nat.one_le_two_pow
  have most : 2 ^ power ≤ 2 ^ 30 := Nat.pow_le_pow_right (by decide) small
  exact ⟨by exact_mod_cast least, by exact_mod_cast most⟩

variable {nStep : Int}

theorem locatorHeight_down {nHeight : Nat} (positive : 0 < nHeight) (bounded : nHeight < 2 ^ 31)
    (doubled : Doubled nStep) :
    0 ≤ locatorHeight nHeight nStep ∧ locatorHeight nHeight nStep < nHeight ∧
      (nStep = -2 ^ 31 → locatorHeight nHeight nStep = 0) := by
  unfold locatorHeight
  rcases doubled with ⟨power, small, rfl⟩ | rfl
  · have bounds := power_bounds small
    rw [int32_of_fits (by omega) (by omega)]
    omega
  · have wrapped : int32 ((nHeight : Int) - -2 ^ 31) = nHeight - 2 ^ 31 := by
      rw [show (nHeight : Int) - -2 ^ 31 = nHeight - 2 ^ 31 + (2 ^ 32 : Nat) by omega]
      unfold int32
      rw [Int.add_bmod_right]
      exact int32_of_fits (by omega) (by omega)
    omega

theorem doubled_next (doubled : Doubled nStep) :
    nStep = -2 ^ 31 ∨ Doubled (int32 (nStep * 2)) := by
  rcases doubled with ⟨power, small, rfl⟩ | rfl
  · right
    rcases Nat.lt_or_eq_of_le small with less | rfl
    · have bounds := power_bounds (show power + 1 ≤ 30 by omega)
      rw [← pow_succ, int32_of_fits (by omega) (by omega)]
      exact Or.inl ⟨power + 1, by omega, rfl⟩
    · exact Or.inr (by decide)
  · exact Or.inl rfl

theorem next_entry (linked : Linked memory) (line : Line memory vChain tip) {pindex height : Nat}
    (within : height ≤ memory.nHeight pindex) :
    (if vChain.contains memory pindex then vChain.entryAt height
      else getAncestor memory pindex height) =
        up memory.pprev (memory.nHeight pindex - height) pindex := by
  split
  · rename_i contained
    obtain ⟨last, set, ancestor⟩ := (contains_iff linked line pindex).mp contained
    have below := ancestor.height_le linked.graded
    rw [line_at line set (by omega)]
    exact up_below (ancestor.found linked.graded) within below
  · exact getAncestor_eq linked within

theorem descends_cons (linked : Linked memory) {pindex next : Nat} {entries : List Nat}
    (ancestor : Ancestor memory.pprev next pindex)
    (lower : memory.nHeight next < memory.nHeight pindex) (rest : Descends memory next entries) :
    Descends memory pindex (pindex :: entries) where
  first := rfl
  last := by
    obtain ⟨genesis, last, lowest⟩ := rest.last
    exact ⟨genesis, by rw [List.getLast?_cons, last]; rfl, lowest⟩
  falling := by
    refine List.pairwise_cons.mpr ⟨?_, rest.falling⟩
    intro entry member
    exact lt_of_le_of_lt ((rest.ancestors entry member).height_le linked.graded) lower
  ancestors := by
    intro entry member
    rcases List.mem_cons.mp member with rfl | later
    · exact .refl entry
    · exact ancestor.trans (rest.ancestors entry later)

section
variable (linked : Linked memory) (line : Line memory vChain tip)
  (bounded : ∀ pindex, memory.nHeight pindex < 2 ^ 31)
include linked line bounded

theorem locate_descends (steps : Nat) {pindex : Nat} (vHave : List Uint256)
    (enough : memory.nHeight pindex < steps) (doubled : memory.nHeight pindex = 0 ∨ Doubled nStep) :
    ∃ entries, CChain.locate memory vChain steps (some pindex) nStep vHave =
      vHave ++ entries.map (hashOf memory) ∧ Descends memory pindex entries := by
  induction steps generalizing pindex nStep vHave with
  | zero => omega
  | succ left ih =>
    rw [CChain.locate]
    dsimp only
    split
    · rename_i lowest
      refine ⟨[pindex], rfl, rfl, ⟨pindex, rfl, lowest⟩, List.pairwise_singleton _ _, ?_⟩
      intro entry member
      rw [List.mem_singleton.mp member]
      exact .refl pindex
    · rename_i higher
      have steps := doubled.resolve_left higher
      obtain ⟨least, lower, wrapped⟩ := locatorHeight_down (by omega) (bounded pindex) steps
      obtain ⟨height, level⟩ := Int.eq_ofNat_of_zero_le least
      rw [level] at lower wrapped ⊢
      rw [next_entry linked line (by omega)]
      obtain ⟨next, climbed⟩ := up_exists linked.graded pindex
        (Nat.sub_le (memory.nHeight pindex) height)
      have counted := up_height linked.graded climbed
      rw [climbed]
      have doubledNext : memory.nHeight next = 0 ∨ Doubled
          (if 10 < (vHave ++ [hashOf memory pindex]).length then int32 (nStep * 2) else nStep) := by
        split
        · rcases doubled_next steps with last | more
          · have genesis := wrapped last
            omega
          · exact Or.inr more
        · exact Or.inr steps
      obtain ⟨entries, located, rest⟩ := ih (vHave ++ [hashOf memory pindex])
        (show memory.nHeight next < left by omega) doubledNext
      refine ⟨pindex :: entries, ?_, descends_cons linked ⟨_, climbed⟩ (by omega) rest⟩
      rw [located, List.append_assoc]
      rfl

theorem getLocator_descends (pindex : Nat) :
    ∃ entries, vChain.getLocator memory (some pindex) = entries.map (hashOf memory) ∧
      Descends memory pindex entries :=
  locate_descends linked line bounded _ [] (Nat.lt_succ_self _) (Or.inr (Or.inl ⟨0, by omega, rfl⟩))

end

theorem find_hash {hash : Uint256} {pindex : Nat} (found : CChain.find memory hash = some pindex) :
    hashOf memory pindex = hash := by
  obtain ⟨inside, same, -⟩ := List.findIdx?_eq_some_iff_getElem.mp found
  unfold hashOf
  rw [List.getElem?_eq_getElem inside]
  exact of_decide_eq_true same

theorem findForkInGlobalIndex_found {genesis : Nat} (started : vChain.genesis = some genesis)
    (vHave : List Uint256) :
    ∃ fork, vChain.findForkInGlobalIndex memory vHave = some fork ∧
      (fork = genesis ∨ vChain.contains memory fork = true ∧ hashOf memory fork ∈ vHave) := by
  induction vHave with
  | nil => exact ⟨genesis, started, Or.inl rfl⟩
  | cons hash vHave ih =>
    obtain ⟨fork, found, listed⟩ := ih
    have later : fork = genesis ∨
        vChain.contains memory fork = true ∧ hashOf memory fork ∈ hash :: vHave :=
      listed.imp_right fun inside => ⟨inside.1, List.mem_cons_of_mem _ inside.2⟩
    rw [CChain.findForkInGlobalIndex]
    cases known : CChain.find memory hash with
    | none => exact ⟨fork, found, later⟩
    | some pindex =>
      dsimp only
      split
      · rename_i contained
        refine ⟨pindex, rfl, Or.inr ⟨contained, ?_⟩⟩
        rw [find_hash known]
        exact List.mem_cons_self
      · exact ⟨fork, found, later⟩

end Locators

def SharesGenesis (memory memory' : Memory) (vChain' : CChain) (pindex : Nat) : Prop :=
  ∃ genesis root, vChain'.genesis = some genesis ∧ Ancestor memory.pprev root pindex ∧
    memory.nHeight root = 0 ∧ hashOf memory root = hashOf memory' genesis

def FindsCommon (memory memory' : Memory) (tip' : Option Nat) (pindex : Nat) :
    Option Nat → Prop
  | none => False
  | some fork => (∃ last, tip' = some last ∧ Ancestor memory'.pprev fork last) ∧
      ∃ above, Ancestor memory.pprev above pindex ∧ hashOf memory above = hashOf memory' fork

/-- What the chain of a node promises, about its own entries and to a peer of any chain. -/
structure ChainLaws (memory : Memory) (vChain : CChain) (tip : Option Nat) : Prop where
  vector : Line memory vChain tip
  fork : ∀ pindex < memory.length,
    HighestCommon memory tip pindex (vChain.findFork memory pindex)
  locator : ∀ pindex < memory.length, ∃ entries,
    vChain.getLocator memory (some pindex) = entries.map (hashOf memory) ∧
      Descends memory pindex entries
  common : ∀ memory' vChain' tip', Run memory' vChain' tip' → ∀ pindex < memory.length,
    SharesGenesis memory memory' vChain' pindex → FindsCommon memory memory' tip' pindex
      (vChain'.findForkInGlobalIndex memory' (vChain.getLocator memory (some pindex)))

section Laws
variable {memory : Memory} {vChain : CChain} {tip : Option Nat}

theorem genesis_contained (line : Line memory vChain tip) {genesis : Nat}
    (started : vChain.genesis = some genesis) :
    ∃ last, tip = some last ∧ Ancestor memory.pprev genesis last := by
  cases tip with
  | none =>
    rw [show vChain = [] from line] at started
    cases started
  | some last =>
    obtain ⟨length, ancestors⟩ := line
    cases vChain with
    | nil => cases started
    | cons first rest =>
      obtain rfl : first = some genesis := started
      have lowest := ancestors 0 (Nat.zero_le _)
      exact ⟨last, rfl, _, (Option.some.inj lowest).symm⟩

theorem finds_common {memory' : Memory} {vChain' : CChain} {tip' : Option Nat}
    (linked : Linked memory) (line : Line memory vChain tip)
    (bounded : ∀ pindex, memory.nHeight pindex < 2 ^ 31) (peer : Run memory' vChain' tip')
    {pindex : Nat} (shares : SharesGenesis memory memory' vChain' pindex) :
    FindsCommon memory memory' tip' pindex
      (vChain'.findForkInGlobalIndex memory' (vChain.getLocator memory (some pindex))) := by
  obtain ⟨genesis, root, started, ancestor, -, same⟩ := shares
  obtain ⟨entries, located, descends⟩ := getLocator_descends linked line bounded pindex
  obtain ⟨fork, found, listed⟩ := findForkInGlobalIndex_found started
    (vChain.getLocator memory (some pindex))
  rw [found]
  rcases listed with rfl | ⟨contained, hash⟩
  · exact ⟨genesis_contained peer.line started, root, ancestor, same⟩
  · rw [located] at hash
    obtain ⟨above, member, same⟩ := List.mem_map.mp hash
    exact ⟨(contains_iff peer.grown.linked peer.line fork).mp contained, above,
      descends.ancestors above member, same⟩

/-- The laws hold whatever entries were added and whatever tips were set. -/
theorem chain_laws (run : Run memory vChain tip) : ChainLaws memory vChain tip := by
  have linked := run.grown.linked
  have line := run.line
  have bounded := run.grown.bounded
  exact ⟨line, fun pindex _ => findFork_highest linked line pindex,
    fun pindex _ => getLocator_descends linked line bounded pindex,
    fun _ _ _ peer _ _ shares => finds_common linked line bounded peer shares⟩

theorem run_of_grown (grown : Grown memory) : Run memory [] none := by
  induction grown with
  | empty => exact .start
  | add hash pprev grown fresh known ih => exact ih.add hash pprev fresh known

end Laws

def movedChain : CChain :=
  CChain.setTip forkedMemory (CChain.setTip forkedMemory [] (some 3)) (some 4)

theorem moved_laws : Run forkedMemory movedChain (some 4) ∧
    ChainLaws forkedMemory movedChain (some 4) := by
  have first : Run forkedMemory (CChain.setTip forkedMemory [] (some 3)) (some 3) :=
    (run_of_grown forkedMemory_grown).setTip (some 3) (by rintro _ ⟨rfl⟩; decide)
  have second : Run forkedMemory movedChain (some 4) :=
    first.setTip (some 4) (by rintro _ ⟨rfl⟩; decide)
  exact ⟨second, chain_laws second⟩

example : movedChain = [some 0, some 1, some 2, some 4] ∧
    movedChain.findFork forkedMemory 3 = some 2 := by decide

end OxidActiveChain
