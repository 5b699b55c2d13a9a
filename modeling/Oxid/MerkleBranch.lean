import Mathlib.Data.Nat.Bitwise
import Oxid.PartialMerkle

/-!
Three ways to the root of a block's merkle tree: level by level in one vector, by recursion
on heights and positions, and from a leaf along its branch.
-/
namespace OxidMerkleBranch
open OxidPrimitives OxidMerkleTree OxidChainRun MerkleLevels PartialTrees

section Functions

variable (hashPair : Uint256 → Uint256 → Uint256)

def merkleTree (txHash : CTransaction → Uint256) (vtx : List CTransaction) : List Uint256 :=
  (hashLevels hashPair 0 vtx.length (vtx.map txHash) false).1

/-- The loop over the levels. A place outside the vector is `none`. -/
def branchLevels (vMerkleTree : List Uint256) (j nSize nIndex : Nat) : Option (List Uint256) :=
  if 1 < nSize then do
    let node ← vMerkleTree[j + min (nIndex ^^^ 1) (nSize - 1)]?
    let vMerkleBranch ← branchLevels vMerkleTree (j + nSize) ((nSize + 1) / 2) (nIndex >>> 1)
    some (node :: vMerkleBranch)
  else some []
termination_by nSize

def getMerkleBranch (txHash : CTransaction → Uint256) (vtx : List CTransaction)
    (vMerkleTree : List Uint256) (nIndex : Nat) : Option (List Uint256) :=
  let vMerkleTree := if vMerkleTree.isEmpty then merkleTree hashPair txHash vtx else vMerkleTree
  branchLevels vMerkleTree 0 vtx.length nIndex

def foldBranch (hash : Uint256) : List Uint256 → Int → Uint256
  | [], _ => hash
  | node :: rest, nIndex =>
    foldBranch (if nIndex % 2 = 1 then hashPair node hash else hashPair hash node) rest (nIndex / 2)

def checkMerkleBranch (hash : Uint256) (vMerkleBranch : List Uint256) (nIndex : Int) : Uint256 :=
  if nIndex = -1 then 0 else foldBranch hashPair hash vMerkleBranch nIndex

def calcHash (nTransactions : Nat) (vTxid : List Uint256) : Nat → Nat → Option Uint256
  | 0, pos => vTxid[pos]?
  | height + 1, pos => do
    let left ← calcHash nTransactions vTxid height (pos * 2)
    let right ← if pos * 2 + 1 < widths nTransactions height then
        calcHash nTransactions vTxid height (pos * 2 + 1)
      else some left
    some (hashPair left right)

end Functions

theorem widths_many (nTransactions height : Nat) :
    1 < widths nTransactions height ↔ 2 ^ height < nTransactions := by
  have positive : 0 < 2 ^ height := Nat.two_pow_pos height
  unfold widths
  rw [Nat.lt_iff_add_one_le, Nat.le_div_iff_mul_le positive]
  omega

def heightFrom (nTransactions nHeight : Nat) : Nat :=
  if 1 < widths nTransactions nHeight then heightFrom nTransactions (nHeight + 1) else nHeight
termination_by nTransactions - nHeight
decreasing_by
  rename_i more
  have large := (widths_many nTransactions nHeight).mp more
  have below : nHeight < 2 ^ nHeight := Nat.lt_two_pow_self
  omega

section Roots

variable {hashPair : Uint256 → Uint256 → Uint256}

theorem heightFrom_top {nTransactions nHeight : Nat} (lower : nHeight ≤ treeHeight nTransactions) :
    heightFrom nTransactions nHeight = treeHeight nTransactions := by
  induction above : treeHeight nTransactions - nHeight generalizing nHeight with
  | zero =>
    have top : ¬ 2 ^ nHeight < nTransactions :=
      fun more => absurd ((Nat.lt_clog_iff_pow_lt (by decide)).mpr more) (by
        unfold treeHeight at above
        omega)
    rw [heightFrom, if_neg (mt (widths_many _ _).mp top)]
    omega
  | succ above ih =>
    have more : 2 ^ nHeight < nTransactions := (Nat.lt_clog_iff_pow_lt (by decide)).mp (by
      unfold treeHeight at above
      omega)
    rw [heightFrom, if_pos ((widths_many _ _).mpr more)]
    exact ih (by omega) (by omega)

theorem calcHash_level {vTxid : List Uint256} {height pos : Nat} {node : Uint256}
    (found : (level hashPair vTxid height)[pos]? = some node) :
    calcHash hashPair vTxid.length vTxid height pos = some node := by
  induction height generalizing pos node with
  | zero => exact found
  | succ height ih =>
    obtain ⟨both, _, rfl, left, right⟩ := level_node found
    have width : (level hashPair vTxid height).length = widths vTxid.length height :=
      level_length vTxid height
    have leftHash := ih left
    have rightHash := ih right
    rw [width, rightOf] at rightHash
    unfold calcHash
    rw [Nat.mul_comm, leftHash]
    by_cases wide : 2 * pos + 1 < widths vTxid.length height
    · rw [if_pos wide] at rightHash
      simp [wide, rightHash]
    · rw [if_neg wide, leftHash] at rightHash
      simp [wide, Option.some.inj rightHash]

theorem hashLevels_stacked (done nodes : List Uint256) (mutated : Bool) :
    (hashLevels hashPair done.length nodes.length (done ++ nodes) mutated).1 =
      done ++ stacked hashPair nodes := by
  induction size : nodes.length using Nat.strong_induction_on generalizing done nodes mutated with
  | _ count ih =>
    rw [hashLevels, stacked, size]
    by_cases large : 1 < count
    · have length : (up hashPair nodes).length = (count + 1) / 2 := by rw [up_length, size]
      have later := ih ((count + 1) / 2) (by omega) (done ++ nodes) (up hashPair nodes)
        (mutated || decide (Twin nodes)) length
      have inner := hashLevel_up hashPair done nodes mutated
      rw [size] at inner
      rw [List.length_append, size, List.append_assoc done] at later
      rw [if_pos large, if_pos large, inner]
      simpa using later
    · rw [if_neg large, if_neg large]

theorem flipped_index {width index : Nat} (inside : index < width) :
    min (index ^^^ 1) (width - 1) = siblingOf width index := by
  unfold siblingOf
  by_cases odd : index % 2 = 1
  · rw [if_pos odd, Nat.xor_one_of_odd (Nat.odd_iff.mpr odd)]
    omega
  · rw [if_neg odd, Nat.xor_one_of_even (Nat.even_iff.mpr (by omega))]

theorem branch_climbs (done nodes : List Uint256) {index : Nat} {hash root : Uint256}
    (found : nodes[index]? = some hash)
    (top : level hashPair nodes (treeHeight nodes.length) = [root]) :
    ∃ branch, branchLevels (done ++ stacked hashPair nodes) done.length nodes.length index =
        some branch ∧ foldBranch hashPair hash branch index = root := by
  induction size : nodes.length using Nat.strong_induction_on
    generalizing done nodes index hash with
  | _ count ih =>
    obtain ⟨inside, _⟩ := List.getElem?_eq_some_iff.mp found
    rw [branchLevels, stacked, size]
    by_cases large : 1 < count
    · obtain ⟨other, sibling, above⟩ := @up_node _ hashPair _ _ _ found
      have length : (up hashPair nodes).length = (count + 1) / 2 := by rw [up_length, size]
      rw [size, treeHeight_large large, ← level_up, ← length] at top
      obtain ⟨branch, later, folded⟩ := ih ((count + 1) / 2) (by omega) (done ++ nodes)
        (up hashPair nodes) above top length
      have place : (done ++ (nodes ++ stacked hashPair (up hashPair nodes)))[
          done.length + min (index ^^^ 1) (count - 1)]? = some other := by
        rw [← size, flipped_index inside, List.getElem?_append_right (by omega),
          Nat.add_sub_cancel_left]
        exact List.getElem?_append_left (List.getElem?_eq_some_iff.mp sibling).1 ▸ sibling
      have half : index >>> 1 = index / 2 := Nat.shiftRight_one index
      rw [List.length_append, size, List.append_assoc] at later
      rw [if_pos large, if_pos large, place, half, Option.bind_eq_bind, Option.bind_some, later]
      refine ⟨other :: branch, rfl, ?_⟩
      have parity : ((index : Int) % 2 = 1) ↔ index % 2 = 1 := by omega
      have halved : (index : Int) / 2 = ((index / 2 : Nat) : Int) := by omega
      rw [foldBranch, halved]
      simpa only [parity] using folded
    · have alone : index = 0 := by omega
      obtain ⟨last, only⟩ := List.length_eq_one_iff.mp (show nodes.length = 1 by omega)
      rw [if_neg large]
      refine ⟨[], rfl, ?_⟩
      rw [only, List.length_singleton, treeHeight_small (Nat.le_refl 1)] at top
      rw [only, alone] at found
      have same : last = root := by simpa [level] using top
      have here : last = hash := by simpa using found
      rw [foldBranch, ← here, same]

/-- The levels, the recursion and the branch of every transaction give one root, whether the
    block has its tree or not. -/
theorem roots_agree (hashPair : Uint256 → Uint256 → Uint256) (txHash : CTransaction → Uint256)
    (vtx : List CTransaction) (filled : vtx ≠ []) :
    calcHash hashPair vtx.length (vtx.map txHash) (heightFrom vtx.length 0) 0 =
        some (buildMerkleTree hashPair txHash vtx).1 ∧
      ∀ (i : Nat) (tx : CTransaction), vtx[i]? = some tx →
        ∀ vMerkleTree, vMerkleTree = [] ∨ vMerkleTree = merkleTree hashPair txHash vtx →
          ∃ vMerkleBranch, getMerkleBranch hashPair txHash vtx vMerkleTree i = some vMerkleBranch ∧
            checkMerkleBranch hashPair (txHash tx) vMerkleBranch i =
              (buildMerkleTree hashPair txHash vtx).1 := by
  have top := (buildMerkleTree_levels hashPair txHash filled).1
  have length : (vtx.map txHash).length = vtx.length := List.length_map txHash
  constructor
  · have found := @calcHash_level hashPair (vtx.map txHash) _ 0 _ (by rw [top]; rfl)
    rw [length] at found
    rw [heightFrom_top (Nat.zero_le _)]
    exact found
  · intro i tx here vMerkleTree either
    have leaf : (vtx.map txHash)[i]? = some (txHash tx) := by simp [here]
    obtain ⟨branch, climbs, folded⟩ := branch_climbs [] (vtx.map txHash) leaf top
    have built : merkleTree hashPair txHash vtx = stacked hashPair (vtx.map txHash) := by
      have whole := @hashLevels_stacked hashPair [] (vtx.map txHash) false
      rw [length] at whole
      exact whole
    have kept : (if vMerkleTree.isEmpty then merkleTree hashPair txHash vtx else vMerkleTree) =
        stacked hashPair (vtx.map txHash) := by
      rcases either with rfl | rfl
      · exact built
      · rw [built]
        split <;> rfl
    refine ⟨branch, ?_, ?_⟩
    · unfold getMerkleBranch
      rw [kept, ← length]
      exact climbs
    · rw [checkMerkleBranch, if_neg (by omega)]
      exact folded

theorem three_roots_agree :
    calcHash samplePair 3 [1, 2, 3] (heightFrom 3 0) 0 =
      some (buildMerkleTree samplePair labelMachinery.txHash
        [sampleTx 0, sampleTx 1, sampleTx 2]).1 :=
  (roots_agree samplePair labelMachinery.txHash [sampleTx 0, sampleTx 1, sampleTx 2] (by decide)).1

end Roots

section Soundness

variable {hashPair : Uint256 → Uint256 → Uint256} {leaves vMerkleBranch : List Uint256}

/-- The pairs hashed on the way up a branch. -/
def branchPairs (hashPair : Uint256 → Uint256 → Uint256) (hash : Uint256) :
    List Uint256 → Int → List (Uint256 × Uint256)
  | [], _ => []
  | node :: rest, nIndex =>
    let both := if nIndex % 2 = 1 then (node, hash) else (hash, node)
    both :: branchPairs hashPair (hashPair both.1 both.2) rest (nIndex / 2)

def hashedWith (hashPair : Uint256 → Uint256 → Uint256) (leaves : List Uint256) (hash : Uint256)
    (vMerkleBranch : List Uint256) (nIndex : Int) : Set (Uint256 × Uint256) :=
  hashedPairs hashPair leaves ∪ {both | both ∈ branchPairs hashPair hash vMerkleBranch nIndex}

theorem foldBranch_node {hashed : Set (Uint256 × Uint256)} {hash : Uint256} {nIndex : Int}
    (noCollision : Set.InjOn (fun both => hashPair both.1 both.2) hashed)
    (tree : hashedPairs hashPair leaves ⊆ hashed)
    (branch : ∀ both ∈ branchPairs hashPair hash vMerkleBranch nIndex, both ∈ hashed)
    (pairs : ∀ leaf ∈ leaves, ∀ both ∈ hashed, hashPair both.1 both.2 ≠ leaf)
    (arrives : ∃ height ≤ treeHeight leaves.length,
      foldBranch hashPair hash vMerkleBranch nIndex ∈ level hashPair leaves height) :
    ∃ height ≤ treeHeight leaves.length, hash ∈ level hashPair leaves height := by
  induction vMerkleBranch generalizing hash nIndex with
  | nil => exact arrives
  | cons node rest ih =>
    obtain ⟨both, children, bothHashed, upward⟩ : ∃ both : Uint256 × Uint256,
        (hash = both.1 ∨ hash = both.2) ∧ both ∈ hashed ∧
          ∃ height ≤ treeHeight leaves.length,
            hashPair both.1 both.2 ∈ level hashPair leaves height := by
      have first := branch _ List.mem_cons_self
      have later := fun both member => branch both (List.mem_cons_of_mem _ member)
      unfold foldBranch at arrives
      by_cases odd : nIndex % 2 = 1
      · simp only [odd, if_true] at first later arrives
        exact ⟨(node, hash), Or.inr rfl, first, ih later arrives⟩
      · simp only [odd, if_false] at first later arrives
        exact ⟨(hash, node), Or.inl rfl, first, ih later arrives⟩
    obtain ⟨height, low, member⟩ := upward
    cases height with
    | zero => exact absurd rfl (pairs _ member both bothHashed)
    | succ height =>
      obtain ⟨index, found⟩ := List.mem_iff_getElem?.mp member
      obtain ⟨own, listed, image, left, right⟩ := level_node found
      have same : own = both := noCollision (tree ⟨height, low, listed⟩) bothHashed image
      rw [same] at left right
      refine ⟨height, by omega, ?_⟩
      rcases children with first | second
      · exact first ▸ List.mem_of_getElem? left
      · exact second ▸ List.mem_of_getElem? right

/-- A branch of whatever length and index leads to a block's root from the hashes of its
    transactions only, if no two of the pairs hashed collide and none hashes to one of the
    leaves or to the hash checked. -/
theorem branch_sound (hashPair : Uint256 → Uint256 → Uint256) (txHash : CTransaction → Uint256)
    (vtx : List CTransaction) (filled : vtx ≠ []) (hash : Uint256) (vMerkleBranch : List Uint256)
    (nIndex : Int) (placed : nIndex ≠ -1)
    (noCollision : Set.InjOn (fun both => hashPair both.1 both.2)
      (hashedWith hashPair (vtx.map txHash) hash vMerkleBranch nIndex))
    (pairs : ∀ leaf ∈ hash :: vtx.map txHash,
      ∀ both ∈ hashedWith hashPair (vtx.map txHash) hash vMerkleBranch nIndex,
        hashPair both.1 both.2 ≠ leaf)
    (checked : checkMerkleBranch hashPair hash vMerkleBranch nIndex =
      (buildMerkleTree hashPair txHash vtx).1) : ∃ tx ∈ vtx, txHash tx = hash := by
  have top := (buildMerkleTree_levels hashPair txHash filled).1
  rw [checkMerkleBranch, if_neg placed] at checked
  obtain ⟨height, low, member⟩ := foldBranch_node noCollision (fun _ own => Or.inl own)
    (fun _ own => Or.inr own)
    (fun leaf own => pairs leaf (List.mem_cons_of_mem _ own))
    ⟨_, Nat.le_refl _, by rw [top, checked]; exact List.mem_singleton_self _⟩
  cases height with
  | zero => exact List.mem_map.mp member
  | succ height =>
    obtain ⟨index, found⟩ := List.mem_iff_getElem?.mp member
    obtain ⟨own, listed, image, -⟩ := level_node found
    exact absurd image (pairs hash List.mem_cons_self own (Or.inl ⟨height, low, listed⟩))

theorem second_of_three : ∃ tx ∈ oddTxs, labelMachinery.txHash tx = 2 := by
  have within : hashedWith samplePair (oddTxs.map labelMachinery.txHash) 2 [1, samplePair 3 3] 1 ⊆
      hashedPairs samplePair (oddTxs.map labelMachinery.txHash) ∪
        hashedPairs samplePair (evenTxs.map labelMachinery.txHash) := by
    rintro both (own | climbed)
    · exact Or.inl own
    · rcases (by simpa [branchPairs] using climbed) with rfl | rfl
      · exact Or.inl ⟨0, by decide, by decide⟩
      · exact Or.inl ⟨1, by decide, by decide⟩
  have top := (buildMerkleTree_levels samplePair labelMachinery.txHash
    (by decide : oddTxs ≠ [])).1
  apply branch_sound samplePair labelMachinery.txHash oddTxs (by decide) 2 [1, samplePair 3 3] 1
    (by decide)
  · exact sample_unmixed.noCollision.mono within
  · intro leaf member both hashed
    refine sample_unmixed.leaves leaf ?_ both (within hashed)
    rcases List.mem_cons.mp member with rfl | listed
    · decide
    · exact List.mem_append_left _ listed
  · exact List.singleton_inj.mp (Eq.trans (by decide) top)

end Soundness

end OxidMerkleBranch
