import Oxid.Library.MerkleLevels
import Oxid.Issuance

/-!
The merkle root of a block, built level by level in one vector. The loop over a level is
shown to append the level above it; what the root binds is then a fact about levels.
-/
namespace OxidMerkleTree
open OxidPrimitives OxidNode OxidCheckBlock OxidChainRun OxidZerocoin
open MerkleLevels Attempt

variable (hashPair : Uint256 → Uint256 → Uint256)

def hashLevel (j nSize i : Nat) (vMerkleTree : List Uint256) (mutated : Bool) :
    List Uint256 × Bool :=
  if i < nSize then
    let i2 := min (i + 1) (nSize - 1)
    let left := vMerkleTree.getD (j + i) 0
    let right := vMerkleTree.getD (j + i2) 0
    hashLevel j nSize (i + 2) (vMerkleTree ++ [hashPair left right])
      (mutated || (i2 == i + 1 && i2 + 1 == nSize && left == right))
  else (vMerkleTree, mutated)
termination_by nSize - i

def hashLevels (j nSize : Nat) (vMerkleTree : List Uint256) (mutated : Bool) :
    List Uint256 × Bool :=
  if 1 < nSize then
    let (vMerkleTree, mutated) := hashLevel hashPair j nSize 0 vMerkleTree mutated
    hashLevels (j + nSize) ((nSize + 1) / 2) vMerkleTree mutated
  else (vMerkleTree, mutated)
termination_by nSize

def buildMerkleTree (txHash : CTransaction → Uint256) (vtx : List CTransaction) :
    Uint256 × Bool :=
  let (vMerkleTree, mutated) := hashLevels hashPair 0 vtx.length (vtx.map txHash) false
  (vMerkleTree.getLast?.getD 0, mutated)

section Levels

theorem getD_past (front back : List Uint256) (index : Nat) :
    (front ++ back).getD (front.length + index) 0 = back.getD index 0 := by
  rw [List.getD_eq_getElem?_getD, List.getElem?_append_right (Nat.le_add_right _ _),
    Nat.add_sub_cancel_left, ← List.getD_eq_getElem?_getD]

theorem hashLevel_rest (done seen rest pushed : List Uint256) (mutated : Bool) :
    hashLevel hashPair done.length (seen.length + rest.length) seen.length
        (done ++ seen ++ rest ++ pushed) mutated =
      (done ++ seen ++ rest ++ pushed ++ up hashPair rest, mutated || decide (Twin rest)) := by
  induction rest using paired.induct generalizing seen pushed mutated with
  | case1 =>
    rw [hashLevel, if_neg (by simp)]
    simp [up, paired]
  | case2 last =>
    have at' : (done ++ seen ++ [last] ++ pushed).getD (done.length + seen.length) 0 = last := by
      have past := getD_past (done ++ seen) ([last] ++ pushed) 0
      rw [List.length_append, Nat.add_zero, ← List.append_assoc] at past
      exact past
    have index : min (seen.length + 1) (seen.length + [last].length - 1) = seen.length := by
      rw [List.length_singleton]
      omega
    rw [hashLevel, if_pos (by simp)]
    rw [index, at', hashLevel, if_neg (by simp)]
    simp [up, paired]
  | case3 first second more ih =>
    have left : (done ++ seen ++ (first :: second :: more) ++ pushed).getD
        (done.length + seen.length) 0 = first := by
      have past := getD_past (done ++ seen) (first :: second :: more ++ pushed) 0
      rw [List.length_append, Nat.add_zero, ← List.append_assoc] at past
      exact past
    have right : (done ++ seen ++ (first :: second :: more) ++ pushed).getD
        (done.length + (seen.length + 1)) 0 = second := by
      have past := getD_past (done ++ seen) (first :: second :: more ++ pushed) 1
      rw [List.length_append, ← List.append_assoc, Nat.add_assoc] at past
      exact past
    have index : min (seen.length + 1) (seen.length + (first :: second :: more).length - 1) =
        seen.length + 1 := by
      rw [List.length_cons, List.length_cons]
      omega
    have ends : (seen.length + 1 + 1 == seen.length + (first :: second :: more).length) =
        decide (more = []) := by
      rw [Bool.eq_iff_iff, beq_iff_eq, decide_eq_true_eq, ← List.length_eq_zero_iff,
        List.length_cons, List.length_cons]
      omega
    have later := ih (seen ++ [first, second]) (pushed ++ [hashPair first second])
      (mutated || (decide (more = []) && first == second))
    rw [hashLevel, if_pos (by simp)]
    dsimp only
    rw [index, left, right, ends, beq_self_eq_true, Bool.true_and]
    have size : (seen ++ [first, second]).length + more.length =
        seen.length + (first :: second :: more).length := by
      simp only [List.length_append, List.length_cons, List.length_nil]
      omega
    have place : (seen ++ [first, second]).length = seen.length + 2 := by simp
    have vector : done ++ (seen ++ [first, second]) ++ more ++ (pushed ++ [hashPair first second]) =
        done ++ seen ++ (first :: second :: more) ++ pushed ++ [hashPair first second] := by simp
    rw [size, place, vector] at later
    rw [later]
    have twin : (decide (Twin (first :: second :: more)) : Bool) =
        (decide (more = []) && first == second || decide (Twin more)) := by
      rw [Bool.eq_iff_iff]
      simp [twin_step]
    rw [twin, Bool.or_assoc]
    simp [up, paired]

theorem hashLevel_up (done nodes : List Uint256) (mutated : Bool) :
    hashLevel hashPair done.length nodes.length 0 (done ++ nodes) mutated =
      (done ++ nodes ++ up hashPair nodes, mutated || decide (Twin nodes)) := by
  have rest := hashLevel_rest hashPair done [] nodes [] mutated
  simpa using rest

theorem hashLevels_top (done nodes : List Uint256) (mutated : Bool) (filled : nodes ≠ []) :
    (hashLevels hashPair done.length nodes.length (done ++ nodes) mutated).1.getLast? =
        (level hashPair nodes (treeHeight nodes.length)).getLast? ∧
      ((hashLevels hashPair done.length nodes.length (done ++ nodes) mutated).2 = true ↔
        mutated = true ∨ Mutated hashPair nodes) := by
  induction size : nodes.length using Nat.strong_induction_on generalizing done nodes mutated with
  | _ count ih =>
    have positive := List.length_pos_iff.mpr filled
    unfold Mutated
    rw [hashLevels, size]
    by_cases large : 1 < count
    · have length : (up hashPair nodes).length = (count + 1) / 2 := by rw [up_length, size]
      have some' : up hashPair nodes ≠ [] := by
        rw [← List.length_pos_iff, length]
        omega
      obtain ⟨top, flag⟩ := ih ((count + 1) / 2) (by omega) (done ++ nodes) (up hashPair nodes)
        (mutated || decide (Twin nodes)) some' length
      have grown : done.length + count = (done ++ nodes).length := by
        rw [List.length_append, size]
      have inner := hashLevel_up hashPair done nodes mutated
      rw [size] at inner
      rw [if_pos large, inner]
      rw [grown, treeHeight_large large, ← level_up]
      constructor
      · exact top
      · rw [flag, Bool.or_eq_true, decide_eq_true_eq, or_assoc]
        have split : (∃ below < treeHeight ((count + 1) / 2) + 1, Twin (level hashPair nodes below)) ↔
            Twin nodes ∨ Mutated hashPair (up hashPair nodes) := by
          unfold Mutated
          rw [length]
          constructor
          · rintro ⟨below, under, twin⟩
            cases below with
            | zero => exact Or.inl twin
            | succ below =>
              rw [← level_up] at twin
              exact Or.inr ⟨below, by omega, twin⟩
          · rintro (twin | ⟨below, under, twin⟩)
            · exact ⟨0, by omega, twin⟩
            · rw [level_up] at twin
              exact ⟨below + 1, by omega, twin⟩
        rw [split]
    · obtain ⟨node, alone⟩ := List.length_eq_one_iff.mp (show nodes.length = 1 by omega)
      rw [if_neg large, treeHeight_small (by omega), alone]
      simp [level]

theorem buildMerkleTree_levels (txHash : CTransaction → Uint256) {vtx : List CTransaction}
    (filled : vtx ≠ []) :
    level hashPair (vtx.map txHash) (treeHeight (vtx.map txHash).length) =
        [(buildMerkleTree hashPair txHash vtx).1] ∧
      ((buildMerkleTree hashPair txHash vtx).2 = true ↔ Mutated hashPair (vtx.map txHash)) := by
  have some' : vtx.map txHash ≠ [] := by simpa using filled
  obtain ⟨root, top⟩ := level_top hashPair some'
  obtain ⟨last, flag⟩ := hashLevels_top hashPair [] (vtx.map txHash) false some'
  rw [top, List.length_map, List.nil_append, List.length_nil] at last
  rw [List.length_map, List.nil_append, List.length_nil] at flag
  unfold buildMerkleTree
  constructor
  · rw [top]
    dsimp only
    rw [last]
    rfl
  · rw [flag]
    simp

end Levels

def withTree (machinery : Machinery) : Machinery :=
  { machinery with buildMerkleTree := buildMerkleTree hashPair machinery.txHash }

theorem checkBlock_merkle {machinery : Machinery} {node : Node} {zerocoinDB : CZerocoinDB}
    {block : CBlock} (accepted : checkBlock machinery node zerocoinDB block true = .ok ()) :
    (machinery.buildMerkleTree block.vtx).1 = block.hashMerkleRoot ∧
      (machinery.buildMerkleTree block.vtx).2 = false ∧ block.vtx ≠ [] := by
  unfold checkBlock checkMerkleRoot at accepted
  simp only [bind_ok, require_ok, exists_const, Bool.and_eq_true, if_true, beq_iff_eq,
    Bool.not_eq_true'] at accepted
  obtain ⟨_, _, _, ⟨root, plain⟩, ⟨⟨some', _⟩, _⟩, _⟩ := accepted
  constructor
  · exact root.symm
  · constructor
    · exact plain
    · intro empty
      rw [empty] at some'
      cases some'

/-- Different lists of transactions, as transactions are compared by their hashes, have one
    root only when one of them is reported mutated. So `CheckBlock` takes one list for a
    root at most. -/
theorem merkle_root_binds (machinery : Machinery) (left right : List CTransaction)
    (leftFilled : left ≠ []) (rightFilled : right ≠ [])
    (unmixed : Unmixed hashPair (left.map machinery.txHash) (right.map machinery.txHash)) :
    (left.map machinery.txHash ≠ right.map machinery.txHash →
      (buildMerkleTree hashPair machinery.txHash left).1 =
          (buildMerkleTree hashPair machinery.txHash right).1 →
        (buildMerkleTree hashPair machinery.txHash left).2 = true ∨
          (buildMerkleTree hashPair machinery.txHash right).2 = true) ∧
    ∀ (leftNode rightNode : Node) (leftDB rightDB : CZerocoinDB) (leftBlock rightBlock : CBlock),
      leftBlock.vtx = left → rightBlock.vtx = right →
        leftBlock.hashMerkleRoot = rightBlock.hashMerkleRoot →
          checkBlock (withTree hashPair machinery) leftNode leftDB leftBlock true = .ok () →
            checkBlock (withTree hashPair machinery) rightNode rightDB rightBlock true = .ok () →
              left.map machinery.txHash = right.map machinery.txHash := by
  obtain ⟨leftTop, leftFlag⟩ := buildMerkleTree_levels hashPair machinery.txHash leftFilled
  obtain ⟨rightTop, rightFlag⟩ :=
    buildMerkleTree_levels hashPair machinery.txHash rightFilled
  have binds : (buildMerkleTree hashPair machinery.txHash left).1 =
      (buildMerkleTree hashPair machinery.txHash right).1 →
      ¬ (buildMerkleTree hashPair machinery.txHash left).2 = true →
        ¬ (buildMerkleTree hashPair machinery.txHash right).2 = true →
          left.map machinery.txHash = right.map machinery.txHash := by
    intro same leftPlain rightPlain
    rw [leftFlag] at leftPlain
    rw [rightFlag] at rightPlain
    apply root_binds (by simpa using leftFilled) (by simpa using rightFilled) unmixed leftPlain
      rightPlain
    rw [leftTop, rightTop, same]
  constructor
  · intro differ same
    by_contra neither
    rw [not_or] at neither
    exact differ (binds same neither.1 neither.2)
  · intro leftNode rightNode leftDB rightDB leftBlock rightBlock leftList rightList same
      leftAccepted rightAccepted
    obtain ⟨leftRoot, leftPlain, _⟩ := checkBlock_merkle leftAccepted
    obtain ⟨rightRoot, rightPlain, _⟩ := checkBlock_merkle rightAccepted
    rw [leftList] at leftRoot leftPlain
    rw [rightList] at rightRoot rightPlain
    apply binds
    · exact leftRoot.trans (same.trans rightRoot.symm)
    · exact Bool.not_eq_true _ ▸ leftPlain
    · exact Bool.not_eq_true _ ▸ rightPlain

section Samples

def samplePair (left right : Uint256) : Uint256 := left * 1000 + right + 10000

def sampleTx (nLockTime : UInt32) : CTransaction := ⟨1, [], [], nLockTime⟩

def oddTxs : List CTransaction := [sampleTx 0, sampleTx 1, sampleTx 2]

def evenTxs : List CTransaction := [sampleTx 0, sampleTx 1, sampleTx 2, sampleTx 2]

def sampleHashed : List (Uint256 × Uint256) :=
  [(1, 2), (3, 3), (samplePair 1 2, samplePair 3 3)]

theorem sample_hashed {txs : List CTransaction} (either : txs = oddTxs ∨ txs = evenTxs)
    {both : Uint256 × Uint256}
    (member : both ∈ hashedPairs samplePair (txs.map labelMachinery.txHash)) :
    both ∈ sampleHashed := by
  obtain ⟨below, under, listed⟩ := member
  have pairs : ∀ below < 2, paired (level samplePair (txs.map labelMachinery.txHash) below) ⊆
      sampleHashed := by
    rcases either with odd | even
    · rw [odd]
      decide
    · rw [even]
      decide
  have height : treeHeight (txs.map labelMachinery.txHash).length = 2 := by
    rcases either with odd | even
    · rw [odd]
      decide
    · rw [even]
      decide
  rw [height] at under
  exact pairs below under listed

theorem sample_unmixed : Unmixed samplePair (oddTxs.map labelMachinery.txHash)
    (evenTxs.map labelMachinery.txHash) := by
  have listed : ∀ both, both ∈ hashedPairs samplePair (oddTxs.map labelMachinery.txHash) ∪
      hashedPairs samplePair (evenTxs.map labelMachinery.txHash) → both ∈ sampleHashed := by
    rintro both (odd | even)
    · exact sample_hashed (Or.inl rfl) odd
    · exact sample_hashed (Or.inr rfl) even
  constructor
  · intro left leftMember right rightMember same
    have apart : (sampleHashed.all fun left => sampleHashed.all fun right =>
        samplePair left.1 left.2 != samplePair right.1 right.2 || left == right) = true := by
      decide
    have other := List.all_eq_true.mp (List.all_eq_true.mp apart left (listed left leftMember))
      right (listed right rightMember)
    simpa [same] using other
  · intro leaf member both hashed
    have names : oddTxs.map labelMachinery.txHash ++ evenTxs.map labelMachinery.txHash =
        [1, 2, 3, 1, 2, 3, 3] := rfl
    have small : ([1, 2, 3, 1, 2, 3, 3] : List Uint256).all fun leaf => decide (leaf < 10) := by
      decide
    have large : (sampleHashed.all fun both => !decide (samplePair both.1 both.2 < 10)) = true := by
      decide
    intro same
    have above := List.all_eq_true.mp large both (listed both hashed)
    have below := List.all_eq_true.mp small leaf member
    rw [same, below] at above
    cases above

theorem doubled_last_reported :
    (buildMerkleTree samplePair labelMachinery.txHash oddTxs).2 = true ∨
      (buildMerkleTree samplePair labelMachinery.txHash evenTxs).2 = true :=
  (merkle_root_binds samplePair labelMachinery oddTxs evenTxs (by decide) (by decide)
    sample_unmixed).1 (by decide) (by decide +kernel)

end Samples

end OxidMerkleTree
