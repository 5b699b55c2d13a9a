import Oxid.Library.PartialTree
import Oxid.MerkleTree

/-!
Partial merkle trees from peers: a number of transactions, bits and hashes. They spell a
partial tree of the height that the number has, which is laid against the tree of the block.
-/
namespace OxidPartialMerkle
open OxidPrimitives OxidCheckBlock OxidMerkleTree MerkleLevels PartialTrees

structure CPartialMerkleTree where
  nTransactions : UInt32
  vBits : List Bool
  vHash : List Uint256
  fBad : Bool
deriving DecidableEq

def bitsOf (vBytes : List UInt8) : List Bool :=
  vBytes.flatMap fun byte => (List.range 8).map fun place => byte.toNat.testBit place

def deserialised (nTransactions : UInt32) (vHash : List Uint256) (vBytes : List UInt8) :
    CPartialMerkleTree where
  nTransactions := nTransactions
  vBits := bitsOf vBytes
  vHash := vHash
  fBad := false

def calcTreeWidth (nTransactions : UInt32) (height : Nat) : Nat :=
  (nTransactions.toNat + 2 ^ height - 1) / 2 ^ height

theorem calcTreeWidth_many (nTransactions : UInt32) (height : Nat) :
    calcTreeWidth nTransactions height > 1 ↔ 2 ^ height < nTransactions.toNat := by
  have positive : 0 < 2 ^ height := Nat.two_pow_pos height
  unfold calcTreeWidth
  rw [gt_iff_lt, Nat.lt_iff_add_one_le, Nat.le_div_iff_mul_le positive]
  omega

def climb (nTransactions : UInt32) (nHeight : Nat) : Nat :=
  if calcTreeWidth nTransactions nHeight > 1 then climb nTransactions (nHeight + 1) else nHeight
termination_by nTransactions.toNat - nHeight
decreasing_by
  rename_i more
  have large := (calcTreeWidth_many nTransactions nHeight).mp more
  have below : nHeight < 2 ^ nHeight := Nat.lt_two_pow_self
  omega

structure Extraction where
  nBitsUsed : Nat
  nHashUsed : Nat
  vMatch : List Uint256
  fBad : Bool

section Extracting

variable (hashPair : Uint256 → Uint256 → Uint256) (tree : CPartialMerkleTree)

def useHash (matched : Bool) (state : Extraction) : Uint256 × Extraction :=
  match tree.vHash[state.nHashUsed]? with
  | none => (0, { state with fBad := true })
  | some hash =>
    (hash, { state with
      nHashUsed := state.nHashUsed + 1
      vMatch := if matched then state.vMatch ++ [hash] else state.vMatch })

def traverseAndExtract : Nat → Nat → Extraction → Uint256 × Extraction
  | 0, _, state =>
    match tree.vBits[state.nBitsUsed]? with
    | none => (0, { state with fBad := true })
    | some fParentOfMatch =>
      useHash tree fParentOfMatch { state with nBitsUsed := state.nBitsUsed + 1 }
  | height + 1, pos, state =>
    match tree.vBits[state.nBitsUsed]? with
    | none => (0, { state with fBad := true })
    | some false => useHash tree false { state with nBitsUsed := state.nBitsUsed + 1 }
    | some true =>
      let (left, state) := traverseAndExtract height (pos * 2)
        { state with nBitsUsed := state.nBitsUsed + 1 }
      if pos * 2 + 1 < calcTreeWidth tree.nTransactions height then
        let (right, state) := traverseAndExtract height (pos * 2 + 1) state
        (hashPair left right, state)
      else (hashPair left left, state)

def extractMatches : Uint256 × List Uint256 :=
  if tree.nTransactions = 0 then (0, [])
  else if tree.nTransactions.toNat > MAX_BLOCK_SIZE_CURRENT / 60 then (0, [])
  else if tree.vHash.length > tree.nTransactions.toNat then (0, [])
  else if tree.vBits.length < tree.vHash.length then (0, [])
  else
    let (hashMerkleRoot, state) := traverseAndExtract hashPair tree (climb tree.nTransactions 0) 0
      ⟨0, 0, [], tree.fBad⟩
    if state.fBad then (0, state.vMatch)
    else if (state.nBitsUsed + 7) / 8 ≠ (tree.vBits.length + 7) / 8 then (0, state.vMatch)
    else if state.nHashUsed ≠ tree.vHash.length then (0, state.vMatch)
    else (hashMerkleRoot, state.vMatch)

end Extracting

section Spelling

/-- The partial tree that bits and hashes spell, and what they leave. -/
def spell (nTransactions : UInt32) : Nat → Nat → List Bool → List Uint256 →
    Option (PartialTree Uint256 × List Bool × List Uint256)
  | _, _, [], _ => none
  | 0, _, matched :: bits, hashes =>
    match hashes with
    | [] => none
    | hash :: hashes => some (.stored matched hash, bits, hashes)
  | _ + 1, _, false :: bits, hashes =>
    match hashes with
    | [] => none
    | hash :: hashes => some (.stored false hash, bits, hashes)
  | height + 1, pos, true :: bits, hashes =>
    match spell nTransactions height (pos * 2) bits hashes with
    | none => none
    | some (left, bits, hashes) =>
      if pos * 2 + 1 < calcTreeWidth nTransactions height then
        match spell nTransactions height (pos * 2 + 1) bits hashes with
        | none => none
        | some (right, bits, hashes) => some (.both left right, bits, hashes)
      else some (.single left, bits, hashes)

def spelled (tree : CPartialMerkleTree) : Option (PartialTree Uint256) :=
  (spell tree.nTransactions (climb tree.nTransactions 0) 0 tree.vBits tree.vHash).map Prod.fst

variable {hashPair : Uint256 → Uint256 → Uint256} {tree : CPartialMerkleTree}

structure Spelled (hashPair : Uint256 → Uint256 → Uint256) (tree : CPartialMerkleTree)
    (height pos : Nat) (before : Extraction) (result : Uint256 × Extraction)
    (part : PartialTree Uint256) : Prop where
  good : before.fBad = false
  reads : spell tree.nTransactions height pos (tree.vBits.drop before.nBitsUsed)
      (tree.vHash.drop before.nHashUsed) =
    some (part, tree.vBits.drop result.2.nBitsUsed, tree.vHash.drop result.2.nHashUsed)
  value : result.1 = part.value hashPair
  marks : result.2.vMatch = before.vMatch ++ part.marks
  shaped : part.Shaped height

theorem useHash_spelled {matched : Bool} {height pos : Nat} {before : Extraction}
    (leaf : height = 0 ∨ matched = false)
    (bit : tree.vBits[before.nBitsUsed]? = some matched)
    (good : (useHash tree matched { before with nBitsUsed := before.nBitsUsed + 1 }).2.fBad =
      false) :
    ∃ part, Spelled hashPair tree height pos before
      (useHash tree matched { before with nBitsUsed := before.nBitsUsed + 1 }) part := by
  obtain ⟨inBits, bitHere⟩ := List.getElem?_eq_some_iff.mp bit
  unfold useHash at good ⊢
  cases next : tree.vHash[before.nHashUsed]? with
  | none =>
    rw [next] at good
    cases good
  | some hash =>
    obtain ⟨inHashes, hashHere⟩ := List.getElem?_eq_some_iff.mp next
    rw [next] at good
    use PartialTree.stored matched hash
    constructor
    · exact good
    · rw [List.drop_eq_getElem_cons inBits, List.drop_eq_getElem_cons inHashes, bitHere, hashHere]
      cases height with
      | zero => rfl
      | succ height =>
        rcases leaf with impossible | unmarked
        · cases impossible
        · rw [unmarked]
          rfl
    · rfl
    · cases matched with
      | true => rfl
      | false => exact (List.append_nil _).symm
    · cases height with
      | zero => trivial
      | succ height =>
        rcases leaf with impossible | unmarked
        · cases impossible
        · exact unmarked

theorem traverse_spelled {height pos : Nat} {before : Extraction}
    (good : (traverseAndExtract hashPair tree height pos before).2.fBad = false) :
    ∃ part, Spelled hashPair tree height pos before
      (traverseAndExtract hashPair tree height pos before) part := by
  induction height generalizing pos before with
  | zero =>
    unfold traverseAndExtract at good ⊢
    cases bit : tree.vBits[before.nBitsUsed]? with
    | none =>
      rw [bit] at good
      cases good
    | some matched =>
      rw [bit] at good
      exact useHash_spelled (Or.inl rfl) bit good
  | succ height ih =>
    unfold traverseAndExtract at good ⊢
    cases bit : tree.vBits[before.nBitsUsed]? with
    | none =>
      rw [bit] at good
      cases good
    | some matched =>
      rw [bit] at good
      cases matched with
      | false => exact useHash_spelled (Or.inr rfl) bit good
      | true =>
        obtain ⟨inBits, bitHere⟩ := List.getElem?_eq_some_iff.mp bit
        have start := List.drop_eq_getElem_cons inBits
        rw [bitHere] at start
        split_ifs at good ⊢ with wide
        · obtain ⟨right, rightSpelled⟩ := ih good
          obtain ⟨left, leftSpelled⟩ := ih rightSpelled.good
          use PartialTree.both left right
          constructor
          · exact leftSpelled.good
          · rw [start, spell, leftSpelled.reads]
            dsimp only
            rw [if_pos wide, rightSpelled.reads]
          · rw [PartialTree.value, ← leftSpelled.value, ← rightSpelled.value]
          · rw [rightSpelled.marks, leftSpelled.marks, PartialTree.marks, List.append_assoc]
          · exact ⟨leftSpelled.shaped, rightSpelled.shaped⟩
        · obtain ⟨left, leftSpelled⟩ := ih good
          use PartialTree.single left
          constructor
          · exact leftSpelled.good
          · rw [start, spell, leftSpelled.reads]
            dsimp only
            rw [if_neg wide]
          · rw [PartialTree.value, ← leftSpelled.value]
          · exact leftSpelled.marks
          · exact leftSpelled.shaped

theorem unless_zero {failed : Prop} [Decidable failed] {failure next : Uint256 × List Uint256}
    (zero : failure.1 = 0) (returned : (if failed then failure else next).1 ≠ 0) :
    ¬ failed ∧ (if failed then failure else next) = next := by
  by_cases hit : failed
  · rw [if_pos hit] at returned
    exact absurd zero returned
  · exact ⟨hit, if_neg hit⟩

theorem extractMatches_read (returned : (extractMatches hashPair tree).1 ≠ 0) :
    (traverseAndExtract hashPair tree (climb tree.nTransactions 0) 0
        ⟨0, 0, [], tree.fBad⟩).2.fBad ≠ true ∧
      extractMatches hashPair tree =
        ((traverseAndExtract hashPair tree (climb tree.nTransactions 0) 0
            ⟨0, 0, [], tree.fBad⟩).1,
          (traverseAndExtract hashPair tree (climb tree.nTransactions 0) 0
            ⟨0, 0, [], tree.fBad⟩).2.vMatch) := by
  unfold extractMatches at returned ⊢
  obtain ⟨-, some'⟩ := unless_zero rfl returned
  rw [some'] at returned ⊢
  obtain ⟨-, few⟩ := unless_zero rfl returned
  rw [few] at returned ⊢
  obtain ⟨-, hashes⟩ := unless_zero rfl returned
  rw [hashes] at returned ⊢
  obtain ⟨-, bits⟩ := unless_zero rfl returned
  rw [bits] at returned ⊢
  dsimp only at returned ⊢
  obtain ⟨good, went⟩ := unless_zero rfl returned
  rw [went] at returned ⊢
  obtain ⟨-, bitsUsed⟩ := unless_zero rfl returned
  rw [bitsUsed] at returned ⊢
  exact ⟨good, (unless_zero rfl returned).2⟩

theorem extractMatches_spelled (hashPair : Uint256 → Uint256 → Uint256)
    (tree : CPartialMerkleTree) (returned : (extractMatches hashPair tree).1 ≠ 0) :
    ∃ part, spelled tree = some part ∧ part.Shaped (climb tree.nTransactions 0) ∧
      (extractMatches hashPair tree).1 = part.value hashPair ∧
      (extractMatches hashPair tree).2 = part.marks := by
  obtain ⟨good, read⟩ := extractMatches_read returned
  obtain ⟨part, facts⟩ := traverse_spelled (eq_false_of_ne_true good)
  have reads := facts.reads
  rw [List.drop_zero, List.drop_zero] at reads
  use part
  unfold spelled
  rw [reads, read]
  exact ⟨rfl, facts.shaped, facts.value, facts.marks⟩

end Spelling

def messagePairs (hashPair : Uint256 → Uint256 → Uint256) (tree : CPartialMerkleTree) :
    Set (Uint256 × Uint256) :=
  {both | ∃ part, spelled tree = some part ∧ both ∈ part.pairs hashPair}

/-- The hash in a block's tree and in a message: no two pairs collide, no transaction has
    the hash of a pair, and the root is not the 0 that stands for a failure. -/
structure UnmixedMessage (hashPair : Uint256 → Uint256 → Uint256) (txids : List Uint256)
    (root : Uint256) (tree : CPartialMerkleTree) : Prop where
  noCollision : Set.InjOn (fun both => hashPair both.1 both.2)
    (hashedPairs hashPair txids ∪ messagePairs hashPair tree)
  leaves : ∀ txid ∈ txids, ∀ both ∈ hashedPairs hashPair txids ∪ messagePairs hashPair tree,
    hashPair both.1 both.2 ≠ txid
  real : root ≠ 0

/-- A message whose tree marks no leaf; or is as high as the block's, without two marked
    leaves at copies of one transaction. -/
def Harmless (size : Nat) (tree : CPartialMerkleTree) : Prop :=
  ∀ part, spelled tree = some part → part.isMarked = false ∨
    climb tree.nTransactions 0 = treeHeight size ∧
      (part.places (widths size) (treeHeight size) 0).Nodup

/-- The matches of a message that yields the root of a block are distinct transactions of
    the block exactly when the message is harmless. -/
theorem matches_sound_iff (hashPair : Uint256 → Uint256 → Uint256)
    (txHash : CTransaction → Uint256) (vtx : List CTransaction) (filled : vtx ≠ [])
    (distinct : (vtx.map txHash).Nodup) (nTransactions : UInt32) (vHash : List Uint256)
    (vBytes : List UInt8)
    (unmixed : UnmixedMessage hashPair (vtx.map txHash) (buildMerkleTree hashPair txHash vtx).1
      (deserialised nTransactions vHash vBytes))
    (returned : (extractMatches hashPair (deserialised nTransactions vHash vBytes)).1 =
      (buildMerkleTree hashPair txHash vtx).1) :
    (∀ hash ∈ (extractMatches hashPair (deserialised nTransactions vHash vBytes)).2,
        hash ∈ vtx.map txHash) ∧
      (extractMatches hashPair (deserialised nTransactions vHash vBytes)).2.Nodup ↔
      Harmless vtx.length (deserialised nTransactions vHash vBytes) := by
  obtain ⟨part, spells, shaped, value, marks⟩ := extractMatches_spelled hashPair
    (deserialised nTransactions vHash vBytes) (by rw [returned]; exact unmixed.real)
  have top := (buildMerkleTree_levels hashPair txHash filled).1
  have found : (level hashPair (vtx.map txHash) (treeHeight (vtx.map txHash).length))[0]? =
      some (part.value hashPair) := by
    rw [top, ← returned, value]
    rfl
  have sound := marks_sound_iff unmixed.noCollision unmixed.leaves distinct
    (fun below under both listed => Or.inl ⟨below, under, listed⟩)
    (fun both member => Or.inr ⟨part, spells, member⟩) shaped found
  rw [marks, sound, List.length_map]
  unfold Harmless
  rw [spells]
  constructor
  · intro either other same
    rw [← Option.some.inj same]
    exact either
  · intro harmless
    exact harmless part rfl

section Samples

open OxidChainRun

def twoTxs : List CTransaction := [sampleTx 0, sampleTx 1]

def honestMessage : CPartialMerkleTree := deserialised 2 [1, 2] [3]

def rootMessage : CPartialMerkleTree := deserialised 1 [samplePair 1 2] [1]

theorem two_unmixed {tree : CPartialMerkleTree}
    (pairs : ∀ both ∈ messagePairs samplePair tree, both = (1, 2)) :
    UnmixedMessage samplePair (twoTxs.map labelMachinery.txHash)
      (buildMerkleTree samplePair labelMachinery.txHash twoTxs).1 tree := by
  have height : treeHeight (twoTxs.map labelMachinery.txHash).length = 1 := by decide
  have only : ∀ both, both ∈ hashedPairs samplePair (twoTxs.map labelMachinery.txHash) ∪
      messagePairs samplePair tree → both = (1, 2) := by
    rintro both (⟨below, under, listed⟩ | listed)
    · rw [height, Nat.lt_one_iff] at under
      rw [under] at listed
      exact List.mem_singleton.mp listed
    · exact pairs both listed
  constructor
  · intro left leftMember right rightMember _
    rw [only left leftMember, only right rightMember]
  · intro txid member both hashed
    rw [only both hashed]
    have names : twoTxs.map labelMachinery.txHash = [1, 2] := rfl
    rcases List.mem_cons.mp member with first | second
    · rw [first]
      decide
    · rw [List.mem_singleton.mp second]
      decide
  · decide +kernel

theorem honest_spelled :
    spelled honestMessage = some (.both (.stored true 1) (.stored false 2)) := by
  decide +kernel

theorem honest_unmixed : UnmixedMessage samplePair (twoTxs.map labelMachinery.txHash)
    (buildMerkleTree samplePair labelMachinery.txHash twoTxs).1 honestMessage := by
  apply two_unmixed
  rintro both ⟨part, spells, listed⟩
  rw [← Option.some.inj (honest_spelled.symm.trans spells)] at listed
  exact List.mem_singleton.mp listed

theorem honest_matches :
    (∀ hash ∈ (extractMatches samplePair honestMessage).2,
        hash ∈ twoTxs.map labelMachinery.txHash) ∧
      (extractMatches samplePair honestMessage).2.Nodup :=
  (matches_sound_iff samplePair labelMachinery.txHash twoTxs (by decide) (by decide) 2 [1, 2] [3]
    honest_unmixed (by decide +kernel)).mpr (by
      intro part spells
      rw [← Option.some.inj (honest_spelled.symm.trans spells)]
      exact Or.inr ⟨by decide +kernel, by decide +kernel⟩)

theorem root_unmixed : UnmixedMessage samplePair (twoTxs.map labelMachinery.txHash)
    (buildMerkleTree samplePair labelMachinery.txHash twoTxs).1 rootMessage := by
  have reads : spelled rootMessage = some (.stored true (samplePair 1 2)) := by decide +kernel
  apply two_unmixed
  rintro both ⟨part, spells, listed⟩
  rw [← Option.some.inj (reads.symm.trans spells)] at listed
  cases listed

theorem root_matched :
    ¬ ∀ (hashPair : Uint256 → Uint256 → Uint256) (txHash : CTransaction → Uint256)
      (vtx : List CTransaction) (nTransactions : UInt32) (vHash : List Uint256)
      (vBytes : List UInt8),
      vtx ≠ [] → (vtx.map txHash).Nodup →
        UnmixedMessage hashPair (vtx.map txHash) (buildMerkleTree hashPair txHash vtx).1
          (deserialised nTransactions vHash vBytes) →
        (extractMatches hashPair (deserialised nTransactions vHash vBytes)).1 =
          (buildMerkleTree hashPair txHash vtx).1 →
        (∀ hash ∈ (extractMatches hashPair (deserialised nTransactions vHash vBytes)).2,
            hash ∈ vtx.map txHash) ∧
          (extractMatches hashPair (deserialised nTransactions vHash vBytes)).2.Nodup := by
  intro sound
  have inner := (sound samplePair labelMachinery.txHash twoTxs 1 [samplePair 1 2] [1] (by decide)
    (by decide) root_unmixed (by decide +kernel)).1 (samplePair 1 2) (by decide +kernel)
  revert inner
  decide +kernel

end Samples

end OxidPartialMerkle
