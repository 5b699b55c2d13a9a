import Oxid.Library.PackedBits
import Oxid.MasternodeStore
import Oxid.MerkleBranch

/-!
Partial merkle trees made from a block, sent and read again. The builder and the extractor
go through the same nodes: what one appends to the bits and the hashes the other takes off.
-/
namespace OxidMerkleRoundTrip
open OxidPrimitives OxidCheckBlock OxidMerkleTree OxidPartialMerkle OxidMerkleBranch OxidChainRun
open OxidMasternodeStore MerkleLevels PartialTrees PackedBits Serialize

section Bits

def packFrom (p : Nat) : List Bool → List UInt8 → List UInt8
  | [], vBytes => vBytes
  | bit :: rest, vBytes => packFrom (p + 1) rest (putBit vBytes p bit)

def packBits (vBits : List Bool) : List UInt8 :=
  packFrom 0 vBits (List.replicate ((vBits.length + 7) / 8) 0)

theorem packFrom_length (p : Nat) (bits : List Bool) (vBytes : List UInt8) :
    (packFrom p bits vBytes).length = vBytes.length := by
  induction bits generalizing p vBytes with
  | nil => rfl
  | cons bit rest ih => simp [packFrom, ih]

theorem packFrom_bitAt (p : Nat) (bits : List Bool) (vBytes : List UInt8) (place : Nat)
    (room : p + bits.length ≤ 8 * vBytes.length) :
    bitAt (packFrom p bits vBytes) place =
      (bitAt vBytes place || decide (p ≤ place) && bits.getD (place - p) false) := by
  induction bits generalizing p vBytes with
  | nil => simp [packFrom]
  | cons bit rest ih =>
    simp only [List.length_cons] at room
    rw [packFrom, ih (p + 1) _ (by rw [putBit_length]; omega), bitAt_putBit (by omega)]
    by_cases same : place = p
    · simp [same]
    · by_cases later : p ≤ place
      · have next : place - p = place - (p + 1) + 1 := by omega
        simp [same, later, next, show p + 1 ≤ place by omega]
      · simp [same, later, show ¬ p + 1 ≤ place by omega]

theorem bitsOf_length (vBytes : List UInt8) : (bitsOf vBytes).length = 8 * vBytes.length := by
  induction vBytes with
  | nil => rfl
  | cons byte rest ih =>
    have whole : bitsOf (byte :: rest) =
        (List.range 8).map (fun place => byte.toNat.testBit place) ++ bitsOf rest := rfl
    simp [whole, ih]
    omega

theorem bitsOf_at (vBytes : List UInt8) (place : Nat) (inside : place < 8 * vBytes.length) :
    (bitsOf vBytes)[place]? = some (bitAt vBytes place) := by
  induction vBytes generalizing place with
  | nil => simp at inside
  | cons byte rest ih =>
    have whole : bitsOf (byte :: rest) =
        (List.range 8).map (fun place => byte.toNat.testBit place) ++ bitsOf rest := rfl
    simp only [List.length_cons] at inside
    by_cases first : place < 8
    · have zero : place / 8 = 0 := by omega
      have same : place % 8 = place := by omega
      rw [whole, List.getElem?_append_left (by simpa using first)]
      simp [bitAt, zero, same, first]
    · have later : place / 8 = (place - 8) / 8 + 1 := by omega
      have same : place % 8 = (place - 8) % 8 := by omega
      rw [whole, List.getElem?_append_right (by simpa using first)]
      simp only [List.length_map, List.length_range]
      rw [ih (place - 8) (by omega)]
      simp [bitAt, later, same]

theorem bitsOf_packBits (vBits : List Bool) : bitsOf (packBits vBits) =
    vBits ++ List.replicate (8 * ((vBits.length + 7) / 8) - vBits.length) false := by
  have size : (packBits vBits).length = (vBits.length + 7) / 8 := by
    simp [packBits, packFrom_length]
  have zeros (place : Nat) : bitAt (List.replicate ((vBits.length + 7) / 8) 0) place = false := by
    unfold bitAt
    rw [List.getD_eq_getElem?_getD, List.getElem?_replicate]
    split <;> simp
  apply List.ext_getElem?
  intro place
  by_cases inside : place < 8 * ((vBits.length + 7) / 8)
  · rw [bitsOf_at _ _ (by rw [size]; exact inside), packBits,
      packFrom_bitAt 0 vBits _ place (by simp; omega), zeros]
    by_cases written : place < vBits.length
    · rw [List.getElem?_append_left written]
      simp [written]
    · rw [List.getElem?_append_right (by omega), List.getElem?_replicate, if_pos (by omega)]
      simp [show vBits.length ≤ place by omega]
  · rw [List.getElem?_eq_none (by rw [bitsOf_length, size]; omega),
      List.getElem?_eq_none (by simp; omega)]

end Bits

section Building

variable (hashPair : Uint256 → Uint256 → Uint256) (nTransactions : UInt32) (vTxid : List Uint256)
  (vMatch : List Bool)

def parentOfMatch (height pos : Nat) : Bool :=
  (((vMatch.take nTransactions.toNat).drop (pos * 2 ^ height)).take (2 ^ height)).any id

def traverseAndBuild : Nat → Nat → List Bool × List Uint256 → Option (List Bool × List Uint256)
  | 0, pos, (vBits, vHash) => do
    let hash ← calcHash hashPair nTransactions.toNat vTxid 0 pos
    some (vBits ++ [parentOfMatch nTransactions vMatch 0 pos], vHash ++ [hash])
  | height + 1, pos, (vBits, vHash) =>
    if parentOfMatch nTransactions vMatch (height + 1) pos then do
      let built ← traverseAndBuild height (pos * 2) (vBits ++ [true], vHash)
      if pos * 2 + 1 < calcTreeWidth nTransactions height then
        traverseAndBuild height (pos * 2 + 1) built
      else some built
    else do
      let hash ← calcHash hashPair nTransactions.toNat vTxid (height + 1) pos
      some (vBits ++ [false], vHash ++ [hash])

def fromTxids : Option CPartialMerkleTree :=
  let nTransactions := UInt32.ofNat vTxid.length
  (traverseAndBuild hashPair nTransactions vTxid vMatch (climb nTransactions 0) 0 ([], [])).map
    fun built => ⟨nTransactions, built.1, built.2, false⟩

def partialMerkleTree : Codec CPartialMerkleTree :=
  ((unsignedInt.pair uint256.list).pair byteVector).via
    (fun tree => ((tree.nTransactions, tree.vHash), packBits tree.vBits))
    fun read => deserialised read.1.1 read.1.2 read.2

end Building

section Nodes

variable {hashPair : Uint256 → Uint256 → Uint256} {nTransactions : UInt32} {vTxid : List Uint256}
  {vMatch : List Bool}

def under (vTxid : List Uint256) (vMatch : List Bool) (height pos : Nat) : List (Uint256 × Bool) :=
  ((vTxid.zip vMatch).drop (pos * 2 ^ height)).take (2 ^ height)

def matched (txids : List (Uint256 × Bool)) : List Uint256 := (txids.filter Prod.snd).map Prod.fst

theorem matched_append (left right : List (Uint256 × Bool)) :
    matched (left ++ right) = matched left ++ matched right := by
  simp [matched]

theorem under_children (height pos : Nat) : under vTxid vMatch (height + 1) pos =
    under vTxid vMatch height (pos * 2) ++ under vTxid vMatch height (pos * 2 + 1) := by
  have twice : 2 ^ (height + 1) = 2 ^ height + 2 ^ height := by
    omega
  have left : pos * (2 ^ height + 2 ^ height) = pos * 2 * 2 ^ height := by
    rw [Nat.mul_assoc]
    congr 1
    omega
  have right : (pos * 2 + 1) * 2 ^ height = pos * 2 * 2 ^ height + 2 ^ height := Nat.succ_mul _ _
  unfold under
  rw [twice, left, List.take_add, List.drop_drop, right]

variable {height pos : Nat} {hash : Uint256} {node : Uint256}

theorem under_outside (mask : vMatch.length = vTxid.length)
    (outside : ¬ pos < widths vTxid.length height) : under vTxid vMatch height pos = [] := by
  have positive : 0 < 2 ^ height := Nat.two_pow_pos height
  unfold widths at outside
  rw [Nat.not_lt, ← Nat.lt_succ_iff, Nat.div_lt_iff_lt_mul positive, Nat.succ_mul] at outside
  unfold under
  rw [List.drop_eq_nil_of_le (by simp [mask]; omega), List.take_nil]

theorem under_inside (mask : vMatch.length = vTxid.length)
    (inside : pos < widths vTxid.length height) : 1 ≤ (under vTxid vMatch height pos).length := by
  have positive : 0 < 2 ^ height := Nat.two_pow_pos height
  unfold widths at inside
  rw [Nat.lt_iff_add_one_le, Nat.le_div_iff_mul_le positive, Nat.succ_mul] at inside
  simp [under, mask]
  omega

theorem parentOfMatch_under (sized : nTransactions.toNat = vTxid.length)
    (mask : vMatch.length = vTxid.length) (height pos : Nat) :
    parentOfMatch nTransactions vMatch height pos = (under vTxid vMatch height pos).any Prod.snd := by
  have flags : vMatch = (vTxid.zip vMatch).map Prod.snd := (List.map_snd_zip (by omega)).symm
  have whole : vMatch.take nTransactions.toNat = vMatch := List.take_of_length_le (by omega)
  unfold parentOfMatch under
  rw [whole]
  conv_lhs => rw [flags]
  rw [← List.map_drop, ← List.map_take, List.any_map]
  rfl

theorem matched_none {txids : List (Uint256 × Bool)} (unmatched : txids.any Prod.snd = false) :
    matched txids = [] := by
  have all : txids.filter Prod.snd = [] := by simpa [List.filter_eq_nil_iff] using unmatched
  simp [matched, all]

structure Traversed (hashPair : Uint256 → Uint256 → Uint256) (nTransactions : UInt32)
    (vTxid : List Uint256) (vMatch : List Bool) (height pos : Nat) (newBits : List Bool)
    (newHashes : List Uint256) : Prop where
  builds : ∀ vBits vHash, traverseAndBuild hashPair nTransactions vTxid vMatch height pos
    (vBits, vHash) = some (vBits ++ newBits, vHash ++ newHashes)
  extracts : ∀ (tree : CPartialMerkleTree) (vBits moreBits : List Bool)
    (vHash moreHashes found : List Uint256) (node : Uint256),
    tree.nTransactions = nTransactions → tree.vBits = vBits ++ (newBits ++ moreBits) →
    tree.vHash = vHash ++ (newHashes ++ moreHashes) →
    (level hashPair vTxid height)[pos]? = some node →
    traverseAndExtract hashPair tree height pos ⟨vBits.length, vHash.length, found, false⟩ =
      (node, ⟨(vBits ++ newBits).length, (vHash ++ newHashes).length,
        found ++ matched (under vTxid vMatch height pos), false⟩)
  hashes : newHashes.length ≤ newBits.length
  leaves : newHashes.length ≤ (under vTxid vMatch height pos).length
  bits : newBits.length < 2 ^ (height + 1)

theorem useHash_next {tree : CPartialMerkleTree} {vHash moreHashes found : List Uint256}
    (whole : tree.vHash = vHash ++ ([hash] ++ moreHashes)) (marked : Bool) (nBitsUsed : Nat) :
    useHash tree marked ⟨nBitsUsed, vHash.length, found, false⟩ =
      (hash, ⟨nBitsUsed, vHash.length + 1, if marked then found ++ [hash] else found, false⟩) := by
  unfold useHash
  simp [whole]

theorem traversed_leaf {pos : Nat} (sized : nTransactions.toNat = vTxid.length)
    (mask : vMatch.length = vTxid.length) (here : vTxid[pos]? = some hash) :
    Traversed hashPair nTransactions vTxid vMatch 0 pos [parentOfMatch nTransactions vMatch 0 pos]
      [hash] := by
  obtain ⟨inside, _⟩ := List.getElem?_eq_some_iff.mp here
  have flag := List.getElem?_eq_getElem (show pos < vMatch.length by omega)
  have alone : under vTxid vMatch 0 pos = [(hash, vMatch[pos])] := by
    have first : (vTxid.zip vMatch)[pos]? = some (hash, vMatch[pos]) := by
      simp [List.getElem?_zip_eq_some, here, flag]
    obtain ⟨within, entry⟩ := List.getElem?_eq_some_iff.mp first
    simp only [under, Nat.pow_zero, Nat.mul_one, List.drop_eq_getElem_cons within, entry]
    rfl
  have bit := @parentOfMatch_under nTransactions _ _ sized mask 0 pos
  rw [alone] at bit
  constructor
  · intro vBits vHash
    simp [traverseAndBuild, calcHash, here]
  · intro tree vBits moreBits vHash moreHashes found node _ bits hashes top
    have same : node = hash := by simpa [level, here, eq_comm] using top
    have next : tree.vBits[vBits.length]? = some (parentOfMatch nTransactions vMatch 0 pos) := by
      simp [bits]
    rw [traverseAndExtract, next]
    dsimp only
    rw [useHash_next hashes, alone, bit, same]
    cases vMatch[pos] <;> simp [matched]
  · simp
  · simp [alone]
  · simp

theorem traversed_stored (sized : nTransactions.toNat = vTxid.length)
    (mask : vMatch.length = vTxid.length) (inside : pos < widths vTxid.length (height + 1))
    (here : (level hashPair vTxid (height + 1))[pos]? = some node)
    (unmatched : parentOfMatch nTransactions vMatch (height + 1) pos = false) :
    Traversed hashPair nTransactions vTxid vMatch (height + 1) pos [false] [node] := by
  have none' := unmatched
  rw [parentOfMatch_under sized mask] at none'
  have hash := calcHash_level here
  constructor
  · intro vBits vHash
    rw [traverseAndBuild, unmatched, sized, hash]
    rfl
  · intro tree vBits moreBits vHash moreHashes found other _ bits hashes top
    have same : other = node := by simpa [here, eq_comm] using top
    have next : tree.vBits[vBits.length]? = some false := by simp [bits]
    rw [traverseAndExtract, next]
    rw [useHash_next hashes, matched_none none', same]
    simp
  · simp
  · exact under_inside mask inside
  · simp

section
variable (sized : nTransactions.toNat = vTxid.length)
include sized

theorem calcTreeWidth_widths (height : Nat) :
    calcTreeWidth nTransactions height = widths vTxid.length height := by
  rw [← sized]
  rfl

theorem traversed_both {leftBits rightBits : List Bool} {left right : Uint256}
    {leftHashes rightHashes : List Uint256}
    (parent : parentOfMatch nTransactions vMatch (height + 1) pos = true)
    (wide : pos * 2 + 1 < widths vTxid.length height)
    (leftHere : (level hashPair vTxid height)[pos * 2]? = some left)
    (rightHere : (level hashPair vTxid height)[pos * 2 + 1]? = some right)
    (here : (level hashPair vTxid (height + 1))[pos]? = some (hashPair left right))
    (leftNode : Traversed hashPair nTransactions vTxid vMatch height (pos * 2) leftBits leftHashes)
    (rightNode : Traversed hashPair nTransactions vTxid vMatch height (pos * 2 + 1) rightBits
      rightHashes) :
    Traversed hashPair nTransactions vTxid vMatch (height + 1) pos
      (true :: (leftBits ++ rightBits)) (leftHashes ++ rightHashes) := by
  have width := @calcTreeWidth_widths nTransactions _ sized height
  have leftFew := leftNode.hashes
  have rightFew := rightNode.hashes
  constructor
  · intro vBits vHash
    rw [traverseAndBuild, if_pos parent, leftNode.builds, width, Option.bind_eq_bind,
      Option.bind_some, if_pos wide, rightNode.builds]
    simp
  · intro tree vBits moreBits vHash moreHashes found node size bits hashes top
    have same : node = hashPair left right := by simpa [here, eq_comm] using top
    have next : tree.vBits[vBits.length]? = some true := by simp [bits]
    have first := leftNode.extracts tree (vBits ++ [true]) (rightBits ++ moreBits) vHash
      (rightHashes ++ moreHashes) found left size (by simp [bits]) (by simp [hashes]) leftHere
    have second := rightNode.extracts tree (vBits ++ [true] ++ leftBits) moreBits
      (vHash ++ leftHashes) moreHashes (found ++ matched (under vTxid vMatch height (pos * 2)))
      right size (by simp [bits]) (by simp [hashes]) rightHere
    rw [List.length_append, List.length_singleton] at first
    rw [traverseAndExtract, next]
    rw [first]
    dsimp only
    rw [size, width, if_pos wide, second, same, under_children, matched_append]
    simp [Nat.add_comm, Nat.add_left_comm]
  · simp only [List.length_cons, List.length_append]
    omega
  · have leftLeaves := leftNode.leaves
    have rightLeaves := rightNode.leaves
    rw [under_children, List.length_append, List.length_append]
    omega
  · have leftSmall := leftNode.bits
    have rightSmall := rightNode.bits
    simp only [List.length_cons, List.length_append]
    omega

theorem traversed_single {leftBits : List Bool} {leftHashes : List Uint256} {left : Uint256}
    (mask : vMatch.length = vTxid.length)
    (parent : parentOfMatch nTransactions vMatch (height + 1) pos = true)
    (narrow : ¬ pos * 2 + 1 < widths vTxid.length height)
    (leftHere : (level hashPair vTxid height)[pos * 2]? = some left)
    (here : (level hashPair vTxid (height + 1))[pos]? = some (hashPair left left))
    (leftNode : Traversed hashPair nTransactions vTxid vMatch height (pos * 2) leftBits leftHashes)
    :
    Traversed hashPair nTransactions vTxid vMatch (height + 1) pos (true :: leftBits)
      leftHashes := by
  have width := @calcTreeWidth_widths nTransactions _ sized height
  have beyond := @under_outside _ _ height (pos * 2 + 1) mask narrow
  have leftFew := leftNode.hashes
  constructor
  · intro vBits vHash
    rw [traverseAndBuild, if_pos parent, leftNode.builds, width, Option.bind_eq_bind,
      Option.bind_some, if_neg narrow]
    simp
  · intro tree vBits moreBits vHash moreHashes found node size bits hashes top
    have same : node = hashPair left left := by simpa [here, eq_comm] using top
    have next : tree.vBits[vBits.length]? = some true := by simp [bits]
    have first := leftNode.extracts tree (vBits ++ [true]) moreBits vHash moreHashes found left size
      (by simp [bits]) hashes leftHere
    rw [List.length_append, List.length_singleton] at first
    rw [traverseAndExtract, next]
    rw [first]
    dsimp only
    rw [size, width, if_neg narrow, same, under_children, beyond]
    simp [Nat.add_comm, Nat.add_left_comm]
  · simp only [List.length_cons]
    omega
  · have leftLeaves := leftNode.leaves
    rw [under_children, List.length_append]
    omega
  · have leftSmall := leftNode.bits
    simp only [List.length_cons]
    omega

theorem traversed (mask : vMatch.length = vTxid.length)
    (here : (level hashPair vTxid height)[pos]? = some node) :
    ∃ newBits newHashes,
      Traversed hashPair nTransactions vTxid vMatch height pos newBits newHashes := by
  induction height generalizing pos node with
  | zero => exact ⟨_, _, traversed_leaf sized mask here⟩
  | succ height ih =>
    have width (height : Nat) : (level hashPair vTxid height).length = widths vTxid.length height :=
      level_length vTxid height
    cases parent : parentOfMatch nTransactions vMatch (height + 1) pos with
    | false =>
      have inside : pos < widths vTxid.length (height + 1) :=
        width (height + 1) ▸ (List.getElem?_eq_some_iff.mp here).1
      exact ⟨_, _, traversed_stored sized mask inside here parent⟩
    | true =>
      obtain ⟨both, _, rfl, left, right⟩ := level_node here
      rw [Nat.mul_comm] at left
      rw [width, rightOf, Nat.mul_comm] at right
      obtain ⟨leftBits, leftHashes, leftNode⟩ := ih left
      by_cases wide : pos * 2 + 1 < widths vTxid.length height
      · rw [if_pos wide] at right
        obtain ⟨rightBits, rightHashes, rightNode⟩ := ih right
        exact ⟨_, _, traversed_both sized parent wide left right here leftNode rightNode⟩
      · rw [if_neg wide, left] at right
        rw [← Option.some.inj right] at here
        exact ⟨_, _, traversed_single sized mask parent wide left here leftNode⟩

end

end Nodes

section Trips

variable {hashPair : Uint256 → Uint256 → Uint256}

theorem climb_heightFrom (nTransactions : UInt32) (nHeight : Nat) :
    climb nTransactions nHeight = heightFrom nTransactions.toNat nHeight := by
  fun_induction climb nTransactions nHeight with
  | case1 nHeight more ih =>
    have wide : 1 < widths nTransactions.toNat nHeight := more
    rw [ih, heightFrom.eq_1 _ nHeight, if_pos wide]
  | case2 nHeight ended =>
    have narrow : ¬ 1 < widths nTransactions.toNat nHeight := ended
    rw [heightFrom, if_neg narrow]

theorem read_written (tree : CPartialMerkleTree) (rest : Bytes)
    (hashes : tree.vHash.length ≤ maxSize) (bits : tree.vBits.length ≤ maxSize) :
    partialMerkleTree.read (partialMerkleTree.write tree ++ rest) =
      some (deserialised tree.nTransactions tree.vHash (packBits tree.vBits), rest) := by
  have size : (packBits tree.vBits).length ≤ maxSize := by
    simp [packBits, packFrom_length]
    omega
  have fits : partialMerkleTree.Fits tree :=
    ⟨⟨trivial, hashes, fun _ _ => trivial⟩, size, fun _ _ => trivial⟩
  have kept : partialMerkleTree.kept tree =
      deserialised tree.nTransactions tree.vHash (packBits tree.vBits) := by
    simp [partialMerkleTree, Codec.via, pair_kept, unsignedInt_lossless tree.nTransactions,
      list_lossless uint256_lossless tree.vHash, byteVector_lossless (packBits tree.vBits)]
  rw [partialMerkleTree.reads_back tree rest fits, kept]

theorem extractMatches_built {vTxid : List Uint256} {vMatch : List Bool} {root : Uint256}
    {newBits : List Bool} {tree : CPartialMerkleTree}
    (sized : tree.nTransactions.toNat = vTxid.length) (mask : vMatch.length = vTxid.length)
    (filled : vTxid ≠ []) (few : vTxid.length ≤ MAX_BLOCK_SIZE_CURRENT / 60)
    (top : level hashPair vTxid (treeHeight vTxid.length) = [root]) (good : tree.fBad = false)
    (bits : tree.vBits =
      newBits ++ List.replicate (8 * ((newBits.length + 7) / 8) - newBits.length) false)
    (node : Traversed hashPair tree.nTransactions vTxid vMatch (treeHeight vTxid.length) 0 newBits
      tree.vHash) :
    extractMatches hashPair tree = (root, matched (vTxid.zip vMatch)) := by
  have positive := List.length_pos_iff.mpr filled
  have some' : tree.nTransactions ≠ 0 := by
    intro zero
    simp only [zero, UInt32.toNat_zero] at sized
    omega
  have height : climb tree.nTransactions 0 = treeHeight vTxid.length := by
    rw [climb_heightFrom, sized, heightFrom_top (Nat.zero_le _)]
  have whole : under vTxid vMatch (treeHeight vTxid.length) 0 = vTxid.zip vMatch := by
    have enough : vTxid.length ≤ 2 ^ treeHeight vTxid.length := Nat.le_pow_clog (by decide) _
    simp [under, mask, enough]
  have leaves := node.leaves
  have leafCount : (vTxid.zip vMatch).length = vTxid.length := by simp [mask]
  rw [whole, leafCount] at leaves
  have hashes := node.hashes
  have size : tree.vBits.length = 8 * ((newBits.length + 7) / 8) := by
    simp [bits]
    omega
  have run := node.extracts tree [] _ [] [] [] root rfl bits (by simp) (by rw [top]; rfl)
  simp only [List.length_nil, List.nil_append, whole] at run
  unfold extractMatches
  rw [if_neg some', if_neg (by omega), if_neg (by omega), if_neg (by omega), height, good, run]
  dsimp only
  rw [if_neg (by decide), if_neg (by omega), if_neg (by simp)]

/-- A partial tree made from a block's transactions gives, sent and read again, the root of the
    block and the matched transactions in order. -/
theorem partialMerkleTree_trip (hashPair : Uint256 → Uint256 → Uint256)
    (txHash : CTransaction → Uint256) (vtx : List CTransaction) (vMatch : List Bool)
    (filled : vtx ≠ []) (few : vtx.length ≤ MAX_BLOCK_SIZE_CURRENT / 60)
    (mask : vMatch.length = vtx.length) :
    ∃ tree, fromTxids hashPair (vtx.map txHash) vMatch = some tree ∧
      ∀ rest, ∃ loaded,
        partialMerkleTree.read (partialMerkleTree.write tree ++ rest) = some (loaded, rest) ∧
          extractMatches hashPair loaded = ((buildMerkleTree hashPair txHash vtx).1,
            matched ((vtx.map txHash).zip vMatch)) := by
  have limit : MAX_BLOCK_SIZE_CURRENT / 60 = 33333 := rfl
  have length : (vtx.map txHash).length = vtx.length := List.length_map txHash
  have sized : (UInt32.ofNat (vtx.map txHash).length).toNat = (vtx.map txHash).length := by
    rw [UInt32.toNat_ofNat']
    omega
  have masked : vMatch.length = (vtx.map txHash).length := mask.trans length.symm
  have some' : vtx.map txHash ≠ [] := by simpa using filled
  have top := (buildMerkleTree_levels hashPair txHash filled).1
  obtain ⟨newBits, newHashes, node⟩ := @traversed hashPair _ _ _ _ 0 _ sized masked
    (by rw [top]; rfl)
  have height : climb (UInt32.ofNat (vtx.map txHash).length) 0 =
      treeHeight (vtx.map txHash).length := by
    rw [climb_heightFrom, sized, heightFrom_top (Nat.zero_le _)]
  have low : treeHeight (vtx.map txHash).length ≤ 16 :=
    Nat.clog_le_of_le_pow (by rw [length]; omega)
  have bitsFew : newBits.length < 2 ^ 17 :=
    Nat.lt_of_lt_of_le node.bits (Nat.pow_le_pow_right (by decide) (by omega))
  have hashesFew := node.hashes
  have large : maxSize = 0x02000000 := rfl
  refine ⟨⟨UInt32.ofNat (vtx.map txHash).length, newBits, newHashes, false⟩, ?_, fun rest =>
    ⟨_, read_written _ rest (by show newHashes.length ≤ maxSize; omega)
      (by show newBits.length ≤ maxSize; omega), ?_⟩⟩
  · unfold fromTxids
    dsimp only
    rw [height, node.builds]
    rfl
  · exact extractMatches_built sized masked some' (by omega) top rfl (bitsOf_packBits newBits) node

theorem two_of_three_trip :
    ∃ tree, fromTxids samplePair [1, 2, 3] [true, false, true] = some tree ∧
      ∀ rest, ∃ loaded,
        partialMerkleTree.read (partialMerkleTree.write tree ++ rest) = some (loaded, rest) ∧
          extractMatches samplePair loaded =
            ((buildMerkleTree samplePair labelMachinery.txHash
              [sampleTx 0, sampleTx 1, sampleTx 2]).1, [1, 3]) :=
  partialMerkleTree_trip samplePair labelMachinery.txHash [sampleTx 0, sampleTx 1, sampleTx 2]
    [true, false, true] (by decide) (by decide) rfl

end Trips

end OxidMerkleRoundTrip
