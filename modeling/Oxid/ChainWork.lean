import Mathlib.Data.List.Chain
import Mathlib.Order.Defs.LinearOrder
import Oxid.BaseUint

/-!
The work of a block, and the work of chains as `AddToBlockIndex` sums it up, in 256-bit
numbers.
-/
namespace OxidChainWork
open OxidPrimitives OxidBaseUint

def getBlockProof (nBits : UInt32) : Option Uint256Limbs :=
  let decoded := setCompact nBits
  let bnTarget := decoded.value
  if decoded.fNegative || decoded.fOverflow || bnTarget.equalTo 0 then some .zero
  else (bnTarget.complement.divide (bnTarget.add (.ofUInt64 1))).map fun work =>
    work.add (.ofUInt64 1)

/-- The guard of `GetBlockProof`: bits that decode without error. -/
structure ValidBits (nBits : UInt32) : Prop where
  nonnegative : (setCompact nBits).fNegative = false
  inRange : (setCompact nBits).fOverflow = false
  nonzero : (setCompact nBits).value.value ≠ 0

def target (nBits : UInt32) : Nat := (setCompact nBits).value.value

instance (nBits : UInt32) : Decidable (ValidBits nBits) :=
  decidable_of_iff ((setCompact nBits).fNegative = false ∧ (setCompact nBits).fOverflow = false ∧
    (setCompact nBits).value.value ≠ 0)
    ⟨fun parts => ⟨parts.1, parts.2.1, parts.2.2⟩,
      fun valid => ⟨valid.nonnegative, valid.inRange, valid.nonzero⟩⟩

def exactWork (nBits : UInt32) : Nat :=
  if ValidBits nBits then 2 ^ 256 / (target nBits + 1) else 0

section Proof

theorem target_lt (nBits : UInt32) : target nBits + 1 < 2 ^ 256 := by
  unfold target
  have short : nBits.toNat % 2 ^ 23 < 2 ^ 23 := Nat.mod_lt _ (by decide)
  rw [(setCompact_value nBits).1]
  change CompactNumber.place (nBits.toNat % 2 ^ 23) (nBits.toNat / 2 ^ 24) % 2 ^ 256 + 1 < 2 ^ 256
  generalize nBits.toNat % 2 ^ 23 = m at short ⊢
  unfold CompactNumber.place
  split
  · rename_i small
    have less := Nat.div_le_self m (256 ^ (3 - nBits.toNat / 2 ^ 24))
    generalize m / 256 ^ (3 - nBits.toNat / 2 ^ 24) = digits at less ⊢
    omega
  · rename_i large
    have whole : m * 256 ^ (nBits.toNat / 2 ^ 24 - 3) =
        256 * (m * 256 ^ (nBits.toNat / 2 ^ 24 - 4)) := by
      rw [show nBits.toNat / 2 ^ 24 - 3 = nBits.toNat / 2 ^ 24 - 4 + 1 by omega, pow_succ]
      ring
    omega

theorem floor_work {t : Nat} (positive : t ≠ 0) (below : t + 1 < 2 ^ 256) :
    ((2 ^ 256 - 1 - t) / (t + 1) + 1) % 2 ^ 256 = 2 ^ 256 / (t + 1) := by
  have split : 2 ^ 256 = 2 ^ 256 - 1 - t + (t + 1) := by omega
  have exact : 2 ^ 256 / (t + 1) = (2 ^ 256 - 1 - t) / (t + 1) + 1 := by
    conv_lhs => rw [split]
    rw [Nat.add_div_right _ (Nat.succ_pos t)]
  have half : 2 ^ 256 / (t + 1) ≤ 2 ^ 256 / 2 := Nat.div_le_div_left (by omega) (by decide)
  rw [← exact, Nat.mod_eq_of_lt (by omega)]

theorem guard_iff (nBits : UInt32) :
    ((setCompact nBits).fNegative || (setCompact nBits).fOverflow ||
      (setCompact nBits).value.equalTo 0) = false ↔ ValidBits nBits := by
  have zero := (setCompact nBits).value.equalTo_iff 0
  rw [Bool.or_eq_false_iff, Bool.or_eq_false_iff, ← Bool.not_eq_true ((setCompact nBits).value.equalTo 0),
    zero]
  exact ⟨fun parts => ⟨parts.1.1, parts.1.2, parts.2⟩,
    fun valid => ⟨⟨valid.nonnegative, valid.inRange⟩, valid.nonzero⟩⟩

theorem getBlockProof_spec (nBits : UInt32) :
    ∃ work, getBlockProof nBits = some work ∧ work.value = exactWork nBits := by
  unfold getBlockProof exactWork
  dsimp only
  by_cases valid : ValidBits nBits
  · have below := target_lt nBits
    have next : ((setCompact nBits).value.add (.ofUInt64 1)).value = target nBits + 1 := by
      rw [BaseUint.value_add, BaseUint.value_ofUInt64]
      exact Nat.mod_eq_of_lt below
    have flipped : (setCompact nBits).value.complement.value = 2 ^ 256 - 1 - target nBits := by
      have whole := (setCompact nBits).value.value_complement
      unfold target
      omega
    obtain ⟨quotient, divided, exact⟩ := (BaseUint.divide_spec (setCompact nBits).value.complement
      ((setCompact nBits).value.add (.ofUInt64 1))).2 (by rw [next]; exact Nat.succ_ne_zero _)
    rw [(guard_iff nBits).mpr valid, if_neg Bool.false_ne_true, if_pos valid, divided]
    refine ⟨_, rfl, ?_⟩
    rw [BaseUint.value_add, BaseUint.value_ofUInt64, exact, flipped, next]
    exact floor_work valid.nonzero below
  · have guard := mt (guard_iff nBits).mp valid
    rw [Bool.not_eq_false] at guard
    rw [if_pos guard, if_neg valid]
    exact ⟨.zero, rfl, BaseUint.value_zero⟩

theorem exactWork_lt (nBits : UInt32) : exactWork nBits < 2 ^ 256 := by
  obtain ⟨work, -, exact⟩ := getBlockProof_spec nBits
  rw [← exact]
  exact work.value_lt

theorem exactWork_pos {nBits : UInt32} (valid : ValidBits nBits) : 1 ≤ exactWork nBits := by
  have below := target_lt nBits
  unfold exactWork
  rw [if_pos valid]
  exact (Nat.one_le_div_iff (Nat.succ_pos _)).mpr (le_of_lt below)

theorem exactWork_antitone {low high : UInt32} (valid : ValidBits low)
    (le : target low ≤ target high) : exactWork high ≤ exactWork low := by
  unfold exactWork
  split
  · exact Nat.div_le_div_left (Nat.succ_le_succ le) (Nat.succ_pos _)
  · exact Nat.zero_le _

end Proof

structure CBlockIndex where
  hashBlock : Uint256
  pprev : Option Nat
  nBits : UInt32
  nChainWork : Uint256Limbs
deriving DecidableEq

/-- The block index: its entries at the places where they were put, and the best header. -/
structure BlockIndex where
  entries : List CBlockIndex
  pindexBestHeader : Option Nat

namespace BlockIndex

def find (entries : List CBlockIndex) (hash : Uint256) : Option Nat :=
  entries.findIdx? fun entry => entry.hashBlock == hash

def nChainWork (entries : List CBlockIndex) (pindex : Option Nat) : Uint256Limbs :=
  ((pindex.bind (entries[·]?)).map CBlockIndex.nChainWork).getD .zero

end BlockIndex

open BlockIndex

/-- `AddToBlockIndex`, with the place of the block's entry. The parent is looked up when the new
    entry is in the map, with a chain work of zero. -/
def addToBlockIndex (blockHash : CBlockHeader → Uint256) (block : CBlockHeader)
    (index : BlockIndex) : Option (BlockIndex × Nat) :=
  let hash := blockHash block
  match find index.entries hash with
  | some pindex => some (index, pindex)
  | none =>
    let pindexNew := index.entries.length
    let inserted := index.entries ++ [⟨hash, none, block.nBits, .zero⟩]
    let pprev := find inserted block.hashPrevBlock
    (getBlockProof block.nBits).map fun proof =>
      let work := (nChainWork inserted pprev).add proof
      let best := match index.pindexBestHeader with
        | none => pindexNew
        | some best => if (nChainWork inserted (some best)).compareTo work < 0 then pindexNew else best
      (⟨index.entries ++ [⟨hash, pprev, block.nBits, work⟩], some best⟩, pindexNew)

inductive Grown (blockHash : CBlockHeader → Uint256) : BlockIndex → Prop
  | empty : Grown blockHash ⟨[], none⟩
  | add {index index' : BlockIndex} {block : CBlockHeader} {pindex : Nat}
      (grown : Grown blockHash index)
      (added : addToBlockIndex blockHash block index = some (index', pindex)) :
      Grown blockHash index'

theorem addToBlockIndex_some (blockHash : CBlockHeader → Uint256) (block : CBlockHeader)
    (index : BlockIndex) : ∃ result, addToBlockIndex blockHash block index = some result := by
  unfold addToBlockIndex
  dsimp only
  split
  · exact ⟨_, rfl⟩
  · obtain ⟨work, proof, -⟩ := getBlockProof_spec block.nBits
    rw [proof]
    exact ⟨_, rfl⟩

section Chains

def pprev (entries : List CBlockIndex) (pindex : Nat) : Option Nat :=
  entries[pindex]?.bind CBlockIndex.pprev

def work (entries : List CBlockIndex) (pindex : Nat) : Nat :=
  (nChainWork entries (some pindex)).value

def nBits (entries : List CBlockIndex) (pindex : Nat) : UInt32 :=
  (entries[pindex]?.map CBlockIndex.nBits).getD 0

/-- Every entry has its parent's work and its own, and the best header has no less work than
    any. -/
structure Worked (index : BlockIndex) : Prop where
  inside : ∀ pindex parent, pprev index.entries pindex = some parent → parent ≤ pindex
  summed : ∀ pindex parent, pprev index.entries pindex = some parent → parent ≠ pindex →
    work index.entries pindex =
      (work index.entries parent + exactWork (nBits index.entries pindex)) % 2 ^ 256
  rooted : ∀ pindex < index.entries.length, pprev index.entries pindex = none →
    work index.entries pindex = exactWork (nBits index.entries pindex)
  header : ∀ best, index.pindexBestHeader = some best → best < index.entries.length
  most : ∀ pindex < index.entries.length, ∃ best, index.pindexBestHeader = some best ∧
    work index.entries pindex ≤ work index.entries best

section Append

variable (entries : List CBlockIndex) (entry : CBlockIndex)

theorem old_entry {pindex : Nat} (old : pindex < entries.length) :
    pprev (entries ++ [entry]) pindex = pprev entries pindex ∧
      work (entries ++ [entry]) pindex = work entries pindex ∧
      nBits (entries ++ [entry]) pindex = nBits entries pindex := by
  have same : (entries ++ [entry])[pindex]? = entries[pindex]? := List.getElem?_append_left old
  unfold pprev work nBits nChainWork
  simp [same]

theorem new_entry :
    pprev (entries ++ [entry]) entries.length = entry.pprev ∧
      work (entries ++ [entry]) entries.length = entry.nChainWork.value ∧
      nBits (entries ++ [entry]) entries.length = entry.nBits := by
  unfold pprev work nBits nChainWork
  simp

theorem pprev_inside {entries : List CBlockIndex} {pindex parent : Nat}
    (linked : pprev entries pindex = some parent) : pindex < entries.length := by
  obtain ⟨found, there, -⟩ := Option.bind_eq_some_iff.mp linked
  exact (List.getElem?_eq_some_iff.mp there).1

end Append

structure Fits (index : BlockIndex) (entry : CBlockIndex) (best : Nat) : Prop where
  inside : ∀ parent, entry.pprev = some parent → parent ≤ index.entries.length
  summed : ∀ parent, entry.pprev = some parent → parent < index.entries.length →
    entry.nChainWork.value = (work index.entries parent + exactWork entry.nBits) % 2 ^ 256
  rooted : entry.pprev = none → entry.nChainWork.value = exactWork entry.nBits
  best : best = index.entries.length ∧
      (∀ old, index.pindexBestHeader = some old → work index.entries old ≤ entry.nChainWork.value) ∨
    index.pindexBestHeader = some best ∧ entry.nChainWork.value ≤ work index.entries best

variable {blockHash : CBlockHeader → Uint256} {index : BlockIndex}

theorem worked_append {entry : CBlockIndex} {best : Nat} (worked : Worked index)
    (fits : Fits index entry best) :
    Worked ⟨index.entries ++ [entry], some best⟩ := by
  obtain ⟨newParent, newWork, newBits⟩ := new_entry index.entries entry
  have split {pindex : Nat} (within : pindex < (index.entries ++ [entry]).length) :
      pindex < index.entries.length ∨ pindex = index.entries.length := by
    rw [List.length_append, List.length_singleton] at within
    omega
  constructor
  · intro pindex parent linked
    rcases split (pprev_inside linked) with old | rfl
    · rw [(old_entry index.entries entry old).1] at linked
      exact worked.inside pindex parent linked
    · rw [newParent] at linked
      exact fits.inside parent linked
  · intro pindex parent linked apart
    rcases split (pprev_inside linked) with old | rfl
    · obtain ⟨sameParent, sameWork, sameBits⟩ := old_entry index.entries entry old
      rw [sameParent] at linked
      have older := lt_of_le_of_lt (worked.inside pindex parent linked) old
      rw [sameWork, sameBits, (old_entry index.entries entry older).2.1]
      exact worked.summed pindex parent linked apart
    · rw [newParent] at linked
      have older := lt_of_le_of_ne (fits.inside parent linked) apart
      rw [newWork, newBits, (old_entry index.entries entry older).2.1]
      exact fits.summed parent linked older
  · intro pindex within root
    rcases split within with old | rfl
    · obtain ⟨sameParent, sameWork, sameBits⟩ := old_entry index.entries entry old
      rw [sameParent] at root
      rw [sameWork, sameBits]
      exact worked.rooted pindex old root
    · rw [newParent] at root
      rw [newWork, newBits]
      exact fits.rooted root
  · intro top same
    obtain rfl := Option.some.inj same
    rw [List.length_append, List.length_singleton]
    rcases fits.best with ⟨rfl, -⟩ | ⟨header, -⟩
    · exact Nat.lt_succ_self _
    · exact Nat.lt_succ_of_lt (worked.header best header)
  · intro pindex within
    refine ⟨best, rfl, ?_⟩
    rcases fits.best with ⟨rfl, above⟩ | ⟨header, below⟩
    · rw [newWork]
      rcases split within with old | rfl
      · obtain ⟨top, header, most⟩ := worked.most pindex old
        rw [(old_entry index.entries entry old).2.1]
        exact most.trans (above top header)
      · exact le_of_eq newWork
    · rw [(old_entry index.entries entry (worked.header best header)).2.1]
      rcases split within with old | rfl
      · obtain ⟨top, same, most⟩ := worked.most pindex old
        rw [header] at same
        obtain rfl := Option.some.inj same
        rw [(old_entry index.entries entry old).2.1]
        exact most
      · rw [newWork]
        exact below

theorem addToBlockIndex_cases {block : CBlockHeader} {index index' : BlockIndex} {pindex : Nat}
    (worked : Worked index) (added : addToBlockIndex blockHash block index = some (index', pindex))
    :
    index' = index ∨ ∃ entry best, index' = ⟨index.entries ++ [entry], some best⟩ ∧
      entry.nBits = block.nBits ∧ Fits index entry best := by
  unfold addToBlockIndex at added
  dsimp only at added
  split at added
  · rw [Option.some.injEq, Prod.mk.injEq] at added
    exact Or.inl added.1.symm
  · obtain ⟨proof, proved, exact⟩ := getBlockProof_spec block.nBits
    rw [proved, Option.map_some, Option.some.injEq, Prod.mk.injEq] at added
    refine Or.inr ⟨_, _, added.1.symm, rfl, ?_⟩
    -- The lookups see the new entry, whose work is still zero.
    have before {place : Nat} (old : place < index.entries.length) :
        (nChainWork (index.entries ++ [⟨blockHash block, none, block.nBits, .zero⟩])
          (some place)).value = work index.entries place :=
      (old_entry index.entries ⟨blockHash block, none, block.nBits, .zero⟩ old).2.1
    constructor
    · intro parent linked
      have within := (List.findIdx?_eq_some_iff_findIdx_eq.mp linked).1
      rw [List.length_append, List.length_singleton] at within
      exact Nat.le_of_lt_succ within
    · intro parent linked older
      dsimp only at linked ⊢
      rw [linked, BaseUint.value_add, exact, before older]
    · intro root
      dsimp only at root ⊢
      have nothing : (nChainWork (index.entries ++ [⟨blockHash block, none, block.nBits, .zero⟩])
          none).value = 0 := BaseUint.value_zero
      rw [root, BaseUint.value_add, exact, nothing, Nat.zero_add]
      exact Nat.mod_eq_of_lt (exactWork_lt block.nBits)
    · dsimp only
      cases header : index.pindexBestHeader with
      | none => exact Or.inl ⟨rfl, nofun⟩
      | some best =>
        have old := before (worked.header best header)
        dsimp only
        split
        · rename_i less
          have more := mt (BaseUint.compareTo_nonneg _ _).mpr (not_le.mpr less)
          rw [not_le, old] at more
          refine Or.inl ⟨rfl, fun other same => ?_⟩
          obtain rfl := Option.some.inj same
          exact le_of_lt more
        · rename_i nonneg
          have most := (BaseUint.compareTo_nonneg _ _).mp (not_lt.mp nonneg)
          rw [old] at most
          exact Or.inr ⟨rfl, most⟩

theorem grown_worked (grown : Grown blockHash index) : Worked index := by
  induction grown with
  | empty => exact ⟨nofun, nofun, nofun, nofun, nofun⟩
  | add _ added ih =>
    rcases addToBlockIndex_cases ih added with same | ⟨entry, best, same, -, fits⟩
    · exact same ▸ ih
    · exact same ▸ worked_append ih fits

def Chain (entries : List CBlockIndex) (chain : List Nat) : Prop :=
  chain.IsChain fun parent child => pprev entries child = some parent ∧ parent ≠ child

def exactSum (entries : List CBlockIndex) (first : Nat) (rest : List Nat) : Nat :=
  work entries first + (rest.map fun pindex => exactWork (nBits entries pindex)).sum

theorem chain_work (worked : Worked index) {first : Nat} {rest : List Nat}
    (chain : Chain index.entries (first :: rest))
    (fits : exactSum index.entries first rest < 2 ^ 256) :
    work index.entries ((first :: rest).getLast (List.cons_ne_nil _ _)) =
      exactSum index.entries first rest ∧
    ((∀ pindex ∈ rest, ValidBits (nBits index.entries pindex)) →
      ((first :: rest).map (work index.entries)).Pairwise (· < ·)) := by
  induction rest generalizing first with
  | nil => exact ⟨rfl, fun _ => List.pairwise_singleton _ _⟩
  | cons second rest ih =>
    obtain ⟨⟨linked, apart⟩, further⟩ := List.isChain_cons_cons.mp chain
    unfold exactSum at fits
    rw [List.map_cons, List.sum_cons] at fits
    have next : work index.entries second =
        work index.entries first + exactWork (nBits index.entries second) := by
      rw [worked.summed second first linked apart]
      exact Nat.mod_eq_of_lt (by omega)
    have same : exactSum index.entries first (second :: rest) =
        exactSum index.entries second rest := by
      unfold exactSum
      rw [List.map_cons, List.sum_cons, next, Nat.add_assoc]
    obtain ⟨last, grows⟩ := ih further (by unfold exactSum; omega)
    rw [same, List.getLast_cons (List.cons_ne_nil _ _)]
    refine ⟨last, fun valid => ?_⟩
    have higher := grows fun pindex member => valid pindex (List.mem_cons_of_mem _ member)
    have positive := exactWork_pos (valid second List.mem_cons_self)
    rw [List.map_cons, List.pairwise_cons]
    refine ⟨fun later member => ?_, higher⟩
    rw [List.map_cons, List.mem_cons] at member
    rw [List.map_cons, List.pairwise_cons] at higher
    rcases member with rfl | member
    · omega
    · have above := higher.1 later member
      omega

/-- The work of a target is the floor of 2^256 over the next number, and is at least one; along
    every path of an index, the chain works grow at each block with valid bits while the exact
    sum is a 256-bit number; and a lower target is no less work. -/
theorem chainWork_exact (blockHash : CBlockHeader → Uint256) :
    (∀ bits, ValidBits bits → ∃ proof, getBlockProof bits = some proof ∧
      proof.value = 2 ^ 256 / (target bits + 1) ∧ 1 ≤ proof.value) ∧
    (∀ index, Grown blockHash index → ∀ first rest, Chain index.entries (first :: rest) →
      (∀ pindex ∈ rest, ValidBits (nBits index.entries pindex)) →
      exactSum index.entries first rest < 2 ^ 256 →
      ((first :: rest).map (work index.entries)).Pairwise (· < ·)) ∧
    ∀ low high, ValidBits low → ValidBits high → target low ≤ target high →
      ∃ more less, getBlockProof low = some more ∧ getBlockProof high = some less ∧
        less.value ≤ more.value := by
  refine ⟨fun bits valid => ?_, fun index grown first rest chain valid fits => ?_,
    fun low high lowValid _ le => ?_⟩
  · obtain ⟨proof, proved, exact⟩ := getBlockProof_spec bits
    refine ⟨proof, proved, ?_, exact ▸ exactWork_pos valid⟩
    rw [exact, exactWork, if_pos valid]
  · exact (chain_work (grown_worked grown) chain fits).2 valid
  · obtain ⟨more, lowProved, lowExact⟩ := getBlockProof_spec low
    obtain ⟨less, highProved, highExact⟩ := getBlockProof_spec high
    refine ⟨more, less, lowProved, highProved, ?_⟩
    rw [lowExact, highExact]
    exact exactWork_antitone lowValid le

def easyHeader (nNonce : UInt32) (hashPrevBlock : Uint256) : CBlockHeader :=
  ⟨3, hashPrevBlock, 0, 0, 0x1e0ffff0, nNonce, 0⟩

def nonceHash (block : CBlockHeader) : Uint256 := block.nNonce.toBitVec.setWidth 256

theorem easy_valid : ValidBits 0x1e0ffff0 := by
  obtain ⟨-, negative, overflow⟩ := setCompact_value 0x1e0ffff0
  refine ⟨negative.trans (by decide), overflow.trans (by decide), ?_⟩
  change target 0x1e0ffff0 ≠ 0
  decide

theorem easy_grown : ∃ index, Grown nonceHash index ∧ Chain index.entries [0, 1] ∧
    nBits index.entries 0 = 0x1e0ffff0 ∧ nBits index.entries 1 = 0x1e0ffff0 ∧
    pprev index.entries 0 = none ∧ 0 < index.entries.length := by
  obtain ⟨proof, proved, -⟩ := getBlockProof_spec 0x1e0ffff0
  have first : addToBlockIndex nonceHash (easyHeader 1 0) ⟨[], none⟩ =
      some (⟨[⟨1, none, 0x1e0ffff0, BaseUint.zero.add proof⟩], some 0⟩, 0) := by
    unfold addToBlockIndex
    dsimp only [easyHeader]
    rw [proved]
    rfl
  have grown := Grown.add Grown.empty first
  obtain ⟨⟨index, pindex⟩, second⟩ := addToBlockIndex_some nonceHash (easyHeader 2 1)
    ⟨[⟨1, none, 0x1e0ffff0, BaseUint.zero.add proof⟩], some 0⟩
  have both := Grown.add grown second
  unfold addToBlockIndex at second
  dsimp only [easyHeader] at second
  cases second
  exact ⟨_, both, List.isChain_cons_cons.mpr ⟨⟨rfl, by decide⟩, List.isChain_singleton _⟩,
    rfl, rfl, rfl, Nat.succ_pos _⟩

theorem easy_chain_grows :
    (∃ proof, getBlockProof 0x1e0ffff0 = some proof ∧
      proof.value = 2 ^ 256 / (target 0x1e0ffff0 + 1) ∧ 1 ≤ proof.value) ∧
    ∃ index, Grown nonceHash index ∧ Chain index.entries [0, 1] ∧
      ([0, 1].map (work index.entries)).Pairwise (· < ·) := by
  refine ⟨(chainWork_exact nonceHash).1 0x1e0ffff0 easy_valid, ?_⟩
  obtain ⟨index, grown, chain, root, next, top, inside⟩ := easy_grown
  have half : exactWork 0x1e0ffff0 < 2 ^ 255 := by
    unfold exactWork
    decide
  have first := (grown_worked grown).rooted 0 inside top
  refine ⟨index, grown, chain, (chainWork_exact nonceHash).2.1 index grown 0 [1] chain ?_ ?_⟩
  · intro pindex member
    rw [List.mem_singleton.mp member, next]
    exact easy_valid
  · unfold exactSum
    rw [first, root, List.map_singleton, List.sum_singleton, next]
    omega

end Chains

end OxidChainWork
