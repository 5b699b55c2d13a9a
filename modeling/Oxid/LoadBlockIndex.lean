import Oxid.Library.SortedBy
import Oxid.BlockValidity

/-!
What `LoadBlockIndexDB` does after an unclean shutdown: blocks picked from the height-sorted
block index are applied to the coins again.
-/
namespace OxidLoadBlockIndex
open OxidPrimitives OxidCoins OxidUtxoView OxidDisconnectBlock OxidChainParams
open OxidBlockValidity (viewOver)
open SortedBy

/-- A `CBlockIndex*`: an entry and where it lies in memory. -/
structure IndexEntry where
  address : Nat
  index : CBlockIndex

/-- The order of `pair<int, CBlockIndex*>`. -/
def heightAndPointer (entry : IndexEntry) : Int ×ₗ Nat :=
  toLex (entry.index.nHeight, entry.address)

/-- What the recovery reads: the node's functions, the flags, the block index, the
    height of the last block file and the coins database. -/
structure StartupState where
  txHash : CTransaction → Uint256
  blockHash : CBlockHeader → Uint256
  /-- What lies at an entry's position in the block files, its header checked. -/
  readBlockAt : CBlockIndex → Option CBlock
  fLastShutdownWasPrepared : Bool
  forceStart : Bool
  reindex : Bool
  mapBlockIndex : List IndexEntry
  nHeightLast : UInt32
  coinsTip : Uint256 → Option CCoins
  coinsBestBlock : Uint256

inductive Recovery where
  | unneeded
  | refused (strError : String)
  /-- An assertion of `UpdateCoins`, or an exception for a block without transactions. -/
  | aborted
  | outOfRange
  | recovered (view : UtxoView) (replayed : List IndexEntry)

namespace StartupState
variable (state : StartupState)

def vSortedByHeight : List IndexEntry := sortBy heightAndPointer state.mapBlockIndex

def nHeightLastBlockFile : Nat := (state.nHeightLast + 1).toNat

def readBlockFromDisk (pindex : IndexEntry) : Option CBlock :=
  (state.readBlockAt pindex.index).filter fun block =>
    state.blockHash block.toCBlockHeader == pindex.index.hash

/-- One turn's `UpdateCoins` on each transaction, `SetBestBlock` after each. -/
def updateWithBlock (pindex : IndexEntry) (block : CBlock) (view : UtxoView) : Option UtxoView :=
  if block.vtx = [] then none
  else (applyTxs state.txHash (Int32.ofInt pindex.index.nHeight) block.vtx view).map fun done =>
    done.1.setBestBlock (state.blockHash block.toCBlockHeader)

/-- The loop at an entry, with the sorted entries after the current position. -/
def replay (pindexLastMeta : IndexEntry) : List IndexEntry → IndexEntry → UtxoView →
    List IndexEntry → Recovery
  | rest, pindex, view, replayed =>
    match state.readBlockFromDisk pindex with
    | none => .refused "The wallet has been not been closed gracefully and has caused corruption of blocks stored to disk. Data directory is in an unusable state"
    | some block =>
      match state.updateWithBlock pindex block view with
      | none => .aborted
      | some updated =>
        if pindexLastMeta.index.nHeight ≤ pindex.index.nHeight then
          .recovered updated (replayed ++ [pindex])
        else
          match rest with
          | [] => .outOfRange
          | next :: later => replay pindexLastMeta later next updated (replayed ++ [pindex])

/-- Where the loop starts: the first entry of a height, or else the first entry of all
    with the position at the last one. -/
def startAt (nHeight : Int) (sorted : List IndexEntry) : Option (IndexEntry × List IndexEntry) :=
  match sorted.dropWhile fun entry => entry.index.nHeight != nHeight with
  | pindex :: rest => some (pindex, rest)
  | [] => sorted.head?.map fun first => (first, [])

def recover : Recovery :=
  if state.fLastShutdownWasPrepared || state.forceStart || state.reindex then .unneeded
  else
    match state.vSortedByHeight[state.nHeightLastBlockFile]? with
    | none => .unneeded
    | some pindexLastMeta =>
      if state.coinsBestBlock = pindexLastMeta.index.hash then .unneeded
      else
        match state.mapBlockIndex.find? fun entry => entry.index.hash == state.coinsBestBlock with
        | none => .refused "The wallet has been not been closed gracefully, causing the transaction database to be out of sync with the block database"
        | some best =>
          match startAt (best.index.nHeight + 1) state.vSortedByHeight with
          | none => .outOfRange
          | some (pindex, rest) =>
            state.replay pindexLastMeta rest pindex
              (viewOver state.coinsTip state.coinsBestBlock) []

def Applied : List IndexEntry → UtxoView → UtxoView → Prop
  | [], view, final => final = view
  | pindex :: rest, view, final => ∃ block updated, state.readBlockFromDisk pindex = some block ∧
      state.updateWithBlock pindex block view = some updated ∧ Applied rest updated final

/-- The entries form a tree: told apart by hash and by address, and every one of them
    a root or above its parent. -/
structure IndexTree : Prop where
  hash_apart : ∀ a ∈ state.mapBlockIndex, ∀ b ∈ state.mapBlockIndex,
    a.index.hash = b.index.hash → a = b
  address_apart : (state.mapBlockIndex.map IndexEntry.address).Nodup
  parent : ∀ a ∈ state.mapBlockIndex, (a.index.pprev = none ∧ a.index.nHeight = 0) ∨
    ∃ b ∈ state.mapBlockIndex, a.index.pprev = some b.index.hash ∧
      a.index.nHeight = b.index.nHeight + 1

structure ChainOf (chain : List IndexEntry) : Prop where
  indexed : ∀ entry ∈ chain, entry ∈ state.mapBlockIndex
  height : ∀ (place : Nat) (entry : IndexEntry), chain[place]? = some entry →
    entry.index.nHeight = place
  linked : ∀ (place : Nat) (parent entry : IndexEntry), chain[place]? = some parent →
    chain[place + 1]? = some entry → entry.index.pprev = some parent.index.hash

def recordedTip (chain : List IndexEntry) : Nat :=
  min state.nHeightLastBlockFile (chain.length - 1)

/-- The blocks of the chain after a height, up to the recorded tip. -/
def missing (chain : List IndexEntry) (place : Nat) : List IndexEntry :=
  (chain.take (state.recordedTip chain + 1)).drop (place + 1)

/-- The coins are left as they are, or some blocks were applied to them. -/
def Replays (entries : List IndexEntry) : Prop :=
  (entries = [] ∧ state.recover = .unneeded) ∨
    ∃ final, state.recover = .recovered final entries ∧
      state.Applied entries (viewOver state.coinsTip state.coinsBestBlock) final

variable {state : StartupState} {last pindex : IndexEntry} {entry : IndexEntry}
variable {passed rest : List IndexEntry} {a b : IndexEntry} {tip : IndexEntry} {nHeight : Int}

theorem replay_recovered {rest replayed entries : List IndexEntry} {view final : UtxoView}
    (run : state.replay last rest pindex view replayed = .recovered final entries) :
    ∃ earlier reached later, pindex :: rest = earlier ++ reached :: later ∧
      entries = replayed ++ (earlier ++ [reached]) ∧
      (∀ entry ∈ earlier, entry.index.nHeight < last.index.nHeight) ∧
      last.index.nHeight ≤ reached.index.nHeight ∧
      state.Applied (earlier ++ [reached]) view final := by
  induction rest generalizing pindex view replayed with
  | nil =>
    unfold replay at run
    split at run
    · cases run
    · rename_i block read
      split at run
      · cases run
      · rename_i updated applied
        split at run
        · rename_i high
          cases run
          exact ⟨[], pindex, [], rfl, rfl, by simp, high, block, _, read, applied, rfl⟩
        · cases run
  | cons next later ih =>
    unfold replay at run
    split at run
    · cases run
    · rename_i block read
      split at run
      · cases run
      · rename_i updated applied
        split at run
        · rename_i high
          cases run
          exact ⟨[], pindex, next :: later, rfl, rfl, by simp, high, block, _, read, applied, rfl⟩
        · rename_i low
          obtain ⟨earlier, reached, after, split, logged, below, high, onward⟩ := ih run
          refine ⟨pindex :: earlier, reached, after, by rw [split]; rfl, ?_, ?_, high,
            block, updated, read, applied, onward⟩
          · rw [logged, List.append_assoc, List.singleton_append, List.cons_append]
          · intro entry member
            rcases List.mem_cons.mp member with same | among
            · rw [same]
              exact not_le.mp low
            · exact below entry among

theorem replay_stretch {last reached pindex : IndexEntry}
    {earlier later rest replayed : List IndexEntry} {view final : UtxoView}
    (split : pindex :: rest = earlier ++ reached :: later)
    (below : ∀ entry ∈ earlier, entry.index.nHeight < last.index.nHeight)
    (high : last.index.nHeight ≤ reached.index.nHeight)
    (applied : state.Applied (earlier ++ [reached]) view final) :
    state.replay last rest pindex view replayed =
      .recovered final (replayed ++ (earlier ++ [reached])) := by
  induction earlier generalizing pindex rest view replayed with
  | nil =>
    obtain ⟨same, -⟩ := List.cons.inj split
    subst same
    obtain ⟨block, updated, read, update, ended⟩ := applied
    cases ended
    unfold replay
    rw [read]
    dsimp only
    rw [update]
    dsimp only
    rw [if_pos high, List.nil_append]
  | cons first others ih =>
    obtain ⟨same, onward⟩ := List.cons.inj split
    subst same
    obtain ⟨block, updated, read, update, ended⟩ := applied
    have low : ¬last.index.nHeight ≤ pindex.index.nHeight :=
      not_le.mpr (below pindex List.mem_cons_self)
    cases rest with
    | nil => simp at onward
    | cons next after =>
      unfold replay
      rw [read]
      dsimp only
      rw [update]
      dsimp only
      rw [if_neg low, ih onward (fun entry among => below entry (List.mem_cons_of_mem _ among))
        ended, List.append_assoc, List.singleton_append, List.cons_append]

theorem replay_runs {rest replayed : List IndexEntry} {view : UtxoView} :
    state.replay last rest pindex view replayed ≠ .unneeded := by
  intro run
  induction rest generalizing pindex view replayed with
  | nil =>
    unfold replay at run
    split at run
    · cases run
    · split at run
      · cases run
      · split at run <;> cases run
  | cons next later ih =>
    unfold replay at run
    split at run
    · cases run
    · split at run
      · cases run
      · split at run
        · cases run
        · exact ih run

theorem IndexTree.keys_apart (tree : state.IndexTree) :
    (state.mapBlockIndex.map heightAndPointer).Nodup := by
  apply List.Nodup.of_map fun key => (ofLex key).2
  rw [List.map_map]
  exact tree.address_apart

theorem IndexTree.key_inj (tree : state.IndexTree) (inA : a ∈ state.mapBlockIndex)
    (inB : b ∈ state.mapBlockIndex) (same : heightAndPointer a = heightAndPointer b) : a = b :=
  List.inj_on_of_nodup_map tree.keys_apart inA inB same

theorem sorted_ascending (tree : state.IndexTree) :
    state.vSortedByHeight.Pairwise fun a b => heightAndPointer a < heightAndPointer b :=
  sortBy_ascending tree.keys_apart

theorem mem_sorted :
    entry ∈ state.vSortedByHeight ↔ entry ∈ state.mapBlockIndex := mem_sortBy

theorem before_iff : heightAndPointer a < heightAndPointer b ↔
    a.index.nHeight < b.index.nHeight ∨
      a.index.nHeight = b.index.nHeight ∧ a.address < b.address := by
  rw [heightAndPointer, heightAndPointer, Prod.Lex.toLex_lt_toLex]

theorem startAt_split {pindex : IndexEntry}
    (lower : ∀ entry ∈ passed, entry.index.nHeight ≠ nHeight)
    (height : pindex.index.nHeight = nHeight) :
    startAt nHeight (passed ++ pindex :: rest) = some (pindex, rest) := by
  unfold startAt
  rw [List.dropWhile_append_of_pos (by simpa using lower),
    List.dropWhile_cons_of_neg (by simp [height])]

theorem startAt_found {sorted : List IndexEntry} (member : entry ∈ sorted)
    (height : entry.index.nHeight = nHeight) :
    ∃ passed pindex rest, sorted = passed ++ pindex :: rest ∧ pindex.index.nHeight = nHeight ∧
      (∀ earlier ∈ passed, earlier.index.nHeight ≠ nHeight) ∧
      startAt nHeight sorted = some (pindex, rest) := by
  cases first : sorted.find? fun other => other.index.nHeight == nHeight with
  | none =>
    have absent := List.find?_eq_none.mp first entry member
    simp [height] at absent
  | some pindex =>
    obtain ⟨here, passed, rest, split, lower⟩ := List.find?_eq_some_iff_append.mp first
    have lower' : ∀ earlier ∈ passed, earlier.index.nHeight ≠ nHeight := by
      simpa using lower
    refine ⟨passed, pindex, rest, split, by simpa using here, lower', ?_⟩
    rw [split]
    exact startAt_split lower' (by simpa using here)

variable {chain : List IndexEntry} {place : Nat} {best : IndexEntry}

theorem ChainOf.mem_iff (shape : state.ChainOf chain) (member : entry ∈ chain) :
    chain[entry.index.nHeight.toNat]? = some entry ∧ 0 ≤ entry.index.nHeight := by
  obtain ⟨at', bound, here⟩ := List.getElem_of_mem member
  have found : chain[at']? = some entry := List.getElem?_eq_some_iff.mpr ⟨bound, here⟩
  have height := shape.height at' entry found
  refine ⟨?_, by omega⟩
  rw [height, Int.toNat_natCast]
  exact found

theorem recordedTip_lt (state : StartupState) (inChain : chain[place]? = some best) :
    state.recordedTip chain < chain.length := by
  obtain ⟨bound, -⟩ := List.getElem?_eq_some_iff.mp inChain
  unfold recordedTip
  omega

theorem length_missing (state : StartupState) (inChain : chain[place]? = some best) :
    (state.missing chain place).length = state.recordedTip chain - place := by
  have tip := recordedTip_lt state inChain
  simp only [missing, List.length_drop, List.length_take]
  omega

theorem mem_missing (shape : state.ChainOf chain) :
    entry ∈ state.missing chain place ↔ entry ∈ chain ∧ (place : Int) < entry.index.nHeight ∧
      entry.index.nHeight ≤ state.recordedTip chain := by
  constructor
  · intro member
    obtain ⟨at', bound, here⟩ := List.getElem_of_mem member
    have found : (state.missing chain place)[at']? = some entry :=
      List.getElem?_eq_some_iff.mpr ⟨bound, here⟩
    rw [missing, List.getElem?_drop, List.getElem?_take] at found
    split at found
    · have height := shape.height _ entry found
      exact ⟨List.mem_of_getElem? found, by omega, by omega⟩
    · cases found
  · rintro ⟨member, above, below⟩
    obtain ⟨found, nonneg⟩ := shape.mem_iff member
    apply @List.mem_of_getElem? _ _ (entry.index.nHeight.toNat - (place + 1))
    rw [missing, List.getElem?_drop, List.getElem?_take, if_pos (by omega)]
    rw [show place + 1 + (entry.index.nHeight.toNat - (place + 1)) = entry.index.nHeight.toNat by
      omega]
    exact found

theorem chain_ascending (shape : state.ChainOf chain) :
    chain.Pairwise fun a b => heightAndPointer a < heightAndPointer b := by
  rw [List.pairwise_iff_getElem]
  intro i j iBound jBound earlier
  have atI := shape.height i chain[i] (List.getElem?_eq_getElem iBound)
  have atJ := shape.height j chain[j] (List.getElem?_eq_getElem jBound)
  exact before_iff.mpr (.inl (by omega))

theorem missing_ascending (shape : state.ChainOf chain) :
    (state.missing chain place).Pairwise fun a b => heightAndPointer a < heightAndPointer b := by
  exact (chain_ascending shape).sublist ((List.drop_sublist _ _).trans (List.take_sublist _ _))

theorem chain_at_unique (shape : state.ChainOf chain) (inA : a ∈ chain) (inB : b ∈ chain)
    (same : a.index.nHeight = b.index.nHeight) : a = b := by
  have foundA := (shape.mem_iff inA).1
  rw [same, (shape.mem_iff inB).1] at foundA
  exact (Option.some.inj foundA).symm

def blocksBefore (state : StartupState) (entry : IndexEntry) : Nat :=
  rank heightAndPointer state.mapBlockIndex (heightAndPointer entry)

/-- Nothing in the index leads off the chain between a height and a block of the chain, and
    no other block of that block's height lies before it in memory. -/
structure Undivided (state : StartupState) (chain : List IndexEntry) (place : Nat)
    (tip : IndexEntry) : Prop where
  between : ∀ entry ∈ state.mapBlockIndex, (place : Int) < entry.index.nHeight →
    entry.index.nHeight < tip.index.nHeight → entry ∈ chain
  first : ∀ entry ∈ state.mapBlockIndex, entry.index.nHeight = tip.index.nHeight →
    entry ≠ tip → tip.address < entry.address

/-- The entries between the coins' best block and the recorded tip are the chain's, and the
    entry that as many others precede as the block file's next height says ends the loop at
    the tip. -/
def StopsAtTip (state : StartupState) (chain : List IndexEntry) (place : Nat)
    (best : IndexEntry) : Prop :=
  ∃ tip last, chain[state.recordedTip chain]? = some tip ∧ state.Undivided chain place tip ∧
    last ∈ state.mapBlockIndex ∧ state.blocksBefore last = state.nHeightLastBlockFile ∧
    last ≠ best ∧ (last.index.nHeight = tip.index.nHeight ∨
      (tip.index.nHeight = place + 1 ∧ last.index.nHeight < tip.index.nHeight))

def KeepsToChain (state : StartupState) (chain : List IndexEntry) (place : Nat)
    (best : IndexEntry) : Prop :=
  (state.recordedTip chain ≤ place ∧ (state.mapBlockIndex.length ≤ state.nHeightLastBlockFile ∨
    state.blocksBefore best = state.nHeightLastBlockFile)) ∨
  (place < state.recordedTip chain ∧ state.StopsAtTip chain place best)

structure Unclean (state : StartupState) : Prop where
  unprepared : state.fLastShutdownWasPrepared = false
  unforced : state.forceStart = false
  noReindex : state.reindex = false

theorem sorted_at_iff (tree : state.IndexTree) {at' : Nat} :
    state.vSortedByHeight[at']? = some entry ↔
      entry ∈ state.mapBlockIndex ∧ state.blocksBefore entry = at' :=
  getElem?_sortBy tree.keys_apart

theorem recover_short (unclean : state.Unclean)
    (short : state.mapBlockIndex.length ≤ state.nHeightLastBlockFile) :
    state.recover = .unneeded := by
  have none_there : state.vSortedByHeight[state.nHeightLastBlockFile]? = none := by
    rw [List.getElem?_eq_none_iff, vSortedByHeight, length_sortBy]
    exact short
  unfold recover
  rw [unclean.unprepared, unclean.unforced, unclean.noReindex, none_there]
  rfl

variable {last : IndexEntry}

theorem recover_current (unclean : state.Unclean)
    (there : state.vSortedByHeight[state.nHeightLastBlockFile]? = some last)
    (current : state.coinsBestBlock = last.index.hash) : state.recover = .unneeded := by
  unfold recover
  rw [unclean.unprepared, unclean.unforced, unclean.noReindex, there]
  exact if_pos current

theorem recover_behind (unclean : state.Unclean) (tree : state.IndexTree)
    (there : state.vSortedByHeight[state.nHeightLastBlockFile]? = some last)
    (known : best ∈ state.mapBlockIndex) (isBest : state.coinsBestBlock = best.index.hash)
    (behind : state.coinsBestBlock ≠ last.index.hash) :
    state.recover = match startAt (best.index.nHeight + 1) state.vSortedByHeight with
      | none => .outOfRange
      | some (pindex, rest) => state.replay last rest pindex
          (viewOver state.coinsTip state.coinsBestBlock) [] := by
  have found : (state.mapBlockIndex.find? fun entry =>
      entry.index.hash == state.coinsBestBlock) = some best := by
    cases search : state.mapBlockIndex.find? fun entry =>
        entry.index.hash == state.coinsBestBlock with
    | none =>
      have absent := List.find?_eq_none.mp search best known
      simp [isBest] at absent
    | some other =>
      have same := List.find?_some search
      have among := List.mem_of_find?_eq_some search
      rw [isBest] at same
      rw [tree.hash_apart other among best known (by simpa using same)]
  unfold recover
  rw [unclean.unprepared, unclean.unforced, unclean.noReindex, there]
  dsimp only
  rw [if_neg behind, found]
  rfl

theorem missing_eq_nil (inChain : chain[place]? = some best)
    (none_missing : state.recordedTip chain ≤ place) : state.missing chain place = [] := by
  have count := length_missing state inChain
  exact List.length_eq_zero_iff.mp (by omega)

theorem missing_ne_nil (inChain : chain[place]? = some best)
    (behind : place < state.recordedTip chain) : state.missing chain place ≠ [] := by
  intro none_missing
  have count := length_missing state inChain
  rw [none_missing] at count
  simp only [List.length_nil] at count
  omega

theorem stopsAtTip_of_replay (tree : state.IndexTree) (shape : state.ChainOf chain)
    (inChain : chain[place]? = some best) (behind : place < state.recordedTip chain)
    {view final : UtxoView} (there : state.vSortedByHeight[state.nHeightLastBlockFile]? = some last)
    (stale : last ≠ best) (split : state.vSortedByHeight = passed ++ pindex :: rest)
    (start : pindex.index.nHeight = place + 1)
    (lower : ∀ earlier ∈ passed, earlier.index.nHeight ≠ (place : Int) + 1)
    (run : state.replay last rest pindex view [] = .recovered final (state.missing chain place)) :
    state.StopsAtTip chain place best := by
  obtain ⟨earlier, reached, later, cut, logged, below, high, -⟩ := replay_recovered run
  rw [List.nil_append] at logged
  have bound := recordedTip_lt state inChain
  have ascending := sorted_ascending tree
  rw [split, cut] at ascending
  obtain ⟨-, onward, across⟩ := List.pairwise_append.mp ascending
  obtain ⟨-, after, -⟩ := List.pairwise_append.mp onward
  rw [List.pairwise_cons] at after
  have reachedMissing : reached ∈ state.missing chain place := by simp [logged]
  have tipFound : chain[state.recordedTip chain]? =
      some chain[state.recordedTip chain] := List.getElem?_eq_getElem bound
  have tipMissing : chain[state.recordedTip chain] ∈ state.missing chain place := by
    have height := shape.height _ _ tipFound
    exact (mem_missing shape).mpr ⟨List.mem_of_getElem? tipFound, by omega, by omega⟩
  have tipHeight := shape.height _ _ tipFound
  have order := @missing_ascending _ _ place shape
  rw [logged] at order
  have reachedShape := (mem_missing shape).mp reachedMissing
  have isTip : reached = chain[state.recordedTip chain] := by
    apply chain_at_unique shape reachedShape.1 (List.mem_of_getElem? tipFound)
    rw [logged] at tipMissing
    rcases List.mem_append.mp tipMissing with sooner | same
    · have less := (List.pairwise_append.mp order).2.2 _ sooner reached (List.mem_singleton_self _)
      rcases before_iff.mp less with lower | level <;> omega
    · rw [List.mem_singleton.mp same]
  have places : ∀ entry ∈ state.mapBlockIndex, entry.index.nHeight ≤ place ∨
      entry ∈ state.missing chain place ∨ heightAndPointer reached < heightAndPointer entry := by
    intro entry member
    have listed := mem_sorted.mpr member
    rw [split, cut] at listed
    rcases List.mem_append.mp listed with before | fromStart
    · have less := across entry before pindex (cut ▸ List.mem_cons_self)
      have other := lower entry before
      rcases before_iff.mp less with lower | level <;> exact .inl (by omega)
    · rcases List.mem_append.mp fromStart with among | onward
      · exact .inr (.inl (logged ▸ List.mem_append_left _ among))
      · rcases List.mem_cons.mp onward with same | beyond
        · exact .inr (.inl (same ▸ reachedMissing))
        · exact .inr (.inr (after.1 entry beyond))
  obtain ⟨lastKnown, lastPlace⟩ := (sorted_at_iff tree).mp there
  refine ⟨_, last, tipFound, ⟨?_, ?_⟩, lastKnown, lastPlace, stale, ?_⟩
  · intro entry member above under
    rcases places entry member with low | among | beyond
    · omega
    · exact ((mem_missing shape).mp among).1
    · rcases before_iff.mp beyond with lower | level <;> rw [isTip] at * <;> omega
  · intro entry member level other
    rcases places entry member with low | among | beyond
    · omega
    · exact absurd (chain_at_unique shape ((mem_missing shape).mp among).1
        (List.mem_of_getElem? tipFound) level) other
    · rw [isTip] at beyond
      rcases before_iff.mp beyond with lower | level'
      · omega
      · exact level'.2
  · by_cases next : chain[state.recordedTip chain].index.nHeight = place + 1
    · rw [isTip] at high
      rcases lt_or_eq_of_le high with lower | same
      · exact .inr ⟨next, lower⟩
      · exact .inl same
    · left
      have prior : chain[state.recordedTip chain - 1]? = some chain[state.recordedTip chain - 1] :=
        List.getElem?_eq_getElem (by omega)
      have priorHeight := shape.height _ _ prior
      have priorMissing : chain[state.recordedTip chain - 1] ∈ state.missing chain place :=
        (mem_missing shape).mpr ⟨List.mem_of_getElem? prior, by omega, by omega⟩
      rw [logged] at priorMissing
      rcases List.mem_append.mp priorMissing with sooner | same
      · have lower := below _ sooner
        omega
      · have same' := congrArg (fun entry : IndexEntry => entry.index.nHeight)
          ((List.mem_singleton.mp same).trans isTip)
        omega

/-- The sorted entries where nothing leads off the chain below the recorded tip: the lower
    ones, the missing blocks, the higher ones. -/
theorem sorted_split (tree : state.IndexTree) (shape : state.ChainOf chain)
    (tipFound : chain[state.recordedTip chain]? = some tip)
    (alone : state.Undivided chain place tip) :
    ∃ lower higher, state.vSortedByHeight = lower ++ (state.missing chain place ++ higher) ∧
      ∀ entry ∈ lower, entry.index.nHeight ≤ place := by
  have ascending := sorted_ascending tree
  have cutLow := filter_append_filter ascending
    (fun entry : IndexEntry => decide (entry.index.nHeight ≤ place)) (by
      intro a _ b _ less low
      simp only [decide_eq_true_eq] at low ⊢
      rcases before_iff.mp less with lower | level <;> omega)
  have upper := ascending.filter fun entry => !decide (entry.index.nHeight ≤ (place : Int))
  have cutHigh := filter_append_filter upper
    (fun entry => decide (heightAndPointer entry ≤ heightAndPointer tip)) (by
      intro a _ b _ less low
      simp only [decide_eq_true_eq] at low ⊢
      exact le_of_lt (lt_of_lt_of_le less low))
  have tipHeight := shape.height _ _ tipFound
  have middle : (state.vSortedByHeight.filter fun entry =>
      !decide (entry.index.nHeight ≤ (place : Int))).filter (fun entry =>
        decide (heightAndPointer entry ≤ heightAndPointer tip)) = state.missing chain place := by
    apply ascending_unique (upper.filter _) (missing_ascending shape)
    intro entry
    simp only [List.mem_filter, mem_sorted, Bool.not_eq_true', decide_eq_false_iff_not, not_le,
      decide_eq_true_eq]
    constructor
    · rintro ⟨⟨member, above⟩, upTo⟩
      rw [mem_missing shape]
      by_cases same : entry = tip
      · rw [same] at above ⊢
        exact ⟨List.mem_of_getElem? tipFound, above, by omega⟩
      · rcases lt_or_eq_of_le upTo with less | equal
        · rcases before_iff.mp less with lower | level
          · exact ⟨alone.between entry member above lower, above, by omega⟩
          · exact absurd (alone.first entry member level.1 same) (not_lt.mpr (le_of_lt level.2))
        · exact absurd (tree.key_inj member (shape.indexed tip (List.mem_of_getElem? tipFound))
            equal) same
    · intro member
      obtain ⟨inChain', above, upTo⟩ := (mem_missing shape).mp member
      refine ⟨⟨shape.indexed entry inChain', above⟩, ?_⟩
      rcases lt_or_eq_of_le (tipHeight ▸ upTo) with lower | level
      · exact le_of_lt (before_iff.mpr (.inl lower))
      · rw [chain_at_unique shape inChain' (List.mem_of_getElem? tipFound) level]
  refine ⟨_, _, cutLow.trans (congrArg _ (cutHigh.trans (congrArg (· ++ _) middle))), ?_⟩
  intro entry member
  simpa using (List.mem_filter.mp member).2

theorem missing_ends (inChain : chain[place]? = some best)
    (behind : place < state.recordedTip chain)
    (tipFound : chain[state.recordedTip chain]? = some tip) :
    ∃ earlier, state.missing chain place = earlier ++ [tip] := by
  apply List.getLast?_eq_some_iff.mp
  rw [List.getLast?_eq_getElem?, length_missing state inChain, missing, List.getElem?_drop,
    List.getElem?_take, if_pos (by omega)]
  rw [show place + 1 + (state.recordedTip chain - place - 1) = state.recordedTip chain by omega]
  exact tipFound

theorem missing_begins (shape : state.ChainOf chain) (inChain : chain[place]? = some best)
    (behind : place < state.recordedTip chain) :
    ∃ pindex others, state.missing chain place = pindex :: others ∧
      pindex.index.nHeight = place + 1 := by
  cases list : state.missing chain place with
  | nil => exact absurd list (missing_ne_nil inChain behind)
  | cons pindex others =>
    refine ⟨pindex, others, rfl, ?_⟩
    have first : (state.missing chain place)[0]? = some pindex := by rw [list]; rfl
    rw [missing, List.getElem?_drop, List.getElem?_take, if_pos (by omega)] at first
    have height := shape.height _ _ first
    omega

theorem replay_of_stopsAtTip (tree : state.IndexTree) (shape : state.ChainOf chain)
    (inChain : chain[place]? = some best) (behind : place < state.recordedTip chain)
    {view final : UtxoView} (applied : state.Applied (state.missing chain place) view final)
    (tipFound : chain[state.recordedTip chain]? = some tip)
    (alone : state.Undivided chain place tip)
    (stops : last.index.nHeight = tip.index.nHeight ∨
      (tip.index.nHeight = place + 1 ∧ last.index.nHeight < tip.index.nHeight)) :
    ∃ pindex rest, startAt (place + 1) state.vSortedByHeight = some (pindex, rest) ∧
      state.replay last rest pindex view [] =
        .recovered final (state.missing chain place) := by
  obtain ⟨lower, higher, split, low⟩ := sorted_split tree shape tipFound alone
  have tipHeight := shape.height _ _ tipFound
  obtain ⟨earlier, endsAtTip⟩ := missing_ends inChain behind tipFound
  have order := @missing_ascending _ _ place shape
  have sooner : ∀ entry ∈ earlier, (place : Int) < entry.index.nHeight ∧
      entry.index.nHeight < tip.index.nHeight := by
    intro entry member
    have inMissing : entry ∈ state.missing chain place := endsAtTip ▸ List.mem_append_left _ member
    obtain ⟨inChain', above, upTo⟩ := (mem_missing shape).mp inMissing
    refine ⟨above, lt_of_le_of_ne (tipHeight ▸ upTo) fun level => ?_⟩
    rw [endsAtTip] at order
    have less := (List.pairwise_append.mp order).2.2 entry member tip (List.mem_singleton_self _)
    rw [chain_at_unique shape inChain' (List.mem_of_getElem? tipFound) level] at less
    exact lt_irrefl _ less
  obtain ⟨pindex, others, begins, start⟩ := missing_begins shape inChain behind
  have from' : state.vSortedByHeight = lower ++ pindex :: (others ++ higher) := by
    rw [split, begins, List.cons_append]
  refine ⟨pindex, others ++ higher, ?_, ?_⟩
  · rw [from']
    exact startAt_split (fun entry member => by have := low entry member; omega) start
  · have cut : pindex :: (others ++ higher) = earlier ++ tip :: higher := by
      rw [← List.cons_append, ← begins, endsAtTip, List.append_assoc, List.singleton_append]
    have run := @replay_stretch state last tip pindex earlier higher (others ++ higher) [] view final
      cut
    rw [List.nil_append, ← endsAtTip] at run
    apply run
    · intro entry member
      have bounds := sooner entry member
      omega
    · omega
    · exact applied

theorem replays_idle (inChain : chain[place]? = some best) (unneeded : state.recover = .unneeded) :
    state.Replays (state.missing chain place) ↔ state.recordedTip chain ≤ place := by
  constructor
  · rintro (⟨none_missing, -⟩ | ⟨final, ran, -⟩)
    · by_contra behind
      exact missing_ne_nil inChain (not_le.mp behind) none_missing
    · rw [unneeded] at ran
      cases ran
  · intro none_missing
    exact .inl ⟨missing_eq_nil inChain none_missing, unneeded⟩

theorem recovered_stops (tree : state.IndexTree) (shape : state.ChainOf chain)
    (inChain : chain[place]? = some best) {rest : List IndexEntry} {view final : UtxoView}
    (there : state.vSortedByHeight[state.nHeightLastBlockFile]? = some last) (stale : last ≠ best)
    (start : startAt ((place : Int) + 1) state.vSortedByHeight = some (pindex, rest))
    (run : state.replay last rest pindex view [] = .recovered final (state.missing chain place)) :
    place < state.recordedTip chain ∧ state.StopsAtTip chain place best := by
  obtain ⟨earlier, reached, later, -, logged, -⟩ := replay_recovered run
  have behind : place < state.recordedTip chain := by
    by_contra caughtUp
    rw [missing_eq_nil inChain (not_lt.mp caughtUp)] at logged
    simp at logged
  obtain ⟨first, others, begins, firstHeight⟩ := missing_begins shape inChain behind
  have firstChain := ((mem_missing shape).mp (begins ▸ List.mem_cons_self)).1
  obtain ⟨passed, pindex', rest', split, startHeight, lower, start'⟩ :=
    startAt_found (mem_sorted.mpr (shape.indexed first firstChain)) firstHeight
  rw [start'] at start
  cases start
  exact ⟨behind, stopsAtTip_of_replay tree shape inChain behind there stale split startHeight lower
    run⟩

/-- After an unclean shutdown the blocks applied to the coins are those of the chain that
    are missing exactly when the picked stretch keeps to the chain. -/
theorem recovery_replays_iff (unclean : state.Unclean) (tree : state.IndexTree)
    (shape : state.ChainOf chain) (inChain : chain[place]? = some best)
    (isBest : state.coinsBestBlock = best.index.hash)
    (applies : ∃ final, state.Applied (state.missing chain place)
      (viewOver state.coinsTip state.coinsBestBlock) final) :
    state.Replays (state.missing chain place) ↔ state.KeepsToChain chain place best := by
  have known := shape.indexed best (List.mem_of_getElem? inChain)
  have height := shape.height place best inChain
  cases there : state.vSortedByHeight[state.nHeightLastBlockFile]? with
  | none =>
    have short : state.mapBlockIndex.length ≤ state.nHeightLastBlockFile := by
      have := List.getElem?_eq_none_iff.mp there
      rwa [vSortedByHeight, length_sortBy] at this
    rw [replays_idle inChain (recover_short unclean short)]
    constructor
    · intro none_missing
      exact .inl ⟨none_missing, .inl short⟩
    · rintro (⟨none_missing, -⟩ | ⟨-, tip, last, -, -, lastKnown, lastPlace, -⟩)
      · exact none_missing
      · have found := (sorted_at_iff tree).mpr ⟨lastKnown, lastPlace⟩
        rw [there] at found
        cases found
  | some last =>
    by_cases current : last = best
    · rw [replays_idle inChain (recover_current unclean there (current ▸ isBest))]
      constructor
      · intro none_missing
        exact .inl ⟨none_missing, .inr (current ▸ ((sorted_at_iff tree).mp there).2)⟩
      · rintro (⟨none_missing, -⟩ | ⟨-, tip, last', -, -, lastKnown, lastPlace, stale, -⟩)
        · exact none_missing
        · have found := (sorted_at_iff tree).mpr ⟨lastKnown, lastPlace⟩
          rw [there] at found
          cases found
          exact absurd current stale
    · have lastKnown := ((sorted_at_iff tree).mp there).1
      have run := recover_behind unclean tree there known isBest fun same =>
        current (tree.hash_apart last lastKnown best known (by rw [← same, isBest]))
      rw [height] at run
      constructor
      · rintro (⟨-, unneeded⟩ | ⟨final, ran, -⟩)
        · rw [unneeded] at run
          split at run
          · cases run
          · exact absurd run.symm replay_runs
        · rw [ran] at run
          split at run
          · cases run
          · rename_i pindex rest start
            exact .inr (recovered_stops tree shape inChain there current start run.symm)
      · rintro (⟨-, short | stands⟩ | ⟨behind, tip, last', tipFound, alone, lastKnown', lastPlace, -,
          stops⟩)
        · obtain ⟨bound, -⟩ := List.getElem?_eq_some_iff.mp there
          rw [vSortedByHeight, length_sortBy] at bound
          omega
        · have found := (sorted_at_iff tree).mpr ⟨known, stands⟩
          rw [there] at found
          exact absurd (Option.some.inj found) current
        · have found := (sorted_at_iff tree).mpr ⟨lastKnown', lastPlace⟩
          rw [there] at found
          cases found
          obtain ⟨final, applied⟩ := applies
          obtain ⟨pindex, rest, start, replays⟩ :=
            replay_of_stopsAtTip tree shape inChain behind applied tipFound alone stops
          rw [start] at run
          exact .inr ⟨final, run.trans replays, applied⟩

end StartupState

def storedEntry (address : Nat) (hash : Uint256) (pprev : Option Uint256) (nHeight : Int) :
    IndexEntry where
  address := address
  index :=
    { hash := hash, pprev := pprev, nHeight := nHeight, nVersion := 4, nTime := 0, nBits := 0
      nAccumulatorCheckpoint := 0, nChainWork := 0, nTx := 1, nChainTx := 0
      nStatus := BlockStatus.init, nSequenceId := 0, nMint := 0, nMoneySupply := 0
      mapZerocoinSupply := fun _ => 0, vMintDenominationsInBlock := [] }

def mainChain : List IndexEntry :=
  [storedEntry 1 1 none 0, storedEntry 2 2 (some 1) 1, storedEntry 5 3 (some 2) 2,
    storedEntry 6 4 (some 3) 3]

def rewardTx : CTransaction := ⟨1, [⟨COutPoint.null, [], 0⟩], [⟨0, [], -10⟩], 0⟩

def forkedState (stale : IndexEntry) : StartupState where
  txHash _ := 7
  blockHash header := BitVec.ofNat 256 header.nNonce.toNat
  readBlockAt index := some ⟨⟨4, 0, 0, 0, 0, UInt32.ofNat index.hash.toNat, 0⟩, [rewardTx], []⟩
  fLastShutdownWasPrepared := false
  forceStart := false
  reindex := false
  mapBlockIndex := stale :: mainChain
  nHeightLast := 2
  coinsTip _ := none
  coinsBestBlock := 2

theorem forkedState_unclean (stale : IndexEntry) : (forkedState stale).Unclean := ⟨rfl, rfl, rfl⟩

theorem mainChain_shape (stale : IndexEntry) : (forkedState stale).ChainOf mainChain where
  indexed _ member := List.mem_cons_of_mem _ member
  height := by
    rintro (_ | _ | _ | _ | place) entry found
    all_goals first | (cases found; rfl) | simp [mainChain] at found
  linked := by
    rintro (_ | _ | _ | _ | place) parent entry first second
    all_goals first | (cases first; cases second; rfl) | simp [mainChain] at first second

theorem forkedState_tree (stale : IndexEntry) (parent : IndexEntry) (below : parent ∈ mainChain)
    (linked : stale.index.pprev = some parent.index.hash)
    (height : stale.index.nHeight = parent.index.nHeight + 1)
    (hashes : ((stale :: mainChain).map fun entry => entry.index.hash).Nodup)
    (addresses : ((stale :: mainChain).map IndexEntry.address).Nodup) :
    (forkedState stale).IndexTree where
  hash_apart _ inA _ inB same := List.inj_on_of_nodup_map hashes inA inB same
  address_apart := addresses
  parent entry member := by
    rcases List.mem_cons.mp member with same | onChain
    · rw [same]
      exact .inr ⟨parent, List.mem_cons_of_mem _ below, linked, height⟩
    · simp only [mainChain, List.mem_cons, List.not_mem_nil, or_false] at onChain
      rcases onChain with same | same | same | same
      · exact .inl (same ▸ ⟨rfl, rfl⟩)
      · exact .inr ⟨storedEntry 1 1 none 0, by simp [forkedState, mainChain], same ▸ ⟨rfl, rfl⟩⟩
      · exact .inr ⟨storedEntry 2 2 (some 1) 1, by simp [forkedState, mainChain],
          same ▸ ⟨rfl, rfl⟩⟩
      · exact .inr ⟨storedEntry 5 3 (some 2) 2, by simp [forkedState, mainChain],
          same ▸ ⟨rfl, rfl⟩⟩

theorem mainChain_applies (stale : IndexEntry) : ∃ final,
    (forkedState stale).Applied ((forkedState stale).missing mainChain 1)
      (viewOver (forkedState stale).coinsTip (forkedState stale).coinsBestBlock) final :=
  ⟨_, _, _, rfl, rfl, _, _, rfl, rfl, rfl⟩

def lateFork : IndexEntry := storedEntry 9 9 (some 3) 3

theorem late_fork_recovers : (forkedState lateFork).Replays
    ((forkedState lateFork).missing mainChain 1) := by
  apply (StartupState.recovery_replays_iff (forkedState_unclean lateFork)
    (forkedState_tree lateFork (storedEntry 5 3 (some 2) 2) (by simp [mainChain]) rfl rfl
      (by decide) (by decide)) (mainChain_shape lateFork)
    (show mainChain[1]? = some (storedEntry 2 2 (some 1) 1) from rfl) rfl
    (mainChain_applies lateFork)).mpr
  refine .inr ⟨by decide, storedEntry 6 4 (some 3) 3, storedEntry 6 4 (some 3) 3, rfl, ⟨?_, ?_⟩,
    by simp [forkedState, mainChain], by decide +kernel, ?_, .inl rfl⟩
  · intro entry member above under
    rcases List.mem_cons.mp member with same | onChain
    · rw [same] at under
      exact absurd under (lt_irrefl _)
    · exact onChain
  · intro entry member level other
    simp only [forkedState, mainChain, List.mem_cons, List.not_mem_nil, or_false] at member
    rcases member with same | same | same | same | same
    · rw [same]
      decide
    · rw [same] at level
      exact absurd level (by decide)
    · rw [same] at level
      exact absurd level (by decide)
    · rw [same] at level
      exact absurd level (by decide)
    · exact absurd same other
  · intro same
    exact absurd (congrArg IndexEntry.address same) (by decide)

def earlyFork : IndexEntry := storedEntry 3 9 (some 2) 2

theorem earlyFork_recover : ∃ final, (forkedState earlyFork).recover =
    .recovered final [earlyFork] := ⟨_, rfl⟩

theorem stale_block_replayed : (forkedState earlyFork).Unclean ∧ (forkedState earlyFork).IndexTree ∧
    (forkedState earlyFork).ChainOf mainChain ∧
    (∃ final, (forkedState earlyFork).recover = .recovered final [earlyFork]) ∧
    ¬(forkedState earlyFork).Replays ((forkedState earlyFork).missing mainChain 1) := by
  obtain ⟨final, ran⟩ := earlyFork_recover
  refine ⟨forkedState_unclean _, forkedState_tree _ (storedEntry 2 2 (some 1) 1)
    (by simp [mainChain]) rfl rfl (by decide) (by decide), mainChain_shape _, ⟨final, ran⟩, ?_⟩
  rintro (⟨none_missing, -⟩ | ⟨other, ran', -⟩)
  · cases none_missing
  · rw [ran] at ran'
    have lengths := congrArg List.length (Recovery.recovered.inj ran').2
    exact absurd lengths (by decide)

end OxidLoadBlockIndex
