import Oxid.Library.Memo
import Oxid.Library.Runs
import Oxid.Primitives

/-!
`GetBlockHash` and its cache over the whole run of the node, and the scores of masternodes
made from it. A chain is the hashes of its blocks by height. The hash found is that of the
block before the requested height; the height 0 stands for the tip's, and a negative one for
the height after it.
-/
namespace OxidBlockHashCache
open OxidPrimitives Memo Runs

def tipHeight (chain : List Uint256) : Int := (chain.length : Int) - 1

def walkBack (nBlocksAgo : Int) : List Uint256 → Int → Option Uint256
  | [], _ => none
  | [_], _ => none
  | hash :: previous :: rest, n =>
    if nBlocksAgo ≤ n then some hash else walkBack nBlocksAgo (previous :: rest) (n + 1)

def readBack (chain : List Uint256) (nBlockHeight : Int) : Option Uint256 :=
  if tipHeight chain = 0 ∨ tipHeight chain + 1 < nBlockHeight then none
  else
    let nBlocksAgo := if 0 < nBlockHeight then tipHeight chain + 1 - nBlockHeight else 0
    walkBack nBlocksAgo chain.reverse 0

structure HashCache where
  chainActive : List Uint256
  mapCacheBlockHashes : Int → Option Uint256

def cacheKey (chain : List Uint256) (nBlockHeight : Int) : Int :=
  if nBlockHeight = 0 then tipHeight chain else nBlockHeight

def getBlockHash (nBlockHeight : Int) (state : HashCache) : Option Uint256 × HashCache :=
  if state.chainActive = [] then (none, state)
  else
    let key := cacheKey state.chainActive nBlockHeight
    let (hash, cached) := ask (readBack state.chainActive key) key state.mapCacheBlockHashes
    (hash, { state with mapCacheBlockHashes := cached })

/-- The two double hashes a score is made of: of the block's hash, and of it with the
    output's. -/
structure ScoreHashes where
  hashBlock : Uint256 → Uint256
  hashWith : Uint256 → Uint256 → Uint256

def scoreOf (hashes : ScoreHashes) (prevout : COutPoint) (hash : Uint256) : Uint256 :=
  let aux := prevout.hash + BitVec.ofNat 256 prevout.n.toNat
  let hash2 := hashes.hashBlock hash
  let hash3 := hashes.hashWith hash aux
  if hash2 < hash3 then hash3 - hash2 else hash2 - hash3

def calculateScore (hashes : ScoreHashes) (prevout : COutPoint) (nBlockHeight : Int)
    (state : HashCache) : Uint256 × HashCache :=
  let (hash, state) := getBlockHash nBlockHeight state
  ((hash.map (scoreOf hashes prevout)).getD 0, state)

def heightBefore (chain : List Uint256) (nBlockHeight : Int) : Int :=
  if nBlockHeight < 0 then tipHeight chain else cacheKey chain nBlockHeight - 1

def blockBefore (chain : List Uint256) (nBlockHeight : Int) : Option Uint256 :=
  if 1 ≤ heightBefore chain nBlockHeight ∧
      heightBefore chain nBlockHeight ≤ tipHeight chain then
    chain[(heightBefore chain nBlockHeight).toNat]?
  else none

inductive HashEvent where
  | connect (hash : Uint256)
  | disconnect
  | ask (nBlockHeight : Int)

def hashStep (event : HashEvent) (state : HashCache) : HashCache :=
  match event with
  | .connect hash => { state with chainActive := state.chainActive ++ [hash] }
  | .disconnect => { state with chainActive := state.chainActive.dropLast }
  | .ask nBlockHeight => (getBlockHash nBlockHeight state).2

/-- What is cached under the key stays right: the block it is of stays, and under a
    negative key the tip. -/
def leavesCached (key : Int) (event : HashEvent) (state : HashCache) : Prop :=
  match event with
  | .connect _ => state.mapCacheBlockHashes key = none ∨ 0 < key
  | .disconnect =>
    state.mapCacheBlockHashes key = none ∨ 0 < key ∧ key ≤ tipHeight state.chainActive
  | .ask _ => True

instance (key : Int) (event : HashEvent) (state : HashCache) :
    Decidable (leavesCached key event state) := by
  unfold leavesCached
  cases event
  all_goals infer_instance

section Reading

variable {chain : List Uint256}

theorem walkBack_found {blocks : List Uint256} {nBlocksAgo n : Int} (ahead : n ≤ nBlocksAgo) :
    walkBack nBlocksAgo blocks n =
      if (nBlocksAgo - n).toNat + 1 < blocks.length then blocks[(nBlocksAgo - n).toNat]?
      else none := by
  induction blocks generalizing n with
  | nil => rfl
  | cons hash rest ih =>
    cases rest with
    | nil =>
      rfl
    | cons previous rest =>
      unfold walkBack
      by_cases here : nBlocksAgo ≤ n
      · have start : (nBlocksAgo - n).toNat = 0 := by omega
        rw [if_pos here, start, if_pos (by simp)]
        rfl
      · have step : (nBlocksAgo - n).toNat = (nBlocksAgo - (n + 1)).toNat + 1 := by omega
        rw [if_neg here, ih (by omega), step, List.getElem?_cons_succ]
        simp only [List.length_cons]
        congr 1
        exact propext (by omega)

theorem readBack_before (nonempty : chain ≠ []) (nBlockHeight : Int) :
    readBack chain (cacheKey chain nBlockHeight) = blockBefore chain nBlockHeight := by
  have length : 0 < chain.length := List.length_pos_of_ne_nil nonempty
  have tip : tipHeight chain = (chain.length : Int) - 1 := rfl
  unfold readBack blockBefore
  by_cases refused : tipHeight chain = 0 ∨ tipHeight chain + 1 < cacheKey chain nBlockHeight
  · have outside : ¬(1 ≤ heightBefore chain nBlockHeight ∧
        heightBefore chain nBlockHeight ≤ tipHeight chain) := by
      unfold heightBefore cacheKey at *
      split_ifs at * <;> omega
    rw [if_pos refused, if_neg outside]
  · obtain ⟨low, high⟩ := not_or.mp refused
    rw [if_neg refused]
    have ago : 0 ≤ (if 0 < cacheKey chain nBlockHeight then
          tipHeight chain + 1 - cacheKey chain nBlockHeight else 0) ∧
        heightBefore chain nBlockHeight = tipHeight chain -
          (if 0 < cacheKey chain nBlockHeight then
            tipHeight chain + 1 - cacheKey chain nBlockHeight else 0) := by
      unfold heightBefore cacheKey at *
      split_ifs at * <;> omega
    obtain ⟨back, steps⟩ := Int.eq_ofNat_of_zero_le ago.1
    have height := ago.2
    rw [steps, walkBack_found (Int.natCast_nonneg back), List.length_reverse, height]
    have count : ((back : Int) - 0).toNat = back := by omega
    rw [count]
    by_cases inside : back + 1 < chain.length
    · rw [if_pos inside, if_pos (by omega), List.getElem?_reverse (by omega)]
      congr 1
      omega
    · rw [if_neg inside, if_neg (by omega)]

theorem readBack_positive {key : Int} (positive : 0 < key) :
    readBack chain key =
      if 2 ≤ key ∧ key ≤ chain.length then chain[(key - 1).toNat]? else none := by
  have tip : tipHeight chain = (chain.length : Int) - 1 := rfl
  by_cases empty : chain = []
  · have nothing : chain.length = 0 := by rw [empty]; rfl
    unfold readBack
    rw [if_pos (by omega), if_neg (by omega)]
  · have own : cacheKey chain key = key := if_neg (by omega)
    have height : heightBefore chain key = key - 1 := by
      unfold heightBefore
      rw [if_neg (by omega), own]
    have before := readBack_before empty key
    rw [own] at before
    rw [before]
    unfold blockBefore
    rw [height]
    congr 1
    exact propext (by omega)

theorem readBack_append {key : Int} {hash : Uint256} (positive : 0 < key) (block : Uint256)
    (read : readBack chain key = some hash) : readBack (chain ++ [block]) key = some hash := by
  rw [readBack_positive positive] at read ⊢
  split at read
  · rename_i inside
    rw [List.length_append, if_pos ⟨inside.1, by omega⟩, List.getElem?_append_left (by omega)]
    exact read
  · cases read

theorem readBack_dropLast {key : Int} {hash : Uint256} (positive : 0 < key)
    (below : key ≤ tipHeight chain) (read : readBack chain key = some hash) :
    readBack chain.dropLast key = some hash := by
  have tip : tipHeight chain = (chain.length : Int) - 1 := rfl
  rw [readBack_positive positive] at read ⊢
  split at read
  · rename_i inside
    rw [List.length_dropLast, if_pos ⟨inside.1, by omega⟩, List.getElem?_dropLast,
      if_pos (by omega)]
    exact read
  · cases read

end Reading

section History

variable {state : HashCache} {key : Int}

def KeyRight (key : Int) (state : HashCache) : Prop :=
  Agrees (readBack state.chainActive) state.mapCacheBlockHashes key

theorem hashStep_right (event : HashEvent) (state : HashCache) (right : KeyRight key state)
    (leaves : leavesCached key event state) : KeyRight key (hashStep event state) := by
  cases event with
  | connect hash =>
    apply agrees_change right
    intro answer kept read
    rcases leaves with fresh | positive
    · rw [fresh] at kept
      cases kept
    · exact readBack_append positive hash read
  | disconnect =>
    apply agrees_change right
    intro answer kept read
    rcases leaves with fresh | ⟨positive, below⟩
    · rw [fresh] at kept
      cases kept
    · exact readBack_dropLast positive below read
  | ask nBlockHeight =>
    unfold KeyRight hashStep
    dsimp only
    unfold getBlockHash
    split
    · exact right
    · exact ask_agrees right

theorem getBlockHash_right {nBlockHeight : Int}
    (right : KeyRight (cacheKey state.chainActive nBlockHeight) state) :
    (getBlockHash nBlockHeight state).1 = blockBefore state.chainActive nBlockHeight := by
  unfold getBlockHash
  split
  · rename_i empty
    unfold blockBefore tipHeight
    rw [empty, if_neg (by simp; omega)]
  · rename_i nonempty
    rw [← readBack_before nonempty]
    exact ask_answer right

end History

/-- In every history of connects, disconnects and calls, a height whose cached block stays while
    it is cached gives the hash of the block before it exactly when the active chain has one above
    genesis, and scores are made from that block. -/
theorem block_hash_before (chain : List Uint256) (events : List HashEvent) (nBlockHeight : Int)
    (leaves : AlongAll hashStep (leavesCached (cacheKey
      (runAll hashStep events ⟨chain, fun _ => none⟩).chainActive nBlockHeight)) events
        ⟨chain, fun _ => none⟩) :
    (getBlockHash nBlockHeight (runAll hashStep events ⟨chain, fun _ => none⟩)).1 =
        blockBefore (runAll hashStep events ⟨chain, fun _ => none⟩).chainActive nBlockHeight ∧
      ∀ hashes prevout,
        (calculateScore hashes prevout nBlockHeight
          (runAll hashStep events ⟨chain, fun _ => none⟩)).1 =
        ((blockBefore (runAll hashStep events ⟨chain, fun _ => none⟩).chainActive
          nBlockHeight).map (scoreOf hashes prevout)).getD 0 := by
  have initially : KeyRight (cacheKey
      (runAll hashStep events ⟨chain, fun _ => none⟩).chainActive nBlockHeight)
        ⟨chain, fun _ => none⟩ := agrees_fresh
  have right := runAll_invariant hashStep_right events initially leaves
  have found := getBlockHash_right right
  refine ⟨found, fun hashes prevout => ?_⟩
  unfold calculateScore
  dsimp only
  rw [found]

def startChain : List Uint256 := [100, 101, 102, 103]

def reorganised : List HashEvent := [.ask 2, .ask 3, .disconnect, .connect 203]

theorem tip_after_reorg :
    (getBlockHash 4 (runAll hashStep reorganised ⟨startChain, fun _ => none⟩)).1 = some 203 := by
  have before := (block_hash_before startChain reorganised 4 (by decide)).1
  exact before.trans (by decide)

theorem requested_block_missed :
    ¬ ∀ (chain : List Uint256) (events : List HashEvent) (nBlockHeight : Int),
      (getBlockHash nBlockHeight (runAll hashStep events ⟨chain, fun _ => none⟩)).1 =
        if nBlockHeight < 0 then none
        else (runAll hashStep events ⟨chain, fun _ => none⟩).chainActive[nBlockHeight.toNat]? := by
  intro requested
  exact absurd (requested startChain [] 1) (by decide)

end OxidBlockHashCache
