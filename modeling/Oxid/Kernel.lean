import Oxid.Pow
import Oxid.StakeModifier

/-!
The search for a stake kernel and the check of one. What a script verifies, the transaction
a hash names and the block of an index entry are the node's answers, and the hash of a
kernel is a function of what goes into it. Times are words of 32 bits that wrap around.
-/
namespace OxidKernel
open OxidPrimitives OxidPow OxidStakeModifier

def nStakeMinAge : UInt32 := 8 * 60 * 60

def nHashDrift : Nat := 45

/-- What goes into the hash of a kernel: the modifier, the time of the block the coin is
    from, the outpoint of the coin and the time that is tried. -/
structure KernelData where
  nStakeModifier : UInt64
  nTimeBlockFrom : UInt32
  nPosition : UInt32
  txFrom : Uint256
  nTimeTx : UInt32
deriving DecidableEq

/-- A chain and the node that has it. An entry stands at its height, and its block is on
    disk. -/
structure ChainState where
  txHash : CTransaction → Uint256
  kernelHash : KernelData → Uint256
  verifyScript : CScript → CScript → CTransaction → Nat → Bool
  mapBlockIndex : Uint256 → Option StakeIndex
  chainActive : List StakeIndex
  getTransaction : Uint256 → Option (CTransaction × Uint256)
  readBlockFromDisk : StakeIndex → Option CBlock
  heights : ∀ (height : Nat) pindex, chainActive[height]? = some pindex → pindex.nHeight = height
  stored : ∀ pindex ∈ chainActive, ∃ block, readBlockFromDisk pindex = some block ∧
    block.nTime = pindex.nTime
  named : ∀ hash tx hashBlock, getTransaction hash = some (tx, hashBlock) → txHash tx = hash

namespace ChainState

def contains (chain : ChainState) (pindex : StakeIndex) : Bool :=
  decide (chain.chainActive[pindex.nHeight.toNat]? = some pindex)

end ChainState

/-- The modifier where the modifiers have come so late, from the entries further up. -/
def laterModifier (until' : Int) : List StakeIndex → StakeIndex → Int → Option UInt64
  | [], pindex, nStakeModifierTime =>
    if nStakeModifierTime < until' then none else some pindex.nStakeModifier
  | pindexNext :: later, pindex, nStakeModifierTime =>
    if nStakeModifierTime < until' then
      laterModifier until' later pindexNext
        (if pindexNext.fGeneratedStakeModifier then pindexNext.getBlockTime else nStakeModifierTime)
    else some pindex.nStakeModifier

def getKernelStakeModifier (chain : ChainState) (hashBlockFrom : Uint256) : Option UInt64 :=
  match chain.mapBlockIndex hashBlockFrom with
  | none => none
  | some pindexFrom =>
    laterModifier (pindexFrom.getBlockTime + getStakeModifierSelectionInterval)
      (chain.chainActive.drop (pindexFrom.nHeight.toNat + 1)) pindexFrom pindexFrom.getBlockTime

/-- The bits of the amount are taken for a positive number, and the product wraps. -/
def stakeTargetHit (hashProofOfStake : Uint256) (nValueIn : Int) (bnTargetPerCoinDay : Uint256) :
    Bool :=
  let bnCoinDayWeight : Uint256 := (BitVec.ofInt 64 nValueIn).setWidth 256 / 100
  decide (hashProofOfStake < bnCoinDayWeight * bnTargetPerCoinDay)

structure COxidStake where
  txFrom : CTransaction
  nPosition : UInt32
  pindexFrom : Option StakeIndex
  placed : nPosition.toNat < txFrom.vout.length

namespace COxidStake

def out (stake : COxidStake) : CTxOut :=
  stake.txFrom.vout.get ⟨stake.nPosition.toNat, stake.placed⟩

def getValue (stake : COxidStake) : Int := stake.out.nValue

def getUniqueness (chain : ChainState) (stake : COxidStake) : UInt32 × Uint256 :=
  (stake.nPosition, chain.txHash stake.txFrom)

/-- An entry found before stays where none is found in the chain. -/
def getIndexFrom (chain : ChainState) (stake : COxidStake) : Option StakeIndex :=
  match chain.getTransaction (chain.txHash stake.txFrom) with
  | none => stake.pindexFrom
  | some (_, hashBlock) =>
    match chain.mapBlockIndex hashBlock with
    | none => stake.pindexFrom
    | some pindex => if chain.contains pindex then some pindex else stake.pindexFrom

def getModifier (chain : ChainState) (stake : COxidStake) : Option UInt64 :=
  match stake.getIndexFrom chain with
  | none => none
  | some pindexFrom => getKernelStakeModifier chain pindexFrom.hash

end COxidStake

def checkStake (chain : ChainState) (ssUniqueID : UInt32 × Uint256) (nValueIn : Int)
    (nStakeModifier : UInt64) (bnTarget : Uint256) (nTimeBlockFrom nTimeTx : UInt32) :
    Bool × Uint256 :=
  let hashProofOfStake := chain.kernelHash
    ⟨nStakeModifier, nTimeBlockFrom, ssUniqueID.1, ssUniqueID.2, nTimeTx⟩
  (stakeTargetHit hashProofOfStake nValueIn bnTarget, hashProofOfStake)

/-- The times still to try, from the latest down. The tip may move in between. -/
def tryTimes (check : UInt32 → Bool × Uint256) (chainHeight : Nat → Int) (nHeightStart : Int)
    (nTimeTx : UInt32) : Nat → Option (UInt32 × Uint256)
  | 0 => none
  | left + 1 =>
    let i := nHashDrift - (left + 1)
    if chainHeight i ≠ nHeightStart then none
    else
      let nTryTime := nTimeTx + UInt32.ofNat nHashDrift - UInt32.ofNat i
      let checked := check nTryTime
      if checked.1 then some (nTryTime, checked.2)
      else tryTimes check chainHeight nHeightStart nTimeTx left

def stake (chain : ChainState) (stakeInput : COxidStake) (nBits nTimeBlockFrom nTimeTx : UInt32)
    (chainHeight : Nat → Int) (nHeightStart : Int) : Option (UInt32 × Uint256) :=
  if nTimeTx < nTimeBlockFrom then none
  else if nTimeBlockFrom + nStakeMinAge > nTimeTx then none
  else
    let bnTargetPerCoinDay := (setCompact nBits).bnTarget
    match stakeInput.getModifier chain with
    | none => none
    | some nStakeModifier =>
      tryTimes (checkStake chain (stakeInput.getUniqueness chain) stakeInput.getValue
        nStakeModifier bnTargetPerCoinDay nTimeBlockFrom) chainHeight nHeightStart nTimeTx
        nHashDrift

def checkProofOfStake (chain : ChainState) (block : CBlock) : Option (Uint256 × COxidStake) :=
  match block.vtx[1]? with
  | none => none
  | some tx =>
    if !tx.isCoinStake then none
    else
      match tx.vin with
      | [] => none
      | txin :: _ =>
        match chain.getTransaction txin.prevout.hash with
        | none => none
        | some (txPrev, _) =>
          if placed : txin.prevout.n.toNat < txPrev.vout.length then
            let stake : COxidStake := ⟨txPrev, txin.prevout.n, none, placed⟩
            if !chain.verifyScript txin.scriptSig stake.out.scriptPubKey tx 0 then none
            else
              match stake.getIndexFrom chain with
              | none => none
              | some pindex =>
                match chain.readBlockFromDisk pindex with
                | none => none
                | some blockprev =>
                  let bnTargetPerCoinDay := (setCompact block.nBits).bnTarget
                  match stake.getModifier chain with
                  | none => none
                  | some nStakeModifier =>
                    let checked := checkStake chain (stake.getUniqueness chain) stake.getValue
                      nStakeModifier bnTargetPerCoinDay blockprev.nTime block.nTime
                    if checked.1 then some (checked.2, stake) else none
          else none

def kernelInput (chain : ChainState) (block : CBlock) :
    Option (CTransaction × CTxIn × COxidStake) :=
  match block.vtx[1]? with
  | none => none
  | some tx =>
    match tx.vin with
    | [] => none
    | txin :: _ =>
      match chain.getTransaction txin.prevout.hash with
      | none => none
      | some (txPrev, _) =>
        if placed : txin.prevout.n.toNat < txPrev.vout.length then
          some (tx, txin, ⟨txPrev, txin.prevout.n, none, placed⟩)
        else none

structure Spends (chain : ChainState) (block : CBlock) (stake : COxidStake)
    (pindexFrom : StakeIndex) : Prop where
  signed : ∃ tx txin, kernelInput chain block = some (tx, txin, stake) ∧
    tx.isCoinStake = true ∧
    chain.verifyScript txin.scriptSig stake.out.scriptPubKey tx 0 = true
  indexed : stake.getIndexFrom chain = some pindexFrom

theorem Spends.unique {chain : ChainState} {block : CBlock} {first second : COxidStake}
    {pindexFirst pindexSecond : StakeIndex} (one : Spends chain block first pindexFirst)
    (other : Spends chain block second pindexSecond) : pindexFirst = pindexSecond := by
  obtain ⟨⟨tx, txin, read, -⟩, indexed⟩ := one
  obtain ⟨⟨tx', txin', read', -⟩, indexed'⟩ := other
  rw [read] at read'
  cases read'
  exact Option.some.inj (indexed.symm.trans indexed')

def MeetsTarget (chain : ChainState) (block : CBlock) (stake : COxidStake)
    (pindexFrom : StakeIndex) (hashProofOfStake : Uint256) : Prop :=
  ∃ nStakeModifier, getKernelStakeModifier chain pindexFrom.hash = some nStakeModifier ∧
    hashProofOfStake = chain.kernelHash ⟨nStakeModifier, pindexFrom.nTime, stake.nPosition,
      chain.txHash stake.txFrom, block.nTime⟩ ∧
    stakeTargetHit hashProofOfStake stake.getValue (setCompact block.nBits).bnTarget = true

section Checks
variable {chain : ChainState} {block : CBlock}

theorem getIndexFrom_stored {stake : COxidStake} {pindexFrom : StakeIndex}
    (fresh : stake.pindexFrom = none) (found : stake.getIndexFrom chain = some pindexFrom) :
    ∃ blockprev, chain.readBlockFromDisk pindexFrom = some blockprev ∧
      blockprev.nTime = pindexFrom.nTime := by
  unfold COxidStake.getIndexFrom at found
  rw [fresh] at found
  split at found
  · cases found
  · split at found
    · cases found
    · split at found
      · rename_i inside
        obtain rfl := Option.some.inj found
        exact chain.stored _ (List.mem_of_getElem? (of_decide_eq_true inside))
      · cases found

theorem kernelInput_fresh {tx : CTransaction} {txin : CTxIn} {stake : COxidStake}
    (read : kernelInput chain block = some (tx, txin, stake)) : stake.pindexFrom = none := by
  unfold kernelInput at read
  split at read
  · cases read
  · split at read
    · cases read
    · split at read
      · cases read
      · split at read
        · cases read
          rfl
        · cases read

theorem checkProofOfStake_input :
    checkProofOfStake chain block =
      match kernelInput chain block with
      | none => none
      | some (tx, txin, stake) =>
        if !tx.isCoinStake then none
        else if !chain.verifyScript txin.scriptSig stake.out.scriptPubKey tx 0 then none
        else
          match stake.getIndexFrom chain with
          | none => none
          | some pindex =>
            match chain.readBlockFromDisk pindex with
            | none => none
            | some blockprev =>
              match stake.getModifier chain with
              | none => none
              | some nStakeModifier =>
                if (checkStake chain (stake.getUniqueness chain) stake.getValue nStakeModifier
                    (setCompact block.nBits).bnTarget blockprev.nTime block.nTime).1 then
                  some ((checkStake chain (stake.getUniqueness chain) stake.getValue
                    nStakeModifier (setCompact block.nBits).bnTarget blockprev.nTime
                    block.nTime).2, stake)
                else none := by
  unfold checkProofOfStake kernelInput
  cases block.vtx[1]? with
  | none => rfl
  | some tx =>
    dsimp only
    cases tx.vin with
    | nil => simp
    | cons txin rest =>
      dsimp only
      cases chain.getTransaction txin.prevout.hash with
      | none => simp
      | some found =>
        obtain ⟨txPrev, hashBlock⟩ := found
        dsimp only
        by_cases placed : txin.prevout.n.toNat < txPrev.vout.length
        · rw [dif_pos placed, dif_pos placed]
        · rw [dif_neg placed, dif_neg placed]
          simp

variable {hashProofOfStake : Uint256} {chainHeight : Nat → Int} {nHeightStart : Int}

theorem checkProofOfStake_iff {stake : COxidStake} :
    checkProofOfStake chain block = some (hashProofOfStake, stake) ↔
      ∃ pindexFrom, Spends chain block stake pindexFrom ∧
        MeetsTarget chain block stake pindexFrom hashProofOfStake := by
  rw [checkProofOfStake_input]
  constructor
  · intro accepted
    cases read : kernelInput chain block with
    | none =>
      rw [read] at accepted
      cases accepted
    | some input =>
      obtain ⟨tx, txin, stake'⟩ := input
      rw [read] at accepted
      dsimp only at accepted
      cases coinStake : tx.isCoinStake with
      | false =>
        rw [coinStake] at accepted
        cases accepted
      | true =>
        rw [coinStake, Bool.not_true, if_neg Bool.false_ne_true] at accepted
        split at accepted
        · cases accepted
        · rename_i signed
          rw [Bool.not_eq_true, Bool.not_eq_false'] at signed
          cases indexed : stake'.getIndexFrom chain with
          | none =>
            rw [indexed] at accepted
            cases accepted
          | some pindexFrom =>
            obtain ⟨blockprev, onDisk, time⟩ := getIndexFrom_stored (kernelInput_fresh read) indexed
            cases modifier : getKernelStakeModifier chain pindexFrom.hash with
            | none =>
              simp [indexed, onDisk, COxidStake.getModifier, modifier] at accepted
            | some nStakeModifier =>
              simp only [indexed, onDisk, COxidStake.getModifier, modifier, time] at accepted
              split at accepted
              · rename_i hit
                cases accepted
                exact ⟨pindexFrom, ⟨⟨tx, txin, read, coinStake, signed⟩, indexed⟩, nStakeModifier,
                  modifier, rfl, hit⟩
              · cases accepted
  · rintro ⟨pindexFrom, ⟨⟨tx, txin, read, coinStake, signed⟩, indexed⟩, nStakeModifier, modifier,
      rfl, hit⟩
    obtain ⟨blockprev, onDisk, time⟩ := getIndexFrom_stored (kernelInput_fresh read) indexed
    have found : stake.getModifier chain = some nStakeModifier := by
      unfold COxidStake.getModifier
      rw [indexed]
      exact modifier
    simp only [read, coinStake, signed, indexed, onDisk, found, time, Bool.not_true,
      Bool.false_eq_true, if_false]
    exact if_pos hit

/-- What `CreateCoinStake` looks for: a kernel of a coin from a block of the chain. -/
structure KernelSearch (chain : ChainState) where
  stakeInput : COxidStake
  hashBlock : Uint256
  pindexFrom : StakeIndex
  known : chain.getTransaction (chain.txHash stakeInput.txFrom) =
    some (stakeInput.txFrom, hashBlock)
  indexed : chain.mapBlockIndex hashBlock = some pindexFrom
  inChain : chain.contains pindexFrom = true
  nBits : UInt32
  nTimeTx : UInt32
  chainHeight : Nat → Int
  nHeightStart : Int

namespace KernelSearch

def found (search : KernelSearch chain) : Option (UInt32 × Uint256) :=
  stake chain search.stakeInput search.nBits search.pindexFrom.nTime search.nTimeTx
    search.chainHeight search.nHeightStart

/-- A block made of a kernel: it has the kernel's time and bits, and its coinstake spends the
    coin, signed, in its first input. -/
structure Makes (search : KernelSearch chain) (block : CBlock) (nTimeTx : UInt32) : Prop where
  time : block.nTime = nTimeTx
  bits : block.nBits = search.nBits
  spends : ∃ tx txin rest, block.vtx[1]? = some tx ∧ tx.isCoinStake = true ∧
    tx.vin = txin :: rest ∧
    txin.prevout = ⟨chain.txHash search.stakeInput.txFrom, search.stakeInput.nPosition⟩ ∧
    chain.verifyScript txin.scriptSig search.stakeInput.out.scriptPubKey tx 0 = true

def Agrees (search : KernelSearch chain) : Prop :=
  ∀ nTimeTx hashProofOfStake, search.found = some (nTimeTx, hashProofOfStake) →
    (∃ nStakeModifier, search.stakeInput.getModifier chain = some nStakeModifier ∧
      checkStake chain (search.stakeInput.getUniqueness chain) search.stakeInput.getValue
        nStakeModifier (setCompact search.nBits).bnTarget search.pindexFrom.nTime nTimeTx =
          (true, hashProofOfStake)) ∧
    ∀ block, search.Makes block nTimeTx →
      ∃ stake, checkProofOfStake chain block = some (hashProofOfStake, stake)

end KernelSearch

def OldEnough (chain : ChainState) (block : CBlock) : Prop :=
  ∃ stake pindexFrom, Spends chain block stake pindexFrom ∧
    pindexFrom.nTime.toNat + nStakeMinAge.toNat ≤ block.nTime.toNat

def YoungKernel (chain : ChainState) (block : CBlock) : Prop :=
  ∃ stake pindexFrom hashProofOfStake, Spends chain block stake pindexFrom ∧
    MeetsTarget chain block stake pindexFrom hashProofOfStake ∧
    block.nTime.toNat < pindexFrom.nTime.toNat + nStakeMinAge.toNat

theorem tryTimes_checked {check : UInt32 → Bool × Uint256} {nTimeTx nTryTime : UInt32} {left : Nat}
    (found : tryTimes check chainHeight nHeightStart nTimeTx left =
      some (nTryTime, hashProofOfStake)) : check nTryTime = (true, hashProofOfStake) := by
  induction left with
  | zero => cases found
  | succ left ih =>
    unfold tryTimes at found
    dsimp only at found
    split at found
    · cases found
    · split at found
      · rename_i hit
        cases found
        exact Prod.ext hit rfl
      · exact ih found

theorem stake_checked {stakeInput : COxidStake} {nBits nTimeBlockFrom nTimeTx nTryTime : UInt32}
    (found : stake chain stakeInput nBits nTimeBlockFrom nTimeTx chainHeight nHeightStart =
      some (nTryTime, hashProofOfStake)) :
    ∃ nStakeModifier, stakeInput.getModifier chain = some nStakeModifier ∧
      checkStake chain (stakeInput.getUniqueness chain) stakeInput.getValue nStakeModifier
        (setCompact nBits).bnTarget nTimeBlockFrom nTryTime = (true, hashProofOfStake) := by
  unfold stake at found
  split at found
  · cases found
  · split at found
    · cases found
    · dsimp only at found
      split at found
      · cases found
      · rename_i nStakeModifier modifier
        exact ⟨nStakeModifier, modifier, tryTimes_checked found⟩

def KernelSearch.freshInput (search : KernelSearch chain) : COxidStake :=
  { search.stakeInput with pindexFrom := none }

theorem KernelSearch.getIndexFrom_found (search : KernelSearch chain) (stake : COxidStake)
    (same : stake.txFrom = search.stakeInput.txFrom) :
    stake.getIndexFrom chain = some search.pindexFrom := by
  unfold COxidStake.getIndexFrom
  rw [same, search.known]
  dsimp only
  rw [search.indexed]
  exact if_pos search.inChain

theorem KernelSearch.agrees (search : KernelSearch chain) : search.Agrees := by
  intro nTimeTx hashProofOfStake found
  obtain ⟨nStakeModifier, modifier, checked⟩ := stake_checked found
  refine ⟨⟨nStakeModifier, modifier, checked⟩, ?_⟩
  rintro block ⟨rfl, bits, tx, txin, rest, second, coinStake, inputs, prevout, signed⟩
  have read : kernelInput chain block = some (tx, txin, search.freshInput) := by
    unfold kernelInput
    rw [second]
    dsimp only
    rw [inputs]
    dsimp only
    rw [prevout]
    rw [search.known]
    dsimp only
    rw [dif_pos search.stakeInput.placed]
    rfl
  have from' : getKernelStakeModifier chain search.pindexFrom.hash = some nStakeModifier := by
    unfold COxidStake.getModifier at modifier
    rw [search.getIndexFrom_found search.stakeInput rfl] at modifier
    exact modifier
  refine ⟨search.freshInput, checkProofOfStake_iff.mpr ⟨search.pindexFrom,
    ⟨⟨tx, txin, read, coinStake, signed⟩, search.getIndexFrom_found search.freshInput rfl⟩,
    nStakeModifier, from', ?_, ?_⟩⟩
  · exact (congrArg Prod.snd checked).symm
  · rw [bits]
    have hit := congrArg Prod.fst checked
    have same := congrArg Prod.snd checked
    unfold checkStake at hit same
    dsimp only at hit same
    rw [same] at hit
    exact hit

/-- An accepted block's coin is old enough, and every kernel that is found is accepted,
    unless the block's kernel is too young where only the search looks. -/
theorem validator_agrees_iff (chain : ChainState) (search : KernelSearch chain)
    (block : CBlock) :
    search.Agrees ∧ ((checkProofOfStake chain block).isSome → OldEnough chain block) ↔
      ¬YoungKernel chain block := by
  constructor
  · rintro ⟨-, old⟩ ⟨stake, pindexFrom, hashProofOfStake, spends, meets, young⟩
    have accepted := checkProofOfStake_iff.mpr ⟨pindexFrom, spends, meets⟩
    obtain ⟨stake', pindexFrom', spends', aged⟩ := old (by rw [accepted]; rfl)
    obtain rfl := spends.unique spends'
    omega
  · intro excluded
    refine ⟨search.agrees, fun accepted => ?_⟩
    obtain ⟨⟨hashProofOfStake, stake⟩, accepted⟩ := Option.isSome_iff_exists.mp accepted
    obtain ⟨pindexFrom, spends, meets⟩ := checkProofOfStake_iff.mp accepted
    refine ⟨stake, pindexFrom, spends, ?_⟩
    by_contra young
    exact excluded ⟨stake, pindexFrom, hashProofOfStake, spends, meets, not_le.mp young⟩

end Checks

section Young

def coinTransaction : CTransaction := ⟨1, [], [⟨100 * COIN, [], -10⟩], 0⟩

def genesisIndex : StakeIndex := ⟨0, 0, 1535000000, false, false, 0⟩
def coinIndex : StakeIndex := ⟨1, 1, 1535000060, false, false, 0⟩
def modifierIndex : StakeIndex := ⟨2, 2, 1535004000, true, true, 9⟩

def headerAt (nTime : UInt32) : CBlock :=
  { nVersion := 4, hashPrevBlock := 0, hashMerkleRoot := 0, nTime := nTime, nBits := 0x1e0fffff,
    nNonce := 0, nAccumulatorCheckpoint := 0, vtx := [], vchBlockSig := [] }

def youngChain : ChainState where
  txHash _ := 7
  kernelHash _ := 0
  verifyScript _ _ _ _ := true
  mapBlockIndex hash := [genesisIndex, coinIndex, modifierIndex].find? fun pindex =>
    decide (pindex.hash = hash)
  chainActive := [genesisIndex, coinIndex, modifierIndex]
  getTransaction hash := if hash = 7 then some (coinTransaction, 1) else none
  readBlockFromDisk pindex := some (headerAt pindex.nTime)
  heights := by
    intro height pindex standing
    match height with
    | 0 | 1 | 2 =>
      obtain rfl := Option.some.inj standing
      rfl
    | height + 3 => cases standing
  stored := fun pindex _ => ⟨_, rfl, rfl⟩
  named := by
    intro hash tx hashBlock found
    split at found
    · rename_i same
      exact same.symm
    · cases found

def youngSearch : KernelSearch youngChain where
  stakeInput := ⟨coinTransaction, 0, none, by decide⟩
  hashBlock := 1
  pindexFrom := coinIndex
  known := rfl
  indexed := rfl
  inChain := by decide
  nBits := 0x1e0fffff
  nTimeTx := 1535005000
  chainHeight _ := 2
  nHeightStart := 2

def youngBlock : CBlock :=
  { headerAt 1535005000 with
    vtx := [⟨1, [], [], 0⟩, ⟨1, [⟨⟨7, 0⟩, [], 0xffffffff⟩], [CTxOut.mk 0 [] (-10),
      CTxOut.mk (100 * COIN) [] (-10)], 0⟩] }

theorem young_block_accepted : ¬∀ (chain : ChainState) (search : KernelSearch chain)
    (block : CBlock),
    search.Agrees ∧ ((checkProofOfStake chain block).isSome → OldEnough chain block) := by
  intro promised
  obtain ⟨-, old⟩ := promised youngChain youngSearch youngBlock
  obtain ⟨stake, pindexFrom, spends, aged⟩ := old (by decide +kernel)
  have here : Spends youngChain youngBlock ⟨coinTransaction, 0, none, by decide⟩ coinIndex :=
    ⟨⟨_, _, rfl, rfl, rfl⟩, rfl⟩
  obtain rfl := here.unique spends
  exact absurd aged (by decide)

end Young

section Weights
open OxidChainParams

/-- A coin's value and target, with another of no smaller value and target. -/
structure Stakes (params : ChainParams) where
  nValueIn : Int
  bnTarget : Uint256
  nValueIn' : Int
  bnTarget' : Uint256
  positive : 0 ≤ nValueIn
  values : nValueIn ≤ nValueIn'
  money : nValueIn' ≤ params.nMaxMoneyOut
  word : nValueIn' < 2 ^ 63
  targets : bnTarget ≤ bnTarget'
  limit : bnTarget' ≤ bnTargetLimit

def weighted (nValueIn : Int) (bnTarget : Uint256) : Nat := nValueIn.toNat / 100 * bnTarget.toNat

/-- The hashes under the exact product, and only they, hit the weighted target. -/
def HitsExactly (nValueIn : Int) (bnTarget : Uint256) : Prop :=
  ∀ hashProofOfStake : Uint256, stakeTargetHit hashProofOfStake nValueIn bnTarget = true ↔
    hashProofOfStake.toNat < weighted nValueIn bnTarget

variable {params : ChainParams}

/-- Both products are exact, and what hits the target of the lesser stake hits the other. -/
structure Stakes.WeighsSoundly (stakes : Stakes params) : Prop where
  first : HitsExactly stakes.nValueIn stakes.bnTarget
  second : HitsExactly stakes.nValueIn' stakes.bnTarget'
  monotone : ∀ hashProofOfStake,
    stakeTargetHit hashProofOfStake stakes.nValueIn stakes.bnTarget = true →
      stakeTargetHit hashProofOfStake stakes.nValueIn' stakes.bnTarget' = true

theorem stakeTargetHit_iff {hashProofOfStake : Uint256} {nValueIn : Int} {bnTarget : Uint256}
    (positive : 0 ≤ nValueIn) (word : nValueIn < 2 ^ 63) :
    stakeTargetHit hashProofOfStake nValueIn bnTarget = true ↔
      hashProofOfStake.toNat < weighted nValueIn bnTarget % 2 ^ 256 := by
  have amount : (BitVec.ofInt 64 nValueIn).toNat = nValueIn.toNat := by
    rw [BitVec.toNat_ofInt]
    omega
  have weight : ((BitVec.ofInt 64 nValueIn).setWidth 256 / 100 : Uint256).toNat =
      nValueIn.toNat / 100 := by
    rw [BitVec.toNat_udiv, BitVec.toNat_setWidth, amount,
      Nat.mod_eq_of_lt (show nValueIn.toNat < 2 ^ 256 by omega)]
    rfl
  unfold stakeTargetHit weighted
  rw [decide_eq_true_iff, BitVec.lt_def, BitVec.toNat_mul, weight]

theorem hitsExactly_iff {nValueIn : Int} {bnTarget : Uint256} (positive : 0 ≤ nValueIn)
    (word : nValueIn < 2 ^ 63) :
    HitsExactly nValueIn bnTarget ↔ weighted nValueIn bnTarget < 2 ^ 256 := by
  constructor
  · intro exactly
    have largest := exactly (BitVec.ofNat 256 (2 ^ 256 - 1))
    rw [stakeTargetHit_iff positive word, BitVec.toNat_ofNat] at largest
    omega
  · intro fits hashProofOfStake
    rw [stakeTargetHit_iff positive word, Nat.mod_eq_of_lt fits]

namespace Stakes
variable (stakes : Stakes params)

theorem weighted_mono :
    weighted stakes.nValueIn stakes.bnTarget ≤ weighted stakes.nValueIn' stakes.bnTarget' := by
  have amounts := Int.toNat_le_toNat stakes.values
  have targets := stakes.targets
  exact Nat.mul_le_mul (Nat.div_le_div_right amounts) targets

/-- All is well as long as the product of the greater stake is a number of 256 bits. -/
theorem weighs_soundly_iff :
    stakes.WeighsSoundly ↔ weighted stakes.nValueIn' stakes.bnTarget' < 2 ^ 256 := by
  have positive := stakes.positive
  have word := stakes.word
  have values := stakes.values
  have mono := stakes.weighted_mono
  constructor
  · intro sound
    exact (hitsExactly_iff (by omega) word).mp sound.second
  · intro fits
    have first := (hitsExactly_iff positive (by omega)).mpr (lt_of_le_of_lt mono fits)
    have second := (hitsExactly_iff (by omega) word).mpr fits
    refine ⟨first, second, fun hashProofOfStake hit => ?_⟩
    exact (second hashProofOfStake).mpr (lt_of_lt_of_le ((first hashProofOfStake).mp hit) mono)

end Stakes

def wrappingStakes : Stakes mainParams where
  nValueIn := 1677721600
  bnTarget := (setCompact 0x1e00ffff).bnTarget
  nValueIn' := 1677747300
  bnTarget' := (setCompact 0x1e00ffff).bnTarget
  positive := by decide
  values := by decide
  money := by decide
  word := by decide
  targets := BitVec.le_refl _
  limit := by decide

theorem larger_stake_weaker : ¬∀ (params : ChainParams) (stakes : Stakes params),
    stakes.WeighsSoundly := by
  intro promised
  have lost := (promised mainParams wrappingStakes).monotone (BitVec.ofNat 256 (2 ^ 255))
    (by decide +kernel)
  exact absurd lost (by decide +kernel)

end Weights

end OxidKernel
