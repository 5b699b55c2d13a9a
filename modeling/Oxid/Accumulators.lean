import Oxid.ConnectBlock
import Oxid.Library.Packing

/-!
Accumulator checkpoints. Every tenth block folds the mints of ten earlier blocks into the
values that the checkpoint before it names in the database. The checksums kept in memory are
never read here. The modular power of the accumulators and the checksum of a value are
parameters.
-/
namespace OxidAccumulators
open OxidPrimitives OxidChainParams OxidNode OxidZerocoin OxidConnectBlock

structure AccumulatorRules where
  accumulatorBase : Int
  /-- `increment`: a value to the power of a coin, by the modulus of the parameters. -/
  increment : Int → Int → Int
  getChecksum : Int → UInt32

abbrev AccumulatorMap := CoinDenomination → Int

inductive Ending where
  | failed
  | nullPointer
deriving DecidableEq

section Rules

variable (rules : AccumulatorRules)

def reset : AccumulatorMap := fun _ => rules.accumulatorBase

def loadFrom (values : AccumulatorValues) (nCheckpoint : Uint256) :
    List CoinDenomination → AccumulatorMap → AccumulatorMap × Bool
  | [], mapAccumulators => (mapAccumulators, true)
  | denom :: rest, mapAccumulators =>
    match values (parseChecksum nCheckpoint denom) with
    | none => (mapAccumulators, false)
    | some bnValue =>
      loadFrom values nCheckpoint rest (Function.update mapAccumulators denom bnValue)

def load (values : AccumulatorValues) (nCheckpoint : Uint256) (mapAccumulators : AccumulatorMap) :
    AccumulatorMap × Bool := loadFrom values nCheckpoint zerocoinDenomList mapAccumulators

def increase (mapAccumulators : AccumulatorMap) (pubCoin : PublicCoin) : AccumulatorMap :=
  Function.update mapAccumulators pubCoin.denomination
    (rules.increment (mapAccumulators pubCoin.denomination) pubCoin.value)

def accumulate (mapAccumulators : AccumulatorMap) (pubCoin : PublicCoin) :
    Option AccumulatorMap :=
  if pubCoin.denomination = .ZQ_ERROR then none else some (increase rules mapAccumulators pubCoin)

def getCheckpoint (mapAccumulators : AccumulatorMap) : Uint256 :=
  (zerocoinDenomList.map fun denom => (rules.getChecksum (mapAccumulators denom)).toNat).foldl
    (fun (nCheckpoint : Uint256) nCheckSum => nCheckpoint <<< 32 ||| BitVec.ofNat 256 nCheckSum) 0

def databaseChecksums (mapAccumulators : AccumulatorMap) (values : AccumulatorValues) :
    AccumulatorValues :=
  zerocoinDenomList.foldl (fun values denom =>
    Function.update values (rules.getChecksum (mapAccumulators denom))
      (some (mapAccumulators denom))) values

def accumulateCoins : List PublicCoin → AccumulatorMap → Option AccumulatorMap
  | [], mapAccumulators => some mapAccumulators
  | pubcoin :: rest, mapAccumulators =>
    match accumulate rules mapAccumulators pubcoin with
    | none => none
    | some mapAccumulators => accumulateCoins rest mapAccumulators

end Rules

section Mints

variable (machinery : Machinery) (params : ChainParams) (invalid : InvalidMaps)
  (fFilterInvalid : Bool)

def pubcoinsOfOutputs (txid : Uint256) : List CTxOut → Nat → Option (List PublicCoin)
  | [], _ => some []
  | txOut :: rest, i =>
    if fFilterInvalid && !validOutPoint params invalid ⟨txid, UInt32.ofNat i⟩ INT_MAX then some []
    else if CScript.isZerocoinMint txOut.scriptPubKey then
      match txOutToPublicCoin machinery.zerocoin txOut with
      | none => none
      | some pubCoin => (pubcoinsOfOutputs txid rest (i + 1)).map fun later => pubCoin :: later
    else pubcoinsOfOutputs txid rest (i + 1)

def blockToPubcoinList : List CTransaction → Option (List PublicCoin)
  | [] => some []
  | tx :: rest =>
    if !tx.isZerocoinMint || (fFilterInvalid && !tx.vin.all fun txin =>
        validOutPoint params invalid txin.prevout INT_MAX) then
      blockToPubcoinList rest
    else
      match pubcoinsOfOutputs machinery params invalid fFilterInvalid (machinery.txHash tx) tx.vout 0
        with
      | none => none
      | some mints => (blockToPubcoinList rest).map fun later => mints ++ later

end Mints

section Checkpoints

variable (rules : AccumulatorRules) (machinery : Machinery) (node : Node) (invalid : InvalidMaps)

def pubcoinsOf (fFilterInvalid : Bool) (pindex : CBlockIndex) : Option (List PublicCoin) :=
  (node.readBlockFromDisk pindex.hash).bind fun block =>
    blockToPubcoinList machinery node.params invalid fFilterInvalid block.vtx

/-- The entries from a height on. Walking off the active chain gives a null pointer. -/
def entriesFrom (nHeight : Int) : List CBlockIndex :=
  if nHeight < 0 then [] else node.chainActive.drop nHeight.toNat

def accumulateBlocks (fShutdown : CBlockIndex → Bool) (fFilterInvalid : Bool) (nHeight : Int) :
    List CBlockIndex → AccumulatorMap → Nat → Except Ending (AccumulatorMap × Nat)
  | [], _, _ => .error .nullPointer
  | pindex :: rest, mapAccumulators, nTotalMintsFound =>
    if pindex.nHeight < nHeight - 10 then
      if fShutdown pindex then .error .failed
      else if pindex.nHeight < node.params.nZerocoinStartHeight then
        accumulateBlocks fShutdown fFilterInvalid nHeight rest mapAccumulators nTotalMintsFound
      else
        match pubcoinsOf machinery node invalid fFilterInvalid pindex with
        | none => .error .failed
        | some listPubcoins =>
          match accumulateCoins rules listPubcoins mapAccumulators with
          | none => .error .failed
          | some mapAccumulators =>
            accumulateBlocks fShutdown fFilterInvalid nHeight rest mapAccumulators
              (nTotalMintsFound + listPubcoins.length)
    else .ok (mapAccumulators, nTotalMintsFound)

def eraseCheckpoint (listCheckpointsPrev : List UInt32) (nCheckpointDelete : Uint256)
    (values : AccumulatorValues) : AccumulatorValues :=
  zerocoinDenomList.foldl (fun values denom =>
    if listCheckpointsPrev.any fun checksum => BitVec.ofNat 256 checksum.toNat == nCheckpointDelete
    then values
    else Function.update values (parseChecksum nCheckpointDelete denom) none) values

def eraseEntries (listCheckpointsPrev : List UInt32) (nEndHeight : Int) :
    List CBlockIndex → AccumulatorValues → Except Ending AccumulatorValues
  | [], _ => .error .nullPointer
  | pindex :: rest, values =>
    let values := eraseCheckpoint listCheckpointsPrev pindex.nAccumulatorCheckpoint values
    if pindex.nHeight + 1 ≤ nEndHeight then eraseEntries listCheckpointsPrev nEndHeight rest values
    else .ok values

def eraseCheckpoints (nStartHeight nEndHeight : Int) (values : AccumulatorValues) :
    Except Ending AccumulatorValues :=
  if node.height < nStartHeight then .error .failed
  else
    match node.at? (nStartHeight - 1) with
    | none => .error .nullPointer
    | some pprev =>
      eraseEntries
        (zerocoinDenomList.map fun denom => parseChecksum pprev.nAccumulatorCheckpoint denom)
        (min node.height nEndHeight) (entriesFrom node nStartHeight) values

structure FoldStart where
  mapAccumulators : AccumulatorMap
  entries : List CBlockIndex
  values : AccumulatorValues

def recalculation (nHeight : Int) (values : AccumulatorValues) : Except Ending FoldStart :=
  let nLastGood := node.params.nBlockLastGoodCheckpoint
  match node.at? nLastGood with
  | none => .error .nullPointer
  | some lastGood =>
    let (mapAccumulators, loaded) := load values lastGood.nAccumulatorCheckpoint (reset rules)
    if !loaded then .error .failed
    else
      match eraseCheckpoints node (nLastGood + 1) nHeight values with
      | .error ending => .error ending
      | .ok values => .ok ⟨mapAccumulators, entriesFrom node (nLastGood - 10), values⟩

def loadPrevious (values : AccumulatorValues) (nCheckpoint : Uint256) :
    Except Ending AccumulatorMap :=
  let (mapAccumulators, loaded) := load values nCheckpoint (reset rules)
  if loaded then .ok mapAccumulators
  else if nCheckpoint = 0 then .ok (reset rules)
  else .error .failed

def foldStart (nHeight : Int) (values : AccumulatorValues) (nCheckpoint : Uint256) :
    Except Ending FoldStart :=
  match loadPrevious rules values nCheckpoint with
  | .error ending => .error ending
  | .ok mapAccumulators =>
    if nHeight = node.params.nBlockRecalculateAccumulators then
      recalculation rules node nHeight values
    else .ok ⟨mapAccumulators, entriesFrom node (nHeight - 20), values⟩

/-- `CalculateAccumulatorCheckpoint`, with the checksums it leaves in the database where it
    returns true. -/
def calculateAccumulatorCheckpoint (fShutdown : CBlockIndex → Bool) (nHeight : Int)
    (values : AccumulatorValues) : Except Ending (Uint256 × AccumulatorValues) :=
  if nHeight < node.params.nZerocoinStartHeight then .ok (0, values)
  else
    match node.at? (nHeight - 1) with
    | none => .error .nullPointer
    | some previous =>
      if nHeight % 10 ≠ 0 then .ok (previous.nAccumulatorCheckpoint, values)
      else
        match foldStart rules node nHeight values previous.nAccumulatorCheckpoint with
        | .error ending => .error ending
        | .ok start =>
          let fFilterInvalid := decide (node.params.nBlockRecalculateAccumulators ≤ nHeight)
          match accumulateBlocks rules machinery node invalid fShutdown fFilterInvalid nHeight
            start.entries start.mapAccumulators 0 with
          | .error ending => .error ending
          | .ok (mapAccumulators, nTotalMintsFound) =>
            let nCheckpoint :=
              if nTotalMintsFound = 0 then previous.nAccumulatorCheckpoint
              else getCheckpoint rules mapAccumulators
            .ok (nCheckpoint, databaseChecksums rules mapAccumulators start.values)

end Checkpoints

end OxidAccumulators
