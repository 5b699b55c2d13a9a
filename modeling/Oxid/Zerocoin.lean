import Oxid.Primitives

/-!
Zerocoin denominations, the parts of a spend and a mint the node looks at, and
the zerocoin database. Deserialisation belongs to the zerocoin library and is a
parameter. Database keys are the numbers themselves in place of their hashes.
-/
namespace OxidZerocoin
open OxidPrimitives

inductive CoinDenomination where
  | ZQ_ERROR | ZQ_ONE | ZQ_FIVE | ZQ_TEN | ZQ_FIFTY | ZQ_ONE_HUNDRED | ZQ_FIVE_HUNDRED
  | ZQ_ONE_THOUSAND | ZQ_FIVE_THOUSAND
deriving DecidableEq, Repr

def zerocoinDenomList : List CoinDenomination :=
  [.ZQ_ONE, .ZQ_FIVE, .ZQ_TEN, .ZQ_FIFTY, .ZQ_ONE_HUNDRED, .ZQ_FIVE_HUNDRED, .ZQ_ONE_THOUSAND,
    .ZQ_FIVE_THOUSAND]

def intToZerocoinDenomination (amount : Int) : CoinDenomination :=
  match amount with
  | 1 => .ZQ_ONE
  | 5 => .ZQ_FIVE
  | 10 => .ZQ_TEN
  | 50 => .ZQ_FIFTY
  | 100 => .ZQ_ONE_HUNDRED
  | 500 => .ZQ_FIVE_HUNDRED
  | 1000 => .ZQ_ONE_THOUSAND
  | 5000 => .ZQ_FIVE_THOUSAND
  | _ => .ZQ_ERROR

def zerocoinDenominationToInt : CoinDenomination → Int
  | .ZQ_ERROR => 0
  | .ZQ_ONE => 1
  | .ZQ_FIVE => 5
  | .ZQ_TEN => 10
  | .ZQ_FIFTY => 50
  | .ZQ_ONE_HUNDRED => 100
  | .ZQ_FIVE_HUNDRED => 500
  | .ZQ_ONE_THOUSAND => 1000
  | .ZQ_FIVE_THOUSAND => 5000

def amountToZerocoinDenomination (amount : Int) : CoinDenomination :=
  if amount - COIN * amount.tdiv COIN = 0 then intToZerocoinDenomination (amount.tdiv COIN)
  else .ZQ_ERROR

def zerocoinDenominationToAmount (denomination : CoinDenomination) : Int :=
  COIN * zerocoinDenominationToInt denomination

structure CoinSpend where
  coinSerialNumber : Int
  denomination : CoinDenomination
  accumulatorChecksum : UInt32
deriving DecidableEq, Repr

structure PublicCoin where
  value : Int
  denomination : CoinDenomination
deriving DecidableEq, Repr

/-- What the node takes from the zerocoin library. `txInToZerocoinSpend` may throw. -/
structure ZerocoinLibrary where
  txInToZerocoinSpend : CTxIn → Option CoinSpend
  mintValue : CScript → Int

def txOutToPublicCoin (zerocoin : ZerocoinLibrary) (txout : CTxOut) : Option PublicCoin :=
  let denomination := amountToZerocoinDenomination txout.nValue
  if denomination = .ZQ_ERROR then none
  else some ⟨zerocoin.mintValue txout.scriptPubKey, denomination⟩

structure CZerocoinDB where
  coinMints : Int → Option Uint256
  coinSpends : Int → Option Uint256
  accumulatorValues : UInt32 → Option Int

namespace CZerocoinDB

def empty : CZerocoinDB := ⟨fun _ => none, fun _ => none, fun _ => none⟩

def writeCoinMint (db : CZerocoinDB) (pubCoin : PublicCoin) (hashTx : Uint256) : CZerocoinDB :=
  { db with coinMints := Function.update db.coinMints pubCoin.value (some hashTx) }

def eraseCoinMint (db : CZerocoinDB) (value : Int) : CZerocoinDB :=
  { db with coinMints := Function.update db.coinMints value none }

def writeCoinSpend (db : CZerocoinDB) (serial : Int) (hashTx : Uint256) : CZerocoinDB :=
  { db with coinSpends := Function.update db.coinSpends serial (some hashTx) }

def eraseCoinSpend (db : CZerocoinDB) (serial : Int) : CZerocoinDB :=
  { db with coinSpends := Function.update db.coinSpends serial none }

def writeAccumulatorValue (db : CZerocoinDB) (nChecksum : UInt32) (value : Int) : CZerocoinDB :=
  { db with accumulatorValues := Function.update db.accumulatorValues nChecksum (some value) }

def eraseAccumulatorValue (db : CZerocoinDB) (nChecksum : UInt32) : CZerocoinDB :=
  { db with accumulatorValues := Function.update db.accumulatorValues nChecksum none }

end CZerocoinDB

def parseChecksum (nChecksum : Uint256) (denomination : CoinDenomination) : UInt32 :=
  let pos := zerocoinDenomList.idxOf denomination
  UInt32.ofNat (nChecksum >>> (32 * ((zerocoinDenomList.length - 1) - pos))).toNat

def eraseAccumulatorValues (db : CZerocoinDB) (nCheckpointErase nCheckpointPrevious : Uint256) :
    CZerocoinDB :=
  zerocoinDenomList.foldl (fun db denomination =>
    let nChecksumErase := parseChecksum nCheckpointErase denomination
    if nChecksumErase = parseChecksum nCheckpointPrevious denomination then db
    else db.eraseAccumulatorValue nChecksumErase) db

end OxidZerocoin
