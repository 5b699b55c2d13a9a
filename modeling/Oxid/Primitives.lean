import Mathlib.Data.BitVec

/-!
Transactions and blocks as the node holds them in memory. Amounts are integers:
int64 overflow is undefined in the source, and the one place that looks for it,
`CTransaction.getValueOut`, throws instead. Hashes are not stored. A
transaction's hash is a parameter of the definitions that need it.
-/
namespace OxidPrimitives

abbrev Uint256 := BitVec 256
abbrev CScript := List UInt8

instance Uint256.lawfulBEq : LawfulBEq Uint256 := inferInstance

def COIN : Int := 100000000
def CENT : Int := 1000000
def maxInt64 : Int := 9223372036854775807

def OP_RETURN : UInt8 := 0x6a
def OP_ZEROCOINMINT : UInt8 := 0xc1
def OP_ZEROCOINSPEND : UInt8 := 0xc2

def CScript.isUnspendable (script : CScript) : Bool := script.head? == some OP_RETURN

def CScript.isZerocoinMint (script : CScript) : Bool := script.head? == some OP_ZEROCOINMINT

def CScript.isZerocoinSpend (script : CScript) : Bool := script.head? == some OP_ZEROCOINSPEND

structure COutPoint where
  hash : Uint256
  n : UInt32
deriving DecidableEq, Repr

def COutPoint.null : COutPoint := ⟨0, 0xffffffff⟩

def COutPoint.isNull (out : COutPoint) : Bool := out.hash == 0 && out.n == 0xffffffff

structure CTxIn where
  prevout : COutPoint
  scriptSig : CScript
  nSequence : UInt32
deriving DecidableEq, Repr

structure CTxOut where
  nValue : Int
  scriptPubKey : CScript
  nRounds : Int32
deriving DecidableEq, Repr

namespace CTxOut

/-- A default constructed output, and what `SetNull` leaves. -/
def null : CTxOut := ⟨-1, [], -10⟩

def isNull (out : CTxOut) : Bool := out.nValue == -1

def isEmpty (out : CTxOut) : Bool := out.nValue == 0 && out.scriptPubKey.isEmpty

/-- Constant in the source, unlike the predicate of the same name on scripts. -/
def isZerocoinMint (_out : CTxOut) : Bool := false

@[simp] theorem isNull_null : null.isNull = true := rfl

end CTxOut

structure CTransaction where
  nVersion : Int32
  vin : List CTxIn
  vout : List CTxOut
  nLockTime : UInt32
deriving DecidableEq, Repr

namespace CTransaction

/-- Sum of the outputs. `none` where the source throws: a negative value, or a
    sum that leaves the int64 range. -/
def sumOutputs (total : Int) : List CTxOut → Option Int
  | [] => some total
  | out :: rest =>
    if out.nValue < 0 then none
    else if maxInt64 < total + out.nValue then none
    else sumOutputs (total + out.nValue) rest

def getValueOut (tx : CTransaction) : Option Int := sumOutputs 0 tx.vout

def isZerocoinSpend (tx : CTransaction) : Bool :=
  match tx.vin with
  | [] => false
  | first :: _ => first.prevout.isNull && CScript.isZerocoinSpend first.scriptSig

def isZerocoinMint (tx : CTransaction) : Bool :=
  tx.vout.any fun out => CScript.isZerocoinMint out.scriptPubKey

def containsZerocoins (tx : CTransaction) : Bool := tx.isZerocoinSpend || tx.isZerocoinMint

def isCoinBase (tx : CTransaction) : Bool :=
  match tx.vin with
  | [only] => only.prevout.isNull && !tx.containsZerocoins
  | _ => false

def isCoinStake (tx : CTransaction) : Bool :=
  match tx.vin, tx.vout with
  | first :: _, marker :: _ :: _ => !first.prevout.isNull && marker.isEmpty
  | _, _ => false

theorem sumOutputs_total (outs : List CTxOut) (start total : Int)
    (run : sumOutputs start outs = some total) :
    total = start + (outs.map CTxOut.nValue).sum ∧ ∀ out ∈ outs, 0 ≤ out.nValue := by
  induction outs generalizing start with
  | nil =>
    simp only [sumOutputs, Option.some.injEq] at run
    exact ⟨by simp [run], by simp⟩
  | cons out rest ih =>
    simp only [sumOutputs] at run
    split at run
    · cases run
    · split at run
      · cases run
      · rename_i nonnegative _
        obtain ⟨sum, later⟩ := ih (start + out.nValue) run
        refine ⟨by simp only [sum, List.map_cons, List.sum_cons]; omega, ?_⟩
        intro other member
        rcases List.mem_cons.mp member with first | tail
        · subst first
          omega
        · exact later other tail

end CTransaction

structure CBlockHeader where
  nVersion : Int32
  hashPrevBlock : Uint256
  hashMerkleRoot : Uint256
  nTime : UInt32
  nBits : UInt32
  nNonce : UInt32
  nAccumulatorCheckpoint : Uint256
deriving DecidableEq, Repr

structure CBlock extends CBlockHeader where
  vtx : List CTransaction
  vchBlockSig : List UInt8
deriving DecidableEq, Repr

def CBlock.isProofOfStake (block : CBlock) : Bool :=
  match block.vtx with
  | _ :: second :: _ => second.isCoinStake
  | _ => false

def CBlock.isProofOfWork (block : CBlock) : Bool := !block.isProofOfStake

end OxidPrimitives
