import Mathlib.Data.List.DropRight
import Mathlib.Tactic.Common
import Oxid.Primitives

/-!
Pruned transactions (`CCoins`) and their undo records. A null output, whether stored or
dropped from the end of the vector, is no output.
-/
namespace OxidCoins
open OxidPrimitives

/-- Undo information for one input. The fields after `txout` are set only when
    the input spent the last unspent output of its transaction. -/
structure CTxInUndo where
  txout : CTxOut
  fCoinBase : Bool
  fCoinStake : Bool
  nHeight : UInt32
  nVersion : Int32
deriving DecidableEq, Repr

structure CCoins where
  fCoinBase : Bool
  fCoinStake : Bool
  vout : List CTxOut
  nHeight : Int32
  nVersion : Int32
deriving DecidableEq, Repr

namespace CCoins

/-- The default object, and what `Clear` leaves. -/
def empty : CCoins := ⟨false, false, [], 0, 0⟩

def cleanup (coins : CCoins) : CCoins :=
  { coins with vout := coins.vout.rdropWhile CTxOut.isNull }

def clearUnspendable (coins : CCoins) : CCoins :=
  { coins with
    vout := coins.vout.map fun (out : CTxOut) =>
      if CScript.isUnspendable out.scriptPubKey then CTxOut.null else out : CCoins }.cleanup

def fromTx (tx : CTransaction) (nHeight : Int32) : CCoins :=
  { fCoinBase := tx.isCoinBase, fCoinStake := tx.isCoinStake, vout := tx.vout,
    nHeight := nHeight, nVersion := tx.nVersion : CCoins }.clearUnspendable

def isPruned (coins : CCoins) : Bool := coins.vout.all CTxOut.isNull

def isAvailable (coins : CCoins) (nPos : UInt32) : Bool :=
  match coins.vout[nPos.toNat]? with
  | none => false
  | some out => !out.isNull && !CScript.isZerocoinMint out.scriptPubKey

/-- `operator==`: all pruned coins are equal. -/
def same (a b : CCoins) : Bool :=
  (a.isPruned && b.isPruned) ||
    (a.fCoinBase == b.fCoinBase && a.fCoinStake == b.fCoinStake &&
      a.nHeight == b.nHeight && a.nVersion == b.nVersion && a.vout == b.vout)

def spend (coins : CCoins) (out : COutPoint) : Option (CCoins × CTxInUndo) :=
  match coins.vout[out.n.toNat]? with
  | none => none
  | some txout =>
    if txout.isNull then none
    else
      let spent := { coins with vout := coins.vout.set out.n.toNat CTxOut.null }.cleanup
      if spent.vout.isEmpty then
        some (spent, ⟨txout, coins.fCoinBase, coins.fCoinStake, coins.nHeight.toUInt32,
          coins.nVersion⟩)
      else some (spent, ⟨txout, false, false, 0, 0⟩)

def outputAt (vout : List CTxOut) (n : Nat) : Option CTxOut :=
  vout[n]?.filter fun out => !out.isNull

def output (coins : CCoins) (n : Nat) : Option CTxOut := outputAt coins.vout n

def SameMetadata (a b : CCoins) : Prop :=
  a.fCoinBase = b.fCoinBase ∧ a.fCoinStake = b.fCoinStake ∧
    a.nHeight = b.nHeight ∧ a.nVersion = b.nVersion

instance (a b : CCoins) : Decidable (SameMetadata a b) :=
  inferInstanceAs (Decidable (_ ∧ _ ∧ _ ∧ _))

theorem sameMetadata_refl (a : CCoins) : SameMetadata a a := ⟨rfl, rfl, rfl, rfl⟩

variable {a b : CCoins}

theorem sameMetadata_symm (same : SameMetadata a b) : SameMetadata b a :=
  ⟨same.1.symm, same.2.1.symm, same.2.2.1.symm, same.2.2.2.symm⟩

theorem sameMetadata_trans {a b c : CCoins} (left : SameMetadata a b)
    (right : SameMetadata b c) : SameMetadata a c :=
  ⟨left.1.trans right.1, left.2.1.trans right.2.1, left.2.2.1.trans right.2.2.1,
    left.2.2.2.trans right.2.2.2⟩

theorem same_refl (a : CCoins) : same a a = true := by simp [same]

theorem same_iff (a b : CCoins) :
    same a b = true ↔ (a.isPruned = true ∧ b.isPruned = true) ∨ a = b := by
  cases a
  cases b
  simp only [same, Bool.or_eq_true, Bool.and_eq_true, beq_iff_eq, CCoins.mk.injEq]
  tauto

theorem same_symm (related : same a b = true) : same b a = true := by
  rw [same_iff] at related ⊢
  rcases related with pruned | equal
  · exact Or.inl ⟨pruned.2, pruned.1⟩
  · exact Or.inr equal.symm

theorem same_pruned (related : same a b = true) : a.isPruned = b.isPruned := by
  rcases (same_iff a b).mp related with pruned | equal
  · rw [pruned.1, pruned.2]
  · rw [equal]

theorem same_trans {a b c : CCoins} (left : same a b = true) (right : same b c = true) :
    same a c = true := by
  rw [same_iff] at left right ⊢
  rcases left with leftPruned | rfl
  · rcases right with rightPruned | rfl
    · exact Or.inl ⟨leftPruned.1, rightPruned.2⟩
    · exact Or.inl leftPruned
  · exact right

theorem rdropWhile_getElem_filter {α : Type} (drop : α → Bool) (items : List α) (n : Nat) :
    ((items.rdropWhile drop)[n]?.filter fun x => !drop x) =
      items[n]?.filter fun x => !drop x := by
  induction items using List.reverseRecOn with
  | nil => simp
  | append_singleton front last ih =>
    by_cases dropped : drop last
    · rw [List.rdropWhile_concat_pos _ _ _ dropped, ih]
      by_cases inside : n < front.length
      · rw [List.getElem?_append_left inside]
      · rw [List.getElem?_append_right (by omega), List.getElem?_eq_none (by omega)]
        cases n - front.length with
        | zero => simp [Option.filter, dropped]
        | succ beyond => rfl
    · rw [List.rdropWhile_concat_neg _ _ _ dropped]

@[simp] theorem output_cleanup (coins : CCoins) (n : Nat) :
    coins.cleanup.output n = coins.output n :=
  rdropWhile_getElem_filter CTxOut.isNull coins.vout n

theorem isPruned_iff_output (coins : CCoins) :
    coins.isPruned = true ↔ ∀ n, coins.output n = none := by
  simp only [isPruned, List.all_eq_true, output, outputAt]
  constructor
  · intro allNull n
    cases found : coins.vout[n]? with
    | none => rfl
    | some out => simp [allNull out (List.mem_of_getElem? found)]
  · intro nothing out member
    obtain ⟨n, found⟩ := List.mem_iff_getElem?.mp member
    have absent := nothing n
    rw [found] at absent
    simpa using absent

@[simp] theorem isPruned_cleanup (coins : CCoins) : coins.cleanup.isPruned = coins.isPruned := by
  rw [Bool.eq_iff_iff, isPruned_iff_output, isPruned_iff_output]
  simp

theorem cleanup_vout_eq_nil (coins : CCoins) :
    coins.cleanup.vout = [] ↔ coins.isPruned = true := by
  simp [cleanup, isPruned, List.rdropWhile_eq_nil_iff]

@[simp] theorem isPruned_empty : empty.isPruned = true := rfl

@[simp] theorem output_empty (n : Nat) : empty.output n = none := rfl

def Clean (coins : CCoins) : Prop := coins.cleanup = coins

theorem clean_cleanup (coins : CCoins) : Clean coins.cleanup := by
  simp [Clean, cleanup, List.rdropWhile_idempotent]

theorem clean_isPruned (coins : CCoins) (clean : Clean coins) :
    coins.isPruned = coins.vout.isEmpty := by
  rw [Bool.eq_iff_iff, ← cleanup_vout_eq_nil, clean, List.isEmpty_iff]

end CCoins

end OxidCoins
