import Oxid.Library.OrderedMap
import Oxid.Primitives

/-!
The keys by which the node's maps are ordered.
-/
namespace OxidMapKeys
open OxidPrimitives OrderedMaps

instance : MapKey Uint256 := ⟨BitVec.toNat, fun _ _ same => BitVec.eq_of_toNat_eq same⟩

def outPointPlace (out : COutPoint) : Nat := out.hash.toNat * 2 ^ 32 + out.n.toNat

theorem outPointPlace_apart : Function.Injective outPointPlace := by
  intro a b same
  have aBound := a.n.toNat_lt
  have bBound := b.n.toNat_lt
  simp only [outPointPlace] at same
  have hashes : a.hash.toNat = b.hash.toNat := by omega
  have indexes : a.n.toNat = b.n.toNat := by omega
  cases a
  cases b
  simp only [COutPoint.mk.injEq]
  exact ⟨BitVec.eq_of_toNat_eq hashes, UInt32.toNat_inj.mp indexes⟩

instance : MapKey COutPoint := ⟨outPointPlace, outPointPlace_apart⟩

/-- The order of the integers, shifted to start at zero. -/
instance : MapKey Int32 where
  place number := (number.toInt + 2 ^ 31).toNat
  apart := by
    intro a b same
    have aBound := a.le_toInt
    have bBound := b.le_toInt
    apply Int32.toInt_inj.mp
    simp only at same
    omega

end OxidMapKeys
