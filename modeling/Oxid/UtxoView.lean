import Oxid.CacheStackRefinement

/-!
The coins view a block is applied to: one cache over a parent whose answers do
not change while the block is worked on. The view carries the part of the cache
invariant that restoring coins relies on.
-/
namespace OxidUtxoView
open OxidPrimitives OxidCoins OxidCoinsViewCache SlotMap

structure UtxoView where
  cacheCoins : CCoinsMap
  hashBlock : Uint256
  base : Uint256 → Option CCoins
  baseBestBlock : Uint256
  fresh_over_pruned : ∀ txid entry, cacheCoins.lookup txid = some entry → entry.fresh = true →
    ((base txid).getD CCoins.empty).isPruned = true

def slotFresh (slot : Option CCoinsCacheEntry) (fallback : Option CCoins) : Bool :=
  (openedEntry slot fallback).fresh

/-- What `ModifyCoins` hands out for a slot. -/
def slotCoins (slot : Option CCoinsCacheEntry) (fallback : Option CCoins) : CCoins :=
  (openedEntry slot fallback).coins

def SlotSound (slot : Option CCoinsCacheEntry) (fallback : Option CCoins) : Prop :=
  ∀ entry, slot = some entry → entry.fresh = true →
    (fallback.getD CCoins.empty).isPruned = true

variable {fallback : Option CCoins}

theorem slotFresh_pruned {slot : Option CCoinsCacheEntry} (sound : SlotSound slot fallback)
    (fresh : slotFresh slot fallback = true) :
    (fallback.getD CCoins.empty).isPruned = true := by
  cases slot with
  | some entry => exact sound entry rfl fresh
  | none =>
    cases fallback with
    | none => rfl
    | some coins => exact fresh

theorem editedSlot_sound {slot : Option CCoinsCacheEntry} (sound : SlotSound slot fallback)
    (edit : CCoins → CCoins) :
    SlotSound (editedSlot slot fallback edit) fallback := by
  intro entry found fresh
  simp only [editedSlot, closedSlot] at found
  split at found
  · cases found
  · cases found
    exact slotFresh_pruned sound fresh

theorem slotFresh_editedSlot {slot : Option CCoinsCacheEntry} (sound : SlotSound slot fallback)
    (edit : CCoins → CCoins) :
    slotFresh (editedSlot slot fallback edit) fallback = slotFresh slot fallback := by
  simp only [editedSlot, closedSlot]
  split
  · rename_i erased
    simp only [Bool.and_eq_true] at erased
    have fresh : slotFresh slot fallback = true := erased.1
    rw [fresh]
    have pruned := slotFresh_pruned sound fresh
    cases fallback with
    | none => rfl
    | some coins => exact pruned
  · rfl

theorem slotCoins_editedSlot (slot : Option CCoinsCacheEntry) (fallback : Option CCoins)
    (edit : CCoins → CCoins) :
    slotCoins (editedSlot slot fallback edit) fallback =
      if slotFresh slot fallback = true ∧ (edit (slotCoins slot fallback)).isPruned = true then
        fallback.getD CCoins.empty
      else (edit (slotCoins slot fallback)).cleanup := by
  simp only [editedSlot, closedSlot, CCoins.isPruned_cleanup, Bool.and_eq_true]
  split
  · rename_i erased
    rw [if_pos (show slotFresh slot fallback = true ∧
      (edit (slotCoins slot fallback)).isPruned = true from erased)]
    cases fallback <;> rfl
  · rename_i kept
    rw [if_neg (show ¬(slotFresh slot fallback = true ∧
      (edit (slotCoins slot fallback)).isPruned = true) from kept)]
    rfl

namespace UtxoView

def slot (view : UtxoView) (txid : Uint256) : Option CCoinsCacheEntry :=
  view.cacheCoins.lookup txid

def coins (view : UtxoView) (txid : Uint256) : CCoins := slotCoins (view.slot txid) (view.base txid)

theorem sound (view : UtxoView) (txid : Uint256) : SlotSound (view.slot txid) (view.base txid) :=
  view.fresh_over_pruned txid

def setCoins (view : UtxoView) (txid : Uint256) (coins : CCoins) : UtxoView where
  cacheCoins := setSlot view.cacheCoins txid
    (editedSlot (view.slot txid) (view.base txid) fun _ => coins)
  hashBlock := view.hashBlock
  base := view.base
  baseBestBlock := view.baseBestBlock
  fresh_over_pruned := by
    intro other entry found
    rw [lookup_setSlot] at found
    split at found
    · rename_i same
      subst same
      exact editedSlot_sound (view.sound other) _ entry found
    · exact view.fresh_over_pruned other entry found

def setBestBlock (view : UtxoView) (hashBlockIn : Uint256) : UtxoView :=
  { view with hashBlock := hashBlockIn }

def getBestBlock (view : UtxoView) : Uint256 :=
  if view.hashBlock = 0 then view.baseBestBlock else view.hashBlock

@[simp] theorem base_setCoins (view : UtxoView) (txid : Uint256) (coins : CCoins) :
    (view.setCoins txid coins).base = view.base := rfl

theorem slot_setCoins (view : UtxoView) (txid other : Uint256) (coins : CCoins) :
    (view.setCoins txid coins).slot other =
      if other = txid then editedSlot (view.slot other) (view.base other) fun _ => coins
      else view.slot other := by
  simp only [slot, setCoins, lookup_setSlot]
  split
  · rename_i same
    rw [same]
  · rfl

end UtxoView

end OxidUtxoView
