import Mathlib.Data.List.AList
import Mathlib.Data.Finmap

/-!
Finite maps edited one slot at a time. An edit that reads and writes a single slot commutes
with looking at any other key, so a loop over the entries of a second map has a pointwise
meaning.
-/
namespace SlotMap

variable {K V W : Type} [DecidableEq K]

abbrev Table (K V : Type) := AList fun _ : K => V

/-- Overwrite one slot: insertion for a value, erasure for nothing. -/
def setSlot (t : Table K V) (k : K) : Option V → Table K V
  | some v => t.insert k v
  | none => t.erase k

@[simp] theorem lookup_setSlot_same (t : Table K V) (k : K) (slot : Option V) :
    (setSlot t k slot).lookup k = slot := by
  cases slot with
  | none => exact AList.lookup_erase k t
  | some v => exact AList.lookup_insert t

theorem lookup_setSlot_other (t : Table K V) {k other : K} (slot : Option V)
    (apart : other ≠ k) : (setSlot t k slot).lookup other = t.lookup other := by
  cases slot with
  | none => exact AList.lookup_erase_ne apart
  | some v => exact AList.lookup_insert_ne apart

theorem lookup_setSlot (t : Table K V) (k other : K) (slot : Option V) :
    (setSlot t k slot).lookup other = if other = k then slot else t.lookup other := by
  split
  · rename_i same
    subst same
    exact lookup_setSlot_same t other slot
  · rename_i apart
    exact lookup_setSlot_other t slot apart

theorem setSlot_insert (t : Table K V) (k : K) (v : V) (slot : Option V) :
    setSlot (t.insert k v) k slot = setSlot t k slot := by
  cases slot with
  | some w => exact AList.insert_insert t
  | none =>
    apply AList.ext
    have removed : (List.kerase k (⟨k, v⟩ :: List.kerase k t.entries)) =
        List.kerase k t.entries := List.kerase_cons_eq rfl
    exact removed

def mergeOne (edit : W → Option V → Option (Option V)) (t : Table K V) (entry : Sigma fun _ : K => W) :
    Option (Table K V) :=
  (edit entry.2 (t.lookup entry.1)).map (setSlot t entry.1)

def mergeAll (edit : W → Option V → Option (Option V)) (t : Table K V) (source : Table K W) :
    Option (Table K V) :=
  source.entries.foldlM (mergeOne edit) t

def mergedSlot (edit : W → Option V → Option (Option V)) (incoming : Option W)
    (slot : Option V) : Option (Option V) :=
  match incoming with
  | none => some slot
  | some w => edit w slot

theorem foldlM_mergeOne_slots (edit : W → Option V → Option (Option V))
    (entries : List (Sigma fun _ : K => W)) (distinct : entries.NodupKeys) (t : Table K V)
    (accepted : ∀ k w, entries.dlookup k = some w → (edit w (t.lookup k)).isSome) :
    ∃ merged, entries.foldlM (mergeOne edit) t = some merged ∧
      ∀ k, mergedSlot edit (entries.dlookup k) (t.lookup k) = some (merged.lookup k) := by
  induction entries generalizing t with
  | nil => exact ⟨t, rfl, fun k => rfl⟩
  | cons entry rest ih =>
    obtain ⟨key, w⟩ := entry
    have headAbsent : key ∉ rest.keys := List.notMem_keys_of_nodupKeys_cons distinct
    have tailDistinct : rest.NodupKeys := List.nodupKeys_of_nodupKeys_cons distinct
    have noKey : rest.dlookup key = none := List.dlookup_eq_none.mpr headAbsent
    obtain ⟨slot, edited⟩ : ∃ slot, edit w (t.lookup key) = some slot :=
      Option.isSome_iff_exists.mp (accepted key w (List.dlookup_cons_eq rest key w))
    have tailAccepted : ∀ k v, rest.dlookup k = some v →
        (edit v ((setSlot t key slot).lookup k)).isSome := by
      intro k v found
      have apart : k ≠ key := by
        intro same
        rw [same, noKey] at found
        cases found
      rw [lookup_setSlot_other t slot apart]
      exact accepted k v (by rwa [List.dlookup_cons_ne rest ⟨key, w⟩ apart])
    obtain ⟨merged, run, slots⟩ := ih tailDistinct (setSlot t key slot) tailAccepted
    have first : mergeOne edit t ⟨key, w⟩ = some (setSlot t key slot) := by
      simp [mergeOne, edited]
    refine ⟨merged, ?_, ?_⟩
    · rw [List.foldlM_cons, first]
      exact run
    · intro k
      by_cases same : k = key
      · subst same
        have here := slots k
        rw [noKey, lookup_setSlot_same] at here
        simp [mergedSlot, edited, ← here]
      · rw [List.dlookup_cons_ne rest ⟨key, w⟩ same]
        have there := slots k
        rwa [lookup_setSlot_other t slot same] at there

theorem mergeAll_slots (edit : W → Option V → Option (Option V)) (t : Table K V)
    (source : Table K W)
    (accepted : ∀ k w, source.lookup k = some w → (edit w (t.lookup k)).isSome) :
    ∃ merged, mergeAll edit t source = some merged ∧
      ∀ k, mergedSlot edit (source.lookup k) (t.lookup k) = some (merged.lookup k) :=
  foldlM_mergeOne_slots edit source.entries source.nodupKeys t accepted

end SlotMap
