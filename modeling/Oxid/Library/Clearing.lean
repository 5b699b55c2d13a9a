import Oxid.Library.OrderedMap

/-!
Maps with some keys cleared and everything else as it was.
-/
namespace Clearing
open OrderedMaps

variable {Key Value Item : Type} [MapKey Key]

/-- Exactly the entries under some keys are gone. -/
structure Cleared (gone : Key → Prop) (before after : OrderedMap Key Value) : Prop where
  taken : ∀ key, gone key → after.find? key = none
  kept : ∀ key, ¬gone key → after.find? key = before.find? key

variable {gone more : Key → Prop} {before between after : OrderedMap Key Value}

theorem Cleared.none (idle : ∀ key, gone key → before.find? key = .none) :
    Cleared gone before before where
  taken := idle
  kept _ _ := rfl

theorem Cleared.andThen (first : Cleared gone before between)
    (second : Cleared more between after) :
    Cleared (fun key => gone key ∨ more key) before after where
  taken := by
    intro key either
    by_cases later : more key
    · exact second.taken key later
    · rw [second.kept key later]
      exact first.taken key (either.resolve_right later)
  kept := by
    intro key neither
    obtain ⟨sooner, later⟩ := not_or.mp neither
    rw [second.kept key later, first.kept key sooner]

theorem Cleared.congr (cleared : Cleared gone before after)
    (same : ∀ key, before.count key = true → (gone key ↔ more key)) :
    Cleared more before after := by
  have absent : ∀ key, before.count key = false → after.find? key = .none := by
    intro key missing
    have nothing : before.find? key = .none := by
      unfold OrderedMap.count at missing
      exact Option.isNone_iff_eq_none.mp (by simpa using missing)
    by_cases went : gone key
    · exact cleared.taken key went
    · rw [cleared.kept key went, nothing]
  constructor
  · intro key went
    cases held : before.count key with
    | false => exact absent key held
    | true => exact cleared.taken key ((same key held).mpr went)
  · intro key stays
    cases held : before.count key with
    | false =>
      rw [absent key held]
      unfold OrderedMap.count at held
      exact (Option.isNone_iff_eq_none.mp (by simpa using held)).symm
    | true => exact cleared.kept key fun went => stays ((same key held).mp went)

theorem Cleared.gone_iff (cleared : Cleared gone before after) {key : Key}
    (held : before.count key = true) : gone key ↔ after.find? key = .none := by
  constructor
  · exact cleared.taken key
  · intro absent
    by_contra stays
    rw [cleared.kept key stays] at absent
    unfold OrderedMap.count at held
    rw [absent] at held
    cases held

theorem Cleared.iff (cleared : Cleared gone before after) :
    Cleared more before after ↔ ∀ key, before.count key = true → (gone key ↔ more key) := by
  constructor
  · intro claimed key held
    rw [cleared.gone_iff held, claimed.gone_iff held]
  · exact cleared.congr

theorem cleared_erase (map : OrderedMap Key Value) (key : Key) :
    Cleared (fun other => other = key) map (map.erase key) where
  taken := by
    rintro other rfl
    exact OrderedMap.find?_erase_same map other
  kept other different := OrderedMap.find?_erase_other map different

theorem cleared_erases (items : List Item) (keyOf : Item → Key) (map : OrderedMap Key Value) :
    Cleared (fun key => key ∈ items.map keyOf) map
      (items.foldl (fun map item => map.erase (keyOf item)) map) := by
  induction items generalizing map with
  | nil => exact Cleared.none fun key listed => absurd listed (List.not_mem_nil)
  | cons item rest ih =>
    apply ((cleared_erase map (keyOf item)).andThen (ih _)).congr
    intro key _
    rw [List.map_cons, List.mem_cons]

end Clearing
