import Oxid.Library.OrderedMap

/-!
Maps with every value changed and the keys as they were, and maps with some entries left
out, by what a lookup finds.
-/
namespace OrderedMaps

variable {Key Value Other : Type} [MapKey Key]

namespace OrderedMap

def mapValues (change : Value → Other) (map : OrderedMap Key Value) : OrderedMap Key Other :=
  ⟨map.entries.map fun entry => (entry.1, change entry.2),
    List.Pairwise.map _ (fun _ _ before => before) map.ascending⟩

theorem findEntry_map (change : Value → Other) (key : Key) (entries : List (Key × Value)) :
    findEntry key (entries.map fun entry => (entry.1, change entry.2)) =
      (findEntry key entries).map change := by
  induction entries with
  | nil => rfl
  | cons first rest ih =>
    simp only [List.map_cons, findEntry]
    split_ifs
    · rfl
    · exact ih

@[simp] theorem find?_mapValues (change : Value → Other) (map : OrderedMap Key Value) (key : Key) :
    (map.mapValues change).find? key = (map.find? key).map change :=
  findEntry_map change key map.entries

theorem find?_filter {keep : Key × Value → Bool} {map : OrderedMap Key Value} {key : Key}
    {value : Value} :
    (map.filter keep).find? key = some value ↔
      map.find? key = some value ∧ keep (key, value) = true := by
  rw [← mem_entries_iff, ← mem_entries_iff]
  exact List.mem_filter

end OrderedMap

end OrderedMaps
