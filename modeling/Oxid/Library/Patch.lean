import Mathlib.Logic.Function.Basic
import Mathlib.Tactic.Common

/-!
Patches over a table of records: for each key nothing, or the content it is to
have, which may be none. A patch leaves a table alone exactly when the table
already says what the patch does.
-/
namespace Patches

variable {Key Value : Type}

abbrev Patch (Key Value : Type) := Key → Option (Option Value)

namespace Patch

def apply (patch : Patch Key Value) (records : Key → Option Value) : Key → Option Value :=
  fun key => (patch key).getD (records key)

/-- One patch after another; where both speak the later one holds. -/
def atop (later earlier : Patch Key Value) : Patch Key Value :=
  fun key => (later key).or (earlier key)

theorem apply_atop (later earlier : Patch Key Value) (records : Key → Option Value) :
    (later.atop earlier).apply records = later.apply (earlier.apply records) := by
  funext key
  simp only [apply, atop]
  cases later key <;> rfl

theorem apply_eq_iff (patch : Patch Key Value) (records : Key → Option Value) :
    patch.apply records = records ↔
      ∀ key content, patch key = some content → records key = content := by
  constructor
  · intro same key content told
    rw [← same]
    simp [apply, told]
  · intro agrees
    funext key
    cases told : patch key with
    | none => simp [apply, told]
    | some content => simp [apply, told, agrees key content told]

end Patch

variable [DecidableEq Key]

def erasing (keys : List Key) : Patch Key Value :=
  fun key => if key ∈ keys then some none else none

def single (key : Key) (content : Option Value) : Patch Key Value :=
  fun other => if other = key then some content else none

def writing : List (Key × Value) → Patch Key Value
  | [] => fun _ => none
  | entry :: rest => (writing rest).atop (single entry.1 (some entry.2))

theorem erasing_nil (records : Key → Option Value) : (erasing []).apply records = records := by
  funext key
  simp [erasing, Patch.apply]

theorem single_apply (key : Key) (content : Option Value) (records : Key → Option Value) :
    (single key content).apply records = Function.update records key content := by
  funext other
  by_cases same : other = key
  · subst same
    simp [single, Patch.apply]
  · simp [single, Patch.apply, same]

theorem erasing_append (first second : List Key) (records : Key → Option Value) :
    (erasing (first ++ second)).apply records =
      (erasing second).apply ((erasing first).apply records) := by
  funext key
  by_cases inSecond : key ∈ second
  · simp [erasing, Patch.apply, inSecond]
  · by_cases inFirst : key ∈ first
    · simp [erasing, Patch.apply, inFirst, inSecond]
    · simp [erasing, Patch.apply, inFirst, inSecond]

theorem erasing_one (key : Key) (records : Key → Option Value) :
    (erasing [key]).apply records = Function.update records key none := by
  rw [← single_apply]
  funext other
  simp [erasing, single, Patch.apply]

theorem writing_append (first second : List (Key × Value)) (records : Key → Option Value) :
    (writing (first ++ second)).apply records =
      (writing second).apply ((writing first).apply records) := by
  induction first generalizing records with
  | nil => rfl
  | cons entry rest ih =>
    simp only [List.cons_append, writing, Patch.apply_atop, ih]

theorem writing_one (key : Key) (value : Value) (records : Key → Option Value) :
    (writing [(key, value)]).apply records = Function.update records key (some value) := by
  rw [← single_apply]
  rfl

variable {entries : List (Key × Value)}

theorem writing_wrote {key : Key} {content : Option Value}
    (told : writing entries key = some content) :
    ∃ value, content = some value ∧ (key, value) ∈ entries := by
  induction entries with
  | nil => simp [writing] at told
  | cons entry rest ih =>
    simp only [writing, Patch.atop] at told
    cases later : writing rest key with
    | some found =>
      rw [later] at told
      cases told
      obtain ⟨value, written, inside⟩ := ih later
      exact ⟨value, written, List.mem_cons_of_mem entry inside⟩
    | none =>
      rw [later] at told
      simp only [single, Option.none_or] at told
      split at told
      · rename_i same
        cases told
        exact ⟨entry.2, rfl, by rw [same]; exact List.mem_cons_self⟩
      · cases told

theorem writing_some {records : Key → Option Value} {key : Key}
    (known : key ∈ entries.map Prod.fst ∨ (records key).isSome = true) :
    ((writing entries).apply records key).isSome = true := by
  induction entries generalizing records with
  | nil => simpa [writing, Patch.apply] using known
  | cons entry rest ih =>
    simp only [writing, Patch.apply_atop]
    apply ih
    rw [single_apply]
    by_cases same : key = entry.1
    · rw [same, Function.update_self]
      exact .inr rfl
    · rw [Function.update_of_ne same]
      simpa [same] using known

end Patches
