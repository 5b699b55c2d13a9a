import Oxid.Library.Serialize

/-!
A writer and a reader that agree on some values only. Where a value does not come back the
reader may still accept what was written, as another value.
-/
namespace Serialize

variable {Value : Type}

/-- The values that fit come back as their kept copies, with the stream behind them; no other
    value comes back as its kept copy. -/
structure Restores (write : Value → Bytes) (read : Bytes → Option (Value × Bytes))
    (kept : Value → Value) (Fits : Value → Prop) : Prop where
  back : ∀ value rest, Fits value → read (write value ++ rest) = some (kept value, rest)
  only : ∀ value rest left, read (write value ++ rest) = some (kept value, left) → Fits value

section Vectors

variable {write : Value → Bytes} {read : Bytes → Option (Value × Bytes)} {kept : Value → Value}
  {Fits : Value → Prop}

theorem Restores.iff (restores : Restores write read kept Fits) (value : Value) :
    (∀ rest, read (write value ++ rest) = some (kept value, rest)) ↔ Fits value :=
  ⟨fun back => restores.only value [] [] (back []), fun fits rest => restores.back value rest fits⟩

def readTimes (read : Bytes → Option (Value × Bytes)) :
    Nat → Bytes → Option (List Value × Bytes)
  | 0, stream => some ([], stream)
  | count + 1, stream => do
    let (value, middle) ← read stream
    let (values, rest) ← readTimes read count middle
    some (value :: values, rest)

def writeVector (write : Value → Bytes) (values : List Value) : Bytes :=
  writeCompactSize values.length ++ values.flatMap write

def readVector (read : Bytes → Option (Value × Bytes)) (stream : Bytes) :
    Option (List Value × Bytes) :=
  (readCompactSize stream).bind fun (count, rest) => readTimes read count rest

theorem readTimes_written (restores : Restores write read kept Fits) (values : List Value)
    (rest : Bytes) (fits : ∀ value ∈ values, Fits value) :
    readTimes read values.length (values.flatMap write ++ rest) = some (values.map kept, rest) := by
  induction values with
  | nil => rfl
  | cons value values ih =>
    have later := ih fun other member => fits other (List.mem_cons_of_mem _ member)
    simp only [List.length_cons, readTimes, List.flatMap_cons, List.append_assoc]
    rw [restores.back value _ (fits value List.mem_cons_self)]
    simp [later]

theorem readTimes_only (restores : Restores write read kept Fits) (values : List Value)
    (rest left : Bytes)
    (back : readTimes read values.length (values.flatMap write ++ rest) =
      some (values.map kept, left)) : ∀ value ∈ values, Fits value := by
  induction values with
  | nil => exact fun value member => absurd member List.not_mem_nil
  | cons value values ih =>
    simp only [List.length_cons, readTimes, List.flatMap_cons, List.append_assoc,
      Option.bind_eq_bind, Option.bind_eq_some_iff, Option.some.injEq, Prod.mk.injEq,
      List.map_cons, List.cons.injEq] at back
    obtain ⟨⟨first, middle⟩, head, ⟨others, behind⟩, tail, ⟨rfl, rfl⟩, rfl⟩ := back
    have fits : Fits value := restores.only value _ middle head
    rw [restores.back value _ fits, Option.some.injEq, Prod.mk.injEq] at head
    rw [← head.2] at tail
    intro other member
    rcases List.mem_cons.mp member with same | later
    · rw [same]
      exact fits
    · exact ih tail other later

theorem Restores.vector (restores : Restores write read kept Fits) :
    Restores (writeVector write) (readVector read) (List.map kept)
      fun values => values.length ≤ maxSize ∧ ∀ value ∈ values, Fits value where
  back values rest fits := by
    unfold writeVector readVector
    rw [List.append_assoc, readCompactSize_write, if_pos fits.1, Option.bind_some]
    exact readTimes_written restores values rest fits.2
  only values rest left back := by
    unfold writeVector readVector at back
    rw [List.append_assoc, readCompactSize_write] at back
    by_cases short : values.length ≤ maxSize
    · rw [if_pos short, Option.bind_some] at back
      exact ⟨short, readTimes_only restores values rest left back⟩
    · rw [if_neg short] at back
      cases back

end Vectors

theorem Restores.wrap {Obj : Type} {write : Value → Bytes} {read : Bytes → Option (Value × Bytes)}
    {kept : Value → Value} {Fits : Value → Prop} (restores : Restores write read kept Fits)
    {get : Obj → Value} {make : Value → Obj} (whole : ∀ value, get (make value) = value) :
    Restores (fun obj => write (get obj))
      (fun stream => (read stream).map fun (value, rest) => (make value, rest))
      (fun obj => make (kept (get obj))) fun obj => Fits (get obj) where
  back obj rest fits := by
    rw [restores.back (get obj) rest fits]
    rfl
  only obj rest left back := by
    obtain ⟨⟨value, behind⟩, found, same⟩ := Option.map_eq_some_iff.mp back
    rw [Prod.mk.injEq] at same
    have value_eq : value = kept (get obj) := by
      rw [← whole value, same.1, whole]
    rw [value_eq] at found
    exact restores.only (get obj) rest behind found

end Serialize
