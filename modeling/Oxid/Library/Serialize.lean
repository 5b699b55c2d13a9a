import Oxid.Library.OrderedMap

/-!
Byte streams written and read back by one description. A codec says what reading what was
written gives: a kept copy of the value, or a refusal. An object is a list of fields, used
in both directions: a field left off the list comes back as a new object has it.
-/
namespace Serialize
open OrderedMaps

abbrev Bytes := List UInt8

variable {Value Carrier Left Right Key Obj : Type}

structure Codec (Value : Type) where
  write : Value → Bytes
  read : Bytes → Option (Value × Bytes)
  Fits : Value → Prop
  kept : Value → Value
  reads_back (value : Value) (rest : Bytes) (fits : Fits value) :
    read (write value ++ rest) = some (kept value, rest)
  refuses (value : Value) (rest : Bytes) (unfit : ¬ Fits value) :
    read (write value ++ rest) = none

/-- What is read back is what was written. -/
def Codec.Lossless (codec : Codec Value) : Prop := ∀ value, codec.kept value = value

def littleEndian : Nat → Nat → Bytes
  | 0, _ => []
  | width + 1, n => UInt8.ofNat n :: littleEndian width (n / 256)

def readLittleEndian : Nat → Bytes → Option (Nat × Bytes)
  | 0, stream => some (0, stream)
  | _ + 1, [] => none
  | width + 1, byte :: stream =>
    (readLittleEndian width stream).map fun (high, rest) => (byte.toNat + 256 * high, rest)

theorem readLittleEndian_littleEndian (width n : Nat) (rest : Bytes) :
    readLittleEndian width (littleEndian width n ++ rest) = some (n % 256 ^ width, rest) := by
  induction width generalizing n with
  | zero => simp [readLittleEndian, littleEndian, Nat.mod_one]
  | succ width ih =>
    have low : (UInt8.ofNat n).toNat = n % 256 := UInt8.toNat_ofNat'
    simp only [littleEndian, List.cons_append, readLittleEndian, ih, Option.map_some, low]
    rw [Nat.pow_succ', Nat.mod_mul]

def number (width : Nat) : Codec Nat where
  write := littleEndian width
  read := readLittleEndian width
  Fits _ := True
  kept n := n % 256 ^ width
  reads_back n rest _ := readLittleEndian_littleEndian width n rest
  refuses _ _ unfit := absurd trivial unfit

/-- A value written as another type's value, and made again from what is read. -/
def Codec.via (codec : Codec Carrier) (out : Value → Carrier) (into : Carrier → Value) : Codec Value where
  write value := codec.write (out value)
  read stream := (codec.read stream).map fun (inner, rest) => (into inner, rest)
  Fits value := codec.Fits (out value)
  kept value := into (codec.kept (out value))
  reads_back value rest fits := by simp [codec.reads_back (out value) rest fits]
  refuses value rest unfit := by simp [codec.refuses (out value) rest unfit]

def Codec.pair (first : Codec Left) (second : Codec Right) : Codec (Left × Right) where
  write value := first.write value.1 ++ second.write value.2
  read stream := do
    let (left, middle) ← first.read stream
    let (right, rest) ← second.read middle
    some ((left, right), rest)
  Fits value := first.Fits value.1 ∧ second.Fits value.2
  kept value := (first.kept value.1, second.kept value.2)
  reads_back value rest fits := by
    rw [List.append_assoc, first.reads_back value.1 _ fits.1]
    simp [second.reads_back value.2 rest fits.2]
  refuses value rest unfit := by
    rw [List.append_assoc]
    by_cases firstFits : first.Fits value.1
    · have secondUnfit : ¬ second.Fits value.2 := fun fits => unfit ⟨firstFits, fits⟩
      rw [first.reads_back value.1 _ firstFits]
      simp [second.refuses value.2 rest secondUnfit]
    · simp [first.refuses value.1 _ firstFits]

def maxSize : Nat := 0x02000000

def writeCompactSize (n : Nat) : Bytes :=
  if n < 253 then littleEndian 1 n
  else if n ≤ 0xffff then 253 :: littleEndian 2 n
  else if n ≤ 0xffffffff then 254 :: littleEndian 4 n
  else 255 :: littleEndian 8 n

/-- The size after its first byte: a longer form than needed is refused, and so is
    a size above the limit. -/
def checkCompactSize (least : Nat) : Nat × Bytes → Option (Nat × Bytes)
  | (n, rest) => if n < least then none else if maxSize < n then none else some (n, rest)

def readCompactSize : Bytes → Option (Nat × Bytes)
  | [] => none
  | head :: stream =>
    if head < 253 then checkCompactSize 0 (head.toNat, stream)
    else if head = 253 then (readLittleEndian 2 stream).bind (checkCompactSize 253)
    else if head = 254 then (readLittleEndian 4 stream).bind (checkCompactSize 0x10000)
    else (readLittleEndian 8 stream).bind (checkCompactSize 0x100000000)

theorem checkCompactSize_ok {least n : Nat} (long : least ≤ n) (rest : Bytes) :
    checkCompactSize least (n, rest) = if n ≤ maxSize then some (n, rest) else none := by
  simp only [checkCompactSize]
  rw [if_neg (by omega)]
  by_cases large : maxSize < n
  · rw [if_pos large, if_neg (by omega)]
  · rw [if_neg large, if_pos (by omega)]

theorem checkCompactSize_wide {n : Nat} (wide : 0xffffffff < n) (rest : Bytes) :
    checkCompactSize 0x100000000 (n % 256 ^ 8, rest) =
      if n ≤ maxSize then some (n, rest) else none := by
  have limit : maxSize = 0x02000000 := rfl
  rw [if_neg (show ¬ n ≤ maxSize by omega)]
  simp only [checkCompactSize]
  by_cases wrapped : n % 256 ^ 8 < 0x100000000
  · rw [if_pos wrapped]
  · rw [if_neg wrapped, if_pos (by omega)]

theorem readCompactSize_write (n : Nat) (rest : Bytes) :
    readCompactSize (writeCompactSize n ++ rest) =
      if n ≤ maxSize then some (n, rest) else none := by
  unfold writeCompactSize
  split
  · rename_i small
    have byte : (UInt8.ofNat n).toNat = n := by
      rw [UInt8.toNat_ofNat']
      omega
    have short : UInt8.ofNat n < 253 := by
      rw [UInt8.lt_iff_toNat_lt, byte]
      exact small
    simp only [littleEndian, List.cons_append, List.nil_append, readCompactSize]
    rw [if_pos short, byte]
    exact checkCompactSize_ok (Nat.zero_le n) rest
  · rename_i large
    split
    · have whole : n % 256 ^ 2 = n := by omega
      simp only [List.cons_append, readCompactSize, readLittleEndian_littleEndian, whole]
      exact checkCompactSize_ok (by omega) rest
    · split
      · have whole : n % 256 ^ 4 = n := by omega
        simp only [List.cons_append, readCompactSize, readLittleEndian_littleEndian, whole]
        exact checkCompactSize_ok (by omega) rest
      · simp only [List.cons_append, readCompactSize, readLittleEndian_littleEndian]
        exact checkCompactSize_wide (by omega) rest

def readMany (codec : Codec Value) : Nat → Bytes → Option (List Value × Bytes)
  | 0, stream => some ([], stream)
  | count + 1, stream => do
    let (value, middle) ← codec.read stream
    let (values, rest) ← readMany codec count middle
    some (value :: values, rest)

theorem readMany_written (codec : Codec Value) (values : List Value) (rest : Bytes)
    (fits : ∀ value ∈ values, codec.Fits value) :
    readMany codec values.length (values.flatMap codec.write ++ rest) =
      some (values.map codec.kept, rest) := by
  induction values with
  | nil => rfl
  | cons value values ih =>
    have later := ih fun other member => fits other (List.mem_cons_of_mem _ member)
    simp only [List.length_cons, readMany, List.flatMap_cons, List.append_assoc]
    rw [codec.reads_back value _ (fits value List.mem_cons_self)]
    simp [later]

theorem readMany_refuses (codec : Codec Value) (values : List Value) (rest : Bytes)
    (unfit : ¬ ∀ value ∈ values, codec.Fits value) :
    readMany codec values.length (values.flatMap codec.write ++ rest) = none := by
  induction values with
  | nil => exact absurd (by simp) unfit
  | cons value values ih =>
    simp only [List.length_cons, readMany, List.flatMap_cons, List.append_assoc]
    by_cases headFits : codec.Fits value
    · have tailUnfit : ¬ ∀ other ∈ values, codec.Fits other := by
        intro tailFits
        apply unfit
        intro other member
        rcases List.mem_cons.mp member with same | later
        · exact same ▸ headFits
        · exact tailFits other later
      rw [codec.reads_back value _ headFits]
      simp [ih tailUnfit]
    · simp [codec.refuses value _ headFits]

/-- A vector: its size, then its elements. -/
def Codec.list (codec : Codec Value) : Codec (List Value) where
  write values := writeCompactSize values.length ++ values.flatMap codec.write
  read stream := (readCompactSize stream).bind fun (count, rest) => readMany codec count rest
  Fits values := values.length ≤ maxSize ∧ ∀ value ∈ values, codec.Fits value
  kept values := values.map codec.kept
  reads_back values rest fits := by
    rw [List.append_assoc, readCompactSize_write, if_pos fits.1]
    exact readMany_written codec values rest fits.2
  refuses values rest unfit := by
    rw [List.append_assoc, readCompactSize_write]
    by_cases short : values.length ≤ maxSize
    · rw [if_pos short]
      exact readMany_refuses codec values rest fun fits => unfit ⟨short, fits⟩
    · rw [if_neg short]
      rfl

/-- A map: its entries in order, inserted one by one into an empty map. -/
def Codec.map [MapKey Key] (key : Codec Key) (value : Codec Value) :
    Codec (OrderedMap Key Value) :=
  (key.pair value).list.via OrderedMap.entries ((∅ : OrderedMap Key Value).insertAll ·)

/-- One line of an object's field list: a member of the object. -/
structure Member (Obj : Type) where
  Content : Type
  codec : Codec Content
  get : Obj → Content
  set : Obj → Content → Obj

def writeMembers (fields : List (Member Obj)) (obj : Obj) : Bytes :=
  fields.flatMap fun field => field.codec.write (field.get obj)

def readMembers : List (Member Obj) → Obj → Bytes → Option (Obj × Bytes)
  | [], obj, stream => some (obj, stream)
  | field :: fields, obj, stream => do
    let (part, rest) ← field.codec.read stream
    readMembers fields (field.set obj part) rest

def copyMembers : List (Member Obj) → Obj → Obj → Obj
  | [], fresh, _ => fresh
  | field :: fields, fresh, obj =>
    copyMembers fields (field.set fresh (field.codec.kept (field.get obj))) obj

theorem readMembers_written (fields : List (Member Obj)) (fresh obj : Obj) (rest : Bytes)
    (fits : ∀ field ∈ fields, field.codec.Fits (field.get obj)) :
    readMembers fields fresh (writeMembers fields obj ++ rest) =
      some (copyMembers fields fresh obj, rest) := by
  induction fields generalizing fresh with
  | nil => rfl
  | cons field fields ih =>
    have later := fun other member => fits other (List.mem_cons_of_mem _ member)
    simp only [readMembers, writeMembers, List.flatMap_cons, List.append_assoc]
    rw [field.codec.reads_back _ _ (fits field List.mem_cons_self)]
    exact ih _ later

theorem readMembers_refuses (fields : List (Member Obj)) (fresh obj : Obj) (rest : Bytes)
    (unfit : ¬ ∀ field ∈ fields, field.codec.Fits (field.get obj)) :
    readMembers fields fresh (writeMembers fields obj ++ rest) = none := by
  induction fields generalizing fresh with
  | nil => exact absurd (by simp) unfit
  | cons field fields ih =>
    simp only [readMembers, writeMembers, List.flatMap_cons, List.append_assoc]
    by_cases headFits : field.codec.Fits (field.get obj)
    · rw [field.codec.reads_back _ _ headFits]
      apply ih
      intro tailFits
      apply unfit
      intro other member
      rcases List.mem_cons.mp member with same | later
      · exact same ▸ headFits
      · exact tailFits other later
    · simp [field.codec.refuses _ _ headFits]

/-- An object by its field list. Reading starts from a new object. -/
def object (fresh : Obj) (fields : List (Member Obj)) : Codec Obj where
  write := writeMembers fields
  read := readMembers fields fresh
  Fits obj := ∀ field ∈ fields, field.codec.Fits (field.get obj)
  kept := copyMembers fields fresh
  reads_back obj rest fits := readMembers_written fields fresh obj rest fits
  refuses obj rest unfit := readMembers_refuses fields fresh obj rest unfit

theorem list_lossless {codec : Codec Value} (lossless : codec.Lossless) :
    codec.list.Lossless := by
  intro values
  have same : codec.kept = id := funext lossless
  simp only [Codec.list, same, List.map_id]

theorem pair_kept (first : Codec Left) (second : Codec Right) (value : Left × Right) :
    (first.pair second).kept value = (first.kept value.1, second.kept value.2) := rfl

theorem map_kept_entries [MapKey Key] {key : Codec Key} (value : Codec Value)
    (lossless : key.Lossless) (map : OrderedMap Key Value) :
    ((key.map value).kept map).entries =
      map.entries.map fun entry => (entry.1, value.kept entry.2) := by
  have copied : ((key.pair value).list.kept map.entries) =
      map.entries.map fun entry => (entry.1, value.kept entry.2) := by
    apply List.map_congr_left
    intro entry _
    simp only [pair_kept, lossless entry.1]
  simp only [Codec.map, Codec.via, copied]
  apply OrderedMap.insertAll_entries ∅
  exact List.pairwise_map.mpr map.ascending

theorem map_lossless [MapKey Key] {key : Codec Key} {value : Codec Value}
    (keys : key.Lossless) (values : value.Lossless) : (key.map value).Lossless := by
  intro map
  have same : value.kept = id := funext values
  apply OrderedMap.ext
  rw [map_kept_entries value keys, same]
  exact List.map_id _

/-- Reading what was written gives a value with some property exactly when the value
    fits and its kept copy has the property. -/
theorem read_back_iff (codec : Codec Value) (value : Value) (holds : Value → Prop) :
    (∃ loaded, codec.read (codec.write value) = some (loaded, []) ∧ holds loaded) ↔
      codec.Fits value ∧ holds (codec.kept value) := by
  by_cases fits : codec.Fits value
  · have back := codec.reads_back value [] fits
    rw [List.append_nil] at back
    constructor
    · rintro ⟨loaded, read, held⟩
      rw [back] at read
      cases read
      exact ⟨fits, held⟩
    · rintro ⟨_, held⟩
      exact ⟨codec.kept value, back, held⟩
  · have refused := codec.refuses value [] fits
    rw [List.append_nil] at refused
    constructor
    · rintro ⟨loaded, read, _⟩
      rw [refused] at read
      cases read
    · rintro ⟨accepted, _⟩
      exact absurd accepted fits

end Serialize
