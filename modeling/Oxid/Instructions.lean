import Mathlib.Data.List.Infix
import Oxid.Script

/-!
Scripts as lists of instructions, written by `operator<<`, read by `GetOp` and taken out by
`FindAndDelete`. The 32-bit numbers that the last two count in may wrap.
-/
namespace OxidInstructions
open OxidPrimitives OxidScript

/-- What is written into a script with `operator<<`. -/
inductive Item where
  | push (b : List UInt8)
  | op (opcode : Opcode)
deriving DecidableEq

/-- A byte vector that an instruction can hold, or an opcode that takes no data. -/
def Item.Written : Item → Prop
  | push b => b.length < 2 ^ 32
  | op opcode => ¬ opcode ≤ OP_PUSHDATA4

def Item.bytes : Item → CScript
  | push b => pushOf b
  | op opcode => [opcode]

def build (items : List Item) : CScript :=
  items.foldl (fun script item => script ++ item.bytes) []

/-- An instruction of a script: its bytes, and what reading it returns. -/
structure Instruction where
  bytes : CScript
  opcode : Opcode
  data : List UInt8
deriving DecidableEq

/-- Only the opcodes up to `OP_PUSHDATA4` stand for their data. -/
def Instruction.item (instruction : Instruction) : Item :=
  if instruction.opcode ≤ OP_PUSHDATA4 then .push instruction.data else .op instruction.opcode

def instructionAt (pc : CScript) : Instruction :=
  ⟨pc.take (pc.length - (getOp pc).pc.length), (getOp pc).opcodeRet, (getOp pc).vchRet⟩

def instructions (pc : CScript) : Option (List Instruction) :=
  if pc.isEmpty then some []
  else if (getOp pc).fRet = true then
    (instructions (getOp pc).pc).map (instructionAt pc :: ·)
  else none
termination_by pc.length
decreasing_by
  rename_i read
  exact getOp_shorter pc read

/-- The bytes from the data of each push to the end of the script, as 32 bits count them, are
    not fewer than the data. -/
def Unwrapped : List Item → Prop
  | [] => True
  | .push b :: rest => b.length ≤ (b.length + (build rest).length) % 2 ^ 32 ∧ Unwrapped rest
  | .op _ :: rest => Unwrapped rest

def bytesOf (instrs : List Instruction) : CScript := instrs.flatMap (·.bytes)

def countedInt (n : Nat) : Int := (n : Int).bmod (2 ^ 32)

section Reading

theorem build_cons (item : Item) (items : List Item) :
    build (item :: items) = item.bytes ++ build items := by
  have flat : ∀ items : List Item, build items = items.flatMap Item.bytes := by
    intro items
    simp [build, List.flatMap_eq_foldl]
  simp [flat]

theorem fromLittleEndian_littleEndian (width n : Nat) (fits : n < 256 ^ width) :
    fromLittleEndian (Serialize.littleEndian width n) = n := by
  induction width generalizing n with
  | zero =>
    have zero : n = 0 := by simpa using fits
    simp [Serialize.littleEndian, fromLittleEndian, zero]
  | succ width ih =>
    have less : n / 256 < 256 ^ width := by
      omega
    simp [Serialize.littleEndian, fromLittleEndian, ih _ less]
    omega

theorem littleEndian_length (width n : Nat) : (Serialize.littleEndian width n).length = width := by
  induction width generalizing n with
  | zero => rfl
  | succ width ih => simp [Serialize.littleEndian, ih]

def pushOpcode (b : List UInt8) : Opcode := (pushOf b).headD 0

theorem readSized_written {opcode : Opcode} {width n : Nat} (fits : n < 256 ^ width)
    (rest : CScript) :
    readSized opcode width (Serialize.littleEndian width n ++ rest) = readData opcode n rest := by
  have size := littleEndian_length width n
  have front : (Serialize.littleEndian width n ++ rest).take width =
      Serialize.littleEndian width n := by simp [size]
  have back : (Serialize.littleEndian width n ++ rest).drop width = rest := by
    simp [size]
  unfold readSized
  simp [front, back, size, fromLittleEndian_littleEndian width n fits]

variable {b : List UInt8}

theorem getOp_push (short : b.length < 2 ^ 32) (rest : CScript) :
    pushOpcode b ≤ OP_PUSHDATA4 ∧
      getOp (pushOf b ++ rest) = readData (pushOpcode b) b.length (b ++ rest) := by
  unfold pushOpcode pushOf
  have first : OP_PUSHDATA1.toNat = 76 := rfl
  split
  · rename_i direct
    have byte : (UInt8.ofNat b.length).toNat = b.length := by
      simp only [UInt8.toNat_ofNat']
      omega
    have under : UInt8.ofNat b.length < OP_PUSHDATA1 := by
      rw [UInt8.lt_iff_toNat_lt, byte]
      exact direct
    have among : UInt8.ofNat b.length ≤ OP_PUSHDATA4 := by
      have last : OP_PUSHDATA4.toNat = 78 := rfl
      rw [UInt8.le_iff_toNat_le, byte]
      omega
    refine ⟨among, ?_⟩
    simp only [List.cons_append, getOp, List.headD_cons, if_pos among, if_pos under, byte]
  · split
    · rename_i one
      have fits : b.length < 256 ^ 1 := by omega
      refine ⟨show OP_PUSHDATA1 ≤ OP_PUSHDATA4 by decide, ?_⟩
      exact readSized_written fits _
    · split
      · rename_i two
        have fits : b.length < 256 ^ 2 := by omega
        refine ⟨show OP_PUSHDATA2 ≤ OP_PUSHDATA4 by decide, ?_⟩
        exact readSized_written fits _
      · have fits : b.length < 256 ^ 4 := by omega
        refine ⟨show OP_PUSHDATA4 ≤ OP_PUSHDATA4 by decide, ?_⟩
        exact readSized_written fits _

theorem push_read_iff (short : b.length < 2 ^ 32) (rest : CScript) :
    (getOp (pushOf b ++ rest)).fRet = true ↔ b.length ≤ (b.length + rest.length) % 2 ^ 32 := by
  rw [(getOp_push short rest).2]
  unfold readData
  split
  · simp_all [failedRead]
  · simp_all

theorem push_read (short : b.length < 2 ^ 32) {rest : CScript}
    (read : (getOp (pushOf b ++ rest)).fRet = true) :
    (getOp (pushOf b ++ rest)).pc = rest ∧
      instructionAt (pushOf b ++ rest) = ⟨pushOf b, pushOpcode b, b⟩ := by
  have reads : getOp (pushOf b ++ rest) = ⟨true, rest, pushOpcode b, b⟩ := by
    rw [(getOp_push short rest).2] at read ⊢
    unfold readData at read ⊢
    split
    · simp_all [failedRead]
    · simp
  unfold instructionAt
  simp [reads]

theorem instructions_nil : instructions [] = some [] := by
  rw [instructions]
  simp

theorem instructions_read {pc : CScript} (read : (getOp pc).fRet = true) :
    instructions pc = (instructions (getOp pc).pc).map (instructionAt pc :: ·) := by
  have shorter := getOp_shorter pc read
  have filled : pc.isEmpty = false := by
    cases pc with
    | nil => simp at shorter
    | cons head rest => rfl
  rw [instructions, if_neg (by simp [filled]), if_pos read]

theorem instructions_failed {pc : CScript} (filled : pc ≠ []) (failed : (getOp pc).fRet = false) :
    instructions pc = none := by
  rw [instructions, if_neg (by simp [filled]), if_neg (by simp [failed])]

theorem readBack_iff {items : List Item} (written : ∀ item ∈ items, item.Written) :
    (instructions (build items)).map (·.map Instruction.item) = some items ↔ Unwrapped items := by
  induction items with
  | nil => simp [build, instructions_nil, Unwrapped]
  | cons item rest ih =>
    have later := ih fun other member => written other (List.mem_cons_of_mem item member)
    have first := written item List.mem_cons_self
    rw [build_cons]
    cases item with
    | push b =>
      have readable := push_read_iff first (build rest)
      simp only [Item.bytes, Unwrapped]
      rw [← readable, ← later]
      by_cases read : (getOp (pushOf b ++ build rest)).fRet = true
      · obtain ⟨left, head⟩ := push_read first read
        have item : Instruction.item ⟨pushOf b, pushOpcode b, b⟩ = .push b := by
          simp [Instruction.item, (getOp_push first (build rest)).1]
        rw [instructions_read read, left, head]
        cases instructions (build rest) <;> simp [read, item]
      · have filled : pushOf b ++ build rest ≠ [] := by
          unfold pushOf
          split_ifs <;> simp
        rw [instructions_failed filled (by simpa using read)]
        simp [read]
    | op opcode =>
      have plain := getOp_plain opcode (build rest) first
      have larger : OP_PUSHDATA4 < opcode := by simpa [Item.Written] using first
      have item : (instructionAt (opcode :: build rest)).item = .op opcode := by
        simp [instructionAt, plain, Instruction.item, larger]
      simp only [Item.bytes, Unwrapped, List.singleton_append]
      rw [instructions_read (by rw [plain]), plain, ← later]
      cases instructions (build rest) <;> simp [item]

end Reading

section Deleting

variable {b : CScript} {pc : CScript} {instrs : List Instruction}

theorem instructions_cons {instr : Instruction}
    (parsed : instructions pc = some (instr :: instrs)) :
    (getOp pc).fRet = true ∧ instructionAt pc = instr ∧
      instructions (getOp pc).pc = some instrs := by
  by_cases empty : pc = []
  · rw [empty, instructions_nil] at parsed
    simp at parsed
  · by_cases read : (getOp pc).fRet = true
    · rw [instructions_read read] at parsed
      obtain ⟨later, rest, same⟩ := Option.map_eq_some_iff.mp parsed
      simp only [List.cons.injEq] at same
      exact ⟨read, same.1, by rw [rest, same.2]⟩
    · rw [instructions_failed empty (by simpa using read)] at parsed
      simp at parsed

theorem instructions_none (parsed : instructions pc = some []) : pc = [] := by
  by_contra filled
  by_cases read : (getOp pc).fRet = true
  · rw [instructions_read read] at parsed
    simp at parsed
  · rw [instructions_failed filled (by simpa using read)] at parsed
    simp at parsed

theorem instructionAt_splits (read : (getOp pc).fRet = true) :
    (instructionAt pc).bytes ++ (getOp pc).pc = pc := by
  obtain ⟨operand, whole⟩ := getOp_pc_suffix pc read
  have size : (pc.length - (getOp pc).pc.length) = ((getOp pc).opcodeRet :: operand).length := by
    have same := congrArg List.length whole
    simp only [List.length_cons, List.length_append] at same ⊢
    omega
  have split : pc = ((getOp pc).opcodeRet :: operand) ++ (getOp pc).pc := by simpa using whole
  have front : (instructionAt pc).bytes = (getOp pc).opcodeRet :: operand := by
    unfold instructionAt
    rw [size]
    conv_lhs => rw [split]
    exact List.take_left' rfl
  rw [front, ← split]

theorem bytesOf_instructions (parsed : instructions pc = some instrs) : bytesOf instrs = pc := by
  induction instrs generalizing pc with
  | nil => simp [bytesOf, instructions_none parsed]
  | cons instr rest ih =>
    obtain ⟨read, head, later⟩ := instructions_cons parsed
    have splits := instructionAt_splits read
    have tail := ih later
    unfold bytesOf at tail ⊢
    rw [List.flatMap_cons, tail, ← head, splits]

theorem readData_small {opcode : Opcode} {nSize : Nat} (small : nSize < 2 ^ 32)
    (read : (readData opcode nSize pc).fRet = true) :
    pc.length < (readData opcode nSize pc).pc.length + 2 ^ 32 := by
  rcases readData_shape opcode nSize pc with short | ⟨enough, whole⟩
  · simp [short, failedRead] at read
  · simp only [whole, List.length_drop]
    omega

theorem readSized_small {opcode : Opcode} {width : Nat} (narrow : width ≤ 4)
    (read : (readSized opcode width pc).fRet = true) :
    pc.length < (readSized opcode width pc).pc.length + 4 + 2 ^ 32 := by
  have small : fromLittleEndian (pc.take width) < 2 ^ 32 := by
    have bound := fromLittleEndian_lt (pc.take width)
    have fewer : (pc.take width).length ≤ 4 := by simp; omega
    have power : 256 ^ (pc.take width).length ≤ 256 ^ 4 := Nat.pow_le_pow_right (by decide) fewer
    omega
  unfold readSized at read ⊢
  split
  · rename_i less
    rw [if_pos less] at read
    simp [failedRead] at read
  · rename_i enough
    rw [if_neg enough] at read
    have inner := readData_small small read
    simp only [List.length_drop] at inner
    omega

theorem getOp_small (read : (getOp pc).fRet = true) :
    pc.length < (getOp pc).pc.length + 5 + 2 ^ 32 := by
  cases pc with
  | nil => simp [getOp, failedRead] at read
  | cons opcode rest =>
    simp only [getOp] at read ⊢
    rw [List.length_cons]
    split_ifs at read ⊢
    · have byte := opcode.toNat_lt
      have inner := readData_small (by omega) read
      omega
    · have inner := readSized_small (by decide) read
      omega
    · have inner := readSized_small (by decide) read
      omega
    · have inner := readSized_small (by decide) read
      omega
    · change rest.length + 1 < rest.length + 5 + 2 ^ 32
      omega

theorem eraseHere_found (filled : b ≠ []) (rest : CScript) :
    eraseHere b (b ++ rest) = ((eraseHere b rest).1 + 1, (eraseHere b rest).2) := by
  have found : b ≠ [] ∧ b.isPrefixOf (b ++ rest) = true := ⟨filled, by simp⟩
  rw [eraseHere, if_pos found, List.drop_left]

theorem eraseHere_other (other : ¬ b <+: pc) : eraseHere b pc = (0, pc) := by
  rw [eraseHere, if_neg]
  rintro ⟨_, found⟩
  exact other (List.isPrefixOf_iff_prefix.mp found)

theorem findAndDeleteFrom_found (filled : b ≠ []) (rest : CScript) :
    findAndDeleteFrom b (b ++ rest) =
      ((findAndDeleteFrom b rest).1 + 1, (findAndDeleteFrom b rest).2) := by
  rw [findAndDeleteFrom, findAndDeleteFrom, eraseHere_found filled]
  split
  · simp only [Prod.mk.injEq, and_true]
    omega
  · rfl

theorem findAndDeleteFrom_other (other : ¬ b <+: pc) (read : (getOp pc).fRet = true) :
    findAndDeleteFrom b pc = ((findAndDeleteFrom b (getOp pc).pc).1,
      (instructionAt pc).bytes ++ (findAndDeleteFrom b (getOp pc).pc).2) := by
  rw [findAndDeleteFrom, eraseHere_other other, if_pos read]
  simp [instructionAt]

theorem findAndDeleteFrom_nil (filled : b ≠ []) : findAndDeleteFrom b [] = (0, []) := by
  have other : ¬ b <+: [] := by simpa using filled
  rw [findAndDeleteFrom, eraseHere_other other]
  simp [getOp, failedRead]

theorem findAndDelete_filters (filled : b ≠ []) (parsed : instructions pc = some instrs)
    (rigid : ∀ instr later, instr :: later <:+ instrs → b <+: bytesOf (instr :: later) →
      instr.bytes = b) :
    findAndDeleteFrom b pc =
      (instrs.countP (·.bytes == b), bytesOf (instrs.filter (·.bytes != b))) := by
  induction instrs generalizing pc with
  | nil => simp [instructions_none parsed, findAndDeleteFrom_nil filled, bytesOf]
  | cons instr rest ih =>
    have whole := bytesOf_instructions parsed
    obtain ⟨read, head, tail⟩ := instructions_cons parsed
    have later := ih tail fun other more below =>
      rigid other more (below.trans (List.suffix_cons instr rest))
    have splits := instructionAt_splits read
    rw [head] at splits
    by_cases same : instr.bytes = b
    · rw [same] at splits
      rw [← splits, findAndDeleteFrom_found filled, later]
      simp [same]
    · have other : ¬ b <+: pc := by
        rw [← whole]
        exact fun found => same (rigid instr rest (List.suffix_refl _) found)
      rw [findAndDeleteFrom_other other read, later, head]
      simp [same, bytesOf]

theorem findAndDeleteFrom_le (b pc : CScript) :
    (findAndDeleteFrom b pc).2.length ≤ pc.length := by
  induction pc using findAndDeleteFrom.induct b with
  | case1 pc read left ih =>
    have cut := eraseHere_length b pc
    have shorter := getOp_shorter _ read
    change (findAndDeleteFrom b (getOp (eraseHere b pc).2).pc).2.length ≤
      (getOp (eraseHere b pc).2).pc.length at ih
    rw [findAndDeleteFrom, if_pos read]
    simp only [List.length_append, List.length_take]
    omega
  | case2 pc stopped =>
    rw [findAndDeleteFrom, if_neg stopped]
    exact eraseHere_length b pc

theorem findAndDeleteFrom_shorter (filled : b ≠ []) (parsed : instructions pc = some instrs)
    {later : List Instruction} (inside : later <:+ instrs) (stands : b <+: bytesOf later) :
    (findAndDeleteFrom b pc).2.length < pc.length := by
  have size : 0 < b.length := List.length_pos_iff.mpr filled
  have here (found : b <+: pc) : (findAndDeleteFrom b pc).2.length < pc.length := by
    obtain ⟨rest, rfl⟩ := found
    have less := findAndDeleteFrom_le b rest
    rw [findAndDeleteFrom_found filled, List.length_append]
    dsimp only
    omega
  induction instrs generalizing pc with
  | nil =>
    rw [List.suffix_nil.mp inside] at stands
    exact absurd (by simpa [bytesOf] using stands) filled
  | cons instr rest ih =>
    have whole := bytesOf_instructions parsed
    by_cases found : b <+: pc
    · exact here found
    · obtain ⟨read, head, tail⟩ := instructions_cons parsed
      have splits := congrArg List.length (instructionAt_splits read)
      rcases List.suffix_cons_iff.mp inside with same | below
      · rw [same, whole] at stands
        exact absurd stands found
      · have less := ih tail below fun found => by
          obtain ⟨last, same⟩ := found
          have cut := findAndDeleteFrom_le b last
          rw [← same, findAndDeleteFrom_found filled, List.length_append]
          dsimp only
          omega
        rw [findAndDeleteFrom_other found read]
        simp only [List.length_append] at splits ⊢
        omega

theorem pushOf_filled (v : List UInt8) : pushOf v ≠ [] := by
  unfold pushOf
  split_ifs <;> simp

theorem pushOf_long {v : List UInt8} (long : 0xffff < v.length) :
    (pushOf v).length = 5 + v.length := by
  have first : OP_PUSHDATA1.toNat = 76 := rfl
  unfold pushOf
  rw [if_neg (by omega), if_neg (by omega), if_neg (by omega)]
  simp [littleEndian_length]
  omega

theorem countedInt_iff (n : Nat) : countedInt n = n ↔ n < 2 ^ 31 := by
  unfold countedInt
  rw [Int.bmod_def]
  split <;> omega

end Deleting

def ReadBack (items : List Item) : Prop :=
  (instructions (build items)).map (·.map Instruction.item) = some items

/-- `FindAndDelete(CScript(v))` returns how many instructions of the script are the push of a
    vector, and leaves the others as they are. -/
def Deletes (script : CScript) (instrs : List Instruction) (v : List UInt8) : Prop :=
  countedInt (findAndDelete script (pushOf v)).1 = instrs.countP (·.bytes == pushOf v) ∧
    (findAndDelete script (pushOf v)).2 = bytesOf (instrs.filter (·.bytes != pushOf v))

def Nowhere (instrs : List Instruction) (b : CScript) : Prop :=
  ∀ later, later <:+ instrs → ¬ b <+: bytesOf later

section Exactly

variable {script : CScript} {instrs : List Instruction} {v : List UInt8}

theorem findAndDelete_from (script : CScript) (v : List UInt8) :
    findAndDelete script (pushOf v) = findAndDeleteFrom (pushOf v) script := by
  unfold findAndDelete
  rw [if_neg (by simpa using pushOf_filled v)]

section
variable (parsed : instructions script = some instrs)
include parsed

variable {instr : Instruction}

theorem parsed_suffix {later : List Instruction} (inside : instr :: later <:+ instrs) :
    ∃ pc, instructions pc = some (instr :: later) := by
  induction instrs generalizing script with
  | nil => simp at inside
  | cons first rest ih =>
    rcases List.suffix_cons_iff.mp inside with same | below
    · exact ⟨script, by rw [parsed, same]⟩
    · exact ih (instructions_cons parsed).2.2 below

theorem push_rigid (short : v.length < 2 ^ 32) {later : List Instruction}
    (inside : instr :: later <:+ instrs) (stands : pushOf v <+: bytesOf (instr :: later)) :
    instr.bytes = pushOf v := by
  obtain ⟨pc, here⟩ := parsed_suffix parsed inside
  obtain ⟨read, head, tail⟩ := instructions_cons here
  rw [bytesOf_instructions here] at stands
  obtain ⟨rest, rfl⟩ := stands
  rw [← head, (push_read short read).2]

theorem push_deletes_iff (short : v.length < 2 ^ 32) :
    Deletes script instrs v ↔ instrs.countP (·.bytes == pushOf v) < 2 ^ 31 := by
  have filters := findAndDelete_filters (pushOf_filled v) parsed
    fun instr later inside stands => push_rigid parsed short inside stands
  unfold Deletes
  rw [findAndDelete_from, filters]
  simp [countedInt_iff]

theorem long_apart (long : 2 ^ 32 ≤ v.length) (member : instr ∈ instrs) :
    instr.bytes ≠ pushOf v := by
  obtain ⟨before, later, split⟩ := List.append_of_mem member
  obtain ⟨pc, here⟩ := @parsed_suffix script instrs parsed instr later ⟨before, split.symm⟩
  obtain ⟨read, head, _⟩ := instructions_cons here
  intro same
  have splits := congrArg List.length (instructionAt_splits read)
  have small := getOp_small read
  rw [head, same, List.length_append, pushOf_long (by omega)] at splits
  omega

theorem long_deletes_iff (long : 2 ^ 32 ≤ v.length) :
    Deletes script instrs v ↔ Nowhere instrs (pushOf v) := by
  have apart : ∀ instr ∈ instrs, instr.bytes ≠ pushOf v :=
    fun instr member => long_apart parsed long member
  have none' : instrs.countP (·.bytes == pushOf v) = 0 := by
    simpa [List.countP_eq_zero] using apart
  have all : instrs.filter (·.bytes != pushOf v) = instrs := by
    simpa [List.filter_eq_self] using apart
  unfold Deletes
  rw [findAndDelete_from, none', all, bytesOf_instructions parsed]
  constructor
  · rintro ⟨_, whole⟩ later inside stands
    have less := findAndDeleteFrom_shorter (pushOf_filled v) parsed inside stands
    rw [whole] at less
    exact Nat.lt_irrefl _ less
  · intro nowhere
    have filters := findAndDelete_filters (pushOf_filled v) parsed
      fun instr later inside stands => absurd stands (nowhere _ inside)
    rw [filters, none', all, bytesOf_instructions parsed]
    exact ⟨(countedInt_iff 0).mpr (by decide), rfl⟩

end

end Exactly

/-- What `operator<<` writes is read back by `GetOp` exactly where no comparison of sizes
    wraps. `FindAndDelete` takes out exactly the pushes of a vector where there are fewer of
    them than its `int` counts, and a vector that no instruction can hold where its bytes do not
    stand at the beginning of one. -/
theorem scripts_exact_iff {items : List Item} (written : ∀ item ∈ items, item.Written)
    {script : CScript} {instrs : List Instruction} (parsed : instructions script = some instrs)
    (v : List UInt8) :
    (ReadBack items ↔ Unwrapped items) ∧
      (Deletes script instrs v ↔ (v.length < 2 ^ 32 ∨ Nowhere instrs (pushOf v)) ∧
        instrs.countP (·.bytes == pushOf v) < 2 ^ 31) := by
  constructor
  · exact readBack_iff written
  · by_cases short : v.length < 2 ^ 32
    · rw [push_deletes_iff parsed short, and_iff_right (.inl short)]
    · have long : 2 ^ 32 ≤ v.length := by omega
      have apart : ∀ instr ∈ instrs, instr.bytes ≠ pushOf v :=
        fun instr member => long_apart parsed long member
      have none' : instrs.countP (·.bytes == pushOf v) = 0 := by
        simpa [List.countP_eq_zero] using apart
      rw [long_deletes_iff parsed long, none', or_iff_right short, and_iff_left (by decide)]

theorem key_script_exact :
    ReadBack [.push [7, 8], .op OP_CHECKSIG] ∧
      Deletes [2, 7, 8, OP_CHECKSIG] [⟨[2, 7, 8], 2, [7, 8]⟩, ⟨[OP_CHECKSIG], OP_CHECKSIG, []⟩]
        [7, 8] := by
  have written : ∀ item ∈ ([.push [7, 8], .op OP_CHECKSIG] : List Item), item.Written := by
    simp only [List.mem_cons, List.not_mem_nil, or_false, forall_eq_or_imp, forall_eq]
    exact ⟨by simp [Item.Written], by simp [Item.Written]; decide⟩
  obtain ⟨reads, deletes⟩ := @scripts_exact_iff _ written [2, 7, 8, OP_CHECKSIG]
    [⟨[2, 7, 8], 2, [7, 8]⟩, ⟨[OP_CHECKSIG], OP_CHECKSIG, []⟩] (by decide +kernel) [7, 8]
  exact ⟨reads.mpr (by simp [Unwrapped, build, Item.bytes]),
    deletes.mpr ⟨.inl (by decide), by decide⟩⟩

def wrappingItems : List Item :=
  [.push (List.replicate 75 0), .push (List.replicate (2 ^ 32 - 80) 0)]

theorem wrapping_items_lost :
    (∀ item ∈ wrappingItems, item.Written) ∧ ¬ ReadBack wrappingItems ∧
      ¬ ((∀ items : List Item, (∀ item ∈ items, item.Written) → ReadBack items) ∧
        ∀ (script : CScript) (instrs : List Instruction), instructions script = some instrs →
          ∀ v : List UInt8, Deletes script instrs v) := by
  have written : ∀ item ∈ wrappingItems, item.Written := by
    intro item member
    rcases List.mem_cons.mp member with same | other
    · rw [same, Item.Written, List.length_replicate]
      decide
    · rw [List.mem_singleton.mp other, Item.Written, List.length_replicate]
      decide
  have lost : ¬ ReadBack wrappingItems := by
    have size : (build [.push (List.replicate (2 ^ 32 - 80) 0)]).length = 2 ^ 32 - 75 := by
      rw [build_cons, Item.bytes, List.length_append, pushOf_long (by rw [List.length_replicate]; decide),
        List.length_replicate]
      rfl
    intro back
    have first := ((readBack_iff written).mp back).1
    rw [size, List.length_replicate] at first
    revert first
    decide
  exact ⟨written, lost, fun sound => lost (sound.1 wrappingItems written)⟩

end OxidInstructions
