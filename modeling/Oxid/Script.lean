import Oxid.Library.Serialize
import Oxid.Primitives

/-!
Scripts as bytes and the instructions read from them. A position in a script is
the bytes from there to its end. Counters over a script are naturals: reading a
script from the network or from disk refuses more than `MAX_SIZE` bytes, and
`sigOpCount_fits` shows that a count over less stays in the `unsigned int`.
-/
namespace OxidScript
open OxidPrimitives

def MAX_SIZE : Nat := 0x02000000
def MAX_SCRIPT_ELEMENT_SIZE : Nat := 520

abbrev Opcode := UInt8

def OP_0 : Opcode := 0x00
def OP_PUSHDATA1 : Opcode := 0x4c
def OP_PUSHDATA2 : Opcode := 0x4d
def OP_PUSHDATA4 : Opcode := 0x4e
def OP_1NEGATE : Opcode := 0x4f
def OP_1 : Opcode := 0x51
def OP_16 : Opcode := 0x60
def OP_NOP : Opcode := 0x61
def OP_IF : Opcode := 0x63
def OP_NOTIF : Opcode := 0x64
def OP_ELSE : Opcode := 0x67
def OP_ENDIF : Opcode := 0x68
def OP_VERIFY : Opcode := 0x69
def OP_TOALTSTACK : Opcode := 0x6b
def OP_FROMALTSTACK : Opcode := 0x6c
def OP_2DROP : Opcode := 0x6d
def OP_2DUP : Opcode := 0x6e
def OP_3DUP : Opcode := 0x6f
def OP_2OVER : Opcode := 0x70
def OP_2ROT : Opcode := 0x71
def OP_2SWAP : Opcode := 0x72
def OP_IFDUP : Opcode := 0x73
def OP_DEPTH : Opcode := 0x74
def OP_DROP : Opcode := 0x75
def OP_DUP : Opcode := 0x76
def OP_NIP : Opcode := 0x77
def OP_OVER : Opcode := 0x78
def OP_PICK : Opcode := 0x79
def OP_ROLL : Opcode := 0x7a
def OP_ROT : Opcode := 0x7b
def OP_SWAP : Opcode := 0x7c
def OP_TUCK : Opcode := 0x7d
def OP_CAT : Opcode := 0x7e
def OP_SUBSTR : Opcode := 0x7f
def OP_LEFT : Opcode := 0x80
def OP_RIGHT : Opcode := 0x81
def OP_SIZE : Opcode := 0x82
def OP_INVERT : Opcode := 0x83
def OP_AND : Opcode := 0x84
def OP_OR : Opcode := 0x85
def OP_XOR : Opcode := 0x86
def OP_EQUAL : Opcode := 0x87
def OP_EQUALVERIFY : Opcode := 0x88
def OP_1ADD : Opcode := 0x8b
def OP_1SUB : Opcode := 0x8c
def OP_2MUL : Opcode := 0x8d
def OP_2DIV : Opcode := 0x8e
def OP_NEGATE : Opcode := 0x8f
def OP_ABS : Opcode := 0x90
def OP_NOT : Opcode := 0x91
def OP_0NOTEQUAL : Opcode := 0x92
def OP_ADD : Opcode := 0x93
def OP_SUB : Opcode := 0x94
def OP_MUL : Opcode := 0x95
def OP_DIV : Opcode := 0x96
def OP_MOD : Opcode := 0x97
def OP_LSHIFT : Opcode := 0x98
def OP_RSHIFT : Opcode := 0x99
def OP_BOOLAND : Opcode := 0x9a
def OP_BOOLOR : Opcode := 0x9b
def OP_NUMEQUAL : Opcode := 0x9c
def OP_NUMEQUALVERIFY : Opcode := 0x9d
def OP_NUMNOTEQUAL : Opcode := 0x9e
def OP_LESSTHAN : Opcode := 0x9f
def OP_GREATERTHAN : Opcode := 0xa0
def OP_LESSTHANOREQUAL : Opcode := 0xa1
def OP_GREATERTHANOREQUAL : Opcode := 0xa2
def OP_MIN : Opcode := 0xa3
def OP_MAX : Opcode := 0xa4
def OP_WITHIN : Opcode := 0xa5
def OP_RIPEMD160 : Opcode := 0xa6
def OP_SHA1 : Opcode := 0xa7
def OP_SHA256 : Opcode := 0xa8
def OP_HASH160 : Opcode := 0xa9
def OP_HASH256 : Opcode := 0xaa
def OP_CODESEPARATOR : Opcode := 0xab
def OP_CHECKSIG : Opcode := 0xac
def OP_CHECKSIGVERIFY : Opcode := 0xad
def OP_CHECKMULTISIG : Opcode := 0xae
def OP_CHECKMULTISIGVERIFY : Opcode := 0xaf
def OP_NOP1 : Opcode := 0xb0
def OP_NOP10 : Opcode := 0xb9
def OP_INVALIDOPCODE : Opcode := 0xff

/-- What `memcpy` of these bytes into a zeroed integer leaves there. -/
def fromLittleEndian : List UInt8 → Nat
  | [] => 0
  | byte :: rest => byte.toNat + 256 * fromLittleEndian rest

theorem fromLittleEndian_lt (bytes : List UInt8) :
    fromLittleEndian bytes < 256 ^ bytes.length := by
  induction bytes with
  | nil => simp [fromLittleEndian]
  | cons byte rest ih =>
    have small : byte.toNat < 256 := byte.toNat_lt
    rw [fromLittleEndian, List.length_cons, Nat.pow_succ]
    omega

/-- What reading one instruction returns: whether it could be read, where the
    reader stands afterwards, the opcode and the data. -/
structure OpRead where
  fRet : Bool
  pc : CScript
  opcodeRet : Opcode
  vchRet : List UInt8
deriving DecidableEq

def failedRead (pc : CScript) : OpRead := ⟨false, pc, OP_INVALIDOPCODE, []⟩

/-- The distance to the end is cut to an `unsigned int` before it is compared. -/
def readData (opcode : Opcode) (nSize : Nat) (pc : CScript) : OpRead :=
  if pc.length % 2 ^ 32 < nSize then failedRead pc
  else ⟨true, pc.drop nSize, opcode, pc.take nSize⟩

def readSized (opcode : Opcode) (width : Nat) (pc : CScript) : OpRead :=
  if pc.length < width then failedRead pc
  else readData opcode (fromLittleEndian (pc.take width)) (pc.drop width)

/-- `GetOp2` from a position on. -/
def getOp : CScript → OpRead
  | [] => failedRead []
  | opcode :: pc =>
    if opcode ≤ OP_PUSHDATA4 then
      if opcode < OP_PUSHDATA1 then readData opcode opcode.toNat pc
      else if opcode = OP_PUSHDATA1 then readSized opcode 1 pc
      else if opcode = OP_PUSHDATA2 then readSized opcode 2 pc
      else readSized opcode 4 pc
    else ⟨true, pc, opcode, []⟩

theorem readData_shape (opcode : Opcode) (nSize : Nat) (pc : CScript) :
    readData opcode nSize pc = failedRead pc ∨
      nSize ≤ pc.length ∧ readData opcode nSize pc = ⟨true, pc.drop nSize, opcode, pc.take nSize⟩ := by
  unfold readData
  split
  · exact Or.inl rfl
  · rename_i enough
    exact Or.inr ⟨by omega, rfl⟩

theorem getOp_pc_suffix (pc : CScript) (read : (getOp pc).fRet = true) :
    ∃ operand, pc = (getOp pc).opcodeRet :: (operand ++ (getOp pc).pc) := by
  have sized : ∀ opcode width rest, (readSized opcode width rest).fRet = true →
      ∃ operand, opcode :: rest =
        (readSized opcode width rest).opcodeRet :: (operand ++ (readSized opcode width rest).pc) := by
    intro opcode width rest
    unfold readSized
    split
    · intro failed
      simp [failedRead] at failed
    · rcases readData_shape opcode (fromLittleEndian (rest.take width)) (rest.drop width) with
        short | ⟨_, whole⟩
      · rw [short]
        intro failed
        simp [failedRead] at failed
      · rw [whole]
        intro _
        refine ⟨rest.take width ++
          (rest.drop width).take (fromLittleEndian (rest.take width)), ?_⟩
        simp
  unfold getOp at read ⊢
  cases pc with
  | nil => simp [failedRead] at read
  | cons opcode rest =>
    simp only at read ⊢
    split_ifs at read ⊢
    · rcases readData_shape opcode opcode.toNat rest with short | ⟨_, whole⟩
      · rw [short] at read
        simp [failedRead] at read
      · rw [whole]
        exact ⟨rest.take opcode.toNat, by simp only [List.take_append_drop]⟩
    · exact sized opcode 1 rest read
    · exact sized opcode 2 rest read
    · exact sized opcode 4 rest read
    · exact ⟨[], rfl⟩

theorem getOp_shorter (pc : CScript) (read : (getOp pc).fRet = true) :
    (getOp pc).pc.length < pc.length := by
  obtain ⟨operand, whole⟩ := getOp_pc_suffix pc read
  have same := congrArg List.length whole
  simp only [List.length_cons, List.length_append] at same
  omega

theorem getOp_advances (opcode : Opcode) (pc : CScript) :
    (getOp (opcode :: pc)).pc.length ≤ pc.length := by
  have data : ∀ opcode nSize (rest : CScript),
      (readData opcode nSize rest).pc.length ≤ rest.length := by
    intro opcode nSize rest
    rcases readData_shape opcode nSize rest with short | ⟨_, whole⟩
    · rw [short]
      exact Nat.le_refl _
    · rw [whole]
      simp
  have sized : ∀ opcode width (rest : CScript),
      (readSized opcode width rest).pc.length ≤ rest.length := by
    intro opcode width rest
    unfold readSized
    split
    · exact Nat.le_refl _
    · have inner := data opcode (fromLittleEndian (rest.take width)) (rest.drop width)
      rw [List.length_drop] at inner
      omega
  simp only [getOp]
  split_ifs
  · exact data _ _ _
  · exact sized _ _ _
  · exact sized _ _ _
  · exact sized _ _ _
  · exact Nat.le_refl _

theorem getOp_plain (opcode : Opcode) (pc : CScript) (plain : ¬ opcode ≤ OP_PUSHDATA4) :
    getOp (opcode :: pc) = ⟨true, pc, opcode, []⟩ := by
  simp only [getOp]
  rw [if_neg plain]

theorem script_induction {motive : CScript → Prop}
    (stops : ∀ pc, (getOp pc).fRet = false → motive pc)
    (reads : ∀ pc, (getOp pc).fRet = true → motive (getOp pc).pc → motive pc) (pc : CScript) :
    motive pc := by
  induction length : pc.length using Nat.strong_induction_on generalizing pc with
  | _ n ih =>
    by_cases read : (getOp pc).fRet = true
    · have shorter := getOp_shorter pc read
      exact reads pc read (ih _ (by omega) _ rfl)
    · exact stops pc (by simpa using read)

theorem script_induction_from {motive : Opcode → CScript → Prop}
    (stops : ∀ last pc, (getOp pc).fRet = false → motive last pc)
    (reads : ∀ last pc, (getOp pc).fRet = true → motive (getOp pc).opcodeRet (getOp pc).pc →
      motive last pc) (last : Opcode) (pc : CScript) : motive last pc := by
  induction pc using script_induction generalizing last with
  | stops pc failed => exact stops last pc failed
  | reads pc read ih => exact reads last pc read (ih _)

/-- The number that an `OP_N` pushes. -/
def decodeOpN (opcode : Opcode) : Nat :=
  if opcode = OP_0 then 0 else opcode.toNat - (OP_1.toNat - 1)

def isSmallNumber (opcode : Opcode) : Bool := OP_1 ≤ opcode && opcode ≤ OP_16

theorem decodeOpN_range (opcode : Opcode) (small : isSmallNumber opcode = true) :
    1 ≤ decodeOpN opcode ∧ decodeOpN opcode ≤ 16 := by
  have first : OP_1.toNat = 0x51 := rfl
  have last : OP_16.toNat = 0x60 := rfl
  simp only [isSmallNumber, Bool.and_eq_true, decide_eq_true_eq, UInt8.le_iff_toNat_le] at small
  have notZero : opcode ≠ OP_0 := by
    rintro rfl
    have zero : OP_0.toNat = 0 := rfl
    omega
  unfold decodeOpN
  rw [if_neg notZero]
  omega

def sigOps (fAccurate : Bool) (lastOpcode opcode : Opcode) : Nat :=
  if opcode = OP_CHECKSIG ∨ opcode = OP_CHECKSIGVERIFY then 1
  else if opcode = OP_CHECKMULTISIG ∨ opcode = OP_CHECKMULTISIGVERIFY then
    if fAccurate && isSmallNumber lastOpcode then decodeOpN lastOpcode else 20
  else 0

def sigOpsFrom (fAccurate : Bool) (lastOpcode : Opcode) (pc : CScript) : Nat :=
  if (getOp pc).fRet = true then
    sigOps fAccurate lastOpcode (getOp pc).opcodeRet +
      sigOpsFrom fAccurate (getOp pc).opcodeRet (getOp pc).pc
  else 0
termination_by pc.length
decreasing_by
  rename_i read
  exact getOp_shorter pc read

def getSigOpCount (script : CScript) (fAccurate : Bool) : Nat :=
  sigOpsFrom fAccurate OP_INVALIDOPCODE script

theorem sigOpsFrom_stops (fAccurate : Bool) (last : Opcode) {pc : CScript}
    (failed : (getOp pc).fRet = false) : sigOpsFrom fAccurate last pc = 0 := by
  rw [sigOpsFrom, if_neg (by simp [failed])]

theorem sigOpsFrom_reads (fAccurate : Bool) (last : Opcode) {pc : CScript}
    (read : (getOp pc).fRet = true) :
    sigOpsFrom fAccurate last pc =
      sigOps fAccurate last (getOp pc).opcodeRet +
        sigOpsFrom fAccurate (getOp pc).opcodeRet (getOp pc).pc := by
  rw [sigOpsFrom, if_pos read]

theorem sigOps_le (last opcode : Opcode) : sigOps true last opcode ≤ sigOps false last opcode := by
  unfold sigOps
  by_cases small : isSmallNumber last = true
  · have range := decodeOpN_range last small
    split_ifs
    all_goals simp_all
    omega
  · simp [small]

theorem sigOpsFrom_le (last : Opcode) (pc : CScript) :
    sigOpsFrom true last pc ≤ sigOpsFrom false last pc := by
  induction last, pc using script_induction_from with
  | stops last pc failed => rw [sigOpsFrom_stops true last failed]; exact Nat.zero_le _
  | reads last pc read ih =>
    rw [sigOpsFrom_reads true last read, sigOpsFrom_reads false last read]
    exact Nat.add_le_add (sigOps_le _ _) ih

def isPayToScriptHash (script : CScript) : Bool :=
  script.length == 23 && script[0]? == some OP_HASH160 && script[1]? == some 0x14 &&
    script[22]? == some OP_EQUAL

/-- What `IsNormalPaymentScript` wants at each instruction. It reads on past an
    instruction that cannot be read. -/
def paymentOps (i : Nat) : CScript → Bool
  | [] => true
  | head :: rest =>
    let opcode := (getOp (head :: rest)).opcodeRet
    if i = 0 ∧ opcode ≠ OP_DUP then false
    else if i = 1 ∧ opcode ≠ OP_HASH160 then false
    else if i = 3 ∧ opcode ≠ OP_EQUALVERIFY then false
    else if i = 4 ∧ opcode ≠ OP_CHECKSIG then false
    else if i = 5 then false
    else paymentOps (i + 1) (getOp (head :: rest)).pc
termination_by pc => pc.length
decreasing_by
  have advanced := getOp_advances head rest
  rw [List.length_cons]
  omega

def isNormalPaymentScript (script : CScript) : Bool :=
  script.length == 25 && paymentOps 0 script

def isPushOnly (pc : CScript) : Bool :=
  if pc.isEmpty then true
  else if (getOp pc).fRet = true then
    if OP_16 < (getOp pc).opcodeRet then false else isPushOnly (getOp pc).pc
  else false
termination_by pc.length
decreasing_by
  rename_i read _
  exact getOp_shorter pc read

def lastPushed (data : List UInt8) (pc : CScript) : Option (List UInt8) :=
  if pc.isEmpty then some data
  else if (getOp pc).fRet = true then
    if OP_16 < (getOp pc).opcodeRet then none
    else lastPushed (getOp pc).vchRet (getOp pc).pc
  else none
termination_by pc.length
decreasing_by
  rename_i read _
  exact getOp_shorter pc read

/-- `GetSigOpCount(const CScript& scriptSig)`. -/
def getSigOpCountFor (scriptPubKey scriptSig : CScript) : Nat :=
  if !isPayToScriptHash scriptPubKey then getSigOpCount scriptPubKey true
  else
    match lastPushed [] scriptSig with
    | none => 0
    | some data => getSigOpCount data true

def pushOf (b : List UInt8) : CScript :=
  if b.length < OP_PUSHDATA1.toNat then UInt8.ofNat b.length :: b
  else if b.length ≤ 0xff then OP_PUSHDATA1 :: Serialize.littleEndian 1 b.length ++ b
  else if b.length ≤ 0xffff then OP_PUSHDATA2 :: Serialize.littleEndian 2 b.length ++ b
  else OP_PUSHDATA4 :: Serialize.littleEndian 4 b.length ++ b

/-- The inner loop of `FindAndDelete`: how often the pattern was taken out at this
    place, and what is left. -/
def eraseHere (b : CScript) (pc : CScript) : Nat × CScript :=
  if b ≠ [] ∧ b.isPrefixOf pc = true then
    let (nFound, left) := eraseHere b (pc.drop b.length)
    (nFound + 1, left)
  else (0, pc)
termination_by pc.length
decreasing_by
  rename_i found
  have fits : b.length ≤ pc.length := (List.isPrefixOf_iff_prefix.mp found.2).length_le
  have filled : 0 < b.length := List.length_pos_iff.mpr found.1
  simp only [List.length_drop]
  omega

theorem eraseHere_length (b pc : CScript) : (eraseHere b pc).2.length ≤ pc.length := by
  induction pc using eraseHere.induct b with
  | case1 pc found nFound left erased ih =>
    rw [eraseHere, if_pos found, erased]
    have cut : (pc.drop b.length).length ≤ pc.length := by simp
    rw [erased] at ih
    exact Nat.le_trans ih cut
  | case2 pc missing =>
    rw [eraseHere, if_neg missing]

/-- `FindAndDelete` from a position on. -/
def findAndDeleteFrom (b pc : CScript) : Nat × CScript :=
  if (getOp (eraseHere b pc).2).fRet = true then
    let left := (eraseHere b pc).2
    let later := findAndDeleteFrom b (getOp left).pc
    ((eraseHere b pc).1 + later.1, left.take (left.length - (getOp left).pc.length) ++ later.2)
  else eraseHere b pc
termination_by pc.length
decreasing_by
  rename_i read
  have shorter := getOp_shorter _ read
  have erased := eraseHere_length b pc
  omega

def findAndDelete (script b : CScript) : Nat × CScript :=
  if b.isEmpty then (0, script) else findAndDeleteFrom b script

end OxidScript
