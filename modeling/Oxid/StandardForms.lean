import Oxid.BlockSignature
import Oxid.CreateTransaction
import Oxid.Instructions

/-!
The forms of output scripts by the instructions they hold. On the opcode of a mint alone
`Solver` makes a vector out of what follows the second byte.
-/
namespace OxidStandardForms
open OxidPrimitives OxidScript OxidStandard OxidInstructions OxidScriptNum OxidMasternode
open OxidBlockSignature OxidCoinSelection OxidCreateTransaction

def contents (pc : CScript) : Option (List (Opcode × List UInt8)) :=
  (instructions pc).map (·.map fun instr => (instr.opcode, instr.data))

def KeySized (vch : valtype) : Prop := 33 ≤ vch.length ∧ vch.length ≤ 65

def smallByte (opcode : Opcode) : valtype := [UInt8.ofNat (decodeOpN opcode)]

/-- The forms of the standard output scripts, with the data they match. -/
inductive Form (script : CScript) : txnouttype → List valtype → Prop where
  | scriptHash {hash : valtype} (twenty : hash.length = 20)
      (reads : contents script = some [(OP_HASH160, []), (20, hash), (OP_EQUAL, [])]) :
      Form script .TX_SCRIPTHASH [hash]
  | zerocoinMint {size : UInt8} {mint : valtype}
      (begins : script = OP_ZEROCOINMINT :: size :: mint) (short : script.length ≤ 150) :
      Form script .TX_ZEROCOINMINT [mint]
  | nullData {pushes : List (Opcode × List UInt8)}
      (reads : contents script = some ((OP_RETURN, []) :: pushes))
      (only : ∀ push ∈ pushes, push.1 ≤ OP_16) : Form script .TX_NULL_DATA []
  | pubKey {push : Opcode} {key : valtype} (sized : KeySized key)
      (reads : contents script = some [(push, key), (OP_CHECKSIG, [])]) :
      Form script .TX_PUBKEY [key]
  | pubKeyHash {push : Opcode} {hash : valtype} (twenty : hash.length = 20)
      (reads : contents script = some [(OP_DUP, []), (OP_HASH160, []), (push, hash),
        (OP_EQUALVERIFY, []), (OP_CHECKSIG, [])]) :
      Form script .TX_PUBKEYHASH [hash]
  | multisig {m n : Opcode} {keys : List (Opcode × List UInt8)}
      (small : isSmallNumber m = true ∧ isSmallNumber n = true) (enough : m ≤ n)
      (many : keys.length = decodeOpN n) (sized : ∀ key ∈ keys, KeySized key.2)
      (reads : contents script = some ((m, []) :: (keys ++ [(n, []), (OP_CHECKMULTISIG, [])]))) :
      Form script .TX_MULTISIG (smallByte m :: (keys.map Prod.snd ++ [smallByte n]))

section Contents

variable {pc : CScript} {rest : List (Opcode × List UInt8)}

theorem contents_nil : contents [] = some [] := by simp [contents, instructions_nil]

theorem contents_read (read : (getOp pc).fRet = true) :
    contents pc = (contents (getOp pc).pc).map (((getOp pc).opcodeRet, (getOp pc).vchRet) :: ·) := by
  unfold contents
  rw [instructions_read read]
  cases instructions (getOp pc).pc <;> simp [instructionAt]

theorem contents_empty (reads : contents pc = some []) : pc = [] := by
  unfold contents at reads
  cases parsed : instructions pc with
  | none => simp [parsed] at reads
  | some instrs =>
    simp only [parsed, Option.map_some, Option.some.injEq, List.map_eq_nil_iff] at reads
    exact instructions_none (parsed.trans (by rw [reads]))

variable {opcode : Opcode} {data : List UInt8}

theorem contents_cons (reads : contents pc = some ((opcode, data) :: rest)) :
    getOp pc = ⟨true, (getOp pc).pc, opcode, data⟩ ∧ contents (getOp pc).pc = some rest := by
  unfold contents at reads
  cases parsed : instructions pc with
  | none => simp [parsed] at reads
  | some instrs =>
    cases instrs with
    | nil => simp [parsed] at reads
    | cons instr later =>
      obtain ⟨read, head, tail⟩ := instructions_cons parsed
      simp only [parsed, Option.map_some, Option.some.injEq, List.map_cons, List.cons.injEq,
        Prod.mk.injEq] at reads
      obtain ⟨⟨first, second⟩, last⟩ := reads
      have opcodeHere : (getOp pc).opcodeRet = opcode := by rw [← first, ← head]; rfl
      have dataHere : (getOp pc).vchRet = data := by rw [← second, ← head]; rfl
      constructor
      · rw [← read, ← opcodeHere, ← dataHere]
      · simp [contents, tail, last]

theorem contents_push {b : List UInt8} {script : CScript}
    (fits : b.length + script.length < 2 ^ 32) (reads : contents script = some rest) :
    contents (pushOf b ++ script) = some ((pushOpcode b, b) :: rest) := by
  have read : (getOp (pushOf b ++ script)).fRet = true :=
    (push_read_iff (by omega) script).mpr (by rw [Nat.mod_eq_of_lt fits]; omega)
  obtain ⟨left, head⟩ := push_read (by omega) read
  have opcodeHere : (getOp (pushOf b ++ script)).opcodeRet = pushOpcode b :=
    congrArg Instruction.opcode head
  have dataHere : (getOp (pushOf b ++ script)).vchRet = b := congrArg Instruction.data head
  rw [contents_read read, left, reads]
  simp [opcodeHere, dataHere]

theorem contents_op (plain : ¬ opcode ≤ OP_PUSHDATA4) {script : CScript}
    (reads : contents script = some rest) :
    contents (opcode :: script) = some ((opcode, []) :: rest) := by
  rw [contents_read (by rw [getOp_plain opcode script plain]), getOp_plain opcode script plain,
    reads]
  rfl

theorem contents_head (reads : contents pc = some ((opcode, data) :: rest)) :
    pc.head? = some opcode := by
  obtain ⟨here, _⟩ := contents_cons reads
  obtain ⟨operand, whole⟩ := getOp_pc_suffix pc (by rw [here])
  rw [whole]
  exact congrArg (fun read => some read.opcodeRet) here

theorem contents_data (filled : data ≠ []) (reads : contents pc = some ((opcode, data) :: rest)) :
    opcode ≤ OP_PUSHDATA4 := by
  obtain ⟨here, _⟩ := contents_cons reads
  have head := contents_head reads
  cases pc with
  | nil => simp at head
  | cons first tail =>
    have same : first = opcode := by simpa using head
    by_contra plain
    rw [← same] at plain
    rw [getOp_plain first tail plain] at here
    simp only [OpRead.mk.injEq] at here
    exact filled here.2.2.2.symm

theorem isPushOnly_iff (pc : CScript) :
    isPushOnly pc = true ↔ ∃ pushes, contents pc = some pushes ∧ ∀ push ∈ pushes, push.1 ≤ OP_16 := by
  induction pc using script_induction with
  | stops pc failed =>
    rw [isPushOnly]
    by_cases empty : pc = []
    · rw [empty]
      simp [contents_nil]
    · have none' : contents pc = none := by simp [contents, instructions_failed empty failed]
      simp [empty, failed, none']
  | reads pc read ih =>
    have shorter := getOp_shorter pc read
    have filled : pc.isEmpty = false := by
      cases pc with
      | nil => simp at shorter
      | cons head tail => rfl
    rw [isPushOnly, if_neg (by simp [filled]), if_pos read, contents_read read]
    by_cases large : OP_16 < (getOp pc).opcodeRet
    · rw [if_pos large]
      constructor
      · simp
      · rintro ⟨pushes, reads, only⟩
        obtain ⟨later, _, same⟩ := Option.map_eq_some_iff.mp reads
        have first := only _ (same ▸ List.mem_cons_self)
        exact absurd large (UInt8.not_lt.mpr first)
    · rw [if_neg large, ih]
      constructor
      · rintro ⟨pushes, reads, only⟩
        refine ⟨_, by rw [reads]; rfl, ?_⟩
        simpa [UInt8.not_lt.mp large] using only
      · rintro ⟨pushes, reads, only⟩
        obtain ⟨later, here, same⟩ := Option.map_eq_some_iff.mp reads
        exact ⟨later, here, fun push member => only push (same ▸ List.mem_cons_of_mem _ member)⟩

theorem contents_cons_iff :
    contents pc = some ((opcode, data) :: rest) ↔ (getOp pc).fRet = true ∧
      (getOp pc).opcodeRet = opcode ∧ (getOp pc).vchRet = data ∧
        contents (getOp pc).pc = some rest := by
  constructor
  · intro reads
    obtain ⟨here, later⟩ := contents_cons reads
    rw [here]
    exact ⟨rfl, rfl, rfl, later⟩
  · rintro ⟨read, rfl, rfl, later⟩
    rw [contents_read read, later]
    rfl

theorem contents_nil_iff : contents pc = some [] ↔ pc = [] := by
  constructor
  · exact contents_empty
  · rintro rfl
    exact contents_nil

theorem getOp_invalid (failed : (getOp pc).fRet = false) :
    (getOp pc).opcodeRet = OP_INVALIDOPCODE := by
  have data : ∀ opcode nSize (rest : CScript), (readData opcode nSize rest).fRet = false →
      (readData opcode nSize rest).opcodeRet = OP_INVALIDOPCODE := by
    intro opcode nSize rest
    unfold readData
    split <;> simp [failedRead]
  have sized : ∀ opcode width (rest : CScript), (readSized opcode width rest).fRet = false →
      (readSized opcode width rest).opcodeRet = OP_INVALIDOPCODE := by
    intro opcode width rest
    unfold readSized
    split
    · simp [failedRead]
    · exact data _ _ _
  cases pc with
  | nil => rfl
  | cons head tail =>
    simp only [getOp] at failed ⊢
    split_ifs at failed ⊢
    · exact data _ _ _ failed
    · exact sized _ _ _ failed
    · exact sized _ _ _ failed
    · exact sized _ _ _ failed

theorem contents_plain (plain : ¬ opcode ≤ OP_PUSHDATA4)
    (reads : contents pc = some ((opcode, data) :: rest)) :
    ∃ tail, pc = opcode :: tail ∧ data = [] ∧ contents tail = some rest := by
  have head := contents_head reads
  obtain ⟨here, later⟩ := contents_cons reads
  cases pc with
  | nil => simp at head
  | cons first tail =>
    have same : first = opcode := by simpa using head
    subst same
    rw [getOp_plain first tail plain] at here later
    simp only [OpRead.mk.injEq] at here
    exact ⟨tail, rfl, here.2.2.2.symm, later⟩

theorem contents_direct (direct : opcode < OP_PUSHDATA1)
    (reads : contents pc = some ((opcode, data) :: rest)) :
    ∃ tail, pc = opcode :: (data ++ tail) ∧ data.length = opcode.toNat ∧
      contents tail = some rest := by
  have head := contents_head reads
  obtain ⟨here, later⟩ := contents_cons reads
  cases pc with
  | nil => simp at head
  | cons first tail =>
    have same : first = opcode := by simpa using head
    subst same
    have among : first ≤ OP_PUSHDATA4 := UInt8.le_of_lt (UInt8.lt_trans direct (by decide))
    have reading : getOp (first :: tail) = readData first first.toNat tail := by
      simp only [getOp, if_pos among, if_pos direct]
    rw [reading] at here later
    rcases readData_shape first first.toNat tail with short | ⟨enough, whole⟩
    · rw [short] at here
      simp [failedRead] at here
    · rw [whole] at here later
      simp only [OpRead.mk.injEq] at here
      have taken : tail.take first.toNat = data := here.2.2.2
      refine ⟨tail.drop first.toNat, ?_, ?_, later⟩
      · rw [← taken, List.take_append_drop]
      · rw [← taken, List.length_take]
        omega

end Contents

section Templates

variable {pc : CScript} {before found : List valtype}

theorem matchTemplate_nil_iff : matchTemplate [] pc before = some found ↔ pc = [] ∧ found = before := by
  unfold matchTemplate
  cases pc <;> simp [eq_comm]

variable {read : OpRead} {opcode2 : Opcode} {opcode : Opcode}

theorem matchTemplate_cons_iff {later : List Opcode} (single : opcode2 ≠ OP_PUBKEYS) :
    matchTemplate (opcode2 :: later) pc before = some found ↔ (getOp pc).fRet = true ∧
      ∃ middle, matchOp opcode2 (getOp pc) before = some middle ∧
        matchTemplate later (getOp pc).pc middle = some found := by
  rw [matchTemplate, if_neg single]
  by_cases read : (getOp pc).fRet = true
  · simp [read, Option.bind_eq_some_iff]
  · simp [read]

theorem matchOp_pubKey_iff : matchOp OP_PUBKEY read before = some found ↔
    KeySized read.vchRet ∧ found = before ++ [read.vchRet] := by
  unfold matchOp KeySized
  rw [if_pos rfl]
  split
  · simp
    omega
  · simp only [Option.some.injEq, eq_comm (a := found)]
    constructor
    · exact fun same => ⟨by omega, same⟩
    · exact fun both => both.2

theorem matchOp_pubKeyHash_iff : matchOp OP_PUBKEYHASH read before = some found ↔
    read.vchRet.length = 20 ∧ found = before ++ [read.vchRet] := by
  unfold matchOp
  rw [if_neg (by decide), if_pos rfl]
  split <;> simp_all [eq_comm]

theorem matchOp_smallInteger_iff :
    matchOp OP_SMALLINTEGER read before = some found ↔
      (read.opcodeRet = OP_0 ∨ isSmallNumber read.opcodeRet = true) ∧
        found = before ++ [smallByte read.opcodeRet] := by
  unfold matchOp isSmallNumber smallByte
  rw [if_neg (by decide), if_neg (by decide), if_pos rfl]
  simp only [Bool.and_eq_true, decide_eq_true_eq]
  split <;> simp_all [eq_comm]

theorem matchOp_plain_iff
    (plain : opcode2 ≠ OP_PUBKEY ∧ opcode2 ≠ OP_PUBKEYHASH ∧ opcode2 ≠ OP_SMALLINTEGER) :
    matchOp opcode2 read before = some found ↔
      read.opcodeRet = opcode2 ∧ read.vchRet = [] ∧ found = before := by
  unfold matchOp
  rw [if_neg plain.1, if_neg plain.2.1, if_neg plain.2.2]
  split
  · rename_i other
    tauto
  · rename_i same
    simp only [Option.some.injEq, eq_comm (a := found)]
    tauto

theorem pubKey_template_iff : matchTemplate [OP_PUBKEY, OP_CHECKSIG] pc before = some found ↔
    ∃ push key, KeySized key ∧ contents pc = some [(push, key), (OP_CHECKSIG, [])] ∧
      found = before ++ [key] := by
  rw [matchTemplate_cons_iff (by decide)]
  simp only [matchOp_pubKey_iff, matchTemplate_cons_iff (show OP_CHECKSIG ≠ OP_PUBKEYS by decide),
    matchOp_plain_iff (show OP_CHECKSIG ≠ OP_PUBKEY ∧ OP_CHECKSIG ≠ OP_PUBKEYHASH ∧
      OP_CHECKSIG ≠ OP_SMALLINTEGER by decide), matchTemplate_nil_iff, contents_cons_iff,
    contents_nil_iff]
  constructor
  · rintro ⟨read, _, ⟨sized, rfl⟩, second, _, ⟨check, none', rfl⟩, ended, rfl⟩
    exact ⟨_, _, sized, ⟨read, rfl, rfl, second, check, none', ended⟩, rfl⟩
  · rintro ⟨_, _, sized, ⟨read, rfl, rfl, second, check, none', ended⟩, rfl⟩
    exact ⟨read, _, ⟨sized, rfl⟩, second, _, ⟨check, none', rfl⟩, ended, rfl⟩

theorem pubKeyHash_template_iff :
    matchTemplate [OP_DUP, OP_HASH160, OP_PUBKEYHASH, OP_EQUALVERIFY, OP_CHECKSIG] pc before =
        some found ↔
      ∃ push hash, hash.length = 20 ∧ contents pc = some [(OP_DUP, []), (OP_HASH160, []),
        (push, hash), (OP_EQUALVERIFY, []), (OP_CHECKSIG, [])] ∧ found = before ++ [hash] := by
  rw [matchTemplate_cons_iff (by decide)]
  simp only [matchOp_pubKeyHash_iff,
    matchTemplate_cons_iff (show OP_HASH160 ≠ OP_PUBKEYS by decide),
    matchTemplate_cons_iff (show OP_PUBKEYHASH ≠ OP_PUBKEYS by decide),
    matchTemplate_cons_iff (show OP_EQUALVERIFY ≠ OP_PUBKEYS by decide),
    matchTemplate_cons_iff (show OP_CHECKSIG ≠ OP_PUBKEYS by decide),
    matchOp_plain_iff (show OP_DUP ≠ OP_PUBKEY ∧ OP_DUP ≠ OP_PUBKEYHASH ∧
      OP_DUP ≠ OP_SMALLINTEGER by decide),
    matchOp_plain_iff (show OP_HASH160 ≠ OP_PUBKEY ∧ OP_HASH160 ≠ OP_PUBKEYHASH ∧
      OP_HASH160 ≠ OP_SMALLINTEGER by decide),
    matchOp_plain_iff (show OP_EQUALVERIFY ≠ OP_PUBKEY ∧ OP_EQUALVERIFY ≠ OP_PUBKEYHASH ∧
      OP_EQUALVERIFY ≠ OP_SMALLINTEGER by decide),
    matchOp_plain_iff (show OP_CHECKSIG ≠ OP_PUBKEY ∧ OP_CHECKSIG ≠ OP_PUBKEYHASH ∧
      OP_CHECKSIG ≠ OP_SMALLINTEGER by decide), matchTemplate_nil_iff, contents_cons_iff,
    contents_nil_iff]
  constructor
  · rintro ⟨one, _, ⟨dup, no1, rfl⟩, two, _, ⟨hash160, no2, rfl⟩, three, _, ⟨twenty, rfl⟩, four, _,
      ⟨verify, no4, rfl⟩, five, _, ⟨check, no5, rfl⟩, ended, rfl⟩
    exact ⟨_, _, twenty, ⟨one, dup, no1, two, hash160, no2, three, rfl, rfl, four, verify, no4, five,
      check, no5, ended⟩, rfl⟩
  · rintro ⟨_, _, twenty, ⟨one, dup, no1, two, hash160, no2, three, rfl, rfl, four, verify, no4,
      five, check, no5, ended⟩, rfl⟩
    exact ⟨one, _, ⟨dup, no1, rfl⟩, two, _, ⟨hash160, no2, rfl⟩, three, _, ⟨twenty, rfl⟩, four, _,
      ⟨verify, no4, rfl⟩, five, _, ⟨check, no5, rfl⟩, ended, rfl⟩

/-- The opcodes that `OP_SMALLINTEGER` stands for. -/
def Numeral (opcode : Opcode) : Prop := opcode = OP_0 ∨ isSmallNumber opcode = true

theorem unsized_nil : ¬ KeySized [] := by simp [KeySized]

theorem small_plain : isSmallNumber opcode = true → ¬ opcode ≤ OP_PUSHDATA4 := by
  induction opcode using every_byte with
  | all n =>
    revert n
    decide +kernel

theorem numeral_data {data : List UInt8} {rest : List (Opcode × List UInt8)}
    (numeral : Numeral opcode) (reads : contents pc = some ((opcode, data) :: rest)) :
    data = [] := by
  rcases numeral with zero | small
  · obtain ⟨tail, _, size, _⟩ := contents_direct (by rw [zero]; decide) reads
    rw [zero] at size
    exact List.length_eq_zero_iff.mp size
  · obtain ⟨_, _, none', _⟩ := contents_plain (small_plain small) reads
    exact none'

def EndsMultisig (keys : List (Opcode × List UInt8)) (n : Opcode) : List (Opcode × List UInt8) :=
  keys ++ [(n, []), (OP_CHECKMULTISIG, [])]

theorem ending_template_iff :
    (matchOp OP_SMALLINTEGER read before).bind (matchTemplate [OP_CHECKMULTISIG] read.pc) =
        some found ↔
      Numeral read.opcodeRet ∧ contents read.pc = some [(OP_CHECKMULTISIG, [])] ∧
        found = before ++ [smallByte read.opcodeRet] := by
  simp only [Option.bind_eq_some_iff, matchOp_smallInteger_iff,
    matchTemplate_cons_iff (show OP_CHECKMULTISIG ≠ OP_PUBKEYS by decide),
    matchOp_plain_iff (show OP_CHECKMULTISIG ≠ OP_PUBKEY ∧ OP_CHECKMULTISIG ≠ OP_PUBKEYHASH ∧
      OP_CHECKMULTISIG ≠ OP_SMALLINTEGER by decide), matchTemplate_nil_iff, contents_cons_iff,
    contents_nil_iff]
  constructor
  · rintro ⟨_, ⟨numeral, rfl⟩, second, _, ⟨check, none', rfl⟩, ended, rfl⟩
    exact ⟨numeral, ⟨second, check, none', ended⟩, rfl⟩
  · rintro ⟨numeral, ⟨second, check, none', ended⟩, rfl⟩
    exact ⟨_, ⟨numeral, rfl⟩, second, _, ⟨check, none', rfl⟩, ended, rfl⟩

theorem takePubKeys_takes (sized : KeySized read.vchRet) (more : (getOp read.pc).fRet = true) :
    takePubKeys read before = takePubKeys (getOp read.pc) (before ++ [read.vchRet]) := by
  unfold KeySized at sized
  rw [takePubKeys, if_pos sized, if_pos more]

theorem takePubKeys_ends (sized : KeySized read.vchRet) (ended : ¬ (getOp read.pc).fRet = true) :
    takePubKeys read before = (getOp read.pc, before ++ [read.vchRet]) := by
  unfold KeySized at sized
  rw [takePubKeys, if_pos sized, if_neg ended]

theorem takePubKeys_stays (other : ¬ KeySized read.vchRet) :
    takePubKeys read before = (read, before) := by
  unfold KeySized at other
  rw [takePubKeys, if_neg other]

theorem keys_template_iff (read : (getOp pc).fRet = true) :
    (matchOp OP_SMALLINTEGER (takePubKeys (getOp pc) before).1
        (takePubKeys (getOp pc) before).2).bind
        (matchTemplate [OP_CHECKMULTISIG] (takePubKeys (getOp pc) before).1.pc) = some found ↔
      ∃ keys n, (∀ key ∈ keys, KeySized key.2) ∧ Numeral n ∧
        contents pc = some (EndsMultisig keys n) ∧
          found = before ++ (keys.map Prod.snd ++ [smallByte n]) := by
  induction pc using script_induction generalizing before with
  | stops pc failed => simp [failed] at read
  | reads pc readable ih =>
    by_cases sized : KeySized (getOp pc).vchRet
    · by_cases more : (getOp (getOp pc).pc).fRet = true
      · rw [takePubKeys_takes sized more, ih more]
        constructor
        · rintro ⟨keys, n, all, numeral, reads, rfl⟩
          refine ⟨((getOp pc).opcodeRet, (getOp pc).vchRet) :: keys, n, ?_, numeral, ?_, by simp⟩
          · simpa [sized] using all
          · rw [EndsMultisig, List.cons_append]
            exact contents_cons_iff.mpr ⟨read, rfl, rfl, reads⟩
        · rintro ⟨keys, n, all, numeral, reads, rfl⟩
          cases keys with
          | nil =>
            obtain ⟨_, _, none', _⟩ := contents_cons_iff.mp reads
            rw [none'] at sized
            exact absurd sized unsized_nil
          | cons key keys =>
            obtain ⟨_, _, data, later⟩ := contents_cons_iff.mp reads
            refine ⟨keys, n, fun other member => all other (List.mem_cons_of_mem _ member), numeral,
              later, by simp [data]⟩
      · have invalid := getOp_invalid (by simpa using more)
        rw [takePubKeys_ends sized more]
        constructor
        · intro matched
          obtain ⟨_, middle, _⟩ := Option.bind_eq_some_iff.mp matched
          obtain ⟨numeral, _⟩ := matchOp_smallInteger_iff.mp middle
          rw [invalid] at numeral
          exact absurd numeral (by decide)
        · rintro ⟨keys, n, all, numeral, reads, rfl⟩
          cases keys with
          | nil =>
            obtain ⟨_, _, none', _⟩ := contents_cons_iff.mp reads
            rw [none'] at sized
            exact absurd sized unsized_nil
          | cons key keys =>
            obtain ⟨_, _, _, later⟩ := contents_cons_iff.mp reads
            cases keys with
            | nil => exact absurd (contents_cons_iff.mp later).1 more
            | cons other keys => exact absurd (contents_cons_iff.mp later).1 more
    · rw [takePubKeys_stays sized, ending_template_iff]
      constructor
      · rintro ⟨numeral, reads, rfl⟩
        have whole : contents pc = some (((getOp pc).opcodeRet, (getOp pc).vchRet) ::
            [(OP_CHECKMULTISIG, [])]) := contents_cons_iff.mpr ⟨read, rfl, rfl, reads⟩
        refine ⟨[], (getOp pc).opcodeRet, nofun, numeral, ?_, by simp⟩
        rw [whole, numeral_data numeral whole]
        rfl
      · rintro ⟨keys, n, all, numeral, reads, rfl⟩
        cases keys with
        | nil =>
          obtain ⟨_, same, _, later⟩ := contents_cons_iff.mp reads
          rw [same]
          exact ⟨numeral, later, by simp⟩
        | cons key keys =>
          obtain ⟨_, _, data, _⟩ := contents_cons_iff.mp reads
          exact absurd (data ▸ all key List.mem_cons_self) sized

theorem multisig_template_iff :
    matchTemplate [OP_SMALLINTEGER, OP_PUBKEYS, OP_SMALLINTEGER, OP_CHECKMULTISIG] pc [] =
        some found ↔
      ∃ m keys n, Numeral m ∧ (∀ key ∈ keys, KeySized key.2) ∧ Numeral n ∧
        contents pc = some ((m, []) :: EndsMultisig keys n) ∧
          found = smallByte m :: (keys.map Prod.snd ++ [smallByte n]) := by
  rw [matchTemplate_cons_iff (by decide)]
  have inner (script : CScript) (middle : List valtype) :
      matchTemplate [OP_PUBKEYS, OP_SMALLINTEGER, OP_CHECKMULTISIG] script middle = some found ↔
        (getOp script).fRet = true ∧ ∃ keys n, (∀ key ∈ keys, KeySized key.2) ∧ Numeral n ∧
          contents script = some (EndsMultisig keys n) ∧
            found = middle ++ (keys.map Prod.snd ++ [smallByte n]) := by
    rw [matchTemplate]
    by_cases read : (getOp script).fRet = true
    · rw [if_pos read, if_pos rfl]
      exact (keys_template_iff read).trans (by simp [read])
    · simp [read]
  constructor
  · rintro ⟨read, middle, first, matched⟩
    obtain ⟨numeral, rfl⟩ := matchOp_smallInteger_iff.mp first
    obtain ⟨_, keys, n, all, other, reads, rfl⟩ := (inner _ _).mp matched
    have whole : contents pc = some (((getOp pc).opcodeRet, (getOp pc).vchRet) ::
        EndsMultisig keys n) := contents_cons_iff.mpr ⟨read, rfl, rfl, reads⟩
    refine ⟨_, keys, n, numeral, all, other, ?_, rfl⟩
    rw [whole, numeral_data numeral whole]
  · rintro ⟨m, keys, n, numeral, all, other, reads, rfl⟩
    obtain ⟨read, same, _, later⟩ := contents_cons_iff.mp reads
    have more : (getOp (getOp pc).pc).fRet = true := by
      cases keys with
      | nil => exact (contents_cons_iff.mp later).1
      | cons key keys => exact (contents_cons_iff.mp later).1
    refine ⟨read, [smallByte m], matchOp_smallInteger_iff.mpr ⟨?_, by rw [same]; rfl⟩,
      (inner _ _).mpr ⟨more, keys, n, all, other, later, rfl⟩⟩
    rw [same]
    exact numeral

end Templates

section Solving

variable {script : CScript} {typeRet : txnouttype} {vSolutions : List valtype}

theorem payToScriptHash_shape :
    isPayToScriptHash script = true ↔
      ∃ hash : valtype, hash.length = 20 ∧ script = OP_HASH160 :: 20 :: (hash ++ [OP_EQUAL]) := by
  unfold isPayToScriptHash
  simp only [Bool.and_eq_true, beq_iff_eq]
  constructor
  · rintro ⟨⟨⟨size, first⟩, second⟩, last⟩
    match script with
    | [] => simp at first
    | [_] => simp at second
    | one :: two :: rest =>
      obtain ⟨hash, ends, split⟩ := List.eq_nil_or_concat rest |>.resolve_left (by
        rintro rfl
        simp at size)
      rw [List.concat_eq_append] at split
      subst split
      have twenty : hash.length = 20 := by simpa using size
      have equal : ends = OP_EQUAL := by simpa [twenty] using last
      refine ⟨hash, twenty, ?_⟩
      simp only [List.getElem?_cons_zero, Option.some.injEq, List.getElem?_cons_succ] at first second
      rw [first, second, equal]
  · rintro ⟨hash, twenty, rfl⟩
    simp [twenty]

theorem payToScriptHash_contents {hash : valtype} (twenty : hash.length = 20) :
    contents script = some [(OP_HASH160, []), (20, hash), (OP_EQUAL, [])] ↔
      script = OP_HASH160 :: 20 :: (hash ++ [OP_EQUAL]) := by
  constructor
  · intro reads
    obtain ⟨tail, rfl, _, later⟩ := contents_plain (by decide) reads
    obtain ⟨last, rfl, _, ends⟩ := contents_direct (by decide) later
    obtain ⟨none', rfl, _, ended⟩ := contents_plain (by decide) ends
    rw [contents_empty ended]
  · rintro rfl
    have push : pushOf hash = 20 :: hash := by
      have first : OP_PUSHDATA1.toNat = 76 := rfl
      unfold pushOf
      rw [if_pos (by omega), twenty]
      rfl
    have opcode : pushOpcode hash = 20 := by
      unfold pushOpcode
      rw [push]
      rfl
    have equal : contents [OP_EQUAL] = some [(OP_EQUAL, [])] := contents_op (by decide) contents_nil
    have pushed := @contents_push _ hash [OP_EQUAL] (by rw [twenty]; decide) equal
    rw [push, opcode] at pushed
    exact contents_op (by decide) pushed

theorem nullData_iff : (script.head? = some OP_RETURN ∧ isPushOnly script.tail = true) ↔
    ∃ pushes, contents script = some ((OP_RETURN, []) :: pushes) ∧
      ∀ push ∈ pushes, push.1 ≤ OP_16 := by
  constructor
  · rintro ⟨head, only⟩
    obtain ⟨pushes, reads, all⟩ := (isPushOnly_iff _).mp only
    cases script with
    | nil => simp at head
    | cons first tail =>
      have same : first = OP_RETURN := by simpa using head
      rw [same]
      exact ⟨pushes, contents_op (by decide) reads, all⟩
  · rintro ⟨pushes, reads, all⟩
    obtain ⟨tail, rfl, _, later⟩ := contents_plain (by decide) reads
    exact ⟨rfl, (isPushOnly_iff tail).mpr ⟨pushes, later, all⟩⟩

theorem smallByte_le {m n : Opcode} (first : isSmallNumber m = true)
    (second : isSmallNumber n = true) :
    (UInt8.ofNat (decodeOpN m)).toNat = decodeOpN m ∧ 1 ≤ decodeOpN m ∧
      (decodeOpN m ≤ decodeOpN n ↔ m ≤ n) := by
  have range := decodeOpN_range m first
  have one : OP_1.toNat = 0x51 := rfl
  have zero : OP_0.toNat = 0 := rfl
  simp only [isSmallNumber, Bool.and_eq_true, decide_eq_true_eq, UInt8.le_iff_toNat_le] at first second
  have mFilled : m ≠ OP_0 := by
    rintro rfl
    omega
  have nFilled : n ≠ OP_0 := by
    rintro rfl
    omega
  refine ⟨?_, range.1, ?_⟩
  · rw [UInt8.toNat_ofNat']
    omega
  · unfold decodeOpN
    rw [if_neg mFilled, if_neg nFilled, UInt8.le_iff_toNat_le]
    omega

theorem multisigFits_iff {m n : Opcode} {keys : List (Opcode × List UInt8)} (first : Numeral m)
    (second : Numeral n) :
    multisigFits (smallByte m :: (keys.map Prod.snd ++ [smallByte n])) = true ↔
      (isSmallNumber m = true ∧ isSmallNumber n = true) ∧ m ≤ n ∧ keys.length = decodeOpN n := by
  have last : smallByte m :: (keys.map Prod.snd ++ [smallByte n]) =
      (smallByte m :: keys.map Prod.snd) ++ [smallByte n] := rfl
  have size : (smallByte m :: (keys.map Prod.snd ++ [smallByte n])).length - 2 = keys.length := by
    simp
  have fits : multisigFits (smallByte m :: (keys.map Prod.snd ++ [smallByte n])) = true ↔
      ¬ (UInt8.ofNat (decodeOpN m) < 1 ∨ UInt8.ofNat (decodeOpN n) < 1 ∨
        UInt8.ofNat (decodeOpN n) < UInt8.ofNat (decodeOpN m) ∨
        keys.length ≠ (UInt8.ofNat (decodeOpN n)).toNat) := by
    have checked : multisigFits (smallByte m :: (keys.map Prod.snd ++ [smallByte n])) =
        !(decide (UInt8.ofNat (decodeOpN m) < 1) || decide (UInt8.ofNat (decodeOpN n) < 1) ||
          decide (UInt8.ofNat (decodeOpN n) < UInt8.ofNat (decodeOpN m)) ||
          decide (keys.length ≠ (UInt8.ofNat (decodeOpN n)).toNat)) := by
      unfold multisigFits
      rw [size, last, List.getLast?_concat]
      rfl
    rw [checked]
    simp only [Bool.not_eq_true', Bool.or_eq_false_iff, decide_eq_false_iff_not, not_or, and_assoc]
  have zero : UInt8.ofNat (decodeOpN OP_0) < 1 := by decide
  have large : ¬ isSmallNumber OP_0 = true := by decide
  rw [fits]
  rcases first with rfl | first
  · simp [zero, large]
  · rcases second with rfl | second
    · simp [zero, large]
    · obtain ⟨mByte, mPositive, order⟩ := smallByte_le first second
      obtain ⟨nByte, nPositive, _⟩ := smallByte_le second second
      have unit : (1 : UInt8).toNat = 1 := rfl
      simp only [UInt8.lt_iff_toNat_lt, mByte, nByte, first, second, and_self, true_and, ← order,
        unit]
      omega

theorem scanTemplates_iff : scanTemplates script mTemplates = .solved typeRet vSolutions ↔
    (typeRet = .TX_PUBKEY ∨ typeRet = .TX_PUBKEYHASH ∨ typeRet = .TX_MULTISIG) ∧
      Form script typeRet vSolutions := by
  have unfolded : scanTemplates script mTemplates =
      match matchTemplate [OP_PUBKEY, OP_CHECKSIG] script [] with
      | some found => .solved .TX_PUBKEY found
      | none =>
        match matchTemplate [OP_DUP, OP_HASH160, OP_PUBKEYHASH, OP_EQUALVERIFY, OP_CHECKSIG]
            script [] with
        | some found => .solved .TX_PUBKEYHASH found
        | none =>
          match matchTemplate [OP_SMALLINTEGER, OP_PUBKEYS, OP_SMALLINTEGER, OP_CHECKMULTISIG]
              script [] with
          | some found => if multisigFits found then .solved .TX_MULTISIG found else .unsolved
          | none => .unsolved := by
    unfold mTemplates scanTemplates
    cases matchTemplate [OP_PUBKEY, OP_CHECKSIG] script [] with
    | some found => simp
    | none =>
      unfold scanTemplates
      cases matchTemplate [OP_DUP, OP_HASH160, OP_PUBKEYHASH, OP_EQUALVERIFY, OP_CHECKSIG]
          script [] with
      | some found => simp
      | none =>
        unfold scanTemplates
        cases matchTemplate [OP_SMALLINTEGER, OP_PUBKEYS, OP_SMALLINTEGER, OP_CHECKMULTISIG]
            script [] with
        | some found => by_cases fits : multisigFits found = true <;> simp [fits]
        | none => simp [scanTemplates]
  rw [unfolded]
  constructor
  · intro solved
    split at solved
    · rename_i found matched
      obtain ⟨push, key, sized, reads, rfl⟩ := pubKey_template_iff.mp matched
      cases solved
      exact ⟨.inl rfl, .pubKey sized reads⟩
    · split at solved
      · rename_i found matched
        obtain ⟨push, hash, twenty, reads, rfl⟩ := pubKeyHash_template_iff.mp matched
        cases solved
        exact ⟨.inr (.inl rfl), .pubKeyHash twenty reads⟩
      · split at solved
        · rename_i found matched
          obtain ⟨m, keys, n, first, all, second, reads, rfl⟩ := multisig_template_iff.mp matched
          split at solved
          · rename_i fits
            obtain ⟨small, enough, many⟩ := (multisigFits_iff first second).mp fits
            cases solved
            exact ⟨.inr (.inr rfl), .multisig small enough many all reads⟩
          · cases solved
        · cases solved
  · -- the templates differ in the first instruction, or in how many there are
    rintro ⟨kind, form⟩
    cases form with
    | scriptHash twenty reads => simp at kind
    | zerocoinMint begins short => simp at kind
    | nullData reads only => simp at kind
    | @pubKey push key sized reads =>
      rw [pubKey_template_iff.mpr ⟨push, key, sized, reads, rfl⟩]
      rfl
    | @pubKeyHash push hash twenty reads =>
      cases first : matchTemplate [OP_PUBKEY, OP_CHECKSIG] script [] with
      | some found =>
        obtain ⟨_, _, _, other, _⟩ := pubKey_template_iff.mp first
        simp [reads] at other
      | none =>
        rw [pubKeyHash_template_iff.mpr ⟨push, hash, twenty, reads, rfl⟩]
        rfl
    | @multisig m n keys small enough many sized reads =>
      cases first : matchTemplate [OP_PUBKEY, OP_CHECKSIG] script [] with
      | some found =>
        obtain ⟨_, key, filled, other, _⟩ := pubKey_template_iff.mp first
        have none' : key = [] := by
          rw [reads] at other
          simp only [Option.some.injEq, List.cons.injEq, Prod.mk.injEq] at other
          exact other.1.2.symm
        exact absurd (none' ▸ filled) unsized_nil
      | none =>
        cases second : matchTemplate [OP_DUP, OP_HASH160, OP_PUBKEYHASH, OP_EQUALVERIFY,
            OP_CHECKSIG] script [] with
        | some found =>
          obtain ⟨_, _, _, other, _⟩ := pubKeyHash_template_iff.mp second
          rw [reads] at other
          simp only [Option.some.injEq, List.cons.injEq, Prod.mk.injEq] at other
          exact absurd (other.1.1 ▸ small.1) (by decide)
        | none =>
          have matched := multisig_template_iff.mpr ⟨m, keys, n, .inr small.1, sized,
            .inr small.2, reads, rfl⟩
          have fits := (multisigFits_iff (.inr small.1) (.inr small.2)).mpr ⟨small, enough, many⟩
          rw [matched]
          simp [fits]

def kindBy (opcode : Opcode) : txnouttype :=
  if opcode = OP_HASH160 then .TX_SCRIPTHASH
  else if opcode = OP_ZEROCOINMINT then .TX_ZEROCOINMINT
  else if opcode = OP_RETURN then .TX_NULL_DATA
  else if opcode = OP_DUP then .TX_PUBKEYHASH
  else if opcode ≤ OP_PUSHDATA4 then .TX_PUBKEY
  else .TX_MULTISIG

theorem kindBy_push {opcode : Opcode} : opcode ≤ OP_PUSHDATA4 → kindBy opcode = .TX_PUBKEY := by
  induction opcode using every_byte with
  | all n =>
    revert n
    decide +kernel

theorem kindBy_small {opcode : Opcode} :
    isSmallNumber opcode = true → kindBy opcode = .TX_MULTISIG := by
  induction opcode using every_byte with
  | all n =>
    revert n
    decide +kernel

theorem form_kind (form : Form script typeRet vSolutions) :
    ∃ opcode, script.head? = some opcode ∧ kindBy opcode = typeRet := by
  cases form with
  | scriptHash twenty reads => exact ⟨OP_HASH160, contents_head reads, rfl⟩
  | zerocoinMint begins short => exact ⟨OP_ZEROCOINMINT, by rw [begins]; rfl, rfl⟩
  | nullData reads only => exact ⟨OP_RETURN, contents_head reads, rfl⟩
  | @pubKey push key sized reads =>
    have filled : key ≠ [] := fun none' => unsized_nil (none' ▸ sized)
    exact ⟨push, contents_head reads, kindBy_push (contents_data filled reads)⟩
  | pubKeyHash twenty reads => exact ⟨OP_DUP, contents_head reads, rfl⟩
  | multisig small enough many sized reads =>
    exact ⟨_, contents_head reads, kindBy_small small.1⟩

/-- Every script gets the kind and the data of the form it has, and no vector is made out of
    what stands behind its end. -/
def Classified (script : CScript) : Prop :=
  solver script ≠ .outOfRange ∧ ∀ typeRet vSolutions,
    solver script = .solved typeRet vSolutions ↔ Form script typeRet vSolutions

theorem classified_scriptHash (here : isPayToScriptHash script = true) : Classified script := by
  obtain ⟨hash, twenty, whole⟩ := payToScriptHash_shape.mp here
  have solving : solver script = .solved .TX_SCRIPTHASH [hash] := by
    unfold solver
    rw [if_pos here, whole]
    simp [← twenty]
  constructor
  · simp [solving]
  · intro typeRet vSolutions
    constructor
    · intro solved
      rw [solving] at solved
      cases solved
      exact .scriptHash twenty ((payToScriptHash_contents twenty).mpr whole)
    · intro form
      obtain ⟨opcode, head, kind⟩ := form_kind form
      have first : opcode = OP_HASH160 := by simpa [whole, eq_comm] using head
      rw [first] at kind
      cases form with
      | @scriptHash other size reads =>
        have same := (payToScriptHash_contents size).mp reads
        rw [whole] at same
        have equal : hash = other := by simpa using same
        rw [solving, equal]
      | _ => exact absurd kind (by decide)

theorem classified_zerocoinMint (other : isPayToScriptHash script = false)
    (here : CScript.isZerocoinMint script = true) (long : script ≠ [OP_ZEROCOINMINT]) :
    Classified script := by
  have head : script.head? = some OP_ZEROCOINMINT := by simpa [CScript.isZerocoinMint] using here
  obtain ⟨size, mint, whole⟩ : ∃ size mint, script = OP_ZEROCOINMINT :: size :: mint := by
    match script, head with
    | [first], head =>
      have same : first = OP_ZEROCOINMINT := by simpa using head
      exact absurd (by rw [same]) long
    | first :: size :: mint, head =>
      have same : first = OP_ZEROCOINMINT := by simpa using head
      exact ⟨size, mint, by rw [same]⟩
  have solving : solver script =
      if 150 < script.length then .unsolved else .solved .TX_ZEROCOINMINT [mint] := by
    unfold solver
    have two : ¬ script.length < 2 := by simp [whole]
    rw [if_neg (by simp [other]), if_pos here, if_neg two, whole]
    rfl
  rw [Classified, solving]
  constructor
  · split <;> simp
  · intro typeRet vSolutions
    constructor
    · intro solved
      split at solved
      · cases solved
      · cases solved
        exact .zerocoinMint whole (by omega)
    · intro form
      obtain ⟨opcode, first, kind⟩ := form_kind form
      have same : opcode = OP_ZEROCOINMINT := by simpa [head, eq_comm] using first
      rw [same] at kind
      cases form with
      | zerocoinMint begins short =>
        rw [whole] at begins
        obtain ⟨_, rfl⟩ : _ ∧ mint = _ := by simpa using begins
        rw [if_neg (by omega)]
      | _ => exact absurd kind (by decide)

theorem classified_nullData (other : isPayToScriptHash script = false)
    (unminted : CScript.isZerocoinMint script = false)
    (here : script.head? = some OP_RETURN ∧ isPushOnly script.tail = true) :
    Classified script := by
  have solving : solver script = .solved .TX_NULL_DATA [] := by
    unfold solver
    rw [if_neg (by simp [other]), if_neg (by simp [unminted]), if_pos (by simp [here])]
  rw [Classified, solving]
  constructor
  · simp
  · intro typeRet vSolutions
    constructor
    · intro solved
      cases solved
      obtain ⟨pushes, reads, only⟩ := nullData_iff.mp here
      exact .nullData reads only
    · intro form
      obtain ⟨opcode, first, kind⟩ := form_kind form
      have same : opcode = OP_RETURN := by simpa [here.1, eq_comm] using first
      rw [same] at kind
      cases form with
      | nullData reads only => rfl
      | _ => exact absurd kind (by decide)

theorem classified_template (other : isPayToScriptHash script = false)
    (unminted : CScript.isZerocoinMint script = false)
    (used : ¬ (script.head? = some OP_RETURN ∧ isPushOnly script.tail = true)) :
    Classified script := by
  have solving : solver script = scanTemplates script mTemplates := by
    unfold solver
    rw [if_neg (by simp [other]), if_neg (by simp [unminted]), if_neg (by simpa using used)]
  have inside : ∀ templates, scanTemplates script templates ≠ .outOfRange := by
    intro templates
    induction templates with
    | nil => simp [scanTemplates]
    | cons template later ih =>
      unfold scanTemplates
      split
      · exact ih
      · split <;> simp
  rw [Classified, solving]
  refine ⟨inside _, fun typeRet vSolutions => scanTemplates_iff.trans ?_⟩
  constructor
  · exact fun both => both.2
  · intro form
    refine ⟨?_, form⟩
    cases form with
    | scriptHash twenty reads =>
      have shape := (payToScriptHash_contents twenty).mp reads
      exact absurd (payToScriptHash_shape.mpr ⟨_, twenty, shape⟩) (by simp [other])
    | zerocoinMint begins short => simp [begins, CScript.isZerocoinMint] at unminted
    | nullData reads only => exact absurd (nullData_iff.mpr ⟨_, reads, only⟩) used
    | pubKey => simp
    | pubKeyHash => simp
    | multisig => simp

theorem classified_iff (script : CScript) :
    Classified script ↔ script ≠ [OP_ZEROCOINMINT] := by
  constructor
  · rintro ⟨inside, _⟩ rfl
    exact inside (by decide)
  · intro long
    cases hashed : isPayToScriptHash script with
    | true => exact classified_scriptHash hashed
    | false =>
      cases minted : CScript.isZerocoinMint script with
      | true => exact classified_zerocoinMint hashed minted long
      | false =>
        by_cases unspendable : script.head? = some OP_RETURN ∧ isPushOnly script.tail = true
        · exact classified_nullData hashed minted unspendable
        · exact classified_template hashed minted unspendable

theorem solver_form (form : Form script typeRet vSolutions) :
    solver script = .solved typeRet vSolutions := by
  have long : script ≠ [OP_ZEROCOINMINT] := by
    rintro rfl
    obtain ⟨opcode, head, kind⟩ := form_kind form
    have same : opcode = OP_ZEROCOINMINT := by simpa [eq_comm] using head
    rw [same] at kind
    cases form with
    | zerocoinMint begins short => simp at begins
    | _ => exact absurd kind (by decide)
  exact (((classified_iff script).mpr long).2 typeRet vSolutions).mpr form

end Solving

section Destinations

variable (hash160 : List UInt8 → CKeyID)

def toByteVector (id : CKeyID) : List UInt8 := Serialize.littleEndian 20 id.toNat

/-- How `ExtractDestination` ends. Only `Solver` and `uint160` can go wrong. -/
inductive Extraction where
  | failed
  | refused
  | extracted (addressRet : CTxDestination)
deriving DecidableEq

def withId (destination : List UInt8 → CTxDestination) (vch : valtype) : Extraction :=
  (uint160 vch).elim .failed fun id => .extracted (destination (toByteVector id))

def extractDestination (scriptPubKey : CScript) : Extraction :=
  match solver scriptPubKey with
  | .outOfRange => .failed
  | .unsolved => .refused
  | .solved .TX_PUBKEY vSolutions =>
    let pubKey := pubKeyFromVector (vSolutions.head?.getD [])
    if isValid pubKey then .extracted (.keyID (toByteVector (hash160 pubKey.bytes)))
    else .refused
  | .solved .TX_PUBKEYHASH vSolutions => withId .keyID (vSolutions.head?.getD [])
  | .solved .TX_SCRIPTHASH vSolutions => withId .scriptID (vSolutions.head?.getD [])
  | .solved _ _ => .refused

def encodeOpN (n : Int) : Option Opcode :=
  if 0 ≤ n ∧ n ≤ 16 then
    some (if n = 0 then OP_0 else UInt8.ofNat (OP_1.toNat + n.toNat - 1))
  else none

/-- Where a count is none that an opcode stands for, `EncodeOP_N` asserts. -/
def getScriptForMultisig (nRequired : Int) (keys : List CPubKey) : Option CScript := do
  let required ← encodeOpN nRequired
  let size ← encodeOpN keys.length
  some (required :: ((keys.map fun key => pushOf key.bytes).flatten ++ [size, OP_CHECKMULTISIG]))

theorem toByteVector_length (id : CKeyID) : (toByteVector id).length = 20 :=
  littleEndian_length 20 id.toNat

theorem withId_toByteVector (destination : List UInt8 → CTxDestination) (id : CKeyID) :
    withId destination (toByteVector id) = .extracted (destination (toByteVector id)) := by
  have back : fromLittleEndian (toByteVector id) = id.toNat :=
    fromLittleEndian_littleEndian 20 id.toNat (by simpa using id.isLt)
  simp [withId, uint160, toByteVector_length, back]

theorem solver_keyID {hash : List UInt8} (twenty : hash.length = 20) :
    solver (getScriptForDestination (.keyID hash)) = .solved .TX_PUBKEYHASH [hash] := by
  have ending : contents [OP_EQUALVERIFY, OP_CHECKSIG] =
      some [(OP_EQUALVERIFY, []), (OP_CHECKSIG, [])] :=
    contents_op (by decide) (contents_op (by decide) contents_nil)
  have pushed := @contents_push _ hash [OP_EQUALVERIFY, OP_CHECKSIG] (by rw [twenty]; decide) ending
  have reads := @contents_op _ OP_DUP (by decide) _
    (@contents_op _ OP_HASH160 (by decide) _ pushed)
  simpa [getScriptForDestination] using solver_form (.pubKeyHash twenty reads)

theorem solver_scriptID {hash : List UInt8} (twenty : hash.length = 20) :
    solver (getScriptForDestination (.scriptID hash)) = .solved .TX_SCRIPTHASH [hash] := by
  have ending : contents [OP_EQUAL] = some [(OP_EQUAL, [])] := contents_op (by decide) contents_nil
  have pushed := @contents_push _ hash [OP_EQUAL] (by rw [twenty]; decide) ending
  have opcode : pushOpcode hash = 20 := by
    unfold pushOpcode pushOf
    have first : OP_PUSHDATA1.toNat = 76 := rfl
    rw [if_pos (by omega), twenty]
    rfl
  rw [opcode] at pushed
  have reads := @contents_op _ OP_HASH160 (by decide) _ pushed
  simpa [getScriptForDestination] using solver_form (.scriptHash twenty reads)

theorem extractDestination_script (id : CKeyID) :
    extractDestination hash160 (getScriptForDestination (.keyID (toByteVector id))) =
        .extracted (.keyID (toByteVector id)) ∧
      extractDestination hash160 (getScriptForDestination (.scriptID (toByteVector id))) =
        .extracted (.scriptID (toByteVector id)) := by
  have twenty := toByteVector_length id
  constructor
  · simp [extractDestination, solver_keyID twenty, withId_toByteVector]
  · simp [extractDestination, solver_scriptID twenty, withId_toByteVector]

theorem encodeOpN_small {n : Nat} (positive : 1 ≤ n) (few : n ≤ 16) :
    ∃ opcode, encodeOpN n = some opcode ∧ isSmallNumber opcode = true ∧ decodeOpN opcode = n := by
  have one : OP_1.toNat = 0x51 := rfl
  have last : OP_16.toNat = 0x60 := rfl
  have zero : OP_0.toNat = 0 := rfl
  have size : (UInt8.ofNat (OP_1.toNat + n - 1)).toNat = 0x50 + n := by
    rw [UInt8.toNat_ofNat']
    omega
  refine ⟨UInt8.ofNat (OP_1.toNat + n - 1), ?_, ?_, ?_⟩
  · simp [encodeOpN, few, show n ≠ 0 by omega]
  · simp only [isSmallNumber, Bool.and_eq_true, decide_eq_true_eq, UInt8.le_iff_toNat_le, size]
    omega
  · have filled : UInt8.ofNat (OP_1.toNat + n - 1) ≠ OP_0 := by
      intro same
      rw [same] at size
      omega
    rw [decodeOpN, if_neg filled, size]
    omega

theorem pushOf_length_le {b : List UInt8} (short : b.length ≤ 65) :
    (pushOf b).length = b.length + 1 := by
  have first : OP_PUSHDATA1.toNat = 76 := rfl
  simp [pushOf, show b.length < OP_PUSHDATA1.toNat by omega]

theorem contents_keys {keys : List valtype} {tail : CScript}
    {rest : List (Opcode × List UInt8)} (sized : ∀ key ∈ keys, KeySized key)
    (fits : 66 * keys.length + tail.length < 2 ^ 32) (reads : contents tail = some rest) :
    contents ((keys.map pushOf).flatten ++ tail) =
      some (keys.map (fun key => (pushOpcode key, key)) ++ rest) ∧
    ((keys.map pushOf).flatten ++ tail).length ≤ 66 * keys.length + tail.length := by
  induction keys with
  | nil => simpa using reads
  | cons key keys ih =>
    have short : key.length ≤ 65 := (sized key List.mem_cons_self).2
    simp only [List.length_cons] at fits
    obtain ⟨later, size⟩ := ih (fun other member => sized other (List.mem_cons_of_mem _ member))
      (by omega)
    have pushed := contents_push (b := key) (by omega) later
    have longer := pushOf_length_le short
    simp only [List.map_cons, List.flatten_cons, List.append_assoc, List.cons_append,
      List.length_append, List.length_cons] at pushed size ⊢
    exact ⟨pushed, by omega⟩

theorem solver_multisig (m : Nat) (keys : List CPubKey) (positive : 1 ≤ m)
    (enough : m ≤ keys.length) (few : keys.length ≤ 16)
    (sized : ∀ key ∈ keys, key.bytes.length = 33 ∨ key.bytes.length = 65) :
    ∃ script, getScriptForMultisig m keys = some script ∧
      solver script = .solved .TX_MULTISIG ([UInt8.ofNat m] ::
        (keys.map CPubKey.bytes ++ [[UInt8.ofNat keys.length]])) := by
  obtain ⟨required, encoded, small, number⟩ := encodeOpN_small positive (by omega)
  obtain ⟨size, encodedSize, smallSize, count⟩ := encodeOpN_small (n := keys.length) (by omega) few
  have keySized : ∀ key ∈ keys.map CPubKey.bytes, KeySized key := by
    intro key member
    obtain ⟨pubKey, listed, rfl⟩ := List.mem_map.mp member
    have either := sized pubKey listed
    unfold KeySized
    omega
  have ending : contents [size, OP_CHECKMULTISIG] = some [(size, []), (OP_CHECKMULTISIG, [])] :=
    contents_op (small_plain smallSize) (contents_op (by decide) contents_nil)
  obtain ⟨row, _⟩ := contents_keys keySized (by simp; omega) ending
  have reads := contents_op (small_plain small) row
  have ordered : required ≤ size := (smallByte_le small smallSize).2.2.mp (by omega)
  have form := Form.multisig ⟨small, smallSize⟩ ordered (by simp [count])
    (by simpa using keySized) reads
  refine ⟨_, by simp [getScriptForMultisig, encoded, encodedSize]; rfl, ?_⟩
  simpa [smallByte, number, count, Function.comp_def] using solver_form form

/-- `Solver` finds the forms of scripts exactly, except on a mint's opcode alone, and so gives
    destinations and multisig scripts back what they were made from. -/
theorem solver_forms_exact :
    (∀ script, Classified script ↔ script ≠ [OP_ZEROCOINMINT]) ∧
      (∀ id, extractDestination hash160 (getScriptForDestination (.keyID (toByteVector id))) =
          .extracted (.keyID (toByteVector id)) ∧
        extractDestination hash160 (getScriptForDestination (.scriptID (toByteVector id))) =
          .extracted (.scriptID (toByteVector id))) ∧
      ∀ (m : Nat) (keys : List CPubKey), 1 ≤ m → m ≤ keys.length → keys.length ≤ 16 →
        (∀ key ∈ keys, key.bytes.length = 33 ∨ key.bytes.length = 65) →
        ∃ script, getScriptForMultisig m keys = some script ∧
          solver script = .solved .TX_MULTISIG ([UInt8.ofNat m] ::
            (keys.map CPubKey.bytes ++ [[UInt8.ofNat keys.length]])) :=
  ⟨classified_iff, extractDestination_script hash160, solver_multisig⟩

theorem two_keys_solved :
    ∃ script, getScriptForMultisig 1 [sampleKey, sampleKey] = some script ∧
      solver script = .solved .TX_MULTISIG [[1], sampleKey.bytes, sampleKey.bytes, [2]] :=
  (solver_forms_exact fun _ => 0).2.2 1 [sampleKey, sampleKey] (by decide) (by decide) (by decide)
    (by decide)

theorem lone_mint_outOfRange : solver [OP_ZEROCOINMINT] = .outOfRange ∧
    ¬ ∀ script, Classified script :=
  ⟨by decide, fun all => (all [OP_ZEROCOINMINT]).1 (by decide)⟩

end Destinations

end OxidStandardForms
