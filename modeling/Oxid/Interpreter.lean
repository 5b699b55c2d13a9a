import Mathlib.Data.Vector.Basic
import Oxid.Library.Triples
import Oxid.SignatureEncoding

/-!
The script interpreter. Stacks have their top first, and `stacktop i` is what the source
writes as `stacktop(-i)`. An access outside a stack is a fault here, where the source
throws or is undefined; the calls of the signature checker are logged, newest first.
Whether a signature is right is a parameter, and so are the hash functions, with the
lengths of what they write.
-/
namespace OxidInterpreter
open OxidPrimitives OxidScript OxidScriptNum OxidSignatureEncoding Attempt Triples

abbrev Stack := List Element

structure Verifier where
  flags : UInt32
  checkSig : Element → Element → CScript → Bool
  ripemd160 : Element → List.Vector UInt8 20
  sha1 : Element → List.Vector UInt8 20
  sha256 : Element → List.Vector UInt8 32
  hash160 : Element → List.Vector UInt8 20
  hash256 : Element → List.Vector UInt8 32

structure Machine where
  stack : Stack
  altstack : Stack
  vfExec : List Bool
  pbegincodehash : CScript
  nOpCount : Nat

structure CheckCall where
  vchSig : Element
  vchPubKey : Element
  scriptCode : CScript
deriving DecidableEq

abbrev EvalState := Machine × List CheckCall
abbrev Machining := EStateM Stop Machine
abbrev Evaluating := EStateM Stop EvalState

def castToBool : Element → Bool
  | [] => false
  | [last] => last != 0 && last != 0x80
  | byte :: rest => byte != 0 || castToBool rest

def vchFalse : Element := []
def vchTrue : Element := [1]

def boolElement (holds : Bool) : Element := if holds then vchTrue else vchFalse

def checkMinimalPush (data : Element) (opcode : Opcode) : Bool :=
  match data with
  | [] => opcode == OP_0
  | first :: rest =>
    if rest.isEmpty && 1 ≤ first && first ≤ 16 then opcode == OP_1 + (first - 1)
    else if rest.isEmpty && first == 0x81 then opcode == OP_1NEGATE
    else if data.length ≤ 75 then opcode.toNat == data.length
    else if data.length ≤ 255 then opcode == OP_PUSHDATA1
    else if data.length ≤ 65535 then opcode == OP_PUSHDATA2
    else true

inductive UnaryOp where
  | add1 | sub1 | negate | abs | not | zeroNotEqual
deriving DecidableEq

inductive BinaryOp where
  | add | sub | boolAnd | boolOr | numEqual | numEqualVerify | numNotEqual
  | lessThan | greaterThan | lessThanOrEqual | greaterThanOrEqual | min | max
deriving DecidableEq

inductive HashOp where
  | ripemd160 | sha1 | sha256 | hash160 | hash256
deriving DecidableEq

/-- The cases of the switch that check no signature. `bad` is its default. -/
inductive PlainOp where
  | smallInteger | nop | upgradableNop
  | branch (negated : Bool) | otherwise | endIf | verify | return
  | toAltStack | fromAltStack | drop2 | dup2 | dup3 | over2 | rot2 | swap2 | ifDup | depth
  | drop | dup | nip | copySecond | pick (roll : Bool) | rot | swap | tuck | size
  | equal (verified : Bool)
  | unary (op : UnaryOp) | binary (op : BinaryOp) | within
  | hash (op : HashOp) | codeSeparator | bad
deriving DecidableEq

inductive Operation where
  | plain (op : PlainOp)
  | checkSig (verified : Bool)
  | checkMultiSig (verified : Bool)
deriving DecidableEq

def operations : List (Opcode × Operation) :=
  [(OP_1NEGATE, .plain .smallInteger), (OP_NOP, .plain .nop),
   (OP_IF, .plain (.branch false)), (OP_NOTIF, .plain (.branch true)),
   (OP_ELSE, .plain .otherwise), (OP_ENDIF, .plain .endIf), (OP_VERIFY, .plain .verify),
   (OP_RETURN, .plain .return), (OP_TOALTSTACK, .plain .toAltStack),
   (OP_FROMALTSTACK, .plain .fromAltStack), (OP_2DROP, .plain .drop2), (OP_2DUP, .plain .dup2),
   (OP_3DUP, .plain .dup3), (OP_2OVER, .plain .over2), (OP_2ROT, .plain .rot2),
   (OP_2SWAP, .plain .swap2), (OP_IFDUP, .plain .ifDup), (OP_DEPTH, .plain .depth),
   (OP_DROP, .plain .drop), (OP_DUP, .plain .dup), (OP_NIP, .plain .nip),
   (OP_OVER, .plain .copySecond), (OP_PICK, .plain (.pick false)), (OP_ROLL, .plain (.pick true)),
   (OP_ROT, .plain .rot), (OP_SWAP, .plain .swap), (OP_TUCK, .plain .tuck),
   (OP_SIZE, .plain .size), (OP_EQUAL, .plain (.equal false)),
   (OP_EQUALVERIFY, .plain (.equal true)),
   (OP_1ADD, .plain (.unary .add1)), (OP_1SUB, .plain (.unary .sub1)),
   (OP_NEGATE, .plain (.unary .negate)), (OP_ABS, .plain (.unary .abs)),
   (OP_NOT, .plain (.unary .not)), (OP_0NOTEQUAL, .plain (.unary .zeroNotEqual)),
   (OP_ADD, .plain (.binary .add)), (OP_SUB, .plain (.binary .sub)),
   (OP_BOOLAND, .plain (.binary .boolAnd)), (OP_BOOLOR, .plain (.binary .boolOr)),
   (OP_NUMEQUAL, .plain (.binary .numEqual)),
   (OP_NUMEQUALVERIFY, .plain (.binary .numEqualVerify)),
   (OP_NUMNOTEQUAL, .plain (.binary .numNotEqual)), (OP_LESSTHAN, .plain (.binary .lessThan)),
   (OP_GREATERTHAN, .plain (.binary .greaterThan)),
   (OP_LESSTHANOREQUAL, .plain (.binary .lessThanOrEqual)),
   (OP_GREATERTHANOREQUAL, .plain (.binary .greaterThanOrEqual)),
   (OP_MIN, .plain (.binary .min)), (OP_MAX, .plain (.binary .max)), (OP_WITHIN, .plain .within),
   (OP_RIPEMD160, .plain (.hash .ripemd160)), (OP_SHA1, .plain (.hash .sha1)),
   (OP_SHA256, .plain (.hash .sha256)), (OP_HASH160, .plain (.hash .hash160)),
   (OP_HASH256, .plain (.hash .hash256)), (OP_CODESEPARATOR, .plain .codeSeparator),
   (OP_CHECKSIG, .checkSig false), (OP_CHECKSIGVERIFY, .checkSig true),
   (OP_CHECKMULTISIG, .checkMultiSig false), (OP_CHECKMULTISIGVERIFY, .checkMultiSig true)]

def operation (opcode : Opcode) : Operation :=
  if isSmallNumber opcode then .plain .smallInteger
  else if OP_NOP1 ≤ opcode ∧ opcode ≤ OP_NOP10 then .plain .upgradableNop
  else (operations.lookup opcode).getD (.plain .bad)

def disabledOpcodes : List Opcode :=
  [OP_CAT, OP_SUBSTR, OP_LEFT, OP_RIGHT, OP_INVERT, OP_AND, OP_OR, OP_XOR, OP_2MUL, OP_2DIV,
   OP_MUL, OP_DIV, OP_MOD, OP_LSHIFT, OP_RSHIFT]

def refuse {α : Type} (serror : ScriptError) : Machining α := failing (.error serror)

def demand (holds : Bool) (serror : ScriptError) : Machining Unit := check (ensure holds serror)

def needStack (n : Nat) (serror : ScriptError) : Machining Unit := do
  let stack ← reading (·.stack)
  demand (n ≤ stack.length) serror

def fromTop : Nat → Stack → Option Element
  | 0, _ => none
  | i + 1, stack => stack[i]?

def stacktop (i : Nat) : Machining Element := do
  let stack ← reading (·.stack)
  check (inRange (fromTop i stack))

def rearrange (change : Stack → Option Stack) : Machining Unit := do
  let stack ← reading (·.stack)
  let changed ← check (inRange (change stack))
  update fun machine => { machine with stack := changed }

def popped : Stack → Option Stack
  | [] => none
  | _ :: rest => some rest

/-- `erase(end - i, end - j)`. -/
def erased (i j : Nat) (stack : Stack) : Option Stack :=
  if j ≤ i ∧ i ≤ stack.length then some (stack.take j ++ stack.drop i) else none

/-- `insert(end - i, vch)`. -/
def inserted (i : Nat) (vch : Element) (stack : Stack) : Option Stack :=
  if i ≤ stack.length then some (stack.take i ++ vch :: stack.drop i) else none

/-- `swap(stacktop(-i), stacktop(-j))`. -/
def swapped (i j : Nat) (stack : Stack) : Option Stack := do
  let first ← fromTop i stack
  let second ← fromTop j stack
  some ((stack.set (i - 1) second).set (j - 1) first)

def popstack : Machining Unit := rearrange popped

def pushStack (vch : Element) : Machining Unit :=
  update fun machine => { machine with stack := vch :: machine.stack }

def pushNumber (bn : CScriptNum) : Machining Unit := do
  let vch ← check (getvch bn)
  pushStack vch

def popVerified (verified fSuccess : Bool) (serror : ScriptError) : Machining Unit :=
  if verified then if fSuccess then popstack else refuse serror
  else pure ()

section Executing

variable (verifier : Verifier)

def fRequireMinimal : Bool := hasFlag verifier.flags SCRIPT_VERIFY_MINIMALDATA

def stackNumber (i : Nat) : Machining CScriptNum := do
  let vch ← stacktop i
  check (ofVch vch (fRequireMinimal verifier))

def opSmallInteger (opcode : Opcode) : Machining Unit := do
  let bn ← check (ofSmallOpcode opcode)
  pushNumber bn

def opUpgradableNop : Machining Unit :=
  demand (!hasFlag verifier.flags SCRIPT_VERIFY_DISCOURAGE_UPGRADABLE_NOPS)
    .DISCOURAGE_UPGRADABLE_NOPS

def branchValue (negated fExec : Bool) : Machining Bool :=
  if fExec then do
    needStack 1 .UNBALANCED_CONDITIONAL
    let vch ← stacktop 1
    popstack
    pure (castToBool vch != negated)
  else pure false

def opBranch (negated fExec : Bool) : Machining Unit := do
  let fValue ← branchValue negated fExec
  update fun machine => { machine with vfExec := fValue :: machine.vfExec }

def opElse : Machining Unit := do
  let vfExec ← reading (·.vfExec)
  match vfExec with
  | [] => refuse .UNBALANCED_CONDITIONAL
  | back :: before => update fun machine => { machine with vfExec := (!back) :: before }

def opEndIf : Machining Unit := do
  let vfExec ← reading (·.vfExec)
  match vfExec with
  | [] => refuse .UNBALANCED_CONDITIONAL
  | _ :: before => update fun machine => { machine with vfExec := before }

def opVerify : Machining Unit := do
  needStack 1 .INVALID_STACK_OPERATION
  let vch ← stacktop 1
  popVerified true (castToBool vch) .VERIFY

def opToAltStack : Machining Unit := do
  needStack 1 .INVALID_STACK_OPERATION
  let vch ← stacktop 1
  update fun machine => { machine with altstack := vch :: machine.altstack }
  popstack

def opFromAltStack : Machining Unit := do
  let altstack ← reading (·.altstack)
  demand (1 ≤ altstack.length) .INVALID_ALTSTACK_OPERATION
  let vch ← check (inRange (fromTop 1 altstack))
  pushStack vch
  let left ← check (inRange (popped altstack))
  update fun machine => { machine with altstack := left }

def op2Drop : Machining Unit := do
  needStack 2 .INVALID_STACK_OPERATION
  popstack
  popstack

def op2Dup : Machining Unit := do
  needStack 2 .INVALID_STACK_OPERATION
  let vch1 ← stacktop 2
  let vch2 ← stacktop 1
  pushStack vch1
  pushStack vch2

def op3Dup : Machining Unit := do
  needStack 3 .INVALID_STACK_OPERATION
  let vch1 ← stacktop 3
  let vch2 ← stacktop 2
  let vch3 ← stacktop 1
  pushStack vch1
  pushStack vch2
  pushStack vch3

def op2Over : Machining Unit := do
  needStack 4 .INVALID_STACK_OPERATION
  let vch1 ← stacktop 4
  let vch2 ← stacktop 3
  pushStack vch1
  pushStack vch2

def op2Rot : Machining Unit := do
  needStack 6 .INVALID_STACK_OPERATION
  let vch1 ← stacktop 6
  let vch2 ← stacktop 5
  rearrange (erased 6 4)
  pushStack vch1
  pushStack vch2

def op2Swap : Machining Unit := do
  needStack 4 .INVALID_STACK_OPERATION
  rearrange (swapped 4 2)
  rearrange (swapped 3 1)

def opIfDup : Machining Unit := do
  needStack 1 .INVALID_STACK_OPERATION
  let vch ← stacktop 1
  if castToBool vch then pushStack vch else pure ()

def opDepth : Machining Unit := do
  let stack ← reading (·.stack)
  let bn ← check (int64 stack.length)
  pushNumber bn

def opDrop : Machining Unit := do
  needStack 1 .INVALID_STACK_OPERATION
  popstack

def opDup : Machining Unit := do
  needStack 1 .INVALID_STACK_OPERATION
  let vch ← stacktop 1
  pushStack vch

def opNip : Machining Unit := do
  needStack 2 .INVALID_STACK_OPERATION
  rearrange (erased 2 1)

def opOver : Machining Unit := do
  needStack 2 .INVALID_STACK_OPERATION
  let vch ← stacktop 2
  pushStack vch

def takeRolled (roll : Bool) (n : Nat) : Machining Unit :=
  if roll then rearrange (erased (n + 1) n) else pure ()

def opPick (roll : Bool) : Machining Unit := do
  needStack 2 .INVALID_STACK_OPERATION
  let bn ← stackNumber verifier 1
  popstack
  let stack ← reading (·.stack)
  demand (0 ≤ getint bn && getint bn < stack.length) .INVALID_STACK_OPERATION
  let n := (getint bn).toNat
  let vch ← stacktop (n + 1)
  takeRolled roll n
  pushStack vch

def opRot : Machining Unit := do
  needStack 3 .INVALID_STACK_OPERATION
  rearrange (swapped 3 2)
  rearrange (swapped 2 1)

def opSwap : Machining Unit := do
  needStack 2 .INVALID_STACK_OPERATION
  rearrange (swapped 2 1)

def opTuck : Machining Unit := do
  needStack 2 .INVALID_STACK_OPERATION
  let vch ← stacktop 1
  rearrange (inserted 2 vch)

def opSize : Machining Unit := do
  needStack 1 .INVALID_STACK_OPERATION
  let vch ← stacktop 1
  let bn ← check (int64 vch.length)
  pushNumber bn

def opEqual (verified : Bool) : Machining Unit := do
  needStack 2 .INVALID_STACK_OPERATION
  let vch1 ← stacktop 2
  let vch2 ← stacktop 1
  popstack
  popstack
  pushStack (boolElement (vch1 == vch2))
  popVerified verified (vch1 == vch2) .EQUALVERIFY

def unaryResult (bn : CScriptNum) : UnaryOp → Except Stop CScriptNum
  | .add1 => addAssign bn bnOne
  | .sub1 => subAssign bn bnOne
  | .negate => OxidScriptNum.negate bn
  | .abs => if bn.m_value < 0 then OxidScriptNum.negate bn else .ok bn
  | .not => .ok (ofBool (bn.m_value == 0))
  | .zeroNotEqual => .ok (ofBool (bn.m_value != 0))

def opUnary (op : UnaryOp) : Machining Unit := do
  needStack 1 .INVALID_STACK_OPERATION
  let bn ← stackNumber verifier 1
  let result ← check (unaryResult bn op)
  popstack
  pushNumber result

def binaryResult (bn1 bn2 : CScriptNum) : BinaryOp → Except Stop CScriptNum
  | .add => OxidScriptNum.add bn1 bn2
  | .sub => OxidScriptNum.sub bn1 bn2
  | .boolAnd => .ok (ofBool (bn1.m_value != 0 && bn2.m_value != 0))
  | .boolOr => .ok (ofBool (bn1.m_value != 0 || bn2.m_value != 0))
  | .numEqual => .ok (ofBool (bn1.m_value == bn2.m_value))
  | .numEqualVerify => .ok (ofBool (bn1.m_value == bn2.m_value))
  | .numNotEqual => .ok (ofBool (bn1.m_value != bn2.m_value))
  | .lessThan => .ok (ofBool (bn1.m_value < bn2.m_value))
  | .greaterThan => .ok (ofBool (bn1.m_value > bn2.m_value))
  | .lessThanOrEqual => .ok (ofBool (bn1.m_value ≤ bn2.m_value))
  | .greaterThanOrEqual => .ok (ofBool (bn1.m_value ≥ bn2.m_value))
  | .min => .ok (if bn1.m_value < bn2.m_value then bn1 else bn2)
  | .max => .ok (if bn1.m_value > bn2.m_value then bn1 else bn2)

def numEqualVerified (op : BinaryOp) : Machining Unit :=
  if op = .numEqualVerify then do
    let vch ← stacktop 1
    popVerified true (castToBool vch) .NUMEQUALVERIFY
  else pure ()

def opBinary (op : BinaryOp) : Machining Unit := do
  needStack 2 .INVALID_STACK_OPERATION
  let bn1 ← stackNumber verifier 2
  let bn2 ← stackNumber verifier 1
  let result ← check (binaryResult bn1 bn2 op)
  popstack
  popstack
  pushNumber result
  numEqualVerified op

def opWithin : Machining Unit := do
  needStack 3 .INVALID_STACK_OPERATION
  let bn1 ← stackNumber verifier 3
  let bn2 ← stackNumber verifier 2
  let bn3 ← stackNumber verifier 1
  popstack
  popstack
  popstack
  pushStack (boolElement (bn2.m_value ≤ bn1.m_value && bn1.m_value < bn3.m_value))

def hashed (vch : Element) : HashOp → Element
  | .ripemd160 => (verifier.ripemd160 vch).toList
  | .sha1 => (verifier.sha1 vch).toList
  | .sha256 => (verifier.sha256 vch).toList
  | .hash160 => (verifier.hash160 vch).toList
  | .hash256 => (verifier.hash256 vch).toList

def opHash (op : HashOp) : Machining Unit := do
  needStack 1 .INVALID_STACK_OPERATION
  let vch ← stacktop 1
  popstack
  pushStack (hashed verifier vch op)

def opCodeSeparator (pc : CScript) : Machining Unit :=
  update fun machine => { machine with pbegincodehash := pc }

def executePlain (fExec : Bool) (opcode : Opcode) (pc : CScript) : PlainOp → Machining Unit
  | .smallInteger => opSmallInteger opcode
  | .nop => pure ()
  | .upgradableNop => opUpgradableNop verifier
  | .branch negated => opBranch negated fExec
  | .otherwise => opElse
  | .endIf => opEndIf
  | .verify => opVerify
  | .return => refuse .OP_RETURN
  | .toAltStack => opToAltStack
  | .fromAltStack => opFromAltStack
  | .drop2 => op2Drop
  | .dup2 => op2Dup
  | .dup3 => op3Dup
  | .over2 => op2Over
  | .rot2 => op2Rot
  | .swap2 => op2Swap
  | .ifDup => opIfDup
  | .depth => opDepth
  | .drop => opDrop
  | .dup => opDup
  | .nip => opNip
  | .copySecond => opOver
  | .pick roll => opPick verifier roll
  | .rot => opRot
  | .swap => opSwap
  | .tuck => opTuck
  | .size => opSize
  | .equal verified => opEqual verified
  | .unary op => opUnary verifier op
  | .binary op => opBinary verifier op
  | .within => opWithin verifier
  | .hash op => opHash verifier op
  | .codeSeparator => opCodeSeparator pc
  | .bad => refuse .BAD_OPCODE

def checkSigCall (vchSig vchPubKey : Element) (scriptCode : CScript) : Evaluating Bool := do
  inside (check (checkSignatureEncoding verifier.flags vchSig))
  inside (check (checkPubKeyEncoding verifier.flags vchPubKey))
  update fun state => (state.1, ⟨vchSig, vchPubKey, scriptCode⟩ :: state.2)
  pure (verifier.checkSig vchSig vchPubKey scriptCode)

def opCheckSig (verified : Bool) : Evaluating Unit := do
  inside (needStack 2 .INVALID_STACK_OPERATION)
  let vchSig ← inside (stacktop 2)
  let vchPubKey ← inside (stacktop 1)
  let scriptCode ← inside (reading (·.pbegincodehash))
  let fSuccess ← checkSigCall verifier vchSig vchPubKey (findAndDelete scriptCode (pushOf vchSig)).2
  inside do
    popstack
    popstack
    pushStack (boolElement fSuccess)
    popVerified verified fSuccess .CHECKSIGVERIFY

def countOps (more : Nat) : Machining Unit := do
  update fun machine => { machine with nOpCount := machine.nOpCount + more }
  let nOpCount ← reading (·.nOpCount)
  demand (nOpCount ≤ 201) .OP_COUNT

def keysCount : Machining Nat := do
  needStack 1 .INVALID_STACK_OPERATION
  let bn ← stackNumber verifier 1
  demand (0 ≤ getint bn && getint bn ≤ 20) .PUBKEY_COUNT
  countOps (getint bn).toNat
  pure (getint bn).toNat

def sigsCount (nKeysCount : Nat) : Machining Nat := do
  needStack (2 + nKeysCount) .INVALID_STACK_OPERATION
  let bn ← stackNumber verifier (2 + nKeysCount)
  demand (0 ≤ getint bn && getint bn ≤ nKeysCount) .SIG_COUNT
  pure (getint bn).toNat

def dropSignatures (isig : Nat) : Nat → CScript → Machining CScript
  | 0, scriptCode => pure scriptCode
  | left + 1, scriptCode => do
    let vchSig ← stacktop isig
    dropSignatures (isig + 1) left (findAndDelete scriptCode (pushOf vchSig)).2

/-- The loop over the keys. It gives up when more signatures than keys are left, so
    it is never left without a key while a signature is waiting. -/
def matchSignatures (scriptCode : CScript) : Nat → Nat → Nat → Nat → Evaluating Bool
  | _, 0, _, _ => pure true
  | 0, _ + 1, _, _ => pure false
  | nKeysCount + 1, nSigsCount + 1, isig, ikey => do
    let vchSig ← inside (stacktop isig)
    let vchPubKey ← inside (stacktop ikey)
    let fOk ← checkSigCall verifier vchSig vchPubKey scriptCode
    let nSigsLeft := if fOk then nSigsCount else nSigsCount + 1
    if nKeysCount < nSigsLeft then pure false
    else matchSignatures scriptCode nKeysCount nSigsLeft (if fOk then isig + 1 else isig) (ikey + 1)

def popTimes : Nat → Machining Unit
  | 0 => pure ()
  | times + 1 => do
    popstack
    popTimes times

def popDummy : Machining Unit := do
  needStack 1 .INVALID_STACK_OPERATION
  let vch ← stacktop 1
  demand (!(hasFlag verifier.flags SCRIPT_VERIFY_NULLDUMMY && vch.length != 0)) .SIG_NULLDUMMY
  popstack

def opCheckMultiSig (verified : Bool) : Evaluating Unit := do
  let nKeysCount ← inside (keysCount verifier)
  let nSigsCount ← inside (sigsCount verifier nKeysCount)
  let isig := 3 + nKeysCount
  inside (needStack (isig + nSigsCount) .INVALID_STACK_OPERATION)
  let begun ← inside (reading (·.pbegincodehash))
  let scriptCode ← inside (dropSignatures isig nSigsCount begun)
  let fSuccess ← matchSignatures verifier scriptCode nKeysCount nSigsCount isig 2
  inside do
    popTimes (isig + nSigsCount - 1)
    popDummy verifier
    pushStack (boolElement fSuccess)
    popVerified verified fSuccess .CHECKMULTISIGVERIFY

def execute (fExec : Bool) (opcode : Opcode) (pc : CScript) : Operation → Evaluating Unit
  | .plain op => inside (executePlain verifier fExec opcode pc op)
  | .checkSig verified => opCheckSig verifier verified
  | .checkMultiSig verified => opCheckMultiSig verifier verified

def pushImmediate (read : OpRead) : Machining Unit := do
  demand (!(fRequireMinimal verifier && !checkMinimalPush read.vchRet read.opcodeRet)) .MINIMALDATA
  pushStack read.vchRet

def dispatch (fExec : Bool) (read : OpRead) : Evaluating Unit :=
  if fExec && read.opcodeRet ≤ OP_PUSHDATA4 then inside (pushImmediate verifier read)
  else if fExec || OP_IF ≤ read.opcodeRet && read.opcodeRet ≤ OP_ENDIF then
    execute verifier fExec read.opcodeRet read.pc (operation read.opcodeRet)
  else pure ()

def executing (machine : Machine) : Bool := !machine.vfExec.contains false

def countOp (opcode : Opcode) : Machining Unit :=
  if OP_16 < opcode then countOps 1 else pure ()

def checkLimits (read : OpRead) : Machining Unit := do
  demand (read.vchRet.length ≤ MAX_SCRIPT_ELEMENT_SIZE) .PUSH_SIZE
  countOp read.opcodeRet
  demand (!disabledOpcodes.contains read.opcodeRet) .DISABLED_OPCODE

def checkSizes : Machining Unit := do
  let machine ← reading id
  demand (machine.stack.length + machine.altstack.length ≤ 1000) .STACK_SIZE

def executeOp (read : OpRead) : Evaluating Unit := do
  let fExec ← inside (reading executing)
  inside (checkLimits read)
  dispatch verifier fExec read
  inside checkSizes

def evalLoop (pc : CScript) : Evaluating Unit :=
  if pc.isEmpty then pure ()
  else if (getOp pc).fRet = true then do
    executeOp verifier (getOp pc)
    evalLoop (getOp pc).pc
  else inside (refuse .BAD_OPCODE)
termination_by pc.length
decreasing_by
  rename_i read
  exact getOp_shorter pc read

def checkBalanced : Machining Unit := do
  let vfExec ← reading (·.vfExec)
  demand vfExec.isEmpty .UNBALANCED_CONDITIONAL

def begin (stack : Stack) (script : CScript) : EvalState := (⟨stack, [], [], script, 0⟩, [])

/-- A run of `EvalScript`: what it was given, how it ended, the stack it left and the
    calls of the checker it made. -/
structure Evaluation where
  script : CScript
  initial : Stack
  verdict : Except Stop Unit
  stack : Stack
  calls : List CheckCall

/-- The handler around the loop. Faults pass through it, so that they can be seen. -/
def caught : Stop → Stop
  | .numberError => .error .UNKNOWN_ERROR
  | other => other

def evalScript (stack : Stack) (script : CScript) : Evaluation :=
  if script.length > 10000 then ⟨script, stack, .error (.error .SCRIPT_SIZE), stack, []⟩
  else
    match (evalLoop verifier script >>= fun _ => inside checkBalanced) (begin stack script) with
    | .ok _ final => ⟨script, stack, .ok (), final.1.stack, final.2⟩
    | .error stop final => ⟨script, stack, .error (caught stop), final.1.stack, final.2⟩

abbrev Verifying := EStateM Stop (List Evaluation)

def evaluate (stack : Stack) (script : CScript) : Verifying Stack := do
  let evaluation := evalScript verifier stack script
  update (· ++ [evaluation])
  check evaluation.verdict
  pure evaluation.stack

def endsTrue (stack : Stack) : Except Stop Unit :=
  match stack with
  | [] => .error (.error .EVAL_FALSE)
  | back :: _ => ensure (castToBool back) .EVAL_FALSE

def assertedTop : Stack → Except Stop (Element × Stack)
  | [] => .error (.fault .assertion)
  | back :: rest => .ok (back, rest)

def verifyRedeem (scriptSig scriptPubKey : CScript) (stackCopy : Stack) : Verifying Unit :=
  if hasFlag verifier.flags SCRIPT_VERIFY_P2SH && isPayToScriptHash scriptPubKey then do
    check (ensure (isPushOnly scriptSig) .SIG_PUSHONLY)
    let (pubKeySerialized, rest) ← check (assertedTop stackCopy)
    let stack ← evaluate verifier rest pubKeySerialized
    check (endsTrue stack)
  else pure ()

/-- `VerifyScript`, with the evaluations it makes in their order: of the scriptSig, of
    the scriptPubKey and of the redeem script. -/
def verifyScript (scriptSig scriptPubKey : CScript) : Verifying Unit := do
  check (ensure (!(hasFlag verifier.flags SCRIPT_VERIFY_SIGPUSHONLY && !isPushOnly scriptSig))
    .SIG_PUSHONLY)
  let signed ← evaluate verifier [] scriptSig
  let stackCopy := if hasFlag verifier.flags SCRIPT_VERIFY_P2SH then signed else []
  let stack ← evaluate verifier signed scriptPubKey
  check (endsTrue stack)
  verifyRedeem verifier scriptSig scriptPubKey stackCopy

def evaluationsOf (scriptSig scriptPubKey : CScript) : List Evaluation :=
  endState (verifyScript verifier scriptSig scriptPubKey [])

end Executing

end OxidInterpreter
