import Oxid.Script

/-!
Output scripts by their kind. `Solver` compares a script with its templates one
instruction at a time and collects the data that stand where a template leaves room.
-/
namespace OxidStandard
open OxidPrimitives OxidScript

def OP_SMALLINTEGER : Opcode := 0xfa
def OP_PUBKEYS : Opcode := 0xfb
def OP_PUBKEYHASH : Opcode := 0xfd
def OP_PUBKEY : Opcode := 0xfe

inductive txnouttype where
  | TX_NONSTANDARD
  | TX_PUBKEY
  | TX_PUBKEYHASH
  | TX_SCRIPTHASH
  | TX_MULTISIG
  | TX_NULL_DATA
  | TX_ZEROCOINMINT
deriving DecidableEq, Repr

abbrev valtype := List UInt8

/-- What `Solver` does: it makes a vector out of a range that ends before it starts,
    returns false, or returns true with what it found. -/
inductive Solving where
  | outOfRange
  | unsolved
  | solved (typeRet : txnouttype) (vSolutionsRet : List valtype)
deriving DecidableEq

def mTemplates : List (txnouttype × List Opcode) :=
  [(.TX_PUBKEY, [OP_PUBKEY, OP_CHECKSIG]),
    (.TX_PUBKEYHASH, [OP_DUP, OP_HASH160, OP_PUBKEYHASH, OP_EQUALVERIFY, OP_CHECKSIG]),
    (.TX_MULTISIG, [OP_SMALLINTEGER, OP_PUBKEYS, OP_SMALLINTEGER, OP_CHECKMULTISIG])]

/-- The loop behind `OP_PUBKEYS`. It may end on an instruction that cannot be read. -/
def takePubKeys (read : OpRead) (vSolutions : List valtype) : OpRead × List valtype :=
  if 33 ≤ read.vchRet.length ∧ read.vchRet.length ≤ 65 then
    if (getOp read.pc).fRet = true then
      takePubKeys (getOp read.pc) (vSolutions ++ [read.vchRet])
    else (getOp read.pc, vSolutions ++ [read.vchRet])
  else (read, vSolutions)
termination_by read.pc.length
decreasing_by
  rename_i readable
  exact getOp_shorter read.pc readable

def matchOp (opcode2 : Opcode) (read : OpRead) (vSolutions : List valtype) :
    Option (List valtype) :=
  if opcode2 = OP_PUBKEY then
    if read.vchRet.length < 33 ∨ 65 < read.vchRet.length then none
    else some (vSolutions ++ [read.vchRet])
  else if opcode2 = OP_PUBKEYHASH then
    if read.vchRet.length ≠ 20 then none else some (vSolutions ++ [read.vchRet])
  else if opcode2 = OP_SMALLINTEGER then
    if read.opcodeRet = OP_0 ∨ (OP_1 ≤ read.opcodeRet ∧ read.opcodeRet ≤ OP_16) then
      some (vSolutions ++ [[UInt8.ofNat (decodeOpN read.opcodeRet)]])
    else none
  else if read.opcodeRet ≠ opcode2 ∨ read.vchRet ≠ [] then none
  else some vSolutions

def matchTemplate : List Opcode → CScript → List valtype → Option (List valtype)
  | [], pc1, vSolutions => if pc1.isEmpty then some vSolutions else none
  | opcode2 :: later, pc1, vSolutions =>
    if (getOp pc1).fRet = true then
      if opcode2 = OP_PUBKEYS then
        let (read, vSolutions) := takePubKeys (getOp pc1) vSolutions
        match later with
        | [] => none
        | next :: rest => (matchOp next read vSolutions).bind (matchTemplate rest read.pc)
      else (matchOp opcode2 (getOp pc1) vSolutions).bind (matchTemplate later (getOp pc1).pc)
    else none

def multisigFits (vSolutions : List valtype) : Bool :=
  let m := (vSolutions.head?.bind List.head?).getD 0
  let n := (vSolutions.getLast?.bind List.head?).getD 0
  !(decide (m < 1) || decide (n < 1) || decide (n < m) ||
    decide (vSolutions.length - 2 ≠ n.toNat))

def scanTemplates (scriptPubKey : CScript) : List (txnouttype × List Opcode) → Solving
  | [] => .unsolved
  | (typeRet, template) :: rest =>
    match matchTemplate template scriptPubKey [] with
    | none => scanTemplates scriptPubKey rest
    | some vSolutionsRet =>
      if typeRet = .TX_MULTISIG && !multisigFits vSolutionsRet then .unsolved
      else .solved typeRet vSolutionsRet

def solver (scriptPubKey : CScript) : Solving :=
  if isPayToScriptHash scriptPubKey then
    .solved .TX_SCRIPTHASH [(scriptPubKey.drop 2).take 20]
  else if CScript.isZerocoinMint scriptPubKey then
    if 150 < scriptPubKey.length then .unsolved
    else if scriptPubKey.length < 2 then .outOfRange
    else .solved .TX_ZEROCOINMINT [scriptPubKey.drop 2]
  else if scriptPubKey.head? = some OP_RETURN && isPushOnly scriptPubKey.tail then
    .solved .TX_NULL_DATA []
  else scanTemplates scriptPubKey mTemplates

variable {before found : List valtype} {vSolutions : List valtype} {script : CScript} {read : OpRead}
variable {typeRet : txnouttype} {opcode2 : Opcode} {pc1 : CScript}

theorem solver_scanned (solved : solver script = .solved typeRet vSolutions)
    (kind : typeRet = .TX_PUBKEY ∨ typeRet = .TX_PUBKEYHASH) :
    scanTemplates script mTemplates = .solved typeRet vSolutions := by
  unfold solver at solved
  split at solved
  · cases solved
    simp at kind
  · split at solved
    · split at solved
      · cases solved
      · split at solved
        · cases solved
        · cases solved
          simp at kind
    · split at solved
      · cases solved
        simp at kind
      · exact solved

theorem scanTemplates_matched {templates : List (txnouttype × List Opcode)}
    (solved : scanTemplates script templates = .solved typeRet vSolutions) :
    ∃ template, (typeRet, template) ∈ templates ∧
      matchTemplate template script [] = some vSolutions := by
  induction templates with
  | nil => cases solved
  | cons first rest ih =>
    obtain ⟨kind, template⟩ := first
    unfold scanTemplates at solved
    split at solved
    · obtain ⟨found, member, matched⟩ := ih solved
      exact ⟨found, List.mem_cons_of_mem _ member, matched⟩
    · rename_i matched
      split at solved
      · cases solved
      · cases solved
        exact ⟨template, List.mem_cons_self, matched⟩

theorem matchTemplate_cons {later : List Opcode} (single : opcode2 ≠ OP_PUBKEYS)
    (matched : matchTemplate (opcode2 :: later) pc1 before = some found) :
    ∃ middle, matchOp opcode2 (getOp pc1) before = some middle ∧
      matchTemplate later (getOp pc1).pc middle = some found := by
  unfold matchTemplate at matched
  split at matched
  · exact Option.bind_eq_some_iff.mp matched
  · cases matched

theorem matchTemplate_nil (matched : matchTemplate [] pc1 before = some found) :
    found = before := by
  unfold matchTemplate at matched
  split at matched
  · exact (Option.some.inj matched).symm
  · cases matched

theorem matchOp_plain
    (plain : opcode2 ≠ OP_PUBKEY ∧ opcode2 ≠ OP_PUBKEYHASH ∧ opcode2 ≠ OP_SMALLINTEGER)
    (matched : matchOp opcode2 read before = some found) : found = before := by
  unfold matchOp at matched
  rw [if_neg plain.1, if_neg plain.2.1, if_neg plain.2.2] at matched
  split at matched
  · cases matched
  · exact (Option.some.inj matched).symm

theorem matchOp_pubKey (matched : matchOp OP_PUBKEY read before = some found) :
    found = before ++ [read.vchRet] ∧ 33 ≤ read.vchRet.length ∧ read.vchRet.length ≤ 65 := by
  unfold matchOp at matched
  rw [if_pos rfl] at matched
  split at matched
  · cases matched
  · exact ⟨(Option.some.inj matched).symm, by omega, by omega⟩

theorem matchOp_pubKeyHash (matched : matchOp OP_PUBKEYHASH read before = some found) :
    found = before ++ [read.vchRet] ∧ read.vchRet.length = 20 := by
  unfold matchOp at matched
  rw [if_neg (by decide), if_pos rfl] at matched
  split at matched
  · cases matched
  · exact ⟨(Option.some.inj matched).symm, by omega⟩

theorem solver_pubKey (solved : solver script = .solved .TX_PUBKEY vSolutions) :
    ∃ vchPubKey, vSolutions = [vchPubKey] ∧ 33 ≤ vchPubKey.length ∧ vchPubKey.length ≤ 65 := by
  obtain ⟨template, listed, matched⟩ := scanTemplates_matched (solver_scanned solved (.inl rfl))
  have only : template = [OP_PUBKEY, OP_CHECKSIG] := by simpa [mTemplates] using listed
  rw [only] at matched
  obtain ⟨_, key, matched⟩ := matchTemplate_cons (by decide) matched
  obtain ⟨_, check, matched⟩ := matchTemplate_cons (by decide) matched
  obtain ⟨pushed, long, short⟩ := matchOp_pubKey key
  rw [matchTemplate_nil matched, matchOp_plain (by decide) check, pushed]
  exact ⟨_, rfl, long, short⟩

theorem solver_pubKeyHash (solved : solver script = .solved .TX_PUBKEYHASH vSolutions) :
    ∃ hash, vSolutions = [hash] ∧ hash.length = 20 := by
  obtain ⟨template, listed, matched⟩ := scanTemplates_matched (solver_scanned solved (.inr rfl))
  have only : template = [OP_DUP, OP_HASH160, OP_PUBKEYHASH, OP_EQUALVERIFY, OP_CHECKSIG] := by
    simpa [mTemplates] using listed
  rw [only] at matched
  obtain ⟨_, dup, matched⟩ := matchTemplate_cons (by decide) matched
  obtain ⟨_, hashed, matched⟩ := matchTemplate_cons (by decide) matched
  obtain ⟨_, hash, matched⟩ := matchTemplate_cons (by decide) matched
  obtain ⟨_, verify, matched⟩ := matchTemplate_cons (by decide) matched
  obtain ⟨_, check, matched⟩ := matchTemplate_cons (by decide) matched
  obtain ⟨pushed, length⟩ := matchOp_pubKeyHash hash
  rw [matchTemplate_nil matched, matchOp_plain (by decide) check, matchOp_plain (by decide) verify,
    pushed, matchOp_plain (by decide) hashed, matchOp_plain (by decide) dup]
  exact ⟨_, rfl, length⟩

end OxidStandard
