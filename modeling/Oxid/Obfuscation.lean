import Oxid.BlockSignature
import Oxid.Interpreter
import Oxid.Library.Runs
import Oxid.SignatureHash

/-!
Signatures of clients in the obfuscation pool. An input counts as the one that was signed
only if it has the new scriptSig already, and a scriptSig that some input has already is
turned away before that.
-/
namespace OxidObfuscation
open OxidPrimitives OxidSignatureEncoding OxidInterpreter OxidMasternode
open OxidBlockSignature Runs

/-- `CTxIn` with the field that is not written out. -/
structure PoolTxIn where
  txin : CTxIn
  prevPubKey : CScript
deriving DecidableEq

structure CTxDSIn extends PoolTxIn where
  fHasSig : Bool
deriving DecidableEq

structure CObfuScationEntry where
  sev : List CTxDSIn
  vout : List CTxOut
deriving DecidableEq

structure FinalTransaction where
  nVersion : Int32
  vin : List PoolTxIn
  vout : List CTxOut
  nLockTime : UInt32
deriving DecidableEq

structure CObfuscationPool where
  entries : List CObfuScationEntry
  finalTransaction : FinalTransaction
deriving DecidableEq

structure SignatureMachinery where
  signedHash : List UInt8 → Uint256
  ecdsaVerify : CPubKey → Uint256 → List UInt8 → Bool
  ripemd160 : Element → List.Vector UInt8 20
  sha1 : Element → List.Vector UInt8 20
  sha256 : Element → List.Vector UInt8 32
  hash160 : Element → List.Vector UInt8 20
  hash256 : Element → List.Vector UInt8 32

section Pool

variable (machinery : SignatureMachinery)

def checkSig (txTo : CTransaction) (nIn : Nat) (vchSig vchPubKey : Element)
    (scriptCode : CScript) : Bool :=
  let pubkey := pubKeyFromVector vchPubKey
  if !isValid pubkey then false
  else
    match vchSig.getLast? with
    | none => false
    | some nHashType =>
      let sighash := OxidSignatureHash.signatureHash machinery.signedHash scriptCode txTo nIn
        nHashType.toUInt32
      machinery.ecdsaVerify pubkey sighash vchSig.dropLast

def verifierFor (flags : UInt32) (txTo : CTransaction) (nIn : Nat) : Verifier where
  flags := flags
  checkSig := checkSig machinery txTo nIn
  ripemd160 := machinery.ripemd160
  sha1 := machinery.sha1
  sha256 := machinery.sha256
  hash160 := machinery.hash160
  hash256 := machinery.hash256

def verifies (scriptSig scriptPubKey : CScript) (txTo : CTransaction) (nIn : Nat) : Bool :=
  let verifier := verifierFor machinery (SCRIPT_VERIFY_P2SH ||| SCRIPT_VERIFY_STRICTENC) txTo nIn
  match verifyScript verifier scriptSig scriptPubKey [] with
  | .ok _ _ => true
  | .error _ _ => false

def pooledInputs (pool : CObfuscationPool) : List CTxDSIn := pool.entries.flatMap (·.sev)

def pooledTransaction (pool : CObfuscationPool) (n : Nat) (newSig : CScript) : CTransaction where
  nVersion := 1
  vin := ((pooledInputs pool).map fun s => s.txin).modify n fun txin =>
    { txin with scriptSig := newSig }
  vout := pool.entries.flatMap (·.vout)
  nLockTime := 0

/-- `operator==` on inputs. -/
def sameTxIn (a b : CTxIn) : Bool :=
  a.prevout == b.prevout && a.scriptSig == b.scriptSig && a.nSequence == b.nSequence

/-- The last input that equals the new one, by its place, and its public key. -/
def findInput (newVin : CTxIn) : List CTxDSIn → Nat → Option (Nat × CScript) →
    Option (Nat × CScript)
  | [], _, found => found
  | s :: rest, i, found =>
    findInput newVin rest (i + 1) (if sameTxIn s.txin newVin then some (i, s.prevPubKey) else found)

def signatureValid (pool : CObfuscationPool) (newSig : CScript) (newVin : CTxIn) : Bool :=
  match findInput newVin (pooledInputs pool) 0 none with
  | some (n, sigPubKey) =>
    verifies machinery newSig sigPubKey (pooledTransaction pool n newSig) n
  | none => true

def signs (newVin txin : CTxIn) : Bool :=
  txin.prevout == newVin.prevout && txin.nSequence == newVin.nSequence

def storeSig (newVin : PoolTxIn) (s : PoolTxIn) : PoolTxIn :=
  ⟨{ s.txin with scriptSig := newVin.txin.scriptSig }, newVin.prevPubKey⟩

inductive Place where
  | finalTransaction (n : Nat)
  | entry (i j : Nat)
deriving DecidableEq

/-- `AddSig`: the inputs afterwards and the place among them, or none if it returns false. -/
def addSig (newVin : PoolTxIn) : List CTxDSIn → Nat → Option (List CTxDSIn × Nat)
  | [], _ => none
  | s :: rest, j =>
    if signs newVin.txin s.txin then
      if s.fHasSig then none
      else some ({ toPoolTxIn := storeSig newVin s.toPoolTxIn, fHasSig := true } :: rest, j)
    else (addSig newVin rest (j + 1)).map fun stored => (s :: stored.1, stored.2)

def addToEntries (newVin : PoolTxIn) :
    List CObfuScationEntry → Nat → Option (List CObfuScationEntry × Place)
  | [], _ => none
  | e :: rest, i =>
    match addSig newVin e.sev 0 with
    | some (sev, j) => some ({ e with sev := sev } :: rest, .entry i j)
    | none => (addToEntries newVin rest (i + 1)).map fun stored => (e :: stored.1, stored.2)

def finalPlaces (newVin : PoolTxIn) : List PoolTxIn → Nat → List Place
  | [], _ => []
  | vin :: rest, n =>
    if signs newVin.txin vin.txin then .finalTransaction n :: finalPlaces newVin rest (n + 1)
    else finalPlaces newVin rest (n + 1)

def signFinal (newVin : PoolTxIn) (tx : FinalTransaction) : FinalTransaction :=
  { tx with vin := tx.vin.map fun vin =>
      if signs newVin.txin vin.txin then storeSig newVin vin else vin }

def alreadyExists (pool : CObfuscationPool) (scriptSig : CScript) : Bool :=
  (pooledInputs pool).any fun s => s.txin.scriptSig == scriptSig

/-- What `AddScriptSig` returns, the pool afterwards, and where it stored the scriptSig. -/
def addScriptSig (newVin : PoolTxIn) (pool : CObfuscationPool) :
    Bool × CObfuscationPool × List Place :=
  if alreadyExists pool newVin.txin.scriptSig then (false, pool, [])
  else if !signatureValid machinery pool newVin.txin.scriptSig newVin.txin then (false, pool, [])
  else
    let places := finalPlaces newVin pool.finalTransaction.vin 0
    let finalTransaction := signFinal newVin pool.finalTransaction
    match addToEntries newVin pool.entries 0 with
    | some (entries, place) => (true, ⟨entries, finalTransaction⟩, places ++ [place])
    | none => (false, ⟨pool.entries, finalTransaction⟩, places)

def poolAfter (newVin : PoolTxIn) (pool : CObfuscationPool) : CObfuscationPool :=
  (addScriptSig machinery newVin pool).2.1

def Verified (newVin : PoolTxIn) (pool : CObfuscationPool) : Prop :=
  ∃ n s, (pooledInputs pool)[n]? = some s ∧ signs newVin.txin s.txin = true ∧
    verifies machinery newVin.txin.scriptSig s.prevPubKey
      (pooledTransaction pool n newVin.txin.scriptSig) n = true

def StoresVerified (newVin : PoolTxIn) (pool : CObfuscationPool) : Prop :=
  ∀ place ∈ (addScriptSig machinery newVin pool).2.2, Verified machinery newVin pool

def awaits (newVin : PoolTxIn) (e : CObfuScationEntry) : Bool :=
  (e.sev.find? fun s => signs newVin.txin s.txin).any fun s => !s.fHasSig

def storable (newVin : PoolTxIn) (pool : CObfuscationPool) : Bool :=
  (pool.finalTransaction.vin.any fun vin => signs newVin.txin vin.txin) ||
    pool.entries.any (awaits newVin)

end Pool

section Unverified

variable {machinery : SignatureMachinery} {pool : CObfuscationPool} {newVin : PoolTxIn}

theorem findInput_new {inputs : List CTxDSIn}
    (fresh : ∀ s ∈ inputs, s.txin.scriptSig ≠ newVin.txin.scriptSig) (i : Nat)
    (found : Option (Nat × CScript)) : findInput newVin.txin inputs i found = found := by
  induction inputs generalizing i found with
  | nil => rfl
  | cons s rest ih =>
    have different : sameTxIn s.txin newVin.txin = false := by
      unfold sameTxIn
      simp [fresh s List.mem_cons_self]
    unfold findInput
    rw [different, if_neg Bool.false_ne_true]
    exact ih (fun other member => fresh other (List.mem_cons_of_mem _ member)) (i + 1) found

theorem signatureValid_new (fresh : alreadyExists pool newVin.txin.scriptSig = false) :
    signatureValid machinery pool newVin.txin.scriptSig newVin.txin = true := by
  have apart : ∀ s ∈ pooledInputs pool, s.txin.scriptSig ≠ newVin.txin.scriptSig := by
    unfold alreadyExists at fresh
    simpa using fresh
  unfold signatureValid
  rw [findInput_new apart]

theorem addSig_awaits (e : CObfuScationEntry) (j : Nat) :
    (addSig newVin e.sev j).isSome = awaits newVin e := by
  unfold awaits
  induction e.sev generalizing j with
  | nil => rfl
  | cons s rest ih =>
    unfold addSig
    rw [List.find?_cons]
    cases here : signs newVin.txin s.txin with
    | true =>
      cases signed : s.fHasSig with
      | true => simp [signed]
      | false => simp [signed]
    | false => simp [ih]

theorem addToEntries_awaits (entries : List CObfuScationEntry) (i : Nat) :
    (addToEntries newVin entries i).isSome = entries.any (awaits newVin) := by
  induction entries generalizing i with
  | nil => rfl
  | cons e rest ih =>
    have here := @addSig_awaits newVin e 0
    unfold addToEntries
    rw [List.any_cons, ← here]
    cases addSig newVin e.sev 0 with
    | some stored => rfl
    | none => simp [ih]

theorem finalPlaces_empty (vin : List PoolTxIn) (n : Nat) :
    finalPlaces newVin vin n = [] ↔ (vin.any fun txin => signs newVin.txin txin.txin) = false := by
  induction vin generalizing n with
  | nil => exact ⟨fun _ => rfl, fun _ => rfl⟩
  | cons txin rest ih =>
    unfold finalPlaces
    rw [List.any_cons]
    cases signs newVin.txin txin.txin with
    | true => simp
    | false => simp [ih]

theorem stores_iff : (addScriptSig machinery newVin pool).2.2 ≠ [] ↔
    alreadyExists pool newVin.txin.scriptSig = false ∧ storable newVin pool = true := by
  unfold addScriptSig
  cases fresh : alreadyExists pool newVin.txin.scriptSig with
  | true => simp
  | false =>
    rw [signatureValid_new fresh]
    have entries := @addToEntries_awaits newVin pool.entries 0
    have final := @finalPlaces_empty newVin pool.finalTransaction.vin 0
    unfold storable
    rw [← entries]
    cases addToEntries newVin pool.entries 0 with
    | some stored => simp
    | none =>
      simp only [Bool.false_eq_true, if_false, Bool.not_true, Option.isSome_none, Bool.or_false,
        true_and]
      rw [ne_eq, final, Bool.not_eq_false]

theorem storesVerified_iff : StoresVerified machinery newVin pool ↔
    alreadyExists pool newVin.txin.scriptSig = true ∨ storable newVin pool = false ∨
      Verified machinery newVin pool := by
  have stores := @stores_iff machinery pool newVin
  constructor
  · intro all
    by_cases stored : (addScriptSig machinery newVin pool).2.2 = []
    · by_cases fresh : alreadyExists pool newVin.txin.scriptSig = false
      · refine .inr (.inl ?_)
        apply Bool.eq_false_iff.mpr
        intro open'
        exact stores.mpr ⟨fresh, open'⟩ stored
      · exact .inl (by simpa using fresh)
    · obtain ⟨place, member⟩ := List.exists_mem_of_ne_nil _ stored
      exact .inr (.inr (all place member))
  · intro condition place member
    obtain ⟨fresh, open'⟩ := stores.mp (List.ne_nil_of_mem member)
    rcases condition with present | closed | verified
    · rw [fresh] at present
      cases present
    · rw [closed] at open'
      cases open'
    · exact verified

end Unverified

/-- Along a run of calls every stored scriptSig is verified if and only if each call brings
    one that the pool has, one that no input takes, or one that verifies. -/
theorem stored_signatures_verified_iff (machinery : SignatureMachinery)
    (calls : List PoolTxIn) (pool : CObfuscationPool) :
    AlongAll (poolAfter machinery) (StoresVerified machinery) calls pool ↔
      AlongAll (poolAfter machinery) (fun newVin pool =>
        alreadyExists pool newVin.txin.scriptSig = true ∨ storable newVin pool = false ∨
          Verified machinery newVin pool) calls pool :=
  alongAll_congr (fun _ _ => storesVerified_iff) calls pool

def plainMachinery : SignatureMachinery where
  signedHash _ := 0
  ecdsaVerify _ _ _ := true
  ripemd160 _ := List.Vector.replicate 20 0
  sha1 _ := List.Vector.replicate 20 0
  sha256 _ := List.Vector.replicate 32 0
  hash160 _ := List.Vector.replicate 20 0
  hash256 _ := List.Vector.replicate 32 0

def clientInput (scriptSig : CScript) : PoolTxIn := ⟨⟨⟨7, 0⟩, scriptSig, 0xffffffff⟩, []⟩

def signingPool : CObfuscationPool where
  entries := [⟨[{ toPoolTxIn := clientInput [], fHasSig := false }], []⟩]
  finalTransaction := ⟨1, [clientInput []], [], 0⟩

theorem false_script_unverified :
    verifies plainMachinery [0] [] (pooledTransaction signingPool 0 [0]) 0 = false := by
  decide +kernel

theorem unverified_signature_stored :
    ¬ AlongAll (poolAfter plainMachinery) (StoresVerified plainMachinery) [clientInput [0]]
        signingPool ∧
      addScriptSig plainMachinery (clientInput [0]) signingPool =
        (true, ⟨[⟨[{ toPoolTxIn := clientInput [0], fHasSig := true }], []⟩],
          ⟨1, [clientInput [0]], [], 0⟩⟩, [.finalTransaction 0, .entry 0 0]) := by
  have stored : addScriptSig plainMachinery (clientInput [0]) signingPool =
      (true, ⟨[⟨[{ toPoolTxIn := clientInput [0], fHasSig := true }], []⟩],
        ⟨1, [clientInput [0]], [], 0⟩⟩, [.finalTransaction 0, .entry 0 0]) := by decide
  refine ⟨?_, stored⟩
  rintro ⟨all, _⟩
  unfold StoresVerified at all
  rw [stored] at all
  obtain ⟨n, s, here, _, verified⟩ := all (.finalTransaction 0) List.mem_cons_self
  obtain ⟨first, only⟩ := List.getElem?_eq_some_iff.mp here
  have place : n = 0 := Nat.lt_one_iff.mp first
  subst place
  have input : s = { toPoolTxIn := clientInput [], fHasSig := false } := only.symm
  rw [input] at verified
  exact absurd (false_script_unverified.symm.trans verified) Bool.false_ne_true

end OxidObfuscation
