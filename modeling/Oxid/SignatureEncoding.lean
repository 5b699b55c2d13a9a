import Oxid.Library.Attempt
import Oxid.ScriptNum

/-!
Encodings of signatures and public keys that the flags of an evaluation ask for. A
byte outside the vector is `none` where the source would read it.
-/
namespace OxidSignatureEncoding
open OxidScriptNum

abbrev Element := List UInt8

def SIGHASH_ALL : UInt8 := 1
def SIGHASH_NONE : UInt8 := 2
def SIGHASH_SINGLE : UInt8 := 3
def SIGHASH_ANYONECANPAY : UInt8 := 0x80

def SCRIPT_VERIFY_P2SH : UInt32 := (1 : UInt32) <<< 0
def SCRIPT_VERIFY_STRICTENC : UInt32 := (1 : UInt32) <<< 1
def SCRIPT_VERIFY_DERSIG : UInt32 := (1 : UInt32) <<< 2
def SCRIPT_VERIFY_LOW_S : UInt32 := (1 : UInt32) <<< 3
def SCRIPT_VERIFY_NULLDUMMY : UInt32 := (1 : UInt32) <<< 4
def SCRIPT_VERIFY_SIGPUSHONLY : UInt32 := (1 : UInt32) <<< 5
def SCRIPT_VERIFY_MINIMALDATA : UInt32 := (1 : UInt32) <<< 6
def SCRIPT_VERIFY_DISCOURAGE_UPGRADABLE_NOPS : UInt32 := (1 : UInt32) <<< 7

def hasFlag (flags bits : UInt32) : Bool := flags &&& bits != 0

def passes (holds : Bool) (next : Option Bool) : Option Bool :=
  if holds then next else some false

def isCompressedOrUncompressedPubKey (vchPubKey : Element) : Option Bool :=
  passes (33 ≤ vchPubKey.length) <|
  vchPubKey[0]?.bind fun head =>
  if head == 0x04 then some (vchPubKey.length == 65)
  else if head == 0x02 || head == 0x03 then some (vchPubKey.length == 33)
  else some false

/-- The integer of this length at this place, under its tag, is positive and not
    padded. -/
def isDerInteger (sig : Element) (place len : Nat) : Option Bool :=
  sig[place - 2]?.bind fun tag =>
  passes (tag == 0x02) <|
  passes (len != 0) <|
  sig[place]?.bind fun head =>
  passes (!signBit head) <|
  if len > 1 && head == 0x00 then sig[place + 1]?.bind fun second => some (signBit second)
  else some true

def isValidSignatureEncoding (sig : Element) : Option Bool :=
  passes (9 ≤ sig.length) <|
  passes (sig.length ≤ 73) <|
  sig[0]?.bind fun compound =>
  passes (compound == 0x30) <|
  sig[1]?.bind fun total =>
  passes (total.toNat == sig.length - 3) <|
  sig[3]?.bind fun lenR =>
  passes (5 + lenR.toNat < sig.length) <|
  sig[5 + lenR.toNat]?.bind fun lenS =>
  passes (lenR.toNat + lenS.toNat + 7 == sig.length) <|
  (isDerInteger sig 4 lenR.toNat).bind fun validR =>
  passes validR <|
  isDerInteger sig (lenR.toNat + 6) lenS.toNat

def compareSameSize : List UInt8 → List UInt8 → Int
  | a :: c1, b :: c2 => if a > b then 1 else if b > a then -1 else compareSameSize c1 c2
  | _, _ => 0

def compareBigEndian (c1 c2 : List UInt8) : Int :=
  let more1 := c1.length - c2.length
  let more2 := c2.length - c1.length
  if (c1.take more1).any (· != 0) then 1
  else if (c2.take more2).any (· != 0) then -1
  else compareSameSize (c1.drop more1) (c2.drop more2)

def vchMaxModHalfOrder : List UInt8 :=
  [0x7F, 0xFF, 0xFF, 0xFF, 0xFF, 0xFF, 0xFF, 0xFF,
   0xFF, 0xFF, 0xFF, 0xFF, 0xFF, 0xFF, 0xFF, 0xFF,
   0x5D, 0x57, 0x6E, 0x73, 0x57, 0xA4, 0x50, 0x1D,
   0xDF, 0xE9, 0x2F, 0x46, 0x68, 0x1B, 0x20, 0xA0]

def checkSignatureElement (vch : List UInt8) : Bool :=
  compareBigEndian vch [] > 0 && compareBigEndian vch vchMaxModHalfOrder ≤ 0

def isDefinedHashtypeSignature (vchSig : Element) : Bool :=
  match vchSig.getLast? with
  | none => false
  | some last =>
    let nHashType := last &&& ~~~SIGHASH_ANYONECANPAY
    !(nHashType < SIGHASH_ALL || nHashType > SIGHASH_SINGLE)

def inRange {α : Type} : Option α → Except Stop α
  | some value => .ok value
  | none => .error (.fault .stackRange)

def ensure (holds : Bool) (serror : ScriptError) : Except Stop Unit :=
  Attempt.require holds (.error serror)

def isLowDERSignature (vchSig : Element) : Except Stop Unit := do
  let valid ← inRange (isValidSignatureEncoding vchSig)
  ensure valid .SIG_DER
  let nLenR ← inRange vchSig[3]?
  let nLenS ← inRange vchSig[5 + nLenR.toNat]?
  ensure (checkSignatureElement ((vchSig.drop (6 + nLenR.toNat)).take nLenS.toNat)) .SIG_HIGH_S

def checkEncodingIf (wanted : Bool) (outcome : Except Stop Unit) : Except Stop Unit :=
  if wanted then outcome else .ok ()

def checkSignatureEncoding (flags : UInt32) (vchSig : Element) : Except Stop Unit :=
  if vchSig.length = 0 then .ok ()
  else do
    checkEncodingIf
      (hasFlag flags (SCRIPT_VERIFY_DERSIG ||| SCRIPT_VERIFY_LOW_S ||| SCRIPT_VERIFY_STRICTENC))
      (do let valid ← inRange (isValidSignatureEncoding vchSig); ensure valid .SIG_DER)
    checkEncodingIf (hasFlag flags SCRIPT_VERIFY_LOW_S) (isLowDERSignature vchSig)
    checkEncodingIf (hasFlag flags SCRIPT_VERIFY_STRICTENC)
      (ensure (isDefinedHashtypeSignature vchSig) .SIG_HASHTYPE)

def checkPubKeyEncoding (flags : UInt32) (vchPubKey : Element) : Except Stop Unit :=
  checkEncodingIf (hasFlag flags SCRIPT_VERIFY_STRICTENC)
    (do let valid ← inRange (isCompressedOrUncompressedPubKey vchPubKey)
        ensure valid .PUBKEYTYPE)

variable {holds : Bool} {next : Option Bool} {value : Option α} {sig : Element} {α : Type}

theorem passes_defined (defined : holds = true → next.isSome = true) :
    (passes holds next).isSome = true := by
  unfold passes
  split
  · rename_i held
    exact defined held
  · rfl

theorem read_defined {place : Nat} {next : UInt8 → Option Bool} (inside : place < sig.length)
    (defined : ∀ byte, (next byte).isSome = true) :
    (sig[place]?.bind next).isSome = true := by
  rw [List.getElem?_eq_getElem inside]
  exact defined _

theorem isDerInteger_defined (sig : Element) (place len : Nat) (inside : place + len < sig.length) :
    (isDerInteger sig place len).isSome = true := by
  apply read_defined (by omega)
  intro tag
  apply passes_defined
  intro _
  apply passes_defined
  intro _
  apply read_defined (by omega)
  intro head
  apply passes_defined
  intro _
  split
  · rename_i long
    have more : len > 1 := by simp at long; exact long.1
    apply read_defined (by omega)
    intro second
    rfl
  · rfl

theorem isCompressedOrUncompressedPubKey_defined (vchPubKey : Element) :
    (isCompressedOrUncompressedPubKey vchPubKey).isSome = true := by
  apply passes_defined
  intro long
  have size : 33 ≤ vchPubKey.length := by simpa using long
  apply read_defined (by omega)
  intro head
  split_ifs <;> rfl

theorem isValidSignatureEncoding_defined (sig : Element) :
    (isValidSignatureEncoding sig).isSome = true := by
  apply passes_defined
  intro least
  have size : 9 ≤ sig.length := by simpa using least
  apply passes_defined
  intro _
  apply read_defined (by omega)
  intro compound
  apply passes_defined
  intro _
  apply read_defined (by omega)
  intro total
  apply passes_defined
  intro _
  apply read_defined (by omega)
  intro lenR
  apply passes_defined
  intro within
  have place : 5 + lenR.toNat < sig.length := by simpa using within
  apply read_defined place
  intro lenS
  apply passes_defined
  intro sum
  have whole : lenR.toNat + lenS.toNat + 7 = sig.length := by simpa using sum
  obtain ⟨validR, valid⟩ := Option.isSome_iff_exists.mp
    (isDerInteger_defined sig 4 lenR.toNat (by omega))
  rw [valid, Option.bind_some]
  apply passes_defined
  intro _
  exact isDerInteger_defined sig _ _ (by omega)

theorem passes_true :
    passes holds next = some true ↔ holds = true ∧ next = some true := by
  unfold passes
  cases holds <;> simp

theorem isValidSignatureEncoding_lengths (valid : isValidSignatureEncoding sig = some true) :
    ∃ lenR lenS, sig[3]? = some lenR ∧ sig[5 + lenR.toNat]? = some lenS := by
  unfold isValidSignatureEncoding at valid
  simp only [passes_true, Option.bind_eq_some_iff] at valid
  obtain ⟨_, _, _, _, _, _, _, _, lenR, first, _, lenS, second, _⟩ := valid
  exact ⟨lenR, lenS, first, second⟩

def Faultless {α : Type} (outcome : Except Stop α) : Prop :=
  ∀ stop, outcome = .error stop → stop.isFault = false

theorem faultless_ok (value : α) : Faultless (.ok value) := nofun

theorem faultless_ensure (holds : Bool) (serror : ScriptError) :
    Faultless (ensure holds serror) := by
  intro stop failed
  unfold ensure Attempt.require at failed
  cases holds with
  | true => simp at failed
  | false =>
    simp at failed
    rw [← failed]
    rfl

theorem faultless_bind {α β : Type} {first : Except Stop α} {next : α → Except Stop β}
    (head : Faultless first) (tail : ∀ value, first = .ok value → Faultless (next value)) :
    Faultless (first >>= next) := by
  intro stop failed
  cases done : first with
  | error other =>
    rw [done] at failed
    have same : other = stop := by simpa [bind, Except.bind] using failed
    rw [← same]
    exact head other done
  | ok value =>
    rw [done] at failed
    exact tail value done stop failed

theorem faultless_inRange (defined : value.isSome = true) :
    Faultless (inRange value) := by
  obtain ⟨inner, same⟩ := Option.isSome_iff_exists.mp defined
  rw [same]
  exact faultless_ok inner

theorem faultless_if {wanted : Bool} {outcome : Except Stop Unit} (faultless : Faultless outcome) :
    Faultless (checkEncodingIf wanted outcome) := by
  unfold checkEncodingIf
  split
  · exact faultless
  · exact faultless_ok ()

theorem inRange_ok {α : Type} {value : Option α} {inner : α} :
    inRange value = .ok inner ↔ value = some inner := by
  unfold inRange
  cases value <;> simp

theorem ensure_ok {serror : ScriptError} {result : Unit} :
    ensure holds serror = .ok result ↔ holds = true :=
  Attempt.require_ok holds (Stop.error serror) result

theorem isLowDERSignature_faultless (vchSig : Element) : Faultless (isLowDERSignature vchSig) := by
  apply faultless_bind (faultless_inRange (isValidSignatureEncoding_defined vchSig))
  intro valid defined
  apply faultless_bind (faultless_ensure _ _)
  intro _ passed
  rw [inRange_ok] at defined
  rw [ensure_ok] at passed
  rw [passed] at defined
  obtain ⟨lenR, lenS, first, second⟩ := isValidSignatureEncoding_lengths defined
  rw [first]
  apply faultless_bind (faultless_ok lenR)
  intro other same
  cases same
  rw [second]
  apply faultless_bind (faultless_ok lenS)
  intro other same
  exact faultless_ensure _ _

theorem checkSignatureEncoding_faultless (flags : UInt32) (vchSig : Element) :
    Faultless (checkSignatureEncoding flags vchSig) := by
  unfold checkSignatureEncoding
  split
  · exact faultless_ok ()
  · have valid := faultless_inRange (isValidSignatureEncoding_defined vchSig)
    apply faultless_bind (faultless_if (faultless_bind valid fun _ _ => faultless_ensure _ _))
    intro _ _
    apply faultless_bind (faultless_if (isLowDERSignature_faultless vchSig))
    intro _ _
    exact faultless_if (faultless_ensure _ _)

theorem checkPubKeyEncoding_faultless (flags : UInt32) (vchPubKey : Element) :
    Faultless (checkPubKeyEncoding flags vchPubKey) := by
  have defined := faultless_inRange (isCompressedOrUncompressedPubKey_defined vchPubKey)
  exact faultless_if (faultless_bind defined fun _ _ => faultless_ensure _ _)

end OxidSignatureEncoding
