import Oxid.Masternode
import Oxid.Standard

/-!
Signing a block and checking its signature. The signer looks a pay-to-pubkey-hash key up by
its hash, the check reads the hash as a public key; and the signer of a proof-of-work block
makes a key id out of a whole public key.
-/
namespace OxidBlockSignature
open OxidPrimitives OxidScript OxidStandard OxidMasternode

abbrev CKeyID := BitVec 160

def uint160 (vch : valtype) : Option CKeyID :=
  if vch.length = 20 then some (BitVec.ofNat 160 (fromLittleEndian vch)) else none

/-- `CPubKey` from a vector, invalid unless the header announces the size. -/
def pubKeyFromVector (vch : valtype) : CPubKey :=
  if sized : vch.length = getLen vch then ⟨vch, sized⟩ else .invalid

def isValid (pubkey : CPubKey) : Bool := !pubkey.bytes.isEmpty

/-- A private key by what it signs and the public key that goes with it. -/
structure CKey where
  fValid : Bool
  pubKey : CPubKey
  signature : Uint256 → List UInt8

def CKey.sign (key : CKey) (hash : Uint256) : Option (List UInt8) :=
  if key.fValid then some (key.signature hash) else none

structure CKeyStore where
  getKey : CKeyID → Option CKey

structure BlockKeys where
  blockHash : CBlockHeader → Uint256
  hash160 : List UInt8 → CKeyID
  ecdsaVerify : CPubKey → Uint256 → List UInt8 → Bool

namespace BlockKeys

variable (keys : BlockKeys)

def getID (pubkey : CPubKey) : CKeyID := keys.hash160 pubkey.bytes

def getHash (block : CBlock) : Uint256 := keys.blockHash block.toCBlockHeader

def verify (pubkey : CPubKey) (hash : Uint256) (vchSig : List UInt8) : Bool :=
  isValid pubkey && keys.ecdsaVerify pubkey hash vchSig

end BlockKeys

/-- How `SignBlock` ends: with a signed block, with false, or in any other way. -/
inductive Signing where
  | signed (block : CBlock)
  | refused
  | failed
deriving DecidableEq

section Signer

variable (keys : BlockKeys) (keystore : CKeyStore)

def signWith (block : CBlock) (keyID : Option CKeyID) : Signing :=
  match keyID with
  | none => .failed
  | some keyID =>
    match keystore.getKey keyID with
    | none => .refused
    | some key =>
      match key.sign (keys.getHash block) with
      | none => .refused
      | some vchBlockSig => .signed { block with vchBlockSig := vchBlockSig }

def firstOf (vSolutions : List valtype) : valtype := vSolutions.head?.getD []

def signOutputs (block : CBlock) : List CTxOut → Signing
  | [] => .refused
  | txout :: rest =>
    match solver txout.scriptPubKey with
    | .outOfRange => .failed
    | .unsolved => signOutputs block rest
    | .solved whichType vSolutions =>
      if whichType = .TX_PUBKEY then
        signWith keys keystore block (uint160 (firstOf vSolutions))
      else signOutputs block rest

def signStake (block : CBlock) (txout : CTxOut) : Signing :=
  match solver txout.scriptPubKey with
  | .outOfRange => .failed
  | .unsolved => .refused
  | .solved whichType vSolutions =>
    if whichType = .TX_PUBKEYHASH then
      signWith keys keystore block (uint160 (firstOf vSolutions))
    else if whichType = .TX_PUBKEY then
      signWith keys keystore block (some (keys.getID (pubKeyFromVector (firstOf vSolutions))))
    else .refused

def stakeOutput (block : CBlock) : Option CTxOut := block.vtx[1]?.bind fun tx => tx.vout[1]?

def signBlock (block : CBlock) : Signing :=
  if !block.isProofOfStake then
    match block.vtx[0]? with
    | none => .failed
    | some tx => signOutputs keys keystore block tx.vout
  else
    match stakeOutput block with
    | none => .failed
    | some txout => signStake keys keystore block txout

end Signer

section Verifier

variable (keys : BlockKeys)

/-- Both kinds of output are read as one with a public key in it. -/
def checkWith (block : CBlock) (vchPubKey : valtype) : Bool :=
  let pubkey := pubKeyFromVector vchPubKey
  isValid pubkey && !block.vchBlockSig.isEmpty &&
    keys.verify pubkey (keys.getHash block) block.vchBlockSig

def checkStake (block : CBlock) (txout : CTxOut) : Option Bool :=
  match solver txout.scriptPubKey with
  | .outOfRange => none
  | .unsolved => some false
  | .solved whichType vSolutions =>
    if whichType = .TX_PUBKEY then some (checkWith keys block (firstOf vSolutions))
    else if whichType = .TX_PUBKEYHASH then
      (uint160 (firstOf vSolutions)).map fun _ => checkWith keys block (firstOf vSolutions)
    else some false

def checkBlockSignature (block : CBlock) : Option Bool :=
  if block.isProofOfWork then some block.vchBlockSig.isEmpty
  else (stakeOutput block).bind (checkStake keys block)

end Verifier

/-- A keystore files a valid key under the id of its public key, and signatures verify
    under it. -/
structure Sound (keys : BlockKeys) (keystore : CKeyStore) : Prop where
  filed : ∀ keyID key, keystore.getKey keyID = some key → key.fValid = true →
    isValid key.pubKey = true ∧ keys.getID key.pubKey = keyID
  verifies : ∀ keyID key, keystore.getKey keyID = some key → key.fValid = true →
    ∀ hash, key.signature hash ≠ [] ∧
      keys.ecdsaVerify key.pubKey hash (key.signature hash) = true

/-- No valid key of the keystore shares its id with another public key that the stake
    output pays to. -/
def Apart (keys : BlockKeys) (keystore : CKeyStore) (block : CBlock) : Prop :=
  ∀ txout vchPubKey, stakeOutput block = some txout →
    solver txout.scriptPubKey = .solved .TX_PUBKEY [vchPubKey] →
    ∀ keyID key, keystore.getKey keyID = some key → key.fValid = true →
      keys.getID key.pubKey = keys.getID (pubKeyFromVector vchPubKey) →
        key.pubKey = pubKeyFromVector vchPubKey

def Signing.accepted (keys : BlockKeys) : Signing → Bool
  | .signed block => checkBlockSignature keys block == some true
  | .refused => true
  | .failed => false

/-- The signer fails only by returning false, and what it signs passes the check. -/
def SignerVerifierAgree (keys : BlockKeys) (keystore : CKeyStore) (block : CBlock) : Prop :=
  (signBlock keys keystore block).accepted keys = true

instance (keys : BlockKeys) (keystore : CKeyStore) (block : CBlock) :
    Decidable (SignerVerifierAgree keys keystore block) :=
  inferInstanceAs (Decidable (_ = true))

/-- A proof-of-work block has a first transaction, none of whose outputs is a one-byte
    mint or pays to a public key; the stake output of a proof-of-stake block is no such
    mint, and does not pay to the hash of a key that the keystore can sign with. -/
def Signable (keystore : CKeyStore) (block : CBlock) : Prop :=
  if block.isProofOfStake then
    ∀ txout, stakeOutput block = some txout →
      solver txout.scriptPubKey ≠ .outOfRange ∧
      ∀ hash keyID key, solver txout.scriptPubKey = .solved .TX_PUBKEYHASH [hash] →
        uint160 hash = some keyID → keystore.getKey keyID = some key → key.fValid = false
  else
    ∃ tx, block.vtx[0]? = some tx ∧ ∀ txout ∈ tx.vout,
      solver txout.scriptPubKey ≠ .outOfRange ∧
      ∀ vSolutions, solver txout.scriptPubKey ≠ .solved .TX_PUBKEY vSolutions

section Agreement

variable {keys : BlockKeys} {keystore : CKeyStore} {block : CBlock}

theorem stakeOutput_isSome (staked : block.isProofOfStake = true) :
    (stakeOutput block).isSome = true := by
  unfold CBlock.isProofOfStake at staked
  split at staked
  · rename_i first second rest shape
    unfold CTransaction.isCoinStake at staked
    split at staked
    · rename_i outputs
      simp [stakeOutput, shape, outputs]
    · cases staked
  · cases staked

theorem signOutputs_cases (vout : List CTxOut) :
    (signOutputs keys keystore block vout = .refused ↔ ∀ txout ∈ vout,
        solver txout.scriptPubKey ≠ .outOfRange ∧
        ∀ vSolutions, solver txout.scriptPubKey ≠ .solved .TX_PUBKEY vSolutions) ∧
      (signOutputs keys keystore block vout = .refused ∨
        signOutputs keys keystore block vout = .failed) := by
  induction vout with
  | nil => simp [signOutputs]
  | cons txout rest ih =>
    unfold signOutputs
    cases solving : solver txout.scriptPubKey with
    | outOfRange => simp [solving]
    | unsolved => simpa [solving] using ih
    | solved whichType vSolutions =>
      dsimp only
      split
      · rename_i kind
        rw [kind] at solving
        obtain ⟨vchPubKey, only, long, _⟩ := solver_pubKey solving
        have oversized : uint160 (firstOf vSolutions) = none := by
          rw [only]
          unfold uint160 firstOf
          rw [if_neg]
          simp only [List.head?_cons, Option.getD_some]
          omega
        rw [oversized]
        simp [signWith, solving]
      · rename_i other
        simpa [solving, other] using ih

variable {keyID : CKeyID} {txout : CTxOut} {vchPubKey : valtype} {hash : valtype}

theorem signWith_held {key : CKey} (held : keystore.getKey keyID = some key) :
    signWith keys keystore block (some keyID) =
      if key.fValid then
        .signed { block with vchBlockSig := key.signature (keys.getHash block) }
      else .refused := by
  unfold signWith CKey.sign
  dsimp only
  rw [held]
  dsimp only
  cases key.fValid <;> rfl

theorem signWith_missing (missing : keystore.getKey keyID = none) :
    signWith keys keystore block (some keyID) = .refused := by
  unfold signWith
  dsimp only
  rw [missing]

theorem hash_invalid (length : hash.length = 20) :
    isValid (pubKeyFromVector hash) = false := by
  have unsized : hash.length ≠ getLen hash := by
    rw [length]
    unfold getLen
    split
    · decide
    · split
      · decide
      · split <;> decide
  unfold pubKeyFromVector
  rw [dif_neg unsized]
  rfl

theorem checkWith_signed (sound : Sound keys keystore) {key : CKey}
    (held : keystore.getKey keyID = some key) (valid : key.fValid = true)
    (same : key.pubKey = pubKeyFromVector vchPubKey) :
    checkWith keys { block with vchBlockSig := key.signature (keys.getHash block) } vchPubKey =
      true := by
  obtain ⟨present, verified⟩ := sound.verifies keyID key held valid (keys.getHash block)
  have usable := (sound.filed keyID key held valid).1
  rw [same] at usable verified
  simp [checkWith, BlockKeys.verify, BlockKeys.getHash, usable] at present verified ⊢
  exact ⟨present, verified⟩

theorem checkBlockSignature_stake (staked : block.isProofOfStake = true)
    (output : stakeOutput block = some txout) (vchBlockSig : List UInt8) :
    checkBlockSignature keys { block with vchBlockSig := vchBlockSig } =
      checkStake keys { block with vchBlockSig := vchBlockSig } txout := by
  unfold checkBlockSignature
  rw [if_neg]
  · rw [show stakeOutput { block with vchBlockSig := vchBlockSig } = some txout from output]
    rfl
  · have kind : CBlock.isProofOfStake { block with vchBlockSig := vchBlockSig } = true := staked
    simp [CBlock.isProofOfWork, kind]

theorem signWith_hash (staked : block.isProofOfStake = true)
    (output : stakeOutput block = some txout)
    (solving : solver txout.scriptPubKey = .solved .TX_PUBKEYHASH [hash])
    (length : hash.length = 20) (known : uint160 hash = some keyID) :
    (signWith keys keystore block (some keyID)).accepted keys = true ↔
      ∀ key, keystore.getKey keyID = some key → key.fValid = false := by
  cases held : keystore.getKey keyID with
  | none =>
    rw [signWith_missing held]
    simp [Signing.accepted]
  | some key =>
    rw [signWith_held held]
    cases valid : key.fValid with
    | false => simp [Signing.accepted, valid]
    | true =>
      have rejected : checkStake keys
          { block with vchBlockSig := key.signature (keys.getHash block) } txout =
            some false := by
        simp [checkStake, solving, firstOf, known, checkWith, hash_invalid length]
      simp only [if_true, Signing.accepted, checkBlockSignature_stake staked output, rejected]
      simp [valid]

section
variable (sound : Sound keys keystore) (apart : Apart keys keystore block)
  (staked : block.isProofOfStake = true) (output : stakeOutput block = some txout)
include sound apart staked output

theorem signWith_key (solving : solver txout.scriptPubKey = .solved .TX_PUBKEY [vchPubKey]) :
    (signWith keys keystore block
      (some (keys.getID (pubKeyFromVector vchPubKey)))).accepted keys = true := by
  cases held : keystore.getKey (keys.getID (pubKeyFromVector vchPubKey)) with
  | none =>
    rw [signWith_missing held]
    rfl
  | some key =>
    rw [signWith_held held]
    cases valid : key.fValid with
    | false => rfl
    | true =>
      have same := apart txout vchPubKey output solving _ key held valid
        (sound.filed _ key held valid).2
      have accepted : checkStake keys
          { block with vchBlockSig := key.signature (keys.getHash block) } txout =
            some true := by
        simp [checkStake, solving, firstOf, checkWith_signed sound held valid same]
      simp [Signing.accepted, checkBlockSignature_stake staked output, accepted]

theorem signStake_agrees :
    (signStake keys keystore block txout).accepted keys = true ↔
      solver txout.scriptPubKey ≠ .outOfRange ∧
      ∀ hash keyID key, solver txout.scriptPubKey = .solved .TX_PUBKEYHASH [hash] →
        uint160 hash = some keyID → keystore.getKey keyID = some key → key.fValid = false := by
  unfold signStake
  cases solving : solver txout.scriptPubKey with
  | outOfRange => simp [Signing.accepted]
  | unsolved => simp [Signing.accepted]
  | solved whichType vSolutions =>
    dsimp only
    by_cases hashed : whichType = .TX_PUBKEYHASH
    · rw [hashed] at solving
      obtain ⟨hash, only, length⟩ := solver_pubKeyHash solving
      rw [only] at solving
      have known : uint160 hash = some (BitVec.ofNat 160 (fromLittleEndian hash)) := by
        rw [uint160, if_pos length]
      rw [hashed, only, if_pos rfl]
      simp only [firstOf, List.head?_cons, Option.getD_some, known]
      rw [signWith_hash staked output solving length known]
      constructor
      · intro all
        refine ⟨by simp, ?_⟩
        intro other keyID key same converted held
        cases same
        rw [known] at converted
        cases converted
        exact all key held
      · exact fun all key held => all.2 hash _ key rfl known held
    · rw [if_neg hashed]
      have others : ∀ hash, Solving.solved whichType vSolutions ≠
          .solved .TX_PUBKEYHASH [hash] := by
        intro hash same
        cases same
        exact hashed rfl
      by_cases keyed : whichType = .TX_PUBKEY
      · rw [keyed] at solving
        obtain ⟨vchPubKey, only, _⟩ := solver_pubKey solving
        rw [only] at solving
        rw [if_pos keyed, only]
        simp [firstOf, signWith_key sound apart staked output solving, keyed]
      · rw [if_neg keyed]
        simp [others, Signing.accepted]

end

end Agreement

/-- The signer fails only by returning false, and signs only what the check accepts, exactly when
    the block is signable. -/
theorem signer_verifier_agree_iff (keys : BlockKeys) (keystore : CKeyStore) (block : CBlock)
    (sound : Sound keys keystore) (apart : Apart keys keystore block) :
    SignerVerifierAgree keys keystore block ↔ Signable keystore block := by
  unfold Signable SignerVerifierAgree signBlock
  cases staked : block.isProofOfStake with
  | true =>
    obtain ⟨txout, output⟩ := Option.isSome_iff_exists.mp (stakeOutput_isSome staked)
    rw [Bool.not_true, if_neg Bool.false_ne_true, if_pos rfl, output]
    rw [signStake_agrees sound apart staked output]
    constructor
    · intro agrees other found
      cases found
      exact agrees
    · exact fun signable => signable txout rfl
  | false =>
    cases first : block.vtx[0]? with
    | none => simp [Signing.accepted]
    | some tx =>
      obtain ⟨refuses, outcome⟩ := @signOutputs_cases keys keystore block tx.vout
      dsimp only
      constructor
      · intro agrees
        refine ⟨tx, rfl, refuses.mp ?_⟩
        rcases outcome with refused | failed
        · exact refused
        · rw [failed] at agrees
          cases agrees
      · intro ⟨other, found, signable⟩
        cases found
        rw [refuses.mpr signable]
        rfl

def sampleKey : CPubKey := ⟨2 :: List.replicate 32 7, rfl⟩

def sampleKeys : BlockKeys where
  blockHash header := BitVec.ofNat 256 header.nNonce.toNat
  hash160 bytes := BitVec.ofNat 160 (fromLittleEndian (bytes.take 20))
  ecdsaVerify pubkey _ vchSig := decide (pubkey = sampleKey) && decide (vchSig = [9])

def sampleKeyID : CKeyID := sampleKeys.getID sampleKey

def sampleKeystore : CKeyStore where
  getKey keyID := if keyID = sampleKeyID then some ⟨true, sampleKey, fun _ => [9]⟩ else none

def payToPubKey : CScript := 33 :: (sampleKey.bytes ++ [OP_CHECKSIG])

def payToPubKeyHash : CScript :=
  [OP_DUP, OP_HASH160, 20] ++ sampleKey.bytes.take 20 ++ [OP_EQUALVERIFY, OP_CHECKSIG]

def sampleCoinBase (scriptPubKey : CScript) : CTransaction :=
  ⟨1, [⟨COutPoint.null, [1, 1], 0⟩], [⟨COIN, scriptPubKey, -10⟩], 0⟩

def workBlock (scriptPubKey : CScript) : CBlock :=
  ⟨⟨3, 0, 0, 0, 0, 7, 0⟩, [sampleCoinBase scriptPubKey], []⟩

def stakeBlock (scriptPubKey : CScript) : CBlock :=
  ⟨⟨3, 0, 0, 0, 0, 7, 0⟩, [sampleCoinBase [],
    ⟨1, [⟨⟨1, 0⟩, [], 0⟩], [⟨0, [], -10⟩, ⟨COIN, scriptPubKey, -10⟩], 0⟩], []⟩

theorem sampleKeystore_sound : Sound sampleKeys sampleKeystore := by
  have only : ∀ keyID key, sampleKeystore.getKey keyID = some key →
      keyID = sampleKeyID ∧ key = ⟨true, sampleKey, fun _ => [9]⟩ := by
    intro keyID key held
    unfold sampleKeystore at held
    dsimp only at held
    split at held
    · rename_i same
      exact ⟨same, (Option.some.inj held).symm⟩
    · cases held
  constructor
  · intro keyID key held _
    obtain ⟨same, is⟩ := only keyID key held
    rw [same, is]
    exact ⟨rfl, rfl⟩
  · intro keyID key held _ hash
    obtain ⟨_, is⟩ := only keyID key held
    rw [is]
    exact ⟨by simp, by simp [sampleKeys]⟩

/-- A signed proof-of-stake block that pays to the hash of the staker's key does not pass, and a
    proof-of-work block that pays to the key cannot be signed. -/
theorem signed_block_rejected :
    Sound sampleKeys sampleKeystore ∧
      (checkBlockSignature sampleKeys { stakeBlock payToPubKeyHash with vchBlockSig := [9] } =
          some false ∧
        signBlock sampleKeys sampleKeystore (stakeBlock payToPubKeyHash) =
          .signed { stakeBlock payToPubKeyHash with vchBlockSig := [9] } ∧
        ¬ SignerVerifierAgree sampleKeys sampleKeystore (stakeBlock payToPubKeyHash)) ∧
      signBlock sampleKeys sampleKeystore (workBlock payToPubKey) = .failed ∧
        ¬ SignerVerifierAgree sampleKeys sampleKeystore (workBlock payToPubKey) :=
  ⟨sampleKeystore_sound, ⟨by decide, by decide, by decide⟩, by decide, by decide⟩

theorem stakeBlock_apart : Apart sampleKeys sampleKeystore (stakeBlock payToPubKey) := by
  intro txout vchPubKey output solved keyID key held _ _
  have only : txout = ⟨COIN, payToPubKey, -10⟩ := (Option.some.inj output).symm
  have found : solver payToPubKey = .solved .TX_PUBKEY [sampleKey.bytes] := by decide
  rw [only, found] at solved
  cases solved
  unfold sampleKeystore at held
  dsimp only at held
  split at held
  · cases held
    rfl
  · cases held

theorem pubKey_stake_agrees :
    SignerVerifierAgree sampleKeys sampleKeystore (stakeBlock payToPubKey) := by
  apply (signer_verifier_agree_iff sampleKeys sampleKeystore (stakeBlock payToPubKey)
    sampleKeystore_sound stakeBlock_apart).mpr
  have staked : (stakeBlock payToPubKey).isProofOfStake = true := by decide
  have found : solver payToPubKey = .solved .TX_PUBKEY [sampleKey.bytes] := by decide
  unfold Signable
  intro txout output
  have only : txout = ⟨COIN, payToPubKey, -10⟩ := (Option.some.inj output).symm
  rw [only, found]
  exact ⟨by simp, by simp⟩

end OxidBlockSignature
