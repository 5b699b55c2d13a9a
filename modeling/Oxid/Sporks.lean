import Oxid.Library.NewestWins
import Oxid.Library.Runs
import Oxid.MasternodePayments

/-!
Sporks: values the holder of the spork key sets on every node. What is signed is three
decimal numbers one after the other, and a spork is replaced by strictly later ones only.
-/
namespace OxidSporks
open OxidPrimitives OrderedMaps NewestWins Runs

def SPORK_2_INSTANTTX : Int32 := 10001
def SPORK_3_INSTANTTX_BLOCK_FILTERING : Int32 := 10002
def SPORK_4_MAX_VALUE : Int32 := 10003
def SPORK_5_MASTERNODE_SCANNING : Int32 := 10004
def SPORK_6_MASTERNODE_PAYMENT_ENFORCEMENT : Int32 := 10005
def SPORK_7_MASTERNODE_PAY_UPDATED_NODES : Int32 := 10006
def SPORK_8_NEW_PROTOCOL_ENFORCEMENT : Int32 := 10007
def SPORK_9_NEW_PROTOCOL_ENFORCEMENT_2 : Int32 := 10008

def sporkKnown (id : Int32) : Bool :=
  id == SPORK_2_INSTANTTX || id == SPORK_3_INSTANTTX_BLOCK_FILTERING ||
    id == SPORK_4_MAX_VALUE || id == SPORK_5_MASTERNODE_SCANNING ||
    id == SPORK_6_MASTERNODE_PAYMENT_ENFORCEMENT || id == SPORK_7_MASTERNODE_PAY_UPDATED_NODES ||
    id == SPORK_8_NEW_PROTOCOL_ENFORCEMENT || id == SPORK_9_NEW_PROTOCOL_ENFORCEMENT_2

structure SporkTriple where
  nSporkID : Int32
  nValue : Int64
  nTimeSigned : Int64
deriving DecidableEq

structure CSporkMessage extends SporkTriple where
  vchSig : List UInt8
deriving DecidableEq

/-- A number as `lexical_cast` writes it. -/
def decimal : Int → List Char
  | .ofNat digits => Nat.toDigits 10 digits
  | .negSucc less => '-' :: Nat.toDigits 10 (less + 1)

def strMessage (triple : SporkTriple) : List Char :=
  decimal triple.nSporkID.toInt ++ decimal triple.nValue.toInt ++ decimal triple.nTimeSigned.toInt

/-- Signatures by and against the spork key, and how a spork is hashed. -/
structure SporkRules where
  signMessage : List Char → Option (List UInt8)
  verifyMessage : List UInt8 → List Char → Bool
  getHash : SporkTriple → Uint256

structure SporkState where
  mapSporks : OrderedMap Uint256 CSporkMessage
  mapSporksActive : OrderedMap Int32 CSporkMessage

def SporkState.init : SporkState := ⟨∅, ∅⟩

/-- What a message finds: a node in lite mode, or without a tip, reads no spork. -/
structure SporkCall where
  fLiteMode : Bool
  hasTip : Bool

def checkSignature (rules : SporkRules) (spork : CSporkMessage) : Bool :=
  rules.verifyMessage spork.vchSig (strMessage spork.toSporkTriple)

def sign (rules : SporkRules) (triple : SporkTriple) : Option CSporkMessage :=
  match rules.signMessage (strMessage triple) with
  | none => none
  | some vchSig =>
    if rules.verifyMessage vchSig (strMessage triple) then some ⟨triple, vchSig⟩ else none

def keepSpork (rules : SporkRules) (spork : CSporkMessage) (state : SporkState) : SporkState where
  mapSporks := state.mapSporks.set (rules.getHash spork.toSporkTriple) spork
  mapSporksActive := state.mapSporksActive.set spork.nSporkID spork

def updateSpork (rules : SporkRules) (nSporkID : Int32) (nValue time : Int64)
    (state : SporkState) : Bool × SporkState :=
  match sign rules ⟨nSporkID, nValue, time⟩ with
  | none => (false, state)
  | some msg => (true, keepSpork rules msg state)

inductive SporkOutcome where
  | ignored
  | unknown
  | seen
  | invalidSignature
  | accepted
deriving DecidableEq

def sporkSeen (standing : Option CSporkMessage) (spork : CSporkMessage) : Bool :=
  standing.any fun standing => decide (standing.nTimeSigned ≥ spork.nTimeSigned)

def processSpork (rules : SporkRules) (call : SporkCall) (spork : CSporkMessage)
    (state : SporkState) : SporkOutcome × SporkState :=
  if call.fLiteMode then (.ignored, state)
  else if !call.hasTip then (.ignored, state)
  else if !sporkKnown spork.nSporkID then (.unknown, state)
  else if sporkSeen (state.mapSporksActive.find? spork.nSporkID) spork then (.seen, state)
  else if !checkSignature rules spork then (.invalidSignature, state)
  else (.accepted, keepSpork rules spork state)

abbrev SporkInput := SporkCall × CSporkMessage

def hears (rules : SporkRules) (input : SporkInput) (state : SporkState) : SporkState :=
  (processSpork rules input.1 input.2 state).2

def sporksAfter (rules : SporkRules) (inputs : List SporkInput) : SporkState :=
  runAll (hears rules) inputs SporkState.init

def received (inputs : List SporkInput) : List CSporkMessage :=
  (inputs.filter fun input => !input.1.fLiteMode && input.1.hasTip).map Prod.snd

def validFor (rules : SporkRules) (nSporkID : Int32) (spork : CSporkMessage) : Bool :=
  sporkKnown spork.nSporkID && checkSignature rules spork && spork.nSporkID == nSporkID

def signedAt (spork : CSporkMessage) : Int := spork.nTimeSigned.toInt

section Receiving

variable {rules : SporkRules}

theorem keepSpork_active (spork : CSporkMessage) (state : SporkState) (nSporkID : Int32) :
    (keepSpork rules spork state).mapSporksActive.find? nSporkID =
      if spork.nSporkID = nSporkID then some spork
      else state.mapSporksActive.find? nSporkID := by
  unfold keepSpork
  split_ifs with here
  · rw [here]
    exact OrderedMap.find?_set_same _ _ _
  · exact OrderedMap.find?_set_other _ _ fun same => here same.symm

theorem offer_seen (standing : Option CSporkMessage) (spork : CSporkMessage) :
    offer signedAt standing spork =
      if sporkSeen standing spork = true then standing else some spork := by
  cases standing with
  | none => rfl
  | some old =>
    have order : old.nTimeSigned ≥ spork.nTimeSigned ↔ signedAt spork ≤ signedAt old :=
      Int64.le_iff_toInt_le
    have seen : sporkSeen (some old) spork = true ↔ signedAt spork ≤ signedAt old := by
      rw [← order]
      unfold sporkSeen
      simp
    unfold offer
    dsimp only
    by_cases older : signedAt spork ≤ signedAt old
    · rw [if_pos older, if_pos (seen.mpr older)]
    · rw [if_neg older, if_neg fun same => older (seen.mp same)]

theorem processSpork_ready (spork : CSporkMessage) (state : SporkState) :
    (processSpork rules ⟨false, true⟩ spork state).2 =
      if validFor rules spork.nSporkID spork = true ∧
          sporkSeen (state.mapSporksActive.find? spork.nSporkID) spork = false
      then keepSpork rules spork state else state := by
  unfold processSpork validFor
  cases sporkKnown spork.nSporkID with
  | false => simp
  | true =>
    cases sporkSeen (state.mapSporksActive.find? spork.nSporkID) spork with
    | true => simp
    | false =>
      cases checkSignature rules spork with
      | false => simp
      | true => simp

theorem hears_active (input : SporkInput) (state : SporkState) (nSporkID : Int32) :
    (hears rules input state).mapSporksActive.find? nSporkID =
      if (!input.1.fLiteMode && input.1.hasTip && validFor rules nSporkID input.2) = true then
        offer signedAt (state.mapSporksActive.find? nSporkID) input.2
      else state.mapSporksActive.find? nSporkID := by
  obtain ⟨⟨fLiteMode, hasTip⟩, spork⟩ := input
  unfold hears
  cases fLiteMode with
  | true => rfl
  | false =>
    cases hasTip with
    | false => rfl
    | true =>
      rw [processSpork_ready, offer_seen]
      simp only [Bool.not_false, Bool.true_and]
      by_cases here : spork.nSporkID = nSporkID
      · subst here
        by_cases valid : validFor rules spork.nSporkID spork = true
        · rw [if_pos valid]
          cases sporkSeen (state.mapSporksActive.find? spork.nSporkID) spork with
          | true => rw [if_neg (by simp), if_pos rfl]
          | false => rw [if_pos ⟨valid, rfl⟩, if_neg (by simp), keepSpork_active, if_pos rfl]
        · rw [if_neg fun both => valid both.1, if_neg valid]
      · have away : ¬ validFor rules nSporkID spork = true := by
          unfold validFor
          simp [here]
        split_ifs
        · rw [keepSpork_active, if_neg here]
        · rfl

theorem sporksAfter_active (inputs : List SporkInput) (nSporkID : Int32) :
    (sporksAfter rules inputs).mapSporksActive.find? nSporkID =
      newest signedAt ((received inputs).filter (validFor rules nSporkID)) := by
  have general : ∀ state, (runAll (hears rules) inputs state).mapSporksActive.find? nSporkID =
      ((received inputs).filter (validFor rules nSporkID)).foldl (offer signedAt)
        (state.mapSporksActive.find? nSporkID) := by
    unfold received
    induction inputs with
    | nil => exact fun state => rfl
    | cons input rest ih =>
      intro state
      rw [runAll, ih, hears_active, List.filter_cons]
      cases ready : !input.1.fLiteMode && input.1.hasTip with
      | false => rfl
      | true =>
        rw [if_pos rfl, List.map_cons, List.filter_cons, Bool.true_and]
        split_ifs
        · rw [List.foldl_cons]
        · rfl
  exact general SporkState.init

end Receiving

def Signed (rules : SporkRules) (requests : List SporkTriple) (triple : SporkTriple) : Prop :=
  triple ∈ requests ∧ (sign rules triple).isSome = true

/-- No received message carries a signature over a text that the holder never signed. -/
def Unforged (rules : SporkRules) (requests : List SporkTriple) (messages : List CSporkMessage) :
    Prop :=
  ∀ spork ∈ messages, checkSignature rules spork = true →
    ∃ triple, Signed rules requests triple ∧ strMessage triple = strMessage spork.toSporkTriple

/-- Every entry stands under its identifier, was signed as exactly its triple, and is the
    latest of the validly signed sporks received for the identifier. -/
def Authentic (rules : SporkRules) (requests : List SporkTriple) (inputs : List SporkInput) :
    Prop :=
  ∀ nSporkID entry, (sporksAfter rules inputs).mapSporksActive.find? nSporkID = some entry →
    entry.nSporkID = nSporkID ∧ entry ∈ received inputs ∧
      Signed rules requests entry.toSporkTriple ∧
        ∀ spork ∈ received inputs, checkSignature rules spork = true →
          spork.nSporkID = nSporkID → spork.nTimeSigned ≤ entry.nTimeSigned

def activeTriple (rules : SporkRules) (inputs : List SporkInput) (nSporkID : Int32) :
    Option SporkTriple :=
  ((sporksAfter rules inputs).mapSporksActive.find? nSporkID).map CSporkMessage.toSporkTriple

def Converged (rules : SporkRules) (left right : List SporkInput) : Prop :=
  ∀ nSporkID, activeTriple rules left nSporkID = activeTriple rules right nSporkID

def SameMessages (left right : List SporkInput) : Prop :=
  ∀ spork, spork ∈ received left ↔ spork ∈ received right

/-- A valid message with the text of a signed triple is for a signed triple itself. -/
def NotSplit (rules : SporkRules) (requests : List SporkTriple) (messages : List CSporkMessage) :
    Prop :=
  ∀ spork ∈ messages, validFor rules spork.nSporkID spork = true →
    ∀ triple, Signed rules requests triple →
      strMessage triple = strMessage spork.toSporkTriple →
        Signed rules requests spork.toSporkTriple

def OneLatest (rules : SporkRules) (messages : List CSporkMessage) : Prop :=
  ∀ nSporkID, ∀ left ∈ messages, ∀ right ∈ messages, validFor rules nSporkID left = true →
    validFor rules nSporkID right = true → left.nTimeSigned = right.nTimeSigned →
      (∀ other ∈ messages, validFor rules nSporkID other = true →
        other.nTimeSigned ≤ left.nTimeSigned) → left.nValue = right.nValue

section Settling

variable {rules : SporkRules} {requests : List SporkTriple} {inputs others : List SporkInput}
variable {nSporkID : Int32}

variable {spork : CSporkMessage}

theorem validFor_id (valid : validFor rules nSporkID spork = true) :
    spork.nSporkID = nSporkID ∧ checkSignature rules spork = true ∧
      sporkKnown spork.nSporkID = true := by
  unfold validFor at valid
  simp only [Bool.and_eq_true, beq_iff_eq] at valid
  exact ⟨valid.2, valid.1.2, valid.1.1⟩

theorem validFor_same (valid : validFor rules nSporkID spork = true) :
    validFor rules spork.nSporkID spork = true := by
  rw [(validFor_id valid).1]
  exact valid

theorem authentic_of (unforged : Unforged rules requests (received inputs))
    (notSplit : NotSplit rules requests (received inputs))
    (part : ∀ spork ∈ received others, spork ∈ received inputs) :
    Authentic rules requests others := by
  intro nSporkID entry found
  rw [sporksAfter_active] at found
  obtain ⟨member, valid⟩ := List.mem_filter.mp (newest_mem found)
  obtain ⟨id, signature, known⟩ := validFor_id valid
  constructor
  · exact id
  · constructor
    · exact member
    · constructor
      · obtain ⟨triple, signed, text⟩ := unforged entry (part entry member) signature
        exact notSplit entry (part entry member) (validFor_same valid) triple signed text
      · intro spork heard signature same
        have sporkValid : validFor rules nSporkID spork = true := by
          unfold validFor
          rw [same, ← id, known, signature]
          simp
        have later := newest_greatest found (List.mem_filter.mpr ⟨heard, sporkValid⟩)
        exact Int64.le_iff_toInt_le.mpr later

theorem converged_of (oneLatest : OneLatest rules (received inputs))
    (first : SameMessages inputs others) : Converged rules inputs others := by
  intro nSporkID
  unfold activeTriple
  rw [sporksAfter_active, sporksAfter_active]
  apply newest_agree
  · intro spork
    rw [List.mem_filter, List.mem_filter, first spork]
  · intro left leftMember right rightMember equal greatest
    obtain ⟨leftHeard, leftValid⟩ := List.mem_filter.mp leftMember
    obtain ⟨rightHeard, rightValid⟩ := List.mem_filter.mp rightMember
    have time : left.nTimeSigned = right.nTimeSigned := Int64.toInt_inj.mp equal
    have value := oneLatest nSporkID left leftHeard right rightHeard leftValid rightValid time
      (fun other heard valid => Int64.le_iff_toInt_le.mpr
        (greatest other (List.mem_filter.mpr ⟨heard, valid⟩)))
    have id := (validFor_id leftValid).1.trans (validFor_id rightValid).1.symm
    obtain ⟨⟨leftId, leftValue, leftTime⟩, leftSig⟩ := left
    dsimp only at time value id ⊢
    rw [time, value, id]

theorem received_cons (spork : CSporkMessage) :
    received ((⟨false, true⟩, spork) :: inputs) = spork :: received inputs := rfl

theorem first_stands (valid : validFor rules nSporkID spork = true)
    (latest : ∀ other ∈ received inputs, validFor rules nSporkID other = true →
      other.nTimeSigned ≤ spork.nTimeSigned) :
    activeTriple rules ((⟨false, true⟩, spork) :: inputs) nSporkID = some spork.toSporkTriple := by
  unfold activeTriple
  rw [sporksAfter_active, received_cons, List.filter_cons, if_pos valid, newest_first]
  · rfl
  · intro other member
    obtain ⟨heard, otherValid⟩ := List.mem_filter.mp member
    exact Int64.le_iff_toInt_le.mp (latest other heard otherValid)

theorem same_cons (heard : spork ∈ received inputs) :
    SameMessages inputs ((⟨false, true⟩, spork) :: inputs) := by
  intro other
  rw [received_cons, List.mem_cons]
  constructor
  · exact Or.inr
  · rintro (here | later)
    · rw [here]
      exact heard
    · exact later

end Settling

/-- Over all orders of some messages, entries are authentic and nodes converge exactly
    when no valid message is a signed text split another way and no two latest ones of an
    identifier differ. -/
theorem sporks_settle_iff (rules : SporkRules) (requests : List SporkTriple)
    (inputs : List SporkInput) (unforged : Unforged rules requests (received inputs)) :
    ((∀ others, (∀ spork ∈ received others, spork ∈ received inputs) →
        Authentic rules requests others) ∧
      ∀ left right, SameMessages inputs left → SameMessages inputs right →
        Converged rules left right) ↔
      NotSplit rules requests (received inputs) ∧ OneLatest rules (received inputs) := by
  constructor
  · rintro ⟨authentic, converges⟩
    constructor
    · intro spork heard valid triple _ _
      have alone : ∀ other ∈ received [(⟨false, true⟩, spork)], other ∈ received inputs := by
        intro other member
        rw [received_cons, List.mem_cons] at member
        rcases member with here | nowhere
        · rw [here]
          exact heard
        · cases nowhere
      have stands := @first_stands rules [] spork.nSporkID spork valid nofun
      obtain ⟨entry, found, same⟩ := Option.map_eq_some_iff.mp stands
      have signed := (authentic _ alone spork.nSporkID entry found).2.2.1
      rw [same] at signed
      exact signed
    · intro nSporkID left leftHeard right rightHeard leftValid rightValid time latest
      have ends := converges _ _ (same_cons leftHeard) (same_cons rightHeard) nSporkID
      rw [first_stands leftValid latest, first_stands rightValid (time ▸ latest)] at ends
      exact congrArg SporkTriple.nValue (Option.some.inj ends)
  · rintro ⟨notSplit, oneLatest⟩
    constructor
    · intro others part
      exact authentic_of unforged notSplit part
    · intro left right first second nSporkID
      have one := converged_of oneLatest first nSporkID
      have two := converged_of oneLatest second nSporkID
      rw [← one, two]

section Samples

def sampleBytes (text : List Char) : List UInt8 := text.map fun letter => letter.toNat.toUInt8

def sampleRules : SporkRules where
  signMessage text := some (sampleBytes text)
  verifyMessage vchSig text := vchSig == sampleBytes text
  getHash triple := BitVec.ofInt 256 triple.nTimeSigned.toInt

def requested : SporkTriple := ⟨SPORK_2_INSTANTTX, 12, 1540000000⟩

def sentSpork : CSporkMessage := ⟨requested, sampleBytes (strMessage requested)⟩

def splitSpork : CSporkMessage :=
  ⟨⟨SPORK_2_INSTANTTX, 1, 21540000000⟩, sampleBytes (strMessage requested)⟩

theorem requested_signed : Signed sampleRules [requested] requested := by
  constructor
  · exact List.mem_singleton_self _
  · decide +kernel

theorem splitSpork_text : strMessage splitSpork.toSporkTriple = strMessage requested := by
  decide +kernel

theorem requested_sent : Authentic sampleRules [requested] [(⟨false, true⟩, sentSpork)] := by
  have settled := (sporks_settle_iff sampleRules [requested] [(⟨false, true⟩, sentSpork)] (by
    intro spork member _
    rw [List.mem_singleton.mp member]
    exact ⟨requested, requested_signed, rfl⟩)).mpr ⟨by
      intro spork member _ _ _ _
      rw [List.mem_singleton.mp member]
      exact requested_signed, by
      intro _ left leftMember right rightMember _ _ _ _
      rw [List.mem_singleton.mp leftMember, List.mem_singleton.mp rightMember]⟩
  exact settled.1 _ fun _ member => member

theorem split_accepted :
    ¬ ∀ (rules : SporkRules) (requests : List SporkTriple) (inputs : List SporkInput),
      Unforged rules requests (received inputs) →
        (∀ others, (∀ spork ∈ received others, spork ∈ received inputs) →
            Authentic rules requests others) ∧
          ∀ left right, SameMessages inputs left → SameMessages inputs right →
            Converged rules left right := by
  intro settled
  have unforged : Unforged sampleRules [requested]
      (received [(⟨false, true⟩, sentSpork), (⟨false, true⟩, splitSpork)]) := by
    intro spork member _
    rcases List.mem_cons.mp member with first | later
    · rw [first]
      exact ⟨requested, requested_signed, rfl⟩
    · rw [List.mem_singleton.mp later]
      exact ⟨requested, requested_signed, splitSpork_text.symm⟩
  have authentic := (settled sampleRules [requested] _ unforged).1 _ fun _ member => member
  have found : (sporksAfter sampleRules [(⟨false, true⟩, sentSpork),
      (⟨false, true⟩, splitSpork)]).mapSporksActive.find? SPORK_2_INSTANTTX = some splitSpork := by
    decide +kernel
  have signed := (authentic _ _ found).2.2.1.1
  revert signed
  decide

end Samples

end OxidSporks
