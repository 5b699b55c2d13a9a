import Oxid.Library.PackedBits
import Oxid.StandardForms

/-!
The bloom filter that a peer has us keep. Its flags are caches: a full filter matches all,
an empty one nothing.
-/
namespace OxidBloomFilter
open OxidPrimitives OxidScript OxidStandard OxidStandardForms PackedBits

def MAX_BLOOM_FILTER_SIZE : Nat := 36000
def MAX_HASH_FUNCS : UInt32 := 50

def BLOOM_UPDATE_ALL : UInt8 := 1
def BLOOM_UPDATE_P2PUBKEY_ONLY : UInt8 := 2
def BLOOM_UPDATE_MASK : UInt8 := 3

section Murmur

def rotl32 (x : UInt32) (r : UInt32) : UInt32 := x <<< r ||| x >>> (32 - r)

def murmurScramble (k1 : UInt32) : UInt32 := rotl32 (k1 * 0xcc9e2d51) 15 * 0x1b873593

def murmurBlocks (h1 : UInt32) : List UInt8 → UInt32
  | a :: b :: c :: d :: rest =>
    murmurBlocks (rotl32 (h1 ^^^ murmurScramble (UInt32.ofNat (fromLittleEndian [a, b, c, d]))) 13
      * 5 + 0xe6546b64) rest
  | [] => h1
  | tail => h1 ^^^ murmurScramble (UInt32.ofNat (fromLittleEndian tail))

def murmurHash3 (nHashSeed : UInt32) (vDataToHash : List UInt8) : UInt32 :=
  let h1 := murmurBlocks nHashSeed vDataToHash ^^^ UInt32.ofNat vDataToHash.length
  let h1 := (h1 ^^^ h1 >>> 16) * 0x85ebca6b
  let h1 := (h1 ^^^ h1 >>> 13) * 0xc2b2ae35
  h1 ^^^ h1 >>> 16

example : murmurHash3 0xFBA4C795 [0x00] = 0xea3f0b17 ∧
    murmurHash3 0 [0x00, 0x11, 0x22, 0x33, 0x44, 0x55, 0x66] = 0xb074502c := by
  decide

end Murmur

structure CBloomFilter where
  vData : List UInt8
  isFull : Bool
  isEmpty : Bool
  nHashFuncs : UInt32
  nTweak : UInt32
  nFlags : UInt8
deriving DecidableEq

namespace CBloomFilter

def init : CBloomFilter := ⟨[], true, false, 0, 0, 0⟩

variable (filter : CBloomFilter)

/-- The bit for a hash function, unless it is taken modulo zero. -/
def hash (nHashNum : UInt32) (vDataToHash : List UInt8) : Option Nat :=
  if filter.vData.length * 8 = 0 then none
  else some ((murmurHash3 (nHashNum * 0xFBA4C795 + filter.nTweak) vDataToHash).toNat %
    (filter.vData.length * 8))

/-- The loop over the hash functions from number `i` on. A byte outside the filter is `none`. -/
def insertFrom (vKey : List UInt8) : Nat → UInt32 → CBloomFilter → Option CBloomFilter
  | 0, _, filter => some filter
  | left + 1, i, filter => do
    let nIndex ← filter.hash i vKey
    if nIndex >>> 3 < filter.vData.length then
      insertFrom vKey left (i + 1) { filter with vData := putBit filter.vData nIndex true }
    else none

def insert (vKey : List UInt8) : Option CBloomFilter :=
  if filter.isFull then some filter
  else (insertFrom vKey filter.nHashFuncs.toNat 0 filter).map fun filter =>
    { filter with isEmpty := false }

def containsFrom (vKey : List UInt8) : Nat → UInt32 → Option Bool
  | 0, _ => some true
  | left + 1, i => do
    let nIndex ← filter.hash i vKey
    let byte ← filter.vData[nIndex >>> 3]?
    if byte.toNat.testBit (7 &&& nIndex) then containsFrom vKey left (i + 1) else some false

def contains (vKey : List UInt8) : Option Bool :=
  if filter.isFull then some true
  else if filter.isEmpty then some false
  else filter.containsFrom vKey filter.nHashFuncs.toNat 0

def isWithinSizeConstraints : Bool :=
  filter.vData.length ≤ MAX_BLOOM_FILTER_SIZE && filter.nHashFuncs ≤ MAX_HASH_FUNCS

def updateEmptyFull : CBloomFilter :=
  { filter with
    isFull := filter.vData.all (· == 0xff)
    isEmpty := filter.vData.all (· == 0) }

def matchesScript (pc : CScript) : Option Bool :=
  if pc.isEmpty then some false
  else if (getOp pc).fRet = true then
    if (getOp pc).vchRet ≠ [] then do
      let found ← filter.contains (getOp pc).vchRet
      if found then some true else matchesScript (getOp pc).pc
    else matchesScript (getOp pc).pc
  else some false
termination_by pc.length
decreasing_by
  all_goals
    rename_i read _
    exact getOp_shorter pc read

def updatesFor (scriptPubKey : CScript) : Option Bool :=
  if filter.nFlags &&& BLOOM_UPDATE_MASK = BLOOM_UPDATE_ALL then some true
  else if filter.nFlags &&& BLOOM_UPDATE_MASK = BLOOM_UPDATE_P2PUBKEY_ONLY then
    match solver scriptPubKey with
    | .outOfRange => none
    | .unsolved => some false
    | .solved type _ => some (type = .TX_PUBKEY || type = .TX_MULTISIG)
  else some false

end CBloomFilter

def hashBytes (hash : Uint256) : List UInt8 := Serialize.littleEndian 32 hash.toNat

def outpointBytes (outpoint : COutPoint) : List UInt8 :=
  hashBytes outpoint.hash ++ Serialize.littleEndian 4 outpoint.n.toNat

structure Tested where
  fFound : Bool
  filter : CBloomFilter
  inserted : List COutPoint

def testOutputs (hash : Uint256) : UInt32 → List CTxOut → Tested → Option Tested
  | _, [], tested => some tested
  | i, txout :: rest, tested => do
    let found ← tested.filter.matchesScript txout.scriptPubKey
    if found then
      let updates ← tested.filter.updatesFor txout.scriptPubKey
      if updates then
        let filter ← tested.filter.insert (outpointBytes ⟨hash, i⟩)
        testOutputs hash (i + 1) rest ⟨true, filter, tested.inserted ++ [⟨hash, i⟩]⟩
      else testOutputs hash (i + 1) rest { tested with fFound := true }
    else testOutputs hash (i + 1) rest tested

def testInputs (filter : CBloomFilter) : List CTxIn → Option Bool
  | [] => some false
  | txin :: rest => do
    let spends ← filter.contains (outpointBytes txin.prevout)
    if spends then some true
    else
      let found ← filter.matchesScript txin.scriptSig
      if found then some true else testInputs filter rest

def isRelevantAndUpdate (txHash : CTransaction → Uint256) (filter : CBloomFilter)
    (tx : CTransaction) : Option Tested :=
  if filter.isFull then some ⟨true, filter, []⟩
  else if filter.isEmpty then some ⟨false, filter, []⟩
  else do
    let fFound ← filter.contains (hashBytes (txHash tx))
    let tested ← testOutputs (txHash tx) 0 tx.vout ⟨fFound, filter, []⟩
    if tested.fFound then some tested
    else
      let fFound ← testInputs tested.filter tx.vin
      some { tested with fFound }

section Messages

structure CNode where
  pfilter : Option CBloomFilter
  fRelayTxes : Bool
  nMisbehavior : Nat

def CNode.init : CNode := ⟨some CBloomFilter.init, false, 0⟩

def CNode.misbehaving (pfrom : CNode) (howmuch : Nat) : CNode :=
  { pfrom with nMisbehavior := pfrom.nMisbehavior + howmuch }

inductive FilterMessage where
  | filterload (vData : List UInt8) (nHashFuncs nTweak : UInt32) (nFlags : UInt8)
  | filteradd (vData : List UInt8)
  | filterclear

def readFilter (vData : List UInt8) (nHashFuncs nTweak : UInt32) (nFlags : UInt8) : CBloomFilter :=
  { CBloomFilter.init with vData, nHashFuncs, nTweak, nFlags }

def processMessage (nodeBloom : Bool) (pfrom : CNode) (message : FilterMessage) : Option CNode :=
  if !nodeBloom then some (pfrom.misbehaving 100)
  else
    match message with
    | .filterload vData nHashFuncs nTweak nFlags =>
      let filter := readFilter vData nHashFuncs nTweak nFlags
      let pfrom :=
        if !filter.isWithinSizeConstraints then pfrom.misbehaving 100
        else { pfrom with pfilter := some filter.updateEmptyFull }
      some { pfrom with fRelayTxes := true }
    | .filteradd vData =>
      if vData.length > MAX_SCRIPT_ELEMENT_SIZE then some (pfrom.misbehaving 100)
      else
        match pfrom.pfilter with
        | none => some (pfrom.misbehaving 100)
        | some filter =>
          (filter.insert vData).map fun filter => { pfrom with pfilter := some filter }
    | .filterclear =>
      some { pfrom with pfilter := some CBloomFilter.init, fRelayTxes := true }

inductive FilterEvent where
  | message (message : FilterMessage)
  | tested (tx : CTransaction)

def Replaces (nodeBloom : Bool) : FilterMessage → Bool
  | .filterload vData nHashFuncs nTweak nFlags =>
    nodeBloom && (readFilter vData nHashFuncs nTweak nFlags).isWithinSizeConstraints
  | .filteradd _ => false
  | .filterclear => nodeBloom

def added (nodeBloom : Bool) : FilterMessage → List (List UInt8)
  | .filteradd vData =>
    if nodeBloom && decide (vData.length ≤ MAX_SCRIPT_ELEMENT_SIZE) then [vData] else []
  | _ => []

/-- A peer with the items that were put into its filter since that was loaded or cleared. -/
structure Followed where
  pfrom : CNode
  items : List (List UInt8)

def follow (nodeBloom : Bool) (txHash : CTransaction → Uint256) (state : Followed) :
    FilterEvent → Option Followed
  | .message message =>
    (processMessage nodeBloom state.pfrom message).map fun pfrom =>
      ⟨pfrom, added nodeBloom message ++ if Replaces nodeBloom message then [] else state.items⟩
  | .tested tx =>
    match state.pfrom.pfilter with
    | none => some state
    | some filter =>
      (isRelevantAndUpdate txHash filter tx).map fun tested =>
        ⟨{ state.pfrom with pfilter := some tested.filter },
          tested.inserted.map outpointBytes ++ state.items⟩

def followAll (nodeBloom : Bool) (txHash : CTransaction → Uint256) :
    List FilterEvent → Followed → Option Followed
  | [], state => some state
  | event :: later, state => (follow nodeBloom txHash state event).bind
      (followAll nodeBloom txHash later)

end Messages

section Bits

variable {filter before after later : CBloomFilter} {vKey : List UInt8}

/-- A filter without data is full, so that nothing is reduced modulo its size. -/
def CBloomFilter.Flagged (filter : CBloomFilter) : Prop :=
  filter.vData = [] → filter.isFull = true

structure Grows (before after : CBloomFilter) : Prop where
  size : after.vData.length = before.vData.length
  full : after.isFull = before.isFull
  empty : after.isEmpty = true → before.isEmpty = true
  funcs : after.nHashFuncs = before.nHashFuncs
  tweak : after.nTweak = before.nTweak
  bits : ∀ place, bitAt before.vData place = true → bitAt after.vData place = true

theorem Grows.refl (filter : CBloomFilter) : Grows filter filter :=
  ⟨rfl, rfl, id, rfl, rfl, fun _ => id⟩

theorem Grows.trans (first : Grows before after) (second : Grows after later) :
    Grows before later where
  size := second.size.trans first.size
  full := second.full.trans first.full
  empty := first.empty ∘ second.empty
  funcs := second.funcs.trans first.funcs
  tweak := second.tweak.trans first.tweak
  bits place := second.bits place ∘ first.bits place

theorem Grows.flagged (grows : Grows before after) (flagged : before.Flagged) : after.Flagged := by
  intro none'
  have size := grows.size
  rw [none', List.length_nil] at size
  rw [grows.full, flagged (List.length_eq_zero_iff.mp size.symm)]

theorem Grows.hash (grows : Grows before after) (nHashNum : UInt32) (vKey : List UInt8) :
    after.hash nHashNum vKey = before.hash nHashNum vKey := by
  simp [CBloomFilter.hash, grows.size, grows.tweak]

def HasBit (filter : CBloomFilter) (vKey : List UInt8) (nHashNum : UInt32) : Prop :=
  ∃ nIndex, filter.hash nHashNum vKey = some nIndex ∧ bitAt filter.vData nIndex = true

def Holds (filter : CBloomFilter) (vKey : List UInt8) : Prop :=
  filter.isFull = true ∨ filter.isEmpty = false ∧
    ∀ i < filter.nHashFuncs.toNat, HasBit filter vKey (UInt32.ofNat i)

theorem Grows.hasBit (grows : Grows before after) {nHashNum : UInt32}
    (has : HasBit before vKey nHashNum) : HasBit after vKey nHashNum := by
  obtain ⟨nIndex, index, set⟩ := has
  exact ⟨nIndex, by rw [grows.hash, index], grows.bits nIndex set⟩

theorem Grows.holds (grows : Grows before after) (held : Holds before vKey) :
    Holds after vKey := by
  rcases held with full | ⟨some', bits⟩
  · left
    rw [grows.full, full]
  · right
    constructor
    · by_contra empty
      have earlier := grows.empty (by simpa using empty)
      simp [earlier] at some'
    · intro i less
      rw [grows.funcs] at less
      exact grows.hasBit (bits i less)

theorem hash_inside (filled : filter.vData ≠ []) (nHashNum : UInt32) (vKey : List UInt8) :
    ∃ nIndex, filter.hash nHashNum vKey = some nIndex ∧ nIndex < filter.vData.length * 8 := by
  have positive := List.length_pos_iff.mpr filled
  refine ⟨_, if_neg (by omega), Nat.mod_lt _ (by omega)⟩

theorem byte_index (nIndex : Nat) : nIndex >>> 3 = nIndex / 8 := Nat.shiftRight_eq_div_pow nIndex 3

theorem insertFrom_sets (filled : filter.vData ≠ []) (left : Nat) (i : UInt32) :
    ∃ after, CBloomFilter.insertFrom vKey left i filter = some after ∧ Grows filter after ∧
      ∀ n < left, HasBit after vKey (i + UInt32.ofNat n) := by
  induction left generalizing i filter with
  | zero => exact ⟨filter, rfl, Grows.refl filter, fun n less => absurd less (Nat.not_lt_zero n)⟩
  | succ left ih =>
    obtain ⟨nIndex, index, inside⟩ := hash_inside filled i vKey
    have byte : nIndex / 8 < filter.vData.length := by omega
    have step : Grows filter { filter with vData := putBit filter.vData nIndex true } := by
      constructor <;> simp
      intro place set
      rw [bitAt_putBit byte, set, Bool.true_or]
    have stays : putBit filter.vData nIndex true ≠ [] := by
      rw [← List.length_pos_iff, putBit_length]
      omega
    obtain ⟨after, inserted, grows, bits⟩ :=
      @ih { filter with vData := putBit filter.vData nIndex true } stays (i + 1)
    refine ⟨after, ?_, step.trans grows, ?_⟩
    · simp [CBloomFilter.insertFrom, index, byte_index, byte, inserted]
    · intro n less
      cases n with
      | zero =>
        have first : HasBit { filter with vData := putBit filter.vData nIndex true } vKey i :=
          ⟨nIndex, by rw [step.hash, index], by simp [bitAt_putBit byte]⟩
        simpa using grows.hasBit first
      | succ n =>
        have shifted : i + UInt32.ofNat (n + 1) = i + 1 + UInt32.ofNat n := by
          rw [UInt32.ofNat_add, UInt32.add_comm (UInt32.ofNat n), ← UInt32.add_assoc]
          rfl
        rw [shifted]
        exact bits n (by omega)

theorem insert_holds (flagged : filter.Flagged) (vKey : List UInt8) :
    ∃ after, filter.insert vKey = some after ∧ Grows filter after ∧ Holds after vKey := by
  unfold CBloomFilter.insert
  by_cases full : filter.isFull = true
  · exact ⟨filter, by simp [full], Grows.refl filter, .inl full⟩
  · have filled : filter.vData ≠ [] := fun none' => full (flagged none')
    obtain ⟨after, inserted, grows, bits⟩ :=
      @insertFrom_sets _ vKey filled filter.nHashFuncs.toNat 0
    refine ⟨{ after with isEmpty := false }, by simp [full, inserted], ?_, .inr ⟨rfl, ?_⟩⟩
    · exact ⟨grows.size, grows.full, by simp, grows.funcs, grows.tweak, grows.bits⟩
    · intro i less
      obtain ⟨nIndex, index, set⟩ := bits i (by rw [← grows.funcs]; exact less)
      refine ⟨nIndex, ?_, set⟩
      simpa [CBloomFilter.hash] using index

theorem containsFrom_defined (filled : filter.vData ≠ []) (left : Nat) (i : UInt32) :
    ∃ found, filter.containsFrom vKey left i = some found ∧
      ((∀ n < left, HasBit filter vKey (i + UInt32.ofNat n)) → found = true) := by
  induction left generalizing i with
  | zero => exact ⟨true, rfl, fun _ => rfl⟩
  | succ left ih =>
    obtain ⟨nIndex, index, inside⟩ := hash_inside filled i vKey
    have byte : nIndex / 8 < filter.vData.length := by omega
    obtain ⟨found, rest, all⟩ := ih (i + 1)
    have bit : filter.vData[nIndex / 8].toNat.testBit (7 &&& nIndex) =
        bitAt filter.vData nIndex := by
      rw [Nat.and_comm, Nat.and_two_pow_sub_one_eq_mod nIndex 3]
      simp [bitAt, List.getD_eq_getElem?_getD, byte]
    by_cases set : bitAt filter.vData nIndex = true
    · refine ⟨found, by simp [CBloomFilter.containsFrom, index, byte_index, byte, bit, set, rest],
        fun has => all fun n less => ?_⟩
      have next := has (n + 1) (by omega)
      have shifted : i + UInt32.ofNat (n + 1) = i + 1 + UInt32.ofNat n := by
        rw [UInt32.ofNat_add, UInt32.add_comm (UInt32.ofNat n), ← UInt32.add_assoc]
        rfl
      rwa [shifted] at next
    · refine ⟨false, by simp [CBloomFilter.containsFrom, index, byte_index, byte, bit, set],
        fun has => ?_⟩
      obtain ⟨other, here, bitHere⟩ := has 0 (by omega)
      have same : other = nIndex := by simpa [index, eq_comm] using here
      exact absurd (same ▸ bitHere) set

theorem contains_defined (flagged : filter.Flagged) (vKey : List UInt8) :
    ∃ found, filter.contains vKey = some found ∧ (Holds filter vKey → found = true) := by
  unfold CBloomFilter.contains
  by_cases full : filter.isFull = true
  · exact ⟨true, by simp [full], fun _ => rfl⟩
  · by_cases empty : filter.isEmpty = true
    · refine ⟨false, by simp [full, empty], ?_⟩
      rintro (isFull | ⟨some', _⟩)
      · exact absurd isFull full
      · simp [empty] at some'
    · have filled : filter.vData ≠ [] := fun none' => full (flagged none')
      obtain ⟨found, defined, all⟩ :=
        @containsFrom_defined _ vKey filled filter.nHashFuncs.toNat 0
      refine ⟨found, by simp [full, empty, defined], ?_⟩
      rintro (isFull | ⟨_, bits⟩)
      · exact absurd isFull full
      · exact all fun n less => by simpa using bits n less

end Bits

section Tests

variable {filter : CBloomFilter}

theorem matchesScript_defined (flagged : filter.Flagged) (pc : CScript) :
    ∃ found, filter.matchesScript pc = some found := by
  induction pc using script_induction with
  | stops pc failed =>
    rw [CBloomFilter.matchesScript]
    split
    · exact ⟨false, rfl⟩
    · exact ⟨false, by simp [failed]⟩
  | reads pc read ih =>
    obtain ⟨later, rest⟩ := ih
    obtain ⟨found, contains, _⟩ := contains_defined flagged (getOp pc).vchRet
    rw [CBloomFilter.matchesScript]
    split
    · exact ⟨false, rfl⟩
    · by_cases data : (getOp pc).vchRet = []
      · exact ⟨later, by simp [data, rest]⟩
      · cases found with
        | true => exact ⟨true, by simp [data, contains]⟩
        | false => exact ⟨later, by simp [data, contains, rest]⟩

theorem matchesScript_lone (filter : CBloomFilter) :
    filter.matchesScript [OP_ZEROCOINMINT] = some false := by
  have read : getOp [OP_ZEROCOINMINT] = ⟨true, [], OP_ZEROCOINMINT, []⟩ := by decide
  rw [CBloomFilter.matchesScript, read]
  simp [CBloomFilter.matchesScript]

theorem updatesFor_defined {script : CScript}
    (found : filter.matchesScript script = some true) :
    ∃ updates, filter.updatesFor script = some updates := by
  have long : script ≠ [OP_ZEROCOINMINT] := by
    rintro rfl
    simp [matchesScript_lone] at found
  have inside := ((classified_iff script).mpr long).1
  unfold CBloomFilter.updatesFor
  split
  · exact ⟨true, rfl⟩
  · split
    · cases solving : solver script with
      | outOfRange => exact absurd solving inside
      | unsolved => exact ⟨false, rfl⟩
      | solved type vSolutions => exact ⟨_, rfl⟩
    · exact ⟨false, rfl⟩

theorem testOutputs_grows (hash : Uint256) (i : UInt32) (outs : List CTxOut) (tested : Tested)
    (flagged : tested.filter.Flagged) :
    ∃ after, testOutputs hash i outs tested = some after ∧ Grows tested.filter after.filter ∧
      ((∀ outpoint ∈ tested.inserted, Holds tested.filter (outpointBytes outpoint)) →
        ∀ outpoint ∈ after.inserted, Holds after.filter (outpointBytes outpoint)) := by
  induction outs generalizing i tested with
  | nil => exact ⟨tested, rfl, Grows.refl _, id⟩
  | cons txout rest ih =>
    obtain ⟨found, scanned⟩ := matchesScript_defined flagged txout.scriptPubKey
    cases found with
    | false =>
      obtain ⟨after, done, grows, holds⟩ := ih (i + 1) tested flagged
      exact ⟨after, by simp [testOutputs, scanned, done], grows, holds⟩
    | true =>
      obtain ⟨updates, decided⟩ := updatesFor_defined scanned
      cases updates with
      | false =>
        obtain ⟨after, done, grows, holds⟩ := ih (i + 1) { tested with fFound := true } flagged
        exact ⟨after, by simp [testOutputs, scanned, decided, done], grows, holds⟩
      | true =>
        obtain ⟨filter, inserted, step, held⟩ := insert_holds flagged (outpointBytes ⟨hash, i⟩)
        obtain ⟨after, done, grows, holds⟩ := ih (i + 1)
          ⟨true, filter, tested.inserted ++ [⟨hash, i⟩]⟩ (step.flagged flagged)
        refine ⟨after, by simp [testOutputs, scanned, decided, inserted, done], step.trans grows,
          fun earlier => holds fun outpoint member => ?_⟩
        rcases List.mem_append.mp member with old | new
        · exact step.holds (earlier outpoint old)
        · rw [List.mem_singleton.mp new]
          exact held

theorem testInputs_defined (flagged : filter.Flagged) (inputs : List CTxIn) :
    ∃ found, testInputs filter inputs = some found := by
  induction inputs with
  | nil => exact ⟨false, rfl⟩
  | cons txin rest ih =>
    obtain ⟨later, rest⟩ := ih
    obtain ⟨spends, contains, _⟩ := contains_defined flagged (outpointBytes txin.prevout)
    obtain ⟨found, scanned⟩ := matchesScript_defined flagged txin.scriptSig
    cases spends with
    | true => exact ⟨true, by simp [testInputs, contains]⟩
    | false =>
      cases found with
      | true => exact ⟨true, by simp [testInputs, contains, scanned]⟩
      | false => exact ⟨later, by simp [testInputs, contains, scanned, rest]⟩

theorem isRelevantAndUpdate_grows (txHash : CTransaction → Uint256) (flagged : filter.Flagged)
    (tx : CTransaction) :
    ∃ tested, isRelevantAndUpdate txHash filter tx = some tested ∧ Grows filter tested.filter ∧
      ∀ outpoint ∈ tested.inserted, Holds tested.filter (outpointBytes outpoint) := by
  unfold isRelevantAndUpdate
  by_cases full : filter.isFull = true
  · exact ⟨⟨true, filter, []⟩, by simp [full], Grows.refl filter, nofun⟩
  · by_cases empty : filter.isEmpty = true
    · exact ⟨⟨false, filter, []⟩, by simp [full, empty], Grows.refl filter, nofun⟩
    · obtain ⟨fFound, contains, _⟩ := contains_defined flagged (hashBytes (txHash tx))
      obtain ⟨tested, done, grows, holds⟩ :=
        testOutputs_grows (txHash tx) 0 tx.vout ⟨fFound, filter, []⟩ flagged
      obtain ⟨found, inputs⟩ := testInputs_defined (grows.flagged flagged) tx.vin
      cases outputs : tested.fFound with
      | true =>
        exact ⟨tested, by simp [full, empty, contains, done, outputs], grows, holds nofun⟩
      | false =>
        exact ⟨{ tested with fFound := found },
          by simp [full, empty, contains, done, outputs, inputs], grows, holds nofun⟩

end Tests

section Runs

variable {nodeBloom : Bool} {txHash : CTransaction → Uint256}

structure Sound (state : Followed) (filter : CBloomFilter) : Prop where
  kept : state.pfrom.pfilter = some filter
  flagged : filter.Flagged
  holds : ∀ item ∈ state.items, Holds filter item

theorem Sound.init : Sound ⟨CNode.init, []⟩ CBloomFilter.init := ⟨rfl, fun _ => rfl, nofun⟩

theorem updateEmptyFull_flagged (filter : CBloomFilter) : filter.updateEmptyFull.Flagged := by
  intro none'
  have empty : filter.vData = [] := none'
  simp [CBloomFilter.updateEmptyFull, empty]

def Leaves (nodeBloom : Bool) (event : FilterEvent) (before after : CBloomFilter) : Prop :=
  (∀ message, event = .message message → Replaces nodeBloom message = false) → Grows before after

variable {filter : CBloomFilter} {state : Followed}

theorem message_sound (sound : Sound state filter) (message : FilterMessage) :
    ∃ after later, follow nodeBloom txHash state (.message message) = some after ∧
      Sound after later ∧ Leaves nodeBloom (.message message) filter later := by
  have same : Sound ⟨state.pfrom.misbehaving 100, state.items⟩ filter :=
    ⟨sound.kept, sound.flagged, sound.holds⟩
  cases nodeBloom with
  | false =>
    refine ⟨_, filter, rfl, ?_, fun _ => Grows.refl filter⟩
    cases message <;> exact same
  | true =>
    cases message with
    | filterload vData nHashFuncs nTweak nFlags =>
      cases within : (readFilter vData nHashFuncs nTweak nFlags).isWithinSizeConstraints with
      | false =>
        refine ⟨⟨{ state.pfrom.misbehaving 100 with fRelayTxes := true }, state.items⟩, filter, ?_,
          ⟨sound.kept, sound.flagged, sound.holds⟩, fun _ => Grows.refl filter⟩
        simp [follow, processMessage, within, Replaces, added]
      | true =>
        refine ⟨⟨{ state.pfrom with
            pfilter := some (readFilter vData nHashFuncs nTweak nFlags).updateEmptyFull
            fRelayTxes := true }, []⟩, _, ?_,
          ⟨rfl, updateEmptyFull_flagged _, nofun⟩, fun other => ?_⟩
        · simp [follow, processMessage, within, Replaces, added]
        · have replaced := other _ rfl
          simp [Replaces, within] at replaced
    | filteradd vData =>
      by_cases large : vData.length > MAX_SCRIPT_ELEMENT_SIZE
      · refine ⟨_, filter, ?_, same, fun _ => Grows.refl filter⟩
        simp [follow, processMessage, large, added, Replaces, Nat.not_le.mpr large]
      · obtain ⟨later, inserted, grows, held⟩ := insert_holds sound.flagged vData
        refine ⟨⟨{ state.pfrom with pfilter := some later }, vData :: state.items⟩, later, ?_,
          ⟨rfl, grows.flagged sound.flagged, ?_⟩, fun _ => grows⟩
        · simp [follow, processMessage, large, sound.kept, inserted, added, Replaces,
            Nat.not_lt.mp large]
        · intro item member
          rcases List.mem_cons.mp member with new | old
          · rw [new]
            exact held
          · exact grows.holds (sound.holds item old)
    | filterclear =>
      refine ⟨_, CBloomFilter.init, rfl, ⟨rfl, fun _ => rfl, nofun⟩, fun other => ?_⟩
      have replaced := other _ rfl
      simp [Replaces] at replaced

theorem follow_sound (sound : Sound state filter) (event : FilterEvent) :
    ∃ after later, follow nodeBloom txHash state event = some after ∧ Sound after later ∧
      Leaves nodeBloom event filter later := by
  cases event with
  | message message => exact message_sound sound message
  | tested tx =>
    obtain ⟨tested, done, grows, held⟩ := isRelevantAndUpdate_grows txHash sound.flagged tx
    refine ⟨⟨{ state.pfrom with pfilter := some tested.filter },
        tested.inserted.map outpointBytes ++ state.items⟩, tested.filter, ?_,
      ⟨rfl, grows.flagged sound.flagged, ?_⟩, fun _ => grows⟩
    · simp [follow, sound.kept, done]
    · intro item member
      rcases List.mem_append.mp member with new | old
      · obtain ⟨outpoint, listed, rfl⟩ := List.mem_map.mp new
        exact held outpoint listed
      · exact grows.holds (sound.holds item old)

theorem followAll_sound (sound : Sound state filter) (events : List FilterEvent) :
    ∃ after later, followAll nodeBloom txHash events state = some after ∧ Sound after later ∧
      ((∀ message, .message message ∈ events → Replaces nodeBloom message = false) →
        Grows filter later) := by
  induction events generalizing state filter with
  | nil => exact ⟨state, filter, rfl, sound, fun _ => Grows.refl filter⟩
  | cons event rest ih =>
    obtain ⟨middle, between, first, kept, step⟩ :=
      @follow_sound nodeBloom txHash _ _ sound event
    obtain ⟨after, later, run, ends, grows⟩ := ih kept
    refine ⟨after, later, by simp [followAll, first, run], ends, fun other => ?_⟩
    have here : Grows filter between :=
      step fun message same => other message (same ▸ List.mem_cons_self)
    exact here.trans (grows fun message member => other message (List.mem_cons_of_mem _ member))

theorem followAll_append (before between : List FilterEvent) (state : Followed) :
    followAll nodeBloom txHash (before ++ between) state =
      (followAll nodeBloom txHash before state).bind (followAll nodeBloom txHash between) := by
  induction before generalizing state with
  | nil => rfl
  | cons event rest ih =>
    cases first : follow nodeBloom txHash state event with
    | none => simp [followAll, first]
    | some middle => simp [followAll, first, ih]

/-- Whatever messages and transactions a peer's filter meets, no index is reduced modulo zero or
    outside the filter, what was put into it since it was loaded or cleared is matched, and until
    then no bit of it is taken away. -/
theorem filter_keeps (nodeBloom : Bool) (txHash : CTransaction → Uint256)
    (before between : List FilterEvent) :
    ∃ earlier later filter grown,
      followAll nodeBloom txHash before ⟨CNode.init, []⟩ = some earlier ∧
      followAll nodeBloom txHash (before ++ between) ⟨CNode.init, []⟩ = some later ∧
      earlier.pfrom.pfilter = some filter ∧ later.pfrom.pfilter = some grown ∧
      (∀ item ∈ later.items, grown.contains item = some true) ∧
      ((∀ message, .message message ∈ between → Replaces nodeBloom message = false) →
        grown.vData.length = filter.vData.length ∧
          ∀ place, bitAt filter.vData place = true → bitAt grown.vData place = true) := by
  obtain ⟨earlier, filter, first, start, _⟩ :=
    @followAll_sound nodeBloom txHash _ _ Sound.init before
  obtain ⟨later, grown, second, ends, grows⟩ :=
    @followAll_sound nodeBloom txHash _ _ start between
  refine ⟨earlier, later, filter, grown, first, by simp [followAll_append, first, second],
    start.kept, ends.kept, fun item member => ?_, fun other => ?_⟩
  · obtain ⟨found, defined, held⟩ := contains_defined ends.flagged item
    rw [defined, held (ends.holds item member)]
  · exact ⟨(grows other).size, (grows other).bits⟩

end Runs

end OxidBloomFilter
