import Oxid.Coins
import Oxid.Compressor

/-!
The form in which `CCoins` are kept in the coins database: a header code with the flags and
the availability of the first two outputs, a bitmask for the others, the unspent outputs
compressed, the height.
-/
namespace OxidCoinsSerialize
open OxidPrimitives OxidCoins OxidCompressor Serialize VarInts

/-- `i < vout.size() && !vout[i].IsNull()`. -/
def unspentAt (vout : List CTxOut) (i : Nat) : Bool :=
  match vout[i]? with
  | some out => !out.isNull
  | none => false

def byteUsed (vout : List CTxOut) (b : Nat) : Bool :=
  (List.range 8).any fun i => unspentAt vout (2 + b * 8 + i)

/-- `CalcMaskSize`: the mask's bytes up to the last one in use, and how many are in use. -/
def calcMaskSize (vout : List CTxOut) : Nat × Nat :=
  (List.range ((vout.length - 2 + 7) / 8)).foldl
    (fun (nLastUsedByte, nNonzeroBytes) b =>
      if byteUsed vout b then (b + 1, nNonzeroBytes + 1) else (nLastUsedByte, nNonzeroBytes))
    (0, 0)

def flag (set : Bool) (bit : Nat) : Nat := if set then bit else 0

/-- The header code, its count of mask bytes at some unit above the four flags. -/
def headerCode (unit : Nat) (coins : CCoins) : Nat :=
  let fFirst := unspentAt coins.vout 0
  let fSecond := unspentAt coins.vout 1
  unit * ((calcMaskSize coins.vout).2 - (if fFirst || fSecond then 0 else 1)) +
    flag coins.fCoinBase 1 + flag coins.fCoinStake 2 + flag fFirst 4 + flag fSecond 8

def codable (coins : CCoins) : Bool :=
  unspentAt coins.vout 0 || unspentAt coins.vout 1 || decide ((calcMaskSize coins.vout).2 ≠ 0)

def getSerializeSize (keys : PubKeyLibrary) (coins : CCoins) : Option Nat :=
  if codable coins then
    some (sizeOfVarInt coins.nVersion.toInt + sizeOfVarInt (headerCode 8 coins) +
      (calcMaskSize coins.vout).1 +
      (coins.vout.map fun out => if out.isNull then 0 else sizeOfTxOut keys out).sum +
      sizeOfVarInt coins.nHeight.toInt)
  else none

def packBits (available : Nat → Bool) : UInt8 :=
  (List.range 8).foldl (fun chAvail i =>
    if available i then chAvail ||| (1 <<< UInt8.ofNat i) else chAvail) 0

def availByte (vout : List CTxOut) (b : Nat) : UInt8 :=
  packBits fun i => unspentAt vout (2 + b * 8 + i)

def writeOuts (keys : PubKeyLibrary) (vout : List CTxOut) : Bytes :=
  vout.flatMap fun out => if out.isNull then [] else writeTxOut keys out

def serialize (keys : PubKeyLibrary) (coins : CCoins) : Option Bytes :=
  if codable coins then
    some (writeVarInt coins.nVersion.toInt ++ writeVarInt (headerCode 16 coins) ++
      (List.range (calcMaskSize coins.vout).1).map (availByte coins.vout) ++
      writeOuts keys coins.vout ++ writeVarInt coins.nHeight.toInt)
  else none

/-- A `VARINT` of a signed 32 bit number. -/
def readInt (stream : Bytes) : Option (Int32 × Bytes) :=
  (readVarInt 32 stream).map fun (n, rest) => (Int32.ofNat n, rest)

def unpackBits (chAvail : UInt8) : List Bool :=
  (List.range 8).map fun p => chAvail &&& (1 <<< UInt8.ofNat p) != 0

def readMask : Nat → Bytes → Option (List Bool × Bytes)
  | 0, stream => some ([], stream)
  | _ + 1, [] => none
  | nMaskCode + 1, chAvail :: stream =>
    (readMask (if chAvail ≠ 0 then nMaskCode else nMaskCode + 1) stream).map fun (vAvail, rest) =>
      (unpackBits chAvail ++ vAvail, rest)

def readOuts (keys : PubKeyLibrary) : List Bool → Bytes → Option (List CTxOut × Bytes)
  | [], stream => some ([], stream)
  | false :: vAvail, stream =>
    (readOuts keys vAvail stream).map fun (vout, rest) => (CTxOut.null :: vout, rest)
  | true :: vAvail, stream =>
    match readTxOut keys stream with
    | none => none
    | some (out, stream) =>
      (readOuts keys vAvail stream).map fun (vout, rest) => (out :: vout, rest)

def unserialize (keys : PubKeyLibrary) (stream : Bytes) : Option (CCoins × Bytes) := do
  let (nVersion, stream) ← readInt stream
  let (nCode, stream) ← readVarInt 32 stream
  let nMaskCode := nCode / 16 + (if nCode.testBit 2 || nCode.testBit 3 then 0 else 1)
  let (mask, stream) ← readMask nMaskCode stream
  let (vout, stream) ← readOuts keys (nCode.testBit 2 :: nCode.testBit 3 :: mask) stream
  let (nHeight, stream) ← readInt stream
  let coins : CCoins :=
    { fCoinBase := nCode.testBit 0, fCoinStake := nCode.testBit 1, vout, nHeight, nVersion }
  some (coins.cleanup, stream)

theorem unpackBits_packBits (available : Nat → Bool) :
    unpackBits (packBits available) = (List.range 8).map available := by
  have eight : ∀ a b c d e f g h : Bool, unpackBits (packBits fun i =>
      [a, b, c, d, e, f, g, h].getD i false) = [a, b, c, d, e, f, g, h] := by decide +kernel
  have these : packBits available = packBits fun i => [available 0, available 1, available 2,
      available 3, available 4, available 5, available 6, available 7].getD i false := rfl
  rw [these, eight]
  rfl

theorem packBits_eq_zero (available : Nat → Bool) :
    packBits available = 0 ↔ (List.range 8).any available = false := by
  constructor
  · intro zero
    have bits := unpackBits_packBits available
    rw [zero] at bits
    rw [List.any_eq_false]
    intro i inside
    have at' := congrArg (fun list : List Bool => list[i]?) bits
    rw [List.mem_range] at inside
    simp only [List.getElem?_map, List.getElem?_range inside, Option.map_some] at at'
    have none' : ∀ j < 8, (unpackBits 0)[j]? = some false := by decide +kernel
    rw [none' i inside] at at'
    simpa using (Option.some.inj at').symm
  · intro none'
    rw [List.any_eq_false] at none'
    have these : packBits available = packBits fun i => [available 0, available 1, available 2,
        available 3, available 4, available 5, available 6, available 7].getD i false := rfl
    have off (i : Nat) (inside : i < 8) : available i = false := by
      simpa using none' i (List.mem_range.mpr inside)
    rw [these, off 0 (by decide), off 1 (by decide), off 2 (by decide), off 3 (by decide),
      off 4 (by decide), off 5 (by decide), off 6 (by decide), off 7 (by decide)]
    decide +kernel

theorem availByte_eq_zero (vout : List CTxOut) (b : Nat) :
    availByte vout b = 0 ↔ byteUsed vout b = false := packBits_eq_zero _

variable {vout : List CTxOut} {keys : PubKeyLibrary} {coins : CCoins} {bytes : Bytes}

theorem unspentAt_beyond {i : Nat} (beyond : vout.length ≤ i) :
    unspentAt vout i = false := by
  unfold unspentAt
  rw [List.getElem?_eq_none beyond]

structure Masked (used : Nat → Bool) (count : Nat) (mask : Nat × Nat) : Prop where
  unused : ∀ b, mask.1 ≤ b → b < count → used b = false
  last : mask.1 = 0 ∨ used (mask.1 - 1) = true
  bound : mask.1 ≤ count
  nonzero : mask.2 = (List.range mask.1).countP used

theorem masked_foldl (used : Nat → Bool) (count : Nat) :
    Masked used count ((List.range count).foldl
      (fun (nLastUsedByte, nNonzeroBytes) b =>
        if used b then (b + 1, nNonzeroBytes + 1) else (nLastUsedByte, nNonzeroBytes)) (0, 0)) := by
  induction count with
  | zero => exact ⟨fun _ _ inside => absurd inside (by omega), .inl rfl, Nat.le_refl _, rfl⟩
  | succ count ih =>
    rw [List.range_succ, List.foldl_append, List.foldl_cons, List.foldl_nil]
    generalize (List.range count).foldl _ (0, 0) = mask at ih
    obtain ⟨nLastUsedByte, nNonzeroBytes⟩ := mask
    cases inUse : used count with
    | false =>
      refine ⟨?_, ih.last, Nat.le_succ_of_le ih.bound, ih.nonzero⟩
      intro b above inside
      rcases Nat.lt_or_ge b count with earlier | same
      · exact ih.unused b above earlier
      · rw [show b = count by omega]
        exact inUse
    | true =>
      refine ⟨fun b above inside => ?_, .inr ?_, Nat.le_refl _, ?_⟩
      · have less : count + 1 ≤ b := above
        omega
      · exact inUse
      · have idle : (List.range count).countP used = (List.range nLastUsedByte).countP used := by
          have bound : nLastUsedByte ≤ count := ih.bound
          obtain ⟨more, rfl⟩ := Nat.exists_eq_add_of_le bound
          rw [List.range_add, List.countP_append, Nat.add_eq_left, List.countP_eq_zero]
          intro b member
          obtain ⟨j, inside, rfl⟩ := List.mem_map.mp member
          rw [ih.unused _ (Nat.le_add_right _ _) (by rw [List.mem_range] at inside; omega)]
          exact Bool.false_ne_true
        have before : nNonzeroBytes = (List.range nLastUsedByte).countP used := ih.nonzero
        change nNonzeroBytes + 1 = (List.range (count + 1)).countP used
        rw [List.range_succ, List.countP_append, idle, before, List.countP_singleton, inUse]
        rfl

theorem calcMaskSize_masked (vout : List CTxOut) :
    Masked (byteUsed vout) ((vout.length - 2 + 7) / 8) (calcMaskSize vout) :=
  masked_foldl (byteUsed vout) _

theorem byteUsed_at {b i : Nat} (unused : byteUsed vout b = false) (inside : i < 8) :
    unspentAt vout (2 + b * 8 + i) = false := by
  unfold byteUsed at unused
  rw [List.any_eq_false] at unused
  simpa using unused i (List.mem_range.mpr inside)

theorem unspentAt_behind (vout : List CTxOut) {i : Nat}
    (behind : 2 + (calcMaskSize vout).1 * 8 ≤ i) : unspentAt vout i = false := by
  have masked := calcMaskSize_masked vout
  rcases Nat.lt_or_ge ((i - 2) / 8) ((vout.length - 2 + 7) / 8) with counted | beyond
  · have unused := masked.unused ((i - 2) / 8) (by omega) counted
    have place := byteUsed_at unused (Nat.mod_lt (i - 2) (by decide : 0 < 8))
    rwa [show 2 + (i - 2) / 8 * 8 + (i - 2) % 8 = i by omega] at place
  · exact unspentAt_beyond (by omega)

theorem readMask_written (chunk : List UInt8) (ends : ∀ last, chunk.getLast? = some last → last ≠ 0)
    (rest : Bytes) : readMask (chunk.countP fun ch => ch ≠ 0) (chunk ++ rest) =
      some (chunk.flatMap unpackBits, rest) := by
  induction chunk with
  | nil => simp [readMask]
  | cons ch later ih =>
    have ends' : ∀ last, later.getLast? = some last → last ≠ 0 := by
      intro last found
      apply ends last
      rw [List.getLast?_cons, found]
      rfl
    have some' : 0 < (ch :: later).countP fun ch => ch ≠ 0 := by
      rw [List.countP_pos_iff]
      cases found : (ch :: later).getLast? with
      | none => simp at found
      | some last => exact ⟨last, List.mem_of_getLast? found, by simpa using ends last found⟩
    obtain ⟨count, counted⟩ := Nat.exists_eq_succ_of_ne_zero (Nat.ne_of_gt some')
    have step : (if ch ≠ 0 then count else count + 1) = later.countP fun ch => ch ≠ 0 := by
      rw [List.countP_cons] at counted
      split
      · rename_i inUse
        rw [if_pos (by simpa using inUse)] at counted
        omega
      · rename_i unused
        rw [if_neg (by simpa using unused)] at counted
        omega
    rw [counted, List.cons_append, readMask, step, ih ends']
    rfl

theorem flatMap_eights (at' : Nat → Bool) (count : Nat) :
    ((List.range count).flatMap fun b => (List.range 8).map fun i => at' (b * 8 + i)) =
      (List.range (count * 8)).map at' := by
  induction count with
  | zero => rfl
  | succ count ih =>
    rw [@List.range_succ count, List.flatMap_append, ih, List.flatMap_singleton,
      show (count + 1) * 8 = count * 8 + 8 by omega, List.range_add, List.map_append, List.map_map]
    rfl

theorem mask_flags (vout : List CTxOut) :
    unspentAt vout 0 :: unspentAt vout 1 ::
        ((List.range (calcMaskSize vout).1).map (availByte vout)).flatMap unpackBits =
      (List.range (2 + (calcMaskSize vout).1 * 8)).map (unspentAt vout) := by
  have bytes : ((List.range (calcMaskSize vout).1).map (availByte vout)).flatMap unpackBits =
      (List.range ((calcMaskSize vout).1 * 8)).map fun j => unspentAt vout (2 + j) := by
    rw [← flatMap_eights, List.flatMap_map]
    apply List.flatMap_congr
    intro b _
    unfold availByte
    rw [unpackBits_packBits]
    apply List.map_congr_left
    intro i _
    rw [Nat.add_assoc]
  rw [bytes, List.range_add, List.map_append, List.map_map]
  rfl

theorem readMask_mask (vout : List CTxOut) (rest : Bytes) :
    readMask (calcMaskSize vout).2
        ((List.range (calcMaskSize vout).1).map (availByte vout) ++ rest) =
      some (((List.range (calcMaskSize vout).1).map (availByte vout)).flatMap unpackBits, rest) := by
  have masked := calcMaskSize_masked vout
  have counted : (calcMaskSize vout).2 =
      ((List.range (calcMaskSize vout).1).map (availByte vout)).countP fun ch => ch ≠ 0 := by
    rw [masked.nonzero, List.countP_map]
    apply List.countP_congr
    intro b _
    simp [availByte_eq_zero]
  rw [counted]
  apply readMask_written
  intro last found zero
  rw [List.getLast?_map, Option.map_eq_some_iff] at found
  obtain ⟨b, place, same⟩ := found
  have bEq : (calcMaskSize vout).1 ≠ 0 ∧ b = (calcMaskSize vout).1 - 1 := by
    rw [List.getLast?_range] at place
    split at place
    · cases place
    · rename_i some'
      exact ⟨some', (Option.some.inj place).symm⟩
  have inUse := masked.last.resolve_left bEq.1
  rw [zero, bEq.2, availByte_eq_zero, inUse] at same
  cases same

def restoredAt (vout : List CTxOut) (i : Nat) : CTxOut :=
  match CCoins.outputAt vout i with
  | some out => keptTxOut out
  | none => CTxOut.null

theorem unspentAt_eq (vout : List CTxOut) (i : Nat) :
    unspentAt vout i = (CCoins.outputAt vout i).isSome := by
  unfold unspentAt CCoins.outputAt
  cases vout[i]? with
  | none => rfl
  | some out =>
    cases null : out.isNull with
    | true => simp [null]
    | false => simp [null]

theorem readOuts_writeOuts (lawful : keys.Lawful) (vAvail : List Bool)
    (agree : ∀ i, vAvail.getD i false = unspentAt vout i)
    (fits : ∀ out ∈ vout, out.scriptPubKey.length ≤ maxSize) (rest : Bytes) :
    readOuts keys vAvail (writeOuts keys vout ++ rest) =
      some ((List.range vAvail.length).map (restoredAt vout), rest) := by
  induction vAvail generalizing vout with
  | nil =>
    have nothing : writeOuts keys vout = [] := by
      unfold writeOuts
      rw [List.flatMap_eq_nil_iff]
      intro out member
      obtain ⟨i, found⟩ := List.mem_iff_getElem?.mp member
      have spent := agree i
      unfold unspentAt at spent
      rw [found] at spent
      rw [if_pos (by simpa using spent.symm)]
    rw [nothing]
    rfl
  | cons available vAvail ih =>
    rw [List.length_cons, List.range_succ_eq_map, List.map_cons, List.map_map]
    cases vout with
    | nil =>
      have off : available = false := agree 0
      have later := @ih [] (fun i => agree (i + 1)) (by simp)
      rw [off, readOuts, later]
      rfl
    | cons out vout =>
      have first : available = !out.isNull := agree 0
      have later := @ih vout (fun i => agree (i + 1))
        fun other member => fits other (List.mem_cons_of_mem _ member)
      have onward : (restoredAt (out :: vout)) ∘ Nat.succ = restoredAt vout := rfl
      rw [onward, first]
      unfold writeOuts at later ⊢
      rw [List.flatMap_cons]
      cases null : out.isNull with
      | true =>
        rw [if_pos rfl, List.nil_append, Bool.not_true, readOuts, later]
        unfold restoredAt CCoins.outputAt
        simp [Option.filter, null]
      | false =>
        rw [if_neg (by decide), List.append_assoc, Bool.not_false, readOuts,
          readTxOut_writeTxOut lawful (fits out List.mem_cons_self)]
        dsimp only
        rw [later]
        unfold restoredAt CCoins.outputAt
        simp [Option.filter, null]

theorem calcMaskSize_le (fits : vout.length ≤ maxSize) :
    (calcMaskSize vout).2 ≤ 2 ^ 22 + 1 := by
  have masked := calcMaskSize_masked vout
  have counted : (calcMaskSize vout).2 ≤ (calcMaskSize vout).1 := by
    rw [masked.nonzero]
    exact (List.countP_le_length).trans (Nat.le_of_eq List.length_range)
  have bound := masked.bound
  have limit : maxSize = 0x02000000 := rfl
  omega

theorem headerCode_lt (fits : coins.vout.length ≤ maxSize) :
    headerCode 16 coins < 2 ^ 32 := by
  have count := calcMaskSize_le fits
  unfold headerCode flag
  dsimp only
  split <;> split <;> split <;> split <;> split <;> omega

theorem headerCode_fields (coins : CCoins) :
    (headerCode 16 coins).testBit 0 = coins.fCoinBase ∧
    (headerCode 16 coins).testBit 1 = coins.fCoinStake ∧
    (headerCode 16 coins).testBit 2 = unspentAt coins.vout 0 ∧
    (headerCode 16 coins).testBit 3 = unspentAt coins.vout 1 ∧
    headerCode 16 coins / 16 = (calcMaskSize coins.vout).2 -
      (if unspentAt coins.vout 0 || unspentAt coins.vout 1 then 0 else 1) := by
  unfold headerCode flag
  dsimp only
  simp only [Nat.testBit_eq_decide_div_mod_eq]
  cases coins.fCoinBase <;> cases coins.fCoinStake <;> cases unspentAt coins.vout 0 <;>
    cases unspentAt coins.vout 1 <;> simp <;> omega

def keptInt (n : Int32) : Int32 := if 0 ≤ n.toInt then n else Int32.ofNat (n.toInt % 128).toNat

theorem readInt_written (n : Int32) (rest : Bytes) :
    readInt (writeVarInt n.toInt ++ rest) = some (keptInt n, rest) := by
  unfold readInt keptInt
  split
  · rename_i nonneg
    obtain ⟨m, same⟩ := Int.eq_ofNat_of_zero_le nonneg
    have bound := n.toInt_lt
    rw [same, readVarInt_writeVarInt (by omega), Option.map_some]
    have back : Int32.ofNat m = n := by
      apply Int32.toInt_inj.mp
      rw [Int32.toInt_ofNat_of_lt (by omega), same]
    exact congrArg (fun value => some (value, rest)) back
  · rename_i negative
    rw [readVarInt_negative (by decide) (by omega), Option.map_some]

theorem keptInt_iff (n : Int32) : keptInt n = n ↔ 0 ≤ n.toInt := by
  unfold keptInt
  split
  · rename_i nonneg
    exact ⟨fun _ => nonneg, fun _ => rfl⟩
  · rename_i negative
    refine ⟨fun same => ?_, fun nonneg => absurd nonneg negative⟩
    rw [← same, Int32.toInt_ofNat_of_lt (by omega)]
    exact Int.natCast_nonneg _

def keptCoins (coins : CCoins) : CCoins :=
  { fCoinBase := coins.fCoinBase
    fCoinStake := coins.fCoinStake
    vout := (List.range (2 + (calcMaskSize coins.vout).1 * 8)).map (restoredAt coins.vout)
    nHeight := keptInt coins.nHeight
    nVersion := keptInt coins.nVersion : CCoins }.cleanup

structure Bounded (coins : CCoins) : Prop where
  outs : coins.vout.length ≤ maxSize
  scripts : ∀ out ∈ coins.vout, out.scriptPubKey.length ≤ maxSize

theorem unserialize_serialize (lawful : keys.Lawful) (bounded : Bounded coins)
    (written : serialize keys coins = some bytes) (rest : Bytes) :
    unserialize keys (bytes ++ rest) = some (keptCoins coins, rest) := by
  unfold serialize at written
  split at written
  · rename_i assertion
    cases written
    obtain ⟨coinBase, coinStake, first, second, count⟩ := headerCode_fields coins
    have maskCode : headerCode 16 coins / 16 +
        (if unspentAt coins.vout 0 || unspentAt coins.vout 1 then 0 else 1) =
          (calcMaskSize coins.vout).2 := by
      rw [count]
      unfold codable at assertion
      cases front : unspentAt coins.vout 0 || unspentAt coins.vout 1 with
      | true => simp
      | false =>
        rw [front, Bool.false_or, decide_eq_true_eq] at assertion
        simp only [Bool.false_eq_true, if_false]
        omega
    have flags := mask_flags coins.vout
    have agree (i : Nat) : ((List.range (2 + (calcMaskSize coins.vout).1 * 8)).map
        (unspentAt coins.vout)).getD i false = unspentAt coins.vout i := by
      rcases Nat.lt_or_ge i (2 + (calcMaskSize coins.vout).1 * 8) with inside | behind
      · rw [List.getD_eq_getElem?_getD, List.getElem?_map, List.getElem?_range inside]
        rfl
      · rw [unspentAt_behind coins.vout behind, List.getD_eq_getElem?_getD,
          List.getElem?_eq_none (by simpa using behind)]
        rfl
    have outs := readOuts_writeOuts lawful _ agree bounded.scripts
      (writeVarInt coins.nHeight.toInt ++ rest)
    rw [List.length_map, List.length_range] at outs
    unfold unserialize
    simp only [List.append_assoc]
    rw [readInt_written]
    simp only [Option.bind_eq_bind, Option.bind_some]
    rw [readVarInt_writeVarInt (headerCode_lt bounded.outs)]
    simp only [Option.bind_some]
    rw [first, second, maskCode, readMask_mask]
    simp only [Option.bind_some]
    rw [flags, outs]
    simp only [Option.bind_some]
    rw [readInt_written, coinBase, coinStake]
    rfl
  · cases written

theorem isPruned_iff_unspentAt (coins : CCoins) :
    coins.isPruned = true ↔ ∀ i, unspentAt coins.vout i = false := by
  rw [CCoins.isPruned_iff_output]
  apply forall_congr'
  intro i
  rw [unspentAt_eq, Option.isSome_eq_false_iff, Option.isNone_iff_eq_none]
  rfl

theorem codable_iff (coins : CCoins) : codable coins = true ↔ coins.isPruned = false := by
  rw [← Bool.not_eq_true, isPruned_iff_unspentAt]
  have masked := calcMaskSize_masked coins.vout
  constructor
  · intro assertion spent
    unfold codable at assertion
    rw [spent 0, spent 1, Bool.or_self, Bool.false_or, decide_eq_true_eq, masked.nonzero] at assertion
    obtain ⟨b, -, used⟩ := List.countP_pos_iff.mp (Nat.pos_of_ne_zero assertion)
    obtain ⟨i, -, unspent⟩ := List.any_eq_true.mp used
    rw [spent] at unspent
    cases unspent
  · intro some'
    by_contra uncodable
    apply some'
    intro i
    unfold codable at uncodable
    simp only [Bool.or_eq_true, decide_eq_true_eq, not_or, Bool.not_eq_true, ne_eq,
      not_not] at uncodable
    obtain ⟨⟨first, second⟩, none'⟩ := uncodable
    rcases Nat.lt_or_ge i 2 with front | behind
    · rcases Nat.lt_or_ge i 1 with zero | one
      · rw [show i = 0 by omega]
        exact first
      · rw [show i = 1 by omega]
        exact second
    · apply unspentAt_behind
      have empty : (calcMaskSize coins.vout).1 = 0 := by
        rcases masked.last with empty | used
        · exact empty
        · by_contra some''
          rw [masked.nonzero, List.countP_eq_zero] at none'
          exact none' _ (List.mem_range.mpr (Nat.sub_one_lt some'')) used
      omega

theorem output_keptCoins (coins : CCoins) (i : Nat) : (keptCoins coins).output i =
    ((coins.output i).map keptTxOut).filter fun out => !out.isNull := by
  unfold keptCoins
  rw [CCoins.output_cleanup]
  unfold CCoins.output
  have restored : CCoins.outputAt ((List.range (2 + (calcMaskSize coins.vout).1 * 8)).map
      (restoredAt coins.vout)) i = (some (restoredAt coins.vout i)).filter fun out => !out.isNull := by
    unfold CCoins.outputAt
    rcases Nat.lt_or_ge i (2 + (calcMaskSize coins.vout).1 * 8) with inside | behind
    · rw [List.getElem?_map, List.getElem?_range inside]
      rfl
    · have spent := unspentAt_behind coins.vout behind
      rw [unspentAt_eq, Option.isSome_eq_false_iff, Option.isNone_iff_eq_none] at spent
      rw [List.getElem?_eq_none (by simpa using behind), restoredAt, spent]
      rfl
  rw [restored]
  unfold restoredAt
  cases CCoins.outputAt coins.vout i with
  | none => rfl
  | some out => rfl

def stored (out : CTxOut) : CTxOut := { out with nRounds := CTxOut.null.nRounds }

/-- Coins come back from the database as they went in, and took as many bytes as was
    said. -/
def Preserved (keys : PubKeyLibrary) (coins : CCoins) : Prop :=
  ∃ bytes, serialize keys coins = some bytes ∧ getSerializeSize keys coins = some bytes.length ∧
    ∀ rest, ∃ back, unserialize keys (bytes ++ rest) = some (back, rest) ∧
      CCoins.SameMetadata back coins ∧ ∀ i, back.output i = (coins.output i).map stored

/-- No negative number goes through a `VARINT`, every amount left can be compressed, and
    the two header codes take equally many digits. -/
structure Storable (coins : CCoins) : Prop where
  version : 0 ≤ coins.nVersion.toInt
  height : 0 ≤ coins.nHeight.toInt
  amounts : ∀ i out, coins.output i = some out →
    readAmount (compressAmount (amountBits out.nValue)).toNat = out.nValue
  codes : sizeOfVarInt (headerCode 8 coins) = sizeOfVarInt (headerCode 16 coins)

theorem length_writeOuts (keys : PubKeyLibrary) (vout : List CTxOut) :
    (writeOuts keys vout).length =
      (vout.map fun out => if out.isNull then 0 else sizeOfTxOut keys out).sum := by
  unfold writeOuts
  rw [List.length_flatMap]
  congr 1
  apply List.map_congr_left
  intro out _
  split
  · rfl
  · exact length_writeTxOut keys out

theorem sizes_iff (written : serialize keys coins = some bytes) :
    getSerializeSize keys coins = some bytes.length ↔
      sizeOfVarInt (headerCode 8 coins) = sizeOfVarInt (headerCode 16 coins) := by
  unfold serialize at written
  unfold getSerializeSize
  split at written
  · rename_i assertion
    cases written
    rw [if_pos assertion, Option.some.injEq]
    simp only [List.length_append, length_writeVarInt, List.length_map, List.length_range,
      length_writeOuts]
    omega
  · cases written

theorem outputs_iff (coins : CCoins) :
    (∀ i, (keptCoins coins).output i = (coins.output i).map stored) ↔
      ∀ i out, coins.output i = some out →
        readAmount (compressAmount (amountBits out.nValue)).toNat = out.nValue := by
  constructor
  · intro same i out found
    have here := same i
    rw [output_keptCoins, found, Option.map_some, Option.map_some] at here
    have value := Option.filter_eq_some_iff.mp here
    exact congrArg CTxOut.nValue (Option.some.inj value.1)
  · intro kept i
    rw [output_keptCoins]
    cases found : coins.output i with
    | none => rfl
    | some out =>
      have value := kept i out found
      have whole : keptTxOut out = stored out := by
        unfold keptTxOut stored
        rw [value]
      have unspent : out.isNull = false := by
        simpa using (Option.filter_eq_some_iff.mp found).2
      rw [Option.map_some, Option.map_some, whole]
      exact Option.filter_eq_some_iff.mpr ⟨rfl, by simpa [stored, CTxOut.isNull] using unspent⟩

/-- Coins that are not pruned are preserved exactly when they are storable. -/
theorem preserved_iff {keys : PubKeyLibrary} (lawful : keys.Lawful) {coins : CCoins}
    (bounded : Bounded coins) (unpruned : coins.isPruned = false) :
    Preserved keys coins ↔ Storable coins := by
  have assertion := (codable_iff coins).mpr unpruned
  have written : ∃ bytes, serialize keys coins = some bytes := by
    unfold serialize
    rw [if_pos assertion]
    exact ⟨_, rfl⟩
  obtain ⟨bytes, written⟩ := written
  have read := unserialize_serialize lawful bounded written
  constructor
  · rintro ⟨bytes', written', size, back⟩
    rw [written] at written'
    cases written'
    obtain ⟨back, read', metadata, outputs⟩ := back []
    rw [read] at read'
    cases read'
    exact ⟨(keptInt_iff _).mp metadata.2.2.2, (keptInt_iff _).mp metadata.2.2.1,
      (outputs_iff coins).mp outputs, (sizes_iff written).mp size⟩
  · intro storable
    refine ⟨bytes, written, (sizes_iff written).mpr storable.codes, fun rest =>
      ⟨keptCoins coins, read rest, ⟨rfl, rfl, ?_, ?_⟩, (outputs_iff coins).mpr storable.amounts⟩⟩
    · exact (keptInt_iff _).mpr storable.height
    · exact (keptInt_iff _).mpr storable.version

def noKeys : PubKeyLibrary := ⟨fun _ => false, fun _ => none⟩

theorem noKeys_lawful : noKeys.Lawful := fun _ _ _ valid => absurd valid Bool.false_ne_true

def payment (nVersion : Int32) (count : Nat) : CTransaction :=
  ⟨nVersion, [⟨⟨1, 0⟩, [], 0⟩], List.replicate count ⟨100000000, [OxidScript.OP_DUP], -10⟩, 0⟩

theorem payment_vout (nVersion : Int32) (count : Nat) :
    (CCoins.fromTx (payment nVersion count) 100).vout =
      List.replicate count ⟨100000000, [OxidScript.OP_DUP], -10⟩ := by
  unfold CCoins.fromTx CCoins.clearUnspendable CCoins.cleanup payment
  rw [List.map_replicate, if_neg (by decide)]
  cases count with
  | zero => rfl
  | succ count =>
    rw [List.replicate_succ', List.rdropWhile_concat_neg _ _ _ (by decide)]

theorem payment_bounded (nVersion : Int32) {count : Nat} (fits : count ≤ maxSize) :
    Bounded (CCoins.fromTx (payment nVersion count) 100) where
  outs := by
    rw [payment_vout, List.length_replicate]
    exact fits
  scripts out member := by
    rw [payment_vout] at member
    rw [(List.mem_replicate.mp member).2]
    decide

theorem small_payment_preserved : Preserved noKeys (CCoins.fromTx (payment 1 2) 100) := by
  apply (preserved_iff noKeys_lawful (payment_bounded 1 (by decide)) (by decide)).mpr
  refine ⟨by decide, by decide, ?_, by decide +kernel⟩
  intro i out found
  unfold CCoins.output CCoins.outputAt at found
  rw [payment_vout] at found
  have member := List.mem_of_getElem? (Option.filter_eq_some_iff.mp found).1
  rw [(List.mem_replicate.mp member).2]
  decide +kernel

theorem payments_not_preserved :
    ((CCoins.fromTx (payment (-1) 1) 100).isPruned = false ∧
      ¬Preserved noKeys (CCoins.fromTx (payment (-1) 1) 100)) ∧
    ((CCoins.fromTx (payment 1 66) 100).isPruned = false ∧
      ¬Preserved noKeys (CCoins.fromTx (payment 1 66) 100)) := by
  refine ⟨⟨by decide, ?_⟩, by decide +kernel, ?_⟩
  · rintro ⟨bytes, written, -, back⟩
    obtain ⟨back, read, metadata, -⟩ := back []
    rw [unserialize_serialize noKeys_lawful (payment_bounded (-1) (by decide)) written] at read
    cases read
    exact absurd metadata.2.2.2 (by decide)
  · rintro ⟨bytes, written, size, -⟩
    exact absurd ((sizes_iff written).mp size) (by decide +kernel)

end OxidCoinsSerialize
