import Oxid.Primitives
import Oxid.Library.Reserving

/-!
The places of blocks and undo data in the numbered files, and what is written down about
each file. Sizes and positions are words of 32 bits. The file system answers only whether a
number of bytes is left on the disk.
-/
namespace OxidBlockFiles
open Reserving

def MAX_BLOCKFILE_SIZE : UInt32 := 0x8000000
def BLOCKFILE_CHUNK_SIZE : UInt32 := 0x1000000
def UNDOFILE_CHUNK_SIZE : UInt32 := 0x100000

structure CBlockFileInfo where
  nBlocks : UInt32
  nSize : UInt32
  nUndoSize : UInt32
  nHeightFirst : UInt32
  nHeightLast : UInt32
  nTimeFirst : UInt64
  nTimeLast : UInt64
deriving DecidableEq

/-- `SetNull`. -/
def CBlockFileInfo.null : CBlockFileInfo := ⟨0, 0, 0, 0, 0, 0, 0⟩

def CBlockFileInfo.addBlock (info : CBlockFileInfo) (nHeightIn : UInt32) (nTimeIn : UInt64) :
    CBlockFileInfo :=
  { info with
    nHeightFirst := if info.nBlocks = 0 ∨ nHeightIn < info.nHeightFirst then nHeightIn
      else info.nHeightFirst
    nTimeFirst := if info.nBlocks = 0 ∨ nTimeIn < info.nTimeFirst then nTimeIn
      else info.nTimeFirst
    nBlocks := info.nBlocks + 1
    nHeightLast := if info.nHeightLast < nHeightIn then nHeightIn else info.nHeightLast
    nTimeLast := if info.nTimeLast < nTimeIn then nTimeIn else info.nTimeLast }

structure CDiskBlockPos where
  nFile : Nat
  nPos : UInt32
deriving DecidableEq

structure BlockFiles where
  vinfoBlockFile : List CBlockFileInfo
  nLastBlockFile : Nat
  setDirtyFileInfo : Finset Nat

def infoAt (vinfoBlockFile : List CBlockFileInfo) (nFile : Nat) : CBlockFileInfo :=
  vinfoBlockFile[nFile]?.getD .null

def resized (vinfoBlockFile : List CBlockFileInfo) (nFile : Nat) : List CBlockFileInfo :=
  vinfoBlockFile ++ List.replicate (nFile + 1 - vinfoBlockFile.length) .null

def leaveFull (nAddSize : UInt32) :
    Nat → Nat → List CBlockFileInfo → Option (Nat × List CBlockFileInfo)
  | 0, _, _ => none
  | left + 1, nFile, vinfoBlockFile =>
    let vinfoBlockFile := resized vinfoBlockFile nFile
    if MAX_BLOCKFILE_SIZE ≤ (infoAt vinfoBlockFile nFile).nSize + nAddSize then
      leaveFull nAddSize left (nFile + 1) vinfoBlockFile
    else some (nFile, vinfoBlockFile)

def hasRoom (chunkSize : UInt32) (checkDiskSpace : UInt32 → Bool) (nPos nNewSize : UInt32) : Bool :=
  let nOldChunks := (nPos + chunkSize - 1) / chunkSize
  let nNewChunks := (nNewSize + chunkSize - 1) / chunkSize
  if nOldChunks < nNewChunks then checkDiskSpace (nNewChunks * chunkSize - nPos) else true

/-- What `FindBlockPos` is asked for. -/
structure BlockRequest where
  nAddSize : UInt32
  nHeight : UInt32
  nTime : UInt64
  checkDiskSpace : UInt32 → Bool

/-- `FindBlockPos`: whether it succeeds, the position and what is written down. Nothing where it
    never ends: no file has room. -/
def findBlockPos (files : BlockFiles) (known : Option CDiskBlockPos) (request : BlockRequest) :
    Option (Bool × CDiskBlockPos × BlockFiles) :=
  match known with
  | some pos =>
    let vinfoBlockFile := resized files.vinfoBlockFile pos.nFile
    let info := (infoAt vinfoBlockFile pos.nFile).addBlock request.nHeight request.nTime
    let nEnd := pos.nPos + request.nAddSize
    let info := { info with nSize := if nEnd < info.nSize then info.nSize else nEnd }
    some (true, pos, ⟨vinfoBlockFile.set pos.nFile info, pos.nFile,
      insert pos.nFile files.setDirtyFileInfo⟩)
  | none =>
    match leaveFull request.nAddSize (files.vinfoBlockFile.length + 1) files.nLastBlockFile
      files.vinfoBlockFile with
    | none => none
    | some (nFile, vinfoBlockFile) =>
      let nPos := (infoAt vinfoBlockFile nFile).nSize
      let info := (infoAt vinfoBlockFile nFile).addBlock request.nHeight request.nTime
      let info := { info with nSize := info.nSize + request.nAddSize }
      let room := hasRoom BLOCKFILE_CHUNK_SIZE request.checkDiskSpace nPos info.nSize
      some (room, ⟨nFile, nPos⟩, ⟨vinfoBlockFile.set nFile info, nFile,
        if room then insert nFile files.setDirtyFileInfo else files.setDirtyFileInfo⟩)

def findUndoPos (files : BlockFiles) (nFile : Nat) (nAddSize : UInt32)
    (checkDiskSpace : UInt32 → Bool) : Option (Bool × CDiskBlockPos × BlockFiles) :=
  match files.vinfoBlockFile[nFile]? with
  | none => none
  | some info =>
    let nPos := info.nUndoSize
    let nNewSize := info.nUndoSize + nAddSize
    some (hasRoom UNDOFILE_CHUNK_SIZE checkDiskSpace nPos nNewSize, ⟨nFile, nPos⟩,
      { files with
        vinfoBlockFile := files.vinfoBlockFile.set nFile { info with nUndoSize := nNewSize }
        setDirtyFileInfo := insert nFile files.setDirtyFileInfo })

structure StoredBlock where
  nFile : Nat
  fKnown : Bool
  nPos : UInt32
  nAddSize : UInt32
  nHeight : UInt32
  nTime : UInt64

structure StoredUndo where
  nFile : Nat
  nPos : UInt32
  nAddSize : UInt32

def StoredBlock.range (block : StoredBlock) : Range :=
  ⟨block.nPos.toNat, block.nAddSize.toNat, block.fKnown⟩

def StoredUndo.range (undo : StoredUndo) : Range := ⟨undo.nPos.toNat, undo.nAddSize.toNat, false⟩

/-- The files a run begins with: no heights and times where there are no blocks, and ordered ones
    where there are. -/
def Booked (info : CBlockFileInfo) : Prop :=
  if info.nBlocks = 0 then info.nHeightLast = 0 ∧ info.nTimeLast = 0
  else info.nHeightFirst ≤ info.nHeightLast ∧ info.nTimeFirst ≤ info.nTimeLast

/-- Calls one after another, each of which takes its range whether or not it then finds the
    disk full. -/
inductive Run (start : BlockFiles) : List StoredBlock → List StoredUndo → BlockFiles → Prop
  | start (booked : ∀ info ∈ start.vinfoBlockFile, Booked info) : Run start [] [] start
  | block {blocks : List StoredBlock} {undos : List StoredUndo} {files files' : BlockFiles}
      {known : Option CDiskBlockPos} {request : BlockRequest} {succeeds : Bool}
      {pos : CDiskBlockPos} (run : Run start blocks undos files)
      (found : findBlockPos files known request = some (succeeds, pos, files')) :
      Run start (blocks ++ [⟨pos.nFile, known.isSome, pos.nPos, request.nAddSize,
        request.nHeight, request.nTime⟩]) undos files'
  | undo {blocks : List StoredBlock} {undos : List StoredUndo} {files files' : BlockFiles}
      {nFile : Nat} {nAddSize : UInt32} {checkDiskSpace : UInt32 → Bool} {succeeds : Bool}
      {pos : CDiskBlockPos} (run : Run start blocks undos files)
      (found : findUndoPos files nFile nAddSize checkDiskSpace = some (succeeds, pos, files')) :
      Run start blocks (undos ++ [⟨pos.nFile, pos.nPos, nAddSize⟩]) files'

def blocksIn (nFile : Nat) (blocks : List StoredBlock) : List StoredBlock :=
  blocks.filter fun block => decide (block.nFile = nFile)

def undosIn (nFile : Nat) (undos : List StoredUndo) : List StoredUndo :=
  undos.filter fun undo => decide (undo.nFile = nFile)

def Spans (first last : Nat) (numbers : Set Nat) : Prop :=
  numbers.Nonempty → IsLeast numbers first ∧ IsGreatest numbers last

def numbersOf (before : CBlockFileInfo) (first last : Nat) (numbers : List Nat) : Set Nat :=
  {number | before.nBlocks ≠ 0 ∧ (number = first ∨ number = last) ∨ number ∈ numbers}

def heightsOf (before : CBlockFileInfo) (blocks : List StoredBlock) : Set Nat :=
  numbersOf before before.nHeightFirst.toNat before.nHeightLast.toNat
    (blocks.map fun block => block.nHeight.toNat)

def timesOf (before : CBlockFileInfo) (blocks : List StoredBlock) : Set Nat :=
  numbersOf before before.nTimeFirst.toNat before.nTimeLast.toNat
    (blocks.map fun block => block.nTime.toNat)

/-- What is written down about a file, by what it began with and what was put into it. -/
structure Accounted (before after : CBlockFileInfo) (blocks : List StoredBlock)
    (undos : List StoredUndo) : Prop where
  blocksApart : blocks.Pairwise fun earlier later =>
    later.fKnown = false → earlier.range.stop ≤ later.range.start
  blocksBehind : ∀ block ∈ blocks, block.fKnown = false →
    before.nSize.toNat ≤ block.range.start
  undosApart : undos.Pairwise fun earlier later => earlier.range.stop ≤ later.range.start
  undosBehind : ∀ undo ∈ undos, before.nUndoSize.toNat ≤ undo.range.start
  size : IsGreatest {stop | stop = before.nSize.toNat ∨
    ∃ block ∈ blocks, block.range.stop = stop} after.nSize.toNat
  undoSize : IsGreatest {stop | stop = before.nUndoSize.toNat ∨
    ∃ undo ∈ undos, undo.range.stop = stop} after.nUndoSize.toNat
  counted : after.nBlocks.toNat = before.nBlocks.toNat + blocks.length
  heights : Spans after.nHeightFirst.toNat after.nHeightLast.toNat (heightsOf before blocks)
  times : Spans after.nTimeFirst.toNat after.nTimeLast.toNat (timesOf before blocks)

structure Fits (start : BlockFiles) (blocks : List StoredBlock) (undos : List StoredUndo) :
    Prop where
  blockEnds : ∀ block ∈ blocks, block.range.stop < 2 ^ 32
  undoEnds : ∀ undo ∈ undos, undo.range.stop < 2 ^ 32
  counts : ∀ nFile, (infoAt start.vinfoBlockFile nFile).nBlocks.toNat +
    (blocksIn nFile blocks).length < 2 ^ 32

section Vector
variable {vinfoBlockFile : List CBlockFileInfo}

theorem infoAt_resized (nFile other : Nat) :
    infoAt (resized vinfoBlockFile nFile) other = infoAt vinfoBlockFile other := by
  unfold infoAt resized
  rw [List.getElem?_append]
  split
  · rfl
  · rename_i outside
    have none' : vinfoBlockFile[other]? = none := List.getElem?_eq_none (by omega)
    rw [none', List.getElem?_replicate]
    split <;> rfl

theorem resized_length (nFile : Nat) : nFile < (resized vinfoBlockFile nFile).length := by
  unfold resized
  rw [List.length_append, List.length_replicate]
  omega

theorem infoAt_set {nFile : Nat} (inside : nFile < vinfoBlockFile.length) (info : CBlockFileInfo)
    (other : Nat) : infoAt (vinfoBlockFile.set nFile info) other =
      if other = nFile then info else infoAt vinfoBlockFile other := by
  unfold infoAt
  by_cases same : other = nFile
  · rw [if_pos same, same, List.getElem?_set_self inside]
    rfl
  · rw [if_neg same, List.getElem?_set_ne (Ne.symm same)]

theorem leaveFull_infos {nAddSize : UInt32} {left nFile found : Nat}
    {vinfoBlockFile' : List CBlockFileInfo}
    (ends : leaveFull nAddSize left nFile vinfoBlockFile = some (found, vinfoBlockFile')) :
    found < vinfoBlockFile'.length ∧
      ∀ other, infoAt vinfoBlockFile' other = infoAt vinfoBlockFile other := by
  induction left generalizing nFile vinfoBlockFile with
  | zero => cases ends
  | succ left ih =>
    rw [leaveFull] at ends
    split at ends
    · obtain ⟨inside, same⟩ := ih ends
      exact ⟨inside, fun other => (same other).trans (infoAt_resized nFile other)⟩
    · cases ends
      exact ⟨resized_length _, infoAt_resized _⟩

theorem leaveFull_ends {nAddSize : UInt32} (small : nAddSize < MAX_BLOCKFILE_SIZE) (left nFile : Nat)
    (enough : vinfoBlockFile.length + 1 ≤ nFile + left) (some' : 0 < left) :
    (leaveFull nAddSize left nFile vinfoBlockFile).isSome := by
  induction left generalizing nFile vinfoBlockFile with
  | zero => omega
  | succ left ih =>
    rw [leaveFull]
    split
    · rename_i full
      by_cases outside : vinfoBlockFile.length ≤ nFile
      · have empty : infoAt vinfoBlockFile nFile = .null := by
          unfold infoAt
          rw [List.getElem?_eq_none outside]
          rfl
        rw [infoAt_resized, empty] at full
        rw [UInt32.le_iff_toNat_le] at full
        rw [UInt32.lt_iff_toNat_lt] at small
        have sum : (CBlockFileInfo.null.nSize + nAddSize).toNat = nAddSize.toNat := by
          show ((0 : UInt32) + nAddSize).toNat = _
          rw [UInt32.zero_add]
        omega
      · refine ih (nFile + 1) ?_ (by omega)
        have length : (resized vinfoBlockFile nFile).length = vinfoBlockFile.length := by
          unfold resized
          rw [List.length_append, List.length_replicate]
          omega
        omega
    · rfl

end Vector

def StoredBlock.recorded (block : StoredBlock) (info : CBlockFileInfo) : CBlockFileInfo :=
  let counted := info.addBlock block.nHeight block.nTime
  let nEnd := block.nPos + block.nAddSize
  { counted with nSize := if block.fKnown = true ∧ nEnd < info.nSize then info.nSize else nEnd }

def StoredUndo.recorded (undo : StoredUndo) (info : CBlockFileInfo) : CBlockFileInfo :=
  { info with nUndoSize := undo.nPos + undo.nAddSize }

section Calls
variable {files files' : BlockFiles} {succeeds : Bool} {pos : CDiskBlockPos}

theorem findBlockPos_infos {known : Option CDiskBlockPos} {request : BlockRequest}
    (found : findBlockPos files known request = some (succeeds, pos, files')) :
    (known = none → pos.nPos = (infoAt files.vinfoBlockFile pos.nFile).nSize) ∧
    ∀ other, infoAt files'.vinfoBlockFile other =
      if other = pos.nFile then
        StoredBlock.recorded ⟨pos.nFile, known.isSome, pos.nPos, request.nAddSize,
          request.nHeight, request.nTime⟩ (infoAt files.vinfoBlockFile other)
      else infoAt files.vinfoBlockFile other := by
  unfold findBlockPos at found
  cases known with
  | some given =>
    cases found
    constructor
    · intro none'
      cases none'
    intro other
    rw [infoAt_set (resized_length _), infoAt_resized, infoAt_resized]
    split
    · rename_i same
      rw [same]
      simp only [StoredBlock.recorded, Option.isSome_some, true_and]
      rfl
    · rfl
  | none =>
    cases ends : leaveFull request.nAddSize (files.vinfoBlockFile.length + 1)
        files.nLastBlockFile files.vinfoBlockFile with
    | none =>
      rw [ends] at found
      cases found
    | some left' =>
      obtain ⟨inside, same⟩ := leaveFull_infos ends
      rw [ends] at found
      cases found
      refine ⟨fun _ => by rw [same], ?_⟩
      intro other
      rw [infoAt_set inside, same, same]
      split
      · rename_i here
        rw [here]
        rfl
      · rfl

theorem findUndoPos_infos {nFile : Nat} {nAddSize : UInt32} {checkDiskSpace : UInt32 → Bool}
    (found : findUndoPos files nFile nAddSize checkDiskSpace = some (succeeds, pos, files')) :
    pos.nPos = (infoAt files.vinfoBlockFile pos.nFile).nUndoSize ∧
    ∀ other, infoAt files'.vinfoBlockFile other =
      if other = pos.nFile then
        StoredUndo.recorded ⟨pos.nFile, pos.nPos, nAddSize⟩ (infoAt files.vinfoBlockFile other)
      else infoAt files.vinfoBlockFile other := by
  unfold findUndoPos at found
  cases here : files.vinfoBlockFile[nFile]? with
  | none =>
    rw [here] at found
    cases found
  | some info =>
    rw [here] at found
    have inside := (List.getElem?_eq_some_iff.mp here).1
    have same : infoAt files.vinfoBlockFile nFile = info := by
      unfold infoAt
      rw [here]
      rfl
    cases found
    refine ⟨by rw [same], ?_⟩
    intro other
    rw [infoAt_set inside]
    split
    · rename_i at'
      rw [at', same]
      rfl
    · rfl

theorem findBlockPos_ends (files : BlockFiles) {request : BlockRequest}
    (small : request.nAddSize < MAX_BLOCKFILE_SIZE) (known : Option CDiskBlockPos) :
    (findBlockPos files known request).isSome := by
  unfold findBlockPos
  cases known with
  | some given => rfl
  | none =>
    have ends := leaveFull_ends small (files.vinfoBlockFile.length + 1) files.nLastBlockFile
      (show files.vinfoBlockFile.length + 1 ≤ _ by omega) (Nat.succ_pos _)
    obtain ⟨left', found⟩ := Option.isSome_iff_exists.mp ends
    rw [found]
    rfl

end Calls

section Keeping

def Tracks (counted first last : Nat) (numbers : Set Nat) : Prop :=
  (counted = 0 → numbers = ∅ ∧ last = 0) ∧
    (counted ≠ 0 → IsLeast numbers first ∧ IsGreatest numbers last)

theorem Tracks.insert {counted first last number : Nat} {numbers : Set Nat}
    (tracks : Tracks counted first last numbers) : Tracks (counted + 1)
      (if counted = 0 ∨ number < first then number else first)
      (if last < number then number else last) (insert number numbers) := by
  refine ⟨fun none' => by omega, fun _ => ?_⟩
  by_cases empty : counted = 0
  · obtain ⟨nothing, lowest⟩ := tracks.1 empty
    rw [if_pos (Or.inl empty), nothing, lowest, insert_empty_eq,
      show (if 0 < number then number else 0) = number by split <;> omega]
    exact ⟨isLeast_singleton, isGreatest_singleton⟩
  · obtain ⟨least, greatest⟩ := tracks.2 empty
    have low : (if counted = 0 ∨ number < first then number else first) = min number first := by
      rw [min_def]
      split <;> split <;> omega
    have high : (if last < number then number else last) = max number last := by
      rw [max_def]
      split <;> split <;> omega
    rw [low, high]
    exact ⟨least.insert number, greatest.insert number⟩

theorem Tracks.spans {counted first last : Nat} {numbers : Set Nat}
    (tracks : Tracks counted first last numbers) : Spans first last numbers := by
  rintro ⟨number, member⟩
  refine tracks.2 fun none' => ?_
  rw [(tracks.1 none').1] at member
  exact member

structure Kept (before after : CBlockFileInfo) (blocks : List StoredBlock)
    (undos : List StoredUndo) : Prop where
  sizes : Reserves before.nSize.toNat (blocks.map StoredBlock.range) after.nSize.toNat
  undoSizes : Reserves before.nUndoSize.toNat (undos.map StoredUndo.range) after.nUndoSize.toNat
  counted : after.nBlocks.toNat = before.nBlocks.toNat + blocks.length
  heights : Tracks after.nBlocks.toNat after.nHeightFirst.toNat after.nHeightLast.toNat
    (heightsOf before blocks)
  times : Tracks after.nBlocks.toNat after.nTimeFirst.toNat after.nTimeLast.toNat
    (timesOf before blocks)

theorem zero_iff (number : UInt32) : number = 0 ↔ number.toNat = 0 := by
  rw [← UInt32.toNat_inj]
  rfl

theorem tracks_start {before : CBlockFileInfo} {first last : Nat}
    (none' : before.nBlocks = 0 → last = 0) (ordered : before.nBlocks ≠ 0 → first ≤ last) :
    Tracks before.nBlocks.toNat first last (numbersOf before first last []) := by
  unfold numbersOf
  constructor
  · intro empty
    have nothing := (zero_iff _).mpr empty
    refine ⟨?_, none' nothing⟩
    simp [nothing]
  · intro some'
    have counted : before.nBlocks ≠ 0 := fun empty => some' ((zero_iff _).mp empty)
    have le := ordered counted
    simp only [ne_eq, counted, not_false_eq_true, true_and, List.not_mem_nil, or_false]
    constructor
    · refine ⟨Or.inl rfl, ?_⟩
      rintro number (rfl | rfl) <;> omega
    · refine ⟨Or.inr rfl, ?_⟩
      rintro number (rfl | rfl) <;> omega

theorem kept_start {info : CBlockFileInfo} (booked : Booked info) : Kept info info [] [] := by
  unfold Booked at booked
  refine ⟨.nothing, .nothing, rfl, tracks_start ?_ ?_, tracks_start ?_ ?_⟩
  · intro none'
    rw [if_pos none'] at booked
    rw [booked.1]
    rfl
  · intro some'
    rw [if_neg some'] at booked
    exact UInt32.le_iff_toNat_le.mp booked.1
  · intro none'
    rw [if_pos none'] at booked
    rw [booked.2]
    rfl
  · intro some'
    rw [if_neg some'] at booked
    exact UInt64.le_iff_toNat_le.mp booked.2

theorem numbersOf_append (before : CBlockFileInfo) (first last number : Nat) (numbers : List Nat) :
    numbersOf before first last (numbers ++ [number]) =
      insert number (numbersOf before first last numbers) := by
  ext other
  unfold numbersOf
  simp only [Set.mem_insert_iff, Set.mem_ofPred_eq, List.mem_append, List.mem_singleton]
  tauto

variable {before after : CBlockFileInfo} {blocks : List StoredBlock} {undos : List StoredUndo}

theorem height_words (counted number first last : UInt32) :
    (if counted = 0 ∨ number < first then number else first).toNat =
      (if counted.toNat = 0 ∨ number.toNat < first.toNat then number.toNat else first.toNat) ∧
    (if last < number then number else last).toNat =
      if last.toNat < number.toNat then number.toNat else last.toNat := by
  simp only [zero_iff, UInt32.lt_iff_toNat_lt]
  constructor <;> split <;> rfl

theorem time_words (counted : UInt32) (number first last : UInt64) :
    (if counted = 0 ∨ number < first then number else first).toNat =
      (if counted.toNat = 0 ∨ number.toNat < first.toNat then number.toNat else first.toNat) ∧
    (if last < number then number else last).toNat =
      if last.toNat < number.toNat then number.toNat else last.toNat := by
  simp only [zero_iff, UInt64.lt_iff_toNat_lt]
  constructor <;> split <;> rfl

theorem recorded_reserves {begun : Nat} {block : StoredBlock} {ranges : List Range}
    (reserves : Reserves begun ranges after.nSize.toNat) (fits : block.range.stop < 2 ^ 32)
    (taken : block.fKnown = false → block.nPos = after.nSize) :
    Reserves begun (ranges ++ [block.range]) (block.recorded after).nSize.toNat := by
  have stop : (block.nPos + block.nAddSize).toNat = block.nPos.toNat + block.nAddSize.toNat := by
    exact Nat.mod_eq_of_lt fits
  cases known : block.fKnown with
  | false =>
    have place := taken known
    have range : block.range = ⟨after.nSize.toNat, block.nAddSize.toNat, false⟩ := by
      unfold StoredBlock.range
      rw [place, known]
    have size : (block.recorded after).nSize.toNat =
        after.nSize.toNat + block.nAddSize.toNat := by
      unfold StoredBlock.recorded
      rw [known]
      simp only [Bool.false_eq_true, false_and, if_false]
      rw [stop, place]
    rw [range, size]
    exact reserves.next _
  | true =>
    have range : block.range = ⟨block.nPos.toNat, block.nAddSize.toNat, true⟩ := by
      unfold StoredBlock.range
      rw [known]
    have size : (block.recorded after).nSize.toNat =
        max (block.nPos.toNat + block.nAddSize.toNat) after.nSize.toNat := by
      unfold StoredBlock.recorded
      rw [known]
      simp only [true_and, UInt32.lt_iff_toNat_lt, stop]
      split
      · rw [max_eq_right (by omega)]
      · rw [max_eq_left (by omega), stop]
    rw [range, size]
    exact reserves.given _ _

theorem kept_block (kept : Kept before after blocks undos) {block : StoredBlock}
    (fits : block.range.stop < 2 ^ 32)
    (few : before.nBlocks.toNat + (blocks ++ [block]).length < 2 ^ 32)
    (taken : block.fKnown = false → block.nPos = after.nSize) :
    Kept before (block.recorded after) (blocks ++ [block]) undos := by
  rw [List.length_append, List.length_singleton] at few
  have counted := kept.counted
  have count : (after.nBlocks + 1).toNat = after.nBlocks.toNat + 1 := by
    rw [UInt32.toNat_add]
    exact Nat.mod_eq_of_lt (by rw [UInt32.toNat_one]; omega)
  have first := height_words after.nBlocks block.nHeight after.nHeightFirst after.nHeightLast
  have times := time_words after.nBlocks block.nTime after.nTimeFirst after.nTimeLast
  refine ⟨?_, kept.undoSizes, ?_, ?_, ?_⟩
  · rw [List.map_append, List.map_singleton]
    exact recorded_reserves kept.sizes fits taken
  · show (after.nBlocks + 1).toNat = _
    rw [count, List.length_append, List.length_singleton]
    omega
  · show Tracks (after.nBlocks + 1).toNat (if _ then _ else _ : UInt32).toNat
      (if _ then _ else _ : UInt32).toNat _
    unfold heightsOf
    rw [count, first.1, first.2, List.map_append, List.map_singleton, numbersOf_append]
    exact kept.heights.insert
  · show Tracks (after.nBlocks + 1).toNat (if _ then _ else _ : UInt64).toNat
      (if _ then _ else _ : UInt64).toNat _
    unfold timesOf
    rw [count, times.1, times.2, List.map_append, List.map_singleton, numbersOf_append]
    exact kept.times.insert

theorem kept_undo (kept : Kept before after blocks undos) {undo : StoredUndo}
    (fits : undo.range.stop < 2 ^ 32) (taken : undo.nPos = after.nUndoSize) :
    Kept before (undo.recorded after) blocks (undos ++ [undo]) := by
  have stop : (undo.nPos + undo.nAddSize).toNat = undo.nPos.toNat + undo.nAddSize.toNat := by
    exact Nat.mod_eq_of_lt fits
  have size : (undo.recorded after).nUndoSize.toNat =
      after.nUndoSize.toNat + undo.nAddSize.toNat := by
    unfold StoredUndo.recorded
    rw [stop, taken]
  refine ⟨kept.sizes, ?_, kept.counted, kept.heights, kept.times⟩
  rw [List.map_append, List.map_singleton, StoredUndo.range, taken, size]
  exact kept.undoSizes.next _

theorem Kept.accounted (kept : Kept before after blocks undos) :
    Accounted before after blocks undos where
  blocksApart := List.pairwise_map.mp kept.sizes.apart
  blocksBehind := by
    intro block member
    exact kept.sizes.behind _ (List.mem_map_of_mem member)
  undosApart := by
    refine (List.pairwise_map.mp kept.undoSizes.apart).imp ?_
    intro earlier later apart
    exact apart rfl
  undosBehind := by
    intro undo member
    exact kept.undoSizes.behind _ (List.mem_map_of_mem member) rfl
  size := by
    have greatest := kept.sizes.greatest
    simpa using greatest
  undoSize := by
    have greatest := kept.undoSizes.greatest
    simpa using greatest
  counted := kept.counted
  heights := kept.heights.spans
  times := kept.times.spans

end Keeping

section Runs
variable {start files : BlockFiles} {blocks : List StoredBlock} {undos : List StoredUndo}

theorem booked_null : Booked .null := by
  unfold Booked
  exact ⟨rfl, rfl⟩

theorem infoAt_booked {vinfoBlockFile : List CBlockFileInfo}
    (booked : ∀ info ∈ vinfoBlockFile, Booked info) (nFile : Nat) :
    Booked (infoAt vinfoBlockFile nFile) := by
  unfold infoAt
  cases here : vinfoBlockFile[nFile]? with
  | none => exact booked_null
  | some info => exact booked info (List.mem_of_getElem? here)

theorem filter_concat {α : Type} (keeps : α → Prop) [DecidablePred keeps] (items : List α)
    (item : α) : (items ++ [item]).filter (fun one => decide (keeps one)) =
      if keeps item then items.filter (fun one => decide (keeps one)) ++ [item]
      else items.filter fun one => decide (keeps one) := by
  split
  · rename_i kept
    simp [kept]
  · rename_i dropped
    simp [dropped]

theorem Fits.earlier {block : StoredBlock} (fits : Fits start (blocks ++ [block]) undos) :
    Fits start blocks undos := by
  refine ⟨fun one member => fits.blockEnds one (List.mem_append_left _ member), fits.undoEnds, ?_⟩
  intro nFile
  have count := fits.counts nFile
  unfold blocksIn at count ⊢
  rw [List.filter_append, List.length_append] at count
  omega

theorem Fits.earlierUndo {undo : StoredUndo} (fits : Fits start blocks (undos ++ [undo])) :
    Fits start blocks undos :=
  ⟨fits.blockEnds, fun one member => fits.undoEnds one (List.mem_append_left _ member), fits.counts⟩

theorem Run.kept (run : Run start blocks undos files) (fits : Fits start blocks undos)
    (nFile : Nat) : Kept (infoAt start.vinfoBlockFile nFile) (infoAt files.vinfoBlockFile nFile)
      (blocksIn nFile blocks) (undosIn nFile undos) := by
  induction run with
  | start booked => exact kept_start (infoAt_booked booked nFile)
  | @block blocks undos files files' known request succeeds pos run found ih =>
    have before := ih fits.earlier
    have ends := fits.blockEnds _ (List.mem_append_right _ List.mem_cons_self)
    have few := fits.counts nFile
    obtain ⟨taken, infos⟩ := findBlockPos_infos found
    unfold blocksIn at before few ⊢
    rw [filter_concat] at few ⊢
    rw [infos]
    by_cases here : pos.nFile = nFile
    · rw [if_pos here] at few ⊢
      rw [if_pos here.symm]
      refine kept_block before ends few ?_
      intro unknown
      rw [← here]
      exact taken (Option.isNone_iff_eq_none.mp (Option.isSome_eq_false_iff.mp unknown))
    · rw [if_neg here]
      rw [if_neg (Ne.symm here)]
      exact before
  | @undo blocks undos files files' inFile nAddSize checkDiskSpace succeeds pos run found ih =>
    have before := ih fits.earlierUndo
    have ends := fits.undoEnds _ (List.mem_append_right _ List.mem_cons_self)
    obtain ⟨taken, infos⟩ := findUndoPos_infos found
    unfold undosIn at before ⊢
    rw [filter_concat, infos]
    by_cases here : pos.nFile = nFile
    · rw [if_pos here, if_pos here.symm]
      refine kept_undo before ends ?_
      rw [← here]
      exact taken
    · rw [if_neg here, if_neg (Ne.symm here)]
      exact before

end Runs

def noFiles : BlockFiles := ⟨[], 0, ∅⟩

def oneFile (nBlocks : UInt32) : BlockFiles :=
  ⟨[⟨nBlocks, 300, 0, 1, 1, 1540000000, 1540000000⟩], 0, {0}⟩

def someBlock : BlockRequest := ⟨300, 1, 1540000000, fun _ => true⟩

def storedBlock : StoredBlock := ⟨0, false, 0, 300, 1, 1540000000⟩

theorem one_block_run : Run noFiles [storedBlock] [] (oneFile 1) := by
  have begun : Run noFiles [] [] noFiles := .start (by simp [noFiles])
  have found : findBlockPos noFiles none someBlock = some (true, ⟨0, 0⟩, oneFile 1) := rfl
  exact begun.block found

theorem noFiles_fits {blocks : List StoredBlock}
    (ends : ∀ block ∈ blocks, block.range.stop < 2 ^ 32) (few : blocks.length < 2 ^ 32) :
    Fits noFiles blocks [] := by
  refine ⟨ends, by simp, ?_⟩
  intro nFile
  have fewer : (blocksIn nFile blocks).length ≤ blocks.length := List.length_filter_le _ _
  have empty : (infoAt noFiles.vinfoBlockFile nFile).nBlocks.toNat = 0 := rfl
  omega

def Apart (blocks : List StoredBlock) : Prop :=
  blocks.Pairwise fun earlier later => earlier.nFile = later.nFile →
    earlier.range.stop ≤ later.range.start ∨ later.range.stop ≤ earlier.range.start

def Inside (files : BlockFiles) (undos : List StoredUndo) : Prop :=
  ∀ undo ∈ undos, undo.range.stop ≤ (infoAt files.vinfoBlockFile undo.nFile).nUndoSize.toNat

def undoFile (nUndoSize : UInt32) : BlockFiles := ⟨[⟨1, 300, nUndoSize, 1, 1, 7, 7⟩], 0, {0}⟩

end OxidBlockFiles
