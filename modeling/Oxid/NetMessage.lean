import Oxid.Library.Framing
import Oxid.Library.Rounds
import Oxid.Library.Runs
import Oxid.Script

/-!
Messages as they come in from a peer. The data buffer is sized ahead of what has arrived, so
it depends on the pieces; what has been taken up does not.
-/
namespace OxidNetMessage
open OxidScript Framing Rounds Runs

abbrev Bytes := List UInt8

def MAX_PROTOCOL_MESSAGE_LENGTH : Nat := 2 * 1024 * 1024
def HEADER_SIZE : Nat := 24

structure CMessageHeader where
  pchMessageStart : Bytes
  pchCommand : Bytes
  nMessageSize : Nat
  nChecksum : Nat
deriving DecidableEq

def CMessageHeader.init (messageStart : Bytes) : CMessageHeader :=
  ⟨messageStart, List.replicate 12 0, 0xffffffff, 0⟩

def readMessageHeader (hdrbuf : Bytes) : Option CMessageHeader :=
  if hdrbuf.length < HEADER_SIZE then none
  else some ⟨hdrbuf.take 4, (hdrbuf.drop 4).take 12, fromLittleEndian ((hdrbuf.drop 16).take 4),
    fromLittleEndian ((hdrbuf.drop 20).take 4)⟩

structure CNetMessage where
  in_data : Bool
  hdrbuf : Bytes
  hdr : CMessageHeader
  nHdrPos : Nat
  vRecv : Bytes
  nDataPos : Nat
deriving DecidableEq

def CNetMessage.init (messageStart : Bytes) : CNetMessage :=
  ⟨false, List.replicate HEADER_SIZE 0, .init messageStart, 0, [], 0⟩

def complete (msg : CNetMessage) : Bool :=
  msg.in_data && decide (msg.hdr.nMessageSize = msg.nDataPos)

/-- `memcpy` into a buffer at a position. -/
def overwrite (buffer : Bytes) (pos : Nat) (bytes : Bytes) : Bytes :=
  buffer.take pos ++ bytes ++ buffer.drop (pos + bytes.length)

def resize (buffer : Bytes) (size : Nat) : Bytes :=
  buffer.take size ++ List.replicate (size - buffer.length) 0

/-- How many bytes were taken, none for a negative result, and the message after it. -/
def readHeader (msg : CNetMessage) (pch : Bytes) : Option Nat × CNetMessage :=
  let nCopy := min (HEADER_SIZE - msg.nHdrPos) pch.length
  let msg := { msg with
    hdrbuf := overwrite msg.hdrbuf msg.nHdrPos (pch.take nCopy)
    nHdrPos := msg.nHdrPos + nCopy }
  if msg.nHdrPos < HEADER_SIZE then (some nCopy, msg)
  else
    match readMessageHeader msg.hdrbuf with
    | none => (none, msg)
    | some hdr =>
      -- reading the buffer to its end clears it
      let msg := { msg with hdr := hdr, hdrbuf := [] }
      if MAX_SIZE < hdr.nMessageSize then (none, msg)
      else (some nCopy, { msg with in_data := true })

def readData (msg : CNetMessage) (pch : Bytes) : Option Nat × CNetMessage :=
  let nCopy := min (msg.hdr.nMessageSize - msg.nDataPos) pch.length
  let vRecv :=
    if msg.vRecv.length < msg.nDataPos + nCopy then
      resize msg.vRecv (min msg.hdr.nMessageSize (msg.nDataPos + nCopy + 256 * 1024))
    else msg.vRecv
  (some nCopy, { msg with
    vRecv := overwrite vRecv msg.nDataPos (pch.take nCopy)
    nDataPos := msg.nDataPos + nCopy })

structure Receiving where
  vRecvMsg : List CNetMessage
  pch : Bytes
deriving DecidableEq

section Receive

variable (messageStart : Bytes)

/-- The messages before the one that takes up the next bytes, and that one. -/
def current (vRecvMsg : List CNetMessage) : List CNetMessage × CNetMessage :=
  match vRecvMsg.getLast? with
  | none => (vRecvMsg, .init messageStart)
  | some msg =>
    if complete msg then (vRecvMsg, .init messageStart) else (vRecvMsg.dropLast, msg)

def absorb (msg : CNetMessage) (pch : Bytes) : Option Nat × CNetMessage :=
  if !msg.in_data then readHeader msg pch else readData msg pch

/-- One iteration of the loop in `ReceiveMsgBytes`. -/
def receiveRound : EStateM Empty Receiving (Option Bool) := fun state =>
  if state.pch.isEmpty then .ok (some true) state
  else
    let (earlier, msg) := current messageStart state.vRecvMsg
    match absorb msg state.pch with
    | (none, msg) => .ok (some false) { state with vRecvMsg := earlier ++ [msg] }
    | (some handled, msg) =>
      if msg.in_data && decide (MAX_PROTOCOL_MESSAGE_LENGTH < msg.hdr.nMessageSize) then
        .ok (some false) { state with vRecvMsg := earlier ++ [msg] }
      else .ok none ⟨earlier ++ [msg], state.pch.drop handled⟩

def receiveMsgBytes (vRecvMsg : List CNetMessage) (pch : Bytes) :
    Option (Bool × List CNetMessage) :=
  match rounds (receiveRound messageStart) (pch.length + 1) ⟨vRecvMsg, pch⟩ with
  | some (.ok ret final) => some (ret, final.vRecvMsg)
  | _ => none

def receiveAll : List Bytes → List CNetMessage → Option (Bool × List CNetMessage)
  | [], vRecvMsg => some (true, vRecvMsg)
  | pch :: rest, vRecvMsg =>
    match receiveMsgBytes messageStart vRecvMsg pch with
    | none => none
    | some (false, vRecvMsg) => some (false, vRecvMsg)
    | some (true, vRecvMsg) => receiveAll rest vRecvMsg

end Receive

def queued (vRecvMsg : List CNetMessage) : List (CMessageHeader × Bytes) :=
  (vRecvMsg.filter complete).map fun msg => (msg.hdr, msg.vRecv)

def messageFormat : Format UInt8 where
  headerSize := HEADER_SIZE
  positive := by decide
  announced header := (readMessageHeader header).bind fun hdr =>
    if MAX_SIZE < hdr.nMessageSize ∨ MAX_PROTOCOL_MESSAGE_LENGTH < hdr.nMessageSize then none
    else some hdr.nMessageSize

def parsed (message : Message UInt8) : CMessageHeader × Bytes :=
  ((readMessageHeader message.header).getD (.init []), message.payload)

structure Completed (msg : CNetMessage) (message : Message UInt8) : Prop where
  in_data : msg.in_data = true
  hdr : readMessageHeader message.header = some msg.hdr
  size : msg.hdr.nMessageSize = msg.nDataPos
  vRecv : msg.vRecv = message.payload

inductive Unfinished (msg : CNetMessage) (bytes : Bytes) : Prop where
  | header (reading : msg.in_data = false) (buffer : msg.hdrbuf.length = HEADER_SIZE)
      (pos : msg.nHdrPos = bytes.length) (short : bytes.length < HEADER_SIZE)
      (stored : msg.hdrbuf.take bytes.length = bytes) (empty : msg.vRecv = [])
      (unread : msg.nDataPos = 0)
  | data (reading : msg.in_data = true) (hdr : readMessageHeader (bytes.take HEADER_SIZE) = some msg.hdr)
      (announced : messageFormat.announced (bytes.take HEADER_SIZE) = some msg.hdr.nMessageSize)
      (pos : bytes.length = HEADER_SIZE + msg.nDataPos) (short : msg.nDataPos < msg.hdr.nMessageSize)
      (stored : msg.vRecv.take msg.nDataPos = bytes.drop HEADER_SIZE)
      (sized : msg.nDataPos ≤ msg.vRecv.length) (within : msg.vRecv.length ≤ msg.hdr.nMessageSize)

def Holds (messageStart : Bytes) (vRecvMsg : List CNetMessage) (messages : List (Message UInt8))
    (bytes : Bytes) : Prop :=
  List.Forall₂ Completed (current messageStart vRecvMsg).1 messages ∧
    Unfinished (current messageStart vRecvMsg).2 bytes

section Buffers

variable {buffer bytes : Bytes} {pos : Nat}

theorem overwrite_take (within : pos ≤ buffer.length) :
    (overwrite buffer pos bytes).take (pos + bytes.length) = buffer.take pos ++ bytes := by
  have length : (buffer.take pos ++ bytes).length = pos + bytes.length := by
    rw [List.length_append, List.length_take]
    omega
  exact List.take_left' length

theorem overwrite_length (within : pos + bytes.length ≤ buffer.length) :
    (overwrite buffer pos bytes).length = buffer.length := by
  unfold overwrite
  rw [List.length_append, List.length_append, List.length_take, List.length_drop]
  omega

theorem resize_length (size : Nat) : (resize buffer size).length = size := by
  unfold resize
  rw [List.length_append, List.length_take, List.length_replicate]
  omega

theorem resize_take {size : Nat} (kept : pos ≤ size) (within : pos ≤ buffer.length) :
    (resize buffer size).take pos = buffer.take pos := by
  unfold resize
  rw [List.take_append_of_le_length (by rw [List.length_take]; omega), List.take_take,
    Nat.min_eq_left kept]

end Buffers

section Absorb

def oversize (msg : CNetMessage) : Bool :=
  msg.in_data && decide (MAX_PROTOCOL_MESSAGE_LENGTH < msg.hdr.nMessageSize)

variable {msg : CNetMessage} {bytes : Bytes}

theorem readMessageHeader_isSome (long : HEADER_SIZE ≤ bytes.length) :
    (readMessageHeader bytes).isSome = true := by
  unfold readMessageHeader
  rw [if_neg (by omega)]
  rfl

theorem announced_some {size : Nat} (announced : messageFormat.announced bytes = some size) :
    ∃ hdr, readMessageHeader bytes = some hdr ∧ hdr.nMessageSize = size ∧
      ¬ MAX_SIZE < size ∧ ¬ MAX_PROTOCOL_MESSAGE_LENGTH < size := by
  obtain ⟨hdr, read, admitted⟩ := Option.bind_eq_some_iff.mp announced
  split at admitted
  · cases admitted
  · rename_i fits
    cases admitted
    exact ⟨hdr, read, rfl, fun large => fits (.inl large), fun large => fits (.inr large)⟩

theorem unfinished_frames (unfinished : Unfinished msg bytes) :
    frames messageFormat bytes = ([], .unfinished bytes) := by
  cases unfinished with
  | header _ _ _ short => exact frames_short short
  | data _ _ announced pos short =>
    apply frames_incomplete _ announced
    · change bytes.length < HEADER_SIZE + msg.hdr.nMessageSize
      omega
    · change HEADER_SIZE ≤ bytes.length
      omega

theorem unfinished_incomplete (unfinished : Unfinished msg bytes) : complete msg = false := by
  unfold complete
  cases unfinished with
  | header reading => simp [reading]
  | data _ _ _ _ short =>
    have more : msg.hdr.nMessageSize ≠ msg.nDataPos := by omega
    simp [more]

/-- How taking up `n` bytes ends, the last one of them the last of the bytes. -/
inductive Absorbed (n : Nat) (bytes : Bytes) : Option Nat × CNetMessage → Prop where
  | more {msg : CNetMessage} (sized : oversize msg = false) (unfinished : Unfinished msg bytes) :
      Absorbed n bytes (some n, msg)
  | whole {msg : CNetMessage} {message : Message UInt8} (sized : oversize msg = false)
      (completed : Completed msg message)
      (framed : frames messageFormat bytes = ([message], .unfinished [])) :
      Absorbed n bytes (some n, msg)
  | refused {handled : Option Nat} {msg : CNetMessage}
      (stops : handled = none ∨ handled = some n ∧ oversize msg = true)
      (incomplete : complete msg = false) (hdr : readMessageHeader bytes = some msg.hdr)
      (framed : frames messageFormat bytes = ([], .refused bytes)) :
      Absorbed n bytes (handled, msg)

theorem header_absorbed {bytes hdrbuf : Bytes} {hdr : CMessageHeader} {n nHdrPos : Nat}
    (length : bytes.length = HEADER_SIZE) (read : readMessageHeader bytes = some hdr) :
    Absorbed n bytes (if MAX_SIZE < hdr.nMessageSize then
        (none, ⟨false, hdrbuf, hdr, nHdrPos, [], 0⟩)
      else (some n, ⟨true, hdrbuf, hdr, nHdrPos, [], 0⟩)) := by
  have whole : bytes.take HEADER_SIZE = bytes := List.take_of_length_le (by omega)
  have announced : messageFormat.announced bytes =
      if MAX_SIZE < hdr.nMessageSize ∨ MAX_PROTOCOL_MESSAGE_LENGTH < hdr.nMessageSize then none
      else some hdr.nMessageSize := by
    change (readMessageHeader bytes).bind _ = _
    rw [read]
    rfl
  have refusal : messageFormat.announced bytes = none →
      frames messageFormat bytes = ([], .refused bytes) := by
    intro none
    have framed := @frames_refused _ messageFormat bytes (by change HEADER_SIZE ≤ _; omega)
      (by change messageFormat.announced (bytes.take HEADER_SIZE) = _; rw [whole]; exact none)
    rw [framed]
    change ([], Tail.refused (bytes.take HEADER_SIZE)) = _
    rw [whole]
  split
  · rename_i large
    rw [if_pos (.inl large)] at announced
    exact .refused (.inl rfl) rfl read (refusal announced)
  · rename_i admitted
    by_cases large : MAX_PROTOCOL_MESSAGE_LENGTH < hdr.nMessageSize
    · rw [if_pos (.inr large)] at announced
      refine .refused (.inr ⟨rfl, by simp [oversize, large]⟩) ?_ read (refusal announced)
      have more : hdr.nMessageSize ≠ 0 := by omega
      simp [complete, more]
    · rw [if_neg (by omega)] at announced
      have sized : oversize ⟨true, hdrbuf, hdr, nHdrPos, [], 0⟩ = false := by
        simp [oversize, large]
      by_cases empty : hdr.nMessageSize = 0
      · refine @Absorbed.whole n bytes _ ⟨bytes, []⟩ sized ⟨rfl, read, empty, rfl⟩ ?_
        have framed := @frames_whole _ messageFormat bytes 0
          (by change messageFormat.announced (bytes.take HEADER_SIZE) = _
              rw [whole, announced, empty])
          (by change HEADER_SIZE + 0 ≤ _; omega)
        have nothing : bytes.drop (messageFormat.headerSize + 0) = [] :=
          List.drop_eq_nil_of_le (by change _ ≤ HEADER_SIZE + 0; omega)
        rw [framed, nothing, frames_short (by decide)]
        change ([Message.mk (bytes.take HEADER_SIZE) _], _) = _
        rw [whole, List.take_zero]
      · apply Absorbed.more sized
        apply Unfinished.data rfl
        · rw [whole]
          exact read
        · rw [whole]
          exact announced
        · change _ = HEADER_SIZE + 0
          omega
        · change 0 < hdr.nMessageSize
          omega
        · rw [List.drop_eq_nil_of_le (by omega)]
          rfl
        · exact Nat.zero_le _
        · exact Nat.zero_le _

variable {bytes pch : Bytes}

theorem readHeader_absorbed (pending : pch ≠ []) (reading : msg.in_data = false)
    (buffer : msg.hdrbuf.length = HEADER_SIZE) (pos : msg.nHdrPos = bytes.length)
    (short : bytes.length < HEADER_SIZE) (stored : msg.hdrbuf.take bytes.length = bytes)
    (empty : msg.vRecv = []) (unread : msg.nDataPos = 0) :
    ∃ n, 0 < n ∧ n ≤ pch.length ∧ Absorbed n (bytes ++ pch.take n) (readHeader msg pch) := by
  have some : 0 < pch.length := List.length_pos_iff.mpr pending
  refine ⟨min (HEADER_SIZE - msg.nHdrPos) pch.length, by omega, by omega, ?_⟩
  generalize counted : min (HEADER_SIZE - msg.nHdrPos) pch.length = n
  have taken : (pch.take n).length = n := by
    rw [List.length_take]
    omega
  have length : (bytes ++ pch.take n).length = bytes.length + n := by
    rw [List.length_append, taken]
  have kept : (overwrite msg.hdrbuf msg.nHdrPos (pch.take n)).take (bytes.length + n) =
      bytes ++ pch.take n := by
    have written := @overwrite_take msg.hdrbuf (pch.take n) bytes.length (by omega)
    rw [taken, stored] at written
    rw [pos]
    exact written
  have sized : (overwrite msg.hdrbuf msg.nHdrPos (pch.take n)).length = HEADER_SIZE := by
    rw [overwrite_length (by rw [taken]; omega), buffer]
  unfold readHeader
  simp only [counted]
  split
  · rename_i incomplete
    apply Absorbed.more
    · simp [oversize, reading]
    · refine Unfinished.header reading sized ?_ ?_ ?_ empty unread
      · change msg.nHdrPos + n = _
        omega
      · omega
      · rw [length]
        exact kept
  · rename_i filled
    have whole : overwrite msg.hdrbuf msg.nHdrPos (pch.take n) = bytes ++ pch.take n :=
      (List.take_of_length_le (by omega)).symm.trans kept
    obtain ⟨hdr, read⟩ := Option.isSome_iff_exists.mp
      (@readMessageHeader_isSome (bytes ++ pch.take n) (by omega))
    rw [whole, read]
    rw [empty, unread, reading]
    exact header_absorbed (by omega) read

theorem readData_absorbed (pending : pch ≠ []) (reading : msg.in_data = true)
    (hdr : readMessageHeader (bytes.take HEADER_SIZE) = some msg.hdr)
    (announced : messageFormat.announced (bytes.take HEADER_SIZE) = some msg.hdr.nMessageSize)
    (pos : bytes.length = HEADER_SIZE + msg.nDataPos) (short : msg.nDataPos < msg.hdr.nMessageSize)
    (stored : msg.vRecv.take msg.nDataPos = bytes.drop HEADER_SIZE)
    (sized : msg.nDataPos ≤ msg.vRecv.length) (within : msg.vRecv.length ≤ msg.hdr.nMessageSize) :
    ∃ n, 0 < n ∧ n ≤ pch.length ∧ Absorbed n (bytes ++ pch.take n) (readData msg pch) := by
  have some : 0 < pch.length := List.length_pos_iff.mpr pending
  refine ⟨min (msg.hdr.nMessageSize - msg.nDataPos) pch.length, by omega, by omega, ?_⟩
  unfold readData
  generalize counted : min (msg.hdr.nMessageSize - msg.nDataPos) pch.length = n
  have taken : (pch.take n).length = n := by
    rw [List.length_take]
    omega
  have length : (bytes ++ pch.take n).length = bytes.length + n := by
    rw [List.length_append, taken]
  have header : (bytes ++ pch.take n).take HEADER_SIZE = bytes.take HEADER_SIZE :=
    List.take_append_of_le_length (by omega)
  obtain ⟨_, _, _, _, fits⟩ := announced_some announced
  dsimp only
  generalize grown : (if msg.vRecv.length < msg.nDataPos + n then resize msg.vRecv
    (min msg.hdr.nMessageSize (msg.nDataPos + n + 256 * 1024)) else msg.vRecv) = vRecv
  have buffer : msg.nDataPos + n ≤ vRecv.length ∧ vRecv.length ≤ msg.hdr.nMessageSize ∧
      vRecv.take msg.nDataPos = bytes.drop HEADER_SIZE := by
    rw [← grown]
    split
    · rw [resize_length, resize_take (by omega) sized]
      exact ⟨by omega, by omega, stored⟩
    · exact ⟨by omega, within, stored⟩
  have kept : (overwrite vRecv msg.nDataPos (pch.take n)).take (msg.nDataPos + n) =
      (bytes ++ pch.take n).drop HEADER_SIZE := by
    have written := @overwrite_take vRecv (pch.take n) msg.nDataPos (by omega)
    rw [taken, buffer.2.2] at written
    rw [written, List.drop_append_of_le_length (by omega)]
  have width : (overwrite vRecv msg.nDataPos (pch.take n)).length = vRecv.length := by
    rw [overwrite_length (by rw [taken]; omega)]
  have admitted : ∀ hdrbuf nHdrPos later nDataPos,
      oversize ⟨true, hdrbuf, msg.hdr, nHdrPos, later, nDataPos⟩ = false := by
    intro hdrbuf nHdrPos later nDataPos
    simp [oversize, fits]
  rw [reading]
  by_cases filled : msg.nDataPos + n = msg.hdr.nMessageSize
  · have whole : overwrite vRecv msg.nDataPos (pch.take n) =
        (bytes ++ pch.take n).drop HEADER_SIZE :=
      (List.take_of_length_le (by omega)).symm.trans kept
    refine @Absorbed.whole n _ _
      ⟨bytes.take HEADER_SIZE, (bytes ++ pch.take n).drop HEADER_SIZE⟩ (admitted _ _ _ _)
      ⟨rfl, hdr, filled.symm, whole⟩ ?_
    have framed := @frames_whole _ messageFormat (bytes ++ pch.take n) msg.hdr.nMessageSize
      (by change messageFormat.announced (List.take HEADER_SIZE _) = _
          rw [header]
          exact announced)
      (by change HEADER_SIZE + _ ≤ _; omega)
    have nothing : (bytes ++ pch.take n).drop (messageFormat.headerSize + msg.hdr.nMessageSize) =
        [] := List.drop_eq_nil_of_le (by change _ ≤ HEADER_SIZE + _; omega)
    have payload : ((bytes ++ pch.take n).drop HEADER_SIZE).take msg.hdr.nMessageSize =
        (bytes ++ pch.take n).drop HEADER_SIZE := by
      apply List.take_of_length_le
      rw [List.length_drop]
      omega
    rw [framed, nothing, frames_short (by decide)]
    change ([Message.mk ((bytes ++ pch.take n).take HEADER_SIZE)
      (((bytes ++ pch.take n).drop HEADER_SIZE).take msg.hdr.nMessageSize)], _) = _
    rw [header, payload]
  · refine .more (admitted _ _ _ _) (Unfinished.data rfl ?_ ?_ ?_ ?_ kept ?_ ?_)
    · rw [header]
      exact hdr
    · rw [header]
      exact announced
    · change _ = HEADER_SIZE + (msg.nDataPos + n)
      omega
    · change msg.nDataPos + n < msg.hdr.nMessageSize
      omega
    · change msg.nDataPos + n ≤ (overwrite vRecv msg.nDataPos (pch.take n)).length
      omega
    · change (overwrite vRecv msg.nDataPos (pch.take n)).length ≤ msg.hdr.nMessageSize
      omega

theorem absorb_absorbed (unfinished : Unfinished msg bytes) (pending : pch ≠ []) :
    ∃ n, 0 < n ∧ n ≤ pch.length ∧ Absorbed n (bytes ++ pch.take n) (absorb msg pch) := by
  unfold absorb
  cases unfinished with
  | header reading buffer pos short stored empty unread =>
    rw [reading, Bool.not_false, if_pos rfl]
    exact readHeader_absorbed pending reading buffer pos short stored empty unread
  | data reading hdr announced pos short stored sized within =>
    rw [reading, Bool.not_true, if_neg Bool.false_ne_true]
    exact readData_absorbed pending reading hdr announced pos short stored sized within

end Absorb

section Queue

variable {messageStart : Bytes} {vRecvMsg done : List CNetMessage}
  {messages : List (Message UInt8)} {bytes pch : Bytes}

variable {msg : CNetMessage}

theorem completed_complete {message : Message UInt8} (completed : Completed msg message) :
    complete msg = true := by
  unfold complete
  rw [completed.in_data, completed.size]
  simp

theorem init_unfinished : Unfinished (.init messageStart) [] :=
  .header rfl rfl rfl (by decide) rfl rfl rfl

theorem current_complete (finished : complete msg = true) :
    current messageStart (done ++ [msg]) = (done ++ [msg], .init messageStart) := by
  unfold current
  rw [List.getLast?_concat]
  dsimp only
  rw [if_pos finished]

theorem current_incomplete (open' : complete msg = false) :
    current messageStart (done ++ [msg]) = (done, msg) := by
  unfold current
  rw [List.getLast?_concat]
  dsimp only
  rw [if_neg (by simp [open']), List.dropLast_concat]

def Rejected (vRecvMsg : List CNetMessage) (messages : List (Message UInt8)) (header : Bytes) :
    Prop :=
  ∃ done msg, vRecvMsg = done ++ [msg] ∧ List.Forall₂ Completed done messages ∧
    complete msg = false ∧ readMessageHeader header = some msg.hdr

theorem forall₂_queued (finished : List.Forall₂ Completed done messages) :
    queued done = messages.map parsed := by
  induction finished with
  | nil => rfl
  | cons completed _ ih =>
    unfold queued at ih ⊢
    rw [List.filter_cons_of_pos (completed_complete completed), List.map_cons, ih, List.map_cons]
    unfold parsed
    rw [completed.hdr, completed.vRecv]
    rfl

theorem queued_incomplete (open' : complete msg = false) :
    queued (done ++ [msg]) = queued done := by
  unfold queued
  simp [open']

theorem holds_queued (holds : Holds messageStart vRecvMsg messages bytes) :
    queued vRecvMsg = messages.map parsed := by
  rw [← forall₂_queued holds.1]
  unfold current
  cases last : vRecvMsg.getLast? with
  | none => rfl
  | some msg =>
    dsimp only
    split
    · rfl
    · rename_i open'
      obtain ⟨earlier, rfl⟩ := List.getLast?_eq_some_iff.mp last
      rw [queued_incomplete (by simpa using open'), List.dropLast_concat]

theorem rejected_queued {header : Bytes} (rejected : Rejected vRecvMsg messages header) :
    queued vRecvMsg = messages.map parsed := by
  obtain ⟨done, msg, shape, finished, open', _⟩ := rejected
  rw [shape, queued_incomplete open', forall₂_queued finished]

def Received (messageStart : Bytes) (messages : List (Message UInt8)) :
    Tail UInt8 → Bool × List CNetMessage → Prop
  | .unfinished bytes, (ret, vRecvMsg) =>
    ret = true ∧ Holds messageStart vRecvMsg messages bytes
  | .refused header, (ret, vRecvMsg) => ret = false ∧ Rejected vRecvMsg messages header

theorem receiveRound_steps (holds : Holds messageStart vRecvMsg messages bytes)
    (pending : pch ≠ []) :
    ∃ n, 0 < n ∧ n ≤ pch.length ∧
      ((∃ later more rest, receiveRound messageStart ⟨vRecvMsg, pch⟩ = .ok none ⟨later, pch.drop n⟩ ∧
          Holds messageStart later (messages ++ more) rest ∧
          frames messageFormat (bytes ++ pch.take n) = (more, .unfinished rest)) ∨
        ∃ later header, receiveRound messageStart ⟨vRecvMsg, pch⟩ = .ok (some false) ⟨later, pch⟩ ∧
          Rejected later messages header ∧
          frames messageFormat (bytes ++ pch.take n) = ([], .refused header)) := by
  obtain ⟨finished, unfinished⟩ := holds
  obtain ⟨n, some, within, absorbed⟩ := absorb_absorbed unfinished pending
  refine ⟨n, some, within, ?_⟩
  unfold receiveRound
  have left : pch.isEmpty = false := by simpa using pending
  simp only [left, Bool.false_eq_true, if_false]
  generalize absorb (current messageStart vRecvMsg).2 pch = outcome at absorbed
  cases absorbed with
  | @more msg sized later =>
    left
    unfold oversize at sized
    refine ⟨(current messageStart vRecvMsg).1 ++ [msg], [], bytes ++ pch.take n, by simp only [sized, Bool.false_eq_true, if_false], ?_,
      unfinished_frames later⟩
    unfold Holds
    rw [current_incomplete (unfinished_incomplete later), List.append_nil]
    exact ⟨finished, later⟩
  | @whole msg message sized completed framed =>
    left
    unfold oversize at sized
    refine ⟨(current messageStart vRecvMsg).1 ++ [msg], [message], [], by simp only [sized, Bool.false_eq_true, if_false], ?_, framed⟩
    unfold Holds
    rw [current_complete (completed_complete completed)]
    exact ⟨List.rel_append finished (.cons completed .nil), init_unfinished⟩
  | @refused handled msg stops open' hdr framed =>
    right
    refine ⟨_, bytes ++ pch.take n, ?_, ⟨_, msg, rfl, finished, open', hdr⟩, framed⟩
    rcases stops with none | ⟨counted, large⟩
    · rw [none]
    · unfold oversize at large
      rw [counted]
      simp [large]

theorem rounds_received (holds : Holds messageStart vRecvMsg messages bytes) {bound : Nat}
    (enough : pch.length < bound) :
    ∃ ret final, rounds (receiveRound messageStart) bound ⟨vRecvMsg, pch⟩ = some (.ok ret final) ∧
      Received messageStart (messages ++ (frames messageFormat (bytes ++ pch)).1)
        (frames messageFormat (bytes ++ pch)).2 (ret, final.vRecvMsg) := by
  induction bound generalizing vRecvMsg messages bytes pch with
  | zero => omega
  | succ bound ih =>
    by_cases done : pch = []
    · rw [done, List.append_nil, unfinished_frames holds.2]
      exact ⟨true, ⟨vRecvMsg, []⟩, rfl, rfl, by rw [List.append_nil]; exact holds⟩
    · obtain ⟨n, some, within, steps⟩ := receiveRound_steps holds done
      have parts : bytes ++ pch = (bytes ++ pch.take n) ++ pch.drop n := by
        rw [List.append_assoc, List.take_append_drop]
      rcases steps with ⟨later, more, rest, ran, kept, framed⟩ |
        ⟨later, header, ran, rejected, framed⟩
      · rw [rounds_again ran]
        have unfinished : (frames messageFormat (bytes ++ pch.take n)).2 = .unfinished rest := by
          rw [framed]
        rw [parts, frames_append_unfinished unfinished, framed, ← List.append_assoc]
        exact ih kept (by rw [List.length_drop]; omega)
      · have refused : (frames messageFormat (bytes ++ pch.take n)).2 = .refused header := by
          rw [framed]
        rw [parts, frames_append_refused refused, framed, List.append_nil]
        refine ⟨false, ⟨later, pch⟩, ?_, rfl, rejected⟩
        unfold rounds
        rw [ran]

theorem receiveAll_received (pieces : List Bytes)
    (holds : Holds messageStart vRecvMsg messages bytes) :
    ∃ result, receiveAll messageStart pieces vRecvMsg = some result ∧
      Received messageStart (messages ++ (frames messageFormat (bytes ++ pieces.flatten)).1)
        (frames messageFormat (bytes ++ pieces.flatten)).2 result := by
  induction pieces generalizing vRecvMsg messages bytes with
  | nil =>
    rw [List.flatten_nil, List.append_nil, unfinished_frames holds.2, List.append_nil]
    exact ⟨_, rfl, rfl, holds⟩
  | cons pch rest ih =>
    obtain ⟨ret, final, ran, received⟩ := rounds_received holds (Nat.lt_succ_self pch.length)
    rw [List.flatten_cons, ← List.append_assoc]
    unfold receiveAll receiveMsgBytes
    rw [ran]
    cases ends : (frames messageFormat (bytes ++ pch)).2 with
    | unfinished left =>
      rw [ends] at received
      obtain ⟨accepted, kept⟩ := received
      rw [accepted, frames_append_unfinished ends, ← List.append_assoc]
      exact ih kept
    | refused header =>
      rw [ends] at received
      obtain ⟨stopped, rejected⟩ := received
      rw [stopped, frames_append_refused ends, ends]
      exact ⟨_, rfl, rfl, rejected⟩

end Queue

section Connection

variable (messageStart : Bytes)

def connected (state : Receiving) : Prop := state = ⟨[], []⟩

/-- A round that asks for another one, or the next piece after a call that accepted
    the last one. -/
inductive receives (state : Receiving) : Receiving → Prop where
  | round {next : Receiving} (ran : receiveRound messageStart state = .ok none next) :
      receives state next
  | piece (pch : Bytes) (taken : state.pch = []) : receives state ⟨state.vRecvMsg, pch⟩

def holding (state : Receiving) : Prop :=
  ∃ messages bytes, Holds messageStart state.vRecvMsg messages bytes

variable {messageStart}

theorem receives_holding {state next : Receiving} (holds : holding messageStart state)
    (step : receives messageStart state next) : holding messageStart next := by
  cases step with
  | piece pch taken => exact holds
  | round ran =>
    obtain ⟨messages, bytes, kept⟩ := holds
    by_cases done : state.pch = []
    · unfold receiveRound at ran
      rw [done] at ran
      cases ran
    · obtain ⟨n, some, within, steps⟩ := receiveRound_steps kept done
      rcases steps with ⟨later, more, rest, again, still, _⟩ | ⟨later, header, stopped, _⟩
      · rw [again] at ran
        cases ran
        exact ⟨_, _, still⟩
      · rw [stopped] at ran
        cases ran

theorem reached_holding {state : Receiving}
    (reached : Reachable connected (receives messageStart) state) : holding messageStart state := by
  apply reachable_invariant _ _ reached
  · intro first start
    rw [show first = ⟨[], []⟩ from start]
    exact ⟨[], [], .nil, init_unfinished⟩
  · intro earlier next _ holds step
    exact receives_holding holds step

def SameRefusal (first second : Bool × List CNetMessage) : Prop :=
  first.1 = second.1 ∧ (first.1 = false →
    first.2.getLast?.map CNetMessage.hdr = second.2.getLast?.map CNetMessage.hdr)

theorem received_same {messages : List (Message UInt8)} {tail : Tail UInt8}
    {first second : Bool × List CNetMessage} (one : Received messageStart messages tail first)
    (other : Received messageStart messages tail second) :
    queued first.2 = messages.map parsed ∧ queued second.2 = messages.map parsed ∧
      SameRefusal first second := by
  cases tail with
  | unfinished bytes =>
    obtain ⟨accepted, holds⟩ := one
    obtain ⟨accepted', holds'⟩ := other
    refine ⟨holds_queued holds, holds_queued holds', accepted.trans accepted'.symm, ?_⟩
    intro refused
    exact absurd (accepted.symm.trans refused) (by decide)
  | refused header =>
    obtain ⟨stopped, rejected⟩ := one
    obtain ⟨stopped', rejected'⟩ := other
    refine ⟨rejected_queued rejected, rejected_queued rejected', stopped.trans stopped'.symm, ?_⟩
    intro _
    obtain ⟨done, msg, shape, _, _, hdr⟩ := rejected
    obtain ⟨done', msg', shape', _, _, hdr'⟩ := rejected'
    have same : msg.hdr = msg'.hdr := Option.some_inj.mp (hdr.symm.trans hdr')
    rw [shape, shape', List.getLast?_concat, List.getLast?_concat, Option.map_some,
      Option.map_some, same]

/-- Two ways of cutting a stream into calls queue the same messages, those of the
    stream, and refuse it at the same one. A round takes up at least one byte, so each
    call ends. -/
theorem framing_independent_of_chunks (messageStart : Bytes) (first second : List Bytes)
    (same : first.flatten = second.flatten) :
    (∃ one other, receiveAll messageStart first [] = some one ∧
      receiveAll messageStart second [] = some other ∧
      queued one.2 = queued other.2 ∧ SameRefusal one other ∧
      queued one.2 = (frames messageFormat first.flatten).1.map parsed ∧
      (one.1 = true ↔ ∃ bytes, (frames messageFormat first.flatten).2 = .unfinished bytes)) ∧
    ∀ state, Reachable connected (receives messageStart) state →
      (∀ next, receiveRound messageStart state = .ok none next →
        next.pch.length < state.pch.length) ∧
      ∃ result, receiveMsgBytes messageStart state.vRecvMsg state.pch = some result := by
  have start : Holds messageStart [] [] [] := ⟨.nil, init_unfinished⟩
  constructor
  · obtain ⟨one, ran, received⟩ := receiveAll_received first start
    obtain ⟨other, ran', received'⟩ := receiveAll_received second start
    rw [← same] at received'
    rw [List.nil_append, List.nil_append] at received received'
    obtain ⟨framed, framed', refusal⟩ := received_same received received'
    refine ⟨one, other, ran, ran', framed.trans framed'.symm, refusal, framed, ?_⟩
    cases ends : (frames messageFormat first.flatten).2 with
    | unfinished bytes =>
      rw [ends] at received
      exact ⟨fun _ => ⟨bytes, rfl⟩, fun _ => received.1⟩
    | refused header =>
      rw [ends] at received
      constructor
      · intro accepted
        exact absurd (received.1.symm.trans accepted) (by decide)
      · rintro ⟨_, impossible⟩
        cases impossible
  · intro state reached
    obtain ⟨messages, bytes, holds⟩ := reached_holding reached
    constructor
    · intro next ran
      by_cases done : state.pch = []
      · unfold receiveRound at ran
        rw [done] at ran
        cases ran
      · obtain ⟨n, some, within, steps⟩ := receiveRound_steps holds done
        rcases steps with ⟨later, _, _, again, _⟩ | ⟨later, _, stopped, _⟩
        · rw [again] at ran
          cases ran
          rw [List.length_drop]
          omega
        · rw [stopped] at ran
          cases ran
    · obtain ⟨ret, final, ran, _⟩ := rounds_received holds (Nat.lt_succ_self state.pch.length)
      refine ⟨(ret, final.vRecvMsg), ?_⟩
      unfold receiveMsgBytes
      rw [ran]

theorem empty_message_framed :
    ∃ one other,
      receiveAll [1, 2, 3, 4] [[1, 2, 3, 4] ++ List.replicate 20 0, [1, 2]] [] = some one ∧
      receiveAll [1, 2, 3, 4] [[1, 2, 3, 4], List.replicate 20 0 ++ [1], [2]] [] = some other ∧
      queued one.2 = queued other.2 ∧
      queued one.2 = [(⟨[1, 2, 3, 4], List.replicate 12 0, 0, 0⟩, [])] := by
  obtain ⟨⟨one, other, ran, ran', framed, _⟩, _⟩ :=
    framing_independent_of_chunks [1, 2, 3, 4] [[1, 2, 3, 4] ++ List.replicate 20 0, [1, 2]]
      [[1, 2, 3, 4], List.replicate 20 0 ++ [1], [2]] (by decide)
  refine ⟨one, other, ran, ran', framed, ?_⟩
  have returned : (receiveAll [1, 2, 3, 4] [[1, 2, 3, 4] ++ List.replicate 20 0, [1, 2]] []).map
      (fun result => queued result.2) = some [(⟨[1, 2, 3, 4], List.replicate 12 0, 0, 0⟩, [])] := by
    decide +kernel
  rw [ran] at returned
  exact Option.some_inj.mp returned

end Connection

end OxidNetMessage
