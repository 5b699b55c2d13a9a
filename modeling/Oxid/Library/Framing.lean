import Mathlib.Tactic.Common

/-!
Streams of messages, each a header of a fixed size and a payload of the size the header
announces, unless the header is refused. A stream may be framed in two parts: the bytes of
the unfinished message go before the second part.
-/
namespace Framing

variable {α : Type}

structure Format (α : Type) where
  headerSize : Nat
  positive : 0 < headerSize
  /-- The size of the payload, or none if the header is refused. -/
  announced : List α → Option Nat

inductive Tail (α : Type) where
  | unfinished (bytes : List α)
  | refused (header : List α)
deriving DecidableEq

structure Message (α : Type) where
  header : List α
  payload : List α
deriving DecidableEq

variable (format : Format α)

def frames (stream : List α) : List (Message α) × Tail α :=
  if stream.length < format.headerSize then ([], .unfinished stream)
  else
    match format.announced (stream.take format.headerSize) with
    | none => ([], .refused (stream.take format.headerSize))
    | some size =>
      if stream.length < format.headerSize + size then ([], .unfinished stream)
      else
        (⟨stream.take format.headerSize, (stream.drop format.headerSize).take size⟩ ::
            (frames (stream.drop (format.headerSize + size))).1,
          (frames (stream.drop (format.headerSize + size))).2)
termination_by stream.length
decreasing_by
  all_goals
    have positive := format.positive
    rw [List.length_drop]
    omega

variable {format} {stream more : List α}

theorem frames_short (short : stream.length < format.headerSize) :
    frames format stream = ([], .unfinished stream) := by
  rw [frames, if_pos short]

theorem frames_refused (long : format.headerSize ≤ stream.length)
    (refused : format.announced (stream.take format.headerSize) = none) :
    frames format stream = ([], .refused (stream.take format.headerSize)) := by
  rw [frames, if_neg (by omega), refused]

theorem frames_incomplete {size : Nat} (long : format.headerSize ≤ stream.length)
    (announced : format.announced (stream.take format.headerSize) = some size)
    (short : stream.length < format.headerSize + size) :
    frames format stream = ([], .unfinished stream) := by
  rw [frames, if_neg (by omega), announced]
  dsimp only
  rw [if_pos short]

theorem frames_whole {size : Nat}
    (announced : format.announced (stream.take format.headerSize) = some size)
    (whole : format.headerSize + size ≤ stream.length) :
    frames format stream =
      (⟨stream.take format.headerSize, (stream.drop format.headerSize).take size⟩ ::
          (frames format (stream.drop (format.headerSize + size))).1,
        (frames format (stream.drop (format.headerSize + size))).2) := by
  rw [frames, if_neg (by omega), announced]
  dsimp only
  rw [if_neg (by omega)]

theorem frames_whole_append {size : Nat}
    (announced : format.announced (stream.take format.headerSize) = some size)
    (whole : format.headerSize + size ≤ stream.length) :
    frames format (stream ++ more) =
      (⟨stream.take format.headerSize, (stream.drop format.headerSize).take size⟩ ::
          (frames format (stream.drop (format.headerSize + size) ++ more)).1,
        (frames format (stream.drop (format.headerSize + size) ++ more)).2) := by
  have header : (stream ++ more).take format.headerSize = stream.take format.headerSize :=
    List.take_append_of_le_length (by omega)
  have payload : ((stream ++ more).drop format.headerSize).take size =
      (stream.drop format.headerSize).take size := by
    rw [List.drop_append_of_le_length (by omega)]
    apply List.take_append_of_le_length
    rw [List.length_drop]
    omega
  have rest : (stream ++ more).drop (format.headerSize + size) =
      stream.drop (format.headerSize + size) ++ more := List.drop_append_of_le_length whole
  rw [frames_whole (by rw [header]; exact announced) (by rw [List.length_append]; omega), header,
    payload, rest]

theorem frames_append_unfinished {bytes : List α}
    (ends : (frames format stream).2 = .unfinished bytes) :
    frames format (stream ++ more) =
      ((frames format stream).1 ++ (frames format (bytes ++ more)).1,
        (frames format (bytes ++ more)).2) := by
  induction stream using frames.induct format with
  | case1 stream short =>
    rw [frames_short short] at ends ⊢
    cases ends
    rfl
  | case2 stream long refused =>
    rw [frames_refused (by omega) refused] at ends
    cases ends
  | case3 stream long size announced short =>
    rw [frames_incomplete (by omega) announced short] at ends ⊢
    cases ends
    rfl
  | case4 stream long size announced whole ih =>
    rw [frames_whole announced (by omega)] at ends ⊢
    rw [frames_whole_append announced (by omega), ih ends]
    rfl

theorem frames_append_refused {header : List α}
    (ends : (frames format stream).2 = .refused header) :
    frames format (stream ++ more) = frames format stream := by
  induction stream using frames.induct format with
  | case1 stream short =>
    rw [frames_short short] at ends
    cases ends
  | case2 stream long refused =>
    have same : (stream ++ more).take format.headerSize = stream.take format.headerSize :=
      List.take_append_of_le_length (by omega)
    rw [frames_refused (by omega) refused,
      frames_refused (by rw [List.length_append]; omega) (by rw [same]; exact refused), same]
  | case3 stream long size announced short =>
    rw [frames_incomplete (by omega) announced short] at ends
    cases ends
  | case4 stream long size announced whole ih =>
    rw [frames_whole announced (by omega)] at ends ⊢
    rw [frames_whole_append announced (by omega), ih ends]

end Framing
