import Mathlib.Data.List.Basic

/-!
Erasing from an array by assignment. An erase moves every later element one position down
with the element type's own assignment. An assignment need not carry everything: `moves` is
what arrives from the element on the right, `stays` is what the position keeps.
-/
namespace ShiftingErase

variable {Elem Moved Kept : Type}

/-- The positions behind an erased element, each assigned its right neighbour. -/
def shiftDown (assign : Elem → Elem → Elem) : Elem → List Elem → List Elem
  | _, [] => []
  | position, next :: rest => assign position next :: shiftDown assign next rest

theorem shiftDown_length (assign : Elem → Elem → Elem) (position : Elem) (rest : List Elem) :
    (shiftDown assign position rest).length = rest.length := by
  induction rest generalizing position with
  | nil => rfl
  | cons next rest ih => simp only [shiftDown, List.length_cons, ih next]

/-- The erasing scan over the positions that are left: what it leaves, and what it erased, as that
    stood when the scan met it. -/
def eraseScan (assign : Elem → Elem → Elem) (gone : Elem → Bool) :
    Nat → List Elem → List Elem × List Elem
  | 0, _ => ([], [])
  | _ + 1, [] => ([], [])
  | rounds + 1, first :: rest =>
    if gone first then
      let (left, erased) := eraseScan assign gone rounds (shiftDown assign first rest)
      (left, first :: erased)
    else
      let (left, erased) := eraseScan assign gone rounds rest
      (first :: left, erased)

def eraseAll (assign : Elem → Elem → Elem) (gone : Elem → Bool) (elems : List Elem) :
    List Elem × List Elem := eraseScan assign gone elems.length elems

def eraseFirst (assign : Elem → Elem → Elem) (gone : Elem → Bool) : List Elem → List Elem
  | [] => []
  | first :: rest =>
    if gone first then shiftDown assign first rest
    else first :: eraseFirst assign gone rest

structure Splits (assign : Elem → Elem → Elem) (moves : Elem → Moved) (stays : Elem → Kept) :
    Prop where
  moved (position source : Elem) : moves (assign position source) = moves source
  kept (position source : Elem) : stays (assign position source) = stays position
  whole (a b : Elem) (sameMoved : moves a = moves b) (sameKept : stays a = stays b) : a = b

section Scan
variable {assign : Elem → Elem → Elem} {moves : Elem → Moved} {stays : Elem → Kept}
  {gone : Elem → Bool}

theorem shiftDown_moves (splits : Splits assign moves stays) (position : Elem) (rest : List Elem) :
    (shiftDown assign position rest).map moves = rest.map moves := by
  induction rest generalizing position with
  | nil => rfl
  | cons next rest ih =>
    simp only [shiftDown, List.map_cons, splits.moved]
    rw [ih next]

theorem shiftDown_stays (splits : Splits assign moves stays) (position : Elem) (rest : List Elem) :
    (shiftDown assign position rest).map stays = ((position :: rest).map stays).take rest.length := by
  induction rest generalizing position with
  | nil => rfl
  | cons next rest ih =>
    simp only [shiftDown, List.map_cons, splits.kept, List.length_cons, List.take_succ_cons]
    rw [ih next]
    rfl

theorem filter_moves (test : Moved → Bool) (reads : ∀ elem, gone elem = test (moves elem))
    (elems : List Elem) :
    (elems.filter fun elem => !gone elem).map moves =
      (elems.map moves).filter fun part => !test part := by
  induction elems with
  | nil => rfl
  | cons first rest ih =>
    simp only [List.filter_cons, List.map_cons, reads first]
    split
    · simp [ih]
    · exact ih

section
variable (splits : Splits assign moves stays)
include splits

theorem eraseScan_parts (test : Moved → Bool) (reads : ∀ elem, gone elem = test (moves elem))
    (rounds : Nat) (elems : List Elem) (enough : elems.length ≤ rounds) :
    (eraseScan assign gone rounds elems).1.map moves =
        ((elems.map moves).filter fun part => !test part) ∧
      (eraseScan assign gone rounds elems).2.map moves = (elems.map moves).filter test := by
  induction rounds generalizing elems with
  | zero =>
    have empty : elems = [] := List.length_eq_zero_iff.mp (by omega)
    subst empty
    exact ⟨rfl, rfl⟩
  | succ rounds ih =>
    cases elems with
    | nil => exact ⟨rfl, rfl⟩
    | cons first rest =>
      simp only [List.length_cons] at enough
      simp only [eraseScan, List.map_cons, List.filter_cons, ← reads first]
      cases erased : gone first with
      | true =>
        have shorter : (shiftDown assign first rest).length ≤ rounds := by
          rw [shiftDown_length]
          omega
        have later := ih _ shorter
        rw [shiftDown_moves splits] at later
        exact ⟨later.1, congrArg (List.cons _) later.2⟩
      | false =>
        have later := ih rest (by omega)
        exact ⟨congrArg (List.cons _) later.1, later.2⟩

theorem eraseScan_stays (rounds : Nat) (elems : List Elem) (enough : elems.length ≤ rounds) :
    (eraseScan assign gone rounds elems).1.map stays <+: elems.map stays := by
  induction rounds generalizing elems with
  | zero => exact List.nil_prefix
  | succ rounds ih =>
    cases elems with
    | nil => exact List.nil_prefix
    | cons first rest =>
      simp only [List.length_cons] at enough
      simp only [eraseScan]
      split
      · have shorter : (shiftDown assign first rest).length ≤ rounds := by
          rw [shiftDown_length]
          omega
        have later := ih (shiftDown assign first rest) shorter
        rw [shiftDown_stays splits] at later
        exact later.trans (List.take_prefix _ _)
      · simp only [List.map_cons, List.prefix_cons_inj]
        exact ih rest (by omega)

theorem eraseFirst_stays (elems : List Elem) :
    (eraseFirst assign gone elems).map stays <+: elems.map stays := by
  induction elems with
  | nil => exact List.nil_prefix
  | cons first rest ih =>
    simp only [eraseFirst]
    split
    · rw [shiftDown_stays splits]
      exact List.take_prefix _ _
    · simp only [List.map_cons, List.prefix_cons_inj]
      exact ih

theorem same_iff_stays (left right : List Elem) (sameMoved : left.map moves = right.map moves) :
    left = right ↔ left.map stays = right.map stays := by
  constructor
  · intro same
    rw [same]
  · intro sameKept
    induction left generalizing right with
    | nil =>
      cases right with
      | nil => rfl
      | cons other rest => simp at sameMoved
    | cons first rest ih =>
      cases right with
      | nil => simp at sameMoved
      | cons other others =>
        simp only [List.map_cons, List.cons.injEq] at sameMoved sameKept
        have heads := splits.whole first other sameMoved.1 sameKept.1
        rw [heads, ih others sameMoved.2 sameKept.2]

/-- A result that has the survivors' moved parts over the leading kept parts is the
    list of survivors exactly when the survivors' kept parts lead as well. -/
theorem survivors_iff (before result survivors : List Elem)
    (sameMoved : result.map moves = survivors.map moves)
    (leading : result.map stays <+: before.map stays) :
    result = survivors ↔ survivors.map stays <+: before.map stays := by
  have sameLength : result.length = survivors.length := by
    have lengths := congrArg List.length sameMoved
    simpa only [List.length_map] using lengths
  constructor
  · intro same
    exact same ▸ leading
  · intro aligned
    apply (same_iff_stays splits result survivors sameMoved).mpr
    apply (List.prefix_of_prefix_length_le leading aligned _).eq_of_length
    · simp [sameLength]
    · simp [sameLength]

theorem eraseAll_moves (test : Moved → Bool) (reads : ∀ elem, gone elem = test (moves elem))
    (elems : List Elem) :
    (eraseAll assign gone elems).1.map moves = (elems.filter fun elem => !gone elem).map moves := by
  rw [filter_moves test reads]
  exact (eraseScan_parts splits test reads _ _ (Nat.le_refl _)).1

theorem eraseAll_erased (test : Moved → Bool) (reads : ∀ elem, gone elem = test (moves elem))
    (elems : List Elem) :
    (eraseAll assign gone elems).2.map moves = (elems.map moves).filter test :=
  (eraseScan_parts splits test reads _ _ (Nat.le_refl _)).2

theorem eraseFirst_moves (elems : List Elem) :
    (eraseFirst assign gone elems).map moves = (elems.eraseP gone).map moves := by
  induction elems with
  | nil => rfl
  | cons first rest ih =>
    cases erased : gone first with
    | true => simpa [eraseFirst, erased] using shiftDown_moves splits first rest
    | false => simp [eraseFirst, erased, ih]

/-- It leaves them unchanged if and only if what they keep is what the leading
    positions keep. -/
theorem eraseAll_iff (test : Moved → Bool) (reads : ∀ elem, gone elem = test (moves elem))
    (elems : List Elem) :
    (eraseAll assign gone elems).1 = (elems.filter fun elem => !gone elem) ↔
      (elems.filter fun elem => !gone elem).map stays <+: elems.map stays := by
  apply survivors_iff splits
  · exact eraseAll_moves splits test reads elems
  · exact eraseScan_stays splits _ _ (Nat.le_refl _)

theorem eraseFirst_iff (elems : List Elem) :
    eraseFirst assign gone elems = elems.eraseP gone ↔
      (elems.eraseP gone).map stays <+: elems.map stays := by
  apply survivors_iff splits
  · exact eraseFirst_moves splits elems
  · exact eraseFirst_stays splits elems

end

end Scan

end ShiftingErase
