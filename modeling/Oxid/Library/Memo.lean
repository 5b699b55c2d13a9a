import Mathlib.Logic.Function.Basic
import Mathlib.Tactic.Common

/-!
Answers kept under their keys. A kept answer is right as long as the changes of the world
leave the answer of its key alone.
-/
namespace Memo

variable {Key Answer : Type}

def Agrees (compute : Key → Option Answer) (memo : Key → Option Answer) (key : Key) : Prop :=
  ∀ answer, memo key = some answer → compute key = some answer

variable {compute changed : Key → Option Answer} {memo : Key → Option Answer} {key other : Key}

theorem agrees_fresh : Agrees compute (fun _ => none) key := fun _ kept => nomatch kept

theorem agrees_change (agrees : Agrees compute memo key)
    (same : ∀ answer, memo key = some answer → compute key = some answer →
      changed key = some answer) : Agrees changed memo key :=
  fun answer kept => same answer kept (agrees answer kept)

variable [DecidableEq Key]

/-- The kept answer, or else the computed one, which is kept if there is one. -/
def ask (computed : Option Answer) (key : Key) (memo : Key → Option Answer) :
    Option Answer × (Key → Option Answer) :=
  match memo key with
  | some answer => (some answer, memo)
  | none =>
    match computed with
    | none => (none, memo)
    | some answer => (some answer, Function.update memo key (some answer))

theorem ask_answer (agrees : Agrees compute memo key) :
    (ask (compute key) key memo).1 = compute key := by
  unfold ask
  cases kept : memo key with
  | some answer => exact (agrees answer kept).symm
  | none => cases compute key <;> rfl

theorem ask_agrees (agrees : Agrees compute memo key) :
    Agrees compute (ask (compute other) other memo).2 key := by
  unfold ask
  cases memo other with
  | some answer => exact agrees
  | none =>
    cases computed : compute other with
    | none => exact agrees
    | some answer =>
      intro found kept
      dsimp only at kept
      by_cases same : key = other
      · rw [same] at kept ⊢
        rw [Function.update_self] at kept
        rw [computed, kept]
      · rw [Function.update_of_ne same] at kept
        exact agrees found kept

end Memo
