import Mathlib.Algebra.BigOperators.Finprod

/-!
Ledgers of unspent outputs. An output sits at a position under a key. Events
spend one output or create all outputs of a key, and carry what is needed to
revert them; the value of a ledger follows its events.
-/
namespace OutputLedger

variable {Key Out : Type} [DecidableEq Key]

abbrev Slot (Out : Type) := Nat → Option Out

abbrev Ledger (Key Out : Type) := Key → Slot Out

def Slot.empty : Slot Out := fun _ => none

/-- `last` is the mark that no other output was left under the key. -/
inductive Event (Key Out : Type) where
  | spend (key : Key) (n : Nat) (out : Out) (last : Bool)
  | create (key : Key) (outs : Slot Out)

def apply : Event Key Out → Ledger Key Out → Ledger Key Out
  | .spend key n _ _, L => Function.update L key (Function.update (L key) n none)
  | .create key outs, L => Function.update L key outs

def revert : Event Key Out → Ledger Key Out → Ledger Key Out
  | .spend key n out last, L =>
    Function.update L key
      (Function.update (if last then Slot.empty else L key) n (some out))
  | .create key _, L => Function.update L key Slot.empty

/-- An event fits a ledger: the spent output is there, with nothing beside it when
    marked last, and nothing is there to be overwritten. -/
def Fits : Event Key Out → Ledger Key Out → Prop
  | .spend key n out last, L => L key n = some out ∧ (last = true → ∀ m, m ≠ n → L key m = none)
  | .create key _, L => L key = Slot.empty

theorem revert_apply (event : Event Key Out) (L : Ledger Key Out) (fits : Fits event L) :
    revert event (apply event L) = L := by
  funext other
  cases event with
  | spend key n out last =>
    obtain ⟨present, alone⟩ := fits
    by_cases same : other = key
    · subst same
      simp only [revert, apply, Function.update_self]
      funext m
      by_cases here : m = n
      · subst here
        rw [Function.update_self, present]
      · rw [Function.update_of_ne here]
        cases last with
        | true =>
          rw [if_pos rfl, alone rfl m here]
          rfl
        | false => rw [if_neg Bool.false_ne_true, Function.update_of_ne here]
    · simp only [revert, apply, Function.update_of_ne same]
  | create key outs =>
    by_cases same : other = key
    · subst same
      simp only [revert, apply, Function.update_self]
      exact fits.symm
    · simp only [revert, apply, Function.update_of_ne same]

def applyAll (events : List (Event Key Out)) (L : Ledger Key Out) : Ledger Key Out :=
  events.foldl (fun L event => apply event L) L

/-- The events taken back, last one first. -/
def revertAll (events : List (Event Key Out)) (L : Ledger Key Out) : Ledger Key Out :=
  events.foldr revert L

def FitsAll : List (Event Key Out) → Ledger Key Out → Prop
  | [], _ => True
  | event :: rest, L => Fits event L ∧ FitsAll rest (apply event L)

@[simp] theorem applyAll_nil (L : Ledger Key Out) : applyAll [] L = L := rfl

@[simp] theorem applyAll_cons (event : Event Key Out) (rest : List (Event Key Out))
    (L : Ledger Key Out) : applyAll (event :: rest) L = applyAll rest (apply event L) := rfl

section
variable (front back : List (Event Key Out)) (L : Ledger Key Out)
include front back L

theorem applyAll_append : applyAll (front ++ back) L = applyAll back (applyAll front L) := by
  simp [applyAll, List.foldl_append]

theorem revertAll_append : revertAll (front ++ back) L = revertAll front (revertAll back L) := by
  simp [revertAll, List.foldr_append]

theorem fitsAll_append :
    FitsAll (front ++ back) L ↔ FitsAll front L ∧ FitsAll back (applyAll front L) := by
  induction front generalizing L with
  | nil => simp [FitsAll]
  | cons event rest ih =>
    simp only [List.cons_append, FitsAll, applyAll_cons, ih]
    tauto

end

theorem revertAll_applyAll (events : List (Event Key Out)) (L : Ledger Key Out)
    (fits : FitsAll events L) : revertAll events (applyAll events L) = L := by
  induction events generalizing L with
  | nil => rfl
  | cons event rest ih =>
    change revert event (revertAll rest (applyAll rest (apply event L))) = L
    rw [ih (apply event L) fits.2]
    exact revert_apply event L fits.1

section Counts

variable (key : Key) (n : Nat) {event : Event Key Out} {L : Ledger Key Out}

/-- One where the ledger has an output at a position, and none elsewhere. -/
def held (L : Ledger Key Out) : Nat := if (L key n).isSome then 1 else 0

/-- How often an event spends a position, and how often it creates it. -/
def spentBy : Event Key Out → Nat
  | .spend other m _ _ => if other = key ∧ m = n then 1 else 0
  | .create _ _ => 0

def createdBy : Event Key Out → Nat
  | .spend _ _ _ _ => 0
  | .create other outs => if other = key ∧ (outs n).isSome then 1 else 0

theorem held_apply (fits : Fits event L) :
    held key n (apply event L) + spentBy key n event = held key n L + createdBy key n event := by
  cases event with
  | spend other m out last =>
    have present := fits.1
    by_cases here : other = key ∧ m = n
    · obtain ⟨rfl, rfl⟩ := here
      simp [held, spentBy, createdBy, apply, present]
    · have kept : apply (.spend other m out last) L key n = L key n := by
        by_cases same : key = other
        · subst same
          have apart : n ≠ m := fun equal => here ⟨rfl, equal.symm⟩
          simp [apply, apart]
        · simp [apply, same]
      simp [held, spentBy, createdBy, kept, here]
  | create other outs =>
    by_cases same : other = key
    · subst same
      have empty : L other = Slot.empty := fits
      simp [held, spentBy, createdBy, apply, empty, Slot.empty]
    · simp [held, spentBy, createdBy, apply, same, Ne.symm same]

theorem held_applyAll {events : List (Event Key Out)} (fits : FitsAll events L) :
    held key n (applyAll events L) + (events.map (spentBy key n)).sum =
      held key n L + (events.map (createdBy key n)).sum := by
  induction events generalizing L with
  | nil => rfl
  | cons event rest ih =>
    have here := held_apply key n fits.1
    have later := ih fits.2
    simp only [applyAll_cons, List.map_cons, List.sum_cons]
    omega

end Counts

section Value

variable (worth : Out → Int)

noncomputable def slotValue (slot : Slot Out) : Int := ∑ᶠ n, (slot n).elim 0 worth

def FiniteSlot (slot : Slot Out) : Prop := Set.Finite {n | slot n ≠ none}

variable {slot : Slot Out} {L : Ledger Key Out} {event : Event Key Out}

theorem finite_support (finite : FiniteSlot slot) :
    Function.HasFiniteSupport fun n => (slot n).elim 0 worth := by
  refine Set.Finite.subset finite ?_
  intro n worthy
  rw [Function.mem_support] at worthy
  intro absent
  rw [absent] at worthy
  exact worthy rfl

@[simp] theorem slotValue_empty : slotValue worth (Slot.empty : Slot Out) = 0 := by
  unfold slotValue Slot.empty
  simp

theorem finite_update (finite : FiniteSlot slot) (n : Nat) (held : Option Out) :
    FiniteSlot (Function.update slot n held) := by
  refine Set.Finite.subset (finite.insert n) ?_
  intro m present
  by_cases here : m = n
  · exact Or.inl here
  · rw [Set.mem_ofPred_eq, Function.update_of_ne here] at present
    exact Or.inr present

theorem slotValue_update (finite : FiniteSlot slot) (n : Nat) (held : Option Out) :
    slotValue worth (Function.update slot n held) =
      slotValue worth slot + held.elim 0 worth - (slot n).elim 0 worth := by
  have changed : FiniteSlot (Function.update slot n held) := finite_update finite n held
  have difference : slotValue worth (Function.update slot n held) - slotValue worth slot =
      held.elim 0 worth - (slot n).elim 0 worth := by
    unfold slotValue
    rw [← finsum_sub_distrib (finite_support worth changed) (finite_support worth finite),
      finsum_eq_single _ n]
    · rw [Function.update_self]
    · intro m other
      rw [Function.update_of_ne other]
      omega
  omega

theorem slotValue_spend {n : Nat} {out : Out} (finite : FiniteSlot slot)
    (present : slot n = some out) :
    slotValue worth (Function.update slot n none) = slotValue worth slot - worth out := by
  rw [slotValue_update worth finite, present]
  simp

/-- The members of a list that pass a test, each at its position. -/
def Slot.ofList (keep : Out → Bool) (outs : List Out) : Slot Out := fun n => outs[n]?.filter keep

theorem ofList_append (keep : Out → Bool) (front : List Out) (last : Out) :
    Slot.ofList keep (front ++ [last]) =
      Function.update (Slot.ofList keep front) front.length ((some last).filter keep) := by
  funext n
  unfold Slot.ofList
  by_cases here : n = front.length
  · subst here
    rw [Function.update_self, List.getElem?_concat_length]
  · rw [Function.update_of_ne here]
    by_cases inside : n < front.length
    · rw [List.getElem?_append_left inside]
    · rw [List.getElem?_eq_none (by simp; omega), List.getElem?_eq_none (by omega)]

theorem finite_ofList (keep : Out → Bool) (outs : List Out) :
    FiniteSlot (Slot.ofList keep outs) := by
  refine Set.Finite.subset (Set.finite_lt_nat outs.length) ?_
  intro n present
  by_contra outside
  refine present ?_
  unfold Slot.ofList
  rw [List.getElem?_eq_none (by simpa using outside)]
  rfl

theorem slotValue_ofList (keep : Out → Bool) (outs : List Out) :
    slotValue worth (Slot.ofList keep outs) = ((outs.filter keep).map worth).sum := by
  induction outs using List.reverseRecOn with
  | nil =>
    have nothing : Slot.ofList keep ([] : List Out) = Slot.empty := rfl
    rw [nothing, slotValue_empty]
    rfl
  | append_singleton front last ih =>
    have free : Slot.ofList keep front front.length = none := by
      unfold Slot.ofList
      rw [List.getElem?_eq_none (Nat.le_refl _)]
      rfl
    rw [ofList_append, slotValue_update worth (finite_ofList keep front), ih, free,
      List.filter_append, List.map_append, List.sum_append]
    cases kept : keep last with
    | true => simp [kept, Option.filter]
    | false => simp [kept, Option.filter]

variable [Fintype Key]

/-- The value of everything in a ledger. -/
noncomputable def total (L : Ledger Key Out) : Int := ∑ key, slotValue worth (L key)

theorem total_update (L : Ledger Key Out) (key : Key) (slot : Slot Out) :
    total worth (Function.update L key slot) =
      total worth L + slotValue worth slot - slotValue worth (L key) := by
  have others : ∑ other ∈ Finset.univ.erase key, slotValue worth (Function.update L key slot other) =
      ∑ other ∈ Finset.univ.erase key, slotValue worth (L other) := by
    refine Finset.sum_congr rfl ?_
    intro other member
    rw [Function.update_of_ne (Finset.ne_of_mem_erase member)]
  have whole := Finset.add_sum_erase Finset.univ (fun other => slotValue worth (L other))
    (Finset.mem_univ key)
  have changed := Finset.add_sum_erase Finset.univ
    (fun other => slotValue worth (Function.update L key slot other)) (Finset.mem_univ key)
  simp only [Function.update_self] at changed
  unfold total
  omega

noncomputable def gain : Event Key Out → Int
  | .spend _ _ out _ => -worth out
  | .create _ outs => slotValue worth outs

def FiniteLedger (L : Ledger Key Out) : Prop := ∀ key, FiniteSlot (L key)

theorem total_apply (finite : FiniteLedger L) (fits : Fits event L) :
    total worth (apply event L) = total worth L + gain worth event := by
  cases event with
  | spend key n out last =>
    simp only [apply, gain, total_update]
    rw [slotValue_spend worth (finite key) fits.1]
    omega
  | create key outs =>
    simp only [apply, gain, total_update]
    rw [fits, slotValue_empty]
    omega

def FiniteEvent : Event Key Out → Prop
  | .spend _ _ _ _ => True
  | .create _ outs => FiniteSlot outs

omit [Fintype Key] in
theorem finite_updateKey (finite : FiniteLedger L) (key : Key) (made : FiniteSlot slot) :
    FiniteLedger (Function.update L key slot) := by
  intro other
  by_cases same : other = key
  · subst same
    rw [Function.update_self]
    exact made
  · rw [Function.update_of_ne same]
    exact finite other

omit [Fintype Key] in
theorem finite_apply (finite : FiniteLedger L) (made : FiniteEvent event) :
    FiniteLedger (apply event L) := by
  cases event with
  | spend key n out last => exact finite_updateKey finite key (finite_update (finite key) n none)
  | create key outs => exact finite_updateKey finite key made

theorem total_applyAll {events : List (Event Key Out)} (finite : FiniteLedger L)
    (made : ∀ event ∈ events, FiniteEvent event) (fits : FitsAll events L) :
    total worth (applyAll events L) = total worth L + (events.map (gain worth)).sum := by
  induction events generalizing L with
  | nil => simp
  | cons event rest ih =>
    have kept := finite_apply finite (made event (by simp))
    rw [applyAll_cons, ih kept (fun other member => made other (by simp [member])) fits.2,
      total_apply worth finite fits.1, List.map_cons, List.sum_cons]
    omega

end Value

end OutputLedger
