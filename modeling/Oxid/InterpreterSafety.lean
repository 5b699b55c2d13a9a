import Oxid.Interpreter
import Oxid.Library.Runs

/-!
No evaluation runs into a fault, and after every opcode the stacks are small.
-/
namespace OxidInterpreterSafety
open OxidPrimitives OxidScript OxidScriptNum OxidSignatureEncoding OxidInterpreter
open Attempt Triples Runs

structure Small (machine : Machine) : Prop where
  stack : ∀ vch ∈ machine.stack, vch.length ≤ MAX_SCRIPT_ELEMENT_SIZE
  altstack : ∀ vch ∈ machine.altstack, vch.length ≤ MAX_SCRIPT_ELEMENT_SIZE

structure Sound (machine : Machine) : Prop where
  small : Small machine
  few : machine.stack.length + machine.altstack.length ≤ 1000

structure Holding (n : Nat) (machine : Machine) : Prop where
  deep : n ≤ machine.stack.length
  small : Small machine

def Safe {σ α : Type} (pre : σ → Prop) (run : EStateM Stop σ α) (post : α → σ → Prop) : Prop :=
  Triple pre run post fun stop _ => stop.isFault = false

section Rules

variable {σ α β : Type} {pre middle : σ → Prop} {post : β → σ → Prop}

variable {next : α → EStateM Stop σ β}

theorem then_safe {first : EStateM Stop σ α} (head : Safe pre first fun _ => middle)
    (tail : ∀ value, Safe middle (next value) post) : Safe pre (first >>= next) post :=
  triple_bind head tail

theorem value_safe {first : EStateM Stop σ α} {fact : α → Prop}
    (head : Safe pre first fun value machine => fact value ∧ middle machine)
    (tail : ∀ value, fact value → Safe middle (next value) post) :
    Safe pre (first >>= next) post := by
  apply triple_bind head
  intro value machine both
  exact tail value both.1 machine both.2

theorem safe_from {run : EStateM Stop σ α} {post : α → σ → Prop} (safe : Safe middle run post)
    (starts : ∀ machine, pre machine → middle machine) : Safe pre run post :=
  triple_weaken safe starts (fun _ _ holds => holds) (fun _ _ holds => holds)

theorem safe_to {run : EStateM Stop σ α} {stronger weaker : α → σ → Prop}
    (safe : Safe pre run stronger) (ends : ∀ value machine, stronger value machine →
      weaker value machine) : Safe pre run weaker :=
  triple_weaken safe (fun _ holds => holds) ends (fun _ _ holds => holds)

theorem safe_pure {value : α} {post : α → σ → Prop}
    (holds : ∀ state, pre state → post value state) : Safe pre (pure value) post :=
  triple_pure holds

theorem safe_check {outcome : Except Stop α} {fact : α → Prop} (faultless : Faultless outcome)
    (known : ∀ value, outcome = .ok value → fact value) :
    Safe pre (check outcome) fun value machine => fact value ∧ pre machine := by
  apply triple_check
  · intro value passed machine holds
    exact ⟨known value passed, holds⟩
  · intro stop failed machine _
    exact faultless stop failed

theorem safe_number {outcome : Except Stop α} {fact : α → Prop}
    (done : ∃ value, outcome = .ok value ∧ fact value) :
    Safe pre (check outcome) fun value machine => fact value ∧ pre machine := by
  obtain ⟨value, succeeded, holds⟩ := done
  rw [succeeded]
  apply safe_check (faultless_ok value)
  intro other same
  cases same
  exact holds

theorem safe_inside {pre : Machine → Prop} {post : α → Machine → Prop} {run : Machining α}
    (safe : Safe pre run post) :
    Safe (fun state : EvalState => pre state.1) (inside run) fun value state => post value state.1 := by
  have both := @triple_inside _ _ (List CheckCall) _ _ _ _ _ (fun _ => True) safe
  apply triple_weaken both
  · exact fun state holds => ⟨holds, trivial⟩
  · exact fun value state holds => holds.1
  · exact fun stop state holds => holds.1

end Rules

section MachineRules

variable {α β : Type} {pre : Machine → Prop} {post : β → Machine → Prop}

theorem holding_small {run : Machining Unit} {n : Nat} (safe : Safe pre run fun _ => Holding n) :
    Safe pre run fun _ => Small :=
  safe_to safe fun _ _ holding => holding.small

theorem safe_refuse (serror : ScriptError) {post : α → Machine → Prop} :
    Safe pre (refuse serror : Machining α) post :=
  triple_failing fun _ _ => rfl

theorem safe_demand (holds : Bool) (serror : ScriptError) :
    Safe pre (demand holds serror) fun _ machine => holds = true ∧ pre machine :=
  safe_check (faultless_ensure holds serror) fun _ passed => ensure_ok.mp passed

theorem safe_reading_stack {next : Stack → Machining β}
    (tail : ∀ stack, Safe (fun machine => machine.stack = stack ∧ pre machine) (next stack) post) :
    Safe pre (reading (·.stack) >>= next) post := by
  intro machine holds
  exact tail machine.stack machine ⟨rfl, holds⟩

end MachineRules

section Elements

variable {n : Nat}

theorem safe_needStack (n : Nat) (serror : ScriptError) :
    Safe Small (needStack n serror) fun _ => Holding n := by
  apply safe_reading_stack
  intro stack
  apply safe_to (safe_demand _ _)
  rintro _ machine ⟨enough, same, small⟩
  have deep : n ≤ stack.length := by simpa using enough
  exact ⟨by rw [same]; exact deep, small⟩

theorem fromTop_some {i : Nat} {stack : Stack} (positive : 1 ≤ i) (deep : i ≤ stack.length) :
    ∃ vch, fromTop i stack = some vch ∧ vch ∈ stack := by
  obtain ⟨k, rfl⟩ : ∃ k, i = k + 1 := ⟨i - 1, by omega⟩
  have inside : k < stack.length := by omega
  exact ⟨stack[k], List.getElem?_eq_getElem inside, List.getElem_mem inside⟩

theorem safe_stacktop {i : Nat} (positive : 1 ≤ i) (deep : i ≤ n) :
    Safe (Holding n) (stacktop i)
      fun vch machine => vch.length ≤ MAX_SCRIPT_ELEMENT_SIZE ∧ Holding n machine := by
  apply safe_reading_stack
  rintro stack machine ⟨rfl, holding⟩
  obtain ⟨vch, found, member⟩ := fromTop_some positive (Nat.le_trans deep holding.deep)
  rw [found]
  exact ⟨holding.small.stack vch member, holding⟩

theorem safe_rearrange {kept : Nat} {change : Stack → Option Stack}
    (changes : ∀ stack : Stack, n ≤ stack.length → ∃ changed, change stack = some changed ∧
      kept ≤ changed.length ∧ ∀ vch ∈ changed, vch.length ≤ MAX_SCRIPT_ELEMENT_SIZE ∨ vch ∈ stack) :
    Safe (Holding n) (rearrange change) fun _ => Holding kept := by
  apply safe_reading_stack
  rintro stack machine ⟨rfl, holding⟩
  obtain ⟨changed, done, deep, members⟩ := changes machine.stack holding.deep
  rw [done]
  refine ⟨deep, ⟨?_, holding.small.altstack⟩⟩
  intro vch member
  rcases members vch member with short | old
  · exact short
  · exact holding.small.stack vch old

theorem safe_popstack : Safe (Holding (n + 1)) popstack fun _ => Holding n := by
  apply safe_rearrange
  intro stack deep
  cases stack with
  | nil => simp at deep
  | cons top rest =>
    have left : n ≤ rest.length := by
      rw [List.length_cons] at deep
      omega
    exact ⟨rest, rfl, left, fun vch member => Or.inr (List.mem_cons_of_mem top member)⟩

theorem safe_erased {i j : Nat} (ordered : j ≤ i) (deep : i ≤ n) :
    Safe (Holding n) (rearrange (erased i j)) fun _ => Holding (n - (i - j)) := by
  apply safe_rearrange
  intro stack enough
  refine ⟨stack.take j ++ stack.drop i, ?_, ?_, ?_⟩
  · unfold erased
    rw [if_pos ⟨ordered, by omega⟩]
  · simp only [List.length_append, List.length_take, List.length_drop]
    omega
  · intro vch member
    rcases List.mem_append.mp member with low | high
    · exact Or.inr (List.mem_of_mem_take low)
    · exact Or.inr (List.mem_of_mem_drop high)

theorem safe_inserted {i : Nat} {vch : Element} (deep : i ≤ n)
    (short : vch.length ≤ MAX_SCRIPT_ELEMENT_SIZE) :
    Safe (Holding n) (rearrange (inserted i vch)) fun _ => Holding (n + 1) := by
  apply safe_rearrange
  intro stack enough
  refine ⟨stack.take i ++ vch :: stack.drop i, ?_, ?_, ?_⟩
  · unfold inserted
    rw [if_pos (by omega)]
  · simp only [List.length_append, List.length_take, List.length_cons, List.length_drop]
    omega
  · intro other member
    rcases List.mem_append.mp member with low | high
    · exact Or.inr (List.mem_of_mem_take low)
    · rcases List.mem_cons.mp high with same | later
      · exact Or.inl (by rw [same]; exact short)
      · exact Or.inr (List.mem_of_mem_drop later)

theorem safe_swapped {i j : Nat} (positive : 1 ≤ i ∧ 1 ≤ j) (deep : i ≤ n ∧ j ≤ n) :
    Safe (Holding n) (rearrange (swapped i j)) fun _ => Holding n := by
  apply safe_rearrange
  intro stack enough
  obtain ⟨first, foundFirst, memberFirst⟩ := fromTop_some positive.1 (Nat.le_trans deep.1 enough)
  obtain ⟨second, foundSecond, memberSecond⟩ :=
    fromTop_some positive.2 (Nat.le_trans deep.2 enough)
  refine ⟨(stack.set (i - 1) second).set (j - 1) first, ?_, ?_, ?_⟩
  · unfold swapped
    rw [foundFirst, foundSecond]
    rfl
  · simpa using enough
  · intro vch member
    rcases List.mem_or_eq_of_mem_set member with earlier | same
    · rcases List.mem_or_eq_of_mem_set earlier with old | same
      · exact Or.inr old
      · exact Or.inr (by rw [same]; exact memberSecond)
    · exact Or.inr (by rw [same]; exact memberFirst)

theorem safe_push {vch : Element} (short : vch.length ≤ MAX_SCRIPT_ELEMENT_SIZE) :
    Safe (Holding n) (pushStack vch) fun _ => Holding (n + 1) := by
  apply triple_update
  intro machine holding
  refine ⟨?_, ⟨?_, holding.small.altstack⟩⟩
  · have deep := holding.deep
    simp only [List.length_cons]
    omega
  · intro other member
    rcases List.mem_cons.mp member with same | old
    · rw [same]
      exact short
    · exact holding.small.stack other old

theorem safe_pushNumber {bn : CScriptNum} (moderate : Moderate bn) :
    Safe (Holding n) (pushNumber bn) fun _ => Holding (n + 1) := by
  apply value_safe (safe_number (getvch_moderate moderate))
  intro vch short
  have limit : MAX_SCRIPT_ELEMENT_SIZE = 520 := rfl
  exact safe_push (by omega)

theorem boolElement_short (holds : Bool) :
    (boolElement holds).length ≤ MAX_SCRIPT_ELEMENT_SIZE := by
  cases holds <;> decide

theorem safe_popVerified (verified fSuccess : Bool) (serror : ScriptError) :
    Safe (Holding (n + 1)) (popVerified verified fSuccess serror) fun _ => Small := by
  unfold popVerified
  split
  · split
    · exact holding_small safe_popstack
    · exact safe_refuse serror
  · exact safe_pure fun machine holding => holding.small

theorem small_holding {machine : Machine} (small : Small machine) : Holding 0 machine :=
  ⟨Nat.zero_le _, small⟩

end Elements

section StackOperations

theorem opBranch_safe (negated fExec : Bool) :
    Safe Small (opBranch negated fExec) fun _ => Small := by
  have value : Safe Small (branchValue negated fExec) fun _ => Small := by
    unfold branchValue
    split
    · apply then_safe (safe_needStack 1 _)
      intro _
      apply value_safe (safe_stacktop (Nat.le_refl 1) (Nat.le_refl 1))
      intro vch _
      apply then_safe safe_popstack
      intro _
      exact safe_pure fun machine holding => holding.small
    · exact safe_pure fun machine small => small
  apply then_safe value
  intro fValue
  exact triple_update fun machine small => ⟨small.stack, small.altstack⟩

theorem opElse_safe : Safe Small opElse fun _ => Small := by
  intro machine small
  unfold opElse
  simp only [bind, EStateM.bind, reading]
  cases machine.vfExec with
  | nil => exact safe_refuse .UNBALANCED_CONDITIONAL machine small
  | cons back before => exact ⟨small.stack, small.altstack⟩

theorem opEndIf_safe : Safe Small opEndIf fun _ => Small := by
  intro machine small
  unfold opEndIf
  simp only [bind, EStateM.bind, reading]
  cases machine.vfExec with
  | nil => exact safe_refuse .UNBALANCED_CONDITIONAL machine small
  | cons back before => exact ⟨small.stack, small.altstack⟩

theorem opVerify_safe : Safe Small opVerify fun _ => Small := by
  apply then_safe (safe_needStack 1 _)
  intro _
  apply value_safe (safe_stacktop (Nat.le_refl 1) (Nat.le_refl 1))
  intro vch _
  exact safe_popVerified true _ _

theorem opToAltStack_safe : Safe Small opToAltStack fun _ => Small := by
  apply then_safe (safe_needStack 1 _)
  intro _
  apply value_safe (safe_stacktop (Nat.le_refl 1) (Nat.le_refl 1))
  intro vch short
  have moved : Safe (Holding 1)
      (update fun machine : Machine => { machine with altstack := vch :: machine.altstack })
      fun _ => Holding 1 := by
    apply triple_update
    intro machine holding
    refine ⟨holding.deep, ⟨holding.small.stack, ?_⟩⟩
    intro other member
    rcases List.mem_cons.mp member with same | old
    · rw [same]
      exact short
    · exact holding.small.altstack other old
  apply then_safe moved
  intro _
  exact holding_small safe_popstack

theorem opFromAltStack_safe : Safe Small opFromAltStack fun _ => Small := by
  intro machine small
  unfold opFromAltStack
  simp only [bind, EStateM.bind, reading]
  cases stored : machine.altstack with
  | nil => exact rfl
  | cons vch rest =>
    have members := small.altstack
    rw [stored] at members
    refine ⟨?_, ?_⟩
    · intro other member
      rcases List.mem_cons.mp member with same | old
      · rw [same]
        exact members vch (by simp)
      · exact small.stack other old
    · intro other member
      exact members other (List.mem_cons_of_mem vch member)

theorem op2Drop_safe : Safe Small op2Drop fun _ => Small := by
  apply then_safe (safe_needStack 2 _)
  intro _
  apply then_safe safe_popstack
  intro _
  exact holding_small safe_popstack

theorem op2Dup_safe : Safe Small op2Dup fun _ => Small := by
  apply then_safe (safe_needStack 2 _)
  intro _
  apply value_safe (safe_stacktop (by omega) (Nat.le_refl 2))
  intro vch1 short1
  apply value_safe (safe_stacktop (by omega) (by omega))
  intro vch2 short2
  apply then_safe (safe_push short1)
  intro _
  exact holding_small (safe_push short2)

theorem op3Dup_safe : Safe Small op3Dup fun _ => Small := by
  apply then_safe (safe_needStack 3 _)
  intro _
  apply value_safe (safe_stacktop (by omega) (Nat.le_refl 3))
  intro vch1 short1
  apply value_safe (safe_stacktop (by omega) (by omega))
  intro vch2 short2
  apply value_safe (safe_stacktop (by omega) (by omega))
  intro vch3 short3
  apply then_safe (safe_push short1)
  intro _
  apply then_safe (safe_push short2)
  intro _
  exact holding_small (safe_push short3)

theorem op2Over_safe : Safe Small op2Over fun _ => Small := by
  apply then_safe (safe_needStack 4 _)
  intro _
  apply value_safe (safe_stacktop (by omega) (Nat.le_refl 4))
  intro vch1 short1
  apply value_safe (safe_stacktop (by omega) (by omega))
  intro vch2 short2
  apply then_safe (safe_push short1)
  intro _
  exact holding_small (safe_push short2)

theorem op2Rot_safe : Safe Small op2Rot fun _ => Small := by
  apply then_safe (safe_needStack 6 _)
  intro _
  apply value_safe (safe_stacktop (by omega) (Nat.le_refl 6))
  intro vch1 short1
  apply value_safe (safe_stacktop (by omega) (by omega))
  intro vch2 short2
  apply then_safe (safe_erased (by omega) (Nat.le_refl 6))
  intro _
  apply then_safe (safe_push short1)
  intro _
  exact holding_small (safe_push short2)

theorem op2Swap_safe : Safe Small op2Swap fun _ => Small := by
  apply then_safe (safe_needStack 4 _)
  intro _
  apply then_safe (safe_swapped (by omega) (by omega))
  intro _
  exact holding_small (safe_swapped (by omega) (by omega))

theorem opIfDup_safe : Safe Small opIfDup fun _ => Small := by
  apply then_safe (safe_needStack 1 _)
  intro _
  apply value_safe (safe_stacktop (by omega) (Nat.le_refl 1))
  intro vch short
  split
  · exact holding_small (safe_push short)
  · exact safe_pure fun machine holding => holding.small

theorem opDepth_safe : Safe Sound opDepth fun _ => Small := by
  apply safe_reading_stack
  intro stack
  have few : ∀ machine : Machine, machine.stack = stack ∧ Sound machine → stack.length ≤ 1000 := by
    rintro machine ⟨rfl, sound⟩
    have together := sound.few
    omega
  apply triple_given few
  intro size
  have counted : ∃ bn, int64 stack.length = .ok bn ∧ Moderate bn := by
    obtain ⟨bn, done, _, moderate⟩ := int64_moderate stack.length (by omega) (by omega)
    exact ⟨bn, done, moderate⟩
  apply value_safe (safe_number counted)
  intro bn moderate
  exact holding_small (safe_from (safe_pushNumber moderate)
    fun machine both => small_holding both.2.small)

theorem opDrop_safe : Safe Small opDrop fun _ => Small := by
  apply then_safe (safe_needStack 1 _)
  intro _
  exact holding_small safe_popstack

theorem opDup_safe : Safe Small opDup fun _ => Small := by
  apply then_safe (safe_needStack 1 _)
  intro _
  apply value_safe (safe_stacktop (by omega) (Nat.le_refl 1))
  intro vch short
  exact holding_small (safe_push short)

theorem opNip_safe : Safe Small opNip fun _ => Small := by
  apply then_safe (safe_needStack 2 _)
  intro _
  exact holding_small (safe_erased (by omega) (Nat.le_refl 2))

theorem opOver_safe : Safe Small opOver fun _ => Small := by
  apply then_safe (safe_needStack 2 _)
  intro _
  apply value_safe (safe_stacktop (by omega) (Nat.le_refl 2))
  intro vch short
  exact holding_small (safe_push short)

theorem opRot_safe : Safe Small opRot fun _ => Small := by
  apply then_safe (safe_needStack 3 _)
  intro _
  apply then_safe (safe_swapped (by omega) (by omega))
  intro _
  exact holding_small (safe_swapped (by omega) (by omega))

theorem opSwap_safe : Safe Small opSwap fun _ => Small := by
  apply then_safe (safe_needStack 2 _)
  intro _
  exact holding_small (safe_swapped (by omega) (by omega))

theorem opTuck_safe : Safe Small opTuck fun _ => Small := by
  apply then_safe (safe_needStack 2 _)
  intro _
  apply value_safe (safe_stacktop (by omega) (by omega))
  intro vch short
  exact holding_small (safe_inserted (Nat.le_refl 2) short)

theorem opSize_safe : Safe Small opSize fun _ => Small := by
  apply then_safe (safe_needStack 1 _)
  intro _
  apply value_safe (safe_stacktop (by omega) (Nat.le_refl 1))
  intro vch short
  have limit : MAX_SCRIPT_ELEMENT_SIZE = 520 := rfl
  have counted : ∃ bn, int64 vch.length = .ok bn ∧ Moderate bn := by
    obtain ⟨bn, done, _, moderate⟩ := int64_moderate vch.length (by omega) (by omega)
    exact ⟨bn, done, moderate⟩
  apply value_safe (safe_number counted)
  intro bn moderate
  exact holding_small (safe_pushNumber moderate)

theorem opEqual_safe (verified : Bool) : Safe Small (opEqual verified) fun _ => Small := by
  apply then_safe (safe_needStack 2 _)
  intro _
  apply value_safe (safe_stacktop (by omega) (Nat.le_refl 2))
  intro vch1 _
  apply value_safe (safe_stacktop (by omega) (by omega))
  intro vch2 _
  apply then_safe safe_popstack
  intro _
  apply then_safe safe_popstack
  intro _
  apply then_safe (safe_push (boolElement_short _))
  intro _
  exact safe_popVerified verified _ _

end StackOperations

section NumberOperations

variable {n : Nat} (verifier : Verifier)

theorem safe_stackNumber {i : Nat} (positive : 1 ≤ i) (deep : i ≤ n) :
    Safe (Holding n) (stackNumber verifier i)
      fun bn machine => Operand bn ∧ Holding n machine := by
  apply value_safe (safe_stacktop positive deep)
  intro vch _
  rcases ofVch_cases vch (fRequireMinimal verifier) with failed | ⟨bn, done, _, operand⟩
  · rw [failed]
    apply safe_check
    · intro stop same
      cases same
      rfl
    · intro bn done
      cases done
  · exact safe_number ⟨bn, done, operand⟩

theorem opPick_safe (roll : Bool) : Safe Small (opPick verifier roll) fun _ => Small := by
  apply then_safe (safe_needStack 2 _)
  intro _
  apply value_safe (safe_stackNumber verifier (by omega) (by omega))
  intro bn _
  apply then_safe safe_popstack
  intro _
  apply safe_reading_stack
  intro stack
  apply value_safe (safe_demand _ _)
  intro _ within
  simp only [Bool.and_eq_true, decide_eq_true_eq] at within
  have deep : (getint bn).toNat + 1 ≤ stack.length := by omega
  have holds : ∀ machine : Machine, machine.stack = stack ∧ Holding 1 machine →
      Holding ((getint bn).toNat + 1) machine := by
    rintro machine ⟨rfl, holding⟩
    exact ⟨deep, holding.small⟩
  apply safe_from _ holds
  apply value_safe (safe_stacktop (by omega) (Nat.le_refl _))
  intro vch short
  have taken : Safe (Holding ((getint bn).toNat + 1)) (takeRolled roll (getint bn).toNat)
      fun _ => Holding 0 := by
    unfold takeRolled
    split
    · exact safe_to (safe_erased (by omega) (Nat.le_refl _))
        fun _ machine holding => small_holding holding.small
    · exact safe_pure fun machine holding => small_holding holding.small
  apply then_safe taken
  intro _
  exact holding_small (safe_push short)

theorem unaryResult_operand {bn : CScriptNum} (operand : Operand bn) (op : UnaryOp) :
    ∃ result, unaryResult bn op = .ok result ∧ Moderate result := by
  cases op with
  | add1 => exact addAssign_one operand
  | sub1 => exact subAssign_one operand
  | negate => exact negate_operand operand
  | abs =>
    simp only [unaryResult]
    split
    · exact negate_operand operand
    · exact ⟨bn, rfl, operand.moderate⟩
  | not => exact ⟨_, rfl, ofBool_moderate _⟩
  | zeroNotEqual => exact ⟨_, rfl, ofBool_moderate _⟩

theorem opUnary_safe (op : UnaryOp) : Safe Small (opUnary verifier op) fun _ => Small := by
  apply then_safe (safe_needStack 1 _)
  intro _
  apply value_safe (safe_stackNumber verifier (by omega) (Nat.le_refl 1))
  intro bn operand
  apply value_safe (safe_number (unaryResult_operand operand op))
  intro result moderate
  apply then_safe safe_popstack
  intro _
  exact holding_small (safe_pushNumber moderate)

theorem binaryResult_operands {bn1 bn2 : CScriptNum} (first : Operand bn1) (second : Operand bn2)
    (op : BinaryOp) : ∃ result, binaryResult bn1 bn2 op = .ok result ∧ Moderate result := by
  cases op with
  | add => exact add_operands first second
  | sub => exact sub_operands first second
  | min =>
    refine ⟨_, rfl, ?_⟩
    split
    · exact first.moderate
    · exact second.moderate
  | max =>
    refine ⟨_, rfl, ?_⟩
    split
    · exact first.moderate
    · exact second.moderate
  | _ => exact ⟨_, rfl, ofBool_moderate _⟩

theorem opBinary_safe (op : BinaryOp) : Safe Small (opBinary verifier op) fun _ => Small := by
  apply then_safe (safe_needStack 2 _)
  intro _
  apply value_safe (safe_stackNumber verifier (by omega) (Nat.le_refl 2))
  intro bn1 first
  apply value_safe (safe_stackNumber verifier (by omega) (by omega))
  intro bn2 second
  apply value_safe (safe_number (binaryResult_operands first second op))
  intro result moderate
  apply then_safe safe_popstack
  intro _
  apply then_safe safe_popstack
  intro _
  apply then_safe (safe_pushNumber moderate)
  intro _
  unfold numEqualVerified
  split
  · apply value_safe (safe_stacktop (Nat.le_refl 1) (Nat.le_refl 1))
    intro vch _
    exact safe_popVerified true _ _
  · exact safe_pure fun machine holding => holding.small

theorem opWithin_safe : Safe Small (opWithin verifier) fun _ => Small := by
  apply then_safe (safe_needStack 3 _)
  intro _
  apply value_safe (safe_stackNumber verifier (by omega) (Nat.le_refl 3))
  intro bn1 _
  apply value_safe (safe_stackNumber verifier (by omega) (by omega))
  intro bn2 _
  apply value_safe (safe_stackNumber verifier (by omega) (by omega))
  intro bn3 _
  apply then_safe safe_popstack
  intro _
  apply then_safe safe_popstack
  intro _
  apply then_safe safe_popstack
  intro _
  exact holding_small (safe_push (boolElement_short _))

theorem hashed_short (vch : Element) (op : HashOp) :
    (hashed verifier vch op).length ≤ MAX_SCRIPT_ELEMENT_SIZE := by
  have limit : MAX_SCRIPT_ELEMENT_SIZE = 520 := rfl
  cases op <;> simp [hashed, limit]

theorem opHash_safe (op : HashOp) : Safe Small (opHash verifier op) fun _ => Small := by
  apply then_safe (safe_needStack 1 _)
  intro _
  apply value_safe (safe_stacktop (by omega) (Nat.le_refl 1))
  intro vch _
  apply then_safe safe_popstack
  intro _
  exact holding_small (safe_push (hashed_short verifier vch op))

end NumberOperations

section SignatureOperations

variable {n : Nat} (verifier : Verifier)

theorem safe_checkSigCall (vchSig vchPubKey : Element) (scriptCode : CScript) :
    Safe (fun state : EvalState => Holding n state.1)
      (checkSigCall verifier vchSig vchPubKey scriptCode) fun _ state => Holding n state.1 := by
  have signature := safe_inside (@safe_check _ _ (Holding n) _ (fun _ => True)
    (checkSignatureEncoding_faultless verifier.flags vchSig) fun _ _ => trivial)
  have key := safe_inside (@safe_check _ _ (Holding n) _ (fun _ => True)
    (checkPubKeyEncoding_faultless verifier.flags vchPubKey) fun _ _ => trivial)
  apply value_safe signature
  intro _ _
  apply value_safe key
  intro _ _
  exact triple_bind (triple_update fun state holding => holding)
    fun _ => safe_pure fun state holding => holding

theorem opCheckSig_safe (verified : Bool) :
    Safe (fun state : EvalState => Small state.1) (opCheckSig verifier verified)
      fun _ state => Small state.1 := by
  apply then_safe (safe_inside (safe_needStack 2 _))
  intro _
  apply value_safe (safe_inside (safe_stacktop (by omega) (Nat.le_refl 2)))
  intro vchSig _
  apply value_safe (safe_inside (safe_stacktop (by omega) (by omega)))
  intro vchPubKey _
  have code : Safe (Holding 2) (reading (·.pbegincodehash)) fun _ => Holding 2 :=
    triple_reading fun machine holding => holding
  apply then_safe (safe_inside code)
  intro scriptCode
  apply then_safe (safe_checkSigCall verifier _ _ _)
  intro fSuccess
  apply safe_inside
  apply then_safe safe_popstack
  intro _
  apply then_safe safe_popstack
  intro _
  apply then_safe (safe_push (boolElement_short fSuccess))
  intro _
  exact safe_popVerified verified _ _

theorem safe_countOps {kept : Machine → Prop} (more : Nat)
    (unaffected : ∀ machine nOpCount, kept machine → kept { machine with nOpCount := nOpCount }) :
    Safe kept (countOps more) fun _ => kept := by
  have counted : Safe kept
      (update fun machine : Machine => { machine with nOpCount := machine.nOpCount + more })
      fun _ => kept := triple_update fun machine holds => unaffected machine _ holds
  apply then_safe counted
  intro _
  have read : Safe kept (reading (·.nOpCount)) fun _ => kept :=
    triple_reading fun machine holds => holds
  apply then_safe read
  intro nOpCount
  exact safe_to (safe_demand _ _) fun _ machine both => both.2

theorem safe_keysCount :
    Safe Small (keysCount verifier) fun nKeysCount machine => nKeysCount ≤ 20 ∧ Small machine := by
  apply then_safe (safe_needStack 1 _)
  intro _
  apply value_safe (safe_stackNumber verifier (Nat.le_refl 1) (Nat.le_refl 1))
  intro bn _
  apply value_safe (safe_demand _ _)
  intro _ within
  simp only [Bool.and_eq_true, decide_eq_true_eq] at within
  have counted := safe_countOps (getint bn).toNat fun machine nOpCount (small : Small machine) =>
    (⟨small.stack, small.altstack⟩ : Small { machine with nOpCount := nOpCount })
  apply then_safe (safe_from counted fun machine holding => holding.small)
  intro _
  exact safe_pure fun machine small => ⟨by omega, small⟩

theorem safe_sigsCount (nKeysCount : Nat) :
    Safe Small (sigsCount verifier nKeysCount)
      fun nSigsCount machine => nSigsCount ≤ nKeysCount ∧ Small machine := by
  apply then_safe (safe_needStack _ _)
  intro _
  apply value_safe (safe_stackNumber verifier (by omega) (Nat.le_refl _))
  intro bn _
  apply value_safe (safe_demand _ _)
  intro _ within
  simp only [Bool.and_eq_true, decide_eq_true_eq] at within
  exact safe_pure fun machine holding => ⟨by omega, holding.small⟩

theorem safe_dropSignatures {isig nSigsCount : Nat} (scriptCode : CScript) (positive : 1 ≤ isig)
    (deep : isig + nSigsCount ≤ n + 1) :
    Safe (Holding n) (dropSignatures isig nSigsCount scriptCode) fun _ => Holding n := by
  induction nSigsCount generalizing isig scriptCode with
  | zero => exact safe_pure fun machine holding => holding
  | succ left ih =>
    apply value_safe (safe_stacktop positive (by omega))
    intro vchSig _
    exact ih _ (by omega) (by omega)

theorem safe_matchSignatures {nKeysCount nSigsCount isig ikey : Nat} (scriptCode : CScript)
    (positive : 1 ≤ isig ∧ 1 ≤ ikey) (sigsDeep : isig + nSigsCount ≤ n + 1)
    (keysDeep : ikey + nKeysCount ≤ n + 1) :
    Safe (fun state : EvalState => Holding n state.1)
      (matchSignatures verifier scriptCode nKeysCount nSigsCount isig ikey)
      fun _ state => Holding n state.1 := by
  induction nKeysCount generalizing nSigsCount isig ikey with
  | zero => cases nSigsCount <;> exact safe_pure fun state holding => holding
  | succ nKeysCount ih =>
    cases nSigsCount with
    | zero => exact safe_pure fun state holding => holding
    | succ nSigsCount =>
      simp only [matchSignatures]
      apply value_safe (safe_inside (safe_stacktop positive.1 (by omega)))
      intro vchSig _
      apply value_safe (safe_inside (safe_stacktop positive.2 (by omega)))
      intro vchPubKey _
      apply then_safe (safe_checkSigCall verifier _ _ _)
      intro fOk
      split_ifs
      · exact safe_pure fun state holding => holding
      · exact ih (by omega) (by omega) (by omega)
      · exact safe_pure fun state holding => holding
      · exact ih ⟨positive.1, by omega⟩ (by omega) (by omega)

theorem safe_popTimes (times : Nat) :
    Safe (Holding (n + times)) (popTimes times) fun _ => Holding n := by
  induction times with
  | zero => exact safe_pure fun machine holding => holding
  | succ times ih =>
    apply then_safe safe_popstack
    intro _
    exact ih

theorem popDummy_safe : Safe Small (popDummy verifier) fun _ => Holding 0 := by
  apply then_safe (safe_needStack 1 _)
  intro _
  apply value_safe (safe_stacktop (Nat.le_refl 1) (Nat.le_refl 1))
  intro vch _
  apply value_safe (safe_demand _ _)
  intro _ _
  exact safe_popstack

theorem opCheckMultiSig_safe (verified : Bool) :
    Safe (fun state : EvalState => Small state.1) (opCheckMultiSig verifier verified)
      fun _ state => Small state.1 := by
  apply value_safe (safe_inside (safe_keysCount verifier))
  intro nKeysCount _
  apply value_safe (safe_inside (safe_sigsCount verifier nKeysCount))
  intro nSigsCount fewer
  apply then_safe (safe_inside (safe_needStack (3 + nKeysCount + nSigsCount) _))
  intro _
  have code : Safe (Holding (3 + nKeysCount + nSigsCount)) (reading (·.pbegincodehash))
      fun _ => Holding (3 + nKeysCount + nSigsCount) :=
    triple_reading fun machine holding => holding
  apply then_safe (safe_inside code)
  intro begun
  apply then_safe (safe_inside (safe_dropSignatures begun (by omega) (by omega)))
  intro scriptCode
  apply then_safe (safe_matchSignatures verifier scriptCode (by omega) (by omega) (by omega))
  intro fSuccess
  have arguments : 3 + nKeysCount + nSigsCount =
      1 + (3 + nKeysCount + nSigsCount - 1) := by omega
  apply safe_inside
  apply then_safe (safe_from (safe_popTimes _) fun machine holding => arguments ▸ holding)
  intro _
  apply then_safe (safe_from (popDummy_safe verifier) fun machine holding => holding.small)
  intro _
  apply then_safe (safe_push (boolElement_short fSuccess))
  intro _
  exact safe_popVerified verified _ _

end SignatureOperations

section Loop

variable (verifier : Verifier)

theorem executePlain_safe (fExec : Bool) (opcode : Opcode) (pc : CScript) (op : PlainOp) :
    Safe Sound (executePlain verifier fExec opcode pc op) fun _ => Small := by
  have only_small : ∀ {run : Machining Unit}, (Safe Small run fun _ => Small) →
      Safe Sound run fun _ => Small := fun safe => safe_from safe fun machine sound => sound.small
  cases op with
  | smallInteger =>
    apply value_safe (safe_number (ofSmallOpcode_moderate opcode))
    intro bn moderate
    exact holding_small (safe_from (safe_pushNumber moderate)
      fun machine sound => small_holding sound.small)
  | nop => exact safe_pure fun machine sound => sound.small
  | upgradableNop =>
    apply only_small
    exact safe_to (safe_demand _ _) fun _ machine both => both.2
  | branch negated => exact only_small (opBranch_safe negated fExec)
  | otherwise => exact only_small opElse_safe
  | endIf => exact only_small opEndIf_safe
  | verify => exact only_small opVerify_safe
  | «return» => exact safe_refuse _
  | toAltStack => exact only_small opToAltStack_safe
  | fromAltStack => exact only_small opFromAltStack_safe
  | drop2 => exact only_small op2Drop_safe
  | dup2 => exact only_small op2Dup_safe
  | dup3 => exact only_small op3Dup_safe
  | over2 => exact only_small op2Over_safe
  | rot2 => exact only_small op2Rot_safe
  | swap2 => exact only_small op2Swap_safe
  | ifDup => exact only_small opIfDup_safe
  | depth => exact opDepth_safe
  | drop => exact only_small opDrop_safe
  | dup => exact only_small opDup_safe
  | nip => exact only_small opNip_safe
  | copySecond => exact only_small opOver_safe
  | pick roll => exact only_small (opPick_safe verifier roll)
  | rot => exact only_small opRot_safe
  | swap => exact only_small opSwap_safe
  | tuck => exact only_small opTuck_safe
  | size => exact only_small opSize_safe
  | equal verified => exact only_small (opEqual_safe verified)
  | unary op => exact only_small (opUnary_safe verifier op)
  | binary op => exact only_small (opBinary_safe verifier op)
  | within => exact only_small (opWithin_safe verifier)
  | hash op => exact only_small (opHash_safe verifier op)
  | codeSeparator =>
    exact triple_update fun machine sound => ⟨sound.small.stack, sound.small.altstack⟩
  | bad => exact safe_refuse _

theorem execute_safe (fExec : Bool) (opcode : Opcode) (pc : CScript) (op : Operation) :
    Safe (fun state : EvalState => Sound state.1) (execute verifier fExec opcode pc op)
      fun _ state => Small state.1 := by
  cases op with
  | plain op => exact safe_inside (executePlain_safe verifier fExec opcode pc op)
  | checkSig verified =>
    exact safe_from (opCheckSig_safe verifier verified) fun state sound => sound.small
  | checkMultiSig verified =>
    exact safe_from (opCheckMultiSig_safe verifier verified) fun state sound => sound.small

theorem dispatch_safe (fExec : Bool) {read : OpRead}
    (short : read.vchRet.length ≤ MAX_SCRIPT_ELEMENT_SIZE) :
    Safe (fun state : EvalState => Sound state.1) (dispatch verifier fExec read)
      fun _ state => Small state.1 := by
  unfold dispatch
  split
  · apply safe_inside
    apply value_safe (safe_demand _ _)
    intro _ _
    exact holding_small (safe_from (safe_push short)
      fun machine sound => small_holding sound.small)
  · split
    · exact execute_safe verifier fExec _ _ _
    · exact safe_pure fun state sound => sound.small

theorem safe_checkLimits (read : OpRead) :
    Safe Sound (checkLimits read) fun _ machine =>
      read.vchRet.length ≤ MAX_SCRIPT_ELEMENT_SIZE ∧ Sound machine := by
  apply value_safe (safe_demand _ _)
  intro _ short
  have counted : Safe Sound (countOp read.opcodeRet) fun _ => Sound := by
    unfold countOp
    split
    · apply safe_countOps
      intro machine nOpCount sound
      exact ⟨⟨sound.small.stack, sound.small.altstack⟩, sound.few⟩
    · exact safe_pure fun machine sound => sound
  apply then_safe counted
  intro _
  apply safe_to (safe_demand _ _)
  intro _ machine both
  exact ⟨by simpa using short, both.2⟩

theorem safe_checkSizes : Safe Small checkSizes fun _ => Sound := by
  have seen : Safe Small (reading id) fun machine machine' =>
      machine' = machine ∧ Small machine' := triple_reading fun machine small => ⟨rfl, small⟩
  apply triple_bind seen
  intro machine
  apply safe_to (safe_demand _ _)
  rintro _ machine' ⟨limited, rfl, small⟩
  exact ⟨small, by simpa using limited⟩

theorem executeOp_safe (read : OpRead) :
    Safe (fun state : EvalState => Sound state.1) (executeOp verifier read)
      fun _ state => Sound state.1 := by
  have seen : Safe Sound (reading executing) fun _ => Sound :=
    triple_reading fun machine sound => sound
  apply then_safe (safe_inside seen)
  intro fExec
  apply value_safe (safe_inside (safe_checkLimits read))
  intro _ short
  apply then_safe (dispatch_safe verifier fExec short)
  intro _
  exact safe_inside safe_checkSizes

theorem evalLoop_safe (pc : CScript) :
    Safe (fun state : EvalState => Sound state.1) (evalLoop verifier pc)
      fun _ state => Sound state.1 := by
  induction pc using script_induction with
  | stops pc failed =>
    rw [evalLoop]
    by_cases done : pc.isEmpty = true
    · rw [if_pos done]
      exact safe_pure fun state sound => sound
    · rw [if_neg done, if_neg (by simp [failed])]
      exact safe_inside (safe_refuse _)
  | reads pc read ih =>
    rw [evalLoop]
    by_cases done : pc.isEmpty = true
    · rw [if_pos done]
      exact safe_pure fun state sound => sound
    · rw [if_neg done, if_pos read]
      apply then_safe (executeOp_safe verifier (getOp pc))
      intro _
      exact ih

theorem checkBalanced_safe : Safe Sound checkBalanced fun _ => Sound := by
  have seen : Safe Sound (reading (·.vfExec)) fun _ => Sound :=
    triple_reading fun machine sound => sound
  apply then_safe seen
  intro vfExec
  exact safe_to (safe_demand _ _) fun _ machine both => both.2

structure SmallStack (stack : Stack) : Prop where
  small : ∀ vch ∈ stack, vch.length ≤ MAX_SCRIPT_ELEMENT_SIZE
  few : stack.length ≤ 1000

theorem begin_sound {stack : Stack} (small : SmallStack stack) (script : CScript) :
    Sound (begin stack script).1 :=
  ⟨⟨small.small, nofun⟩, small.few⟩

theorem sound_stack {machine : Machine} (sound : Sound machine) : SmallStack machine.stack := by
  have few := sound.few
  exact ⟨sound.small.stack, by omega⟩

theorem caught_fault (stop : Stop) : (caught stop).isFault = stop.isFault := by
  cases stop <;> rfl

theorem evalScript_safe {stack : Stack} (small : SmallStack stack) (script : CScript) :
    Faultless (evalScript verifier stack script).verdict ∧
      ((evalScript verifier stack script).verdict = .ok () →
        SmallStack (evalScript verifier stack script).stack) := by
  unfold evalScript
  split
  · refine ⟨?_, nofun⟩
    intro stop same
    cases same
    rfl
  · have whole : Safe (fun state : EvalState => Sound state.1)
        (evalLoop verifier script >>= fun _ => inside checkBalanced)
        fun _ state => Sound state.1 :=
      then_safe (evalLoop_safe verifier script) fun _ => safe_inside checkBalanced_safe
    have ends := whole (begin stack script) (begin_sound small script)
    cases ran : (evalLoop verifier script >>= fun _ => inside checkBalanced) (begin stack script) with
    | ok _ final =>
      rw [ran] at ends
      exact ⟨faultless_ok (), fun _ => sound_stack ends⟩
    | error stop final =>
      rw [ran] at ends
      refine ⟨?_, nofun⟩
      intro other same
      cases same
      rw [caught_fault]
      exact ends

/-- One round of the loop: the position and the state before it and after it. -/
inductive Executed : CScript × EvalState → CScript × EvalState → Prop where
  | opcode {pc : CScript} {state next : EvalState} (left : pc.isEmpty = false)
      (read : (getOp pc).fRet = true)
      (executed : Completes (executeOp verifier (getOp pc)) state () next) :
      Executed (pc, state) ((getOp pc).pc, next)

def Begins (evaluation : Evaluation) (config : CScript × EvalState) : Prop :=
  config = (evaluation.script, begin evaluation.initial evaluation.script)

theorem executed_sound {evaluation : Evaluation} (small : SmallStack evaluation.initial)
    {config : CScript × EvalState}
    (reached : Reachable (Begins evaluation) (Executed verifier) config) :
    Sound config.2.1 := by
  refine @reachable_invariant _ _ _ (fun config => Sound config.2.1) ?_ ?_ config reached
  · rintro config rfl
    exact begin_sound small evaluation.script
  · rintro before after _ sound @⟨pc, state, next, left, read, executed⟩
    have ends := executeOp_safe verifier (getOp pc) state sound
    rw [executed] at ends
    exact ends

end Loop

section Verifying

variable (verifier : Verifier)

theorem hash160_needs (pc : CScript) (calls : List CheckCall) (machine : Machine)
    (empty : machine.stack = []) (fresh : machine.vfExec = [] ∧ machine.nOpCount = 0) :
    ∃ final, executeOp verifier ⟨true, pc, OP_HASH160, []⟩ (machine, calls) =
      .error (.error .INVALID_STACK_OPERATION) final := by
  obtain ⟨stack, altstack, vfExec, pbegincodehash, nOpCount⟩ := machine
  obtain ⟨rfl, rfl⟩ := fresh
  cases empty
  exact ⟨_, rfl⟩

theorem payToScriptHash_head {script : CScript} (p2sh : isPayToScriptHash script = true) :
    ∃ rest, script = OP_HASH160 :: rest := by
  unfold isPayToScriptHash at p2sh
  simp only [Bool.and_eq_true, beq_iff_eq] at p2sh
  cases script with
  | nil => simp at p2sh
  | cons head rest =>
    have same : head = OP_HASH160 := by simpa using p2sh.1.1.2
    exact ⟨rest, by rw [same]⟩

theorem payToScriptHash_empty {script : CScript} (p2sh : isPayToScriptHash script = true) :
    (evalScript verifier [] script).verdict ≠ .ok () := by
  obtain ⟨rest, rfl⟩ := payToScriptHash_head p2sh
  have first : getOp (OP_HASH160 :: rest) = ⟨true, rest, OP_HASH160, []⟩ :=
    getOp_plain OP_HASH160 rest (by decide)
  obtain ⟨final, stopped⟩ := hash160_needs verifier rest [] _ rfl
    (⟨rfl, rfl⟩ : (begin [] (OP_HASH160 :: rest)).1.vfExec = [] ∧ _)
  have loop : (evalLoop verifier (OP_HASH160 :: rest) >>= fun _ => inside checkBalanced)
      (begin [] (OP_HASH160 :: rest)) = .error (.error .INVALID_STACK_OPERATION) final := by
    rw [evalLoop, if_neg (by simp), if_pos (by rw [first]), first]
    simp only [bind, EStateM.bind]
    rw [show begin [] (OP_HASH160 :: rest) = ((begin [] (OP_HASH160 :: rest)).1, []) from rfl,
      stopped]
  unfold evalScript
  split
  · nofun
  · rw [loop]
    nofun

def Recorded (evaluations : List Evaluation) : Prop :=
  ∀ evaluation ∈ evaluations, SmallStack evaluation.initial

def Verified {α : Type} (run : Verifying α) (post : α → Prop) : Prop :=
  Triple Recorded run (fun value evaluations => post value ∧ Recorded evaluations)
    fun stop evaluations => stop.isFault = false ∧ Recorded evaluations

theorem verified_bind {α β : Type} {first : Verifying α} {next : α → Verifying β} {fact : α → Prop}
    {post : β → Prop} (head : Verified first fact)
    (tail : ∀ value, fact value → Verified (next value) post) :
    Verified (first >>= next) post := by
  apply triple_bind head
  intro value evaluations both
  exact tail value both.1 evaluations both.2

theorem verified_check {α : Type} {outcome : Except Stop α} {fact : α → Prop}
    (faultless : Faultless outcome) (known : ∀ value, outcome = .ok value → fact value) :
    Verified (check outcome) fact := by
  apply triple_check
  · intro value passed evaluations recorded
    exact ⟨known value passed, recorded⟩
  · intro stop failed evaluations recorded
    exact ⟨faultless stop failed, recorded⟩

theorem evaluate_verified {stack : Stack} (small : SmallStack stack) (script : CScript) :
    Verified (evaluate verifier stack script) fun left =>
      SmallStack left ∧ (evalScript verifier stack script).verdict = .ok () := by
  have safe := evalScript_safe verifier small script
  have initial : (evalScript verifier stack script).initial = stack := by
    unfold evalScript
    split
    · rfl
    · split <;> rfl
  have logged : Verified (update (· ++ [evalScript verifier stack script])) fun _ => True := by
    apply triple_update
    intro evaluations recorded
    refine ⟨trivial, ?_⟩
    intro evaluation member
    rcases List.mem_append.mp member with old | new
    · exact recorded evaluation old
    · rw [List.mem_singleton.mp new, initial]
      exact small
  apply verified_bind logged
  intro _ _
  apply verified_bind (verified_check safe.1 fun _ passed => passed)
  intro _ passed
  exact triple_pure fun evaluations recorded => ⟨⟨safe.2 passed, passed⟩, recorded⟩

theorem endsTrue_faultless (stack : Stack) : Faultless (endsTrue stack) := by
  cases stack with
  | nil =>
    intro stop same
    cases same
    rfl
  | cons back rest => exact faultless_ensure _ _

theorem verifyRedeem_verified (scriptSig scriptPubKey : CScript) {stackCopy : Stack}
    (small : SmallStack stackCopy)
    (copied : hasFlag verifier.flags SCRIPT_VERIFY_P2SH = true →
      isPayToScriptHash scriptPubKey = true → stackCopy ≠ []) :
    Verified (verifyRedeem verifier scriptSig scriptPubKey stackCopy) fun _ => True := by
  unfold verifyRedeem
  split
  · rename_i both
    rw [Bool.and_eq_true] at both
    apply verified_bind (verified_check (faultless_ensure _ _) fun _ _ => trivial)
    intro _ _
    cases stackCopy with
    | nil => exact absurd rfl (copied both.1 both.2)
    | cons back rest =>
      have left : SmallStack rest := by
        have few := small.few
        rw [List.length_cons] at few
        exact ⟨fun vch member => small.small vch (List.mem_cons_of_mem back member), by omega⟩
      have top : Verified (check (assertedTop (back :: rest))) fun pair => pair = (back, rest) := by
        apply verified_check (faultless_ok (back, rest))
        intro value same
        cases same
        rfl
      apply verified_bind top
      rintro _ rfl
      apply verified_bind (evaluate_verified verifier left back)
      intro stack _
      exact verified_check (endsTrue_faultless stack) fun _ _ => trivial
  · exact triple_pure fun evaluations recorded => ⟨trivial, recorded⟩

theorem verifyScript_verified (scriptSig scriptPubKey : CScript) :
    Verified (verifyScript verifier scriptSig scriptPubKey) fun _ => True := by
  have nothing : SmallStack [] := ⟨nofun, Nat.zero_le _⟩
  apply verified_bind (verified_check (faultless_ensure _ _) fun _ _ => trivial)
  intro _ _
  apply verified_bind (evaluate_verified verifier nothing scriptSig)
  intro signed first
  apply verified_bind (evaluate_verified verifier first.1 scriptPubKey)
  intro stack second
  apply verified_bind (verified_check (endsTrue_faultless stack) fun _ _ => trivial)
  intro _ _
  apply verifyRedeem_verified
  · split
    · exact first.1
    · exact nothing
  · intro flagged p2sh
    rw [if_pos flagged]
    rintro rfl
    exact payToScriptHash_empty verifier p2sh second.2

end Verifying

/-- Whatever the scripts, the flags and the checker, `VerifyScript` ends without an
    access outside a stack, a failed assertion or an overflow, and after every opcode of
    each of its evaluations the elements and the stacks are within their limits. -/
theorem verifyScript_safe (verifier : Verifier) (scriptSig scriptPubKey : CScript) :
    (∀ stop evaluations, verifyScript verifier scriptSig scriptPubKey [] = .error stop evaluations →
      stop.isFault = false) ∧
    ∀ evaluation ∈ evaluationsOf verifier scriptSig scriptPubKey, ∀ config,
      Reachable (Begins evaluation) (Executed verifier) config → Sound config.2.1 := by
  have verified := verifyScript_verified verifier scriptSig scriptPubKey [] nofun
  unfold evaluationsOf
  cases ran : verifyScript verifier scriptSig scriptPubKey [] with
  | ok _ evaluations =>
    rw [ran] at verified
    refine ⟨nofun, ?_⟩
    intro evaluation member config reached
    exact executed_sound verifier (verified.2 evaluation member) reached
  | error stop evaluations =>
    rw [ran] at verified
    refine ⟨?_, ?_⟩
    · intro other others same
      cases same
      exact verified.1
    · intro evaluation member config reached
      exact executed_sound verifier (verified.2 evaluation member) reached

end OxidInterpreterSafety
