import Oxid.Interpreter

/-!
The static counts of signature checks against the checks an evaluation makes. A run is
followed together with the counter, which knows the opcode before.
-/
namespace OxidSigOps
open OxidPrimitives OxidScript OxidScriptNum OxidSignatureEncoding OxidInterpreter
open Attempt Triples

section Growth

variable {α β : Type}

def GrowsAt (more : Nat) (run : Evaluating α) (state : EvalState) : Prop :=
  (endState (run state)).2.length ≤ state.2.length + more

theorem grows_pure (value : α) (more : Nat) (state : EvalState) :
    GrowsAt more (pure value) state := Nat.le_add_right _ _

theorem grows_inside (run : Machining α) (more : Nat) (state : EvalState) :
    GrowsAt more (inside run) state := by
  unfold GrowsAt
  rw [inside_keeps]
  exact Nat.le_add_right _ _

variable {next : α → Evaluating β} {run : Machining α}

theorem grows_bind {first : Evaluating α} {one other more : Nat} {state : EvalState}
    (head : GrowsAt one first state)
    (tail : ∀ value middle, Completes first state value middle → GrowsAt other (next value) middle)
    (sum : one + other ≤ more) : GrowsAt more (first >>= next) state := by
  unfold GrowsAt at head ⊢
  simp only [bind, EStateM.bind]
  cases ran : first state with
  | ok value middle =>
    have later := tail value middle ran
    unfold GrowsAt at later
    rw [ran] at head
    simp only [endState] at head
    change (endState (next value middle)).2.length ≤ _
    omega
  | error failure middle =>
    rw [ran] at head
    simp only [endState] at head ⊢
    omega

theorem completes_inside {state final : EvalState} {value : α} :
    Completes (inside run) state value final ↔
      Completes run state.1 value final.1 ∧ final.2 = state.2 := by
  obtain ⟨machine, calls⟩ := final
  unfold Completes inside
  cases run state.1 with
  | ok value machine => simp; tauto
  | error failure machine => simp

theorem grows_after {more : Nat} {state : EvalState}
    (tail : ∀ value machine, Completes run state.1 value machine →
      GrowsAt more (next value) (machine, state.2)) :
    GrowsAt more (inside run >>= next) state := by
  apply grows_bind (grows_inside run 0 state)
  · rintro value ⟨machine, calls⟩ completed
    obtain ⟨ran, rfl⟩ := completes_inside.mp completed
    exact tail value machine ran
  · omega

theorem grows_before {run : Evaluating α} {next : α → Machining β} {more : Nat} {state : EvalState}
    (head : GrowsAt more run state) :
    GrowsAt more (run >>= fun value => inside (next value)) state :=
  grows_bind head (fun _ _ _ => grows_inside _ 0 _) (Nat.le_refl _)

end Growth

section SignatureOperations

variable (verifier : Verifier)

theorem checkSigCall_grows (vchSig vchPubKey : Element) (scriptCode : CScript) (state : EvalState) :
    GrowsAt 1 (checkSigCall verifier vchSig vchPubKey scriptCode) state := by
  apply grows_after
  intro _ _ _
  apply grows_after
  intro _ machine _
  have logged : GrowsAt 1 (update fun state : EvalState =>
      (state.1, (⟨vchSig, vchPubKey, scriptCode⟩ : CheckCall) :: state.2)) (machine, state.2) :=
    Nat.le_refl _
  exact grows_bind logged (fun _ _ _ => grows_pure _ 0 _) (Nat.le_refl _)

theorem opCheckSig_grows (verified : Bool) (state : EvalState) :
    GrowsAt 1 (opCheckSig verifier verified) state := by
  apply grows_after
  intro _ _ _
  apply grows_after
  intro vchSig _ _
  apply grows_after
  intro vchPubKey _ _
  apply grows_after
  intro scriptCode _ _
  exact grows_before (checkSigCall_grows verifier _ _ _ _)

theorem matchSignatures_grows (scriptCode : CScript) (nKeysCount nSigsCount isig ikey : Nat)
    (state : EvalState) :
    GrowsAt nKeysCount (matchSignatures verifier scriptCode nKeysCount nSigsCount isig ikey)
      state := by
  induction nKeysCount generalizing nSigsCount isig ikey state with
  | zero => cases nSigsCount <;> exact grows_pure _ _ _
  | succ nKeysCount ih =>
    cases nSigsCount with
    | zero => exact grows_pure _ _ _
    | succ nSigsCount =>
      simp only [matchSignatures]
      apply grows_after
      intro vchSig _ _
      apply grows_after
      intro vchPubKey _ _
      apply grows_bind (checkSigCall_grows verifier _ _ _ _) _ (Nat.le_of_eq (Nat.add_comm 1 _))
      intro fOk middle _
      split_ifs
      · exact grows_pure _ _ _
      · exact ih _ _ _ _
      · exact grows_pure _ _ _
      · exact ih _ _ _ _

theorem opCheckMultiSig_grows {verified : Bool} {state : EvalState} {most : Nat}
    (keys : ∀ nKeysCount machine, Completes (keysCount verifier) state.1 nKeysCount machine →
      nKeysCount ≤ most) :
    GrowsAt most (opCheckMultiSig verifier verified) state := by
  apply grows_after
  intro nKeysCount machine counted
  have fewer := keys nKeysCount machine counted
  apply grows_after
  intro nSigsCount _ _
  apply grows_after
  intro _ _ _
  apply grows_after
  intro begun _ _
  apply grows_after
  intro scriptCode _ _
  have scan := matchSignatures_grows verifier scriptCode nKeysCount nSigsCount (3 + nKeysCount) 2
  exact grows_bind (scan _) (fun _ _ _ => grows_inside _ 0 _) fewer

theorem keysCount_completes {machine final : Machine} {nKeysCount : Nat}
    (completed : Completes (keysCount verifier) machine nKeysCount final) :
    nKeysCount ≤ 20 ∧ ∃ vch bn, machine.stack.head? = some vch ∧
      ofVch vch (fRequireMinimal verifier) = .ok bn ∧ nKeysCount = (getint bn).toNat := by
  unfold keysCount needStack stackNumber stacktop demand at completed
  simp only [completes_bind, completes_reading, completes_check, completes_pure, inRange_ok,
    ensure_ok] at completed
  obtain ⟨_, _, ⟨stack, _, ⟨rfl, rfl⟩, _, rfl⟩, bn, _, ⟨vch, _, ⟨_, _, ⟨rfl, rfl⟩, top, rfl⟩,
    number, rfl⟩, _, _, ⟨within, rfl⟩, _, _, _, rfl, _⟩ := completed
  simp only [Bool.and_eq_true, decide_eq_true_eq] at within
  refine ⟨by omega, vch, bn, ?_, number, rfl⟩
  rw [List.head?_eq_getElem?]
  exact top

end SignatureOperations

section Opcodes

variable {opcode : Opcode}

theorem operation_listed {op : Operation} (signed : ∀ plainOp, op ≠ .plain plainOp)
    (found : operation opcode = op) :
    (opcode, op) ∈ operations := by
  unfold operation at found
  split at found
  · exact absurd found.symm (signed _)
  · split at found
    · exact absurd found.symm (signed _)
    · cases listed : operations.lookup opcode with
      | none =>
        rw [listed] at found
        exact absurd found.symm (signed _)
      | some op' =>
        rw [listed] at found
        obtain ⟨before, after, split, _⟩ := List.lookup_eq_some_iff.mp listed
        rw [split, ← found]
        simp

theorem operation_checks (opcode : Opcode) (verified : Bool) :
    (operation opcode = .checkSig verified → opcode = OP_CHECKSIG ∨ opcode = OP_CHECKSIGVERIFY) ∧
    (operation opcode = .checkMultiSig verified →
      opcode = OP_CHECKMULTISIG ∨ opcode = OP_CHECKMULTISIGVERIFY) := by
  have listed : ∀ entry ∈ operations, ∀ verified,
      (entry.2 = .checkSig verified → entry.1 = OP_CHECKSIG ∨ entry.1 = OP_CHECKSIGVERIFY) ∧
      (entry.2 = .checkMultiSig verified →
        entry.1 = OP_CHECKMULTISIG ∨ entry.1 = OP_CHECKMULTISIGVERIFY) := by decide
  constructor
  · intro single
    exact (listed _ (operation_listed (by simp) single) verified).1 rfl
  · intro multiple
    exact (listed _ (operation_listed (by simp) multiple) verified).2 rfl

theorem sigOps_single (last : Opcode) (single : opcode = OP_CHECKSIG ∨ opcode = OP_CHECKSIGVERIFY) :
    sigOps true last opcode = 1 := by
  unfold sigOps
  rw [if_pos single]

theorem sigOps_multi (last : Opcode)
    (multi : opcode = OP_CHECKMULTISIG ∨ opcode = OP_CHECKMULTISIGVERIFY) :
    sigOps true last opcode = if isSmallNumber last then decodeOpN last else 20 := by
  rcases multi with rfl | rfl <;> rfl

theorem smallNumber_opcode (opcode : Opcode) (small : isSmallNumber opcode = true) :
    ¬ opcode ≤ OP_PUSHDATA4 ∧ ¬ (OP_IF ≤ opcode) ∧
      operation opcode = .plain .smallInteger := by
  induction opcode using every_byte with
  | all n =>
    revert n
    decide +kernel

end Opcodes

section Rounds

variable (verifier : Verifier)

def Coherent (last : Opcode) (machine : Machine) : Prop :=
  isSmallNumber last = true → executing machine = true →
    machine.stack.head? = some [UInt8.ofNat (decodeOpN last)]

variable {machine final : Machine} {last : Opcode} {result : Unit}

theorem keysCount_coherent {nKeysCount : Nat} (coherent : Coherent last machine)
    (executed : executing machine = true)
    (completed : Completes (keysCount verifier) machine nKeysCount final) :
    nKeysCount ≤ if isSmallNumber last then decodeOpN last else 20 := by
  obtain ⟨limit, vch, bn, top, number, rfl⟩ := keysCount_completes verifier completed
  split
  · rename_i small
    have same : vch = [UInt8.ofNat (decodeOpN last)] := by
      rw [coherent small executed] at top
      exact (Option.some.inj top).symm
    have value := (ofSmallOpcode_pushed last small).2.2
    rcases ofVch_cases vch (fRequireMinimal verifier) with failed | ⟨other, done, read, operand⟩
    · rw [number] at failed
      nomatch failed
    · rw [number] at done
      cases done
      rw [getint_operand operand, read, same, value]
      omega
  · exact limit

theorem checkLimits_completes {read : OpRead}
    (completed : Completes (checkLimits read) machine result final) :
    final.stack = machine.stack ∧ final.vfExec = machine.vfExec := by
  unfold checkLimits demand countOp at completed
  simp only [completes_bind, completes_check, ensure_ok] at completed
  obtain ⟨_, _, ⟨_, rfl⟩, _, counted, count, _, rfl⟩ := completed
  split at count
  · unfold countOps demand at count
    simp only [completes_bind, completes_update, completes_reading, completes_check,
      ensure_ok] at count
    obtain ⟨_, _, rfl, _, _, ⟨rfl, rfl⟩, _, rfl⟩ := count
    exact ⟨rfl, rfl⟩
  · rw [completes_pure] at count
    rw [count.2]
    exact ⟨rfl, rfl⟩

theorem coherent_of {machine other : Machine} (coherent : Coherent last machine)
    (same : other.stack = machine.stack ∧ other.vfExec = machine.vfExec) : Coherent last other := by
  intro small executed
  rw [same.1]
  apply coherent small
  unfold executing at executed ⊢
  rw [← same.2]
  exact executed

theorem executing_of {machine other : Machine}
    (same : other.stack = machine.stack ∧ other.vfExec = machine.vfExec) :
    executing other = executing machine := by
  unfold executing
  rw [same.2]

theorem dispatch_grows {read : OpRead} {state : EvalState} (coherent : Coherent last state.1) :
    GrowsAt (sigOps true last read.opcodeRet) (dispatch verifier (executing state.1) read) state := by
  unfold dispatch
  split
  · exact grows_inside _ _ _
  · split
    · rename_i reached
      cases op : operation read.opcodeRet with
      | plain op => exact grows_inside _ _ _
      | checkSig verified =>
        rw [sigOps_single last ((operation_checks _ verified).1 op)]
        exact opCheckSig_grows verifier verified state
      | checkMultiSig verified =>
        have checks := (operation_checks _ verified).2 op
        rw [sigOps_multi last checks]
        have executed : executing state.1 = true := by
          rcases checks with same | same
          · simpa [same, show ¬ OP_CHECKMULTISIG ≤ OP_ENDIF by decide] using reached
          · simpa [same, show ¬ OP_CHECKMULTISIGVERIFY ≤ OP_ENDIF by decide] using reached
        exact opCheckMultiSig_grows verifier fun nKeysCount machine completed =>
          keysCount_coherent verifier coherent executed completed
    · exact grows_pure _ _ _

theorem executeOp_grows {read : OpRead} {state : EvalState} (coherent : Coherent last state.1) :
    GrowsAt (sigOps true last read.opcodeRet) (executeOp verifier read) state := by
  apply grows_after
  intro fExec machine seen
  obtain ⟨rfl, rfl⟩ := seen
  apply grows_after
  intro _ admitted admits
  have same := checkLimits_completes admits
  have grown := @dispatch_grows verifier last read (admitted, state.2) (coherent_of coherent same)
  rw [show executing (admitted, state.2).1 = executing state.1 from executing_of same] at grown
  exact grows_before grown

theorem opSmallInteger_completes {opcode : Opcode}
    (completed : Completes (opSmallInteger opcode) machine result final) :
    ∃ vch, (ofSmallOpcode opcode >>= getvch) = .ok vch ∧
      final = { machine with stack := vch :: machine.stack } := by
  unfold opSmallInteger pushNumber pushStack at completed
  simp only [completes_bind, completes_check, completes_update] at completed
  obtain ⟨bn, _, ⟨number, rfl⟩, vch, _, ⟨bytes, rfl⟩, rfl⟩ := completed
  refine ⟨vch, ?_, rfl⟩
  rw [number]
  exact bytes

theorem executeOp_completes {read : OpRead} {state final : EvalState}
    (completed : Completes (executeOp verifier read) state () final) :
    ∃ admitted, admitted.stack = state.1.stack ∧ admitted.vfExec = state.1.vfExec ∧
      Completes (dispatch verifier (executing state.1) read) (admitted, state.2) () final := by
  unfold executeOp at completed
  rw [completes_bind] at completed
  obtain ⟨fExec, start, seen, completed⟩ := completed
  rw [completes_inside, completes_reading] at seen
  obtain ⟨⟨rfl, same⟩, calls⟩ := seen
  have unmoved : start = state := Prod.ext same.symm calls
  subst unmoved
  rw [completes_bind] at completed
  obtain ⟨_, admitted, admits, completed⟩ := completed
  rw [completes_inside] at admits
  obtain ⟨admits, calls⟩ := admits
  have unchanged := checkLimits_completes admits
  rw [completes_bind] at completed
  obtain ⟨_, dispatched, done, completed⟩ := completed
  unfold checkSizes demand at completed
  simp only [completes_inside, completes_bind, completes_reading, completes_check] at completed
  obtain ⟨⟨_, _, ⟨rfl, rfl⟩, _, last⟩, logged⟩ := completed
  have finished : final = dispatched := Prod.ext last.symm logged
  rw [finished]
  refine ⟨admitted.1, unchanged.1, unchanged.2, ?_⟩
  rw [← calls]
  exact done

theorem executeOp_coherent {read : OpRead} {state final : EvalState}
    (completed : Completes (executeOp verifier read) state () final) :
    Coherent read.opcodeRet final.1 := by
  intro small executed
  obtain ⟨admitted, stack, vfExec, dispatched⟩ := executeOp_completes verifier completed
  obtain ⟨noPush, noBranch, op⟩ := smallNumber_opcode read.opcodeRet small
  unfold dispatch at dispatched
  rw [if_neg (by simp [noPush])] at dispatched
  cases running : executing state.1 with
  | true =>
    rw [running, Bool.true_or, if_pos rfl, op] at dispatched
    obtain ⟨pushed, _⟩ := completes_inside.mp dispatched
    obtain ⟨vch, bytes, last⟩ := opSmallInteger_completes pushed
    rw [(ofSmallOpcode_pushed read.opcodeRet small).1] at bytes
    cases bytes
    rw [last]
    rfl
  | false =>
    rw [running, Bool.false_or, if_neg (by simp [noBranch]), completes_pure] at dispatched
    obtain ⟨_, same⟩ := dispatched
    rw [← same] at executed
    have stopped := executing_of (⟨stack, vfExec⟩ : admitted.stack = state.1.stack ∧ _)
    rw [running] at stopped
    rw [stopped] at executed
    nomatch executed

theorem evalLoop_grows (last : Opcode) (pc : CScript) (state : EvalState)
    (coherent : Coherent last state.1) :
    GrowsAt (sigOpsFrom true last pc) (evalLoop verifier pc) state := by
  induction last, pc using script_induction_from generalizing state with
  | stops last pc failed =>
    rw [evalLoop, sigOpsFrom_stops true last failed]
    by_cases done : pc.isEmpty = true
    · rw [if_pos done]
      exact grows_pure _ _ _
    · rw [if_neg done, if_neg (by simp [failed])]
      exact grows_inside _ _ _
  | reads last pc read ih =>
    rw [evalLoop, sigOpsFrom_reads true last read]
    by_cases done : pc.isEmpty = true
    · rw [if_pos done]
      exact grows_pure _ _ _
    · rw [if_neg done, if_pos read]
      apply grows_bind (executeOp_grows verifier coherent) _ (Nat.le_refl _)
      intro _ middle completed
      exact ih middle (executeOp_coherent verifier completed)

theorem coherent_start (machine : Machine) : Coherent OP_INVALIDOPCODE machine := nofun

theorem evalScript_calls (stack : Stack) (script : CScript) :
    (evalScript verifier stack script).calls.length ≤ getSigOpCount script true := by
  unfold evalScript
  split
  · exact Nat.zero_le _
  · have grown := evalLoop_grows verifier OP_INVALIDOPCODE script (begin stack script)
      (coherent_start _)
    have whole := @grows_before Unit Unit _ (fun _ => checkBalanced) _ _ grown
    unfold GrowsAt at whole
    have fresh : (begin stack script).2.length = 0 := rfl
    split
    · rename_i ran
      rw [ran, fresh, Nat.zero_add] at whole
      exact whole
    · rename_i ran
      rw [ran, fresh, Nat.zero_add] at whole
      exact whole

end Rounds

section PayToScriptHash

variable (verifier : Verifier)

def Covers (data : List UInt8) (stack : Stack) : Prop :=
  ∀ top, stack.head? = some top → getSigOpCount top true ≤ getSigOpCount data true

def pushesNoChecks (opcode : Opcode) : Bool :=
  match ofSmallOpcode opcode >>= getvch with
  | .ok vch => getSigOpCount vch true == 0
  | .error _ => false

theorem lowOpcode_pushes (opcode : Opcode) (high : ¬ opcode ≤ OP_PUSHDATA4)
    (low : ¬ OP_16 < opcode) :
    operation opcode = .plain .bad ∨
      operation opcode = .plain .smallInteger ∧ pushesNoChecks opcode = true := by
  induction opcode using every_byte with
  | all n =>
    revert n
    decide +kernel

theorem covers_nothing (data : List UInt8) : Covers data [] := by
  intro top same
  nomatch same

variable {scriptSig scriptPubKey : CScript} {state final : EvalState} {redeem : Evaluation}

theorem executeOp_covers {read : OpRead} (low : ¬ OP_16 < read.opcodeRet)
    (executed : executing state.1 = true)
    (completed : Completes (executeOp verifier read) state () final) :
    executing final.1 = true ∧ Covers read.vchRet final.1.stack := by
  obtain ⟨admitted, stack, vfExec, dispatched⟩ := executeOp_completes verifier completed
  have still : executing admitted = true := by
    rw [executing_of (⟨stack, vfExec⟩ : admitted.stack = state.1.stack ∧ _)]
    exact executed
  unfold dispatch at dispatched
  rw [executed] at dispatched
  by_cases push : read.opcodeRet ≤ OP_PUSHDATA4
  · rw [if_pos (by simp [push])] at dispatched
    obtain ⟨pushed, _⟩ := completes_inside.mp dispatched
    unfold pushImmediate pushStack demand at pushed
    simp only [completes_bind, completes_check, completes_update] at pushed
    obtain ⟨_, _, ⟨_, rfl⟩, last⟩ := pushed
    rw [← last]
    refine ⟨still, ?_⟩
    intro top same
    cases same
    exact Nat.le_refl _
  · rw [if_neg (by simp [push]), Bool.true_or, if_pos rfl] at dispatched
    rcases lowOpcode_pushes read.opcodeRet push low with bad | ⟨number, count⟩
    · rw [bad, execute] at dispatched
      obtain ⟨refused, _⟩ := completes_inside.mp dispatched
      rw [executePlain, refuse, completes_failing] at refused
      exact refused.elim
    · rw [number, execute] at dispatched
      obtain ⟨pushed, _⟩ := completes_inside.mp dispatched
      obtain ⟨vch, bytes, last⟩ := opSmallInteger_completes pushed
      unfold pushesNoChecks at count
      rw [bytes] at count
      have none : getSigOpCount vch true = 0 := by simpa using count
      rw [last]
      refine ⟨still, ?_⟩
      intro top same
      cases same
      rw [none]
      exact Nat.zero_le _

theorem evalLoop_covers (pc : CScript) (data : List UInt8) (pushes : isPushOnly pc = true)
    (executed : executing state.1 = true) (covers : Covers data state.1.stack)
    (completed : Completes (evalLoop verifier pc) state () final) :
    ∃ last, lastPushed data pc = some last ∧ Covers last final.1.stack := by
  induction pc using script_induction generalizing data state with
  | stops pc failed =>
    rw [isPushOnly] at pushes
    by_cases done : pc.isEmpty = true
    · rw [evalLoop, if_pos done, completes_pure] at completed
      rw [lastPushed, if_pos done, ← completed.2]
      exact ⟨data, rfl, covers⟩
    · rw [if_neg done, if_neg (by simp [failed])] at pushes
      nomatch pushes
  | reads pc read ih =>
    rw [isPushOnly] at pushes
    rw [evalLoop] at completed
    rw [lastPushed]
    by_cases done : pc.isEmpty = true
    · rw [if_pos done, completes_pure] at completed
      rw [if_pos done, ← completed.2]
      exact ⟨data, rfl, covers⟩
    · rw [if_neg done, if_pos read] at pushes completed ⊢
      by_cases high : OP_16 < (getOp pc).opcodeRet
      · rw [if_pos high] at pushes
        nomatch pushes
      · rw [if_neg high] at pushes ⊢
        rw [completes_bind] at completed
        obtain ⟨_, middle, first, later⟩ := completed
        have next := executeOp_covers verifier high executed first
        exact ih _ pushes next.1 next.2 later

theorem evalScript_covers {scriptSig : CScript} (pushes : isPushOnly scriptSig = true)
    (succeeded : (evalScript verifier [] scriptSig).verdict = .ok ()) :
    ∃ last, lastPushed [] scriptSig = some last ∧
      Covers last (evalScript verifier [] scriptSig).stack := by
  unfold evalScript at succeeded ⊢
  by_cases large : scriptSig.length > 10000
  · rw [if_pos large] at succeeded
    nomatch succeeded
  · rw [if_neg large] at succeeded ⊢
    cases ran : (evalLoop verifier scriptSig >>= fun _ => inside checkBalanced)
        (begin [] scriptSig) with
    | error stop final =>
      rw [ran] at succeeded
      nomatch succeeded
    | ok _ final =>
      obtain ⟨_, middle, loop, balanced⟩ := (completes_bind _ _ _ _ _).mp ran
      have covered := evalLoop_covers verifier scriptSig [] pushes rfl (covers_nothing [])
        loop
      obtain ⟨balanced, _⟩ := completes_inside.mp balanced
      unfold checkBalanced demand at balanced
      simp only [completes_bind, completes_reading, completes_check] at balanced
      obtain ⟨_, _, ⟨_, rfl⟩, _, same⟩ := balanced
      rw [same] at covered
      exact covered

/-- Where the redeem script is evaluated, the scriptSig was, with success; it only
    pushes, and the redeem script is the top of the stack it left. -/
def RedeemsFrom (scriptSig : CScript) (redeem : Evaluation) : Prop :=
  isPushOnly scriptSig = true ∧ (evalScript verifier [] scriptSig).verdict = .ok () ∧
    ∃ top rest, (evalScript verifier [] scriptSig).stack = top :: rest ∧
      redeem = evalScript verifier rest top

theorem evaluate_logs (stack : Stack) (script : CScript) (earlier : List Evaluation) :
    evaluate verifier stack script earlier =
      match (evalScript verifier stack script).verdict with
      | .ok _ => .ok (evalScript verifier stack script).stack
          (earlier ++ [evalScript verifier stack script])
      | .error stop => .error stop (earlier ++ [evalScript verifier stack script]) := by
  unfold evaluate
  cases (evalScript verifier stack script).verdict <;> rfl

theorem verifyRedeem_third {stackCopy : Stack} {first second redeem : Evaluation}
    (third : (endState (verifyRedeem verifier scriptSig scriptPubKey stackCopy
      [first, second]))[2]? = some redeem) :
    hasFlag verifier.flags SCRIPT_VERIFY_P2SH = true ∧ isPushOnly scriptSig = true ∧
      ∃ top rest, stackCopy = top :: rest ∧ redeem = evalScript verifier rest top := by
  unfold verifyRedeem at third
  split at third
  · rename_i both
    rw [Bool.and_eq_true] at both
    simp only [bind, EStateM.bind, check] at third
    cases pushes : isPushOnly scriptSig with
    | false => simp [pushes, ensure, Attempt.require, endState] at third
    | true =>
      cases stackCopy with
      | nil => simp [pushes, ensure, Attempt.require, assertedTop, endState] at third
      | cons top rest =>
        refine ⟨both.1, rfl, top, rest, rfl, ?_⟩
        simp only [pushes, ensure, Attempt.require, assertedTop, if_pos, evaluate_logs] at third
        cases verdict : (evalScript verifier rest top).verdict with
        | error stop =>
          rw [verdict] at third
          simpa [endState] using third.symm
        | ok _ =>
          rw [verdict] at third
          cases ends : endsTrue (evalScript verifier rest top).stack with
          | error stop => simpa [ends, endState] using third.symm
          | ok _ => simpa [ends, endState] using third.symm
  · simp [pure, EStateM.pure, endState] at third

theorem redeem_evaluated
    (evaluated : (evaluationsOf verifier scriptSig scriptPubKey)[2]? = some redeem) :
    RedeemsFrom verifier scriptSig redeem := by
  unfold evaluationsOf verifyScript at evaluated
  simp only [bind, EStateM.bind, check, evaluate_logs] at evaluated
  cases admitted : ensure (!(hasFlag verifier.flags SCRIPT_VERIFY_SIGPUSHONLY &&
      !isPushOnly scriptSig)) .SIG_PUSHONLY with
  | error stop =>
    rw [admitted] at evaluated
    simp [endState] at evaluated
  | ok _ =>
    rw [admitted] at evaluated
    cases signed : (evalScript verifier [] scriptSig).verdict with
    | error stop => simp [signed, endState] at evaluated
    | ok _ =>
      rw [signed] at evaluated
      simp only [List.nil_append] at evaluated
      generalize spent : evalScript verifier (evalScript verifier [] scriptSig).stack
        scriptPubKey = second at evaluated
      cases verdict : second.verdict with
      | error stop => simp [verdict, endState] at evaluated
      | ok _ =>
        rw [verdict] at evaluated
        cases ends : endsTrue second.stack with
        | error stop => simp [ends, endState] at evaluated
        | ok _ =>
          simp only [ends, List.singleton_append] at evaluated
          obtain ⟨flagged, pushes, top, rest, copied, same⟩ := verifyRedeem_third verifier evaluated
          rw [if_pos flagged] at copied
          exact ⟨pushes, signed, top, rest, copied, same⟩

theorem redeem_calls (p2sh : isPayToScriptHash scriptPubKey = true)
    (evaluated : (evaluationsOf verifier scriptSig scriptPubKey)[2]? = some redeem) :
    redeem.calls.length ≤ getSigOpCountFor scriptPubKey scriptSig := by
  obtain ⟨pushes, succeeded, top, rest, left, rfl⟩ := redeem_evaluated verifier evaluated
  obtain ⟨last, read, covers⟩ := evalScript_covers verifier pushes succeeded
  rw [left] at covers
  unfold getSigOpCountFor
  rw [p2sh, read]
  exact (evalScript_calls verifier rest top).trans (covers top rfl)

end PayToScriptHash

/-- The calls of the checker that an evaluation makes are at most the accurate count of
    its script, and this is at most the plain count; those of a redeem script are at
    most the count for its output and the scriptSig. -/
theorem sigOpCounts_bound (verifier : Verifier) :
    (∀ script stack,
      (evalScript verifier stack script).calls.length ≤ getSigOpCount script true ∧
        getSigOpCount script true ≤ getSigOpCount script false) ∧
    ∀ scriptSig scriptPubKey redeem, isPayToScriptHash scriptPubKey = true →
      (evaluationsOf verifier scriptSig scriptPubKey)[2]? = some redeem →
      redeem.calls.length ≤ getSigOpCountFor scriptPubKey scriptSig := by
  constructor
  · intro script stack
    exact ⟨evalScript_calls verifier stack script, sigOpsFrom_le OP_INVALIDOPCODE script⟩
  · intro scriptSig scriptPubKey redeem p2sh evaluated
    exact redeem_calls verifier p2sh evaluated

def constantHash (size : Nat) : Element → List.Vector UInt8 size :=
  fun _ => List.Vector.replicate size 7

def sampleVerifier : Verifier where
  flags := SCRIPT_VERIFY_P2SH
  checkSig _ _ _ := true
  ripemd160 := constantHash 20
  sha1 := constantHash 20
  sha256 := constantHash 32
  hash160 := constantHash 20
  hash256 := constantHash 32

def samplePubKeyScript : CScript := OP_HASH160 :: 0x14 :: (List.replicate 20 7 ++ [OP_EQUAL])

def sampleSigScript : CScript :=
  [OP_0, 0x01, 0x05, 0x07, OP_1, 0x01, 0x06, 0x01, 0x08, OP_1 + 1, OP_CHECKMULTISIG]

theorem sample_bounded :
    ∃ redeem, (evaluationsOf sampleVerifier sampleSigScript samplePubKeyScript)[2]? = some redeem ∧
      redeem.calls.length = 1 ∧
      redeem.calls.length ≤ getSigOpCountFor samplePubKeyScript sampleSigScript := by
  have made : (evaluationsOf sampleVerifier sampleSigScript samplePubKeyScript)[2]?.map
      (·.calls.length) = some 1 := by decide +kernel
  obtain ⟨redeem, evaluated, once⟩ := Option.map_eq_some_iff.mp made
  refine ⟨redeem, evaluated, once, ?_⟩
  exact (sigOpCounts_bound sampleVerifier).2 sampleSigScript samplePubKeyScript redeem
    (by decide) evaluated

end OxidSigOps
