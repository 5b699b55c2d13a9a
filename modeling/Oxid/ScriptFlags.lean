import Oxid.Interpreter

/-!
Verification under fewer flags. A flag only adds ways for a script to fail, so what is
accepted under some flags is accepted under any part of them. The script checks of
`CheckInputs` rest on this: the standard flags come first, then the mandatory ones.
-/
namespace OxidScriptFlags
open OxidPrimitives OxidScript OxidScriptNum OxidSignatureEncoding OxidInterpreter Attempt Triples

/-- Every flag of the first is one of the second. -/
def Part (fewer flags : UInt32) : Prop := fewer &&& flags = fewer

/-- One verifier under flags and under a part of them. -/
inductive Stricter : Verifier → Verifier → Prop where
  | intro {verifier : Verifier} {fewer : UInt32} (part : Part fewer verifier.flags) :
    Stricter verifier { verifier with flags := fewer }

section Fewer

variable {fewer flags bits : UInt32} (part : Part fewer flags)

include part

theorem Part.flag (flagged : hasFlag fewer bits = true) : hasFlag flags bits = true := by
  unfold hasFlag at flagged ⊢
  rw [bne_iff_ne] at flagged ⊢
  intro unflagged
  apply flagged
  rw [← part, UInt32.and_assoc, unflagged, UInt32.and_zero]

theorem Part.unflagged {holds : Bool} (passed : (!(hasFlag flags bits && holds)) = true) :
    (!(hasFlag fewer bits && holds)) = true := by
  cases flagged : hasFlag fewer bits with
  | false => rfl
  | true => rwa [part.flag flagged] at passed

theorem Part.encoding {outcome : Except Stop Unit}
    (passed : checkEncodingIf (hasFlag flags bits) outcome = .ok ()) :
    checkEncodingIf (hasFlag fewer bits) outcome = .ok () := by
  cases flagged : hasFlag fewer bits with
  | false => rfl
  | true => rwa [part.flag flagged] at passed

theorem Part.signature {vchSig : Element} (passed : checkSignatureEncoding flags vchSig = .ok ()) :
    checkSignatureEncoding fewer vchSig = .ok () := by
  unfold checkSignatureEncoding at passed ⊢
  split at passed
  · rw [if_pos ‹_›]
  · rw [if_neg ‹_›]
    simp only [bind_ok] at passed ⊢
    obtain ⟨_, valid, _, low, hashtype⟩ := passed
    exact ⟨(), part.encoding valid, (), part.encoding low, part.encoding hashtype⟩

end Fewer

theorem Stricter.flag {strict loose : Verifier} {bits : UInt32} (looser : Stricter strict loose)
    (flagged : hasFlag loose.flags bits = true) : hasFlag strict.flags bits = true := by
  obtain ⟨part⟩ := looser
  exact part.flag flagged

theorem demand_loosens {holds : Verifier → Bool} {serror : ScriptError}
    (passed : ∀ strict loose, Stricter strict loose → holds strict = true → holds loose = true) :
    Loosens Stricter fun verifier => demand (holds verifier) serror := by
  apply loosens_check
  intro strict loose looser _ held
  rw [ensure, require_ok] at held ⊢
  exact passed strict loose looser held

theorem flag_loosens (bits : UInt32) (holds : Bool) (serror : ScriptError) :
    Loosens Stricter fun verifier => demand (!(hasFlag verifier.flags bits && holds)) serror := by
  apply demand_loosens
  rintro strict _ ⟨part⟩
  exact part.unflagged

theorem stackNumber_loosens (i : Nat) :
    Loosens Stricter fun verifier => stackNumber verifier i := by
  apply loosens_bind (loosens_free _)
  intro vch
  apply loosens_check
  rintro strict _ ⟨part⟩ bn read
  unfold ofVch fRequireMinimal at read ⊢
  have minimal := @Part.unflagged _ _ SCRIPT_VERIFY_MINIMALDATA part (!isMinimal vch)
  grind

theorem executePlain_loosens (fExec : Bool) (opcode : Opcode) (pc : CScript) (op : PlainOp) :
    Loosens Stricter fun verifier => executePlain verifier fExec opcode pc op := by
  have number := stackNumber_loosens
  cases op with
  | upgradableNop =>
    have nop := flag_loosens SCRIPT_VERIFY_DISCOURAGE_UPGRADABLE_NOPS true
      .DISCOURAGE_UPGRADABLE_NOPS
    simp only [Bool.and_true] at nop
    exact nop
  | pick roll =>
    exact loosens_bind (loosens_free _) fun _ => loosens_bind (number 1) fun _ => loosens_free _
  | unary op =>
    exact loosens_bind (loosens_free _) fun _ => loosens_bind (number 1) fun _ => loosens_free _
  | binary op =>
    refine loosens_bind (loosens_free _) fun _ => loosens_bind (number 2) fun _ => ?_
    exact loosens_bind (number 1) fun _ => loosens_free _
  | within =>
    refine loosens_bind (loosens_free _) fun _ => loosens_bind (number 3) fun _ => ?_
    exact loosens_bind (number 2) fun _ => loosens_bind (number 1) fun _ => loosens_free _
  | hash op =>
    rintro strict _ ⟨part⟩ _ _ _ completed
    exact completed
  | _ => exact loosens_free _

theorem checkSigCall_loosens (vchSig vchPubKey : Element) (scriptCode : CScript) :
    Loosens Stricter fun verifier => checkSigCall verifier vchSig vchPubKey scriptCode := by
  refine loosens_bind (loosens_inside (loosens_check ?_)) fun _ =>
    loosens_bind (loosens_inside (loosens_check ?_)) fun _ => ?_
  · rintro strict _ ⟨part⟩ _
    exact part.signature
  · rintro strict _ ⟨part⟩ _
    exact part.encoding
  · rintro strict _ ⟨part⟩ _ _ _ completed
    exact completed

theorem opCheckSig_loosens (verified : Bool) :
    Loosens Stricter fun verifier => opCheckSig verifier verified := by
  refine loosens_bind (loosens_free _) fun _ => loosens_bind (loosens_free _) fun _ => ?_
  refine loosens_bind (loosens_free _) fun _ => loosens_bind (loosens_free _) fun _ => ?_
  exact loosens_bind (checkSigCall_loosens _ _ _) fun _ => loosens_free _

theorem matchSignatures_loosens (scriptCode : CScript) (nKeysCount nSigsCount isig ikey : Nat) :
    Loosens Stricter fun verifier =>
      matchSignatures verifier scriptCode nKeysCount nSigsCount isig ikey := by
  induction nKeysCount generalizing nSigsCount isig ikey with
  | zero => cases nSigsCount <;> exact loosens_free _
  | succ nKeysCount ih =>
    cases nSigsCount with
    | zero => exact loosens_free _
    | succ nSigsCount =>
      refine loosens_bind (loosens_free _) fun _ => loosens_bind (loosens_free _) fun _ => ?_
      apply loosens_bind (checkSigCall_loosens _ _ _)
      intro fOk
      by_cases few : nKeysCount < if fOk then nSigsCount else nSigsCount + 1
      · simp only [if_pos few]
        exact loosens_free _
      · simp only [if_neg few]
        exact ih _ _ _

theorem opCheckMultiSig_loosens (verified : Bool) :
    Loosens Stricter fun verifier => opCheckMultiSig verifier verified := by
  have number := stackNumber_loosens
  have keys : Loosens Stricter keysCount :=
    loosens_bind (loosens_free _) fun _ => loosens_bind (number 1) fun _ => loosens_free _
  have sigs (nKeysCount : Nat) : Loosens Stricter fun verifier => sigsCount verifier nKeysCount :=
    loosens_bind (loosens_free _) fun _ => loosens_bind (number _) fun _ => loosens_free _
  have dummy : Loosens Stricter popDummy := by
    refine loosens_bind (loosens_free _) fun _ => loosens_bind (loosens_free _) fun _ => ?_
    exact loosens_bind (flag_loosens _ _ _) fun _ => loosens_free _
  refine loosens_bind (loosens_inside keys) fun nKeysCount => ?_
  refine loosens_bind (loosens_inside (sigs nKeysCount)) fun nSigsCount => ?_
  refine loosens_bind (loosens_free _) fun _ => loosens_bind (loosens_free _) fun _ => ?_
  refine loosens_bind (loosens_free _) fun scriptCode => ?_
  apply loosens_bind (matchSignatures_loosens scriptCode _ _ _ _)
  intro fSuccess
  apply loosens_inside
  exact loosens_bind (loosens_free _) fun _ => loosens_bind dummy fun _ => loosens_free _

theorem executeOp_loosens (read : OpRead) :
    Loosens Stricter fun verifier => executeOp verifier read := by
  refine loosens_bind (loosens_free _) fun fExec => loosens_bind (loosens_free _) fun _ => ?_
  refine loosens_bind ?_ fun _ => loosens_free _
  unfold dispatch
  split
  · apply loosens_inside
    exact loosens_bind (flag_loosens _ _ _) fun _ => loosens_free _
  · split
    · cases operation read.opcodeRet with
      | plain op => exact loosens_inside (executePlain_loosens _ _ _ op)
      | checkSig verified => exact opCheckSig_loosens verified
      | checkMultiSig verified => exact opCheckMultiSig_loosens verified
    · exact loosens_free _

theorem evalLoop_loosens (pc : CScript) : Loosens Stricter fun verifier => evalLoop verifier pc := by
  induction pc using evalLoop.induct with
  | case1 pc ended =>
    simp only [evalLoop.eq_def _ pc, if_pos ended]
    exact loosens_free _
  | case2 pc unfinished read ih =>
    simp only [evalLoop.eq_def _ pc, if_neg unfinished, if_pos read]
    exact loosens_bind (executeOp_loosens _) fun _ => ih
  | case3 pc unfinished unread =>
    simp only [evalLoop.eq_def _ pc, if_neg unfinished, if_neg unread]
    exact loosens_free _

theorem evalScript_loose {strict loose : Verifier} (looser : Stricter strict loose) {stack : Stack}
    {script : CScript} (passed : (evalScript strict stack script).verdict = .ok ()) :
    evalScript loose stack script = evalScript strict stack script := by
  have runs := loosens_bind (evalLoop_loosens script) fun _ =>
    loosens_free (inside checkBalanced : Evaluating Unit)
  unfold evalScript at passed ⊢
  split
  · rfl
  · rename_i short
    rw [if_neg short] at passed
    cases ran : (evalLoop strict script >>= fun _ => inside checkBalanced) (begin stack script) with
    | ok value final =>
      have same := runs _ _ looser _ _ _ ran
      dsimp only [Completes] at same
      rw [same]
    | error stop final =>
      rw [ran] at passed
      cases passed

theorem evaluate_loosens (stack : Stack) (script : CScript) :
    Loosens Stricter fun verifier => evaluate verifier stack script := by
  intro strict loose looser evaluations value final completed
  dsimp only [evaluate] at completed ⊢
  cases verdict : (evalScript strict stack script).verdict with
  | ok _ =>
    rw [evalScript_loose looser verdict]
    exact completed
  | error stop =>
    simp only [completes_bind, verdict, completes_check] at completed
    obtain ⟨_, _, _, _, _, ⟨refused, _⟩, _⟩ := completed
    cases refused

theorem verifyRedeem_loose {strict loose : Verifier} (looser : Stricter strict loose)
    (p2sh : hasFlag loose.flags SCRIPT_VERIFY_P2SH = true) {scriptSig scriptPubKey : CScript}
    {stackCopy : Stack} {evaluations made : List Evaluation}
    (passed : Completes (verifyRedeem strict scriptSig scriptPubKey stackCopy) evaluations () made) :
    Completes (verifyRedeem loose scriptSig scriptPubKey stackCopy) evaluations () made := by
  simp only [verifyRedeem, p2sh, looser.flag p2sh, Bool.true_and] at passed ⊢
  split at passed
  · rw [if_pos ‹_›]
    have redeems := loosens_bind (loosens_free (check (ensure (isPushOnly scriptSig) .SIG_PUSHONLY)))
      fun _ => loosens_bind (loosens_free (check (assertedTop stackCopy))) fun top =>
        loosens_bind (evaluate_loosens top.2 top.1) fun stack => loosens_free (check (endsTrue stack))
    exact redeems _ _ looser _ _ _ passed
  · rw [if_neg ‹_›]
    exact passed

theorem verifyScript_loose {strict loose : Verifier} (looser : Stricter strict loose)
    {scriptSig scriptPubKey : CScript} {evaluations : List Evaluation}
    (passed : Completes (verifyScript strict scriptSig scriptPubKey) [] () evaluations) :
    ∃ made, Completes (verifyScript loose scriptSig scriptPubKey) [] () made := by
  simp only [verifyScript, completes_bind, completes_check, ensure, require_ok] at passed ⊢
  obtain ⟨_, _, ⟨pushed, rfl⟩, signed, first, ran, stack, second, again, _, _, ends, redeemed⟩ := passed
  have begun := evaluate_loosens _ _ _ _ looser _ _ _ ran
  have ended := evaluate_loosens _ _ _ _ looser _ _ _ again
  have checked : (!(hasFlag loose.flags SCRIPT_VERIFY_SIGPUSHONLY && !isPushOnly scriptSig)) = true := by
    obtain ⟨part⟩ := looser
    exact part.unflagged pushed
  by_cases p2sh : hasFlag loose.flags SCRIPT_VERIFY_P2SH = true
  · rw [if_pos (looser.flag p2sh)] at redeemed
    simp only [if_pos p2sh]
    exact ⟨_, (), [], ⟨checked, rfl⟩, signed, first, begun, stack, second, ended, (), _, ends,
      verifyRedeem_loose looser p2sh redeemed⟩
  · refine ⟨second, (), [], ⟨checked, rfl⟩, signed, first, begun, stack, second, ended, (), _, ends, ?_⟩
    simp [verifyRedeem, p2sh, completes_pure, ends.2]

def MANDATORY_SCRIPT_VERIFY_FLAGS : UInt32 := SCRIPT_VERIFY_P2SH

def STANDARD_SCRIPT_VERIFY_FLAGS : UInt32 :=
  MANDATORY_SCRIPT_VERIFY_FLAGS ||| SCRIPT_VERIFY_DERSIG ||| SCRIPT_VERIFY_STRICTENC |||
    SCRIPT_VERIFY_MINIMALDATA ||| SCRIPT_VERIFY_NULLDUMMY |||
    SCRIPT_VERIFY_DISCOURAGE_UPGRADABLE_NOPS

def STANDARD_NOT_MANDATORY_VERIFY_FLAGS : UInt32 :=
  STANDARD_SCRIPT_VERIFY_FLAGS &&& ~~~MANDATORY_SCRIPT_VERIFY_FLAGS

/-- An input's scripts, with the checker of its signatures. -/
structure CScriptCheck where
  scriptSig : CScript
  scriptPubKey : CScript
  checker : Verifier

/-- The call of a `CScriptCheck`, with the error it keeps. -/
def CScriptCheck.run (check : CScriptCheck) (nFlags : UInt32) : Except Stop Unit :=
  match verifyScript { check.checker with flags := nFlags } check.scriptSig check.scriptPubKey [] with
  | .ok _ _ => .ok ()
  | .error error _ => .error error

/-- The refusals of the script checks: the first scores nothing, the second 100. -/
inductive Refusal where
  | nonMandatory
  | mandatory (error : Stop)

/-- The script checks of `CheckInputs`, where they are made on the spot. -/
def checkScripts (flags : UInt32) : List CScriptCheck → Except Refusal Unit
  | [] => .ok ()
  | check :: checks =>
    match check.run flags with
    | .ok _ => checkScripts flags checks
    | .error error =>
      if hasFlag flags STANDARD_NOT_MANDATORY_VERIFY_FLAGS &&
          (check.run (flags &&& ~~~STANDARD_NOT_MANDATORY_VERIFY_FLAGS)).isOk then
        .error .nonMandatory
      else .error (.mandatory error)

theorem run_ok (check : CScriptCheck) (nFlags : UInt32) :
    check.run nFlags = .ok () ↔ ∃ made,
      Completes (verifyScript { check.checker with flags := nFlags } check.scriptSig
        check.scriptPubKey) [] () made := by
  unfold CScriptCheck.run Completes
  split <;> simp_all

theorem run_fewer {check : CScriptCheck} {fewer flags : UInt32} (part : Part fewer flags)
    (passed : check.run flags = .ok ()) : check.run fewer = .ok () := by
  rw [run_ok] at passed ⊢
  obtain ⟨made, passed⟩ := passed
  exact verifyScript_loose (@Stricter.intro { check.checker with flags := flags } fewer part) passed

theorem checkScripts_ok (flags : UInt32) (checks : List CScriptCheck) :
    checkScripts flags checks = .ok () ↔ ∀ check ∈ checks, check.run flags = .ok () := by
  induction checks with
  | nil => simp [checkScripts]
  | cons check checks ih =>
    rw [List.forall_mem_cons, ← ih, checkScripts]
    cases check.run flags with
    | ok _ => simp
    | error error =>
      dsimp only
      split <;> simp

theorem and_complement {flags bits : UInt32} (unflagged : hasFlag flags bits = false) :
    flags &&& ~~~bits = flags := by
  have none : flags.toBitVec &&& bits.toBitVec = 0#32 := by
    simpa [hasFlag, ← UInt32.toBitVec_inj] using unflagged
  rw [← UInt32.toBitVec_inj]
  ext i inside
  have bit : (flags.toBitVec &&& bits.toBitVec)[i] = false := by rw [none, BitVec.getElem_zero]
  rw [BitVec.getElem_and] at bit
  cases flagged : flags.toBitVec[i] with
  | false => simp [flagged]
  | true =>
    rw [flagged, Bool.true_and] at bit
    simp [flagged, bit]

theorem checkScripts_mandatory {flags : UInt32} {checks : List CScriptCheck} {error : Stop}
    (scored : checkScripts flags checks = .error (.mandatory error)) :
    ∃ check ∈ checks, check.run (flags &&& ~~~STANDARD_NOT_MANDATORY_VERIFY_FLAGS) ≠ .ok () := by
  induction checks with
  | nil => cases scored
  | cons check checks ih =>
    rw [checkScripts] at scored
    cases ran : check.run flags with
    | ok _ =>
      rw [ran] at scored
      obtain ⟨other, member, failed⟩ := ih scored
      exact ⟨other, List.mem_cons_of_mem _ member, failed⟩
    | error stop =>
      rw [ran] at scored
      refine ⟨check, List.mem_cons_self, ?_⟩
      intro passed
      cases flagged : hasFlag flags STANDARD_NOT_MANDATORY_VERIFY_FLAGS with
      | false =>
        rw [and_complement flagged, ran] at passed
        cases passed
      | true => simp [flagged, passed, Except.isOk, Except.toBool] at scored

/-- Scripts that pass the checks pass them under any part of the flags, and scripts that are
    refused with a score pass under no flags that keep the mandatory ones. -/
theorem checkScripts_sound (flags : UInt32) (checks : List CScriptCheck) :
    (checkScripts flags checks = .ok () →
      ∀ fewer, Part fewer flags → checkScripts fewer checks = .ok ()) ∧
    ∀ error, checkScripts flags checks = .error (.mandatory error) →
      ∀ other, Part (flags &&& ~~~STANDARD_NOT_MANDATORY_VERIFY_FLAGS) other →
        checkScripts other checks ≠ .ok () := by
  constructor
  · intro passed fewer part
    rw [checkScripts_ok] at passed ⊢
    intro check member
    exact run_fewer part (passed check member)
  · intro error scored other part passed
    obtain ⟨check, member, failed⟩ := checkScripts_mandatory scored
    rw [checkScripts_ok] at passed
    exact failed (run_fewer part (passed check member))

end OxidScriptFlags
