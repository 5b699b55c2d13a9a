import Oxid.Library.OrderedMatch
import Oxid.SigOps

/-!
What `OP_CHECKMULTISIG` does with well-formed arguments.
-/
namespace OxidMultiSig
open OxidPrimitives OxidScript OxidScriptNum OxidSignatureEncoding OxidInterpreter OxidSigOps
open Attempt Triples OrderedMatch

def Reads (verifier : Verifier) (vch : Element) (n : Nat) : Prop :=
  ∃ bn, ofVch vch (fRequireMinimal verifier) = .ok bn ∧ getint bn = n

def withoutSignatures (sigs : List Element) (scriptCode : CScript) : CScript :=
  sigs.foldl (fun code vchSig => (findAndDelete code (pushOf vchSig)).2) scriptCode

/-- No flag that has the encodings of signatures or keys checked is set. -/
def Unencoded (flags : UInt32) : Prop :=
  hasFlag flags (SCRIPT_VERIFY_DERSIG ||| SCRIPT_VERIFY_LOW_S ||| SCRIPT_VERIFY_STRICTENC) = false

/-- The arguments of `OP_CHECKMULTISIG`, first pushed first: an element that is not looked at,
    the signatures and their number, the keys and their number. -/
def arguments (dummy : Element) (sigs : List Element) (nSigs : Element) (keys : List Element)
    (nKeys : Element) : Stack :=
  nKeys :: (keys.reverse ++ nSigs :: (sigs.reverse ++ [dummy]))

/-- The counts are in their limits, and the dummy is empty where it has to be. -/
structure WellFormed (verifier : Verifier) (machine : Machine) (sigs keys : List Element)
    (below : Stack) : Prop where
  laid : ∃ dummy nSigs nKeys, machine.stack = arguments dummy sigs nSigs keys nKeys ++ below ∧
    Reads verifier nSigs sigs.length ∧ Reads verifier nKeys keys.length ∧
    (hasFlag verifier.flags SCRIPT_VERIFY_NULLDUMMY = true → dummy = [])
  fewer : sigs.length ≤ keys.length
  most : keys.length ≤ 20
  counted : machine.nOpCount + keys.length ≤ 201

theorem hasFlag_part {flags bits part : UInt32} (among : bits &&& part = part)
    (unset : hasFlag flags bits = false) : hasFlag flags part = false := by
  unfold hasFlag at unset ⊢
  rw [bne_eq_false_iff_eq] at unset ⊢
  rw [← among, ← UInt32.and_assoc, unset, UInt32.zero_and]

section Parts
variable {verifier : Verifier} {machine : Machine} {vch : Element} {stack : Stack}

theorem fromTop_drop {place i : Nat} {rest : Stack} (here : stack.drop i = vch :: rest)
    (at' : place = i + 1) :
    fromTop place stack = some vch := by
  rw [at', fromTop, ← List.head?_drop, here, List.head?_cons]

theorem stacktop_completes {place : Nat} (top : fromTop place machine.stack = some vch) :
    Completes (stacktop place) machine vch machine := by
  unfold stacktop
  rw [completes_bind]
  refine ⟨_, _, rfl, ?_⟩
  rw [completes_check, top]
  exact ⟨rfl, rfl⟩

theorem demand_completes {holds : Bool} (held : holds = true) (serror : ScriptError) :
    Completes (demand holds serror) machine () machine := by
  rw [held]
  rfl

theorem needStack_completes {n : Nat} (enough : n ≤ machine.stack.length)
    (serror : ScriptError) : Completes (needStack n serror) machine () machine := by
  unfold needStack
  rw [completes_bind]
  exact ⟨_, _, rfl, demand_completes (decide_eq_true enough) serror⟩

theorem stackNumber_completes {place : Nat} {bn : CScriptNum}
    (top : fromTop place machine.stack = some vch)
    (number : ofVch vch (fRequireMinimal verifier) = .ok bn) :
    Completes (stackNumber verifier place) machine bn machine := by
  unfold stackNumber
  rw [completes_bind]
  refine ⟨_, _, stacktop_completes top, ?_⟩
  rw [completes_check]
  exact ⟨number, rfl⟩

theorem countOps_completes {more : Nat} (few : machine.nOpCount + more ≤ 201) :
    Completes (countOps more) machine () { machine with nOpCount := machine.nOpCount + more } := by
  unfold countOps
  rw [completes_bind]
  refine ⟨_, _, rfl, ?_⟩
  rw [completes_bind]
  exact ⟨_, _, rfl, demand_completes (decide_eq_true few) _⟩

theorem keysCount_reads {rest : Stack} {n : Nat} (here : machine.stack = vch :: rest)
    (reads : Reads verifier vch n) (most : n ≤ 20) (few : machine.nOpCount + n ≤ 201) :
    Completes (keysCount verifier) machine n
      { machine with nOpCount := machine.nOpCount + n } := by
  obtain ⟨bn, number, value⟩ := reads
  unfold keysCount
  rw [completes_bind]
  refine ⟨_, _, needStack_completes (by rw [here]; exact Nat.succ_le_succ (Nat.zero_le _)) _, ?_⟩
  rw [completes_bind]
  refine ⟨bn, _, stackNumber_completes (@fromTop_drop vch _ _ 0 _ here rfl) number, ?_⟩
  rw [value, Int.toNat_natCast, completes_bind]
  refine ⟨_, _, demand_completes (by simpa using most) _, ?_⟩
  rw [completes_bind]
  exact ⟨_, _, countOps_completes few, rfl⟩

theorem sigsCount_reads {rest : Stack} {n m : Nat}
    (here : machine.stack.drop (n + 1) = vch :: rest) (reads : Reads verifier vch m)
    (few : m ≤ n) : Completes (sigsCount verifier n) machine m machine := by
  obtain ⟨bn, number, value⟩ := reads
  have long := congrArg List.length here
  rw [List.length_drop, List.length_cons] at long
  unfold sigsCount
  rw [completes_bind]
  refine ⟨_, _, needStack_completes (by omega) _, ?_⟩
  rw [completes_bind]
  refine ⟨bn, _, stackNumber_completes (fromTop_drop here (by omega)) number, ?_⟩
  rw [value, Int.toNat_natCast, completes_bind]
  exact ⟨_, _, demand_completes (by simpa using few) _, rfl⟩

theorem drop_further {i : Nat} {rest : Stack} (here : stack.drop i = vch :: rest) :
    stack.drop (i + 1) = rest := by
  rw [← List.tail_drop, here, List.tail_cons]

theorem dropSignatures_completes {sigs rest : Stack} {isig i : Nat} {scriptCode : CScript}
    (here : machine.stack.drop i = sigs ++ rest) (at' : isig = i + 1) :
    Completes (dropSignatures isig sigs.length scriptCode) machine
      (withoutSignatures sigs scriptCode) machine := by
  induction sigs generalizing isig i scriptCode with
  | nil => rfl
  | cons vchSig later ih =>
    rw [List.length_cons, dropSignatures, completes_bind]
    exact ⟨_, _, stacktop_completes (fromTop_drop here at'), ih (drop_further here) (by rw [at'])⟩

theorem popstack_completes {rest : Stack} (here : machine.stack = vch :: rest) :
    Completes popstack machine () { machine with stack := rest } := by
  unfold popstack rearrange
  rw [completes_bind]
  refine ⟨_, _, rfl, ?_⟩
  rw [completes_bind]
  refine ⟨rest, machine, ?_, rfl⟩
  dsimp only
  rw [here]
  rfl

theorem popTimes_completes {times : Nat} (enough : times ≤ machine.stack.length) :
    Completes (popTimes times) machine () { machine with stack := machine.stack.drop times } := by
  induction times generalizing machine with
  | zero => rfl
  | succ times ih =>
    cases standing : machine.stack with
    | nil =>
      rw [standing] at enough
      exact absurd enough (Nat.not_succ_le_zero _)
    | cons top rest =>
      rw [standing] at enough
      rw [popTimes, completes_bind]
      exact ⟨(), _, popstack_completes standing, ih (Nat.le_of_succ_le_succ enough)⟩

theorem popDummy_completes {rest : Stack} (here : machine.stack = vch :: rest)
    (clean : hasFlag verifier.flags SCRIPT_VERIFY_NULLDUMMY = true → vch = []) :
    Completes (popDummy verifier) machine () { machine with stack := rest } := by
  unfold popDummy
  rw [completes_bind]
  refine ⟨_, _, needStack_completes (by rw [here]; exact Nat.succ_le_succ (Nat.zero_le _)) _, ?_⟩
  rw [completes_bind]
  refine ⟨vch, _, stacktop_completes (@fromTop_drop vch _ _ 0 _ here rfl), ?_⟩
  rw [completes_bind]
  refine ⟨_, _, demand_completes ?_ _, popstack_completes here⟩
  cases flag : hasFlag verifier.flags SCRIPT_VERIFY_NULLDUMMY with
  | false => rfl
  | true =>
    rw [clean flag]
    rfl

structure Placed (stack : Stack) (sigs keys : List Element) (dummy nSigs : Element)
    (below : Stack) : Prop where
  keysHere : stack.drop 1 = keys.reverse ++ nSigs :: (sigs.reverse ++ dummy :: below)
  numberHere : stack.drop (keys.length + 1) = nSigs :: (sigs.reverse ++ dummy :: below)
  sigsHere : stack.drop (keys.length + 2) = sigs.reverse ++ dummy :: below
  dummyHere : stack.drop (keys.length + 2 + sigs.length) = dummy :: below

theorem arguments_placed {stack below : Stack} {sigs keys : List Element}
    {dummy nSigs nKeys : Element}
    (stands : stack = arguments dummy sigs nSigs keys nKeys ++ below) :
    Placed stack sigs keys dummy nSigs below := by
  have keysHere : stack.drop 1 = keys.reverse ++ nSigs :: (sigs.reverse ++ dummy :: below) := by
    rw [stands]
    simp [arguments]
  have numberHere : stack.drop (keys.length + 1) =
      nSigs :: (sigs.reverse ++ dummy :: below) := by
    rw [Nat.add_comm, ← List.drop_drop, keysHere, List.drop_left' List.length_reverse]
  have sigsHere : stack.drop (keys.length + 2) = sigs.reverse ++ dummy :: below :=
    drop_further numberHere
  refine ⟨keysHere, numberHere, sigsHere, ?_⟩
  rw [← List.drop_drop, sigsHere, List.drop_left' List.length_reverse]

theorem result_completes {times : Nat} {rest : Stack} (here : machine.stack.drop times = vch :: rest)
    (clean : hasFlag verifier.flags SCRIPT_VERIFY_NULLDUMMY = true → vch = []) (fSuccess : Bool) :
    Completes (do
        popTimes times
        popDummy verifier
        pushStack (boolElement fSuccess)
        popVerified false fSuccess .CHECKMULTISIGVERIFY) machine ()
      { machine with stack := boolElement fSuccess :: rest } := by
  have long := congrArg List.length here
  rw [List.length_drop, List.length_cons] at long
  rw [completes_bind]
  refine ⟨(), { machine with stack := vch :: rest }, ?_, ?_⟩
  · rw [← here]
    exact popTimes_completes (by omega)
  · rw [completes_bind]
    exact ⟨(), { machine with stack := rest }, popDummy_completes rfl clean, rfl⟩

end Parts

section Scan
variable {verifier : Verifier} (unencoded : Unencoded verifier.flags)
include unencoded

theorem checkSigCall_completes (vchSig vchPubKey : Element) (scriptCode : CScript)
    (machine : Machine) (calls : List CheckCall) :
    Completes (checkSigCall verifier vchSig vchPubKey scriptCode) (machine, calls)
      (verifier.checkSig vchSig vchPubKey scriptCode)
      (machine, ⟨vchSig, vchPubKey, scriptCode⟩ :: calls) := by
  have low : hasFlag verifier.flags SCRIPT_VERIFY_LOW_S = false :=
    hasFlag_part (by decide) unencoded
  have strict : hasFlag verifier.flags SCRIPT_VERIFY_STRICTENC = false :=
    hasFlag_part (by decide) unencoded
  have signature : checkSignatureEncoding verifier.flags vchSig = .ok () := by
    unfold checkSignatureEncoding
    split
    · rfl
    · rw [show hasFlag verifier.flags _ = false from unencoded, low, strict]
      rfl
  have key : checkPubKeyEncoding verifier.flags vchPubKey = .ok () := by
    unfold checkPubKeyEncoding
    rw [strict]
    rfl
  unfold checkSigCall
  rw [signature, key]
  rfl

theorem matchSignatures_scan {machine : Machine} {scriptCode : CScript}
    {keys sigs keysAfter sigsAfter : Stack} {isig ikey i k : Nat} (calls : List CheckCall)
    (keysHere : machine.stack.drop k = keys ++ keysAfter) (keyAt : ikey = k + 1)
    (sigsHere : machine.stack.drop i = sigs ++ sigsAfter) (sigAt : isig = i + 1) :
    let scanned := scan (fun vchSig vchPubKey => verifier.checkSig vchSig vchPubKey scriptCode)
      sigs keys
    Completes (matchSignatures verifier scriptCode keys.length sigs.length isig ikey)
      (machine, calls) scanned.1
      (machine, (scanned.2.map fun pair => ⟨pair.1, pair.2, scriptCode⟩).reverse ++ calls) := by
  induction keys generalizing sigs isig ikey i k calls with
  | nil => cases sigs <;> rfl
  | cons vchPubKey keys ih =>
    cases sigs with
    | nil => rfl
    | cons vchSig sigs =>
      rw [scan_cons, List.length_cons, List.length_cons, matchSignatures]
      rw [completes_bind]
      refine ⟨vchSig, _, completes_inside.mpr ⟨stacktop_completes (fromTop_drop sigsHere sigAt),
        rfl⟩, ?_⟩
      rw [completes_bind]
      refine ⟨vchPubKey, _, completes_inside.mpr
        ⟨stacktop_completes (fromTop_drop keysHere keyAt), rfl⟩, ?_⟩
      rw [completes_bind]
      refine ⟨_, _, checkSigCall_completes unencoded _ _ _ _ _, ?_⟩
      have keysLater := drop_further keysHere
      -- what follows the call, for the signatures that are still waiting
      have onward {left : Stack} {isig' i' : Nat} (made : List CheckCall)
          (leftHere : machine.stack.drop i' = left ++ sigsAfter) (leftAt : isig' = i' + 1) :
          let later := if keys.length < left.length then (false, []) else
            scan (fun vchSig vchPubKey => verifier.checkSig vchSig vchPubKey scriptCode) left keys
          Completes (if keys.length < left.length then pure false else
              matchSignatures verifier scriptCode keys.length left.length isig' (ikey + 1))
            (machine, made) later.1
            (machine,
              (later.2.map fun pair => ⟨pair.1, pair.2, scriptCode⟩).reverse ++ made) := by
        by_cases few : keys.length < left.length
        · rw [if_pos few, if_pos few]
          rfl
        · rw [if_neg few, if_neg few]
          exact ih made keysLater (by rw [keyAt]) leftHere leftAt
      rw [List.map_cons, List.reverse_cons, List.append_assoc, List.singleton_append]
      cases fit : verifier.checkSig vchSig vchPubKey scriptCode with
      | false => exact onward _ sigsHere sigAt
      | true => exact onward _ (drop_further sigsHere) (by rw [if_pos rfl, sigAt])

theorem opCheckMultiSig_scan {machine : Machine} {sigs keys : List Element} {below : Stack}
    (wellFormed : WellFormed verifier machine sigs keys below) (calls : List CheckCall) :
    let scriptCode := withoutSignatures sigs.reverse machine.pbegincodehash
    let scanned := scan (fun vchSig vchPubKey => verifier.checkSig vchSig vchPubKey scriptCode)
      sigs.reverse keys.reverse
    Completes (opCheckMultiSig verifier false) (machine, calls) ()
      ({ machine with
          stack := boolElement scanned.1 :: below, nOpCount := machine.nOpCount + keys.length },
        (scanned.2.map fun pair => ⟨pair.1, pair.2, scriptCode⟩).reverse ++ calls) := by
  obtain ⟨dummy, nSigs, nKeys, stands, sigsRead, keysRead, clean⟩ := wellFormed.laid
  have placed := arguments_placed stands
  have long := congrArg List.length placed.dummyHere
  rw [List.length_drop, List.length_cons] at long
  let counted : Machine := { machine with nOpCount := machine.nOpCount + keys.length }
  unfold opCheckMultiSig
  rw [completes_bind]
  refine ⟨keys.length, (counted, calls), completes_inside.mpr
    ⟨keysCount_reads (by rw [stands]; rfl) keysRead wellFormed.most wellFormed.counted, rfl⟩, ?_⟩
  rw [completes_bind]
  refine ⟨sigs.length, (counted, calls), completes_inside.mpr
    ⟨sigsCount_reads placed.numberHere sigsRead wellFormed.fewer, rfl⟩, ?_⟩
  rw [completes_bind]
  refine ⟨(), (counted, calls), completes_inside.mpr ⟨needStack_completes ?_ _, rfl⟩, ?_⟩
  · change 3 + keys.length + sigs.length ≤ machine.stack.length
    omega
  rw [completes_bind]
  refine ⟨machine.pbegincodehash, (counted, calls), rfl, ?_⟩
  have dropped := @dropSignatures_completes counted sigs.reverse (dummy :: below)
    (3 + keys.length) _ machine.pbegincodehash placed.sigsHere (by omega)
  rw [List.length_reverse] at dropped
  rw [completes_bind]
  refine ⟨_, (counted, calls), completes_inside.mpr ⟨dropped, rfl⟩, ?_⟩
  have matched := @matchSignatures_scan verifier unencoded counted
    (withoutSignatures sigs.reverse machine.pbegincodehash) keys.reverse sigs.reverse _ _
    (3 + keys.length) 2 _ 1 calls placed.keysHere rfl placed.sigsHere (by omega)
  rw [List.length_reverse, List.length_reverse] at matched
  rw [completes_bind]
  refine ⟨_, _, matched, completes_inside.mpr ⟨?_, rfl⟩⟩
  have times : 3 + keys.length + sigs.length - 1 = keys.length + 2 + sigs.length := by omega
  rw [times]
  exact @result_completes verifier counted dummy _ below placed.dummyHere clean _

end Scan

/-- `OP_CHECKMULTISIG` on well-formed arguments pushes true exactly where the signatures have
    distinct keys in their order that they are right under. It asks the checker no more often
    than there are keys, and takes away no more than the arguments and the dummy. -/
theorem checkMultiSig_matches {verifier : Verifier} (unencoded : Unencoded verifier.flags)
    {machine : Machine} {sigs keys : List Element} {below : Stack}
    (wellFormed : WellFormed verifier machine sigs keys below) (calls : List CheckCall)
    {read : OpRead} (opcode : read.opcodeRet = OP_CHECKMULTISIG) :
    ∃ fSuccess made,
      dispatch verifier true read (machine, calls) = .ok ()
        ({ machine with
            stack := boolElement fSuccess :: below, nOpCount := machine.nOpCount + keys.length },
          made ++ calls) ∧
      made.length ≤ keys.length ∧
      (fSuccess = true ↔ ∃ place : Fin sigs.length → Fin keys.length, StrictMono place ∧
        ∀ i, verifier.checkSig (sigs.get i) (keys.get (place i))
          (withoutSignatures sigs.reverse machine.pbegincodehash) = true) := by
  have goes : dispatch verifier true read = opCheckMultiSig verifier false := by
    unfold dispatch
    rw [opcode]
    rfl
  refine ⟨_, _, (congrFun goes _).trans (opCheckMultiSig_scan unencoded wellFormed calls), ?_,
    scan_reverse_iff sigs keys⟩
  rw [List.length_reverse, List.length_map, ← @List.length_reverse _ keys]
  exact scan_tries _ _

def sameBytes : Verifier :=
  { sampleVerifier with checkSig := fun vchSig vchPubKey _ => vchSig == vchPubKey }

def twoOfThree : Machine where
  stack := arguments [] [[11], [13]] [2] [[11], [12], [13]] [3] ++ [[9]]
  altstack := []
  vfExec := []
  pbegincodehash := []
  nOpCount := 1

theorem two_of_three_matched :
    ∃ made, dispatch sameBytes true ⟨true, [], OP_CHECKMULTISIG, []⟩ (twoOfThree, []) = .ok ()
      ({ twoOfThree with stack := [vchTrue, [9]], nOpCount := 4 }, made) ∧ made.length ≤ 3 := by
  have wellFormed : WellFormed sameBytes twoOfThree [[11], [13]] [[11], [12], [13]] [[9]] :=
    ⟨⟨[], [2], [3], rfl, ⟨⟨2, by decide⟩, rfl, rfl⟩, ⟨⟨3, by decide⟩, rfl, rfl⟩, fun _ => rfl⟩, by decide, by decide,
      by decide⟩
  obtain ⟨fSuccess, made, ran, few, matches'⟩ := @checkMultiSig_matches sameBytes
    (by unfold Unencoded; decide) twoOfThree [[11], [13]] [[11], [12], [13]] [[9]] wellFormed []
    ⟨true, [], OP_CHECKMULTISIG, []⟩ rfl
  have success : fSuccess = true := matches'.mpr
    ⟨fun i => if i = 0 then 0 else 2, by intro i j; revert i j; decide, by decide⟩
  rw [success, List.append_nil] at ran
  exact ⟨made, ran, few⟩

end OxidMultiSig
