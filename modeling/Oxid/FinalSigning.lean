import Oxid.Instructions
import Oxid.Library.WrappedSum
import Oxid.Obfuscation

/-!
The client's side of a mixing session. It signs the final transaction when as many equal
pairs of outputs are found as it has outputs, and when their values come to the same sum.
-/
namespace OxidFinalSigning
open OxidPrimitives OxidInstructions OxidObfuscation OxidSignatureEncoding

/-- The last input of the final transaction that equals one of the client's. -/
def findMine (s : CTxDSIn) : List PoolTxIn → Nat → Option Nat → Option Nat
  | [], _, mine => mine
  | txin :: rest, i, mine =>
    findMine s rest (i + 1) (if sameTxIn txin.txin s.txin then some i else mine)

def found (e : CObfuScationEntry) (vout : List CTxOut) : List CTxOut :=
  vout.flatMap fun out => e.vout.filter (out == ·)

def total (outs : List CTxOut) : Int := (outs.map CTxOut.nValue).sum.bmod (2 ^ 64)

def refuses (e : CObfuScationEntry) (vout : List CTxOut) : Bool :=
  decide (countedInt (found e vout).length < countedInt e.vout.length) ||
    total (found e vout) != total e.vout

/-- The variables of the loops, and the entries and places `SignSignature` was called for. -/
structure Signing where
  finalTransaction : FinalTransaction
  sigs : List PoolTxIn
  signed : List (CObfuScationEntry × Nat)
deriving DecidableEq

structure Outcome where
  result : Bool
  pool : CObfuscationPool
  signed : List (CObfuScationEntry × Nat)
  dss : Option (List PoolTxIn)
  unlocked : Bool
deriving DecidableEq

def setNull (pool : CObfuscationPool) : CObfuscationPool where
  entries := []
  finalTransaction := { pool.finalTransaction with vin := [], vout := [] }

section Signing

-- The script that `SignSignature` leaves, whether it can sign or not.
variable (signSignature : CScript → FinalTransaction → Nat → UInt32 → CScript)

def signAt (prevPubKey : CScript) (tx : FinalTransaction) (mine : Nat) : FinalTransaction :=
  let scriptSig := signSignature prevPubKey tx mine (SIGHASH_ALL ||| SIGHASH_ANYONECANPAY).toUInt32
  { tx with vin := tx.vin.modify mine fun txin =>
      { txin with txin := { txin.txin with scriptSig := scriptSig } } }

def signInput (e : CObfuScationEntry) (s : CTxDSIn) (signing : Signing) : Except Signing Signing :=
  match findMine s signing.finalTransaction.vin 0 none with
  | none => .ok signing
  | some mine =>
    if refuses e signing.finalTransaction.vout then .error signing
    else
      let tx := signAt signSignature s.prevPubKey signing.finalTransaction mine
      .ok ⟨tx, signing.sigs ++ tx.vin[mine]?.toList, signing.signed ++ [(e, mine)]⟩

def signInputs : List (CObfuScationEntry × CTxDSIn) → Signing → Except Signing Signing
  | [], signing => .ok signing
  | (e, s) :: rest, signing => (signInput signSignature e s signing).bind (signInputs rest)

def inputsOf (entries : List CObfuScationEntry) : List (CObfuScationEntry × CTxDSIn) :=
  entries.flatMap fun e => e.sev.map (e, ·)

def signFinalTransaction (fMasterNode : Bool) (pool : CObfuscationPool)
    (finalTransactionNew : FinalTransaction) (node : Bool) : Outcome :=
  if fMasterNode then ⟨false, pool, [], none, false⟩
  else
    match signInputs signSignature (inputsOf pool.entries) ⟨finalTransactionNew, [], []⟩ with
    | .error signing =>
      ⟨false, setNull ⟨pool.entries, signing.finalTransaction⟩, signing.signed, none, true⟩
    | .ok signing =>
      ⟨true, ⟨pool.entries, signing.finalTransaction⟩, signing.signed,
        if !signing.sigs.isEmpty && node then some signing.sigs else none, false⟩

/-- The final transaction has each output of the entry as often as the entry lists it. -/
def Pays (vout : List CTxOut) (e : CObfuScationEntry) : Prop :=
  ∀ o ∈ e.vout, e.vout.count o ≤ vout.count o

def SignsPaid (fMasterNode : Bool) (pool : CObfuscationPool) (final : FinalTransaction)
    (node : Bool) : Prop :=
  ∀ call ∈ (signFinalTransaction signSignature fMasterNode pool final node).signed,
    Pays final.vout call.1

def Finds (inputs : List (CObfuScationEntry × CTxDSIn)) (start : Signing)
    (e : CObfuScationEntry) (mine : Nat) : Prop :=
  ∃ before s later signing, inputs = before ++ (e, s) :: later ∧
    signInputs signSignature before start = .ok signing ∧
    findMine s signing.finalTransaction.vin 0 none = some mine

/-- Values as `CheckTransaction` lets them into an entry. -/
structure Owned (e : CObfuScationEntry) : Prop where
  values : ∀ o ∈ e.vout, 0 ≤ o.nValue
  sum : (e.vout.map CTxOut.nValue).sum < 2 ^ 63

structure Single (vout : List CTxOut) (e : CObfuScationEntry) : Prop extends Owned e where
  once : ∀ o ∈ e.vout, 0 < o.nValue → e.vout.count o = 1 ∧ vout.count o ≤ 1
  worthless : ∀ o ∈ e.vout, o.nValue = 0 → e.vout.count o ≤ vout.count o

/-- An entry that an input is found of is refused or has single outputs. -/
def RefusedOrSingle (fMasterNode : Bool) (pool : CObfuscationPool) (final : FinalTransaction) :
    Prop :=
  fMasterNode = false → ∀ e mine,
    Finds signSignature (inputsOf pool.entries) ⟨final, [], []⟩ e mine →
      refuses e final.vout = true ∨ Single final.vout e

section Counting

variable {e : CObfuScationEntry} {vout : List CTxOut}

theorem filter_sum (out : CTxOut) (outs : List CTxOut) :
    ((outs.filter (out == ·)).map CTxOut.nValue).sum =
      (outs.map fun o => if out == o then o.nValue else 0).sum := by
  induction outs with
  | nil => rfl
  | cons o rest ih =>
    rw [List.map_cons, List.sum_cons, ← ih]
    by_cases same : out = o
    · simp [same]
    · simp [same]

theorem terms_eq {f g : CTxOut → Int} {outs : List CTxOut} (below : ∀ o ∈ outs, f o ≤ g o)
    (sums : (outs.map f).sum = (outs.map g).sum) : ∀ o ∈ outs, f o = g o := by
  intro o listed
  by_contra other
  exact (List.sum_lt_sum f g below
    ⟨o, listed, lt_of_le_of_ne (below o listed) other⟩).ne sums

theorem found_sum (e : CObfuScationEntry) (vout : List CTxOut) :
    ((found e vout).map CTxOut.nValue).sum =
      (e.vout.map fun o => (vout.count o : Int) * o.nValue).sum := by
  induction vout with
  | nil => simp [found]
  | cons out rest ih =>
    have split : found e (out :: rest) = e.vout.filter (out == ·) ++ found e rest := rfl
    rw [split, List.map_append, List.sum_append, ih, filter_sum, ← List.sum_map_add]
    congr 1
    apply List.map_congr_left
    intro o _
    by_cases same : out = o
    · simp [same]
      ring
    · simp [same]

theorem found_nonneg (owned : Owned e) : 0 ≤ ((found e vout).map CTxOut.nValue).sum := by
  rw [found_sum]
  apply List.sum_nonneg
  intro value member
  obtain ⟨o, listed, rfl⟩ := List.mem_map.mp member
  exact mul_nonneg (Int.natCast_nonneg _) (owned.values o listed)

theorem accepted_sum (owned : Owned e) (fits : ((found e vout).map CTxOut.nValue).sum < 2 ^ 63)
    (accepted : refuses e vout = false) :
    (e.vout.map fun o => (vout.count o : Int) * o.nValue).sum = (e.vout.map CTxOut.nValue).sum := by
  have positive : 0 ≤ (e.vout.map CTxOut.nValue).sum := by
    apply List.sum_nonneg
    simpa using owned.values
  have same : total (found e vout) = total e.vout := by
    simp only [refuses, Bool.or_eq_false_iff, bne_eq_false_iff_eq] at accepted
    exact accepted.2
  unfold total at same
  rw [WrappedSum.bmod_fits (found_nonneg owned) fits,
    WrappedSum.bmod_fits positive owned.sum, found_sum] at same
  exact same

theorem Single.below (single : Single vout e) :
    ∀ o ∈ e.vout, (vout.count o : Int) * o.nValue ≤ o.nValue := by
  intro o listed
  rcases (single.values o listed).eq_or_lt with zero | positive
  · simp [← zero]
  · have most := (single.once o listed positive).2
    exact mul_le_of_le_one_left positive.le (by exact_mod_cast most)

theorem Single.fits (single : Single vout e) :
    ((found e vout).map CTxOut.nValue).sum < 2 ^ 63 := by
  rw [found_sum]
  exact (List.sum_le_sum single.below).trans_lt single.sum

theorem Single.pays (single : Single vout e) (accepted : refuses e vout = false) :
    Pays vout e := by
  have sums := accepted_sum single.toOwned single.fits accepted
  have terms := terms_eq single.below sums
  intro o listed
  rcases (single.values o listed).eq_or_lt with zero | positive
  · exact single.worthless o listed zero.symm
  · have one : (vout.count o : Int) = 1 :=
      (mul_eq_right₀ positive.ne').mp (terms o listed)
    have lists := (single.once o listed positive).1
    omega

theorem Pays.single (owned : Owned e) (fits : ((found e vout).map CTxOut.nValue).sum < 2 ^ 63)
    (accepted : refuses e vout = false) (pays : Pays vout e) : Single vout e := by
  have sums := accepted_sum owned fits accepted
  have there : ∀ o ∈ e.vout, 1 ≤ vout.count o := fun o listed =>
    (List.count_pos_iff.mpr listed).trans_le (pays o listed)
  have terms := terms_eq (fun o listed => le_mul_of_one_le_left (owned.values o listed)
    (by exact_mod_cast there o listed)) sums.symm
  refine ⟨owned, fun o listed positive => ?_, fun o listed _ => pays o listed⟩
  have one : (vout.count o : Int) = 1 :=
    (mul_eq_right₀ positive.ne').mp (terms o listed).symm
  have least := List.count_pos_iff.mpr listed
  have most := pays o listed
  omega

end Counting

section Calls

variable {signSignature} {signing : Signing} {e : CObfuScationEntry} {mine : Nat}

def left : Except Signing Signing → Signing
  | .ok signing => signing
  | .error signing => signing

theorem finds_nil : ¬Finds signSignature [] signing e mine := by
  rintro ⟨before, s, later, middle, split, _⟩
  simp at split

theorem finds_cons {first : CObfuScationEntry} {s : CTxDSIn}
    {rest : List (CObfuScationEntry × CTxDSIn)} :
    Finds signSignature ((first, s) :: rest) signing e mine ↔
      (e = first ∧ findMine s signing.finalTransaction.vin 0 none = some mine) ∨
        ∃ next, signInput signSignature first s signing = .ok next ∧
          Finds signSignature rest next e mine := by
  constructor
  · rintro ⟨before, own, later, middle, split, run, found⟩
    cases before with
    | nil =>
      simp only [List.nil_append, List.cons.injEq, Prod.mk.injEq] at split
      obtain ⟨⟨rfl, rfl⟩, rfl⟩ := split
      cases run
      exact .inl ⟨rfl, found⟩
    | cons head before =>
      simp only [List.cons_append, List.cons.injEq] at split
      obtain ⟨rfl, rfl⟩ := split
      cases step : signInput signSignature first s signing with
      | error stopped => simp [signInputs, step, Except.bind] at run
      | ok next =>
        simp only [signInputs, step, Except.bind] at run
        exact .inr ⟨next, rfl, before, own, later, middle, rfl, run, found⟩
  · rintro (⟨rfl, found⟩ | ⟨next, step, before, own, later, middle, split, run, found⟩)
    · exact ⟨[], s, rest, signing, rfl, rfl, found⟩
    · exact ⟨(first, s) :: before, own, later, middle, by simp [split],
        by simpa [signInputs, step, Except.bind] using run, found⟩

theorem signInput_vout {s : CTxDSIn} {next : Signing}
    (step : signInput signSignature e s signing = .ok next) :
    next.finalTransaction.vout = signing.finalTransaction.vout := by
  unfold signInput at step
  split at step
  · cases step
    rfl
  · split at step
    · cases step
    · cases step
      rfl

theorem signed_iff (inputs : List (CObfuScationEntry × CTxDSIn)) (signing : Signing) :
    (e, mine) ∈ (left (signInputs signSignature inputs signing)).signed ↔
      (e, mine) ∈ signing.signed ∨
        Finds signSignature inputs signing e mine ∧
          refuses e signing.finalTransaction.vout = false := by
  induction inputs generalizing signing with
  | nil => simp [signInputs, left, finds_nil]
  | cons input rest ih =>
    obtain ⟨first, s⟩ := input
    rw [finds_cons]
    cases found : findMine s signing.finalTransaction.vin 0 none with
    | none =>
      have step : signInput signSignature first s signing = .ok signing := by
        simp [signInput, found]
      simpa [signInputs, step, Except.bind] using ih signing
    | some place =>
      cases refused : refuses first signing.finalTransaction.vout with
      | true =>
        have step : signInput signSignature first s signing = .error signing := by
          simp [signInput, found, refused]
        simp only [signInputs, step, Except.bind, left]
        constructor
        · exact .inl
        · rintro (before | ⟨⟨rfl, _⟩ | ⟨next, other, _⟩, accepted⟩)
          · exact before
          · simp [refused] at accepted
          · cases other
      | false =>
        obtain ⟨next, step, signed⟩ : ∃ next, signInput signSignature first s signing = .ok next ∧
            next.signed = signing.signed ++ [(first, place)] := by
          simp [signInput, found, refused]
        have vout := signInput_vout step
        simp only [signInputs, step, Except.bind, ih next, signed, vout, List.mem_append,
          List.mem_singleton, Prod.mk.injEq, Except.ok.injEq, exists_eq_left']
        constructor
        · rintro ((before | ⟨rfl, rfl⟩) | ⟨later, accepted⟩)
          · exact .inl before
          · exact .inr ⟨.inl ⟨rfl, rfl⟩, refused⟩
          · exact .inr ⟨.inr later, accepted⟩
        · rintro (before | ⟨⟨rfl, same⟩ | later, accepted⟩)
          · exact .inl (.inl before)
          · exact .inl (.inr ⟨rfl, (Option.some.inj same).symm⟩)
          · exact .inr ⟨later, accepted⟩

end Calls

theorem signFinalTransaction_signed (pool : CObfuscationPool) (final : FinalTransaction)
    (node : Bool) : (signFinalTransaction signSignature false pool final node).signed =
      (left (signInputs signSignature (inputsOf pool.entries) ⟨final, [], []⟩)).signed := by
  unfold signFinalTransaction
  cases signInputs signSignature (inputsOf pool.entries) ⟨final, [], []⟩ <;> rfl

theorem inputsOf_mem {entries : List CObfuScationEntry} {e : CObfuScationEntry} {s : CTxDSIn}
    (member : (e, s) ∈ inputsOf entries) : e ∈ entries := by
  simp only [inputsOf, List.mem_flatMap, List.mem_map, Prod.mk.injEq] at member
  obtain ⟨_, listed, _, _, rfl, _⟩ := member
  exact listed

/-- An entry is signed for only if the final transaction pays it, when each one that an input is
    found of is refused or has single outputs. For values as they are let into an entry, and
    sums that do not wrap, there is no other way. -/
theorem signs_paid_iff (fMasterNode : Bool) (pool : CObfuscationPool) (final : FinalTransaction)
    (node : Bool) :
    (RefusedOrSingle signSignature fMasterNode pool final →
      SignsPaid signSignature fMasterNode pool final node) ∧
    ((∀ e ∈ pool.entries,
        Owned e ∧ ((found e final.vout).map CTxOut.nValue).sum < 2 ^ 63) →
      (SignsPaid signSignature fMasterNode pool final node ↔
        RefusedOrSingle signSignature fMasterNode pool final)) := by
  have enough : RefusedOrSingle signSignature fMasterNode pool final →
      SignsPaid signSignature fMasterNode pool final node := by
    rintro single ⟨e, mine⟩ call
    cases fMasterNode with
    | true => simp [signFinalTransaction] at call
    | false =>
      rw [signFinalTransaction_signed, signed_iff] at call
      rcases call with none' | ⟨finds, accepted⟩
      · cases none'
      · rcases single rfl e mine finds with refused | single
        · simp [refused] at accepted
        · exact single.pays accepted
  refine ⟨enough, fun exact' => ⟨fun paid client e mine finds => ?_, enough⟩⟩
  subst client
  cases accepted : refuses e final.vout with
  | true => exact .inl rfl
  | false =>
    have pays : Pays final.vout e := by
      apply paid (e, mine)
      rw [signFinalTransaction_signed, signed_iff]
      exact .inr ⟨finds, accepted⟩
    obtain ⟨before, s, later, _, split, _⟩ := finds
    obtain ⟨owned, fits⟩ := exact' e (inputsOf_mem (s := s) (by simp [split]))
    exact .inr (pays.single owned fits accepted)

def twoOutputs : List CTxOut := [⟨100, [1], -10⟩, ⟨100, [2], -10⟩]

def mixedPool : CObfuscationPool where
  entries := [⟨[{ toPoolTxIn := clientInput [], fHasSig := false }], twoOutputs⟩]
  finalTransaction := ⟨1, [], [], 0⟩

theorem doubled_output_signed :
    (signFinalTransaction (fun _ _ _ _ => [7]) false mixedPool
        ⟨1, [clientInput []], [⟨100, [1], -10⟩, ⟨100, [1], -10⟩], 0⟩ true).dss =
      some [clientInput [7]] ∧
    ¬SignsPaid (fun _ _ _ _ => [7]) false mixedPool
      ⟨1, [clientInput []], [⟨100, [1], -10⟩, ⟨100, [1], -10⟩], 0⟩ true := by
  refine ⟨by decide +kernel, fun paid => ?_⟩
  have pays := paid (⟨[{ toPoolTxIn := clientInput [], fHasSig := false }], twoOutputs⟩, 0)
    (by decide +kernel) ⟨100, [2], -10⟩ (by decide)
  exact absurd pays (by decide)

end Signing

end OxidFinalSigning
