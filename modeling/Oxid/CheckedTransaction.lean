import Oxid.BlockRoundTrip
import Oxid.ChainRun

/-!
What `CheckTransaction` establishes. An input with the script of a zerocoin spend is not
noted as spent, and a null outpoint is not refused while zerocoins are inactive.
-/
namespace OxidCheckedTransaction
open OxidPrimitives OxidChainParams OxidZerocoin OxidDisconnectBlock OxidNode OxidCheckBlock
open OxidBlockRoundTrip OxidChainRun Attempt

def outputSum (vout : List CTxOut) : Int := (vout.map CTxOut.nValue).sum

structure ValuesInRange (params : ChainParams) (vout : List CTxOut) : Prop where
  each : ∀ txout ∈ vout, moneyRange params txout.nValue = true
  sums : ∀ front, front <+: vout → moneyRange params (outputSum front) = true
  noOverflow : ∀ front, front <+: vout → outputSum front ≤ maxInt64

structure SpendsSoundly (params : ChainParams) (tx : CTransaction) : Prop where
  inputs : tx.vin ≠ []
  outputs : tx.vout ≠ []
  values : ValuesInRange params tx.vout
  once : ((inputsSpent tx).map CTxIn.prevout).Nodup
  nulls : tx.isCoinBase = false → tx.isZerocoinSpend = false →
    ∀ txin ∈ tx.vin, txin.prevout.isNull = false

/-- The inputs that would make it unsound are among those the checks look at: one that names the
    outpoint of a later one has no zerocoin spend script, nor has one with a null outpoint, while
    zerocoins are active. -/
structure Watched (fZerocoinActive : Bool) (vin : List CTxIn) : Prop where
  repeated : vin.Pairwise fun txin later =>
    CScript.isZerocoinSpend txin.scriptSig = true → txin.prevout ≠ later.prevout
  null : ∀ txin ∈ vin, txin.prevout.isNull = true →
    fZerocoinActive = true ∧ CScript.isZerocoinSpend txin.scriptSig = false

theorem outputSum_cons (txout : CTxOut) (rest : List CTxOut) :
    outputSum (txout :: rest) = txout.nValue + outputSum rest := List.sum_cons

section Checks

variable {params : ChainParams} {fZerocoinActive : Bool}

theorem checkOutputs_ok {tx : CTransaction} {vout : List CTxOut} {nValueOut : Int}
    {nZCSpendCount : Nat} {totals : Int × Nat}
    (checked : checkOutputs params tx fZerocoinActive vout (nValueOut, nZCSpendCount) = .ok totals)
    (begun : moneyRange params nValueOut = true) :
    (∀ txout ∈ vout, moneyRange params txout.nValue = true) ∧
      ∀ front, front <+: vout → moneyRange params (nValueOut + outputSum front) = true := by
  induction vout generalizing nValueOut nZCSpendCount with
  | nil =>
    refine ⟨nofun, fun front part => ?_⟩
    rw [List.prefix_nil.mp part, outputSum, List.map_nil, List.sum_nil, Int.add_zero]
    exact begun
  | cons txout rest ih =>
    unfold checkOutputs at checked
    simp only [bind_ok, require_ok, exists_const, decide_eq_true_eq] at checked
    obtain ⟨-, nonneg, most, sum, later⟩ := checked
    obtain ⟨each, sums⟩ := ih later sum
    refine ⟨?_, fun front part => ?_⟩
    · intro other member
      rcases List.mem_cons.mp member with here | there
      · rw [here, moneyRange, decide_eq_true nonneg, decide_eq_true most]
        rfl
      · exact each other there
    · rcases List.prefix_cons_iff.mp part with none' | ⟨front', whole, part'⟩
      · rw [none', outputSum, List.map_nil, List.sum_nil, Int.add_zero]
        exact begun
      · rw [whole, outputSum_cons, ← Int.add_assoc]
        exact sums front' part'

theorem checkDuplicateInputs_ok {vin : List CTxIn} {vInOutPoints : List COutPoint} :
    checkDuplicateInputs vin vInOutPoints = .ok () ↔
      (∀ txin ∈ vin, txin.prevout ∉ vInOutPoints) ∧ vin.Pairwise fun txin later =>
        CScript.isZerocoinSpend txin.scriptSig = false → txin.prevout ≠ later.prevout := by
  induction vin generalizing vInOutPoints with
  | nil => simp [checkDuplicateInputs]
  | cons txin rest ih =>
    unfold checkDuplicateInputs
    simp only [bind_ok, require_ok, exists_const]
    rw [ih, List.forall_mem_cons, List.pairwise_cons, Bool.not_eq_true', List.contains_eq_mem,
      decide_eq_false_iff_not]
    cases CScript.isZerocoinSpend txin.scriptSig with
    | true => simp [and_assoc]
    | false =>
      simp only [Bool.false_eq_true, if_false, List.mem_cons, not_or, forall_const]
      constructor
      · rintro ⟨fresh, apart, later⟩
        exact ⟨⟨fresh, fun other member => (apart other member).2⟩,
          fun other member same => (apart other member).1 same.symm, later⟩
      · rintro ⟨⟨fresh, apart⟩, differ, later⟩
        exact ⟨fresh, fun other member =>
          ⟨fun same => differ other member same.symm, apart other member⟩, later⟩

theorem checkKind_ok {tx : CTransaction} (coinBase : tx.isCoinBase = false)
    (zerocoinSpend : tx.isZerocoinSpend = false) (checked : checkKind params tx fZerocoinActive = .ok ()) :
    ∀ txin ∈ tx.vin, txin.prevout.isNull = true → fZerocoinActive = true →
      CScript.isZerocoinSpend txin.scriptSig = true := by
  unfold checkKind at checked
  rw [coinBase, zerocoinSpend, Bool.and_false, if_neg Bool.false_ne_true,
    if_neg Bool.false_ne_true, require_ok, List.all_eq_true] at checked
  intro txin member null active
  have passed := checked txin member
  rw [null, active] at passed
  simpa using passed

end Checks

section Accepted

variable {machinery : Machinery} {node : Node} {zerocoinDB : CZerocoinDB} {tx : CTransaction}
  {fZerocoinActive : Bool}

theorem accepted_values (money : node.params.nMaxMoneyOut = 89000000 * COIN)
    (accepted : checkTransaction machinery node zerocoinDB tx fZerocoinActive = .ok ()) :
    tx.vin ≠ [] ∧ tx.vout ≠ [] ∧ ValuesInRange node.params tx.vout := by
  unfold checkTransaction at accepted
  simp only [bind_ok, require_ok, exists_const] at accepted
  obtain ⟨inputs, outputs, -, _, sums, -⟩ := accepted
  have nothing : moneyRange node.params 0 = true := by
    rw [moneyRange, money]
    decide
  obtain ⟨each, partial'⟩ := checkOutputs_ok sums nothing
  refine ⟨by simpa using inputs, by simpa using outputs, each, fun front part => ?_,
    fun front part => ?_⟩
  · have sum := partial' front part
    rwa [Int.zero_add] at sum
  · have sum := partial' front part
    rw [Int.zero_add, moneyRange, Bool.and_eq_true, decide_eq_true_eq, decide_eq_true_eq, money] at sum
    have limit : 89000000 * COIN ≤ maxInt64 := by decide
    exact sum.2.trans limit

/-- A transaction that passes is sound exactly when, if it spends outputs, the inputs that
    could make it unsound are watched. -/
theorem accepted_sound_iff (money : node.params.nMaxMoneyOut = 89000000 * COIN)
    (accepted : checkTransaction machinery node zerocoinDB tx fZerocoinActive = .ok ()) :
    SpendsSoundly node.params tx ↔ (spendsInputs tx = true → Watched fZerocoinActive tx.vin) := by
  obtain ⟨inputs, outputs, values⟩ := accepted_values money accepted
  unfold checkTransaction at accepted
  simp only [bind_ok, require_ok, exists_const] at accepted
  obtain ⟨-, -, -, _, -, _, -, _, unrepeated, kind⟩ := accepted
  have apart := (checkDuplicateInputs_ok.mp unrepeated).2
  constructor
  · intro sound ordinary
    have both : tx.isCoinBase = false ∧ tx.isZerocoinSpend = false := by
      simpa [spendsInputs] using ordinary
    have once := sound.once
    unfold inputsSpent at once
    rw [if_pos ordinary, List.Nodup, List.pairwise_map] at once
    refine ⟨?_, fun txin member null => ?_⟩
    · refine once.imp ?_
      intro txin later differ _
      exact differ
    · rw [sound.nulls both.1 both.2 txin member] at null
      cases null
  · intro watched
    refine ⟨inputs, outputs, values, ?_, fun coinBase zerocoinSpend txin member => ?_⟩
    · unfold inputsSpent
      split
      · rename_i ordinary
        rw [List.Nodup, List.pairwise_map]
        refine (apart.and (watched ordinary).repeated).imp fun {txin later} differ => ?_
        cases spend : CScript.isZerocoinSpend txin.scriptSig with
        | true => exact differ.2 spend
        | false => exact differ.1 spend
      · exact List.nodup_nil
    · have ordinary : spendsInputs tx = true := by rw [spendsInputs, coinBase, zerocoinSpend]; rfl
      cases null : txin.prevout.isNull with
      | false => rfl
      | true =>
        obtain ⟨active, unmarked⟩ := (watched ordinary).null txin member null
        rw [checkKind_ok coinBase zerocoinSpend kind txin member null active] at unmarked
        cases unmarked

end Accepted

def paymentFrom (inputs : List (COutPoint × CScript)) : CTransaction :=
  ⟨1, inputs.map fun (prevout, scriptSig) => ⟨prevout, scriptSig, 0xffffffff⟩,
    [⟨50 * COIN, [0x51], -10⟩], 0⟩

def fromNowhere : CTransaction := paymentFrom [(COutPoint.null, [0x51]), (⟨1, 0⟩, [0x51])]

def spentTwice : CTransaction :=
  paymentFrom [(⟨1, 0⟩, [OP_ZEROCOINSPEND]), (⟨1, 0⟩, [OP_ZEROCOINSPEND])]

def fromTwo : CTransaction := paymentFrom [(⟨1, 0⟩, [0x51]), (⟨2, 0⟩, [0x51])]

/-- Before zerocoins start an input from nowhere passes, and at any time an outpoint named
    twice under zerocoin spend scripts. -/
theorem unwatched_accepted :
    (checkTransaction labelMachinery firstNode CZerocoinDB.empty fromNowhere false = .ok () ∧
      ¬SpendsSoundly mainParams fromNowhere) ∧
    ∀ fZerocoinActive,
      checkTransaction labelMachinery firstNode CZerocoinDB.empty spentTwice fZerocoinActive = .ok () ∧
        ¬SpendsSoundly mainParams spentTwice := by
  refine ⟨⟨by decide, fun sound => ?_⟩, fun fZerocoinActive => ⟨?_, fun sound => ?_⟩⟩
  · exact absurd (sound.nulls (by decide) (by decide)) (by decide)
  · cases fZerocoinActive <;> decide
  · exact absurd sound.once (by decide)

theorem fromTwo_sound :
    SpendsSoundly mainParams fromTwo ↔ (spendsInputs fromTwo = true → Watched true fromTwo.vin) :=
  @accepted_sound_iff labelMachinery firstNode CZerocoinDB.empty fromTwo true rfl (by decide)

end OxidCheckedTransaction
