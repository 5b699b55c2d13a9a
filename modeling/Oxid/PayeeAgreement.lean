import Oxid.Issuance
import Oxid.PaymentTally

/-!
What `FillBlockPayee` puts into a coinbase or a coinstake, against what a block's payments
are checked for. The payments are shares of the value at the height of the tip, the check
asks for shares of the value at the height of the block.
-/
namespace OxidPayeeAgreement
open OxidPrimitives OxidChainParams OxidNode OxidMasternode OxidMasternodePayments
open OxidPaymentTally OxidCheckBlock OxidConnectBlock OrderedMaps Runs

def MNPAYMENTS_SIGNATURES_REQUIRED : Int := 6

def getMasternodePayment (nHeight blockValue : Int) (mnTier : UInt32) : Int :=
  if nHeight = 0 then 0
  else if mnTier = SUPERNODE then blockValue * 4 / 10
  else blockValue * 4 / 10

def bestPayee (mnTier : UInt32) :
    List CMasternodePayee → Option CMasternodePayee → Option CMasternodePayee
  | [], payment => payment
  | p :: rest, payment =>
    if p.mnTier ≠ mnTier then bestPayee mnTier rest payment
    else if payment.all fun best => decide (p.nVotes > best.nVotes) then
      bestPayee mnTier rest (some p)
    else bestPayee mnTier rest payment

def getPayee (block : CMasternodeBlockPayees) (mnTier : UInt32) :
    Option CScript :=
  match bestPayee mnTier block.vecPayments none with
  | none => none
  | some payment => if payment.mnTier ≠ mnTier then none else some payment.scriptPubKey

def getBlockPayee (payments : CMasternodePayments) (nBlockHeight : Int32)
    (mnTier : UInt32) : Option CScript :=
  match payments.mapMasternodeBlocks.find? nBlockHeight with
  | none => none
  | some block => getPayee block mnTier

def setEmpty (out : CTxOut) : CTxOut := { out with nValue := 0, scriptPubKey := [] }

def resize (size : Nat) (vout : List CTxOut) : List CTxOut :=
  vout.take size ++ List.replicate (size - vout.length) CTxOut.null

/-- The payment set at an output, which is emptied where there is nobody to pay. -/
def payAt (index : Nat) (payee : Option CScript) (payment : Int) (vout : List CTxOut) :
    List CTxOut :=
  vout.modify index fun out =>
    match payee with
    | some script => { out with scriptPubKey := script, nValue := payment }
    | none => setEmpty out

def subtractAt (index : Nat) (nValueToSubtract : Int) (vout : List CTxOut) : List CTxOut :=
  vout.modify index fun out => { out with nValue := out.nValue - nValueToSubtract }

def valueAt (index : Nat) (nValue : Int) (vout : List CTxOut) : List CTxOut :=
  vout.modify index fun out => { out with nValue := nValue }

/-- Who is paid for a tier: the payee voted for, or else the script of the masternode that
    `GetCurrentMasterNode` gives. -/
def payeeOf (payments : CMasternodePayments) (currentMasternode : UInt32 → Option CScript)
    (nHeight : Int) (mnTier : UInt32) : Option CScript :=
  match getBlockPayee payments (Int32.ofInt (nHeight + 1)) mnTier with
  | some payee => some payee
  | none => currentMasternode mnTier

def fillBlockPayee (payments : CMasternodePayments) (currentMasternode : UInt32 → Option CScript)
    (nHeight : Int) (fProofOfStake : Bool) (vout : List CTxOut) : List CTxOut :=
  let blockValue := getBlockValue nHeight
  let masternodePayee := payeeOf payments currentMasternode nHeight MASTERNODE
  let masternodePayment := getMasternodePayment nHeight blockValue MASTERNODE
  let supernodePayee := payeeOf payments currentMasternode nHeight SUPERNODE
  let supernodePayment := getMasternodePayment nHeight blockValue SUPERNODE
  let nValueToSubtract := masternodePayment + supernodePayment
  if masternodePayee.isSome || supernodePayee.isSome then
    if fProofOfStake then
      let i := vout.length + 2
      subtractAt (i - 3) nValueToSubtract
        (payAt (i - 1) supernodePayee supernodePayment
          (payAt (i - 2) masternodePayee masternodePayment (resize i vout)))
    else
      valueAt 0 (blockValue - nValueToSubtract)
        (payAt 2 supernodePayee supernodePayment
          (payAt 1 masternodePayee masternodePayment (resize 3 vout)))
  else if !fProofOfStake then valueAt 0 blockValue vout
  else
    let i := vout.length + 2
    ((subtractAt (i - 3) nValueToSubtract (resize i vout)).modify (i - 2) setEmpty).modify
      (i - 1) setEmpty

/-- The tiers that `maxSignatures` gets an entry for. Its counts are never read. -/
def maxSignatures : List CMasternodePayee → List UInt32 → List UInt32
  | [], tiers => tiers
  | payee :: rest, tiers =>
    if payee.nVotes.toInt < MNPAYMENTS_SIGNATURES_REQUIRED then maxSignatures rest tiers
    else if tiers.contains payee.mnTier then maxSignatures rest tiers
    else maxSignatures rest (payee.mnTier :: tiers)

def paidBy (nBlockHeight : Int) (payee : CMasternodePayee) (out : CTxOut) : Bool :=
  payee.scriptPubKey == out.scriptPubKey &&
    decide (out.nValue ≥
      getMasternodePayment nBlockHeight (getBlockValue nBlockHeight) payee.mnTier)

def strikePaid (nBlockHeight : Int) (vout : List CTxOut) :
    List CMasternodePayee → List UInt32 → Bool
  | [], _ => false
  | payee :: rest, unpaid =>
    if payee.nVotes.toInt < MNPAYMENTS_SIGNATURES_REQUIRED then
      strikePaid nBlockHeight vout rest unpaid
    else if vout.any (paidBy nBlockHeight payee) then
      let unpaid := unpaid.filter fun tier => tier != payee.mnTier
      if unpaid.isEmpty then true else strikePaid nBlockHeight vout rest unpaid
    else strikePaid nBlockHeight vout rest unpaid

/-- `CMasternodeBlockPayees::IsTransactionValid`. -/
def blockTransactionValid (block : CMasternodeBlockPayees) (vout : List CTxOut) : Bool :=
  let unpaid := maxSignatures block.vecPayments []
  if unpaid.isEmpty then true
  else strikePaid block.nBlockHeight.toInt vout block.vecPayments unpaid

def isTransactionValid (payments : CMasternodePayments) (vout : List CTxOut)
    (nBlockHeight : Int32) : Bool :=
  match payments.mapMasternodeBlocks.find? nBlockHeight with
  | none => true
  | some block => blockTransactionValid block vout

section Validating

variable {nBlockHeight : Int} {vout : List CTxOut}

def Elected (payee : CMasternodePayee) : Prop :=
  MNPAYMENTS_SIGNATURES_REQUIRED ≤ payee.nVotes.toInt

theorem maxSignatures_mem (vecPayments : List CMasternodePayee) (tiers : List UInt32)
    (mnTier : UInt32) : mnTier ∈ maxSignatures vecPayments tiers ↔
      mnTier ∈ tiers ∨ ∃ payee ∈ vecPayments, Elected payee ∧ payee.mnTier = mnTier := by
  induction vecPayments generalizing tiers with
  | nil => simp [maxSignatures]
  | cons payee rest ih =>
    unfold maxSignatures
    simp only [List.exists_mem_cons_iff]
    by_cases few : payee.nVotes.toInt < MNPAYMENTS_SIGNATURES_REQUIRED
    · have passed : ¬ Elected payee := by
        unfold Elected
        omega
      rw [if_pos few, ih]
      simp [passed]
    · have elected : Elected payee := by
        unfold Elected
        omega
      rw [if_neg few]
      by_cases known : payee.mnTier ∈ tiers
      · rw [if_pos (by simpa using known), ih]
        constructor
        · rintro (old | later)
          · exact Or.inl old
          · exact Or.inr (Or.inr later)
        · rintro (old | ⟨_, same⟩ | later)
          · exact Or.inl old
          · rw [← same]
            exact Or.inl known
          · exact Or.inr later
      · rw [if_neg (by simpa using known), ih, List.mem_cons]
        constructor
        · rintro ((new | old) | later)
          · exact Or.inr (Or.inl ⟨elected, new.symm⟩)
          · exact Or.inl old
          · exact Or.inr (Or.inr later)
        · rintro (old | ⟨_, same⟩ | later)
          · exact Or.inl (Or.inr old)
          · exact Or.inl (Or.inl same.symm)
          · exact Or.inr later

theorem strikePaid_iff (vecPayments : List CMasternodePayee) {unpaid : List UInt32}
    (some' : unpaid ≠ []) : strikePaid nBlockHeight vout vecPayments unpaid = true ↔
      ∀ mnTier ∈ unpaid, ∃ payee ∈ vecPayments, Elected payee ∧ payee.mnTier = mnTier ∧
        vout.any (paidBy nBlockHeight payee) = true := by
  induction vecPayments generalizing unpaid with
  | nil =>
    obtain ⟨mnTier, member⟩ := List.exists_mem_of_ne_nil unpaid some'
    constructor
    · nofun
    · intro each
      obtain ⟨payee, listed, _⟩ := each mnTier member
      cases listed
  | cons payee rest ih =>
    unfold strikePaid
    simp only [List.exists_mem_cons_iff]
    by_cases few : payee.nVotes.toInt < MNPAYMENTS_SIGNATURES_REQUIRED
    · have passed : ¬ Elected payee := by
        unfold Elected
        omega
      rw [if_pos few, ih some']
      simp [passed]
    · have elected : Elected payee := by
        unfold Elected
        omega
      rw [if_neg few]
      by_cases paid : vout.any (paidBy nBlockHeight payee) = true
      · rw [if_pos paid]
        have struck : ∀ mnTier, mnTier ∈ unpaid.filter (fun tier => tier != payee.mnTier) ↔
            mnTier ∈ unpaid ∧ mnTier ≠ payee.mnTier := by
          intro mnTier
          rw [List.mem_filter, bne_iff_ne]
        by_cases all' : unpaid.filter (fun tier => tier != payee.mnTier) = []
        · rw [if_pos (by simpa using all')]
          constructor
          · intro _ mnTier member
            have same : payee.mnTier = mnTier := by
              by_contra apart
              have left := (struck mnTier).mpr ⟨member, fun equal => apart equal.symm⟩
              rw [all'] at left
              cases left
            exact Or.inl ⟨elected, same, paid⟩
          · intro _
            rfl
        · rw [if_neg (by simpa using all'), ih all']
          constructor
          · intro each mnTier member
            by_cases same : payee.mnTier = mnTier
            · exact Or.inl ⟨elected, same, paid⟩
            · exact Or.inr (each mnTier ((struck mnTier).mpr
                ⟨member, fun equal => same equal.symm⟩))
          · intro each mnTier member
            obtain ⟨listed, apart⟩ := (struck mnTier).mp member
            rcases each mnTier listed with ⟨_, same, _⟩ | later
            · exact absurd same.symm apart
            · exact later
      · rw [if_neg paid, ih some']
        constructor
        · intro each mnTier member
          exact Or.inr (each mnTier member)
        · intro each mnTier member
          rcases each mnTier member with ⟨_, _, here⟩ | later
          · exact absurd here paid
          · exact later

theorem blockTransactionValid_iff (block : CMasternodeBlockPayees) (vout : List CTxOut) :
    blockTransactionValid block vout = true ↔
      ∀ payee ∈ block.vecPayments, Elected payee → ∃ other ∈ block.vecPayments,
        Elected other ∧ other.mnTier = payee.mnTier ∧
          vout.any (paidBy block.nBlockHeight.toInt other) = true := by
  unfold blockTransactionValid
  dsimp only
  by_cases none' : maxSignatures block.vecPayments [] = []
  · rw [if_pos (by simpa using none')]
    constructor
    · intro _ payee member elected
      have listed := (maxSignatures_mem block.vecPayments [] payee.mnTier).mpr
        (Or.inr ⟨payee, member, elected, rfl⟩)
      rw [none'] at listed
      cases listed
    · intro _
      rfl
  · rw [if_neg (by simpa using none'), strikePaid_iff block.vecPayments none']
    constructor
    · intro each payee member elected
      exact each payee.mnTier ((maxSignatures_mem block.vecPayments [] payee.mnTier).mpr
        (Or.inr ⟨payee, member, elected, rfl⟩))
    · intro each mnTier listed
      rcases (maxSignatures_mem block.vecPayments [] mnTier).mp listed with old | found
      · cases old
      · obtain ⟨payee, member, elected, same⟩ := found
        rw [← same]
        exact each payee member elected

def VotedFor (block : CMasternodeBlockPayees) (mnTier : UInt32) : Prop :=
  ∃ payee ∈ block.vecPayments, payee.mnTier = mnTier ∧ Elected payee

def PaysTier (block : CMasternodeBlockPayees) (txNew : CTransaction) (mnTier : UInt32) : Prop :=
  ∃ payee ∈ block.vecPayments, payee.mnTier = mnTier ∧ Elected payee ∧
    ∃ out ∈ txNew.vout, out.scriptPubKey = payee.scriptPubKey ∧
      getMasternodePayment block.nBlockHeight.toInt (getBlockValue block.nBlockHeight.toInt) mnTier
        ≤ out.nValue

theorem paidBy_iff (payee : CMasternodePayee) (out : CTxOut) :
    paidBy nBlockHeight payee out = true ↔ out.scriptPubKey = payee.scriptPubKey ∧
      getMasternodePayment nBlockHeight (getBlockValue nBlockHeight) payee.mnTier ≤
        out.nValue := by
  unfold paidBy
  rw [Bool.and_eq_true, beq_iff_eq, decide_eq_true_eq, eq_comm]

/-- The verdict tier by tier, whatever the order of the payees and of the outputs. -/
theorem every_tier_paid_iff (block : CMasternodeBlockPayees) (txNew : CTransaction) :
    blockTransactionValid block txNew.vout = true ↔
      ∀ mnTier, VotedFor block mnTier → PaysTier block txNew mnTier := by
  rw [blockTransactionValid_iff]
  simp only [List.any_eq_true, paidBy_iff]
  constructor
  · rintro each mnTier ⟨payee, member, rfl, elected⟩
    obtain ⟨other, listed, enough, same, out, paid, script, value⟩ := each payee member elected
    rw [same] at value
    exact ⟨other, listed, same, enough, out, paid, script, value⟩
  · intro each payee member elected
    obtain ⟨other, listed, same, enough, out, paid, script, value⟩ :=
      each payee.mnTier ⟨payee, member, rfl, elected⟩
    rw [← same] at value
    exact ⟨other, listed, enough, same, out, paid, script, value⟩

end Validating

section Choosing

theorem bestPayee_cons (mnTier : UInt32) (p : CMasternodePayee) (rest : List CMasternodePayee)
    (payment : Option CMasternodePayee) :
    ∃ held, bestPayee mnTier (p :: rest) payment = bestPayee mnTier rest held ∧
      (held = payment ∨ held = some p ∧ p.mnTier = mnTier) ∧
      (p.mnTier = mnTier → ∃ best, held = some best ∧ p.nVotes ≤ best.nVotes) ∧
      ∀ old, payment = some old → ∃ best, held = some best ∧ old.nVotes ≤ best.nVotes := by
  have stays : ∀ old, payment = some old → ∃ best, payment = some best ∧ old.nVotes ≤ best.nVotes :=
    fun old standing => ⟨old, standing, Int32.le_refl _⟩
  rw [bestPayee]
  split_ifs with apart more
  · exact ⟨payment, rfl, Or.inl rfl, fun tier => absurd tier apart, stays⟩
  · rw [not_not] at apart
    refine ⟨some p, rfl, Or.inr ⟨rfl, apart⟩, fun _ => ⟨p, rfl, Int32.le_refl _⟩, ?_⟩
    intro old standing
    rw [standing] at more
    have less : old.nVotes < p.nVotes := by simpa using more
    exact ⟨p, rfl, Int32.le_of_lt less⟩
  · obtain ⟨old, standing⟩ : ∃ old, payment = some old := by
      cases payment with
      | none => simp at more
      | some old => exact ⟨old, rfl⟩
    refine ⟨payment, rfl, Or.inl rfl, fun _ => ⟨old, standing, ?_⟩, stays⟩
    rw [standing] at more
    simpa using more

theorem bestPayee_spec (mnTier : UInt32) (vecPayments : List CMasternodePayee)
    (payment : Option CMasternodePayee) :
    match bestPayee mnTier vecPayments payment with
    | none => payment = none ∧ ∀ p ∈ vecPayments, p.mnTier ≠ mnTier
    | some best => (payment = some best ∨ best ∈ vecPayments ∧ best.mnTier = mnTier) ∧
        (∀ p ∈ vecPayments, p.mnTier = mnTier → p.nVotes ≤ best.nVotes) ∧
          ∀ p, payment = some p → p.nVotes ≤ best.nVotes := by
  induction vecPayments generalizing payment with
  | nil => cases payment <;> simp [bestPayee]
  | cons p rest ih =>
    obtain ⟨held, next, source, listed, kept⟩ := bestPayee_cons mnTier p rest payment
    rw [next]
    have later := ih held
    revert later
    cases bestPayee mnTier rest held with
    | none =>
      rintro ⟨none', others⟩
      constructor
      · cases payment with
        | none => rfl
        | some old =>
          obtain ⟨best, standing, _⟩ := kept old rfl
          rw [none'] at standing
          cases standing
      · intro q member
        rcases List.mem_cons.mp member with here | after
        · intro tier
          rw [here] at tier
          obtain ⟨best, standing, _⟩ := listed tier
          rw [none'] at standing
          cases standing
        · exact others q after
    | some best =>
      rintro ⟨origin, votes, above⟩
      constructor
      · rcases origin with same | ⟨after, tier⟩
        · rcases source with old | ⟨new, tier⟩
          · exact Or.inl (old.symm.trans same)
          · rw [new] at same
            rw [← Option.some.inj same]
            exact Or.inr ⟨List.mem_cons_self, tier⟩
        · exact Or.inr ⟨List.mem_cons_of_mem _ after, tier⟩
      · constructor
        · intro q member tier
          rcases List.mem_cons.mp member with here | after
          · rw [here] at tier ⊢
            obtain ⟨standing, found, less⟩ := listed tier
            exact Int32.le_trans less (above standing found)
          · exact votes q after tier
        · intro old standing
          obtain ⟨better, found, less⟩ := kept old standing
          exact Int32.le_trans less (above better found)

theorem getPayee_elected {block : CMasternodeBlockPayees} {payee : CMasternodePayee}
    (member : payee ∈ block.vecPayments) (elected : Elected payee) :
    ∃ best ∈ block.vecPayments, Elected best ∧ best.mnTier = payee.mnTier ∧
      getPayee block payee.mnTier = some best.scriptPubKey := by
  have chosen := bestPayee_spec payee.mnTier block.vecPayments none
  unfold getPayee
  revert chosen
  cases bestPayee payee.mnTier block.vecPayments none with
  | none =>
    rintro ⟨_, others⟩
    exact absurd rfl (others payee member)
  | some best =>
    rintro ⟨from', votes, _⟩
    rcases from' with old | ⟨listed, tier⟩
    · cases old
    · have more := Int32.le_iff_toInt_le.mp (votes payee member rfl)
      have enough : Elected best := by
        unfold Elected at elected ⊢
        omega
      exact ⟨best, listed, enough, tier, by simp [tier]⟩

end Choosing

/-- A block being made over a tip: where the tip is, what the transaction that takes the reward
    pays out before the payees are filled in, what it spends, and the fees of the block. -/
structure Production where
  nHeight : Int
  fProofOfStake : Bool
  vout : List CTxOut
  nValueIn : Int
  nFees : Int
  currentMasternode : UInt32 → Option CScript
  aboveGenesis : 0 ≤ nHeight
  inRange : nHeight + 1 < 2 ^ 31
  fees : 0 ≤ nFees
  filled : vout ≠ []
  coinbase : fProofOfStake = false → vout.length = 1 ∧ nValueIn = 0
  coinstake : fProofOfStake = true →
    (vout.map CTxOut.nValue).sum ≤ nValueIn + getBlockValue (nHeight + 1)

namespace Production

def paid (production : Production) (payments : CMasternodePayments) : List CTxOut :=
  fillBlockPayee payments production.currentMasternode production.nHeight
    production.fProofOfStake production.vout

/-- What `GetMasternodePayment` gives each tier. -/
def share (production : Production) : Int :=
  getMasternodePayment production.nHeight (getBlockValue production.nHeight) MASTERNODE

def kept (production : Production) : List CTxOut :=
  if production.fProofOfStake then
    subtractAt (production.vout.length - 1) (production.share + production.share) production.vout
  else
    valueAt 0 (getBlockValue production.nHeight - (production.share + production.share))
      production.vout

def nExpectedValue (production : Production) : Int :=
  getBlockValue production.nHeight + if production.fProofOfStake then 0 else production.nFees

def nMinted (production : Production) (payments : CMasternodePayments) : Int :=
  ((production.paid payments).map CTxOut.nValue).sum - production.nValueIn

end Production

section Filling

variable (production : Production) (payments : CMasternodePayments)

theorem getMasternodePayment_tier (nHeight blockValue : Int) (mnTier : UInt32) :
    getMasternodePayment nHeight blockValue mnTier =
      if nHeight = 0 then 0 else blockValue * 4 / 10 := by
  unfold getMasternodePayment
  split_ifs <;> rfl

theorem share_tier (mnTier : UInt32) :
    getMasternodePayment production.nHeight (getBlockValue production.nHeight) mnTier =
      production.share := by
  unfold Production.share
  rw [getMasternodePayment_tier, getMasternodePayment_tier]

def tierShare (nHeight : Int) : Int :=
  getMasternodePayment nHeight (getBlockValue nHeight) MASTERNODE

def tierOutput (payee : Option CScript) (payment : Int) : CTxOut :=
  match payee with
  | some script => ⟨payment, script, -10⟩
  | none => ⟨0, [], -10⟩

theorem modify_append {α : Type} (front back : List α) (index : Nat) (change : α → α) :
    (front ++ back).modify (front.length + index) change = front ++ back.modify index change := by
  induction front with
  | nil => simp
  | cons first rest ih =>
    have count : (first :: rest).length + index = rest.length + index + 1 := by
      rw [List.length_cons]
      omega
    rw [count, List.cons_append, List.modify_succ_cons, ih, List.cons_append]

theorem resize_more (vout : List CTxOut) (more : Nat) :
    resize (vout.length + more) vout = vout ++ List.replicate more CTxOut.null := by
  unfold resize
  rw [List.take_of_length_le (by omega), Nat.add_sub_cancel_left]

theorem payAt_pair (front : List CTxOut) (masternodePayee supernodePayee : Option CScript)
    (payment : Int) :
    payAt (front.length + 1) supernodePayee payment
      (payAt (front.length + 0) masternodePayee payment (front ++ List.replicate 2 CTxOut.null)) =
      front ++ [tierOutput masternodePayee payment, tierOutput supernodePayee payment] := by
  unfold payAt
  rw [modify_append, modify_append]
  cases masternodePayee with
  | none => cases supernodePayee <;> rfl
  | some masternode => cases supernodePayee <;> rfl

theorem subtractAt_pair (vout back : List CTxOut) (filled : vout ≠ []) (taken : Int) :
    subtractAt (vout.length - 1) taken (vout ++ back) =
      subtractAt (vout.length - 1) taken vout ++ back := by
  have shape := List.dropLast_append_getLast filled
  have front : vout.length - 1 = vout.dropLast.length + 0 := by rw [List.length_dropLast]; rfl
  unfold subtractAt
  rw [front]
  generalize vout.dropLast = before at shape
  rw [← shape, List.append_assoc, modify_append, modify_append, List.append_assoc]
  rfl

theorem fillBlockPayee_stake (currentMasternode : UInt32 → Option CScript) (nHeight : Int)
    {vout : List CTxOut} (filled : vout ≠ []) :
    fillBlockPayee payments currentMasternode nHeight true vout =
      subtractAt (vout.length - 1) (tierShare nHeight + tierShare nHeight) vout ++
        [tierOutput (payeeOf payments currentMasternode nHeight MASTERNODE) (tierShare nHeight),
        tierOutput (payeeOf payments currentMasternode nHeight SUPERNODE) (tierShare nHeight)] := by
  have supernode : getMasternodePayment nHeight (getBlockValue nHeight) SUPERNODE =
      tierShare nHeight := by
    unfold tierShare
    rw [getMasternodePayment_tier, getMasternodePayment_tier]
  have masternode : getMasternodePayment nHeight (getBlockValue nHeight) MASTERNODE =
      tierShare nHeight := rfl
  unfold fillBlockPayee
  dsimp only
  rw [masternode, supernode]
  generalize payeeOf payments currentMasternode nHeight MASTERNODE = mn
  generalize payeeOf payments currentMasternode nHeight SUPERNODE = sn
  have last : vout.length + 2 - 3 = vout.length - 1 := by omega
  have first : vout.length + 2 - 2 = vout.length + 0 := by omega
  have second : vout.length + 2 - 1 = vout.length + 1 := by omega
  rw [last, first, second, resize_more]
  by_cases somebody : (mn.isSome || sn.isSome) = true
  · rw [if_pos somebody, if_pos rfl, payAt_pair, subtractAt_pair _ _ filled]
  · have nobody : mn = none ∧ sn = none := by simpa using somebody
    have emptied := subtractAt_pair vout (List.replicate 2 CTxOut.null) filled
      (tierShare nHeight + tierShare nHeight)
    have length : (subtractAt (vout.length - 1) (tierShare nHeight + tierShare nHeight)
        vout).length = vout.length := by
      unfold subtractAt
      rw [List.length_modify]
    rw [nobody.1, nobody.2, if_neg (by decide), if_neg (by decide), emptied]
    generalize subtractAt (vout.length - 1) (tierShare nHeight + tierShare nHeight) vout = kept
      at length
    rw [← length, modify_append, modify_append]
    rfl

theorem paid_cases :
    production.paid payments = production.kept ++
      [tierOutput (payeeOf payments production.currentMasternode production.nHeight MASTERNODE)
        production.share,
      tierOutput (payeeOf payments production.currentMasternode production.nHeight SUPERNODE)
        production.share] ∨
    payeeOf payments production.currentMasternode production.nHeight MASTERNODE = none ∧
      payeeOf payments production.currentMasternode production.nHeight SUPERNODE = none ∧
      production.fProofOfStake = false ∧
      production.paid payments = valueAt 0 (getBlockValue production.nHeight) production.vout := by
  unfold Production.paid Production.kept
  cases stake : production.fProofOfStake with
  | true =>
    left
    exact fillBlockPayee_stake payments production.currentMasternode production.nHeight
      production.filled
  | false =>
    unfold fillBlockPayee
    dsimp only
    rw [share_tier, share_tier]
    generalize payeeOf payments production.currentMasternode production.nHeight MASTERNODE = mn
    generalize payeeOf payments production.currentMasternode production.nHeight SUPERNODE = sn
    obtain ⟨out, shape⟩ := List.length_eq_one_iff.mp (production.coinbase stake).1
    by_cases somebody : (mn.isSome || sn.isSome) = true
    · left
      have three : resize 3 production.vout = production.vout ++ List.replicate 2 CTxOut.null := by
        rw [shape]
        rfl
      have pair := payAt_pair production.vout mn sn production.share
      rw [shape] at pair three ⊢
      rw [if_pos somebody, if_neg (by decide), if_neg (by decide), three]
      rw [List.length_singleton] at pair
      rfl
    · right
      have nobody : mn = none ∧ sn = none := by simpa using somebody
      rw [if_neg somebody]
      exact ⟨nobody.1, nobody.2, rfl, rfl⟩

theorem sum_modify (vout : List CTxOut) (taken : Int) (filled : vout ≠ []) :
    ((subtractAt (vout.length - 1) taken vout).map CTxOut.nValue).sum =
      (vout.map CTxOut.nValue).sum - taken := by
  have shape := List.dropLast_append_getLast filled
  have front : vout.length - 1 = vout.dropLast.length + 0 := by rw [List.length_dropLast]; rfl
  unfold subtractAt
  rw [front]
  generalize vout.dropLast = before at shape
  rw [← shape, modify_append]
  simp only [List.modify_zero_cons, List.map_append, List.map_cons, List.map_nil, List.sum_append,
    List.sum_cons, List.sum_nil]
  omega

theorem tierOutput_value (payee : Option CScript) {payment : Int} (some' : 0 ≤ payment) :
    0 ≤ (tierOutput payee payment).nValue ∧ (tierOutput payee payment).nValue ≤ payment := by
  cases payee with
  | none => exact ⟨Int.le_refl 0, some'⟩
  | some script => exact ⟨some', Int.le_refl payment⟩

theorem getBlockValue_nonneg (nHeight : Int) : 0 ≤ getBlockValue nHeight := by
  unfold getBlockValue MAX_REWARD SLOW_START_BLOCK COIN
  split_ifs <;> omega

theorem tierShare_nonneg (nHeight : Int) : 0 ≤ tierShare nHeight := by
  have value := getBlockValue_nonneg nHeight
  unfold tierShare
  rw [getMasternodePayment_tier]
  split_ifs <;> omega

theorem share_nonneg : 0 ≤ production.share := tierShare_nonneg production.nHeight

theorem nMinted_le : production.nMinted payments ≤
    if production.fProofOfStake then getBlockValue (production.nHeight + 1)
    else getBlockValue production.nHeight := by
  have share := share_nonneg production
  unfold Production.nMinted
  rcases paid_cases production payments with outputs | ⟨_, _, work, outputs⟩
  · rw [outputs, List.map_append, List.sum_append]
    generalize payeeOf payments production.currentMasternode production.nHeight MASTERNODE = mn
    generalize payeeOf payments production.currentMasternode production.nHeight SUPERNODE = sn
    have first := tierOutput_value mn share
    have second := tierOutput_value sn share
    simp only [List.map_cons, List.map_nil, List.sum_cons, List.sum_nil]
    unfold Production.kept
    cases stake : production.fProofOfStake with
    | true =>
      have limit := production.coinstake stake
      rw [if_pos rfl, if_pos rfl, sum_modify _ _ production.filled]
      omega
    | false =>
      obtain ⟨single, nothing⟩ := production.coinbase stake
      obtain ⟨out, shape⟩ := List.length_eq_one_iff.mp single
      rw [if_neg (by decide), if_neg (by decide), shape, nothing]
      simp only [valueAt, List.modify_zero_cons, List.map_cons, List.map_nil, List.sum_cons,
        List.sum_nil]
      omega
  · obtain ⟨single, nothing⟩ := production.coinbase work
    obtain ⟨out, shape⟩ := List.length_eq_one_iff.mp single
    rw [outputs, work, if_neg (by decide), shape, nothing]
    simp only [valueAt, List.modify_zero_cons, List.map_cons, List.map_nil, List.sum_cons,
      List.sum_nil]
    omega

end Filling

theorem getBlockValue_falls {nHeight : Int} (above : 0 ≤ nHeight)
    (boundary : nHeight ≠ SLOW_START_BLOCK) :
    getBlockValue (nHeight + 1) ≤ getBlockValue nHeight := by
  unfold getBlockValue MAX_REWARD COIN
  unfold SLOW_START_BLOCK at boundary ⊢
  have stages : nHeight = 0 ∨ 0 < nHeight ∧ nHeight < 10000 ∨
      10000 < nHeight ∧ nHeight ≤ 262800 ∨ 262800 < nHeight ∧ nHeight ≤ 525600 ∨
      525600 < nHeight ∧ nHeight ≤ 788400 ∨ 788400 < nHeight := by omega
  rcases stages with genesis | slow | first | second | third | last
  · simp (disch := omega) only [if_pos, if_neg]
    omega
  · simp (disch := omega) only [if_pos, if_neg]
    omega
  · simp (disch := omega) only [if_pos, if_neg]
    split <;> omega
  · simp (disch := omega) only [if_pos, if_neg]
    split <;> omega
  · simp (disch := omega) only [if_pos, if_neg]
    split <;> omega
  · simp (disch := omega) only [if_pos, if_neg]
    omega

structure OnTip (node : Node) (call : ConnectCall) (nHeight : Int) : Prop where
  tip : ∃ pindexPrev, node.tip = some pindexPrev ∧
    pindexPrev.hash = call.block.hashPrevBlock ∧ pindexPrev.nHeight = nHeight

theorem value_valid {node : Node} {call : ConnectCall} (production : Production)
    (payments : CMasternodePayments) (onTip : OnTip node call production.nHeight) :
    isBlockValueValid node call production.nExpectedValue (production.nMinted payments) = true := by
  obtain ⟨pindexPrev, tip, parent, height⟩ := onTip.tip
  have minted := nMinted_le production payments
  have above := production.aboveGenesis
  have fees := production.fees
  unfold isBlockValueValid heightOfChild
  rw [tip]
  dsimp only
  rw [if_pos parent, height]
  by_cases slow : production.nHeight + 1 = SLOW_START_BLOCK + 1
  · have limit : production.nMinted payments ≤ MAX_REWARD * COIN := by
      have here : production.nHeight = SLOW_START_BLOCK := by omega
      rw [here] at minted
      refine Int.le_trans minted ?_
      split_ifs
      · decide
      · decide
    rw [if_pos slow]
    simpa using limit
  · have falls := getBlockValue_falls above (fun same => slow (by omega))
    have limit : production.nMinted payments ≤ production.nExpectedValue := by
      unfold Production.nExpectedValue
      split_ifs at minted ⊢ <;> omega
    split_ifs
    · simp [limit]
    · simp [limit]

section Votes

def KnownTier (mnTier : UInt32) : Prop := mnTier = MASTERNODE ∨ mnTier = SUPERNODE

/-- A vote that is added is for a tier: every caller of `AddWinningMasternode` has one. -/
def TieredVote : VoteCall → CMasternodePayments → Prop
  | .addWinningMasternode _ _ winnerIn, _ => KnownTier winnerIn.payeeTier
  | .cleanPaymentList _ _, _ => True

/-- A block's payees are kept under its height and are all of a tier. -/
def WellVoted (payments : CMasternodePayments) : Prop :=
  ∀ height block, payments.mapMasternodeBlocks.find? height = some block →
    block.nBlockHeight = height ∧ ∀ payee ∈ block.vecPayments, KnownTier payee.mnTier

theorem wellVoted_count {payments : CMasternodePayments} {hash : Uint256}
    {winner : CMasternodePaymentWinner} (wellVoted : WellVoted payments)
    (tiered : KnownTier winner.payeeTier) : WellVoted (payments.countVote hash winner) := by
  intro height block found
  unfold CMasternodePayments.countVote at found
  by_cases here : height = winner.nBlockHeight
  · subst here
    rw [OrderedMap.find?_edit_same, Option.some_inj] at found
    rw [← found]
    have standing : ∀ old, payments.mapMasternodeBlocks.find? winner.nBlockHeight = old →
        (old.getD ⟨winner.nBlockHeight, []⟩).nBlockHeight = winner.nBlockHeight ∧
          ∀ payee ∈ (old.getD ⟨winner.nBlockHeight, []⟩).vecPayments, KnownTier payee.mnTier := by
      intro old before
      cases old with
      | none =>
        constructor
        · rfl
        · nofun
      | some block => exact wellVoted winner.nBlockHeight block before
    obtain ⟨at', tiers⟩ := standing _ rfl
    constructor
    · exact at'
    · intro payee member
      rcases addToPayments_member member with ⟨tier, _⟩ | ⟨old, listed, tier, _⟩
      · rw [tier]
        exact tiered
      · rw [← tier]
        exact tiers old listed
  · rw [OrderedMap.find?_edit_other _ _ here] at found
    exact wellVoted height block found

theorem wellVoted_receive (call : VoteCall) (payments : CMasternodePayments)
    (wellVoted : WellVoted payments) (tiered : TieredVote call payments) :
    WellVoted (receive call payments) := by
  cases call with
  | addWinningMasternode hash blockKnown winnerIn =>
    unfold receive CMasternodePayments.addWinningMasternode
    dsimp only
    split_ifs
    · exact wellVoted
    · exact wellVoted
    · exact wellVoted_count wellVoted tiered
  | cleanPaymentList tipHeight size =>
    unfold receive cleanPaymentList
    cases tipHeight with
    | none => exact wellVoted
    | some nHeight =>
      intro height block found
      rw [dropVotes_blocks] at found
      split_ifs at found
      exact wellVoted height block found

theorem wellVoted_empty : WellVoted ⟨∅, ∅, ∅⟩ := by
  intro height block found
  simp [EmptyCollection.emptyCollection, OrderedMap.empty, OrderedMap.find?,
    OrderedMap.findEntry] at found

end Votes

section Agreeing

variable (production : Production) (payments : CMasternodePayments)

def payeesOf : List CMasternodePayee :=
  vecPaymentsAt payments (Int32.ofInt (production.nHeight + 1))

/-- Whatever the payments, the outputs of the block's maker give each tier with an
    elected payee what one of them is owed. -/
def PaidByMaker : Prop :=
  ∀ payee ∈ payeesOf production payments, Elected payee →
    ∃ other ∈ payeesOf production payments, Elected other ∧ other.mnTier = payee.mnTier ∧
      ∃ out ∈ production.kept, other.scriptPubKey = out.scriptPubKey ∧
        getMasternodePayment (production.nHeight + 1) (getBlockValue (production.nHeight + 1))
          other.mnTier ≤ out.nValue

def Agreeable : Prop :=
  production.nHeight ≠ 0 ∧ production.nHeight ≠ SLOW_START_BLOCK ∨
    PaidByMaker production payments

def Accepted (node : Node) (call : ConnectCall) : Prop :=
  isTransactionValid payments (production.paid payments)
      (Int32.ofInt (production.nHeight + 1)) = true ∧
    isBlockValueValid node call production.nExpectedValue (production.nMinted payments) = true

variable {production payments}

theorem blockHeight_toInt : (Int32.ofInt (production.nHeight + 1)).toInt = production.nHeight + 1 := by
  have above := production.aboveGenesis
  have range := production.inRange
  exact Int32.toInt_ofInt_of_le (by omega) (by omega)

theorem transactionValid_iff (wellVoted : WellVoted payments) (vout : List CTxOut) :
    isTransactionValid payments vout (Int32.ofInt (production.nHeight + 1)) = true ↔
      ∀ payee ∈ payeesOf production payments, Elected payee →
        ∃ other ∈ payeesOf production payments, Elected other ∧ other.mnTier = payee.mnTier ∧
          ∃ out ∈ vout, paidBy (production.nHeight + 1) other out = true := by
  unfold isTransactionValid payeesOf vecPaymentsAt
  cases found : payments.mapMasternodeBlocks.find? (Int32.ofInt (production.nHeight + 1)) with
  | none => simp
  | some block =>
    have height := (wellVoted _ block found).1
    dsimp only
    rw [blockTransactionValid_iff, height, blockHeight_toInt]
    simp

variable {payee : CMasternodePayee}

theorem payeeOf_elected (member : payee ∈ payeesOf production payments) (elected : Elected payee) :
    ∃ best ∈ payeesOf production payments, Elected best ∧
      best.mnTier = payee.mnTier ∧ payeeOf payments production.currentMasternode
        production.nHeight payee.mnTier = some best.scriptPubKey := by
  unfold payeesOf vecPaymentsAt at member ⊢
  unfold payeeOf getBlockPayee
  cases found : payments.mapMasternodeBlocks.find? (Int32.ofInt (production.nHeight + 1)) with
  | none =>
    rw [found] at member
    cases member
  | some block =>
    rw [found] at member
    obtain ⟨best, listed, enough, tier, named⟩ := getPayee_elected member elected
    dsimp only
    rw [named]
    exact ⟨best, listed, enough, tier, rfl⟩

theorem payees_tiered (wellVoted : WellVoted payments)
    (member : payee ∈ payeesOf production payments) : KnownTier payee.mnTier := by
  unfold payeesOf vecPaymentsAt at member
  cases found : payments.mapMasternodeBlocks.find? (Int32.ofInt (production.nHeight + 1)) with
  | none =>
    rw [found] at member
    cases member
  | some block =>
    rw [found] at member
    exact (wellVoted _ block found).2 payee member

theorem paid_elected (wellVoted : WellVoted payments)
    (member : payee ∈ payeesOf production payments) (elected : Elected payee) :
    production.paid payments = production.kept ++
      [tierOutput (payeeOf payments production.currentMasternode production.nHeight MASTERNODE)
        production.share,
      tierOutput (payeeOf payments production.currentMasternode production.nHeight SUPERNODE)
        production.share] := by
  obtain ⟨best, _, _, _, named⟩ := payeeOf_elected member elected
  rcases paid_cases production payments with outputs | ⟨noMasternode, noSupernode, _, _⟩
  · exact outputs
  · rcases payees_tiered wellVoted member with tier | tier
    · rw [tier, noMasternode] at named
      cases named
    · rw [tier, noSupernode] at named
      cases named

theorem share_enough (above : production.nHeight ≠ 0)
    (boundary : production.nHeight ≠ SLOW_START_BLOCK) (mnTier : UInt32) :
    getMasternodePayment (production.nHeight + 1) (getBlockValue (production.nHeight + 1)) mnTier ≤
      production.share := by
  have height := production.aboveGenesis
  have falls := getBlockValue_falls height boundary
  unfold Production.share
  rw [getMasternodePayment_tier, getMasternodePayment_tier, if_neg above, if_neg (by omega)]
  omega

theorem share_short (boundary : production.nHeight = 0 ∨ production.nHeight = SLOW_START_BLOCK)
    (mnTier : UInt32) : production.share <
      getMasternodePayment (production.nHeight + 1) (getBlockValue (production.nHeight + 1))
        mnTier := by
  unfold Production.share
  rw [getMasternodePayment_tier, getMasternodePayment_tier]
  rcases boundary with genesis | slow
  · rw [genesis]
    decide
  · rw [slow]
    decide

theorem transaction_valid (wellVoted : WellVoted payments)
    (agreeable : Agreeable production payments) :
    isTransactionValid payments (production.paid payments)
      (Int32.ofInt (production.nHeight + 1)) = true := by
  rw [transactionValid_iff wellVoted]
  intro payee member elected
  rw [paid_elected wellVoted member elected]
  rcases agreeable with ⟨above, boundary⟩ | paid
  · obtain ⟨best, listed, enough, tier, named⟩ := payeeOf_elected member elected
    have owed := share_enough above boundary best.mnTier
    have pays : paidBy (production.nHeight + 1) best
        (tierOutput (some best.scriptPubKey) production.share) = true := by
      simp [paidBy, tierOutput, owed]
    refine ⟨best, listed, enough, tier, tierOutput (some best.scriptPubKey) production.share, ?_,
      pays⟩
    rw [← named]
    rcases payees_tiered wellVoted member with masternode | supernode
    · rw [masternode]
      simp
    · rw [supernode]
      simp
  · obtain ⟨other, listed, enough, tier, out, kept, script, owed⟩ := paid payee member elected
    exact ⟨other, listed, enough, tier, out, List.mem_append_left _ kept,
      by simp [paidBy, script, owed]⟩

theorem maker_pays (wellVoted : WellVoted payments)
    (boundary : production.nHeight = 0 ∨ production.nHeight = SLOW_START_BLOCK)
    (valid : isTransactionValid payments (production.paid payments)
      (Int32.ofInt (production.nHeight + 1)) = true) : PaidByMaker production payments := by
  rw [transactionValid_iff wellVoted] at valid
  intro payee member elected
  obtain ⟨other, listed, enough, tier, out, output, pays⟩ := valid payee member elected
  rw [paid_elected wellVoted member elected] at output
  have short := share_short boundary other.mnTier
  unfold paidBy at pays
  simp only [Bool.and_eq_true, beq_iff_eq, decide_eq_true_eq] at pays
  have small : ∀ script, out ≠ tierOutput script production.share := by
    rintro script same
    have value := (tierOutput_value script (share_nonneg production)).2
    rw [← same] at value
    omega
  rcases List.mem_append.mp output with kept | payment
  · exact ⟨other, listed, enough, tier, out, kept, pays.1, pays.2⟩
  · rcases List.mem_cons.mp payment with first | second
    · exact absurd first (small _)
    · exact absurd (List.mem_singleton.mp second) (small _)

end Agreeing

/-- A block with its payees filled in from the votes is accepted exactly when its tip is
    not at a boundary of the schedule, or its maker happens to pay the elected payees. -/
theorem produced_accepted_iff (calls : List VoteCall)
    (tiered : AlongAll receive TieredVote calls ⟨∅, ∅, ∅⟩) (production : Production) (node : Node)
    (call : ConnectCall) (onTip : OnTip node call production.nHeight) :
    Accepted production (runAll receive calls ⟨∅, ∅, ∅⟩) node call ↔
      Agreeable production (runAll receive calls ⟨∅, ∅, ∅⟩) := by
  have wellVoted := runAll_invariant wellVoted_receive calls wellVoted_empty tiered
  constructor
  · rintro ⟨valid, _⟩
    by_cases boundary : production.nHeight = 0 ∨ production.nHeight = SLOW_START_BLOCK
    · exact Or.inr (maker_pays wellVoted boundary valid)
    · rw [not_or] at boundary
      exact Or.inl boundary
  · intro agreeable
    exact ⟨transaction_valid wellVoted agreeable, value_valid production _ onTip⟩

section Samples

open OxidChainRun OxidIssuance

def electingCalls (nBlockHeight : Int32) : List VoteCall :=
  [1, 2, 3, 4, 5, 6].map fun voter => .addWinningMasternode voter true
    ⟨⟨⟨voter, 0⟩, [], 0xffffffff⟩, nBlockHeight, [0x51], [], MASTERNODE⟩

theorem electing_tiered (nBlockHeight : Int32) :
    AlongAll receive TieredVote (electingCalls nBlockHeight) ⟨∅, ∅, ∅⟩ :=
  ⟨Or.inl rfl, Or.inl rfl, Or.inl rfl, Or.inl rfl, Or.inl rfl, Or.inl rfl, trivial⟩

def stakedOver (nHeight : Int) (above : 0 ≤ nHeight) (inRange : nHeight + 1 < 2 ^ 31) :
    Production where
  nHeight := nHeight
  fProofOfStake := true
  vout := [⟨0, [], -10⟩, ⟨100 * COIN + getBlockValue (nHeight + 1), [0x52], -10⟩]
  nValueIn := 100 * COIN
  nFees := 0
  currentMasternode _ := none
  aboveGenesis := above
  inRange := inRange
  fees := by decide
  filled := by simp
  coinbase := by nofun
  coinstake := by
    intro _
    simp

def tipEntry (nHeight : Int) : CBlockIndex :=
  { headerEntry labelMachinery [] with nHeight := nHeight }

theorem sample_onTip (nHeight : Int) : OnTip (syncingNode [tipEntry nHeight])
    (firstCall (coinbaseBlock 0)) nHeight :=
  ⟨tipEntry nHeight, rfl, rfl, rfl⟩

theorem staked_accepted :
    Accepted (stakedOver 20000 (by decide) (by decide))
      (runAll receive (electingCalls 20001) ⟨∅, ∅, ∅⟩)
      (syncingNode [tipEntry 20000]) (firstCall (coinbaseBlock 0)) :=
  (produced_accepted_iff (electingCalls 20001) (electing_tiered 20001)
    (stakedOver 20000 (by decide) (by decide)) _ _ (sample_onTip 20000)).mpr
      (Or.inl ⟨by decide, by decide⟩)

theorem slow_start_rejected :
    ¬ ∀ (calls : List VoteCall) (production : Production) (node : Node) (call : ConnectCall),
      AlongAll receive TieredVote calls ⟨∅, ∅, ∅⟩ → OnTip node call production.nHeight →
        Accepted production (runAll receive calls ⟨∅, ∅, ∅⟩) node call := by
  intro agree
  have accepted := agree (electingCalls 10001) (stakedOver 10000 (by decide) (by decide))
    (syncingNode [tipEntry 10000]) (firstCall (coinbaseBlock 0)) (electing_tiered 10001)
    (sample_onTip 10000)
  have valid := accepted.1
  revert valid
  decide

end Samples

end OxidPayeeAgreement
