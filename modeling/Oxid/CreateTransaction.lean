import Oxid.CoinSelection
import Oxid.CoinStake
import Oxid.Library.Rounds
import Oxid.Miner

/-!
How a wallet makes a transaction that pays. The answers of a round come with it, and the
arithmetic on doubles is a parameter.
-/
namespace OxidCreateTransaction
open OxidPrimitives OxidScript OxidSignatureHash OxidWallet OxidMiner OxidCoinSelection
open OxidCoinStake OrderedMaps Attempt Rounds Selection

def MAX_STANDARD_TX_SIZE : Nat := 100000
def MAX_FREE_TRANSACTION_CREATE_SIZE : Nat := 1000

def getFee (nSatoshisPerK : Int) (nSize : Nat) : Int :=
  let nFee := nSatoshisPerK * nSize % 2 ^ 64 / 1000
  if nFee = 0 ∧ 0 < nSatoshisPerK then nSatoshisPerK else nFee

def isDust (minRelayTxFee : Int) (out : CTxOut) : Bool :=
  let nSize := (serializeTxOut out).length + 148
  decide (out.nValue < 3 * getFee minRelayTxFee nSize)

def getScriptForDestination : CTxDestination → CScript
  | .noDestination => []
  | .keyID hash => [OP_DUP, OP_HASH160] ++ pushOf hash ++ [OP_EQUALVERIFY, OP_CHECKSIG]
  | .scriptID hash => [OP_HASH160] ++ pushOf hash ++ [OP_EQUAL]

/-- What a round finds: random bits, the key it reserves and the pool's estimates. -/
structure RoundDraws (Double : Type) where
  selection : Nat → MinConfDraws
  reservedKey : Option (List UInt8)
  position : Nat
  estimatePriority : Double
  estimateFee : Int

/-- The arguments of a call, the settings and globals it reads, and its rounds. A set of
    coins is walked in the order of the pointers. -/
structure SpendCall (Double : Type) where
  wallet : SpendingWallet
  vecSend : List (CScript × Int)
  wtxNew : CWalletTx
  nFeeRet : Int
  coinControl : Option CCoinControl
  coinType : AvailableCoinsType
  useIX : Bool
  nFeePayArg : Int
  setOrder : Reorder COutput
  /-- The `scriptSig` that `SignSignature` sets, if it returns true. -/
  signSignature : CTransaction → CTransaction → Nat → Option CScript
  draws : Nat → RoundDraws Double
  doubles : Doubles Double
  fSendFreeTransactions : Bool
  fPayAtLeastCustomFee : Bool
  payTxFee : Int
  minTxFee : Int
  maxTxFee : Int
  minRelayTxFee : Int

inductive SpendFailure where
  | refused (strFailReason : String)
  | aborted
deriving DecidableEq

structure SpendState where
  nFeeRet : Int
  wtxNew : CWalletTx
  nRound : Nat

def setValue (key value : String) (mapValue : List (String × String)) : List (String × String) :=
  (key, value) :: mapValue.filter fun entry => entry.1 != key

def sumSend : List (CScript × Int) → Int → Option Int
  | [], nValue => if nValue < 0 then none else some nValue
  | s :: rest, nValue => if nValue < 0 then none else sumSend rest (nValue + s.2)

def splitOutputs (nSplitBlock : Int32) (s : CScript × Int) : List CTxOut :=
  (List.range nSplitBlock.toInt.toNat).map fun (i : Nat) =>
    if (i : Int) = nSplitBlock.toInt - 1 then
      ⟨s.2.tdiv nSplitBlock.toInt + s.2.tmod nSplitBlock.toInt, s.1, -10⟩
    else ⟨s.2.tdiv nSplitBlock.toInt, s.1, -10⟩

namespace SpendCall

variable {Double : Type} (call : SpendCall Double)

def nFeePay : Int := if call.useIX ∧ call.nFeePayArg < CENT then CENT else call.nFeePayArg

def checksDust : Bool := call.coinControl.any fun control => !control.fSplitBlock

def nSplitBlock : Int32 := call.coinControl.elim 1 CCoinControl.nSplitBlock

def payments : List CTxOut :=
  if call.checksDust then call.vecSend.map fun s => ⟨s.2, s.1, -10⟩
  else call.vecSend.flatMap (splitOutputs call.nSplitBlock)

def payPayees : Except SpendFailure (List CTxOut) :=
  if call.checksDust && call.payments.any (isDust call.minRelayTxFee) then
    .error (.refused "Transaction amount too small")
  else .ok call.payments

def fundsReason : String :=
  let reason :=
    match call.coinType with
    | .ALL_COINS => "Insufficient funds."
    | .ONLY_NOT10000IFMN =>
      "Unable to locate enough funds for this transaction that are not equal 5000 OXID."
    | .ONLY_NONDENOMINATED_NOT10000IFMN =>
      "Unable to locate enough Obfuscation non-denominated funds for this transaction " ++
        "that are not equal 5000 OXID."
    | _ =>
      "Unable to locate enough Obfuscation denominated funds for this transaction. " ++
        "Obfuscation uses exact denominated amounts to send funds, you might simply need " ++
        "to anonymize some more coins."
  if call.useIX then
    reason ++ " InstantTX requires inputs with at least 6 confirmations, you might need to " ++
      "wait a few minutes and try again."
  else reason

def chooseCoins (draws : RoundDraws Double) (nTotalValue : Int) :
    Except SpendFailure (List COutput × Int) :=
  match call.wallet.selectCoins draws.selection nTotalValue call.coinControl call.coinType
    call.useIX with
  | none => .error (.refused call.fundsReason)
  | some ret => .ok ret

def changeScript (draws : RoundDraws Double) : Option CScript :=
  match call.coinControl.elim .noDestination CCoinControl.destChange with
  | .noDestination =>
    draws.reservedKey.map fun hash => getScriptForDestination (.keyID hash)
  | destination => some (getScriptForDestination destination)

/-- The fee and the output that the change goes to. Without a key it asserts. -/
def makeChange (draws : RoundDraws Double) (nFeeRet nChange : Int) :
    Except SpendFailure (Int × Option CTxOut) :=
  if call.coinType = .ONLY_DENOMINATED then .ok (nFeeRet + nChange, none)
  else if 0 < nChange then
    match call.changeScript draws with
    | none => .error .aborted
    | some scriptChange =>
      let newTxOut : CTxOut := ⟨nChange, scriptChange, -10⟩
      if isDust call.minRelayTxFee newTxOut then .ok (nFeeRet + nChange, none)
      else .ok (nFeeRet, some newTxOut)
  else .ok (nFeeRet, none)

def putChange (position : Nat) (vout : List CTxOut) : Option CTxOut → List CTxOut
  | none => vout
  | some newTxOut => vout.insertIdx (position % (vout.length + 1)) newTxOut

def fill (setCoins : List COutput) (vout : List CTxOut) : CTransaction :=
  ⟨1, setCoins.map call.wallet.createTxIn, vout, 0⟩

def signInputs : List COutput → Nat → CTransaction → Except SpendFailure CTransaction
  | [], _, txNew => .ok txNew
  | coin :: rest, nIn, txNew =>
    match call.signSignature coin.tx.tx txNew nIn with
    | none => .error (.refused "Signing transaction failed")
    | some scriptSig =>
      signInputs rest (nIn + 1)
        { txNew with vin := txNew.vin.modify nIn fun txin => { txin with scriptSig } }

def overpay (nFeeRet : Int) (state : SpendState) : SpendState :=
  let mapValue := state.wtxNew.mapValue
  { state with
    nFeeRet
    wtxNew := { state.wtxNew with
      mapValue :=
        if call.coinType = .ONLY_DENOMINATED then setValue "DS" "1" mapValue else mapValue } }

def dPriority (setCoins : List COutput) : Double :=
  setCoins.foldl (fun dPriority pcoin =>
    let age := call.wallet.getDepthInMainChain pcoin.tx true
    let age := if age ≠ 0 then age + 1 else age
    call.doubles.add dPriority (call.doubles.product pcoin.value age)) call.doubles.zero

def computePriority (tx : CTransaction) (dPriority : Double) (nBytes : Nat) : Double :=
  let nTxSize := calculateModifiedSize tx nBytes
  if nTxSize = 0 then call.doubles.zero else call.doubles.quotient dPriority nTxSize

def nBytes (tx : CTransaction) : Nat := (serializeTransaction tx).length

def free (draws : RoundDraws Double) (setCoins : List COutput) (tx : CTransaction) : Bool :=
  let doubles := call.doubles
  let dPriority := call.computePriority tx (call.dPriority setCoins) (nBytes tx)
  let dPriorityNeeded := draws.estimatePriority
  let estimated := doubles.less doubles.zero dPriorityNeeded
  call.fSendFreeTransactions && decide (nBytes tx ≤ MAX_FREE_TRANSACTION_CREATE_SIZE) &&
    ((!estimated && doubles.less doubles.allowFreeThreshold dPriority) ||
      (estimated && !doubles.less dPriority dPriorityNeeded))

def getMinimumFee (draws : RoundDraws Double) (nTxBytes : Nat) : Int :=
  let nFeeNeeded := getFee call.payTxFee nTxBytes
  let nFeeNeeded :=
    if call.fPayAtLeastCustomFee ∧ 0 < nFeeNeeded ∧ nFeeNeeded < call.payTxFee then call.payTxFee
    else nFeeNeeded
  let nFeeNeeded := if nFeeNeeded = 0 then getFee draws.estimateFee nTxBytes else nFeeNeeded
  let nFeeNeeded := if nFeeNeeded = 0 then getFee call.minTxFee nTxBytes else nFeeNeeded
  let nFeeNeeded := max nFeeNeeded (getFee call.minRelayTxFee nTxBytes)
  min nFeeNeeded call.maxTxFee

def feeNeeded (draws : RoundDraws Double) (tx : CTransaction) : Int :=
  max call.nFeePay (call.getMinimumFee draws (nBytes tx))

/-- A round of the loop. It returns the coins it spent, or asks for another round. -/
def createRound (nValue : Int) : EStateM SpendFailure SpendState (Option (List COutput)) := do
  update fun state => { state with wtxNew := { state.wtxNew with fFromMe := 1 } }
  let state ← reading id
  let draws := call.draws state.nRound
  let vout ← check call.payPayees
  let ret ← check (call.chooseCoins draws (nValue + state.nFeeRet))
  let changed ← check (call.makeChange draws state.nFeeRet (ret.2 - nValue - state.nFeeRet))
  update (call.overpay changed.1)
  let setCoins := call.setOrder.order ret.1
  let txNew := call.fill setCoins (putChange draws.position vout changed.2)
  let tx ← check (call.signInputs setCoins 0 txNew)
  update fun state => { state with wtxNew := { state.wtxNew with tx } }
  check (require (decide (nBytes tx < MAX_STANDARD_TX_SIZE)) (.refused "Transaction too large"))
  if call.free draws setCoins tx then pure (some setCoins)
  else
    check (require (decide (getFee call.minRelayTxFee (nBytes tx) ≤ call.feeNeeded draws tx))
      (.refused "Transaction too large for fee policy"))
    if call.feeNeeded draws tx ≤ changed.1 then pure (some setCoins)
    else
      update fun state =>
        { state with nFeeRet := call.feeNeeded draws tx, nRound := state.nRound + 1 }
      pure none

/-- The call, `none` where its loop takes more rounds than the bound. -/
def createTransaction (bound : Nat) :
    Option (EStateM.Result SpendFailure SpendState (List COutput)) :=
  match sumSend call.vecSend 0 with
  | none =>
    some (.error (.refused "Transaction amounts must be positive") ⟨call.nFeeRet, call.wtxNew, 0⟩)
  | some nValue =>
    if call.vecSend.isEmpty then
      some (.error (.refused "Transaction amounts must be positive")
        ⟨call.nFeeRet, call.wtxNew, 0⟩)
    else
      rounds (call.createRound nValue) bound
        ⟨if 0 < call.nFeePay then call.nFeePay else 0,
          { call.wtxNew with fTimeReceivedIsTxTime := 1 }, 0⟩

end SpendCall

def paidTo (script : CScript) (vout : List CTxOut) : Int :=
  ((vout.filter fun out => out.scriptPubKey == script).map CTxOut.nValue).sum

def owedTo (script : CScript) (vecSend : List (CScript × Int)) : Int :=
  ((vecSend.filter fun s => s.1 == script).map Prod.snd).sum

def valueOf (wallet : SpendingWallet) (prevout : COutPoint) : Int :=
  (wallet.mapWallet.find? prevout.hash).elim 0 fun wtx =>
    (wtx.tx.vout.getD prevout.n.toNat CTxOut.null).nValue

/-- A transaction that spends coins of the wallet, each once, on the payees, the change and
    the fee. Beside the change, each script is paid what its payees are to be paid. -/
structure Spends {Double : Type} (call : SpendCall Double) (setCoins : List COutput)
    (final : SpendState) : Prop where
  distinct : (final.wtxNew.tx.vin.map CTxIn.prevout).Nodup
  conserved : (final.wtxNew.tx.vin.map fun txin => valueOf call.wallet txin.prevout).sum =
    (final.wtxNew.tx.vout.map CTxOut.nValue).sum + final.nFeeRet
  payees : ∃ change : Option CTxOut,
    (∀ out ∈ change, call.changeScript (call.draws final.nRound) = some out.scriptPubKey) ∧
    ∀ script, paidTo script final.wtxNew.tx.vout =
      owedTo script call.vecSend + paidTo script change.toList
  fee : call.free (call.draws final.nRound) setCoins final.wtxNew.tx = true ∨
    call.feeNeeded (call.draws final.nRound) final.wtxNew.tx ≤ final.nFeeRet
  dust : ∀ out ∈ final.wtxNew.tx.vout, isDust call.minRelayTxFee out = false

section Payments

theorem paidTo_append (script : CScript) (first second : List CTxOut) :
    paidTo script (first ++ second) = paidTo script first + paidTo script second := by
  simp [paidTo]

theorem paidTo_perm (script : CScript) {first second : List CTxOut} (same : first.Perm second) :
    paidTo script first = paidTo script second :=
  ((same.filter _).map CTxOut.nValue).sum_eq

theorem owedTo_cons (script : CScript) (s : CScript × Int) (rest : List (CScript × Int)) :
    owedTo script (s :: rest) = (if s.1 = script then s.2 else 0) + owedTo script rest := by
  unfold owedTo
  by_cases own : s.1 = script
  · simp [own]
  · simp [own]

structure Pays (s : CScript × Int) (vout : List CTxOut) : Prop where
  script : ∀ out ∈ vout, out.scriptPubKey = s.1
  total : (vout.map CTxOut.nValue).sum = s.2

theorem Pays.paidTo_eq {s : CScript × Int} {vout : List CTxOut} (pays : Pays s vout)
    (script : CScript) : paidTo script vout = if s.1 = script then s.2 else 0 := by
  unfold paidTo
  split
  · rename_i own
    have all : vout.filter (fun out => out.scriptPubKey == script) = vout := by
      rw [List.filter_eq_self]
      intro out member
      rw [pays.script out member, own]
      exact beq_self_eq_true script
    rw [all, pays.total]
  · rename_i other
    have none' : vout.filter (fun out => out.scriptPubKey == script) = [] := by
      rw [List.filter_eq_nil_iff]
      intro out member
      rw [pays.script out member, beq_iff_eq]
      exact other
    rw [none']
    rfl

theorem single_pays (s : CScript × Int) : Pays s [⟨s.2, s.1, -10⟩] := by
  refine ⟨?_, by simp⟩
  intro out member
  rw [List.mem_singleton] at member
  rw [member]

theorem splitOutputs_pays {nSplitBlock : Int32} (parts : 1 ≤ nSplitBlock.toInt)
    (s : CScript × Int) : Pays s (splitOutputs nSplitBlock s) := by
  obtain ⟨count, size⟩ : ∃ count : Nat, nSplitBlock.toInt = count + 1 :=
    ⟨(nSplitBlock.toInt - 1).toNat, by omega⟩
  constructor
  · intro out member
    obtain ⟨i, _, rfl⟩ := List.mem_map.mp member
    split
    · rfl
    · rfl
  · have length : nSplitBlock.toInt.toNat = count + 1 := by omega
    unfold splitOutputs
    rw [length, List.range_succ, List.map_append, List.map_append, List.sum_append]
    have others : ((List.range count).map fun (i : Nat) =>
        if (i : Int) = nSplitBlock.toInt - 1 then
          (⟨s.2.tdiv nSplitBlock.toInt + s.2.tmod nSplitBlock.toInt, s.1, -10⟩ : CTxOut)
        else ⟨s.2.tdiv nSplitBlock.toInt, s.1, -10⟩) =
        List.replicate count ⟨s.2.tdiv nSplitBlock.toInt, s.1, -10⟩ := by
      rw [List.eq_replicate_iff]
      refine ⟨by simp, ?_⟩
      intro out member
      obtain ⟨i, below, rfl⟩ := List.mem_map.mp member
      have := List.mem_range.mp below
      rw [if_neg (by omega)]
    rw [others, List.map_replicate, List.sum_replicate, List.map_singleton, List.map_singleton,
      List.sum_singleton, if_pos (by omega), nsmul_eq_mul]
    have divided := Int.mul_tdiv_add_tmod s.2 nSplitBlock.toInt
    rw [size, Int.add_mul, Int.one_mul] at divided
    rw [size]
    dsimp only
    omega

variable {pay : CScript × Int → List CTxOut}

theorem flatMap_paid (pays : ∀ s, Pays s (pay s)) (vecSend : List (CScript × Int))
    (script : CScript) :
    paidTo script (vecSend.flatMap pay) = owedTo script vecSend := by
  induction vecSend with
  | nil => rfl
  | cons s rest ih =>
    rw [List.flatMap_cons, paidTo_append, owedTo_cons, (pays s).paidTo_eq, ih]

theorem flatMap_total (pays : ∀ s, Pays s (pay s)) (vecSend : List (CScript × Int)) :
    ((vecSend.flatMap pay).map CTxOut.nValue).sum = (vecSend.map Prod.snd).sum := by
  induction vecSend with
  | nil => rfl
  | cons s rest ih =>
    rw [List.flatMap_cons, List.map_append, List.sum_append, (pays s).total, ih, List.map_cons,
      List.sum_cons]

end Payments

theorem sumSend_total {vecSend : List (CScript × Int)} {start nValue : Int}
    (added : sumSend vecSend start = some nValue) :
    nValue = start + (vecSend.map Prod.snd).sum := by
  induction vecSend generalizing start with
  | nil =>
    unfold sumSend at added
    split at added
    · cases added
    · cases added
      simp
  | cons s rest ih =>
    unfold sumSend at added
    split at added
    · cases added
    · rw [ih added, List.map_cons, List.sum_cons]
      omega

section Inputs

variable {wallet : SpendingWallet} {coinControl : Option CCoinControl}
  {fOnlyConfirmed fIncludeZeroValue fUseIX : Bool} {nCoinType : AvailableCoinsType}

theorem createTxIn_prevout {coin : COutput}
    (member : coin ∈ wallet.availableCoins fOnlyConfirmed coinControl fIncludeZeroValue nCoinType
      fUseIX) :
    (wallet.createTxIn coin).prevout = ⟨coin.hash, UInt32.ofNat coin.i⟩ ∧
      (UInt32.ofNat coin.i).toNat = coin.i := by
  obtain ⟨standing, inside, _⟩ := SpendingWallet.availableCoins_mem member
  have sized := wallet.sized _ standing
  constructor
  · unfold SpendingWallet.createTxIn
    rw [wallet.keyed _ standing]
  · apply UInt32.toNat_ofNat_of_lt'
    dsimp only at sized
    unfold UInt32.size
    omega

theorem valueOf_createTxIn {coin : COutput}
    (member : coin ∈ wallet.availableCoins fOnlyConfirmed coinControl fIncludeZeroValue nCoinType
      fUseIX) : valueOf wallet (wallet.createTxIn coin).prevout = coin.value := by
  obtain ⟨prevout, place⟩ := createTxIn_prevout member
  have standing := (SpendingWallet.availableCoins_mem member).1
  rw [OrderedMap.mem_entries_iff] at standing
  unfold valueOf
  rw [prevout, standing, Option.elim_some, place]
  rfl

theorem inputs_distinct {coins : List COutput} (distinct : (coins.map COutput.coin).Nodup)
    (within : ∀ coin ∈ coins, coin ∈ wallet.availableCoins fOnlyConfirmed coinControl
      fIncludeZeroValue nCoinType fUseIX) :
    ((coins.map wallet.createTxIn).map CTxIn.prevout).Nodup := by
  rw [List.map_map]
  apply List.Nodup.of_map fun prevout : COutPoint => (prevout.hash, prevout.n.toNat)
  have same : (coins.map (CTxIn.prevout ∘ wallet.createTxIn)).map
      (fun prevout : COutPoint => (prevout.hash, prevout.n.toNat)) = coins.map COutput.coin := by
    rw [List.map_map]
    apply List.map_congr_left
    intro coin member
    obtain ⟨prevout, place⟩ := createTxIn_prevout (within coin member)
    simp only [Function.comp_apply, prevout, place, COutput.coin]
  rw [same]
  exact distinct

end Inputs

namespace SpendCall

variable {Double : Type} {call : SpendCall Double}

theorem signInputs_keeps {coins : List COutput} {nIn : Nat} {before tx : CTransaction}
    (signed : call.signInputs coins nIn before = .ok tx) :
    tx.vout = before.vout ∧ tx.vin.map CTxIn.prevout = before.vin.map CTxIn.prevout := by
  induction coins generalizing nIn before with
  | nil =>
    cases signed
    exact ⟨rfl, rfl⟩
  | cons coin rest ih =>
    unfold signInputs at signed
    split at signed
    · cases signed
    · obtain ⟨sameOut, sameIn⟩ := ih signed
      exact ⟨sameOut, sameIn.trans (prevouts_modify _ _ _)⟩

theorem putChange_perm (position : Nat) (vout : List CTxOut) (change : Option CTxOut) :
    (putChange position vout change).Perm (change.toList ++ vout) := by
  cases change with
  | none => exact List.Perm.refl _
  | some newTxOut =>
    apply List.perm_insertIdx
    exact Nat.lt_succ_iff.mp (Nat.mod_lt position (Nat.succ_pos vout.length))

/-- The change goes to the fee or to an output that is not dust. -/
structure Returns (call : SpendCall Double) (draws : RoundDraws Double) (nFeeRet nChange : Int)
    (changed : Int × Option CTxOut) : Prop where
  total : changed.1 + (changed.2.toList.map CTxOut.nValue).sum = nFeeRet + nChange
  raised : nFeeRet ≤ changed.1
  script : ∀ out ∈ changed.2, call.changeScript draws = some out.scriptPubKey
  dust : ∀ out ∈ changed.2, isDust call.minRelayTxFee out = false

variable {draws : RoundDraws Double} {ret : List COutput × Int} {nTotalValue : Int}

theorem returns_fee {nFeeRet nChange nFee : Int} (covered : 0 ≤ nChange)
    (paid : nFee = nFeeRet + nChange) :
    Returns call draws nFeeRet nChange (nFee, none) := by
  refine ⟨?_, ?_, ?_, ?_⟩
  · simp [paid]
  · dsimp only
    omega
  · intro out none'
    cases none'
  · intro out none'
    cases none'

theorem makeChange_returns {nFeeRet nChange : Int} {changed : Int × Option CTxOut}
    (covered : 0 ≤ nChange) (made : call.makeChange draws nFeeRet nChange = .ok changed) :
    Returns call draws nFeeRet nChange changed := by
  unfold makeChange at made
  split at made
  · cases made
    exact returns_fee covered rfl
  · split at made
    · cases script : call.changeScript draws with
      | none =>
        rw [script] at made
        cases made
      | some scriptChange =>
        rw [script] at made
        dsimp only at made
        split at made
        · cases made
          exact returns_fee covered rfl
        · rename_i valuable
          cases made
          refine ⟨?_, le_refl nFeeRet, ?_, ?_⟩
          · simp
          · intro out same
            cases same
            exact script
          · intro out same
            cases same
            exact Bool.eq_false_of_not_eq_true valuable
    · cases made
      exact returns_fee covered (by omega)

theorem payments_paid (parts : call.checksDust = false → 1 ≤ call.nSplitBlock.toInt) :
    ∃ pay : CScript × Int → List CTxOut, (∀ s, Pays s (pay s)) ∧
      call.payments = call.vecSend.flatMap pay := by
  unfold payments
  cases branch : call.checksDust with
  | true =>
    refine ⟨fun s => [⟨s.2, s.1, -10⟩], single_pays, ?_⟩
    rw [if_pos rfl, List.map_eq_flatMap]
  | false => exact ⟨splitOutputs call.nSplitBlock, splitOutputs_pays (parts branch), rfl⟩

theorem payPayees_ok {vout : List CTxOut} (paid : call.payPayees = .ok vout) :
    vout = call.payments ∧
      (call.checksDust = true → ∀ out ∈ vout, isDust call.minRelayTxFee out = false) := by
  unfold payPayees at paid
  split at paid
  · cases paid
  · rename_i passed
    cases paid
    refine ⟨rfl, ?_⟩
    intro checks out member
    cases dusty : isDust call.minRelayTxFee out with
    | false => rfl
    | true =>
      have found : call.payments.any (isDust call.minRelayTxFee) = true :=
        List.any_eq_true.mpr ⟨out, member, dusty⟩
      rw [checks, found] at passed
      exact absurd rfl passed

structure Rounded (call : SpendCall Double) (nValue : Int) (state final : SpendState)
    (result : Option (List COutput)) (vout : List CTxOut) (ret : List COutput × Int)
    (changed : Int × Option CTxOut) (tx : CTransaction) : Prop where
  paid : call.payPayees = .ok vout
  chosen : call.chooseCoins (call.draws state.nRound) (nValue + state.nFeeRet) = .ok ret
  made : call.makeChange (call.draws state.nRound) state.nFeeRet
    (ret.2 - nValue - state.nFeeRet) = .ok changed
  signed : call.signInputs (call.setOrder.order ret.1) 0
    (call.fill (call.setOrder.order ret.1)
      (putChange (call.draws state.nRound).position vout changed.2)) = .ok tx
  ended :
    (result = some (call.setOrder.order ret.1) ∧ final.nRound = state.nRound ∧
      final.nFeeRet = changed.1 ∧ final.wtxNew.tx = tx ∧
      (call.free (call.draws state.nRound) (call.setOrder.order ret.1) tx = true ∨
        call.feeNeeded (call.draws state.nRound) tx ≤ changed.1)) ∨
    (result = none ∧ changed.1 < final.nFeeRet)

theorem createRound_rounded {nValue : Int} {state final : SpendState}
    {result : Option (List COutput)}
    (ran : Completes (call.createRound nValue) state result final) :
    ∃ vout ret changed tx, Rounded call nValue state final result vout ret changed tx := by
  unfold createRound at ran
  simp only [completes_bind, completes_update, completes_reading, completes_check] at ran
  obtain ⟨_, _, first, _, _, ⟨rfl, rfl⟩, vout, _, ⟨paid, rfl⟩, ret, _, ⟨chosen, rfl⟩, changed, _,
    ⟨made, rfl⟩, _, _, second, tx, _, ⟨signed, rfl⟩, _, _, third, _, _, ⟨_, rfl⟩, last⟩ := ran
  subst first second third
  refine ⟨vout, ret, changed, tx, paid, chosen, made, signed, ?_⟩
  split at last
  · rename_i free
    obtain ⟨rfl, rfl⟩ := last
    exact .inl ⟨rfl, rfl, rfl, rfl, .inl free⟩
  · simp only [completes_bind, completes_check] at last
    obtain ⟨_, _, ⟨_, rfl⟩, last⟩ := last
    split at last
    · rename_i enough
      obtain ⟨rfl, rfl⟩ := last
      exact .inl ⟨rfl, rfl, rfl, rfl, .inr enough⟩
    · rename_i less
      obtain ⟨_, _, rfl, rfl, rfl⟩ := last
      exact .inr ⟨rfl, not_le.mp less⟩

def available (call : SpendCall Double) : List COutput :=
  call.wallet.availableCoins true call.coinControl false call.coinType call.useIX

theorem chooseCoins_covers (chosen : call.chooseCoins draws nTotalValue = .ok ret) :
    Covers call.available nTotalValue ret := by
  unfold chooseCoins at chosen
  split at chosen
  · cases chosen
  · rename_i selected
    cases chosen
    exact SpendingWallet.selectCoins_covers selected

theorem covers_funds (covers : Covers call.available nTotalValue ret) :
    nTotalValue ≤ worth COutput.value call.available := by
  have bounded := covers.chosen.bounded fun coin member =>
    le_of_lt ((SpendingWallet.availableCoins_mem member).2.2 rfl)
  exact covers.covered.trans bounded

section Rounded

variable {nValue : Int} {state final : SpendState} {result : Option (List COutput)}
  {vout : List CTxOut} {ret : List COutput × Int} {changed : Int × Option CTxOut}
  {tx : CTransaction}

section
variable (round : Rounded call nValue state final result vout ret changed tx)
include round

theorem Rounded.covers :
    Covers call.available (nValue + state.nFeeRet) ret := chooseCoins_covers round.chosen

theorem Rounded.returns :
    Returns call (call.draws state.nRound) state.nFeeRet (ret.2 - nValue - state.nFeeRet)
      changed := by
  apply makeChange_returns _ round.made
  have covered := round.covers.covered
  omega

theorem Rounded.outputs : tx.vout.Perm (changed.2.toList ++ call.payments) := by
  rw [(signInputs_keeps round.signed).1, ← (payPayees_ok round.paid).1]
  exact putChange_perm _ vout changed.2

theorem Rounded.inputs :
    tx.vin.map CTxIn.prevout =
      ((call.setOrder.order ret.1).map call.wallet.createTxIn).map CTxIn.prevout :=
  (signInputs_keeps round.signed).2

theorem Rounded.distinct : (tx.vin.map CTxIn.prevout).Nodup := by
  have same := call.setOrder.perm ret.1
  rw [round.inputs]
  apply inputs_distinct ((same.map COutput.coin).nodup_iff.mpr round.covers.chosen.distinct)
  intro coin member
  exact round.covers.chosen.within coin (same.mem_iff.mp member)

theorem Rounded.valueIn :
    (tx.vin.map fun txin => valueOf call.wallet txin.prevout).sum = ret.2 := by
  have same := call.setOrder.perm ret.1
  have through : (tx.vin.map fun txin => valueOf call.wallet txin.prevout) =
      (tx.vin.map CTxIn.prevout).map (valueOf call.wallet) := by
    rw [List.map_map]
    rfl
  rw [through, round.inputs, List.map_map, List.map_map, ← round.covers.chosen.worth_total,
    ← worth_perm same]
  apply congrArg List.sum
  apply List.map_congr_left
  intro coin member
  exact valueOf_createTxIn (round.covers.chosen.within coin (same.mem_iff.mp member))

theorem Rounded.valueOut (parts : call.checksDust = false → 1 ≤ call.nSplitBlock.toInt)
    (owed : nValue = (call.vecSend.map Prod.snd).sum) :
    ret.2 = (tx.vout.map CTxOut.nValue).sum + changed.1 := by
  obtain ⟨pay, pays, same⟩ := payments_paid parts
  have total := round.returns.total
  rw [(round.outputs.map CTxOut.nValue).sum_eq, List.map_append, List.sum_append, same,
    flatMap_total pays, ← owed]
  omega

end

theorem Rounded.spends_iff {setCoins : List COutput}
    (round : Rounded call nValue state final (some setCoins) vout ret changed tx)
    (parts : call.checksDust = false → 1 ≤ call.nSplitBlock.toInt)
    (owed : nValue = (call.vecSend.map Prod.snd).sum) :
    Spends call setCoins final ↔
      call.checksDust = true ∨ ∀ out ∈ call.payments, isDust call.minRelayTxFee out = false := by
  rcases round.ended with ⟨chose, sameRound, fee, sameTx, enough⟩ | ⟨again, _⟩
  · cases chose
    have outputs := round.outputs
    constructor
    · intro spends
      refine .inr fun out member => spends.dust out ?_
      rw [sameTx]
      exact outputs.mem_iff.mpr (List.mem_append_right _ member)
    · intro clean
      obtain ⟨pay, pays, same⟩ := payments_paid parts
      refine ⟨?_, ?_, ⟨changed.2, ?_, ?_⟩, ?_, ?_⟩
      · rw [sameTx]
        exact round.distinct
      · rw [sameTx, fee, round.valueIn]
        exact round.valueOut parts owed
      · rw [sameRound]
        exact round.returns.script
      · intro script
        rw [sameTx, paidTo_perm script outputs, paidTo_append, same, flatMap_paid pays]
        omega
      · rw [sameRound, sameTx, fee]
        exact enough
      · rw [sameTx]
        intro out member
        rcases List.mem_append.mp (outputs.mem_iff.mp member) with returned | paid
        · exact round.returns.dust out (Option.mem_toList.mp returned)
        · rcases clean with checks | clean
          · obtain ⟨payments, checked⟩ := payPayees_ok round.paid
            exact checked checks out (payments ▸ paid)
          · exact clean out paid
  · cases again

theorem Rounded.nearer (round : Rounded call nValue state final none vout ret changed tx) :
    (worth COutput.value call.available + 1 - nValue - final.nFeeRet).toNat <
      (worth COutput.value call.available + 1 - nValue - state.nFeeRet).toNat := by
  have funds := covers_funds round.covers
  have raised := round.returns.raised
  rcases round.ended with ⟨chose, _⟩ | ⟨_, more⟩
  · cases chose
  · omega

end Rounded

theorem createTransaction_ends (call : SpendCall Double) :
    ∃ bound, (call.createTransaction bound).isSome := by
  unfold createTransaction
  cases sumSend call.vecSend 0 with
  | none => exact ⟨0, rfl⟩
  | some nValue =>
    dsimp only
    split
    · exact ⟨0, rfl⟩
    · refine @rounds_ends _ _ _ _ (fun _ => True) _ (measure fun state : SpendState =>
        (worth COutput.value call.available + 1 - nValue - state.nFeeRet).toNat).wf ?_ _ trivial
      intro state next _ ran
      obtain ⟨_, _, _, _, round⟩ := createRound_rounded ran
      exact ⟨trivial, round.nearer⟩

theorem createTransaction_rounded {bound : Nat} {setCoins : List COutput} {final : SpendState}
    (created : call.createTransaction bound = some (.ok setCoins final)) :
    ∃ state vout ret changed tx, Rounded call (call.vecSend.map Prod.snd).sum state final
      (some setCoins) vout ret changed tx := by
  unfold createTransaction at created
  cases added : sumSend call.vecSend 0 with
  | none =>
    rw [added] at created
    cases created
  | some nValue =>
    have owed := sumSend_total added
    rw [Int.zero_add] at owed
    rw [added] at created
    dsimp only at created
    split at created
    · cases created
    · obtain ⟨last, _, ran⟩ :=
        @rounds_returned _ _ _ _ (fun _ => True) (fun _ _ _ _ => trivial) _ _ _ _ trivial created
      rw [owed] at ran
      exact ⟨last, createRound_rounded ran⟩

end SpendCall

def rationals : Doubles Rat where
  zero := 0
  less a b := decide (a < b)
  equal a b := a == b
  add a b := a + b
  safeAddition a b := a + b
  product a b := a * b
  quotient a n := a / n
  allowFreeThreshold := 100000000 * 1440 / 250

def tenWallet : SpendingWallet where
  mapWallet := ⟨[(7, CWalletTx.ofTransaction ⟨1, [], [⟨10 * COIN, [OP_CHECKSIG], -10⟩], 0⟩)],
    List.pairwise_singleton _ _⟩
  txHash _ := 7
  keyed := by simp
  sized := by simp [CWalletTx.ofTransaction]
  checkFinalTx _ := true
  isTrusted _ := true
  getBlocksToMaturity _ := 0
  getDepthInMainChain _ _ := 10
  inMempool _ := false
  isFromMe _ := false
  isMine _ := ISMINE_SPENDABLE
  isSpent _ _ := false
  isLockedCoin _ _ := false
  getInputObfuscationRounds _ := 0
  fMasterNode := false
  nZeromintPercentage := 10
  bSpendZeroConfChange := false

def payOne (nAmount : Int) : SpendCall Rat where
  wallet := tenWallet
  vecSend := [([OP_DUP], nAmount)]
  wtxNew := CWalletTx.init
  nFeeRet := 0
  coinControl := none
  coinType := .ALL_COINS
  useIX := false
  nFeePayArg := 0
  setOrder := Reorder.same
  signSignature _ _ _ := some [OP_DUP]
  draws _ := ⟨fun _ => ⟨Reorder.same, fun _ _ _ => false⟩, some (List.replicate 20 3), 1, 0, 0⟩
  doubles := rationals
  fSendFreeTransactions := false
  fPayAtLeastCustomFee := true
  payTxFee := 0
  minTxFee := 10000
  maxTxFee := COIN
  minRelayTxFee := 10000

def amounts : Option (EStateM.Result SpendFailure SpendState (List COutput)) →
    Option (List Int × Int)
  | some (.ok _ final) => some (final.wtxNew.tx.vout.map CTxOut.nValue, final.nFeeRet)
  | _ => none

theorem amounts_some {ran : Option (EStateM.Result SpendFailure SpendState (List COutput))}
    {values : List Int} {nFeeRet : Int} (paid : amounts ran = some (values, nFeeRet)) :
    ∃ setCoins final, ran = some (.ok setCoins final) ∧
      final.wtxNew.tx.vout.map CTxOut.nValue = values ∧ final.nFeeRet = nFeeRet := by
  match ran with
  | none => cases paid
  | some (.error _ _) => cases paid
  | some (.ok setCoins final) =>
    cases paid
    exact ⟨setCoins, final, rfl, rfl, rfl⟩

end OxidCreateTransaction
