import Oxid.MasternodeBroadcast

/-!
What backs a masternode: the output its `vin` names, the key that output pays and the
deposit its payments are reckoned by. The transaction of a hash is the same whenever it is
looked up, and a lookup may fail to find it.
-/
namespace OxidCollateral
open OxidPrimitives OxidMasternode OxidMasternodeMan OxidMasternodePayments
open OxidMasternodeBroadcast ShiftingErase

abbrev Ledger := Uint256 → Option CTransaction

def isVinAssociatedWithPubkey (scriptForKey : CPubKey → CScript) (getTransaction : Ledger)
    (vin : CTxIn) (pubkey : CPubKey) : Bool :=
  match getTransaction vin.prevout.hash with
  | none => false
  | some txVin => txVin.vout.any fun out =>
    CMasternode.hasValidCollateral out.nValue && out.scriptPubKey == scriptForKey pubkey

def prevoutValue (getTransaction : Ledger) (prevout : COutPoint) : Option Int :=
  (getTransaction prevout.hash).bind fun prevoutTx =>
    prevoutTx.vout[prevout.n.toNat]?.map CTxOut.nValue

structure Rules where
  mnb : MnbRules
  mnw : MnwRules

/-- A received broadcast, with what the lookups of its transaction find. -/
structure Broadcast (rules : Rules) (ledger : Ledger) where
  call : MnbCall
  mnb : CMasternodeBroadcast
  getTransaction : Ledger
  known : ∀ hash tx, getTransaction hash = some tx → ledger hash = some tx
  associates : call.vinAssociated =
    isVinAssociatedWithPubkey rules.mnb.scriptForKey getTransaction
  values : call.check.prevoutValue = prevoutValue getTransaction

/-- A received vote. Its collateral lookup scans a block of the active chain. -/
structure Vote (ledger : Ledger) where
  call : MnwCall
  received : CMasternodePaymentWinner
  known : ∀ hash vout, call.collateralOutputs hash = some vout →
    ∃ tx, ledger hash = some tx ∧ tx.vout = vout

inductive Message (rules : Rules) (ledger : Ledger) where
  | mnb (broadcast : Broadcast rules ledger)
  | mnw (vote : Vote ledger)

section Runs
variable {rules : Rules} {ledger : Ledger}

def receive (state : MnwState) : Message rules ledger → MnwState
  | .mnb broadcast =>
    { state with
      mnodeman := (processMnb broadcast.call rules.mnb broadcast.mnb state.mnodeman).2 }
  | .mnw vote => (processMnw vote.call rules.mnw vote.received state).2

def run (messages : List (Message rules ledger)) (state : MnwState) : MnwState :=
  messages.foldl receive state

end Runs

def BackedBy (rules : Rules) (ledger : Ledger) (mn : CMasternode) : Prop :=
  ∃ tx out, ledger mn.vin.prevout.hash = some tx ∧ tx.vout[mn.vin.prevout.n.toNat]? = some out ∧
    out.scriptPubKey = rules.mnb.scriptForKey mn.pubKeyCollateralAddress ∧
    CMasternode.hasValidCollateral out.nValue = true ∧ mn.deposit = out.nValue

def Backed (rules : Rules) (ledger : Ledger) (man : CMasternodeMan) : Prop :=
  ∀ mn ∈ man.vMasternodes, BackedBy rules ledger mn

/-- No other output stands in for the one `vin` names. -/
def OwnOutput (rules : Rules) (ledger : Ledger) (mnb : CMasternodeBroadcast) : Prop :=
  ∀ tx out other, ledger mnb.vin.prevout.hash = some tx →
    tx.vout[mnb.vin.prevout.n.toNat]? = some out →
    CMasternode.hasValidCollateral out.nValue = true →
    other ∈ tx.vout → CMasternode.hasValidCollateral other.nValue = true →
    other.scriptPubKey = rules.mnb.scriptForKey mnb.pubKeyCollateralAddress →
    out.scriptPubKey = rules.mnb.scriptForKey mnb.pubKeyCollateralAddress

/-- No entry behind the first with this `vin` has another deposit. -/
def EvenBehind (vin : CTxIn) (mns : List CMasternode) : Prop :=
  ∀ mn ∈ mns.dropWhile fun mn => mn.vin != vin,
    ∀ other ∈ mns.dropWhile fun mn => mn.vin != vin, mn.deposit = other.deposit

/-- A broadcast that is no defect's: its own output backs it, and no deposit moves to another
    entry. -/
structure FairBroadcast {rules : Rules} {ledger : Ledger} (broadcast : Broadcast rules ledger)
    (man : CMasternodeMan) : Prop where
  own : OwnOutput rules ledger broadcast.mnb
  even : ∀ pmn, (broadcast.call.checkAndUpdate rules.mnb broadcast.mnb
      (noteSeen rules.mnb broadcast.mnb man)).2.find broadcast.mnb.vin = some pmn →
    pmn.isEnabled = false → EvenBehind pmn.vin (broadcast.call.checkAndUpdate rules.mnb
      broadcast.mnb (noteSeen rules.mnb broadcast.mnb man)).2.vMasternodes

/-- A vote whose payee's collateral transaction has no tier's value before, and other than,
    the masternode's own. -/
def FairVote (rules : Rules) (ledger : Ledger) (received : CMasternodePaymentWinner)
    (man : CMasternodeMan) : Prop :=
  ∀ mn tx out deposit,
    (man.vMasternodes.find? fun mn =>
      rules.mnw.scriptForKey mn.pubKeyCollateralAddress == received.payee) = some mn →
    ledger mn.vin.prevout.hash = some tx → tx.vout[mn.vin.prevout.n.toNat]? = some out →
    (tx.vout.map CTxOut.nValue).find? CMasternode.hasValidCollateral = some deposit →
    deposit = out.nValue

def Fair {rules : Rules} {ledger : Ledger} (state : MnwState) : Message rules ledger → Prop
  | .mnb broadcast => FairBroadcast broadcast state.mnodeman
  | .mnw vote => FairVote rules ledger vote.received state.mnodeman

def FairRun {rules : Rules} {ledger : Ledger} :
    List (Message rules ledger) → MnwState → Prop
  | [], _ => True
  | message :: later, state => Fair state message ∧ FairRun later (receive state message)

section Steps
variable {rules : Rules} {ledger : Ledger} {man : CMasternodeMan}

theorem BackedBy.carried {mn other : CMasternode} (backed : BackedBy rules ledger mn)
    (vin : other.vin = mn.vin) (key : other.pubKeyCollateralAddress = mn.pubKeyCollateralAddress)
    (deposit : other.deposit = mn.deposit) : BackedBy rules ledger other := by
  unfold BackedBy
  rw [vin, key, deposit]
  exact backed

variable {mn : CMasternode} {mnb : CMasternodeBroadcast} {state : MnwState} {mns : List CMasternode}
variable {vin : CTxIn} {position : Nat} {deposit : Int}

variable {change : CMasternode → CMasternode}

theorem amendFirst_all {P : CMasternode → Prop}
    (kept : ∀ mn, mns.find? (fun mn => mn.vin.prevout == vin.prevout) = some mn → P mn →
      P (change mn)) (all : ∀ mn ∈ mns, P mn) : ∀ mn ∈ amendFirst vin change mns, P mn := by
  induction mns with
  | nil => simp [amendFirst]
  | cons first rest ih =>
    have here := all first List.mem_cons_self
    have later := fun mn member => all mn (List.mem_cons_of_mem first member)
    unfold amendFirst
    intro mn member
    split at member
    · rename_i same
      rcases List.mem_cons.mp member with rfl | member
      · exact kept first (List.find?_cons_of_pos (by simpa using same)) here
      · exact later mn member
    · rename_i other
      rcases List.mem_cons.mp member with rfl | member
      · exact here
      · refine ih (fun found read => kept found ?_) later mn member
        rw [List.find?_cons_of_neg (by simpa using other)]
        exact read

theorem amend_backed
    (kept : ∀ pmn, man.find vin = some pmn → BackedBy rules ledger pmn →
      BackedBy rules ledger (change pmn)) (backed : Backed rules ledger man) :
    Backed rules ledger (amend vin change man) :=
  amendFirst_all kept backed

theorem withPing_backed {ping : CMasternodePing} (backed : BackedBy rules ledger mn) :
    BackedBy rules ledger (withPing ping mn) :=
  backed.carried rfl rfl rfl

theorem check_backed {call : CheckCall} (backed : BackedBy rules ledger mn) :
    BackedBy rules ledger (mn.check call) := by
  unfold CMasternode.check
  split
  · exact backed
  · split
    · exact backed
    · exact backed.carried rfl rfl rfl

theorem refreshSeen_entries (hash : Uint256) (ping : CMasternodePing) (man : CMasternodeMan) :
    (refreshSeen hash ping man).vMasternodes = man.vMasternodes := by
  unfold refreshSeen
  split <;> rfl

theorem pingCheckAndUpdate_backed (call : MnbCall) (fRequireEnabled : Bool)
    (ping : CMasternodePing) (backed : Backed rules ledger man) :
    Backed rules ledger (call.pingCheckAndUpdate rules.mnb fRequireEnabled ping man).2 := by
  unfold MnbCall.pingCheckAndUpdate
  split
  · exact backed
  · split
    · exact backed
    · rename_i pmn _
      split
      · have refreshed : Backed rules ledger (refreshSeen (rules.mnb.getHash pmn) ping
            (amend ping.vin (withPing ping) man)) := by
          unfold Backed
          rw [refreshSeen_entries]
          exact amend_backed (fun _ _ => withPing_backed) backed
        have checked := @amend_backed _ _ _ ping.vin (CMasternode.check call.forcedCheck)
          (fun _ _ => check_backed) refreshed
        dsimp only
        split <;> exact checked
      · exact backed

theorem takePing_backed (mnb : CMasternodeBroadcast) (backed : Backed rules ledger man) :
    Backed rules ledger (MnbCall.takePing rules.mnb mnb man) :=
  amend_backed (fun _ _ => withPing_backed) backed

theorem updateEntry_backed (call : MnbCall) {pmn : CMasternode}
    (found : man.find mnb.vin = some pmn)
    (key : pmn.pubKeyCollateralAddress = mnb.pubKeyCollateralAddress)
    (backed : Backed rules ledger man) :
    Backed rules ledger (call.updateEntry rules.mnb mnb pmn man).2 := by
  unfold MnbCall.updateEntry
  split
  · have renewed' : Backed rules ledger (amend mnb.vin (MnbCall.renewed mnb) man) := by
      refine amend_backed (fun mn read here => ?_) backed
      obtain rfl := Option.some.inj (found.symm.trans read)
      exact here.carried rfl key.symm rfl
    have updated : Backed rules ledger (call.updateFromNewBroadcast rules.mnb mnb man).2 := by
      unfold MnbCall.updateFromNewBroadcast
      dsimp only
      split
      · exact takePing_backed mnb renewed'
      · have pinged := pingCheckAndUpdate_backed call false mnb.lastPing renewed'
        split
        · exact takePing_backed mnb pinged
        · exact pinged
    exact amend_backed (fun _ _ => check_backed) updated
  · exact backed

theorem checkAndUpdate_backed (call : MnbCall) (mnb : CMasternodeBroadcast)
    (backed : Backed rules ledger man) :
    Backed rules ledger (call.checkAndUpdate rules.mnb mnb man).2 := by
  unfold MnbCall.checkAndUpdate
  split
  · exact backed
  · split
    · exact backed
    · rename_i pmn found
      split
      · exact backed
      · split
        · exact backed
        · split
          · rename_i matching
            rw [Bool.and_eq_true, decide_eq_true_eq] at matching
            exact updateEntry_backed call found matching.1 backed
          · exact backed

theorem shiftDown_backed {position : CMasternode} {rest : List CMasternode}
    (even : ∀ mn ∈ rest, mn.deposit = position.deposit)
    (backed : ∀ mn ∈ rest, BackedBy rules ledger mn) :
    ∀ mn ∈ shiftDown CMasternode.assign position rest, BackedBy rules ledger mn := by
  induction rest generalizing position with
  | nil => simp [shiftDown]
  | cons next later ih =>
    have here := even next List.mem_cons_self
    intro mn member
    rcases List.mem_cons.mp member with rfl | member
    · exact (backed next List.mem_cons_self).carried rfl rfl here.symm
    · refine ih (fun other inside => ?_) (fun other inside =>
        backed other (List.mem_cons_of_mem next inside)) mn member
      rw [even other (List.mem_cons_of_mem next inside), here]

theorem eraseFirst_backed (even : EvenBehind vin mns)
    (backed : ∀ mn ∈ mns, BackedBy rules ledger mn) :
    ∀ mn ∈ eraseFirst CMasternode.assign (fun mn => mn.vin == vin) mns,
      BackedBy rules ledger mn := by
  induction mns with
  | nil => simp [eraseFirst]
  | cons first rest ih =>
    have later := fun mn member => backed mn (List.mem_cons_of_mem first member)
    unfold EvenBehind at even
    unfold eraseFirst
    intro mn member
    by_cases same : first.vin = vin
    · rw [if_pos (by simpa using same)] at member
      rw [List.dropWhile_cons_of_neg (by simpa using same)] at even
      exact shiftDown_backed (fun other inside =>
        even other (List.mem_cons_of_mem first inside) first List.mem_cons_self) later mn member
    · rw [if_neg (by simpa using same)] at member
      rw [List.dropWhile_cons_of_pos (by simpa using same)] at even
      rcases List.mem_cons.mp member with rfl | member
      · exact backed _ List.mem_cons_self
      · exact ih even later mn member

theorem standing_good {call : MnbCall} (good : call.standing mnb = .good) :
    ∃ deposit, call.check.hasValidCollateral mnb.vin = some deposit := by
  unfold MnbCall.standing CheckCall.checkCollateralInTx at good
  cases valid : call.check.hasValidCollateral mnb.vin with
  | none =>
    rw [valid] at good
    cases good
  | some deposit => exact ⟨deposit, rfl⟩

theorem fromBroadcast_backed (broadcast : Broadcast rules ledger)
    (own : OwnOutput rules ledger broadcast.mnb)
    (associated : broadcast.call.vinAssociated broadcast.mnb.vin
      broadcast.mnb.pubKeyCollateralAddress = true)
    (good : broadcast.call.standing broadcast.mnb = .good) :
    BackedBy rules ledger (broadcast.call.fromBroadcast broadcast.mnb) := by
  obtain ⟨deposit, valid⟩ := standing_good good
  have set' : (broadcast.call.fromBroadcast broadcast.mnb).deposit = deposit := by
    unfold MnbCall.fromBroadcast
    rw [valid]
    rfl
  unfold CheckCall.hasValidCollateral at valid
  rw [broadcast.values] at valid
  obtain ⟨value, tiered⟩ := Option.filter_eq_some_iff.mp valid
  obtain ⟨tx, found, read⟩ := Option.bind_eq_some_iff.mp value
  obtain ⟨out, placed, rfl⟩ := Option.map_eq_some_iff.mp read
  rw [broadcast.associates] at associated
  unfold isVinAssociatedWithPubkey at associated
  rw [found] at associated
  obtain ⟨other, listed, pays⟩ := List.any_eq_true.mp associated
  rw [Bool.and_eq_true, beq_iff_eq] at pays
  have known := broadcast.known _ _ found
  exact ⟨tx, out, known, placed, own tx out other known placed tiered listed pays.1 pays.2, tiered,
    set'⟩

theorem add_backed (new : BackedBy rules ledger mn) (backed : Backed rules ledger man) :
    Backed rules ledger (man.add mn) := by
  unfold CMasternodeMan.add
  split
  · exact backed
  · split
    · exact backed
    · intro other member
      rcases List.mem_append.mp member with standing | added
      · exact backed other standing
      · rw [List.mem_singleton.mp added]
        exact new

theorem addsEntry_backed (broadcast : Broadcast rules ledger)
    (own : OwnOutput rules ledger broadcast.mnb)
    (associated : broadcast.call.vinAssociated broadcast.mnb.vin
      broadcast.mnb.pubKeyCollateralAddress = true) (backed : Backed rules ledger man) :
    Backed rules ledger (broadcast.call.addsEntry rules.mnb broadcast.mnb man).2 := by
  unfold MnbCall.addsEntry
  cases standing : broadcast.call.standing broadcast.mnb with
  | bad => exact backed
  | later => exact backed
  | good => exact add_backed (fromBroadcast_backed broadcast own associated standing) backed

theorem checkInputsAndAdd_backed (broadcast : Broadcast rules ledger)
    (own : OwnOutput rules ledger broadcast.mnb)
    (even : ∀ pmn, man.find broadcast.mnb.vin = some pmn → pmn.isEnabled = false →
      EvenBehind pmn.vin man.vMasternodes)
    (associated : broadcast.call.vinAssociated broadcast.mnb.vin
      broadcast.mnb.pubKeyCollateralAddress = true) (backed : Backed rules ledger man) :
    Backed rules ledger (broadcast.call.checkInputsAndAdd rules.mnb broadcast.mnb man).2 := by
  unfold MnbCall.checkInputsAndAdd
  split
  · exact backed
  · split
    · exact addsEntry_backed broadcast own associated backed
    · rename_i pmn found
      split
      · exact backed
      · rename_i disabled
        exact addsEntry_backed broadcast own associated
          (eraseFirst_backed (even pmn found (Bool.not_eq_true _ ▸ disabled)) backed)

theorem broadcast_backed (broadcast : Broadcast rules ledger)
    (fair : FairBroadcast broadcast man) (backed : Backed rules ledger man) :
    Backed rules ledger (processMnb broadcast.call rules.mnb broadcast.mnb man).2 := by
  unfold processMnb
  split
  · exact backed
  · split
    · exact backed
    · have updated := @checkAndUpdate_backed _ _ (noteSeen rules.mnb broadcast.mnb man)
        broadcast.call broadcast.mnb backed
      have even := fair.even
      unfold MnbCall.checksBroadcast
      generalize broadcast.call.checkAndUpdate rules.mnb broadcast.mnb
        (noteSeen rules.mnb broadcast.mnb man) = checked at updated even ⊢
      obtain ⟨⟨refused, relayed⟩, later⟩ := checked
      cases refused with
      | some nDoS => exact updated
      | none =>
        dsimp only
        split
        · exact updated
        · rename_i associated
          exact checkInputsAndAdd_backed broadcast fair.own even (by simpa using associated) updated

theorem askForMN_entries (time : Int64) (vin : CTxIn) (man : CMasternodeMan) :
    (askForMN time vin man).vMasternodes = man.vMasternodes := by
  unfold askForMN
  dsimp only
  split <;> rfl

theorem isValid_entries (call : MnwCall) (man : CMasternodeMan)
    (winner : CMasternodePaymentWinner) :
    (call.isValid man winner).2.vMasternodes = man.vMasternodes := by
  unfold MnwCall.isValid
  split
  · exact askForMN_entries _ _ _
  · split <;> rfl

theorem admits_entries (call : MnwCall) (mnw : MnwRules) (nHeight : Int)
    (winner : CMasternodePaymentWinner) (state : MnwState) :
    (call.admits mnw nHeight winner state).2.mnodeman.vMasternodes =
      state.mnodeman.vMasternodes := by
  have first := isValid_entries call state.mnodeman winner
  have second := isValid_entries call (call.isValid state.mnodeman winner).2 winner
  unfold MnwCall.admits
  split
  · rfl
  · dsimp only
    split
    · exact first
    · split
      · exact first
      · exact second.trans first

theorem casts_entries (call : MnwCall) (mnw : MnwRules) (winner : CMasternodePaymentWinner)
    (state : MnwState) :
    (call.casts mnw winner state).2.mnodeman.vMasternodes = state.mnodeman.vMasternodes := by
  unfold MnwCall.casts
  dsimp only
  split
  · rfl
  · split
    · exact askForMN_entries _ _ _
    · rfl

theorem setDeposit_backed (placed : man.vMasternodes[position]? = some mn)
    (same : deposit = mn.deposit) (backed : Backed rules ledger man) :
    Backed rules ledger (setDeposit position deposit man) := by
  intro other member
  obtain ⟨index, found⟩ := List.mem_iff_getElem?.mp member
  unfold setDeposit at found
  rw [List.getElem?_modify] at found
  by_cases here : position = index
  · rw [← here, placed] at found
    simp only [Option.map_eq_map, Option.map_some, if_true, Option.some.injEq] at found
    rw [← found]
    exact (backed mn (List.mem_of_getElem? placed)).carried rfl rfl same
  · simp only [here, if_false, Option.map_eq_map, Option.map_id'] at found
    exact backed other (List.mem_of_getElem? found)

theorem payeeDeposit_ok {call : MnwCall} {mnw : MnwRules} {payee : CScript}
    (paid : call.payeeDeposit mnw man payee = .ok (position, deposit)) :
    ∃ mn, man.vMasternodes.find? (fun mn => mnw.scriptForKey mn.pubKeyCollateralAddress == payee) =
        some mn ∧
      man.vMasternodes[position]? = some mn ∧ call.masternodeDeposit mn = some deposit := by
  unfold MnwCall.payeeDeposit at paid
  dsimp only at paid
  split at paid
  · cases paid
  · rename_i first
    split at paid
    · cases paid
    · rename_i read
      cases paid
      obtain ⟨mn, placed, found⟩ := Option.bind_eq_some_iff.mp read
      refine ⟨mn, ?_, placed, found⟩
      rw [List.find?_eq_bind_findIdx?_getElem?, first]
      exact placed

theorem backed_of_entries {later earlier : CMasternodeMan}
    (same : later.vMasternodes = earlier.vMasternodes) (backed : Backed rules ledger earlier) :
    Backed rules ledger later := by
  unfold Backed
  rw [same]
  exact backed

section
variable (vote : Vote ledger) (fair : FairVote rules ledger vote.received state.mnodeman)
  (backed : Backed rules ledger state.mnodeman)
include vote fair backed

theorem prepares_backed :
    Backed rules ledger (vote.call.prepares rules.mnw vote.received state).2.mnodeman := by
  unfold MnwCall.prepares
  split
  · exact backed
  · split
    · exact backed
    · split
      · exact backed
      · rename_i nHeight _
        split
        · exact backed
        · rename_i position deposit paid
          obtain ⟨mn, payee, placed, found⟩ := payeeDeposit_ok paid
          obtain ⟨vout, collateral, first⟩ := Option.bind_eq_some_iff.mp found
          obtain ⟨tx, known, rfl⟩ := vote.known _ _ collateral
          obtain ⟨tx', out, known', own, -, -, value⟩ := backed mn (List.mem_of_getElem? placed)
          obtain rfl := Option.some.inj (known.symm.trans known')
          have set' := setDeposit_backed placed
            ((fair mn tx out deposit payee known own first).trans value.symm) backed
          dsimp only
          split
          · exact set'
          · have admitted := backed_of_entries (admits_entries vote.call rules.mnw nHeight
              { vote.received with payeeTier := CMasternode.tierOf deposit }
              { state with mnodeman := setDeposit position deposit state.mnodeman }) set'
            split
            · rename_i outcome later refused
              rw [refused] at admitted
              exact admitted
            · rename_i later passed
              rw [passed] at admitted
              exact admitted

theorem vote_backed :
    Backed rules ledger (processMnw vote.call rules.mnw vote.received state).2.mnodeman := by
  have prepared := prepares_backed vote fair backed
  unfold processMnw
  split
  · rename_i outcome later ended
    rw [ended] at prepared
    exact prepared
  · rename_i winner later ready
    rw [ready] at prepared
    exact backed_of_entries (casts_entries vote.call rules.mnw winner later) prepared

end

theorem receive_backed {message : Message rules ledger} (fair : Fair state message)
    (backed : Backed rules ledger state.mnodeman) :
    Backed rules ledger (receive state message).mnodeman := by
  cases message with
  | mnb broadcast => exact broadcast_backed broadcast fair backed
  | mnw vote => exact vote_backed vote fair backed

end Steps

def noMasternodes : MnwState where
  mnodeman := ⟨[], ∅, ∅, ∅, 0, ∅, ∅⟩
  payments := ⟨∅, ∅, ∅⟩

/-- Whatever the order of broadcasts and votes, every masternode in the list is backed by its
    own output, with that output's value for its deposit, as long as every message is fair. -/
theorem run_backed {rules : Rules} {ledger : Ledger} (messages later : List (Message rules ledger))
    (fair : FairRun (messages ++ later) noMasternodes) :
    Backed rules ledger (run messages noMasternodes).mnodeman := by
  have general : ∀ (messages : List (Message rules ledger)) (state : MnwState),
      FairRun (messages ++ later) state → Backed rules ledger state.mnodeman →
      Backed rules ledger (run messages state).mnodeman := by
    intro messages
    induction messages with
    | nil => exact fun _ _ backed => backed
    | cons message rest ih =>
      intro state fair backed
      exact ih _ fair.2 (receive_backed fair.1 backed)
  exact general messages noMasternodes fair fun _ member => absurd member List.not_mem_nil

section Examples

def keyOf (n : UInt8) : CPubKey := ⟨2 :: List.replicate 32 n, rfl⟩

def payToKey (pubkey : CPubKey) : CScript :=
  [0x76, 0xa9, 20] ++ (pubkey.bytes.drop 1).take 20 ++ [0x88, 0xac]

def nodeRules : Rules where
  mnb := ⟨fun content => BitVec.ofInt 256 content.1.toInt, fun _ => 0, payToKey⟩
  mnw := ⟨fun _ => 0, payToKey⟩

def collateral (key : CPubKey) : CTxOut := ⟨MASTERNODE_COLLATERAL * COIN, payToKey key, -10⟩

def twoTransactions : Ledger := fun hash =>
  if hash = 7 then some ⟨1, [], [collateral (keyOf 1), collateral (keyOf 2)], 0⟩
  else if hash = 8 then some ⟨1, [], [collateral (keyOf 1)], 0⟩
  else none

def openCall : MnbCall where
  liteMode := false
  blockchainSynced := true
  minProto := 70003
  check :=
    { forceCheck := false, shutdownRequested := false, time := 0, adjustedTime := 100000
      prevoutValue := prevoutValue twoTransactions
      collateralPubKey := [], lockMain := true, acceptableInputs := fun _ => true }
  vinAssociated := isVinAssociatedWithPubkey payToKey twoTransactions
  masternodeMode := false
  activeVin := CTxIn.fresh
  activePubKey := CPubKey.invalid
  inputAge _ := 100
  confirmedAt _ := none
  blockHeight _ := none
  chainHeight := 200
  isLocal _ := false
  verifyMessage _ _ _ := true
  verifyPing _ _ _ := true

def broadcastOf (hash : Uint256) (n : UInt8) : Broadcast nodeRules twoTransactions where
  call := openCall
  mnb := ⟨{ CMasternode.fresh 0 with
    vin := ⟨⟨hash, 0⟩, [], 0xffffffff⟩
    pubKeyCollateralAddress := keyOf n
    pubKeyMasternode := keyOf n
    sigTime := 90000
    protocolVersion := 70003 }⟩
  getTransaction := twoTransactions
  known := fun _ _ found => found
  associates := rfl
  values := rfl

theorem ledger_even {hash : Uint256} {tx : CTransaction} (known : twoTransactions hash = some tx) :
    ∀ out ∈ tx.vout, out.nValue = MASTERNODE_COLLATERAL * COIN := by
  unfold twoTransactions at known
  split at known
  · cases known
    simp [collateral]
  · split at known
    · cases known
      simp [collateral]
    · cases known

def voteFor (n : UInt8) : Vote twoTransactions where
  call :=
    { blockchainSynced := true, liteMode := false, peerVersion := 70003, activeProtocol := 70003
      tipHeight := some 200, time := 0
      collateralOutputs := fun hash => (twoTransactions hash).map CTransaction.vout
      countEnabled := fun _ => 1, getMasternodeRank := fun _ _ => 1
      getBlockHash := fun _ => some 0, verifyMessage := fun _ _ _ => true }
  received := ⟨⟨⟨8, 0⟩, [], 0xffffffff⟩, 205, payToKey (keyOf n), [], 0⟩
  known hash vout found := by
    obtain ⟨tx, known, outputs⟩ := Option.map_eq_some_iff.mp found
    exact ⟨tx, known, outputs⟩

theorem own_coin_backed :
    Backed nodeRules twoTransactions (run [Message.mnb (broadcastOf 8 1), Message.mnw (voteFor 1)]
      noMasternodes).mnodeman := by
  refine run_backed [Message.mnb (broadcastOf 8 1), Message.mnw (voteFor 1)] []
    ⟨⟨?_, ?_⟩, ?_, trivial⟩
  · intro tx out other known placed _ _ _ _
    obtain rfl := Option.some.inj known
    obtain rfl := Option.some.inj placed
    rfl
  · intro pmn found
    have nobody : ((openCall.checkAndUpdate nodeRules.mnb (broadcastOf 8 1).mnb (noteSeen
        nodeRules.mnb (broadcastOf 8 1).mnb noMasternodes.mnodeman)).2.find
          (broadcastOf 8 1).mnb.vin) = none := by decide +kernel
    cases nobody.symm.trans found
  · intro mn tx out deposit _ known placed first
    have listed := List.mem_of_find?_eq_some first
    obtain ⟨other, member, rfl⟩ := List.mem_map.mp listed
    rw [ledger_even known other member, ledger_even known out (List.mem_of_getElem? placed)]

theorem another_coin_registered : ¬∀ (rules : Rules) (ledger : Ledger)
    (messages : List (Message rules ledger)),
    Backed rules ledger (run messages noMasternodes).mnodeman := by
  intro promised
  have backed := promised nodeRules twoTransactions [.mnb (broadcastOf 7 2)]
  have listed : (run [Message.mnb (broadcastOf 7 2)] noMasternodes).mnodeman.vMasternodes =
      [openCall.fromBroadcast (broadcastOf 7 2).mnb] := by decide +kernel
  obtain ⟨tx, out, known, placed, pays, -⟩ := backed _ (by
    exact List.mem_singleton_self _)
  obtain rfl := Option.some.inj known
  obtain rfl := Option.some.inj placed
  exact absurd pays (by decide +kernel)

end Examples

end OxidCollateral
