import Oxid.Wallet

/-!
The index of spends over runs of a wallet. Whatever adds a transaction adds what it spends
to the index, and nothing takes it out again.
-/
namespace OxidSpendIndex
open OxidPrimitives OxidMapKeys OxidChainParams OxidWallet OrderedMaps OrderedMap Runs

def spentInputs (tx : CTransaction) : List COutPoint :=
  if tx.isCoinBase then [] else tx.vin.map CTxIn.prevout

def spentBy (mapWallet : OrderedMap Uint256 CWalletTx) (hash : Uint256) : List COutPoint :=
  match mapWallet.find? hash with
  | none => []
  | some wtx => spentInputs wtx.tx

def position (mapWallet : OrderedMap Uint256 CWalletTx) (hash : Uint256) : Int32 :=
  (entryAt mapWallet hash).nOrderPos.toInt32

def core (wtx : CWalletTx) : CTransaction × Int64 := (wtx.tx, wtx.nOrderPos)

def SameTxs (before after : OrderedMap Uint256 CWalletTx) : Prop :=
  ∀ hash, (after.find? hash).map core = (before.find? hash).map core

section Same

variable {a b c : OrderedMap Uint256 CWalletTx} {hash : Uint256}

theorem SameTxs.refl (a : OrderedMap Uint256 CWalletTx) : SameTxs a a := fun _ => rfl

theorem SameTxs.trans (first : SameTxs a b) (second : SameTxs b c) : SameTxs a c := by
  intro hash
  rw [second hash, first hash]

theorem SameTxs.count (same : SameTxs a b) (hash : Uint256) : b.count hash = a.count hash := by
  have found := congrArg Option.isSome (same hash)
  simpa [OrderedMap.count] using found

theorem SameTxs.spends (same : SameTxs a b) (hash : Uint256) :
    spentBy b hash = spentBy a hash := by
  have found := same hash
  unfold spentBy
  cases here : a.find? hash with
  | none =>
    cases there : b.find? hash with
    | none => rfl
    | some wtx => simp [here, there] at found
  | some old =>
    cases there : b.find? hash with
    | none => simp [here, there] at found
    | some wtx =>
      rw [here, there] at found
      have tx : wtx.tx = old.tx := congrArg Prod.fst (Option.some.inj found)
      dsimp only
      rw [tx]

theorem SameTxs.positions (same : SameTxs a b) (hash : Uint256) :
    position b hash = position a hash := by
  have found := same hash
  unfold position entryAt
  cases here : a.find? hash with
  | none =>
    cases there : b.find? hash with
    | none => rfl
    | some wtx => simp [here, there] at found
  | some old =>
    cases there : b.find? hash with
    | none => simp [here, there] at found
    | some wtx =>
      rw [here, there] at found
      have placed : wtx.nOrderPos = old.nOrderPos := congrArg Prod.snd (Option.some.inj found)
      rw [Option.getD_some, Option.getD_some, placed]

theorem sameTxs_set {old wtx : CWalletTx} (standing : a.find? hash = some old)
    (same : core wtx = core old) : SameTxs a (a.set hash wtx) := by
  intro other
  by_cases here : other = hash
  · rw [here, find?_set_same, standing, Option.map_some, Option.map_some, same]
  · rw [find?_set_other _ _ here]

theorem SameTxs.entry (same : SameTxs a b) {wtx : CWalletTx} (found : b.find? hash = some wtx) :
    ∃ old, a.find? hash = some old ∧ old.tx = wtx.tx := by
  have both := same hash
  rw [found] at both
  obtain ⟨old, standing, cores⟩ := Option.map_eq_some_iff.mp both.symm
  exact ⟨old, standing, congrArg Prod.fst cores⟩

end Same

section Sync

variable {mapWallet : OrderedMap Uint256 CWalletTx} {range : List Uint256}

theorem count_some {hash : Uint256} (present : mapWallet.count hash = true) :
    ∃ wtx, mapWallet.find? hash = some wtx := Option.isSome_iff_exists.mp present

theorem insert_present {hash : Uint256} (present : mapWallet.count hash = true)
    (value : CWalletTx) : mapWallet.insert hash value = mapWallet := by
  obtain ⟨_, found⟩ := count_some present
  exact insert_standing value found

theorem not_lt_maxValue {n : Int32} : ¬ n < Int32.maxValue ↔ n = Int32.maxValue := by
  rw [Int32.lt_iff_toInt_lt, ← Int32.toInt_inj]
  have least := Int32.toInt_le n
  omega

theorem findCopyFrom_present (present : ∀ hash ∈ range, mapWallet.count hash = true)
    (nMinOrderPos : Int32) (copyFrom : Option Uint256) :
    ∃ source, findCopyFrom range mapWallet nMinOrderPos copyFrom = (mapWallet, source) ∧
      (source = copyFrom ∨ ∃ hash ∈ range, source = some hash) ∧
      (source = none ↔ copyFrom = none ∧
        ∀ hash ∈ range, ¬ position mapWallet hash < nMinOrderPos) := by
  induction range generalizing nMinOrderPos copyFrom with
  | nil => exact ⟨copyFrom, rfl, .inl rfl, by simp⟩
  | cons hash rest ih =>
    have later : ∀ other ∈ rest, mapWallet.count other = true := by
      intro other member
      exact present other (List.mem_cons_of_mem _ member)
    unfold findCopyFrom
    rw [insert_present (present hash List.mem_cons_self)]
    dsimp only
    split
    · rename_i less
      obtain ⟨source, ran, origin, unfound⟩ := ih later (position mapWallet hash) (some hash)
      refine ⟨source, ran, ?_, ?_⟩
      · rcases origin with here | ⟨other, member, there⟩
        · exact .inr ⟨hash, List.mem_cons_self, here⟩
        · exact .inr ⟨other, List.mem_cons_of_mem _ member, there⟩
      · rw [unfound]
        constructor
        · rintro ⟨impossible, _⟩
          cases impossible
        · rintro ⟨_, none_less⟩
          exact absurd less (none_less hash List.mem_cons_self)
    · rename_i not_less
      obtain ⟨source, ran, origin, unfound⟩ := ih later nMinOrderPos copyFrom
      refine ⟨source, ran, ?_, ?_⟩
      · rcases origin with here | ⟨other, member, there⟩
        · exact .inl here
        · exact .inr ⟨other, List.mem_cons_of_mem _ member, there⟩
      · rw [unfound, List.forall_mem_cons]
        exact ⟨fun ⟨none', rest'⟩ => ⟨none', not_less, rest'⟩,
          fun ⟨none', _, rest'⟩ => ⟨none', rest'⟩⟩

theorem copyToRest_present {source : Uint256}
    (present : ∀ hash ∈ range, mapWallet.count hash = true) :
    ∃ synced copies, copyToRest (some source) range mapWallet = some (synced, copies) ∧
      SameTxs mapWallet synced ∧ ∀ copy ∈ copies, copy.1 = source ∧ copy.2 ∈ range := by
  induction range generalizing mapWallet with
  | nil => exact ⟨mapWallet, [], rfl, .refl _, by simp⟩
  | cons hash rest ih =>
    obtain ⟨old, found⟩ := count_some (present hash List.mem_cons_self)
    unfold copyToRest
    rw [insert_present (present hash List.mem_cons_self)]
    dsimp only
    split
    · obtain ⟨synced, copies, ran, same, within⟩ :=
        ih fun other member => present other (List.mem_cons_of_mem _ member)
      refine ⟨synced, copies, ran, same, ?_⟩
      intro copy member
      exact ⟨(within copy member).1, List.mem_cons_of_mem _ (within copy member).2⟩
    · have entry : entryAt mapWallet hash = old := by
        unfold entryAt
        rw [found, Option.getD_some]
      have step := @sameTxs_set mapWallet hash old
        (copyMetaData (entryAt mapWallet source) (entryAt mapWallet hash)) found
        (by rw [entry]; rfl)
      have still : ∀ other ∈ rest, (mapWallet.set hash
          (copyMetaData (entryAt mapWallet source) (entryAt mapWallet hash))).count other =
          true := by
        intro other member
        rw [step.count]
        exact present other (List.mem_cons_of_mem _ member)
      obtain ⟨synced, copies, ran, same, within⟩ := ih still
      refine ⟨synced, (source, hash) :: copies, by rw [ran]; rfl, step.trans same, ?_⟩
      intro copy member
      rcases List.mem_cons.mp member with here | later
      · rw [here]
        exact ⟨rfl, List.mem_cons_self⟩
      · exact ⟨(within copy later).1, List.mem_cons_of_mem _ (within copy later).2⟩

theorem syncMetaData_syncs (present : ∀ hash ∈ range, mapWallet.count hash = true)
    (placed : ∃ hash ∈ range, position mapWallet hash ≠ Int32.maxValue) :
    ∃ synced copies, syncMetaData range mapWallet = some (synced, copies) ∧
      SameTxs mapWallet synced ∧ ∀ copy ∈ copies, copy.1 ∈ range ∧ copy.2 ∈ range := by
  obtain ⟨source, ran, origin, unfound⟩ := findCopyFrom_present present Int32.maxValue none
  unfold syncMetaData
  rw [ran]
  rcases origin with nothing | ⟨hash, member, here⟩
  · obtain ⟨_, none_less⟩ := unfound.mp nothing
    obtain ⟨hash, member, other⟩ := placed
    exact absurd (not_lt_maxValue.mp (none_less hash member)) other
  · obtain ⟨synced, copies, copied, same, within⟩ := @copyToRest_present _ _ hash present
    rw [here]
    refine ⟨synced, copies, copied, same, ?_⟩
    intro copy copying
    rw [(within copy copying).1]
    exact ⟨member, (within copy copying).2⟩

theorem syncMetaData_crashes (present : ∀ hash ∈ range, mapWallet.count hash = true)
    (filled : range ≠ []) (last : ∀ hash ∈ range, position mapWallet hash = Int32.maxValue) :
    syncMetaData range mapWallet = none := by
  obtain ⟨source, ran, _, unfound⟩ := findCopyFrom_present present Int32.maxValue none
  have nothing : source = none := by
    apply unfound.mpr
    refine ⟨rfl, ?_⟩
    intro hash member
    exact not_lt_maxValue.mpr (last hash member)
  unfold syncMetaData
  rw [ran, nothing]
  cases range with
  | nil => exact absurd rfl filled
  | cons hash rest =>
    unfold copyToRest
    simp

end Sync

section Spends

variable {wallet : CWallet} {wtxid : Uint256}

def Listed (wallet : CWallet) : Prop :=
  ∀ spend ∈ wallet.mapTxSpends, wallet.mapWallet.count spend.2 = true

/-- One of the transactions that spend the outpoint has a position below the largest. -/
def Settled (wallet : CWallet) (wtxid : Uint256) (outpoint : COutPoint) : Prop :=
  ∃ hash ∈ wtxid :: wallet.equalRange outpoint,
    position wallet.mapWallet hash ≠ Int32.maxValue

structure Spent (wtxid : Uint256) (spends : List COutPoint) (before after : CWallet) : Prop where
  index : after.mapTxSpends = before.mapTxSpends ++ spends.map fun outpoint => (outpoint, wtxid)
  same : SameTxs before.mapWallet after.mapWallet

theorem Spent.listed {spends : List COutPoint} {after : CWallet} (listed : Listed wallet)
    (present : wallet.mapWallet.count wtxid = true) (spent : Spent wtxid spends wallet after) :
    Listed after := by
  intro spend member
  rw [spent.index, List.mem_append, List.mem_map] at member
  rw [spent.same.count]
  rcases member with earlier | ⟨outpoint, _, here⟩
  · exact listed spend earlier
  · rw [← here]
    exact present

theorem Spent.settled {spends : List COutPoint} {after : CWallet}
    (spent : Spent wtxid spends wallet after) (outpoint : COutPoint) :
    Settled after wtxid outpoint ↔ Settled wallet wtxid outpoint := by
  have members : ∀ hash, hash ∈ wtxid :: after.equalRange outpoint ↔
      hash ∈ wtxid :: wallet.equalRange outpoint := by
    intro hash
    unfold CWallet.equalRange
    rw [spent.index, List.filter_append, List.map_append, List.mem_cons, List.mem_append,
      List.mem_cons]
    constructor
    · rintro (here | earlier | added)
      · exact .inl here
      · exact .inr earlier
      · obtain ⟨spend, member, hashed⟩ := List.mem_map.mp added
        obtain ⟨other, _, built⟩ := List.mem_map.mp (List.mem_of_mem_filter member)
        rw [← hashed, ← built]
        exact .inl rfl
    · rintro (here | earlier)
      · exact .inl here
      · exact .inr (.inl earlier)
  constructor
  · rintro ⟨hash, member, placed⟩
    rw [spent.same.positions] at placed
    exact ⟨hash, (members hash).mp member, placed⟩
  · rintro ⟨hash, member, placed⟩
    rw [← spent.same.positions] at placed
    exact ⟨hash, (members hash).mpr member, placed⟩

theorem equalRange_mem {outpoint : COutPoint} {hash : Uint256} :
    hash ∈ wallet.equalRange outpoint ↔ (outpoint, hash) ∈ wallet.mapTxSpends := by
  unfold CWallet.equalRange
  rw [List.mem_map]
  constructor
  · rintro ⟨⟨other, owner⟩, member, here⟩
    obtain ⟨inside, same⟩ := List.mem_filter.mp member
    have outpoints : other = outpoint := by simpa using same
    have owners : owner = hash := here
    rw [← outpoints, ← owners]
    exact inside
  · intro member
    exact ⟨(outpoint, hash), List.mem_filter.mpr ⟨member, by simp⟩, rfl⟩

theorem equalRange_push (outpoint : COutPoint) (mapTxSpends : List (COutPoint × Uint256)) :
    ({ wallet with mapTxSpends := mapTxSpends ++ [(outpoint, wtxid)] } : CWallet).equalRange
        outpoint =
      ({ wallet with mapTxSpends := mapTxSpends } : CWallet).equalRange outpoint ++ [wtxid] := by
  unfold CWallet.equalRange
  simp

theorem addToSpends_spent (listed : Listed wallet)
    (present : wallet.mapWallet.count wtxid = true) {outpoint : COutPoint} :
    (Settled wallet wtxid outpoint → ∃ after copies,
      addToSpends outpoint wtxid wallet = some (after, copies) ∧
      Spent wtxid [outpoint] wallet after ∧ ∀ copy ∈ copies,
        wallet.mapWallet.count copy.1 = true ∧ wallet.mapWallet.count copy.2 = true) ∧
    (¬ Settled wallet wtxid outpoint → addToSpends outpoint wtxid wallet = none) := by
  have within : ∀ hash ∈ wallet.equalRange outpoint ++ [wtxid],
      wallet.mapWallet.count hash = true := by
    intro hash member
    rcases List.mem_append.mp member with earlier | here
    · exact listed _ (equalRange_mem.mp earlier)
    · rw [List.mem_singleton.mp here]
      exact present
  have members : ∀ hash, hash ∈ wallet.equalRange outpoint ++ [wtxid] ↔
      hash ∈ wtxid :: wallet.equalRange outpoint := by
    intro hash
    rw [List.mem_append, List.mem_singleton, List.mem_cons, or_comm]
  have range := @equalRange_push wallet wtxid outpoint wallet.mapTxSpends
  constructor
  · rintro ⟨hash, member, placed⟩
    obtain ⟨synced, copies, ran, same, copied⟩ :=
      syncMetaData_syncs within ⟨hash, (members hash).mpr member, placed⟩
    refine ⟨⟨synced, wallet.mapTxSpends ++ [(outpoint, wtxid)], wallet.nOrderPosNext,
      wallet.fFileBacked⟩, copies, ?_, ⟨rfl, same⟩, ?_⟩
    · unfold addToSpends
      dsimp only
      rw [range, ran]
      rfl
    · intro copy member
      exact ⟨within _ (copied copy member).1, within _ (copied copy member).2⟩
  · intro unsettled
    unfold addToSpends
    dsimp only
    rw [range, syncMetaData_crashes within (by simp), Option.map_none]
    intro hash member
    by_contra other
    exact unsettled ⟨hash, (members hash).mp member, other⟩

theorem addInputsToSpends_spent (vin : List CTxIn) (listed : Listed wallet)
    (present : wallet.mapWallet.count wtxid = true) :
    ((∀ txin ∈ vin, Settled wallet wtxid txin.prevout) → ∃ after copies,
      addInputsToSpends wtxid vin wallet = some (after, copies) ∧
      Spent wtxid (vin.map CTxIn.prevout) wallet after ∧ ∀ copy ∈ copies,
        wallet.mapWallet.count copy.1 = true ∧ wallet.mapWallet.count copy.2 = true) ∧
    ((¬ ∀ txin ∈ vin, Settled wallet wtxid txin.prevout) →
      addInputsToSpends wtxid vin wallet = none) := by
  induction vin generalizing wallet with
  | nil => exact ⟨fun _ => ⟨wallet, [], rfl, ⟨by simp, .refl _⟩, by simp⟩, fun refuted =>
      absurd (by simp) refuted⟩
  | cons txin rest ih =>
    obtain ⟨settles, crashes⟩ := @addToSpends_spent wallet wtxid listed present txin.prevout
    by_cases here : Settled wallet wtxid txin.prevout
    · obtain ⟨middle, copies, ran, spent, copied⟩ := settles here
      have still : middle.mapWallet.count wtxid = true := by
        rw [spent.same.count]
        exact present
      obtain ⟨later, crashes_later⟩ := ih (spent.listed listed present) still
      unfold addInputsToSpends
      rw [ran]
      dsimp only
      constructor
      · intro all
        obtain ⟨after, more, ran_later, spent_later, copied_later⟩ := later fun other member =>
          (spent.settled _).mpr (all other (List.mem_cons_of_mem _ member))
        refine ⟨after, copies ++ more, by rw [ran_later]; rfl,
          ⟨?_, spent.same.trans spent_later.same⟩, ?_⟩
        · rw [spent_later.index, spent.index, List.append_assoc, ← List.map_append,
            List.map_cons, List.singleton_append]
        · intro copy member
          rcases List.mem_append.mp member with first | second
          · exact copied copy first
          · have counted := copied_later copy second
            rwa [spent.same.count, spent.same.count] at counted
      · intro refuted
        rw [crashes_later, Option.map_none]
        intro all
        apply refuted
        rw [List.forall_mem_cons]
        exact ⟨here, fun other member => (spent.settled _).mp (all other member)⟩
    · unfold addInputsToSpends
      rw [crashes here]
      constructor
      · intro all
        exact absurd (all txin List.mem_cons_self) here
      · intro _
        rfl

theorem addTxToSpends_spent {wtx : CWalletTx} (listed : Listed wallet)
    (found : wallet.mapWallet.find? wtxid = some wtx) :
    ((∀ outpoint ∈ spentInputs wtx.tx, Settled wallet wtxid outpoint) → ∃ after copies,
      addTxToSpends wtxid wallet = some (after, copies) ∧
      Spent wtxid (spentInputs wtx.tx) wallet after ∧ ∀ copy ∈ copies,
        wallet.mapWallet.count copy.1 = true ∧ wallet.mapWallet.count copy.2 = true) ∧
    ((¬ ∀ outpoint ∈ spentInputs wtx.tx, Settled wallet wtxid outpoint) →
      addTxToSpends wtxid wallet = none) := by
  have present : wallet.mapWallet.count wtxid = true := by
    rw [OrderedMap.count, found]
    rfl
  unfold addTxToSpends spentInputs
  rw [found]
  dsimp only
  split
  · exact ⟨fun _ => ⟨wallet, [], rfl, ⟨by simp, .refl _⟩, by simp⟩, fun refuted =>
      absurd (by simp) refuted⟩
  · rw [List.forall_mem_map]
    exact addInputsToSpends_spent wtx.tx.vin listed present

end Spends

/-- A wallet, with the transactions added and not erased since. -/
structure History where
  wallet : CWallet
  added : List CTransaction

structure Indexed (txHash : CTransaction → Uint256) (history : History) : Prop where
  spends : ∀ outpoint hash, history.wallet.mapTxSpends.count (outpoint, hash) =
    (spentBy history.wallet.mapWallet hash).count outpoint
  entries : ∀ hash wtx, history.wallet.mapWallet.find? hash = some wtx →
    wtx.tx ∈ history.added ∧ txHash wtx.tx = hash

def Within (wallet : CWallet) (copies : List Copy) : Prop :=
  ∀ copy ∈ copies, wallet.mapWallet.count copy.1 = true ∧ wallet.mapWallet.count copy.2 = true

section Index

variable {txHash : CTransaction → Uint256} {wallet placed : CWallet} {added : List CTransaction}
  {hash : Uint256}

variable {wtx : CWalletTx} {tx : CTransaction} {history : History}

theorem Indexed.listed (indexed : Indexed txHash history) :
    Listed history.wallet := by
  intro spend member
  have positive := List.count_pos_iff.mpr member
  rw [show spend = (spend.1, spend.2) from rfl, indexed.spends] at positive
  unfold spentBy at positive
  unfold OrderedMap.count
  cases found : history.wallet.mapWallet.find? spend.2 with
  | none =>
    rw [found, List.count_nil] at positive
    omega
  | some wtx => rfl

theorem Indexed.range_empty (indexed : Indexed txHash history)
    (nothing : spentBy history.wallet.mapWallet hash = []) (outpoint : COutPoint) :
    hash ∉ history.wallet.equalRange outpoint := by
  intro member
  have positive := List.count_pos_iff.mpr (equalRange_mem.mp member)
  rw [indexed.spends, nothing, List.count_nil] at positive
  omega

structure Placed (hash : Uint256) (wtx : CWalletTx) (before after : CWallet) : Prop where
  entries : ∀ other, after.mapWallet.find? other =
    if other = hash then some wtx else before.mapWallet.find? other
  index : after.mapTxSpends = before.mapTxSpends

theorem Placed.spends (put : Placed hash wtx wallet placed) (other : Uint256) :
    spentBy placed.mapWallet other =
      if other = hash then spentInputs wtx.tx else spentBy wallet.mapWallet other := by
  unfold spentBy
  rw [put.entries]
  by_cases here : other = hash
  · rw [if_pos here, if_pos here]
  · rw [if_neg here, if_neg here]

theorem Placed.entry (put : Placed hash wtx wallet placed)
    (indexed : Indexed txHash ⟨wallet, added⟩) (own : txHash wtx.tx = hash)
    (known : wtx.tx ∈ tx :: added) {other : Uint256} {found : CWalletTx}
    (here : placed.mapWallet.find? other = some found) :
    found.tx ∈ tx :: added ∧ txHash found.tx = other := by
  rw [put.entries] at here
  split at here
  · rename_i same
    rw [← Option.some.inj here, same]
    exact ⟨known, own⟩
  · obtain ⟨member, hashed⟩ := indexed.entries other found here
    exact ⟨List.mem_cons_of_mem _ member, hashed⟩

theorem Placed.indexed (put : Placed hash wtx wallet placed)
    (indexed : Indexed txHash ⟨wallet, added⟩) (own : txHash wtx.tx = hash)
    (known : wtx.tx ∈ tx :: added) (same : spentInputs wtx.tx = spentBy wallet.mapWallet hash) :
    Indexed txHash ⟨placed, tx :: added⟩ := by
  constructor
  · intro outpoint other
    rw [put.index, put.spends]
    split
    · rename_i here
      rw [same, here]
      exact indexed.spends outpoint hash
    · exact indexed.spends outpoint other
  · intro other found here
    exact put.entry indexed own known here

theorem count_spends (spends : List COutPoint) (outpoint : COutPoint) (other : Uint256) :
    (spends.map fun outpoint => (outpoint, hash)).count (outpoint, other) =
      if other = hash then spends.count outpoint else 0 := by
  split
  · rename_i here
    rw [here]
    exact List.count_map_of_injective spends _ (fun _ _ same => (Prod.mk.inj same).1) outpoint
  · rename_i different
    apply List.count_eq_zero.mpr
    intro member
    obtain ⟨_, _, here⟩ := List.mem_map.mp member
    exact different (Prod.mk.inj here).2.symm

def Addable (wallet : CWallet) (hash : Uint256) (wtx : CWalletTx) : Prop :=
  spentBy wallet.mapWallet hash = [] ∧ ∀ outpoint ∈ spentInputs wtx.tx,
    wtx.nOrderPos.toInt32 ≠ Int32.maxValue ∨ ∃ other ∈ wallet.equalRange outpoint,
      position wallet.mapWallet other ≠ Int32.maxValue

theorem Placed.settled (put : Placed hash wtx wallet placed)
    (indexed : Indexed txHash ⟨wallet, added⟩) (nothing : spentBy wallet.mapWallet hash = [])
    (outpoint : COutPoint) :
    Settled placed hash outpoint ↔ wtx.nOrderPos.toInt32 ≠ Int32.maxValue ∨
      ∃ other ∈ wallet.equalRange outpoint, position wallet.mapWallet other ≠ Int32.maxValue := by
  have here : position placed.mapWallet hash = wtx.nOrderPos.toInt32 := by
    unfold position entryAt
    rw [put.entries, if_pos rfl, Option.getD_some]
  have range : placed.equalRange outpoint = wallet.equalRange outpoint := by
    unfold CWallet.equalRange
    rw [put.index]
  have elsewhere : ∀ other ∈ wallet.equalRange outpoint,
      position placed.mapWallet other = position wallet.mapWallet other := by
    intro other member
    have different : other ≠ hash := by
      intro same
      rw [same] at member
      exact indexed.range_empty nothing outpoint member
    unfold position entryAt
    rw [put.entries, if_neg different]
  unfold Settled
  rw [List.exists_mem_cons_iff, here, range]
  constructor
  · rintro (first | ⟨other, member, below⟩)
    · exact .inl first
    · exact .inr ⟨other, member, by rw [← elsewhere other member]; exact below⟩
  · rintro (first | ⟨other, member, below⟩)
    · exact .inl first
    · exact .inr ⟨other, member, by rw [elsewhere other member]; exact below⟩

theorem Placed.added_iff (put : Placed hash wtx wallet placed)
    (indexed : Indexed txHash ⟨wallet, added⟩) (own : txHash wtx.tx = hash)
    (known : wtx.tx ∈ tx :: added) :
    (∃ after copies, addTxToSpends hash placed = some (after, copies) ∧
      Indexed txHash ⟨after, tx :: added⟩ ∧ Within after copies) ↔ Addable wallet hash wtx := by
  have found : placed.mapWallet.find? hash = some wtx := by
    rw [put.entries, if_pos rfl]
  have listed : Listed placed := by
    intro spend member
    rw [put.index] at member
    have present := indexed.listed spend member
    unfold OrderedMap.count at present ⊢
    rw [put.entries]
    split
    · rfl
    · exact present
  obtain ⟨settles, crashes⟩ := addTxToSpends_spent listed found
  have final : ∀ {after}, Spent hash (spentInputs wtx.tx) placed after → ∀ outpoint other,
      after.mapTxSpends.count (outpoint, other) =
          (spentBy wallet.mapWallet other).count outpoint +
            (if other = hash then (spentInputs wtx.tx).count outpoint else 0) ∧
        spentBy after.mapWallet other =
          if other = hash then spentInputs wtx.tx else spentBy wallet.mapWallet other := by
    intro after spent outpoint other
    rw [spent.index, List.count_append, count_spends, put.index, spent.same.spends, put.spends]
    exact ⟨congrArg (· + _) (indexed.spends outpoint other), rfl⟩
  constructor
  · rintro ⟨after, copies, ran, kept, _⟩
    by_cases all : ∀ outpoint ∈ spentInputs wtx.tx, Settled placed hash outpoint
    · obtain ⟨_, _, ran', spent, _⟩ := settles all
      rw [ran'] at ran
      cases ran
      have nothing : spentBy wallet.mapWallet hash = [] := by
        apply List.eq_nil_iff_forall_not_mem.mpr
        intro outpoint member
        have positive := List.count_pos_iff.mpr member
        have counted := kept.spends outpoint hash
        obtain ⟨count, by_hash⟩ := final spent outpoint hash
        rw [count, by_hash, if_pos rfl, if_pos rfl] at counted
        omega
      refine ⟨nothing, ?_⟩
      intro outpoint member
      exact (put.settled indexed nothing outpoint).mp (all outpoint member)
    · rw [crashes all] at ran
      cases ran
  · rintro ⟨nothing, positioned⟩
    obtain ⟨after, copies, ran, spent, copied⟩ := settles fun outpoint member =>
      (put.settled indexed nothing outpoint).mpr (positioned outpoint member)
    refine ⟨after, copies, ran, ⟨?_, ?_⟩, ?_⟩
    · intro outpoint other
      obtain ⟨count, by_hash⟩ := final spent outpoint other
      rw [count, by_hash]
      split
      · rename_i here
        rw [here, nothing, List.count_nil, Nat.zero_add]
      · rw [Nat.add_zero]
    · intro other entry here
      obtain ⟨old, standing, tx⟩ := spent.same.entry here
      rw [← tx]
      exact put.entry indexed own known standing
    · intro copy member
      rw [spent.same.count, spent.same.count]
      exact copied copy member

end Index

structure WalletContext where
  txHash : CTransaction → Uint256
  blockHash : CBlock → Uint256
  hashPair : Uint256 → Uint256 → Uint256
  params : ChainParams
  isMine : CScript → UInt8

inductive WalletOp where
  | addToWallet (call : WalletCall) (wtxIn : CWalletTx) (fFromLoadWallet : Bool)
  | addToWalletIfInvolvingMe (call : WalletCall) (tx : CTransaction) (pblock : Option CBlock)
      (fUpdate : Bool)
  | eraseFromWallet (hash : Uint256)

section Operations

variable (ctx : WalletContext)

def outcome : WalletOp → CWallet → Outcome
  | .addToWallet call wtxIn fFromLoadWallet, wallet =>
    addToWallet ctx.txHash call wtxIn fFromLoadWallet wallet
  | .addToWalletIfInvolvingMe call tx pblock fUpdate, wallet =>
    addToWalletIfInvolvingMe ctx.txHash ctx.params ctx.isMine ctx.blockHash ctx.hashPair call tx
      pblock fUpdate wallet
  | .eraseFromWallet hash, wallet => .returned true (eraseFromWallet hash wallet) []

def addedAfter : WalletOp → History → List CTransaction
  | .addToWallet _ wtxIn _, history => wtxIn.tx :: history.added
  | .addToWalletIfInvolvingMe _ tx _ fUpdate, history =>
    if involvesMe ctx.txHash ctx.params ctx.isMine tx fUpdate history.wallet = some true then
      tx :: history.added
    else history.added
  | .eraseFromWallet hash, history =>
    if history.wallet.fFileBacked then
      history.added.filter fun tx => ctx.txHash tx != hash
    else history.added

def step (op : WalletOp) (history : History) : Option (History × List Copy) :=
  match outcome ctx op history.wallet with
  | .returned _ wallet copies => some (⟨wallet, addedAfter ctx op history⟩, copies)
  | .threw wallet => some (⟨wallet, addedAfter ctx op history⟩, [])
  | .crashed => none

def throws (call : WalletCall) (wtxIn : CWalletTx) : Bool :=
  wtxIn.hashBlock != 0 && (call.blockTime wtxIn.hashBlock).isSome && call.acentries.isNone

def MeetsLive (call : WalletCall) (wtxIn : CWalletTx) (wallet : CWallet) : Prop :=
  wallet.mapWallet.find? (ctx.txHash wtxIn.tx) = none →
    spentInputs wtxIn.tx = [] ∨ throws call wtxIn = false ∧
      Addable wallet (ctx.txHash wtxIn.tx) { wtxIn with nOrderPos := wallet.nOrderPosNext }

/-- No transaction that spends something is erased or loaded again; what a new one spends
    can be added to the index. -/
def Meets : WalletOp → History → Prop
  | .addToWallet _ wtxIn true, history =>
    Addable history.wallet (ctx.txHash wtxIn.tx) wtxIn
  | .addToWallet call wtxIn false, history => MeetsLive ctx call wtxIn history.wallet
  | .addToWalletIfInvolvingMe call tx pblock fUpdate, history =>
    involvesMe ctx.txHash ctx.params ctx.isMine tx fUpdate history.wallet = some true →
      MeetsLive ctx call (walletTxOf ctx.txHash ctx.blockHash ctx.hashPair tx pblock) history.wallet
  | .eraseFromWallet hash, history =>
    history.wallet.fFileBacked = true → spentBy history.wallet.mapWallet hash = []

end Operations

section Steps

variable {ctx : WalletContext} {wallet : CWallet} {added : List CTransaction}

def Good (txHash : CTransaction → Uint256) (added : List CTransaction) : Outcome → Prop
  | .returned _ wallet copies => Indexed txHash ⟨wallet, added⟩ ∧ Within wallet copies
  | .threw wallet => Indexed txHash ⟨wallet, added⟩
  | .crashed => False

variable {hash : Uint256} {placed : CWallet} {history : History} {wtx : CWalletTx}

theorem good_added {ret : Bool} :
    Good ctx.txHash added (.afterSpends ret (addTxToSpends hash placed)) ↔
    ∃ after copies, addTxToSpends hash placed = some (after, copies) ∧
      Indexed ctx.txHash ⟨after, added⟩ ∧ Within after copies := by
  cases ran : addTxToSpends hash placed with
  | none =>
    constructor
    · intro impossible
      exact impossible.elim
    · rintro ⟨_, _, impossible, _⟩
      cases impossible
  | some result =>
    constructor
    · intro good
      exact ⟨result.1, result.2, rfl, good⟩
    · rintro ⟨_, _, same, good⟩
      cases same
      exact good

theorem placed_set (wtx : CWalletTx) {nOrderPosNext : Int64} :
    Placed hash wtx wallet
      { wallet with mapWallet := wallet.mapWallet.set hash wtx, nOrderPosNext := nOrderPosNext } := by
  constructor
  · intro other
    split
    · rename_i here
      rw [here, find?_set_same]
    · rename_i different
      rw [find?_set_other _ _ different]
  · rfl

theorem Placed.set_again (put : Placed hash wtx wallet placed) (again : CWalletTx) :
    Placed hash again wallet { placed with mapWallet := placed.mapWallet.set hash again } := by
  constructor
  · intro other
    split
    · rename_i here
      rw [here, find?_set_same]
    · rename_i different
      rw [find?_set_other _ _ different, put.entries, if_neg different]
  · exact put.index

theorem load_good_iff (indexed : Indexed ctx.txHash ⟨wallet, added⟩) (call : WalletCall)
    (wtxIn : CWalletTx) :
    Good ctx.txHash (wtxIn.tx :: added) (addToWallet ctx.txHash call wtxIn true wallet) ↔
      Addable wallet (ctx.txHash wtxIn.tx) wtxIn := by
  unfold addToWallet
  rw [if_pos rfl, good_added]
  exact (@placed_set wallet _ wtxIn wallet.nOrderPosNext).added_iff indexed rfl
    List.mem_cons_self

theorem Placed.unspent_iff (put : Placed hash wtx wallet placed)
    (indexed : Indexed ctx.txHash ⟨wallet, added⟩) (own : ctx.txHash wtx.tx = hash)
    (absent : wallet.mapWallet.find? hash = none) :
    Indexed ctx.txHash ⟨placed, wtx.tx :: added⟩ ↔ spentInputs wtx.tx = [] := by
  have nothing : spentBy wallet.mapWallet hash = [] := by
    unfold spentBy
    rw [absent]
  constructor
  · intro kept
    apply List.eq_nil_iff_forall_not_mem.mpr
    intro outpoint member
    have positive := List.count_pos_iff.mpr member
    have counted := kept.spends outpoint hash
    have before := indexed.spends outpoint hash
    rw [nothing, List.count_nil] at before
    rw [put.index, put.spends, if_pos rfl, before] at counted
    omega
  · intro none
    exact put.indexed indexed own List.mem_cons_self (none.trans nothing.symm)

theorem insertLive_good_iff (indexed : Indexed ctx.txHash ⟨wallet, added⟩) (call : WalletCall)
    {wtxIn : CWalletTx} (absent : wallet.mapWallet.find? (ctx.txHash wtxIn.tx) = none) :
    Good ctx.txHash (wtxIn.tx :: added) (insertLive ctx.txHash call wtxIn wallet) ↔
      spentInputs wtxIn.tx = [] ∨ throws call wtxIn = false ∧
        Addable wallet (ctx.txHash wtxIn.tx) { wtxIn with nOrderPos := wallet.nOrderPosNext } := by
  have nothing : spentBy wallet.mapWallet (ctx.txHash wtxIn.tx) = [] := by
    unfold spentBy
    rw [absent]
  have put := @placed_set wallet (ctx.txHash wtxIn.tx)
    (receivedTx call wtxIn wallet.nOrderPosNext) (wallet.nOrderPosNext + 1)
  have addable : ∀ nTimeSmart, Addable wallet (ctx.txHash wtxIn.tx)
      { receivedTx call wtxIn wallet.nOrderPosNext with nTimeSmart := nTimeSmart } ↔
        spentInputs wtxIn.tx = [] ∨
          Addable wallet (ctx.txHash wtxIn.tx) { wtxIn with nOrderPos := wallet.nOrderPosNext } := by
    intro nTimeSmart
    constructor
    · exact .inr
    · rintro (none | addable)
      · refine ⟨nothing, ?_⟩
        intro outpoint member
        change outpoint ∈ spentInputs wtxIn.tx at member
        rw [none] at member
        cases member
      · exact addable
  unfold insertLive
  dsimp only
  split
  · rename_i blocktime known unread
    have thrown : throws call wtxIn = true := by
      split at known
      · cases known
      · rename_i inBlock
        unfold throws
        rw [known, unread]
        simpa using inBlock
    rw [thrown]
    constructor
    · intro kept
      exact .inl ((put.unspent_iff indexed rfl absent).mp kept)
    · rintro (none | ⟨impossible, _⟩)
      · exact (put.unspent_iff indexed rfl absent).mpr none
      · cases impossible
  · rename_i reads
    have quiet : throws call wtxIn = false := by
      apply Bool.eq_false_iff.mpr
      intro thrown
      unfold throws at thrown
      simp only [Bool.and_eq_true, bne_iff_ne, Option.isNone_iff_eq_none] at thrown
      obtain ⟨⟨inBlock, known⟩, unread⟩ := thrown
      obtain ⟨blocktime, found⟩ := Option.isSome_iff_exists.mp known
      rw [if_neg inBlock] at reads
      exact reads blocktime found unread
    have placed := fun nTimeSmart => (put.set_again { receivedTx call wtxIn wallet.nOrderPosNext with
      nTimeSmart := nTimeSmart }).added_iff indexed rfl
        (List.mem_cons_self : wtxIn.tx ∈ wtxIn.tx :: added)
    rw [good_added, quiet]
    apply ((placed _).trans (addable _)).trans
    simp

theorem mergeWalletTx_tx (wtxIn wtx : CWalletTx) : (mergeWalletTx wtxIn wtx).1.tx = wtx.tx := by
  unfold mergeWalletTx
  dsimp only
  split <;> split <;> split <;> rfl

theorem live_good_iff (indexed : Indexed ctx.txHash ⟨wallet, added⟩) (call : WalletCall)
    (wtxIn : CWalletTx) :
    Good ctx.txHash (wtxIn.tx :: added) (addToWallet ctx.txHash call wtxIn false wallet) ↔
      MeetsLive ctx call wtxIn wallet := by
  unfold addToWallet MeetsLive
  rw [if_neg Bool.false_ne_true]
  cases found : wallet.mapWallet.find? (ctx.txHash wtxIn.tx) with
  | none =>
    rw [insertLive_good_iff indexed call found]
    simp
  | some wtx =>
    obtain ⟨known, own⟩ := indexed.entries _ wtx found
    have merged := mergeWalletTx_tx wtxIn wtx
    constructor
    · intro _ impossible
      cases impossible
    · intro _
      refine ⟨?_, by intro copy member; cases member⟩
      apply (@placed_set wallet _ (mergeWalletTx wtxIn wtx).1 wallet.nOrderPosNext).indexed indexed
      · rw [merged]
        exact own
      · rw [merged]
        exact List.mem_cons_of_mem _ known
      · rw [merged]
        unfold spentBy
        rw [found]

theorem erase_good_iff (indexed : Indexed ctx.txHash ⟨wallet, added⟩) (hash : Uint256) :
    Good ctx.txHash (addedAfter ctx (.eraseFromWallet hash) ⟨wallet, added⟩)
        (.returned true (eraseFromWallet hash wallet) []) ↔
      (wallet.fFileBacked = true → spentBy wallet.mapWallet hash = []) := by
  unfold addedAfter eraseFromWallet
  dsimp only
  by_cases backed : wallet.fFileBacked = true
  · rw [if_pos backed, if_pos backed]
    have spends : ∀ other, spentBy (wallet.mapWallet.erase hash) other =
        if other = hash then [] else spentBy wallet.mapWallet other := by
      intro other
      unfold spentBy
      by_cases here : other = hash
      · rw [if_pos here, here, find?_erase_same]
      · rw [if_neg here, find?_erase_other _ here]
    constructor
    · intro kept _
      apply List.eq_nil_iff_forall_not_mem.mpr
      intro outpoint member
      have positive := List.count_pos_iff.mpr member
      have counted := kept.1.spends outpoint hash
      rw [spends, if_pos rfl, List.count_nil] at counted
      have before := indexed.spends outpoint hash
      rw [counted] at before
      change 0 = (spentBy wallet.mapWallet hash).count outpoint at before
      omega
    · intro nothing
      refine ⟨⟨?_, ?_⟩, by intro copy member; cases member⟩
      · intro outpoint other
        rw [spends]
        have before := indexed.spends outpoint other
        rw [before]
        split
        · rename_i here
          rw [here, nothing backed]
        · rfl
      · intro other wtx found
        obtain ⟨different, standing⟩ := find?_erase_some found
        obtain ⟨known, own⟩ := indexed.entries other wtx standing
        refine ⟨List.mem_filter.mpr ⟨known, ?_⟩, own⟩
        rw [own]
        simpa using different
  · rw [if_neg backed, if_neg backed]
    constructor
    · intro _ impossible
      exact absurd impossible backed
    · intro _
      exact ⟨indexed, by intro copy member; cases member⟩

theorem walletTxOf_tx (tx : CTransaction) (pblock : Option CBlock) :
    (walletTxOf ctx.txHash ctx.blockHash ctx.hashPair tx pblock).tx = tx := by
  unfold walletTxOf
  cases pblock with
  | none => rfl
  | some block =>
    unfold setMerkleBranch
    dsimp only
    split <;> rfl

theorem outcome_good_iff (indexed : Indexed ctx.txHash history) (op : WalletOp) :
    Good ctx.txHash (addedAfter ctx op history) (outcome ctx op history.wallet) ↔
      Meets ctx op history := by
  cases op with
  | addToWallet call wtxIn fFromLoadWallet =>
    cases fFromLoadWallet with
    | true => exact load_good_iff indexed call wtxIn
    | false => exact live_good_iff indexed call wtxIn
  | addToWalletIfInvolvingMe call tx pblock fUpdate =>
    unfold outcome addedAfter Meets addToWalletIfInvolvingMe
    dsimp only
    cases involved : involvesMe ctx.txHash ctx.params ctx.isMine tx fUpdate history.wallet with
    | none =>
      constructor
      · intro _ impossible
        cases impossible
      · intro _
        exact indexed
    | some involves =>
      cases involves with
      | false =>
        constructor
        · intro _ impossible
          cases impossible
        · intro _
          exact ⟨indexed, by intro copy member; cases member⟩
      | true =>
        have live := live_good_iff indexed call
          (walletTxOf ctx.txHash ctx.blockHash ctx.hashPair tx pblock)
        rw [walletTxOf_tx] at live
        rw [if_pos rfl, live]
        simp
  | eraseFromWallet hash => exact erase_good_iff indexed hash

theorem step_iff (op : WalletOp) (indexed : Indexed ctx.txHash history) :
    (∃ next copies, step ctx op history = some (next, copies) ∧ Indexed ctx.txHash next ∧
      Within next.wallet copies) ↔ Meets ctx op history := by
  rw [← outcome_good_iff indexed op]
  unfold step
  cases outcome ctx op history.wallet with
  | returned ret wallet copies =>
    constructor
    · rintro ⟨_, _, same, good⟩
      cases same
      exact good
    · intro good
      exact ⟨_, _, rfl, good⟩
  | threw wallet =>
    constructor
    · rintro ⟨_, _, same, good, _⟩
      cases same
      exact good
    · intro good
      exact ⟨_, _, rfl, good, by intro copy member; cases member⟩
  | crashed =>
    constructor
    · rintro ⟨_, _, impossible, _⟩
      cases impossible
    · intro impossible
      exact impossible.elim

end Steps

def newWallet (nOrderPosNext : Int64) (fFileBacked : Bool) : History :=
  ⟨⟨∅, [], nOrderPosNext, fFileBacked⟩, []⟩

theorem newWallet_indexed {txHash : CTransaction → Uint256} (nOrderPosNext : Int64)
    (fFileBacked : Bool) : Indexed txHash (newWallet nOrderPosNext fFileBacked) :=
  ⟨fun _ _ => rfl, fun _ _ found => nomatch found⟩

/-- The index of spends is true all along a run of a wallet, and metadata is copied
    between its transactions only, if and only if every call of the run meets the
    condition. -/
theorem spend_index_iff (ctx : WalletContext) (nOrderPosNext : Int64) (fFileBacked : Bool)
    (ops : List WalletOp) :
    KeptAll (step ctx) (Indexed ctx.txHash) (fun next copies => Within next.wallet copies) ops
        (newWallet nOrderPosNext fFileBacked) ↔
      MeetsAll (step ctx) (Meets ctx) ops (newWallet nOrderPosNext fFileBacked) :=
  keptAll_iff (fun op _ indexed => step_iff op indexed)
    (newWallet_indexed nOrderPosNext fFileBacked) ops

def labelContext : WalletContext where
  txHash tx := BitVec.ofNat 256 tx.nLockTime.toNat
  blockHash _ := 0
  hashPair _ _ := 0
  params := mainParams
  isMine _ := 4

def plainCall : WalletCall := ⟨1600000000, fun _ => none, some [], true⟩

def conflicting (nLockTime : UInt32) : CWalletTx :=
  .ofTransaction ⟨1, [⟨⟨7, 0⟩, [], 0⟩], [], nLockTime⟩

def erasingRun : List WalletOp :=
  [.addToWallet plainCall (conflicting 1) false, .eraseFromWallet 1,
    .addToWallet plainCall (conflicting 2) false]

def runWallet : List WalletOp → History → Option History
  | [], history => some history
  | op :: later, history => (step labelContext op history).bind fun result => runWallet later result.1

/-- The erased transaction is still in the index, and the next one that spends the same
    output puts a default entry in its place. -/
theorem erased_spend_lingers :
    ¬ KeptAll (step labelContext) (Indexed labelContext.txHash)
        (fun next copies => Within next.wallet copies) erasingRun (newWallet 0 true) ∧
      (runWallet erasingRun (newWallet 0 true)).map
        (fun history => (history.wallet.mapWallet.find? 1).map CWalletTx.tx) =
        some (some ⟨1, [], [], 0⟩) := by
  refine ⟨?_, by decide⟩
  rintro ⟨_, first, _, added, _, _, second, _, erased, _, indexed, _⟩
  have counted : (runWallet (erasingRun.take 2) (newWallet 0 true)).map (fun history =>
      (history.wallet.mapTxSpends.count (⟨7, 0⟩, 1), spentBy history.wallet.mapWallet 1)) =
      some (1, []) := by decide
  have reached : runWallet (erasingRun.take 2) (newWallet 0 true) = some second := by
    unfold erasingRun
    simp only [List.take, runWallet]
    rw [added, Option.bind_some, erased]
    rfl
  rw [reached] at counted
  have lingers := indexed.spends ⟨7, 0⟩ 1
  obtain ⟨spends, entry⟩ := Prod.mk.inj (Option.some.inj counted)
  rw [spends, entry] at lingers
  cases lingers

end OxidSpendIndex
