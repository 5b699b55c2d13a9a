import Oxid.ConnectedBlock
import Oxid.LedgerView

/-!
What `CheckBlock` establishes: every serial is revealed once in the block, only its first
transaction is a coinbase, and every transaction has inputs.
-/
namespace OxidCheckedBlock
open OxidPrimitives OxidZerocoin OxidChainParams OxidDisconnectBlock OxidNode OxidCheckBlock
open OxidConnectedBlock OxidLedgerView Attempt
open OxidBlockRoundTrip hiding blockEvents inputEvents

def blockSerials (machinery : Machinery) (txs : List CTransaction) : List Int :=
  txs.flatMap fun tx => (txSpends machinery tx).map CoinSpend.coinSerialNumber

section Serials

variable {machinery : Machinery} {node : Node} {zerocoinDB : CZerocoinDB}

def SpendsParse (machinery : Machinery) (vin : List CTxIn) : Prop :=
  ∀ txin ∈ vin, CScript.isZerocoinSpend txin.scriptSig = true →
    (machinery.zerocoin.txInToZerocoinSpend txin).isSome = true

theorem checkBlockSerials_ok {vin : List CTxIn} {seen serials : List Int}
    (checked : checkBlockSerials machinery vin seen = .ok serials) :
    serials = ((spendsOf machinery vin).map CoinSpend.coinSerialNumber).reverse ++ seen ∧
      SpendsParse machinery vin ∧ (seen.Nodup → serials.Nodup) := by
  induction vin generalizing seen with
  | nil =>
    cases checked
    exact ⟨rfl, nofun, id⟩
  | cons txin rest ih =>
    unfold checkBlockSerials at checked
    split at checked
    · rename_i marked
      simp only [bind_ok, require_ok, exists_const] at checked
      obtain ⟨spend, parsed, unseen, later⟩ := checked
      obtain ⟨listed, parses, distinct⟩ := ih later
      have taken := txInToZerocoinSpend_ok parsed
      rw [spendsOf_take machinery rest marked taken]
      refine ⟨by simp [listed], ?_, ?_⟩
      · intro other member marked'
        rcases List.mem_cons.mp member with here | there
        · rw [here, taken]
          rfl
        · exact parses other there marked'
      · intro nodup
        refine distinct (List.nodup_cons.mpr ⟨?_, nodup⟩)
        simpa using unseen
    · rename_i plain
      obtain ⟨listed, parses, distinct⟩ := ih checked
      rw [spendsOf_skip machinery rest (by simpa using plain)]
      refine ⟨listed, ?_, distinct⟩
      intro other member marked
      rcases List.mem_cons.mp member with here | there
      · rw [here] at marked
        exact absurd marked plain
      · exact parses other there marked

theorem checkTransactions_ok {fZerocoinActive : Bool} {txs : List CTransaction}
    {seen serials : List Int}
    (checked : checkTransactions machinery node zerocoinDB fZerocoinActive txs seen =
      .ok serials) :
    serials = (blockSerials machinery txs).reverse ++ seen ∧ (seen.Nodup → serials.Nodup) ∧
      ∀ tx ∈ txs, tx.vin ≠ [] ∧ (tx.isZerocoinSpend = true → SpendsParse machinery tx.vin) := by
  induction txs generalizing seen with
  | nil =>
    cases checked
    exact ⟨rfl, id, nofun⟩
  | cons tx rest ih =>
    unfold checkTransactions at checked
    simp only [bind_ok] at checked
    obtain ⟨_, transaction, next, serialsChecked, later⟩ := checked
    obtain ⟨listed, distinct, others⟩ := ih later
    have spends : spendsOf machinery (if tx.isZerocoinSpend = true then tx.vin else []) =
        txSpends machinery tx := by
      unfold txSpends
      split
      · rfl
      · rfl
    obtain ⟨first, parses, firstDistinct⟩ := checkBlockSerials_ok serialsChecked
    rw [spends] at first
    refine ⟨?_, fun nodup => distinct (firstDistinct nodup), ?_⟩
    · rw [listed, first]
      simp [blockSerials]
    · intro other member
      rcases List.mem_cons.mp member with here | there
      · subst here
        constructor
        · unfold checkTransaction at transaction
          simp only [bind_ok, require_ok, exists_const] at transaction
          simpa using transaction.1
        · intro kind
          rwa [if_pos kind] at parses
      · exact others other there

structure Checked (machinery : Machinery) (txs : List CTransaction) : Prop where
  serials : (blockSerials machinery txs).Nodup
  coinbase : txs.head?.any CTransaction.isCoinBase = true
  others : ∀ tx ∈ txs.drop 1, tx.isCoinBase = false
  inputs : ∀ tx ∈ txs, tx.vin ≠ []
  parses : ∀ tx ∈ txs, tx.isZerocoinSpend = true → SpendsParse machinery tx.vin

theorem checkBlock_checked {block : CBlock} {fCheckMerkleRoot : Bool}
    (checked : checkBlock machinery node zerocoinDB block fCheckMerkleRoot = .ok ()) :
    Checked machinery block.vtx := by
  unfold checkBlock at checked
  simp only [bind_ok, require_ok, exists_const] at checked
  obtain ⟨_, _, _, _, _, _, coinbase, single, _, _, _, _, _, _, serials, transactions, _⟩ :=
    checked
  obtain ⟨listed, distinct, each⟩ := checkTransactions_ok transactions
  constructor
  · have nodup := distinct List.nodup_nil
    rw [listed, List.append_nil, List.nodup_reverse] at nodup
    exact nodup
  · exact coinbase
  · intro tx member
    have plain := List.all_eq_true.mp single tx member
    simpa using plain
  · exact fun tx member => (each tx member).1
  · exact fun tx member => (each tx member).2

end Serials

section Once

variable {machinery : Machinery} {txs : List CTransaction} {tx : CTransaction}

theorem txSpends_nonempty (kind : tx.isZerocoinSpend = true) (parses : SpendsParse machinery tx.vin)
    : txSpends machinery tx ≠ [] := by
  unfold txSpends
  rw [if_pos kind]
  unfold CTransaction.isZerocoinSpend at kind
  split at kind
  · cases kind
  · rename_i first rest shape
    simp only [Bool.and_eq_true] at kind
    have parsed := parses first (by simp [shape]) kind.2
    obtain ⟨spend, found⟩ := Option.isSome_iff_exists.mp parsed
    rw [shape, spendsOf_take machinery rest kind.2 found]
    simp

theorem count_le_serials {serial : Int}
    (reveals : serial ∈ (txSpends machinery tx).map CoinSpend.coinSerialNumber) :
    txs.count tx ≤ (blockSerials machinery txs).count serial := by
  induction txs with
  | nil => simp
  | cons first rest ih =>
    unfold blockSerials at ih ⊢
    rw [List.flatMap_cons, List.count_append]
    by_cases same : first = tx
    · subst same
      have once := List.one_le_count_iff.mpr reveals
      rw [List.count_cons_self]
      omega
    · rw [List.count_cons_of_ne same]
      omega

theorem checked_once (checked : Checked machinery txs) (member : tx ∈ txs)
    (nothing : inputsSpent tx = []) : txs.count tx ≤ 1 := by
  by_cases kind : tx.isZerocoinSpend = true
  · obtain ⟨spend, revealed⟩ := List.exists_mem_of_ne_nil _
      (txSpends_nonempty kind (checked.parses tx member kind))
    have within : txs.count tx ≤ (blockSerials machinery txs).count spend.coinSerialNumber :=
      count_le_serials (List.mem_map_of_mem revealed)
    have single := List.nodup_iff_count_le_one.mp checked.serials spend.coinSerialNumber
    omega
  · have coinbase : tx.isCoinBase = true := by
      by_contra ordinary
      have spending : spendsInputs tx = true := by
        rw [Bool.not_eq_true] at ordinary kind
        simp [spendsInputs, ordinary, kind]
      unfold inputsSpent at nothing
      rw [if_pos spending] at nothing
      exact checked.inputs tx member nothing
    have others := checked.others
    cases txs with
    | nil => simp
    | cons first rest =>
      have absent : rest.count tx = 0 := by
        rw [List.count_eq_zero]
        intro there
        have plain := others tx (by simpa using there)
        rw [coinbase] at plain
        cases plain
      rw [List.count_cons, absent]
      split
      · omega
      · omega

theorem checked_unrepeated {L : CoinLedger} (checked : Checked machinery txs)
    (collisionFree : ∀ tx ∈ txs, ∀ other ∈ txs,
      machinery.txHash tx = machinery.txHash other → tx = other)
    (unspent : ∀ tx ∈ txs, L (machinery.txHash tx) = OutputLedger.Slot.empty)
    (finds : FindsInputs machinery.txHash txs L) : Unrepeated machinery.txHash txs L :=
  ⟨unspent, collisionFree, fun _ member spendless => checked_once checked member spendless, finds⟩

end Once

end OxidCheckedBlock
