import Oxid.DisconnectBlock

/-!
What one transaction's coins go through while a block is applied and taken back. Seen from a
single txid a block is a list of spends and creations.
-/
namespace OxidCoinTrips
open OxidPrimitives OxidCoins OxidDisconnectBlock

inductive CoinEvent where
  | spend (out : COutPoint)
  | create (coins : CCoins)

def settle (fresh : Bool) (below coins : CCoins) : CCoins :=
  if fresh = true ∧ coins.isPruned = true then below else coins.cleanup

def coinsTrip (fresh : Bool) (below : CCoins) : List CoinEvent → CCoins → Option CCoins
  | [], coins => some coins
  | .spend out :: events, coins =>
    match coins.spend out with
    | none => none
    | some (spent, undo) =>
      (coinsTrip fresh below events (settle fresh below spent)).map fun later =>
        settle fresh below (restoreCoins later out undo).1
  | .create coins :: events, _ =>
    (coinsTrip fresh below events (settle fresh below coins)).map fun _ =>
      settle fresh below CCoins.empty

def spentFirst : List CoinEvent → List Nat
  | .spend out :: events => out.n.toNat :: spentFirst events
  | _ => []

def created : List CoinEvent → Bool
  | [] => false
  | .spend _ :: events => created events
  | .create _ :: _ => true

def FullySpent (coins : CCoins) (events : List CoinEvent) : Prop :=
  ∀ n, coins.output n ≠ none → n ∈ spentFirst events

section Spend

theorem outputAt_set (vout : List CTxOut) (out : CTxOut) {n : Nat} (inside : n < vout.length)
    (m : Nat) :
    CCoins.outputAt (vout.set n out) m =
      if m = n then (if out.isNull then none else some out) else CCoins.outputAt vout m := by
  simp only [CCoins.outputAt]
  by_cases same : m = n
  · subst same
    rw [List.getElem?_set_self inside, if_pos rfl]
    cases null : out.isNull <;> simp [Option.filter, null]
  · rw [List.getElem?_set_ne (Ne.symm same), if_neg same]

theorem outputAt_padded (vout : List CTxOut) (count m : Nat) :
    CCoins.outputAt (vout ++ List.replicate count CTxOut.null) m = CCoins.outputAt vout m := by
  simp only [CCoins.outputAt]
  by_cases inside : m < vout.length
  · rw [List.getElem?_append_left inside]
  · rw [List.getElem?_append_right (by omega), List.getElem?_replicate,
      List.getElem?_eq_none (show vout.length ≤ m by omega)]
    split <;> rfl

theorem spend_cases {coins spent : CCoins} {out : COutPoint} {undo : CTxInUndo}
    (run : coins.spend out = some (spent, undo)) :
    coins.output out.n.toNat = some undo.txout ∧ undo.txout.isNull = false ∧
      (∀ m, spent.output m = if m = out.n.toNat then none else coins.output m) ∧
      CCoins.SameMetadata spent coins ∧ spent.Clean ∧
      (if spent.isPruned = true then
        undo.fCoinBase = coins.fCoinBase ∧ undo.nHeight = coins.nHeight.toUInt32 ∧
          undo.nVersion = coins.nVersion
      else undo.nHeight = 0) := by
  simp only [CCoins.spend] at run
  cases found : coins.vout[out.n.toNat]? with
  | none => simp [found] at run
  | some txout =>
    have inside : out.n.toNat < coins.vout.length := (List.getElem?_eq_some_iff.mp found).1
    cases null : txout.isNull with
    | true => simp [found, null] at run
    | false =>
      have before : coins.output out.n.toNat = some txout := by
        simp [CCoins.output, CCoins.outputAt, found, Option.filter, null]
      have outputs : ∀ m, ({ coins with vout := coins.vout.set out.n.toNat CTxOut.null }
          : CCoins).cleanup.output m = if m = out.n.toNat then none else coins.output m := by
        intro m
        rw [CCoins.output_cleanup]
        exact outputAt_set coins.vout CTxOut.null inside m
      have pruned := CCoins.clean_isPruned _
        (CCoins.clean_cleanup { coins with vout := coins.vout.set out.n.toNat CTxOut.null })
      simp only [found, null, Bool.false_eq_true, if_false] at run
      split at run
      · rename_i empty
        cases run
        refine ⟨before, null, outputs, ⟨rfl, rfl, rfl, rfl⟩, CCoins.clean_cleanup _, ?_⟩
        rw [if_pos (by rw [pruned, empty])]
        exact ⟨rfl, rfl, rfl⟩
      · rename_i rest
        cases run
        refine ⟨before, null, outputs, ⟨rfl, rfl, rfl, rfl⟩, CCoins.clean_cleanup _, ?_⟩
        rw [if_neg (by rw [pruned]; exact rest)]

theorem restoreCoins_output (coins : CCoins) (out : COutPoint) (undo : CTxInUndo)
    (present : undo.txout.isNull = false) (m : Nat) :
    (restoreCoins coins out undo).1.output m =
      if m = out.n.toNat then some undo.txout
      else if undo.nHeight ≠ 0 then none else coins.output m := by
  have resized : ∀ vout : List CTxOut, CCoins.outputAt
      ((if vout.length < out.n.toNat + 1 then
          vout ++ List.replicate (out.n.toNat + 1 - vout.length) CTxOut.null
        else vout).set out.n.toNat undo.txout) m =
      if m = out.n.toNat then some undo.txout else CCoins.outputAt vout m := by
    intro vout
    split
    · rw [outputAt_set _ undo.txout (by simp; omega), outputAt_padded, present]
      rfl
    · rw [outputAt_set _ undo.txout (by omega), present]
      rfl
  simp only [restoreCoins, CCoins.output, resized]
  split
  · rfl
  · split <;> rfl

theorem restoreCoins_metadata (coins : CCoins) (out : COutPoint) (undo : CTxInUndo) :
    CCoins.SameMetadata (restoreCoins coins out undo).1
      (if undo.nHeight ≠ 0 then
        ⟨undo.fCoinBase, false, [], undo.nHeight.toInt32, undo.nVersion⟩ else coins) := by
  simp only [restoreCoins]
  split <;> exact ⟨rfl, rfl, rfl, rfl⟩

end Spend

section Trip
variable {fresh : Bool} {below : CCoins}

theorem settle_output (sound : fresh = true → below.isPruned = true) (coins : CCoins) (n : Nat) :
    (settle fresh below coins).output n = coins.output n := by
  simp only [settle]
  split
  · rename_i dropped
    rw [(CCoins.isPruned_iff_output _).mp (sound dropped.1) n,
      (CCoins.isPruned_iff_output _).mp dropped.2 n]
  · exact CCoins.output_cleanup coins n

theorem settle_pruned (sound : fresh = true → below.isPruned = true) (coins : CCoins) :
    (settle fresh below coins).isPruned = coins.isPruned := by
  rw [Bool.eq_iff_iff, CCoins.isPruned_iff_output, CCoins.isPruned_iff_output]
  simp [settle_output sound]

theorem settle_unpruned {coins : CCoins} (unpruned : coins.isPruned = false) :
    settle fresh below coins = coins.cleanup := by
  rw [settle, if_neg (by simp [unpruned])]

variable {events : List CoinEvent} {coins final : CCoins} {recreated : Bool}

theorem pruned_trip (pruned : coins.isPruned = true)
    (run : coinsTrip fresh below events coins = some final) :
    spentFirst events = [] ∧ (created events = false → events = []) := by
  cases events with
  | nil => exact ⟨rfl, fun _ => rfl⟩
  | cons event events =>
    cases event with
    | create replaced => exact ⟨rfl, fun impossible => Bool.noConfusion impossible⟩
    | spend out =>
      simp only [coinsTrip] at run
      cases spending : coins.spend out with
      | none => simp [spending] at run
      | some result =>
        have present := (spend_cases spending).1
        rw [(CCoins.isPruned_iff_output coins).mp pruned] at present
        cases present

theorem coinsTrip_output (sound : fresh = true → below.isPruned = true)
    (run : coinsTrip fresh below events coins = some final) (n : Nat) :
    final.output n =
      if n ∈ spentFirst events ∨ created events = false then coins.output n else none := by
  induction events generalizing coins final with
  | nil =>
    cases run
    simp [created]
  | cons event events ih =>
    cases event with
    | create replaced =>
      simp only [coinsTrip, Option.map_eq_some_iff] at run
      obtain ⟨_, _, rfl⟩ := run
      rw [settle_output sound]
      simp [spentFirst, created]
    | spend out =>
      simp only [coinsTrip] at run
      cases spending : coins.spend out with
      | none => simp [spending] at run
      | some result =>
        obtain ⟨spent, undo⟩ := result
        simp only [spending, Option.map_eq_some_iff] at run
        obtain ⟨later, trip, rfl⟩ := run
        obtain ⟨before, present, outputs, _, _, record⟩ := spend_cases spending
        rw [settle_output sound, restoreCoins_output later out undo present]
        simp only [spentFirst, created, List.mem_cons]
        by_cases here : n = out.n.toNat
        · rw [if_pos here, if_pos (Or.inl (Or.inl here)), here, before]
        · have kept := ih trip
          rw [settle_output sound, outputs, if_neg here] at kept
          rw [if_neg here]
          by_cases last : spent.isPruned = true
          · have gone : coins.output n = none := by
              have nothing := (CCoins.isPruned_iff_output spent).mp last n
              rwa [outputs, if_neg here] at nothing
            have alsoGone : later.output n = none := by rw [kept, gone]; split <;> rfl
            rw [gone, alsoGone]
            split <;> split <;> rfl
          · rw [if_neg last] at record
            rw [record, if_neg (by simp), kept]
            simp [here]

/-- What an entry without outputs reads back as: dropped if fresh, cleared if the
    transaction was created again, else with the metadata it had. -/
def readBack (fresh : Bool) (below : CCoins) (recreated : Bool) (coins : CCoins) : CCoins :=
  if fresh then below else if recreated then CCoins.empty else coins

/-- The metadata a transaction ends up with once all its outputs were spent and
    restored: from the record if it carries a height, else what was read back. -/
def restoredMetadata (fresh : Bool) (below : CCoins) (recreated : Bool) (coins : CCoins) : CCoins :=
  if coins.nHeight ≠ 0 then { coins with fCoinStake := false }
  else readBack fresh below recreated coins

theorem readBack_congr {a b : CCoins} (same : CCoins.SameMetadata a b) :
    CCoins.SameMetadata (readBack fresh below recreated a) (readBack fresh below recreated b) := by
  cases fresh with
  | true => exact CCoins.sameMetadata_refl _
  | false =>
    cases recreated with
    | true => exact CCoins.sameMetadata_refl _
    | false => exact same

theorem restoredMetadata_congr {a b : CCoins} (same : CCoins.SameMetadata a b) :
    CCoins.SameMetadata (restoredMetadata fresh below recreated a)
      (restoredMetadata fresh below recreated b) := by
  simp only [restoredMetadata, same.2.2.1]
  split
  · exact ⟨same.1, rfl, rfl, same.2.2.2⟩
  · exact readBack_congr same

theorem emptied_metadata (pruned : coins.isPruned = true)
    (run : coinsTrip fresh below events (settle fresh below coins) = some final)
    (nothingLeft : (settle fresh below coins).isPruned = true) :
    CCoins.SameMetadata final (readBack fresh below (created events) coins) := by
  cases events with
  | nil =>
    cases run
    cases fresh <;> simp [settle, pruned, created, readBack, CCoins.SameMetadata, CCoins.cleanup]
  | cons event events =>
    cases event with
    | spend out =>
      have impossible := (pruned_trip nothingLeft run).1
      simp [spentFirst] at impossible
    | create replaced =>
      simp only [coinsTrip, Option.map_eq_some_iff] at run
      obtain ⟨_, _, rfl⟩ := run
      cases fresh <;> simp [settle, created, readBack, CCoins.SameMetadata, CCoins.cleanup]

section FullySpent

variable {coins spent : CCoins} {out : COutPoint} {events : List CoinEvent}

theorem not_fullySpent (unpruned : coins.isPruned = false) (nothingFirst : spentFirst events = []) :
    ¬ FullySpent coins events := by
  intro full
  have nothing : ∀ n, coins.output n = none := by
    intro n
    by_contra present
    simpa [nothingFirst] using full n present
  rw [(CCoins.isPruned_iff_output coins).mpr nothing] at unpruned
  cases unpruned

theorem fullySpent_spend
    (outputs : ∀ m, spent.output m = if m = out.n.toNat then none else coins.output m) :
    FullySpent spent.cleanup events ↔ FullySpent coins (.spend out :: events) := by
  constructor
  · intro full n available
    by_cases here : n = out.n.toNat
    · simp [spentFirst, here]
    · refine List.mem_cons_of_mem _ (full n ?_)
      rwa [CCoins.output_cleanup, outputs, if_neg here]
  · intro full n available
    rw [CCoins.output_cleanup, outputs] at available
    split at available
    · exact False.elim (available rfl)
    · rename_i apart
      rcases List.mem_cons.mp (full n available) with here | later
      · exact False.elim (apart here)
      · exact later

theorem fullySpent_last
    (outputs : ∀ m, spent.output m = if m = out.n.toNat then none else coins.output m)
    (last : spent.isPruned = true) : FullySpent coins (.spend out :: events) := by
  intro n available
  have nothing := (CCoins.isPruned_iff_output spent).mp last n
  rw [outputs] at nothing
  split at nothing
  · rename_i here
    simp [spentFirst, here]
  · exact False.elim (available nothing)

end FullySpent

theorem coinsTrip_metadata (sound : fresh = true → below.isPruned = true)
    (unpruned : coins.isPruned = false) (run : coinsTrip fresh below events coins = some final) :
    (FullySpent coins events →
      CCoins.SameMetadata final (restoredMetadata fresh below (created events) coins)) ∧
    (¬ FullySpent coins events → created events = false → CCoins.SameMetadata final coins) := by
  induction events generalizing coins final with
  | nil =>
    cases run
    exact ⟨fun full => absurd full (not_fullySpent unpruned rfl),
      fun _ _ => CCoins.sameMetadata_refl _⟩
  | cons event events ih =>
    cases event with
    | create replaced =>
      exact ⟨fun full => absurd full (not_fullySpent unpruned rfl),
        fun _ absent => by simp [created] at absent⟩
    | spend out =>
      simp only [coinsTrip] at run
      cases spending : coins.spend out with
      | none => simp [spending] at run
      | some result =>
        obtain ⟨spent, undo⟩ := result
        simp only [spending, Option.map_eq_some_iff] at run
        obtain ⟨later, trip, rfl⟩ := run
        obtain ⟨before, present, outputs, carried, _, record⟩ := spend_cases spending
        have restored : (restoreCoins later out undo).1.isPruned = false := by
          rw [← Bool.not_eq_true, CCoins.isPruned_iff_output]
          intro nothing
          have here := nothing out.n.toNat
          rw [restoreCoins_output later out undo present, if_pos rfl] at here
          cases here
        rw [settle_unpruned restored]
        have metadata := restoreCoins_metadata later out undo
        cases last : spent.isPruned with
        | true =>
          rw [if_pos last] at record
          refine ⟨fun _ => ?_, fun partly => absurd (fullySpent_last outputs last) partly⟩
          refine CCoins.sameMetadata_trans metadata ?_
          by_cases height : coins.nHeight = 0
          · have noHeight : undo.nHeight = 0 := by rw [record.2.1, height]; rfl
            rw [if_neg (by simp [noHeight])]
            have emptied := emptied_metadata last trip (by rw [settle_pruned sound, last])
            refine CCoins.sameMetadata_trans emptied ?_
            rw [restoredMetadata, if_neg (by simp [height])]
            exact readBack_congr carried
          · have hasHeight : undo.nHeight ≠ 0 := by
              intro zero
              apply height
              have back := congrArg UInt32.toInt32 (record.2.1.symm.trans zero)
              simpa using back
            rw [if_pos hasHeight]
            simp only [restoredMetadata, if_pos height]
            exact ⟨record.1, rfl, by rw [record.2.1]; simp, record.2.2⟩
        | false =>
          rw [if_neg (by simp [last])] at record
          rw [if_neg (by simp [record])] at metadata
          rw [settle_unpruned last] at trip
          obtain ⟨whenFull, whenPartly⟩ := ih (by simpa using last) trip
          have carriedClean : CCoins.SameMetadata spent.cleanup coins := carried
          refine ⟨fun full => ?_, fun partly absent => ?_⟩
          · refine CCoins.sameMetadata_trans metadata ?_
            refine CCoins.sameMetadata_trans (whenFull ((fullySpent_spend outputs).mpr full)) ?_
            exact restoredMetadata_congr carriedClean
          · refine CCoins.sameMetadata_trans metadata ?_
            exact CCoins.sameMetadata_trans
              (whenPartly (fun full => partly ((fullySpent_spend outputs).mp full)) absent)
              carriedClean

end Trip

end OxidCoinTrips
