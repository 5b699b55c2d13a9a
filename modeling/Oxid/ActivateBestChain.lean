import Oxid.ChainChoice
import Mathlib.Data.Finset.Card

/-!
`ActivateBestChain` ends, and ends on the best branch that connects, unless the best branch
left is one whose block on disk is refused as possibly corrupt: that marks nothing, and the
next pass chooses it again.
-/
namespace OxidActivateBestChain
open OxidPrimitives OxidChainParams OxidNode OxidBlockTree OxidChainChoice Attempt Rounds

structure Sturdy (work : BlockWork) : Prop where
  disconnects : ∀ pindex, work.disconnectBlock pindex = .ok ()
  flushes : ∀ pindex, work.flushConnected pindex = .ok ()

def Excused (work : BlockWork) (first : BlockTree) (pindex : Branch) : Prop :=
  Sturdy work → branchVerdict work pindex = .broken ∨
    ∃ genesis ∈ first.mapBlockIndex, genesis.tail = [] ∧ blockVerdict work genesis = .rejected

section Ancestors

variable {pindex : Branch}

theorem getAncestor_suffix (pindex : Branch) (count : Nat) :
    getAncestor pindex count <:+ pindex := by
  unfold getAncestor
  split_ifs
  · exact List.nil_suffix
  · exact List.drop_suffix _ _

variable {count : Nat}

theorem getAncestor_length (within : count ≤ pindex.length) :
    (getAncestor pindex count).length = count := by
  unfold getAncestor
  rw [if_neg (by omega), List.length_drop]
  omega

theorem getAncestor_full (pindex : Branch) : getAncestor pindex pindex.length = pindex := by
  unfold getAncestor
  simp

theorem getAncestor_below {below : Branch} (suffix : below <:+ pindex) :
    getAncestor pindex below.length = below := by
  have same := getAncestor_length suffix.length_le
  have less : getAncestor pindex below.length <:+ below :=
    List.suffix_of_suffix_length_le (getAncestor_suffix pindex below.length) suffix (by omega)
  exact less.eq_of_length same

theorem getAncestor_tail (within : count < pindex.length) :
    (getAncestor pindex (count + 1)).tail = getAncestor pindex count := by
  unfold getAncestor
  rw [if_neg (by omega), if_neg (by omega), List.tail_drop]
  congr 1
  omega

theorem getAncestor_notNull (within : count < pindex.length) :
    getAncestor pindex (count + 1) ≠ [] := by
  intro null
  have same := getAncestor_length (Nat.succ_le_of_lt within)
  rw [null] at same
  simp at same

theorem findForkFrom_common (tree : BlockTree) (pindex : Branch) :
    findForkFrom tree pindex <:+ pindex ∧ findForkFrom tree pindex <:+ tree.chainActive ∧
      ∀ below, below <:+ pindex → below <:+ tree.chainActive →
        below.length ≤ (findForkFrom tree pindex).length := by
  induction pindex with
  | nil =>
    refine ⟨List.suffix_refl _, List.nil_suffix, ?_⟩
    intro below suffix _
    exact suffix.length_le
  | cons hash pprev ih =>
    unfold findForkFrom
    split_ifs with active
    · refine ⟨List.suffix_refl _, List.isSuffixOf_iff_suffix.mp active, ?_⟩
      intro below suffix _
      exact suffix.length_le
    · obtain ⟨inside, common, most⟩ := ih
      refine ⟨inside.trans (List.suffix_cons hash pprev), common, ?_⟩
      intro below suffix shared
      rcases List.suffix_cons_iff.mp suffix with same | deeper
      · rw [same] at shared
        exact absurd (List.isSuffixOf_iff_suffix.mpr shared) active
      · exact most below deeper shared

theorem findFork_common (tree : BlockTree) (pindex : Branch) :
    findFork tree pindex <:+ pindex ∧ findFork tree pindex <:+ tree.chainActive ∧
      ∀ below, below <:+ pindex → below <:+ tree.chainActive →
        below.length ≤ (findFork tree pindex).length := by
  unfold findFork
  split_ifs with longer
  · obtain ⟨inside, common, most⟩ := findForkFrom_common tree
      (getAncestor pindex tree.chainActive.length)
    have ancestor := getAncestor_suffix pindex tree.chainActive.length
    refine ⟨inside.trans ancestor, common, ?_⟩
    intro below suffix shared
    refine most below ?_ shared
    apply List.suffix_of_suffix_length_le suffix ancestor
    rw [getAncestor_length (by omega)]
    exact shared.length_le
  · exact findForkFrom_common tree pindex

end Ancestors

section Connecting

variable {work : BlockWork} {first tree : BlockTree} {pindex : Branch}

theorem disconnectLoop_yields {pindexFork : Branch} (suffix : pindexFork <:+ tree.chainActive)
    (shared : tree.chainActive = [] ∨ pindexFork ≠ []) :
    Yields (disconnectLoop work pindexFork tree.chainActive) tree
      (fun _ final => final = { tree with chainActive := pindexFork }) (¬ Sturdy work) := by
  induction active : tree.chainActive generalizing tree with
  | nil =>
    rw [active] at suffix
    have null := List.suffix_nil.mp suffix
    apply yields_pure
    rw [null, ← active]
  | cons hash pprev ih =>
    unfold disconnectLoop
    split_ifs with here
    · apply yields_pure
      rw [← here, ← active]
    · have inside : pindexFork <:+ pprev := by
        rw [active] at suffix
        rcases List.suffix_cons_iff.mp suffix with same | inside
        · exact absurd same.symm here
        · exact inside
      have notNull : pindexFork ≠ [] := by
        rcases shared with null | notNull
        · rw [active] at null
          cases null
        · exact notNull
      have left : pprev ≠ [] := by
        intro null
        rw [null] at inside
        exact notNull (List.suffix_nil.mp inside)
      apply yields_bind
      apply yields_bind
      apply yields_reading
      rw [active]
      apply yields_bind
      apply yields_require
      · intro _
        apply yields_bind
        apply yields_check
        · intro _ _
          apply yields_bind
          apply yields_update
          apply yields_require
          · intro _
            have later := @ih { tree with chainActive := pprev } inside (Or.inr notNull) rfl
            apply yields_weaken later
            · rintro _ final rfl
              rfl
            · exact id
          · intro null
            simp [left] at null
        · intro failure stopped sturdy
          rw [sturdy.disconnects] at stopped
          cases stopped
      · intro empty
        cases empty

/-- The block offered for an entry is the one on disk, and its check stands. -/
def Faithful (work : BlockWork) (pindex : Branch) (offer : OfferedBlock) : Prop :=
  ∀ block, offer.pblock = some block → work.readBlockFromDisk pindex = some block ∧
    work.connectBlock block pindex offer.fAlreadyChecked = work.connectBlock block pindex false

theorem connectTip_run {offer : OfferedBlock} (faithful : Faithful work pindex offer)
    (above : pindex.tail = tree.chainActive) :
    connectTip work pindex offer tree =
      match blockAnswer work pindex with
      | .error failure => connectRefused pindex failure tree
      | .ok _ => (do
          check (orAbort (work.flushConnected pindex))
          updateTip pindex : Activating Unit) tree := by
  unfold connectTip blockAnswer
  simp only [bind, EStateM.bind, reading, check, require, above, beq_self_eq_true, if_true]
  cases given : offer.pblock with
  | none =>
    cases loaded : loadBlock work pindex none with
    | error failure =>
      have abort : failure = .abort "Failed to read block" := by
        unfold loadBlock at loaded
        cases read : work.readBlockFromDisk pindex with
        | some block =>
          rw [read] at loaded
          cases loaded
        | none =>
          rw [read] at loaded
          cases loaded
          rfl
      rw [abort]
      rfl
    | ok block =>
      simp only [Option.isSome_none, Bool.false_and]
      cases work.connectBlock block pindex false with
      | error failure => rfl
      | ok value => rfl
  | some block =>
    obtain ⟨read, answers⟩ := faithful block given
    have loaded : loadBlock work pindex none = .ok block := by
      unfold loadBlock
      rw [read]
    rw [loaded]
    simp only [loadBlock, Option.isSome_some, Bool.true_and, answers]
    cases work.connectBlock block pindex false with
    | error failure => rfl
    | ok value => rfl

def rejectedTree (tree : BlockTree) (pindex : Branch) : BlockTree :=
  ((tree.failValid pindex).eraseCandidate pindex).noteInvalid pindex

theorem connectRefused_cases (pindex : Branch) (failure : Failure) (tree : BlockTree) :
    (refusalVerdict failure = .rejected ∧ tree.chainActive ≠ [] ∧
      connectRefused pindex failure tree = .error failure (rejectedTree tree pindex)) ∨
    (refusalVerdict failure = .rejected ∧ tree.chainActive = [] ∧
      ∃ final, connectRefused pindex failure tree = .error .crashed final) ∨
    (refusalVerdict failure = .corrupt ∧ connectRefused pindex failure tree = .error failure tree) ∨
    (refusalVerdict failure = .broken ∧
      connectRefused pindex failure tree = .error failure tree) := by
  cases failure with
  | thrown => exact Or.inr (Or.inr (Or.inr ⟨rfl, rfl⟩))
  | crashed => exact Or.inr (Or.inr (Or.inr ⟨rfl, rfl⟩))
  | refused state =>
    unfold refusalVerdict connectRefused invalidBlockFound
    dsimp only
    split_ifs with invalid corruption
    · exact Or.inr (Or.inr (Or.inl ⟨rfl, rfl⟩))
    · by_cases null : tree.chainActive = []
      · refine Or.inr (Or.inl ⟨rfl, null, rejectedTree tree pindex, ?_⟩)
        have tip : ((tree.failValid pindex).eraseCandidate pindex).chainActive = [] := null
        simp [invalidChainFound, bind, EStateM.bind, update, reading, check, require, tip,
          rejectedTree]
      · refine Or.inl ⟨rfl, null, ?_⟩
        have tip : ((tree.failValid pindex).eraseCandidate pindex).chainActive ≠ [] := null
        simp [invalidChainFound, bind, EStateM.bind, update, reading, check, require, failing,
          tip, rejectedTree]
    · exact Or.inr (Or.inr (Or.inr ⟨rfl, rfl⟩))

theorem branchVerdict_top (notNull : pindex ≠ []) (below : branchVerdict work pindex.tail = .accepted) :
    branchVerdict work pindex = blockVerdict work pindex := by
  cases pindex with
  | nil => exact absurd rfl notNull
  | cons hash pprev =>
    rw [List.tail_cons] at below
    rw [branchVerdict, below]

theorem active_accepted (running : Running work first tree) :
    branchVerdict work tree.chainActive = .accepted := by
  rcases running.active with null | sound
  · rw [null]
    rfl
  · exact sound.connects

/-- What a `ConnectTip` on the active chain leaves, completed or not. -/
inductive Connected (work : BlockWork) (first tree : BlockTree) (pindex : Branch) :
    Except Failure Unit → BlockTree → Prop where
  | accepted (sound : Sound work first pindex) :
      Connected work first tree pindex (.ok ()) { tree with chainActive := pindex }
  | rejected {failure : Failure} (refused : refusalVerdict failure = .rejected)
      (verdict : branchVerdict work pindex = .rejected) (tip : tree.chainActive ≠ []) :
      Connected work first tree pindex (.error failure) (rejectedTree tree pindex)
  | corrupt {failure : Failure} (refused : refusalVerdict failure = .corrupt)
      (verdict : branchVerdict work pindex = .corrupt) :
      Connected work first tree pindex (.error failure) tree
  | stopped {failure : Failure} {final : BlockTree} (refused : refusalVerdict failure = .broken)
      (excused : Excused work first pindex) : Connected work first tree pindex (.error failure) final

theorem connectTip_connected {offer : OfferedBlock} (faithful : Faithful work pindex offer)
    (running : Running work first tree) (whole : Whole first pindex) (notNull : pindex ≠ [])
    (above : pindex.tail = tree.chainActive) :
    Yields (attempt (connectTip work pindex offer)) tree (Connected work first tree pindex)
      False := by
  have below : branchVerdict work pindex.tail = .accepted := by
    rw [above]
    exact active_accepted running
  have top := branchVerdict_top notNull below
  have ran := connectTip_run faithful above
  unfold Yields attempt
  rw [ran]
  cases answer : blockAnswer work pindex with
  | error failure =>
    have verdict : branchVerdict work pindex = refusalVerdict failure := by
      rw [top, blockVerdict, answer]
    dsimp only
    rcases connectRefused_cases pindex failure tree with ⟨refused, tip, ends⟩ |
      ⟨refused, tip, final, ends⟩ | ⟨refused, ends⟩ | ⟨refused, ends⟩
    · rw [ends]
      exact .rejected refused (verdict.trans refused) tip
    · rw [ends]
      refine .stopped rfl fun _ => Or.inr ⟨pindex, whole.known, ?_, ?_⟩
      · rw [above, tip]
      · rw [← top, verdict, refused]
    · rw [ends]
      exact .corrupt refused (verdict.trans refused)
    · rw [ends]
      exact .stopped refused fun _ => Or.inl (verdict.trans refused)
  | ok value =>
    have verdict : branchVerdict work pindex = .accepted := by
      rw [top, blockVerdict, answer]
    simp only [bind, EStateM.bind, check, updateTip, update, require]
    cases flushed : work.flushConnected pindex with
    | error reason =>
      refine .stopped rfl fun sturdy => ?_
      rw [sturdy.flushes] at flushed
      cases flushed
    | ok done =>
      have some : pindex.isEmpty = false := by simpa using notNull
      simp only [some, Bool.not_false, if_true]
      exact .accepted ⟨whole, verdict⟩

end Connecting

section Stepping

variable {work : BlockWork} {first tree : BlockTree} {pindex : Branch}

theorem connected_excused {below : Branch} (suffix : below <:+ pindex)
    (excused : Excused work first below) : Excused work first pindex := by
  intro sturdy
  rcases excused sturdy with broken | genesis
  · left
    have stopped : branchVerdict work below ≠ .accepted := by
      rw [broken]
      nofun
    exact (branchVerdict_above suffix stopped).trans broken
  · exact Or.inr genesis

theorem rejectedTree_running (running : Running work first tree)
    (verdict : branchVerdict work pindex = .rejected) :
    Running work first (rejectedTree tree pindex) := by
  have doomed : ¬ Spared work first pindex := fun spared => spared.unrejected verdict
  exact running_noteInvalid
    (running_erase (running_failValid running doomed) doomed) pindex

theorem rejectedTree_follows (tree : BlockTree) (pindex : Branch) :
    Follows tree (rejectedTree tree pindex) := by
  have erased : Follows (tree.failValid pindex) ((tree.failValid pindex).eraseCandidate pindex) :=
    ⟨rfl, rfl, fun _ => rfl, fun _ => rfl, fun _ failed => failed⟩
  apply follows_trans (follows_trans (follows_failValid tree pindex) erased)
  exact follows_noteInvalid ((tree.failValid pindex).eraseCandidate pindex) pindex

theorem rejectedTree_failed (tree : BlockTree) (pindex : Branch) :
    ((rejectedTree tree pindex).entry pindex).nStatus.failed = true := by
  unfold rejectedTree
  simp [BlockTree.eraseCandidate, BlockTree.failValid, BlockTree.setStatus, BlockStatus.failed]

theorem pruneBlockIndexCandidates_yields (running : Running work first tree)
    (sound : Sound work first tree.chainActive) :
    Yields pruneBlockIndexCandidates tree (fun _ final => final = prunedTree tree) False := by
  apply yields_bind
  apply yields_update
  apply yields_bind
  apply yields_reading
  apply yields_require
  · intro _
    rfl
  · intro empty
    have pruned := running_prune running sound
    have none' : (prunedTree tree).setBlockIndexCandidates = [] := by
      unfold prunedTree
      simpa using empty
    rcases pruned.covered _ (sound_spared sound) with member | ⟨_, _, member, _⟩
    · rw [none'] at member
      cases member
    · rw [none'] at member
      cases member

theorem invalidChainFound_yields (tip : tree.chainActive ≠ []) (pindexBack : Branch) :
    Yields (invalidChainFound pindexBack) tree
      (fun _ final => final = tree.noteInvalid pindexBack) False := by
  apply yields_bind
  apply yields_update
  apply yields_bind
  apply yields_reading
  apply yields_require
  · intro _
    rfl
  · intro null
    simp [tip] at null

structure BatchResult (work : BlockWork) (first tree : BlockTree)
    (pindexOldTip pindexMostWork : Branch) (low high : Nat) (ended : BatchEnd)
    (final : BlockTree) : Prop where
  running : Running work first final
  follows : Follows tree final
  connected : ended = .connected → final.chainActive = getAncestor pindexMostWork high
  improved : ended = .improved → final.chainActive ≠ [] ∧ isImproved pindexOldTip final = true
  invalid : ended = .invalidFound → branchVerdict work pindexMostWork = .corrupt ∨
    ∃ count, low < count ∧ count ≤ high ∧
      (final.entry (getAncestor pindexMostWork count)).nStatus.failed = true

theorem batchRefused_yields {pindexOldTip pindexMostWork pindexBack : Branch} {count high : Nat}
    {failure : Failure} {final : BlockTree} (running : Running work first tree)
    (within : count < high)
    (connected : Connected work first tree (getAncestor pindexMostWork (count + 1))
      (.error failure) final) :
    Yields (batchRefused pindexBack failure) final
      (BatchResult work first tree pindexOldTip pindexMostWork count high)
      (Excused work first pindexMostWork) := by
  have suffix := getAncestor_suffix pindexMostWork (count + 1)
  cases connected with
  | rejected refused verdict tip =>
    cases failure with
    | thrown => cases refused
    | crashed => cases refused
    | refused state =>
      unfold refusalVerdict at refused
      dsimp only at refused
      split_ifs at refused with invalid corruption
      unfold batchRefused
      dsimp only
      rw [if_pos invalid, if_neg corruption]
      have left : (rejectedTree tree (getAncestor pindexMostWork (count + 1))).chainActive ≠ [] := by
        unfold rejectedTree
        rw [noteInvalid_chainActive]
        exact tip
      have failed := rejectedTree_failed tree (getAncestor pindexMostWork (count + 1))
      have rejected := rejectedTree_running running verdict
      have follows := rejectedTree_follows tree (getAncestor pindexMostWork (count + 1))
      apply yields_bind
      apply yields_weaken (invalidChainFound_yields left pindexBack)
      · rintro _ noted rfl
        apply yields_pure
        refine ⟨running_noteInvalid rejected pindexBack,
          follows_trans follows (follows_noteInvalid _ pindexBack), nofun, nofun, ?_⟩
        intro _
        refine Or.inr ⟨count + 1, by omega, by omega, ?_⟩
        rw [noteInvalid_entry]
        exact failed
      · exact False.elim
  | corrupt refused verdict =>
    cases failure with
    | thrown => cases refused
    | crashed => cases refused
    | refused state =>
      unfold refusalVerdict at refused
      dsimp only at refused
      split_ifs at refused with invalid corruption
      unfold batchRefused
      dsimp only
      rw [if_pos invalid, if_pos corruption]
      apply yields_pure
      refine ⟨running, follows_refl tree, nofun, nofun, ?_⟩
      intro _
      have stopped : branchVerdict work (getAncestor pindexMostWork (count + 1)) ≠ .accepted := by
        rw [verdict]
        nofun
      exact Or.inl ((branchVerdict_above suffix stopped).trans verdict)
  | stopped refused excused =>
    have reason := connected_excused suffix excused
    cases failure with
    | thrown => exact yields_failing reason
    | crashed => exact yields_failing reason
    | refused state =>
      unfold refusalVerdict at refused
      dsimp only at refused
      split_ifs at refused with invalid
      unfold batchRefused
      dsimp only
      rw [if_neg invalid]
      exact yields_failing reason

variable {offer : OfferedBlock} {pindexOldTip pindexMostWork : Branch}

theorem connectBatch_yields (ready : TreeReady work first)
    (faithful : Faithful work pindexMostWork offer) (whole : Whole first pindexMostWork)
    (pindexBack : Branch) (number : Nat) {count : Nat} (running : Running work first tree)
    (reached : tree.chainActive = getAncestor pindexMostWork count)
    (within : count + number ≤ pindexMostWork.length) :
    Yields (connectBatch work offer pindexOldTip pindexMostWork pindexBack
        ((List.range' (count + 1) number).map (getAncestor pindexMostWork))) tree
      (BatchResult work first tree pindexOldTip pindexMostWork count (count + number))
      (Excused work first pindexMostWork) := by
  induction number generalizing count tree with
  | zero =>
    apply yields_pure
    exact ⟨running, follows_refl tree, fun _ => reached, nofun, nofun⟩
  | succ number ih =>
    have notNull : getAncestor pindexMostWork (count + 1) ≠ [] := getAncestor_notNull (by omega)
    have here : Faithful work (getAncestor pindexMostWork (count + 1))
        ⟨if getAncestor pindexMostWork (count + 1) = pindexMostWork then offer.pblock else none,
          offer.fAlreadyChecked⟩ := by
      intro block given
      split_ifs at given with top
      rw [top]
      exact faithful block given
    have above : (getAncestor pindexMostWork (count + 1)).tail = tree.chainActive := by
      rw [reached]
      exact getAncestor_tail (by omega)
    have part := whole_below ready whole notNull (getAncestor_suffix pindexMostWork (count + 1))
    apply yields_bind
    apply yields_weaken (connectTip_connected here running part notNull above) _ False.elim
    intro rv middle connected
    cases rv with
    | error failure => exact batchRefused_yields running (by omega) connected
    | ok _ =>
      cases connected with
      | accepted sound =>
        have next := running_active running (Or.inr sound)
        apply yields_bind
        apply yields_weaken (pruneBlockIndexCandidates_yields next sound) _ False.elim
        rintro _ pruned rfl
        have kept := running_prune next sound
        have follows : Follows tree (prunedTree { tree with
            chainActive := getAncestor pindexMostWork (count + 1) }) :=
          ⟨rfl, rfl, fun _ => rfl, fun _ => rfl, fun _ failed => failed⟩
        apply yields_bind
        apply yields_reading
        split_ifs with better
        · apply yields_pure
          exact ⟨kept, follows, nofun, fun _ => ⟨notNull, better⟩, nofun⟩
        · apply yields_weaken (ih kept rfl (by omega)) _ id
          intro ended final result
          rw [show count + 1 + number = count + (number + 1) by omega] at result
          refine ⟨result.running, follows_trans follows result.follows, result.connected,
            result.improved, ?_⟩
          intro invalid
          rcases result.invalid invalid with corrupt | ⟨place, low, high, failed⟩
          · exact Or.inl corrupt
          · exact Or.inr ⟨place, by omega, high, failed⟩

structure StepResult (work : BlockWork) (first tree : BlockTree)
    (pindexOldTip pindexMostWork : Branch) (low : Nat) (final : BlockTree) : Prop where
  running : Running work first final
  follows : Follows tree final
  progress : final.chainActive = pindexMostWork ∨
    (final.chainActive ≠ [] ∧ isImproved pindexOldTip final = true) ∨
    branchVerdict work pindexMostWork = .corrupt ∨
    ∃ count, low < count ∧ count ≤ pindexMostWork.length ∧
      (final.entry (getAncestor pindexMostWork count)).nStatus.failed = true

theorem connectBatches_yields (ready : TreeReady work first)
    (faithful : Faithful work pindexMostWork offer) (whole : Whole first pindexMostWork)
    (passes : Nat) {count : Nat} (running : Running work first tree)
    (reached : tree.chainActive = getAncestor pindexMostWork count)
    (within : count ≤ pindexMostWork.length) (enough : pindexMostWork.length ≤ count + passes) :
    Yields (connectBatches work offer pindexOldTip pindexMostWork passes count) tree
      (fun _ => StepResult work first tree pindexOldTip pindexMostWork count)
      (Excused work first pindexMostWork) := by
  induction passes generalizing count tree with
  | zero =>
    apply yields_pure
    refine ⟨running, follows_refl tree, Or.inl ?_⟩
    rw [reached, show count = pindexMostWork.length by omega, getAncestor_full]
  | succ passes ih =>
    unfold connectBatches
    split_ifs with done
    · apply yields_pure
      refine ⟨running, follows_refl tree, Or.inl ?_⟩
      rw [reached, done, getAncestor_full]
    · have batch := @connectBatch_yields work first tree offer pindexOldTip pindexMostWork ready
        faithful whole (getAncestor pindexMostWork (count + 1))
        (min (count + 32) pindexMostWork.length - count) count running reached (by omega)
      rw [show count + (min (count + 32) pindexMostWork.length - count) =
        min (count + 32) pindexMostWork.length by omega] at batch
      apply yields_bind
      apply yields_weaken batch _ id
      intro ended middle result
      cases ended with
      | connected =>
        apply yields_weaken
          (ih result.running (result.connected rfl) (by omega) (by omega)) _ id
        intro _ final later
        refine ⟨later.running, follows_trans result.follows later.follows, ?_⟩
        rcases later.progress with top | better | corrupt | ⟨place, low, high, failed⟩
        · exact Or.inl top
        · exact Or.inr (Or.inl better)
        · exact Or.inr (Or.inr (Or.inl corrupt))
        · exact Or.inr (Or.inr (Or.inr ⟨place, by omega, high, failed⟩))
      | improved =>
        apply yields_pure
        exact ⟨result.running, result.follows, Or.inr (Or.inl (result.improved rfl))⟩
      | invalidFound =>
        apply yields_pure
        refine ⟨result.running, result.follows, ?_⟩
        rcases result.invalid rfl with corrupt | ⟨place, low, high, failed⟩
        · exact Or.inr (Or.inr (Or.inl corrupt))
        · exact Or.inr (Or.inr (Or.inr ⟨place, low, by omega, failed⟩))

theorem genesis_of (ready : TreeReady work first) {pindex : Branch}
    (known : pindex ∈ first.mapBlockIndex) (notNull : pindex ≠ []) :
    getAncestor pindex 1 ∈ first.mapBlockIndex ∧ (getAncestor pindex 1).tail = [] := by
  have some : 0 < pindex.length := List.length_pos_iff.mpr notNull
  have base : getAncestor pindex 1 ≠ [] := getAncestor_notNull some
  refine ⟨suffix_known ready known base (getAncestor_suffix pindex 1), ?_⟩
  rw [getAncestor_tail some]
  unfold getAncestor
  simp

/-- A step towards the chosen branch reaches it, betters the old tip, marks a new block of it, or
    meets a refusal that marks nothing. -/
theorem activateBestChainStep_yields (ready : TreeReady work first)
    (faithful : Faithful work pindexMostWork offer) (running : Running work first tree)
    (notNull : pindexMostWork ≠ []) (chosen : Chosen first tree pindexMostWork) :
    Yields (activateBestChainStep work pindexMostWork offer) tree (fun _ final =>
        Running work first final ∧ Follows tree final ∧
          (final.chainActive = pindexMostWork ∨
            (final.chainActive ≠ [] ∧ isImproved tree.chainActive final = true) ∨
            branchVerdict work pindexMostWork = .corrupt ∨
            ∃ below ∈ first.mapBlockIndex, (tree.entry below).nStatus.failed = false ∧
              (final.entry below).nStatus.failed = true))
      (Excused work first pindexMostWork) := by
  have whole := chosen_whole ready running chosen
  obtain ⟨inside, common, most⟩ := findFork_common tree pindexMostWork
  have shared : tree.chainActive = [] ∨ findFork tree pindexMostWork ≠ [] := by
    rcases running.active with null | sound
    · exact Or.inl null
    · by_cases null : tree.chainActive = []
      · exact Or.inl null
      · right
        intro apart
        obtain ⟨oldKnown, oldRoot⟩ := genesis_of ready sound.whole.known null
        obtain ⟨newKnown, newRoot⟩ := genesis_of ready whole.known notNull
        have same := ready.oneGenesis _ oldKnown _ newKnown oldRoot newRoot
        have longest := most (getAncestor pindexMostWork 1) (getAncestor_suffix _ _)
          (by rw [← same]; exact getAncestor_suffix _ _)
        rw [apart, getAncestor_length (List.length_pos_iff.mpr notNull)] at longest
        simp at longest
  apply yields_bind
  apply yields_reading
  apply yields_bind
  apply yields_reading
  apply yields_bind
  apply yields_weaken (disconnectLoop_yields common shared)
  · rintro _ lowered rfl
    have lower : findFork tree pindexMostWork = [] ∨
        Sound work first (findFork tree pindexMostWork) := by
      by_cases null : findFork tree pindexMostWork = []
      · exact Or.inl null
      · rcases running.active with bare | sound
        · rw [bare] at common
          exact Or.inl (List.suffix_nil.mp common)
        · exact Or.inr (sound_below ready sound null common)
    have connecting := @connectBatches_yields work first
      { tree with chainActive := findFork tree pindexMostWork } offer tree.chainActive
      pindexMostWork ready faithful whole pindexMostWork.length
      (findFork tree pindexMostWork).length (running_active running lower)
      (getAncestor_below inside).symm inside.length_le (by omega)
    apply yields_weaken connecting _ id
    intro _ final result
    have lowered := result.follows
    have follows : Follows tree final :=
      ⟨lowered.known, lowered.address, lowered.same, lowered.haveData, lowered.marks⟩
    refine ⟨result.running, follows, ?_⟩
    rcases result.progress with top | better | corrupt | ⟨count, low, high, failed⟩
    · exact Or.inl top
    · exact Or.inr (Or.inl better)
    · exact Or.inr (Or.inr (Or.inl corrupt))
    · right; right; right
      have some : getAncestor pindexMostWork count ≠ [] := by
        intro null
        have size := getAncestor_length high
        rw [null] at size
        simp at size
        omega
      have suffix := getAncestor_suffix pindexMostWork count
      refine ⟨_, suffix_known ready whole.known some suffix, ?_, failed⟩
      rcases chosen.usable _ some suffix with active | ⟨unfailed, _⟩
      · have longest := most _ suffix active
        rw [getAncestor_length high] at longest
        omega
      · exact unfailed
  · intro unsturdy sturdy
    exact absurd sturdy unsturdy

end Stepping

section Measure

variable {work : BlockWork} {first tree final : BlockTree}

def unmarked (first tree : BlockTree) : Nat :=
  (first.mapBlockIndex.toFinset.filter fun pindex =>
    (tree.entry pindex).nStatus.failed = false).card

def aboveTip (first tree : BlockTree) : Nat :=
  (first.mapBlockIndex.toFinset.filter fun pindex =>
    tree.chainActive = [] ∨
      (first.entry tree.chainActive).nChainWork < (first.entry pindex).nChainWork).card

def Nearer (first final tree : BlockTree) : Prop :=
  Prod.Lex (· < ·) (· < ·) (unmarked first final, aboveTip first final)
    (unmarked first tree, aboveTip first tree)

theorem nearer_founded (first : BlockTree) : WellFounded (Nearer first) :=
  InvImage.wf (fun tree => (unmarked first tree, aboveTip first tree))
    (WellFounded.prod_lex Nat.lt_wfRel.wf Nat.lt_wfRel.wf)

theorem unmarked_le (follows : Follows tree final) : unmarked first final ≤ unmarked first tree := by
  apply Finset.card_le_card
  intro pindex member
  rw [Finset.mem_filter] at member ⊢
  refine ⟨member.1, ?_⟩
  by_contra failed
  rw [Bool.not_eq_false] at failed
  rw [follows.marks pindex failed] at member
  cases member.2

theorem nearer_marked (follows : Follows tree final) {below : Branch}
    (known : below ∈ first.mapBlockIndex) (before : (tree.entry below).nStatus.failed = false)
    (after : (final.entry below).nStatus.failed = true) : Nearer first final tree := by
  apply Prod.Lex.left
  apply Finset.card_lt_card
  rw [Finset.ssubset_iff_of_subset]
  · refine ⟨below, ?_, ?_⟩
    · simpa [before] using known
    · simp [after]
  · intro pindex member
    rw [Finset.mem_filter] at member ⊢
    refine ⟨member.1, ?_⟩
    by_contra failed
    rw [Bool.not_eq_false] at failed
    rw [follows.marks pindex failed] at member
    cases member.2

theorem nearer_improved (running : Running work first final) (follows : Follows tree final)
    (reached : final.chainActive ≠ [])
    (improved : tree.chainActive = [] ∨
      (first.entry tree.chainActive).nChainWork < (first.entry final.chainActive).nChainWork) :
    Nearer first final tree := by
  have tip : final.chainActive ∈ first.mapBlockIndex := by
    rcases running.active with null | sound
    · exact absurd null reached
    · exact sound.whole.known
  have fewer : aboveTip first final < aboveTip first tree := by
    apply Finset.card_lt_card
    rw [Finset.ssubset_iff_of_subset]
    · refine ⟨final.chainActive, ?_, ?_⟩
      · rw [Finset.mem_filter, List.mem_toFinset]
        exact ⟨tip, improved⟩
      · simp [reached]
    · intro pindex member
      rw [Finset.mem_filter] at member ⊢
      refine ⟨member.1, ?_⟩
      rcases member.2 with null | more
      · exact absurd null reached
      · rcases improved with bare | less
        · exact Or.inl bare
        · exact Or.inr (less.trans more)
  rcases Nat.lt_or_eq_of_le (unmarked_le follows : unmarked first final ≤ _) with less | same
  · exact Prod.Lex.left _ _ less
  · unfold Nearer
    rw [same]
    exact Prod.Lex.right _ fewer

end Measure

def Stored (work : BlockWork) (offer : OfferedBlock) (tree : BlockTree) : Prop :=
  ∀ block pindex, offer.pblock = some block → pindex ∈ tree.mapBlockIndex →
    work.getHash block = (tree.entry pindex).hash →
    work.readBlockFromDisk pindex = some block ∧
      work.connectBlock block pindex offer.fAlreadyChecked = work.connectBlock block pindex false

def Foremost (work : BlockWork) (first : BlockTree) (pindex : Branch) : Prop :=
  ∀ other, Spared work first other → first.worse pindex other = false

def Leads (work : BlockWork) (first : BlockTree) (tip : Branch) : Prop :=
  (tip = [] ∧ ∀ other, ¬ Spared work first other) ∨
    (Sound work first tip ∧ Foremost work first tip)

section Looping

variable {work : BlockWork} {offer : OfferedBlock} {first tree : BlockTree}

theorem offerFor_faithful (running : Running work first tree) (stored : Stored work offer first)
    {pindexMostWork : Branch} (known : pindexMostWork ∈ first.mapBlockIndex) :
    Faithful work pindexMostWork (offerFor work tree pindexMostWork offer) := by
  intro block given
  unfold offerFor at given
  rw [Option.filter_eq_some_iff] at given
  have same := congrArg (fun entry => entry.hash) (running.same pindexMostWork)
  have hash : work.getHash block = (first.entry pindexMostWork).hash := by
    rw [← same]
    simpa using given.2
  exact stored block pindexMostWork given.1 known hash

theorem finishActivation_yields :
    Yields (finishActivation work) tree (fun _ final => final = tree) True := by
  apply yields_bind
  apply yields_reading
  apply yields_bind
  apply yields_check
  · intro _ _
    apply yields_check
    · intro _ _
      rfl
    · intro _ _
      trivial
  · intro _ _
    trivial

theorem ended_leads {pindexMostWork : Branch} (running : Running work first tree)
    (ends : (pindexMostWork = [] ∧ tree.setBlockIndexCandidates = []) ∨
      (pindexMostWork ≠ [] ∧ Chosen first tree pindexMostWork))
    (ended : pindexMostWork = [] ∨ pindexMostWork = tree.chainActive) :
    Leads work first tree.chainActive := by
  rcases ends with ⟨_, empty⟩ | ⟨notNull, chosen⟩
  · left
    have bare : ∀ other, ¬ Spared work first other := by
      intro other spared
      rcases running.covered other spared with member | ⟨_, _, member, _⟩
      · rw [empty] at member
        cases member
      · rw [empty] at member
        cases member
    rcases running.active with null | sound
    · exact ⟨null, bare⟩
    · exact absurd (sound_spared sound) (bare _)
  · right
    have top : pindexMostWork = tree.chainActive := by
      rcases ended with null | top
      · exact absurd null notNull
      · exact top
    rw [← top]
    refine ⟨?_, fun other spared => chosen_best running chosen spared⟩
    rcases running.active with null | sound
    · rw [null] at top
      exact absurd top notNull
    · rw [top]
      exact sound

theorem step_nearer {middle last : BlockTree} (searched : Searched work first tree middle)
    (steady : Running work first last) (follows : Follows middle last)
    (progress : (last.chainActive ≠ [] ∧ isImproved middle.chainActive last = true) ∨
      ∃ below ∈ first.mapBlockIndex, (middle.entry below).nStatus.failed = false ∧
        (last.entry below).nStatus.failed = true) : Nearer first last tree := by
  have onward := follows_trans searched.follows follows
  rcases progress with ⟨some, improved⟩ | ⟨below, known, before, after⟩
  · apply nearer_improved steady onward some
    unfold isImproved at improved
    rw [Bool.or_eq_true, List.isEmpty_iff, decide_eq_true_eq,
      follows_work steady.toFollows, follows_work steady.toFollows] at improved
    rw [← searched.active]
    exact improved
  · apply nearer_marked onward known _ after
    by_contra failed
    rw [Bool.not_eq_false] at failed
    rw [searched.follows.marks below failed] at before
    cases before

theorem activateRound_yields (ready : TreeReady work first) (stored : Stored work offer first)
    (running : Running work first tree) :
    Yields (activateRound work offer) tree (fun outcome final =>
        Running work first final ∧
          (outcome = some () → Leads work first final.chainActive) ∧
          (outcome = none → Nearer first final tree ∨
            ∃ pindex, Whole first pindex ∧ Foremost work first pindex ∧
              branchVerdict work pindex = .corrupt))
      (∃ pindex, Whole first pindex ∧ Foremost work first pindex ∧
        (Excused work first pindex ∨ Sound work first pindex)) := by
  apply yields_bind
  apply yields_weaken (findMostWorkChain_yields ready running) _ False.elim
  rintro pindexMostWork middle ⟨searched, ends⟩
  have kept := searched.running
  apply yields_bind
  apply yields_reading
  split_ifs with ended
  · apply yields_pure
    exact ⟨kept, fun _ => ended_leads kept ends ended, nofun⟩
  · rcases ends with ⟨null, _⟩ | ⟨notNull, chosen⟩
    · exact absurd (Or.inl null) ended
    · have whole := chosen_whole ready kept chosen
      have foremost : Foremost work first pindexMostWork :=
        fun other spared => chosen_best kept chosen spared
      have faithful := offerFor_faithful kept stored whole.known
      apply yields_bind
      apply yields_weaken (activateBestChainStep_yields ready faithful kept notNull chosen)
      · rintro _ last ⟨steady, follows, progress⟩
        apply yields_bind
        apply yields_reading
        split_ifs with top
        · have sound : Sound work first last.chainActive := by
            rcases steady.active with null | sound
            · rw [← top] at null
              exact absurd null notNull
            · exact sound
          apply yields_bind
          apply yields_weaken finishActivation_yields
          · rintro _ _ rfl
            apply yields_pure
            refine ⟨steady, fun _ => Or.inr ⟨sound, ?_⟩, nofun⟩
            rw [← top]
            exact foremost
          · intro _
            rw [← top] at sound
            exact ⟨pindexMostWork, whole, foremost, Or.inr sound⟩
        · apply yields_pure
          refine ⟨steady, nofun, fun _ => ?_⟩
          rcases progress with reached | better | corrupt | marked
          · exact absurd reached.symm top
          · exact Or.inl (step_nearer searched steady follows (Or.inl better))
          · exact Or.inr ⟨pindexMostWork, whole, foremost, corrupt⟩
          · exact Or.inl (step_nearer searched steady follows (Or.inr marked))
      · intro excused
        exact ⟨pindexMostWork, whole, foremost, Or.inl excused⟩

end Looping

/-- The best branch that is not cleanly rejected does not fall to a corrupt block. -/
def Intact (work : BlockWork) (tree : BlockTree) : Prop :=
  ∀ pindex, Whole tree pindex → branchVerdict work pindex = .corrupt →
    ∃ better, Whole tree better ∧
      (branchVerdict work better = .accepted ∨ branchVerdict work better = .broken) ∧
      tree.worse pindex better = true

/-- The active tip is a best one among the blocks whose whole branch has data and connects. -/
structure BestActive (work : BlockWork) (tree final : BlockTree) : Prop where
  sound : final.chainActive = [] ∨ Sound work tree final.chainActive
  best : ∀ pindex, Sound work tree pindex →
    final.chainActive ≠ [] ∧ tree.worse final.chainActive pindex = false
  noLess : tree.chainActive ≠ [] →
    (tree.entry tree.chainActive).nChainWork ≤ (tree.entry final.chainActive).nChainWork

structure Settles (work : BlockWork) (offer : OfferedBlock) (tree : BlockTree) : Prop where
  ends : ∃ bound, (activateBestChain work offer bound tree).isSome
  best : ∀ bound final, activateBestChain work offer bound tree = some (.ok () final) →
    BestActive work tree final

section Settling

variable {work : BlockWork} {offer : OfferedBlock} {tree : BlockTree}

theorem leads_best (ready : TreeReady work tree) {final : BlockTree}
    (leads : Leads work tree final.chainActive) : BestActive work tree final := by
  have best : ∀ pindex, Sound work tree pindex →
      final.chainActive ≠ [] ∧ tree.worse final.chainActive pindex = false := by
    intro pindex sound
    rcases leads with ⟨_, bare⟩ | ⟨tip, foremost⟩
    · exact absurd (sound_spared sound) (bare pindex)
    · refine ⟨?_, foremost pindex (sound_spared sound)⟩
      intro null
      rw [null] at tip
      exact ready.notNull tip.whole.known
  refine ⟨?_, best, ?_⟩
  · rcases leads with ⟨null, _⟩ | ⟨tip, _⟩
    · exact Or.inl null
    · exact Or.inr tip
  · intro some
    rcases ready.activeSound with null | sound
    · exact absurd null some
    · exact worse_work (best _ sound).2

section
variable (ready : TreeReady work tree) (stored : Stored work offer tree)
include ready stored

theorem settles_best (bound : Nat) (final : BlockTree)
    (returned : activateBestChain work offer bound tree = some (.ok () final)) :
    BestActive work tree final := by
  have kept : ∀ state next, Running work tree state →
      Completes (activateRound work offer) state none next → Running work tree next := by
    intro state next running ran
    exact (yields_completed (activateRound_yields ready stored running) ran).1
  obtain ⟨last, running, ran⟩ := rounds_returned kept (running_start ready) returned
  have result := yields_completed (activateRound_yields ready stored running) ran
  exact leads_best ready (result.2.1 rfl)

theorem intact_ends (intact : Intact work tree) :
    ∃ bound, (activateBestChain work offer bound tree).isSome := by
  apply rounds_ends (nearer_founded tree) _ (running_start ready)
  intro state next running ran
  have result := yields_completed (activateRound_yields ready stored running) ran
  refine ⟨result.1, ?_⟩
  rcases result.2.2 rfl with nearer | ⟨pindex, whole, foremost, corrupt⟩
  · exact nearer
  · obtain ⟨better, other, verdict, worse⟩ := intact pindex whole corrupt
    have spared : Spared work tree better := by
      refine ⟨other, ?_⟩
      rcases verdict with accepted | broken
      · rw [accepted]
        nofun
      · rw [broken]
        nofun
    rw [foremost better spared] at worse
    cases worse

theorem corrupt_again (sturdy : Sturdy work) {pindex : Branch} (whole : Whole tree pindex)
    (corrupt : branchVerdict work pindex = .corrupt)
    (ahead : ∀ better, Whole tree better →
      branchVerdict work better = .accepted ∨ branchVerdict work better = .broken →
      tree.worse pindex better = false) (state : BlockTree) (running : Running work tree state) :
    ∃ next, Completes (activateRound work offer) state none next ∧ Running work tree next := by
  have spared : Spared work tree pindex := by
    refine ⟨whole, ?_⟩
    rw [corrupt]
    nofun
  have unled : ∀ other, Whole tree other → Foremost work tree other →
      branchVerdict work other = .accepted ∨ branchVerdict work other = .broken → False := by
    intro other part foremost verdict
    have same := worse_total ready part.known whole.known (foremost pindex spared)
      (ahead other part verdict)
    rw [same, corrupt] at verdict
    rcases verdict with accepted | broken
    · cases accepted
    · cases broken
  have unexcused : ¬ ∃ other, Whole tree other ∧ Foremost work tree other ∧
      (Excused work tree other ∨ Sound work tree other) := by
    rintro ⟨other, part, foremost, excused | sound⟩
    · rcases excused sturdy with broken | ⟨genesis, known, root, rejected⟩
      · exact unled other part foremost (Or.inr broken)
      · have notNull : pindex ≠ [] := by
          intro null
          rw [null] at whole
          exact ready.notNull whole.known
        obtain ⟨ownKnown, ownRoot⟩ := genesis_of ready whole.known notNull
        have same := ready.oneGenesis _ ownKnown _ known ownRoot root
        have some : getAncestor pindex 1 ≠ [] :=
          getAncestor_notNull (List.length_pos_iff.mpr notNull)
        have below : branchVerdict work (getAncestor pindex 1) = .rejected := by
          rw [branchVerdict_top some (by rw [ownRoot]; rfl), same]
          exact rejected
        have above := branchVerdict_above (getAncestor_suffix pindex 1)
          (by rw [below]; nofun : branchVerdict work (getAncestor pindex 1) ≠ .accepted)
        rw [corrupt, below] at above
        cases above
    · exact unled other part foremost (Or.inl sound.connects)
  obtain ⟨outcome, final, ran, steady, led, _⟩ :=
    yields_unexcused (activateRound_yields ready stored running) unexcused
  cases outcome with
  | none => exact ⟨final, ran, steady⟩
  | some value =>
    rcases led rfl with ⟨_, bare⟩ | ⟨sound, foremost⟩
    · exact absurd spared (bare pindex)
    · exact (unled _ sound.whole foremost (Or.inl sound.connects)).elim

end

/-- An intact tree is enough for the call to end on a best tip. Where nothing else
    fails, it is also necessary. -/
theorem activateBestChain_settles (ready : TreeReady work tree)
    (stored : Stored work offer tree) :
    (Intact work tree → Settles work offer tree) ∧
      (Sturdy work → Settles work offer tree → Intact work tree) := by
  constructor
  · intro intact
    exact ⟨intact_ends ready stored intact, settles_best ready stored⟩
  · intro sturdy settles pindex whole corrupt
    by_contra beaten
    have ahead : ∀ better, Whole tree better →
        branchVerdict work better = .accepted ∨ branchVerdict work better = .broken →
        tree.worse pindex better = false := by
      intro better other verdict
      rw [Bool.eq_false_iff]
      intro worse
      exact beaten ⟨better, other, verdict, worse⟩
    obtain ⟨bound, ended⟩ := settles.ends
    have never : activateBestChain work offer bound tree = none :=
      rounds_never (corrupt_again ready stored sturdy whole corrupt ahead)
        (running_start ready) bound
    rw [never] at ended
    cases ended

end Settling

section Samples

def forkEntry (pindex : Branch) : CBlockIndex where
  hash := pindex.headD 0
  pprev := pindex.tail.head?
  nHeight := pindex.length - 1
  nVersion := 4
  nTime := 1540710000
  nBits := 0x1e0ffff0
  nAccumulatorCheckpoint := 0
  nChainWork := pindex.length
  nTx := 1
  nChainTx := pindex.length
  nStatus := ⟨BLOCK_VALID_TRANSACTIONS, true, false, false, false⟩
  nSequenceId := (pindex.headD 0).toNat
  nMint := 0
  nMoneySupply := 0
  mapZerocoinSupply _ := 0
  vMintDenominationsInBlock := []

def forkTree : BlockTree where
  mapBlockIndex := [[1], [2, 1], [3, 1], [4, 3, 1]]
  entry := forkEntry
  address pindex := (pindex.headD 0).toNat
  chainActive := [2, 1]
  setBlockIndexCandidates := [[2, 1], [4, 3, 1]]
  mapBlocksUnlinked := []
  pindexBestInvalid := []

def storedBlock : CBlock := ⟨⟨4, 1, 0, 1540710000, 0x1e0ffff0, 0, 0⟩, [], []⟩

def refusingTop (refusal : Failure) : BlockWork where
  getHash _ := 4
  readBlockFromDisk _ := some storedBlock
  connectBlock _ pindex _ := if pindex = [4, 3, 1] then .error refusal else .ok ()
  disconnectBlock _ := .ok ()
  flushConnected _ := .ok ()
  flushPeriodic _ := .ok ()
  checkBlockIndex _ := .ok ()

def noOffer : OfferedBlock := ⟨none, false⟩

theorem fork_whole (pindex : Branch) (known : pindex ∈ forkTree.mapBlockIndex) :
    Whole forkTree pindex where
  known := known
  haveData := fun _ _ _ => rfl
  unfailed := fun _ _ _ => rfl

theorem fork_ready (refusal : Failure) : TreeReady (refusingTop refusal) forkTree where
  notNull := by decide
  parentKnown := by
    intro hash pprev known
    have all : ∀ pindex ∈ forkTree.mapBlockIndex, pindex.tail ≠ [] →
        pindex.tail ∈ forkTree.mapBlockIndex := by decide
    exact all (hash :: pprev) known
  oneGenesis := by decide
  addresses := by decide
  activeSound := by
    right
    exact ⟨fork_whole _ (by decide), rfl⟩
  candidateKnown := by decide
  candidateLinked := by
    intro pindex _ below notNull _
    left
    change below.length ≠ 0
    simpa using notNull
  complete := by
    intro pindex whole ahead
    have known := whole.known
    have all : ∀ pindex ∈ forkTree.mapBlockIndex,
        forkTree.worse pindex forkTree.chainActive = false →
        pindex ∈ forkTree.setBlockIndexCandidates := by decide
    rcases ahead with null | ahead
    · cases null
    · exact all pindex known ahead

theorem fork_stored (refusal : Failure) : Stored (refusingTop refusal) noOffer forkTree :=
  nofun

theorem rejected_fork_settles :
    Settles (refusingTop (.dos 100 REJECT_INVALID "bad-cb-amount" false)) noOffer forkTree := by
  refine (activateBestChain_settles (fork_ready _) (fork_stored _)).1 ?_
  intro pindex whole corrupt
  have none' : ∀ pindex ∈ forkTree.mapBlockIndex,
      branchVerdict (refusingTop (.dos 100 REJECT_INVALID "bad-cb-amount" false)) pindex ≠
        .corrupt := by decide
  exact absurd corrupt (none' pindex whole.known)

example : (activateBestChain (refusingTop (.dos 100 REJECT_INVALID "bad-cb-amount" false))
    noOffer 2 forkTree).map (fun result => (endState result).chainActive) = some [2, 1] := by
  decide +kernel

/-- A top block whose transactions no longer match its merkle root keeps the call busy for ever.
    -/
theorem damaged_fork_never_ends (bound : Nat) :
    activateBestChain (refusingTop (.dos 100 REJECT_INVALID "bad-txnmrklroot" true)) noOffer bound
      forkTree = none := by
  have ready := fork_ready (.dos 100 REJECT_INVALID "bad-txnmrklroot" true)
  refine rounds_never (corrupt_again ready (fork_stored _) ⟨fun _ => rfl, fun _ => rfl⟩
    (fork_whole [4, 3, 1] (by decide)) rfl ?_) (running_start ready) bound
  intro better other _
  have all : ∀ pindex ∈ forkTree.mapBlockIndex, forkTree.worse [4, 3, 1] pindex = false := by
    decide
  exact all better other.known

theorem damaged_fork_unsettled :
    TreeReady (refusingTop (.dos 100 REJECT_INVALID "bad-txnmrklroot" true)) forkTree ∧
      Stored (refusingTop (.dos 100 REJECT_INVALID "bad-txnmrklroot" true)) noOffer forkTree ∧
      ¬ Settles (refusingTop (.dos 100 REJECT_INVALID "bad-txnmrklroot" true)) noOffer
        forkTree := by
  refine ⟨fork_ready _, fork_stored _, fun settles => ?_⟩
  obtain ⟨bound, ended⟩ := settles.ends
  rw [damaged_fork_never_ends bound] at ended
  cases ended

end Samples

end OxidActivateBestChain
