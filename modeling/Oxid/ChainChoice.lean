import Oxid.BlockTree

/-!
What the search for the best chain may count on, and what it keeps while it runs: the order
of the candidates, the failure flags, and that the candidates cover every branch that could
still become the active one.
-/
namespace OxidChainChoice
open OxidPrimitives OxidChainParams OxidNode OxidBlockTree Attempt

/-- What `ConnectTip` finds when it reads a block back and connects it. -/
inductive Verdict where
  | accepted
  | rejected
  | corrupt
  | broken
deriving DecidableEq, Repr

def refusalVerdict : Failure → Verdict
  | .refused state =>
    if state.isInvalid then if state.corruptionPossible then .corrupt else .rejected
    else .broken
  | _ => .broken

def blockAnswer (work : BlockWork) (pindex : Branch) : Except Failure Unit :=
  match loadBlock work pindex none with
  | .error failure => .error failure
  | .ok block => work.connectBlock block pindex false

def blockVerdict (work : BlockWork) (pindex : Branch) : Verdict :=
  match blockAnswer work pindex with
  | .ok _ => .accepted
  | .error failure => refusalVerdict failure

def branchVerdict (work : BlockWork) : Branch → Verdict
  | [] => .accepted
  | hash :: pprev =>
    match branchVerdict work pprev with
    | .accepted => blockVerdict work (hash :: pprev)
    | other => other

structure Whole (tree : BlockTree) (pindex : Branch) : Prop where
  known : pindex ∈ tree.mapBlockIndex
  haveData : ∀ below, below ≠ [] → below <:+ pindex → (tree.entry below).nStatus.haveData = true
  unfailed : ∀ below, below ≠ [] → below <:+ pindex → (tree.entry below).nStatus.failed = false

structure Sound (work : BlockWork) (tree : BlockTree) (pindex : Branch) : Prop where
  whole : Whole tree pindex
  connects : branchVerdict work pindex = .accepted

structure Spared (work : BlockWork) (tree : BlockTree) (pindex : Branch) : Prop where
  whole : Whole tree pindex
  unrejected : branchVerdict work pindex ≠ .rejected

/-- The tree between calls, as `CheckBlockIndex` asserts it. -/
structure TreeReady (work : BlockWork) (tree : BlockTree) : Prop where
  notNull : [] ∉ tree.mapBlockIndex
  parentKnown : ∀ hash pprev, hash :: pprev ∈ tree.mapBlockIndex → pprev ≠ [] →
    pprev ∈ tree.mapBlockIndex
  oneGenesis : ∀ a ∈ tree.mapBlockIndex, ∀ b ∈ tree.mapBlockIndex, a.tail = [] → b.tail = [] →
    a = b
  addresses : ∀ a ∈ tree.mapBlockIndex, ∀ b ∈ tree.mapBlockIndex,
    tree.address a = tree.address b → a = b
  activeSound : tree.chainActive = [] ∨ Sound work tree tree.chainActive
  candidateKnown : ∀ pindex ∈ tree.setBlockIndexCandidates, pindex ∈ tree.mapBlockIndex
  candidateLinked : ∀ pindex ∈ tree.setBlockIndexCandidates, ∀ below, below ≠ [] →
    below <:+ pindex → (tree.entry below).nChainTx ≠ 0 ∨ below.tail = []
  complete : ∀ pindex, Whole tree pindex →
    tree.chainActive = [] ∨ tree.worse pindex tree.chainActive = false →
    pindex ∈ tree.setBlockIndexCandidates

section Order

theorem worse_iff (tree : BlockTree) (pa pb : Branch) :
    tree.worse pa pb = true ↔ (tree.entry pa).nChainWork < (tree.entry pb).nChainWork ∨
      ((tree.entry pa).nChainWork = (tree.entry pb).nChainWork ∧
        ((tree.entry pb).nSequenceId < (tree.entry pa).nSequenceId ∨
          ((tree.entry pb).nSequenceId = (tree.entry pa).nSequenceId ∧
            tree.address pb < tree.address pa))) := by
  unfold BlockTree.worse
  split_ifs <;> simp <;> omega

theorem worse_weak (tree : BlockTree) : FrontHeap.StrictWeak tree.worse where
  asymmetric := by
    intro a b less
    rw [Bool.eq_false_iff]
    intro back
    rw [worse_iff] at less back
    omega
  splits := by
    intro a b c less
    rw [worse_iff] at *
    rw [worse_iff]
    omega

variable {tree : BlockTree} {a b c : Branch}

theorem worse_trans (first : tree.worse a b = true) (second : tree.worse b c = true) :
    tree.worse a c = true := by
  rw [worse_iff] at *
  omega

theorem worse_irrefl (tree : BlockTree) (a : Branch) : tree.worse a a = false := by
  rw [Bool.eq_false_iff, ne_eq, worse_iff]
  omega

theorem worse_below (less : tree.worse a b = true) (most : tree.worse c b = false) :
    tree.worse c a = false := by
  rw [Bool.eq_false_iff] at *
  intro above
  exact most (worse_trans above less)

theorem worse_work {a b : Branch} (most : tree.worse a b = false) :
    (tree.entry b).nChainWork ≤ (tree.entry a).nChainWork := by
  rw [Bool.eq_false_iff, ne_eq, worse_iff] at most
  omega

theorem worse_total {work : BlockWork} (ready : TreeReady work tree) {a b : Branch}
    (knownA : a ∈ tree.mapBlockIndex) (knownB : b ∈ tree.mapBlockIndex)
    (left : tree.worse a b = false) (right : tree.worse b a = false) : a = b := by
  apply ready.addresses a knownA b knownB
  rw [Bool.eq_false_iff, ne_eq, worse_iff] at left right
  omega

end Order

section Branches

variable {work : BlockWork} {tree : BlockTree} {pindex below : Branch}

theorem suffix_known (ready : TreeReady work tree) (known : pindex ∈ tree.mapBlockIndex)
    (notNull : below ≠ []) (suffix : below <:+ pindex) :
    below ∈ tree.mapBlockIndex := by
  induction pindex with
  | nil => exact absurd (List.suffix_nil.mp suffix) notNull
  | cons hash pprev ih =>
    rcases List.suffix_cons_iff.mp suffix with same | inside
    · rw [same]
      exact known
    · have parent : pprev ≠ [] := by
        intro null
        rw [null] at inside
        exact notNull (List.suffix_nil.mp inside)
      exact ih (ready.parentKnown hash pprev known parent) inside

theorem whole_below (ready : TreeReady work tree) (whole : Whole tree pindex) (notNull : below ≠ [])
    (suffix : below <:+ pindex) :
    Whole tree below where
  known := suffix_known ready whole.known notNull suffix
  haveData := fun other otherNotNull inside =>
    whole.haveData other otherNotNull (inside.trans suffix)
  unfailed := fun other otherNotNull inside =>
    whole.unfailed other otherNotNull (inside.trans suffix)

theorem branchVerdict_above (suffix : below <:+ pindex)
    (stopped : branchVerdict work below ≠ .accepted) :
    branchVerdict work pindex = branchVerdict work below := by
  induction pindex with
  | nil => rw [List.suffix_nil.mp suffix]
  | cons hash pprev ih =>
    rcases List.suffix_cons_iff.mp suffix with same | inside
    · rw [same]
    · have earlier := ih inside
      rw [branchVerdict, earlier]
      split
      · rename_i accepted
        exact absurd accepted stopped
      · rfl

theorem sound_below (ready : TreeReady work tree) (sound : Sound work tree pindex)
    (notNull : below ≠ []) (suffix : below <:+ pindex) :
    Sound work tree below where
  whole := whole_below ready sound.whole notNull suffix
  connects := by
    by_contra stopped
    have above := branchVerdict_above suffix stopped
    rw [sound.connects] at above
    exact stopped above.symm

theorem spared_below (ready : TreeReady work tree) (spared : Spared work tree pindex)
    (notNull : below ≠ []) (suffix : below <:+ pindex) :
    Spared work tree below where
  whole := whole_below ready spared.whole notNull suffix
  unrejected := by
    intro rejected
    have stopped : branchVerdict work below ≠ .accepted := by
      rw [rejected]
      nofun
    exact spared.unrejected ((branchVerdict_above suffix stopped).trans rejected)

theorem sound_spared {pindex : Branch} (sound : Sound work tree pindex) :
    Spared work tree pindex where
  whole := sound.whole
  unrejected := by
    rw [sound.connects]
    nofun

end Branches

structure Follows (first tree : BlockTree) : Prop where
  known : tree.mapBlockIndex = first.mapBlockIndex
  address : tree.address = first.address
  same : ∀ pindex,
    { tree.entry pindex with nStatus := (first.entry pindex).nStatus } = first.entry pindex
  haveData : ∀ pindex,
    (tree.entry pindex).nStatus.haveData = (first.entry pindex).nStatus.haveData
  marks : ∀ pindex, (first.entry pindex).nStatus.failed = true →
    (tree.entry pindex).nStatus.failed = true

structure Running (work : BlockWork) (first tree : BlockTree) : Prop extends
    Follows first tree where
  spares : ∀ pindex, Spared work first pindex → (tree.entry pindex).nStatus.failed = false
  active : tree.chainActive = [] ∨ Sound work first tree.chainActive
  candidate : ∀ pindex ∈ tree.setBlockIndexCandidates, pindex ∈ first.setBlockIndexCandidates
  covered : ∀ pindex, Spared work first pindex → pindex ∈ tree.setBlockIndexCandidates ∨
    ∃ better, Sound work first better ∧ better ∈ tree.setBlockIndexCandidates ∧
      first.worse pindex better = true

section Follow

variable {first tree next : BlockTree}

theorem follows_refl (tree : BlockTree) : Follows tree tree where
  known := rfl
  address := rfl
  same := fun _ => rfl
  haveData := fun _ => rfl
  marks := fun _ failed => failed

theorem follows_work (follows : Follows first tree) (pindex : Branch) :
    (tree.entry pindex).nChainWork = (first.entry pindex).nChainWork := by
  have same := congrArg (fun entry => entry.nChainWork) (follows.same pindex)
  exact same

theorem follows_trans (early : Follows first tree) (late : Follows tree next) :
    Follows first next where
  known := late.known.trans early.known
  address := late.address.trans early.address
  same := by
    intro pindex
    have one := early.same pindex
    have two := late.same pindex
    rw [← one, ← two]
  haveData := fun pindex => (late.haveData pindex).trans (early.haveData pindex)
  marks := fun pindex failed => late.marks pindex (early.marks pindex failed)

theorem follows_worse (follows : Follows first tree) : tree.worse = first.worse := by
  funext pa pb
  have sequence : ∀ pindex,
      (tree.entry pindex).nSequenceId = (first.entry pindex).nSequenceId := by
    intro pindex
    have same := congrArg (fun entry => entry.nSequenceId) (follows.same pindex)
    exact same
  have chainWork := follows_work follows
  unfold BlockTree.worse
  simp only [chainWork, sequence, follows.address]

theorem follows_setStatus (tree : BlockTree) (pindex : Branch)
    (change : BlockStatus → BlockStatus)
    (kept : ∀ status, (change status).haveData = status.haveData)
    (marked : ∀ status, (change status).failed = true) :
    Follows tree (tree.setStatus pindex change) where
  known := rfl
  address := rfl
  same := by
    intro other
    unfold BlockTree.setStatus
    by_cases here : other = pindex
    · subst here
      simp
    · simp [here]
  haveData := by
    intro other
    unfold BlockTree.setStatus
    by_cases here : other = pindex
    · subst here
      simp [kept]
    · simp [here]
  marks := by
    intro other failed
    unfold BlockTree.setStatus
    by_cases here : other = pindex
    · subst here
      simp [marked]
    · simpa [here] using failed

theorem follows_failValid (tree : BlockTree) (pindex : Branch) :
    Follows tree (tree.failValid pindex) :=
  follows_setStatus tree pindex _ (fun _ => rfl) fun _ => by simp [BlockStatus.failed]

theorem follows_failChild (tree : BlockTree) (pindex : Branch) :
    Follows tree (tree.failChild pindex) :=
  follows_setStatus tree pindex _ (fun _ => rfl) fun _ => by simp [BlockStatus.failed]

theorem follows_noteInvalid (tree : BlockTree) (pindex : Branch) :
    Follows tree (tree.noteInvalid pindex) := by
  unfold BlockTree.noteInvalid
  split_ifs
  · exact ⟨rfl, rfl, fun _ => rfl, fun _ => rfl, fun _ failed => failed⟩
  · exact follows_refl tree

@[simp] theorem noteInvalid_chainActive (tree : BlockTree) (pindex : Branch) :
    (tree.noteInvalid pindex).chainActive = tree.chainActive := by
  unfold BlockTree.noteInvalid
  split_ifs <;> rfl

@[simp] theorem noteInvalid_entry (tree : BlockTree) (pindex : Branch) :
    (tree.noteInvalid pindex).entry = tree.entry := by
  unfold BlockTree.noteInvalid
  split_ifs <;> rfl

@[simp] theorem noteInvalid_candidates (tree : BlockTree) (pindex : Branch) :
    (tree.noteInvalid pindex).setBlockIndexCandidates = tree.setBlockIndexCandidates := by
  unfold BlockTree.noteInvalid
  split_ifs <;> rfl

end Follow

section Steady

variable {work : BlockWork} {first tree : BlockTree} {pindex : Branch}

theorem running_start (ready : TreeReady work tree) : Running work tree tree where
  toFollows := follows_refl tree
  spares := by
    intro pindex spared
    have notNull : pindex ≠ [] := by
      intro null
      rw [null] at spared
      exact ready.notNull spared.whole.known
    exact spared.whole.unfailed pindex notNull (List.suffix_refl pindex)
  active := ready.activeSound
  candidate := fun _ member => member
  covered := by
    intro pindex spared
    rcases ready.activeSound with null | sound
    · exact Or.inl (ready.complete pindex spared.whole (Or.inl null))
    · by_cases worse : tree.worse pindex tree.chainActive = true
      · refine Or.inr ⟨tree.chainActive, sound, ?_, worse⟩
        exact ready.complete _ sound.whole (Or.inr (worse_irrefl tree _))
      · rw [Bool.not_eq_true] at worse
        exact Or.inl (ready.complete pindex spared.whole (Or.inr worse))

section
variable (running : Running work first tree)
include running

theorem running_active {tip : Branch} (sound : tip = [] ∨ Sound work first tip) :
    Running work first { tree with chainActive := tip } where
  toFollows := ⟨running.known, running.address, running.same, running.haveData, running.marks⟩
  spares := running.spares
  active := sound
  candidate := running.candidate
  covered := running.covered

theorem running_unlinked (unlinked : List (Branch × Branch)) :
    Running work first { tree with mapBlocksUnlinked := unlinked } where
  toFollows := ⟨running.known, running.address, running.same, running.haveData, running.marks⟩
  spares := running.spares
  active := running.active
  candidate := running.candidate
  covered := running.covered

theorem running_noteInvalid (pindex : Branch) : Running work first (tree.noteInvalid pindex) := by
  unfold BlockTree.noteInvalid
  split_ifs
  · exact ⟨⟨running.known, running.address, running.same, running.haveData, running.marks⟩,
      running.spares, running.active, running.candidate, running.covered⟩
  · exact running

theorem running_erase (doomed : ¬ Spared work first pindex) :
    Running work first (tree.eraseCandidate pindex) where
  toFollows := ⟨running.known, running.address, running.same, running.haveData, running.marks⟩
  spares := running.spares
  active := running.active
  candidate := by
    intro other member
    exact running.candidate other (List.mem_of_mem_filter member)
  covered := by
    have stays : ∀ other, Spared work first other → other ∈ tree.setBlockIndexCandidates →
        other ∈ (tree.eraseCandidate pindex).setBlockIndexCandidates := by
      intro other spared member
      refine List.mem_filter.mpr ⟨member, ?_⟩
      have apart : other ≠ pindex := by
        intro same
        rw [same] at spared
        exact doomed spared
      simpa using apart
    intro other spared
    rcases running.covered other spared with member | ⟨better, sound, member, worse⟩
    · exact Or.inl (stays other spared member)
    · exact Or.inr ⟨better, sound, stays better (sound_spared sound) member, worse⟩

theorem running_marked {marked : BlockTree} (follows : Follows tree marked)
    (elsewhere : ∀ other, other ≠ pindex →
      marked.entry other = tree.entry other) (active : marked.chainActive = tree.chainActive)
    (candidates : marked.setBlockIndexCandidates = tree.setBlockIndexCandidates)
    (doomed : ¬ Spared work first pindex) : Running work first marked where
  toFollows := follows_trans running.toFollows follows
  spares := by
    intro other spared
    have apart : other ≠ pindex := by
      intro same
      rw [same] at spared
      exact doomed spared
    rw [elsewhere other apart]
    exact running.spares other spared
  active := by
    rw [active]
    exact running.active
  candidate := by
    rw [candidates]
    exact running.candidate
  covered := by
    rw [candidates]
    exact running.covered

end

theorem setStatus_elsewhere (tree : BlockTree) (pindex : Branch)
    (change : BlockStatus → BlockStatus) (other : Branch) (apart : other ≠ pindex) :
    (tree.setStatus pindex change).entry other = tree.entry other := by
  unfold BlockTree.setStatus
  simp [apart]

theorem running_failValid (running : Running work first tree)
    (doomed : ¬ Spared work first pindex) : Running work first (tree.failValid pindex) :=
  running_marked running (follows_failValid tree pindex) (setStatus_elsewhere tree pindex _)
    rfl rfl doomed

theorem running_failChild (running : Running work first tree)
    (doomed : ¬ Spared work first pindex) : Running work first (tree.failChild pindex) :=
  running_marked running (follows_failChild tree pindex) (setStatus_elsewhere tree pindex _)
    rfl rfl doomed

def prunedTree (tree : BlockTree) : BlockTree :=
  { tree with
    setBlockIndexCandidates := tree.setBlockIndexCandidates.filter fun pindex =>
      !tree.worse pindex tree.chainActive }

theorem running_prune (running : Running work first tree)
    (sound : Sound work first tree.chainActive) : Running work first (prunedTree tree) where
  toFollows := ⟨running.known, running.address, running.same, running.haveData, running.marks⟩
  spares := running.spares
  active := running.active
  candidate := by
    intro other member
    exact running.candidate other (List.mem_of_mem_filter member)
  covered := by
    have order := follows_worse running.toFollows
    have stays : ∀ other, other ∈ tree.setBlockIndexCandidates →
        first.worse other tree.chainActive = false →
        other ∈ (prunedTree tree).setBlockIndexCandidates := by
      intro other member kept
      refine List.mem_filter.mpr ⟨member, ?_⟩
      rw [order, kept]
      rfl
    -- The tip or a sound block above it is left.
    have anchor : ∃ better, Sound work first better ∧
        better ∈ (prunedTree tree).setBlockIndexCandidates ∧
        (better = tree.chainActive ∨ first.worse tree.chainActive better = true) := by
      rcases running.covered _ (sound_spared sound) with member | ⟨better, good, member, worse⟩
      · exact ⟨_, sound, stays _ member (worse_irrefl first _), Or.inl rfl⟩
      · exact ⟨better, good, stays better member ((worse_weak first).asymmetric _ _ worse),
          Or.inr worse⟩
    have raised : ∀ other, first.worse other tree.chainActive = true →
        ∃ better, Sound work first better ∧
          better ∈ (prunedTree tree).setBlockIndexCandidates ∧
          first.worse other better = true := by
      intro other worse
      obtain ⟨better, good, member, same | above⟩ := anchor
      · refine ⟨better, good, member, ?_⟩
        rw [same]
        exact worse
      · exact ⟨better, good, member, worse_trans worse above⟩
    intro other spared
    rcases running.covered other spared with member | ⟨better, good, member, worse⟩
    · cases less : first.worse other tree.chainActive with
      | false => exact Or.inl (stays other member less)
      | true => exact Or.inr (raised other less)
    · cases less : first.worse better tree.chainActive with
      | false => exact Or.inr ⟨better, good, stays better member less, worse⟩
      | true => exact Or.inr (raised other (worse_trans worse less))

end Steady

def Usable (tree : BlockTree) (pindex : Branch) : Prop :=
  ∀ below, below ≠ [] → below <:+ pindex → below <:+ tree.chainActive ∨
    ((tree.entry below).nStatus.failed = false ∧ (tree.entry below).nStatus.haveData = true)

def RuledOut (tree : BlockTree) (pindex : Branch) : Prop :=
  (tree.entry pindex).nStatus.failed = true ∨ (tree.entry pindex).nStatus.haveData = false

structure Chosen (first tree : BlockTree) (pindex : Branch) : Prop where
  member : pindex ∈ tree.setBlockIndexCandidates
  most : ∀ other ∈ tree.setBlockIndexCandidates, first.worse pindex other = false
  usable : Usable tree pindex

section Finding

variable {work : BlockWork} {first tree : BlockTree} {pindex : Branch}

theorem findUnusable_ok (linked : ∀ below, below ≠ [] → below <:+ pindex →
      (tree.entry below).nChainTx ≠ 0 ∨ below.tail = []) :
    ∃ pindexTest, findUnusable tree pindex = .ok pindexTest ∧
      (pindexTest = [] → Usable tree pindex) ∧
      (pindexTest ≠ [] → pindexTest <:+ pindex ∧ RuledOut tree pindexTest) := by
  induction pindex with
  | nil =>
    refine ⟨[], rfl, ?_, fun notNull => absurd rfl notNull⟩
    intro _ below notNull suffix
    exact absurd (List.suffix_nil.mp suffix) notNull
  | cons hash pprev ih =>
    unfold findUnusable
    dsimp only
    split_ifs with active unlinked unusable
    · refine ⟨[], rfl, ?_, fun notNull => absurd rfl notNull⟩
      intro _ below _ suffix
      exact Or.inl (suffix.trans (List.isSuffixOf_iff_suffix.mp active))
    · exfalso
      rcases linked (hash :: pprev) (by simp) (List.suffix_refl _) with counted | root
      · exact counted unlinked.1
      · exact unlinked.2 root
    · refine ⟨hash :: pprev, rfl, nofun, ?_⟩
      intro _
      refine ⟨List.suffix_refl _, ?_⟩
      unfold RuledOut
      simpa using unusable
    · obtain ⟨pindexTest, found, clear, ruled⟩ := ih fun below notNull suffix =>
        linked below notNull (suffix.trans (List.suffix_cons hash pprev))
      refine ⟨pindexTest, found, ?_, ?_⟩
      · intro null below notNull suffix
        rcases List.suffix_cons_iff.mp suffix with same | inside
        · rw [same]
          exact Or.inr (by simpa using unusable)
        · exact clear null below notNull inside
      · intro notNull
        obtain ⟨suffix, out⟩ := ruled notNull
        exact ⟨suffix.trans (List.suffix_cons hash pprev), out⟩

variable {pindexTest : Branch}

theorem ruledOut_doomed (ready : TreeReady work first) (running : Running work first tree)
    (notNull : pindexTest ≠ []) (out : RuledOut tree pindexTest) {above : Branch}
    (suffix : pindexTest <:+ above) : ¬ Spared work first above := by
  intro spared
  have here := spared_below ready spared notNull suffix
  rcases out with failed | missing
  · rw [running.spares pindexTest here] at failed
    cases failed
  · rw [running.haveData, here.whole.haveData pindexTest notNull (List.suffix_refl _)] at missing
    cases missing

structure Searched (work : BlockWork) (first tree final : BlockTree) : Prop where
  running : Running work first final
  follows : Follows tree final
  active : final.chainActive = tree.chainActive

theorem searched_refl (running : Running work first tree) : Searched work first tree tree :=
  ⟨running, follows_refl tree, rfl⟩

theorem searched_trans {middle final : BlockTree} (early : Searched work first tree middle)
    (late : Searched work first middle final) : Searched work first tree final :=
  ⟨late.running, follows_trans early.follows late.follows, late.active.trans early.active⟩

theorem eraseCandidate_searched (running : Running work first tree)
    (doomed : ¬ Spared work first pindex) :
    Searched work first tree (tree.eraseCandidate pindex) :=
  ⟨running_erase running doomed,
    ⟨rfl, rfl, fun _ => rfl, fun _ => rfl, fun _ failed => failed⟩, rfl⟩

theorem removeChain_searched (fFailedChain : Bool) (suffix : pindexTest <:+ pindex)
    (notNull : pindexTest ≠ []) (running : Running work first tree)
    (doomed : ∀ above, pindexTest <:+ above → ¬ Spared work first above) :
    Searched work first tree (removeChain fFailedChain pindexTest pindex tree) ∧
      List.Sublist (removeChain fFailedChain pindexTest pindex tree).setBlockIndexCandidates
        (tree.setBlockIndexCandidates.filter fun other => other != pindex) := by
  induction pindex generalizing tree with
  | nil => exact absurd (List.suffix_nil.mp suffix) notNull
  | cons hash pprev ih =>
    unfold removeChain
    dsimp only
    split_ifs with here marking
    · rw [← here]
      exact ⟨eraseCandidate_searched running (doomed _ suffix), List.Sublist.refl _⟩
    · have inside : pindexTest <:+ pprev := by
        rcases List.suffix_cons_iff.mp suffix with same | inside
        · exact absurd same.symm here
        · exact inside
      have marked := running_failChild running (doomed _ suffix)
      have cleared := eraseCandidate_searched marked (doomed _ suffix)
      obtain ⟨later, fewer⟩ := ih inside cleared.running
      refine ⟨searched_trans ?_ (searched_trans cleared later), ?_⟩
      · exact ⟨marked, follows_failChild tree _, rfl⟩
      · exact fewer.trans List.filter_sublist
    · have inside : pindexTest <:+ pprev := by
        rcases List.suffix_cons_iff.mp suffix with same | inside
        · exact absurd same.symm here
        · exact inside
      have marked := running_unlinked running
        ((pprev, hash :: pprev) :: tree.mapBlocksUnlinked)
      have cleared := eraseCandidate_searched marked (doomed _ suffix)
      obtain ⟨later, fewer⟩ := ih inside cleared.running
      refine ⟨searched_trans ?_ (searched_trans cleared later), ?_⟩
      · exact ⟨marked, ⟨rfl, rfl, fun _ => rfl, fun _ => rfl, fun _ failed => failed⟩, rfl⟩
      · exact fewer.trans List.filter_sublist

theorem discardCandidate_searched (suffix : pindexTest <:+ pindex) (notNull : pindexTest ≠ [])
    (running : Running work first tree)
    (doomed : ∀ above, pindexTest <:+ above → ¬ Spared work first above) :
    Searched work first tree (discardCandidate pindex pindexTest tree) ∧
      List.Sublist (discardCandidate pindex pindexTest tree).setBlockIndexCandidates
        (tree.setBlockIndexCandidates.filter fun other => other != pindex) := by
  unfold discardCandidate
  dsimp only
  split_ifs with failed
  · have noted := running_noteInvalid running pindex
    obtain ⟨later, fewer⟩ := removeChain_searched
      ((tree.entry pindexTest).nStatus.failed) suffix notNull noted doomed
    rw [noteInvalid_candidates] at fewer
    refine ⟨searched_trans ⟨noted, follows_noteInvalid tree pindex, ?_⟩ later, fewer⟩
    exact noteInvalid_chainActive tree pindex
  · exact removeChain_searched _ suffix notNull running doomed

theorem bestCandidate_cases (tree : BlockTree) :
    tree.setBlockIndexCandidates = [] ∨
      (bestCandidate tree ∈ tree.setBlockIndexCandidates ∧
        ∀ other ∈ tree.setBlockIndexCandidates, tree.worse (bestCandidate tree) other = false) := by
  unfold bestCandidate
  cases selected : FrontHeap.selectFront tree.worse tree.setBlockIndexCandidates with
  | none => exact Or.inl (FrontHeap.selectFront_none selected)
  | some picked =>
    obtain ⟨front, rest⟩ := picked
    have same := FrontHeap.selectFront_perm selected
    have most := FrontHeap.selectFront_front (worse_weak tree) selected
    refine Or.inr ⟨same.subset (by simp), ?_⟩
    intro other member
    rcases List.mem_cons.mp (same.symm.subset member) with here | there
    · rw [here]
      exact worse_irrefl tree front
    · exact most other there

theorem findMostWorkFrom_yields (ready : TreeReady work first) (passes : Nat)
    (running : Running work first tree)
    (enough : tree.setBlockIndexCandidates.length ≤ passes) :
    Yields (findMostWorkFrom passes) tree (fun pindexNew final =>
      Searched work first tree final ∧
        ((pindexNew = [] ∧ final.setBlockIndexCandidates = []) ∨
          (pindexNew ≠ [] ∧ Chosen first final pindexNew))) False := by
  induction passes generalizing tree with
  | zero =>
    apply yields_pure
    exact ⟨searched_refl running, Or.inl ⟨rfl, List.length_eq_zero_iff.mp (by omega)⟩⟩
  | succ passes ih =>
    have noNull : [] ∉ tree.setBlockIndexCandidates := by
      intro member
      exact ready.notNull (ready.candidateKnown _ (running.candidate _ member))
    apply yields_bind
    apply yields_reading
    split_ifs with null
    · apply yields_pure
      refine ⟨searched_refl running, Or.inl ⟨rfl, ?_⟩⟩
      rcases bestCandidate_cases tree with empty | ⟨member, _⟩
      · exact empty
      · rw [null] at member
        exact absurd member noNull
    · rcases bestCandidate_cases tree with empty | ⟨member, most⟩
      · rw [bestCandidate, empty] at null
        exact absurd rfl null
      · have linked : ∀ below, below ≠ [] → below <:+ bestCandidate tree →
            (tree.entry below).nChainTx ≠ 0 ∨ below.tail = [] := by
          intro below notNull suffix
          have same := congrArg (fun entry => entry.nChainTx) (running.same below)
          rw [same]
          exact ready.candidateLinked _ (running.candidate _ member) below notNull suffix
        obtain ⟨pindexTest, found, clear, ruled⟩ := findUnusable_ok linked
        apply yields_bind
        apply yields_reading
        apply yields_bind
        apply yields_check
        · intro value checked
          rw [id, found] at checked
          cases checked
          split_ifs with usable
          · apply yields_pure
            refine ⟨searched_refl running, Or.inr ⟨null, member, ?_, clear usable⟩⟩
            rw [← follows_worse running.toFollows]
            exact most
          · obtain ⟨suffix, out⟩ := ruled usable
            obtain ⟨searched, fewer⟩ := discardCandidate_searched suffix usable running
              fun above inside => ruledOut_doomed ready running usable out inside
            apply yields_bind
            apply yields_update
            have shorter : (discardCandidate (bestCandidate tree) pindexTest
                tree).setBlockIndexCandidates.length ≤ passes := by
              have less := fewer.length_le
              have erased : (tree.setBlockIndexCandidates.filter fun other =>
                  other != bestCandidate tree).length < tree.setBlockIndexCandidates.length := by
                apply List.length_filter_lt_length_iff_exists.mpr
                exact ⟨bestCandidate tree, member, by simp⟩
              omega
            apply yields_weaken (ih searched.running shorter)
            · rintro pindexNew final ⟨later, ends⟩
              exact ⟨searched_trans searched later, ends⟩
            · exact id
        · intro failure stopped
          rw [id, found] at stopped
          cases stopped

theorem findMostWorkChain_yields (ready : TreeReady work first)
    (running : Running work first tree) :
    Yields findMostWorkChain tree (fun pindexNew final =>
      Searched work first tree final ∧
        ((pindexNew = [] ∧ final.setBlockIndexCandidates = []) ∨
          (pindexNew ≠ [] ∧ Chosen first final pindexNew))) False := by
  apply yields_bind
  apply yields_reading
  exact findMostWorkFrom_yields ready _ running (Nat.le_refl _)

theorem chosen_whole (ready : TreeReady work first) (running : Running work first tree)
    (chosen : Chosen first tree pindex) : Whole first pindex := by
  have known := ready.candidateKnown _ (running.candidate _ chosen.member)
  have each : ∀ below, below ≠ [] → below <:+ pindex →
      (first.entry below).nStatus.haveData = true ∧
        (first.entry below).nStatus.failed = false := by
    intro below notNull suffix
    rcases chosen.usable below notNull suffix with inside | ⟨unfailed, haveData⟩
    · rcases running.active with null | sound
      · rw [null] at inside
        exact absurd (List.suffix_nil.mp inside) notNull
      · exact ⟨sound.whole.haveData below notNull inside,
          sound.whole.unfailed below notNull inside⟩
    · rw [running.haveData] at haveData
      refine ⟨haveData, ?_⟩
      by_contra failed
      rw [Bool.not_eq_false] at failed
      rw [running.marks below failed] at unfailed
      cases unfailed
  exact ⟨known, fun below notNull suffix => (each below notNull suffix).1,
    fun below notNull suffix => (each below notNull suffix).2⟩

theorem chosen_best (running : Running work first tree) (chosen : Chosen first tree pindex)
    {other : Branch} (spared : Spared work first other) : first.worse pindex other = false := by
  rcases running.covered other spared with member | ⟨better, _, member, worse⟩
  · exact chosen.most other member
  · exact worse_below worse (chosen.most better member)

end Finding

end OxidChainChoice
