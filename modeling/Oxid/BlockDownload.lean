import Oxid.Masternode
import Oxid.OrphanTxs

/-!
The accounts of the blocks being downloaded. A peer's list names them in the order of the
requests, a map finds each by its hash, and two counters go with the lists. An iterator is a
number given to a list's node when it is made.
-/
namespace OxidBlockDownload
open OxidPrimitives OxidMapKeys OxidMasternode OxidOrphanTxs OrderedMaps OrderedMap

structure QueuedBlock where
  hash : Uint256
  pindex : Option Uint256
  nTime : Int
  nValidatedQueuedBefore : Int
  fValidatedHeaders : Bool

abbrev Iterator := Nat

structure CNodeState where
  address : CService
  name : String
  fCurrentlyConnected : Bool
  nMisbehavior : Int
  fSyncStarted : Bool
  nStallingSince : Int
  vBlocksInFlight : List (Iterator × QueuedBlock)
  nBlocksInFlight : Int
  fPreferredDownload : Bool

structure Download where
  mapNodeState : OrderedMap NodeId CNodeState
  mapBlocksInFlight : OrderedMap Uint256 (NodeId × Iterator)
  nQueuedValidatedHeaders : Int
  nSyncStarted : Int
  nPreferredDownload : Int
  orphans : OrphanPool
  /-- The number of list nodes made so far. -/
  nNodes : Nat

def Download.init : Download := ⟨∅, ∅, 0, 0, 0, .init, 0⟩

structure CNode where
  addr : CService
  addrName : String

def CNodeState.init : CNodeState := ⟨⟨⟨0⟩, 0⟩, "", false, 0, false, 0, [], 0, false⟩

namespace Download

def markBlockAsReceived (hash : Uint256) (node : Download) : Option Download :=
  match node.mapBlocksInFlight.find? hash with
  | none => some node
  | some (nodeid, it) =>
    match node.mapNodeState.find? nodeid with
    | none => none
    | some state =>
      match state.vBlocksInFlight.find? fun entry => entry.1 == it with
      | none => none
      | some (_, block) =>
        some { node with
          nQueuedValidatedHeaders := node.nQueuedValidatedHeaders - block.fValidatedHeaders.toNat
          mapNodeState := node.mapNodeState.set nodeid { state with
            vBlocksInFlight := state.vBlocksInFlight.eraseP fun entry => entry.1 == it
            nBlocksInFlight := state.nBlocksInFlight - 1
            nStallingSince := 0 }
          mapBlocksInFlight := node.mapBlocksInFlight.erase hash }

def queueBlock (nodeid : NodeId) (hash : Uint256) (pindex : Option Uint256) (nTimeMicros : Int)
    (node : Download) : Option Download :=
  match node.mapNodeState.find? nodeid with
  | none => none
  | some state =>
    let newentry : QueuedBlock :=
      ⟨hash, pindex, nTimeMicros, node.nQueuedValidatedHeaders, pindex.isSome⟩
    some { node with
      nQueuedValidatedHeaders :=
        node.nQueuedValidatedHeaders + newentry.fValidatedHeaders.toNat
      mapNodeState := node.mapNodeState.set nodeid { state with
        vBlocksInFlight := state.vBlocksInFlight ++ [(node.nNodes, newentry)]
        nBlocksInFlight := state.nBlocksInFlight + 1 }
      mapBlocksInFlight := node.mapBlocksInFlight.set hash (nodeid, node.nNodes)
      nNodes := node.nNodes + 1 }

def markBlockAsInFlight (nodeid : NodeId) (hash : Uint256) (pindex : Option Uint256)
    (nTimeMicros : Int) (node : Download) : Option Download :=
  if node.mapNodeState.count nodeid then
    (node.markBlockAsReceived hash).bind (queueBlock nodeid hash pindex nTimeMicros)
  else none

def named (pnode : CNode) (state : CNodeState) : CNodeState :=
  { state with name := pnode.addrName, address := pnode.addr }

def initializeNode (nodeid : NodeId) (pnode : CNode) (node : Download) : Download :=
  { node with
    mapNodeState := node.mapNodeState.edit nodeid fun standing =>
      named pnode (standing.getD .init) }

def eraseInFlight : List (Iterator × QueuedBlock) → OrderedMap Uint256 (NodeId × Iterator) →
    OrderedMap Uint256 (NodeId × Iterator)
  | [], mapBlocksInFlight => mapBlocksInFlight
  | (_, entry) :: rest, mapBlocksInFlight =>
    eraseInFlight rest (mapBlocksInFlight.erase entry.hash)

def finalizeNode (txHash : CTransaction → Uint256) (nodeid : NodeId) (node : Download) :
    Option Download :=
  match node.mapNodeState.find? nodeid with
  | none => none
  | some state =>
    some { node with
      nSyncStarted := node.nSyncStarted - state.fSyncStarted.toNat
      mapBlocksInFlight := eraseInFlight state.vBlocksInFlight node.mapBlocksInFlight
      orphans := node.orphans.eraseOrphansFor txHash nodeid
      nPreferredDownload := node.nPreferredDownload - state.fPreferredDownload.toNat
      mapNodeState := node.mapNodeState.erase nodeid }

end Download

inductive DownloadCall where
  | initializeNode (nodeid : NodeId) (pnode : CNode)
  | finalizeNode (nodeid : NodeId)
  | markBlockAsReceived (hash : Uint256)
  | markBlockAsInFlight (nodeid : NodeId) (hash : Uint256) (pindex : Option Uint256)
      (nTimeMicros : Int)

def validated (queue : List (Iterator × QueuedBlock)) : Int :=
  queue.countP fun entry => entry.2.fValidatedHeaders

namespace Download

section Runs

variable (txHash : CTransaction → Uint256)

def call (node : Download) : DownloadCall → Option Download
  | .initializeNode nodeid pnode => some (node.initializeNode nodeid pnode)
  | .finalizeNode nodeid => node.finalizeNode txHash nodeid
  | .markBlockAsReceived hash => node.markBlockAsReceived hash
  | .markBlockAsInFlight nodeid hash pindex nTimeMicros =>
    node.markBlockAsInFlight nodeid hash pindex nTimeMicros

def run : List DownloadCall → Download → Option Download
  | [], node => some node
  | first :: rest, node => (node.call txHash first).bind (run rest)

end Runs

def dropped (node : Download) : DownloadCall → Int
  | .finalizeNode nodeid =>
    (node.mapNodeState.find? nodeid).elim 0 fun state => validated state.vBlocksInFlight
  | .initializeNode _ _ => 0
  | .markBlockAsReceived _ => 0
  | .markBlockAsInFlight _ _ _ _ => 0

def NoneDropped (txHash : CTransaction → Uint256) : List DownloadCall → Download → Prop
  | [], _ => True
  | first :: rest, node =>
    node.dropped first = 0 ∧ ∀ next ∈ node.call txHash first, NoneDropped txHash rest next

def queued (node : Download) : Int :=
  node.mapNodeState.total fun state => validated state.vBlocksInFlight

/-- A list whose nodes are apart and whose length is kept with it. -/
structure Kept (nNodes : Nat) (state : CNodeState) : Prop where
  distinct : (state.vBlocksInFlight.map Prod.fst).Nodup
  counted : state.nBlocksInFlight = state.vBlocksInFlight.length
  made : ∀ entry ∈ state.vBlocksInFlight, entry.1 < nNodes

def Listed (mapNodeState : OrderedMap NodeId CNodeState) (nodeid : NodeId)
    (entry : Iterator × QueuedBlock) : Prop :=
  ∃ state, mapNodeState.find? nodeid = some state ∧ entry ∈ state.vBlocksInFlight

structure InFlight (node : Download) : Prop where
  mapped : ∀ hash nodeid it, node.mapBlocksInFlight.find? hash = some (nodeid, it) ↔
    ∃ block, Listed node.mapNodeState nodeid (it, block) ∧ block.hash = hash
  kept : ∀ nodeid state, node.mapNodeState.find? nodeid = some state → Kept node.nNodes state

def surplus (node : Download) : Int := node.nQueuedValidatedHeaders - node.queued

theorem init_inFlight : InFlight init := by
  constructor
  · intro hash nodeid it
    constructor
    · intro found
      cases found
    · rintro ⟨block, ⟨state, found, _⟩, _⟩
      cases found
  · intro nodeid state found
    cases found

variable {mapNodeState : OrderedMap NodeId CNodeState} {after : Download} {nodeid peer : NodeId}
variable {state : CNodeState} {nNodes : Nat}

theorem listed_set {entry : Iterator × QueuedBlock} :
    Listed (mapNodeState.set nodeid state) peer entry ↔
      (peer = nodeid ∧ entry ∈ state.vBlocksInFlight) ∨
        (peer ≠ nodeid ∧ Listed mapNodeState peer entry) := by
  unfold Listed
  rw [find?_set]
  split
  · rename_i own
    simp [own]
  · rename_i other
    simp [other]

theorem listed_erase {entry : Iterator × QueuedBlock} :
    Listed (mapNodeState.erase nodeid) peer entry ↔
      peer ≠ nodeid ∧ Listed mapNodeState peer entry := by
  unfold Listed
  by_cases own : peer = nodeid
  · rw [own, find?_erase_same]
    simp
  · rw [find?_erase_other _ own]
    simp [own]

theorem takeOut {Value : Type} {queue : List (Iterator × Value)} {it : Iterator} {value : Value}
    (distinct : (queue.map Prod.fst).Nodup) (member : (it, value) ∈ queue) :
    queue.find? (fun entry => entry.1 == it) = some (it, value) ∧
      queue.Perm ((it, value) :: queue.eraseP fun entry => entry.1 == it) := by
  induction queue with
  | nil => cases member
  | cons first rest ih =>
    rw [List.map_cons, List.nodup_cons] at distinct
    rcases List.mem_cons.mp member with here | later
    · subst here
      simp
    · have apart : first.1 ≠ it := fun same =>
        distinct.1 (List.mem_map.mpr ⟨(it, value), later, same.symm⟩)
      obtain ⟨found, split⟩ := ih distinct.2 later
      rw [List.find?_cons_of_neg (by simp [apart]), List.eraseP_cons_of_neg (by simp [apart])]
      exact ⟨found, (split.cons first).trans (List.Perm.swap _ _ _)⟩

theorem validated_cons (entry : Iterator × QueuedBlock) (queue : List (Iterator × QueuedBlock)) :
    validated (entry :: queue) = validated queue + entry.2.fValidatedHeaders.toNat := by
  unfold validated
  rw [List.countP_cons]
  cases entry.2.fValidatedHeaders <;> simp

theorem validated_perm {first second : List (Iterator × QueuedBlock)} (same : first.Perm second) :
    validated first = validated second := by
  unfold validated
  rw [same.countP_eq]

variable {node : Download}

structure Received (hash : Uint256) (node after : Download) : Prop where
  inFlight : InFlight after
  surplus : after.surplus = node.surplus
  gone : after.mapBlocksInFlight.find? hash = none
  peers : ∀ nodeid, after.mapNodeState.count nodeid = node.mapNodeState.count nodeid

theorem Kept.fewer {state less : CNodeState} {entry : Iterator × QueuedBlock}
    (kept : Kept nNodes state) (split : state.vBlocksInFlight.Perm (entry :: less.vBlocksInFlight))
    (counted : less.nBlocksInFlight = state.nBlocksInFlight - 1) :
    Kept nNodes less ∧ entry.1 ∉ less.vBlocksInFlight.map Prod.fst := by
  have keys := (split.map Prod.fst).nodup_iff.mp kept.distinct
  rw [List.map_cons, List.nodup_cons] at keys
  refine ⟨⟨keys.2, ?_, ?_⟩, keys.1⟩
  · have length := split.length_eq
    have before := kept.counted
    rw [List.length_cons] at length
    omega
  · intro other remains
    exact kept.made other (split.mem_iff.mpr (List.mem_cons_of_mem _ remains))

theorem Kept.queue {state more : CNodeState} {block : QueuedBlock} (kept : Kept nNodes state)
    (appended : more.vBlocksInFlight = state.vBlocksInFlight ++ [(nNodes, block)])
    (counted : more.nBlocksInFlight = state.nBlocksInFlight + 1) : Kept (nNodes + 1) more := by
  refine ⟨?_, ?_, ?_⟩
  · rw [appended, List.map_append, List.nodup_append]
    refine ⟨kept.distinct, List.nodup_singleton _, ?_⟩
    intro old inside new here
    obtain ⟨entry, standing, rfl⟩ := List.mem_map.mp inside
    rw [List.map_singleton, List.mem_singleton] at here
    have below := kept.made entry standing
    rw [here]
    exact Nat.ne_of_lt below
  · have before := kept.counted
    rw [appended, List.length_append, List.length_singleton]
    omega
  · intro entry inside
    rw [appended] at inside
    rcases List.mem_append.mp inside with old | new
    · exact Nat.lt_succ_of_lt (kept.made entry old)
    · rw [List.mem_singleton.mp new]
      exact Nat.lt_succ_self _

theorem Kept.later (kept : Kept nNodes state) :
    Kept (nNodes + 1) state :=
  ⟨kept.distinct, kept.counted, fun entry inside => Nat.lt_succ_of_lt (kept.made entry inside)⟩

theorem received (inFlight : InFlight node) (hash : Uint256) :
    ∃ after, node.markBlockAsReceived hash = some after ∧ Received hash node after := by
  unfold markBlockAsReceived
  cases flying : node.mapBlocksInFlight.find? hash with
  | none => exact ⟨node, rfl, inFlight, rfl, flying, fun _ => rfl⟩
  | some place =>
    obtain ⟨nodeid, it⟩ := place
    obtain ⟨block, ⟨state, standing, member⟩, same⟩ := (inFlight.mapped hash nodeid it).mp flying
    have kept := inFlight.kept nodeid state standing
    obtain ⟨found, split⟩ := takeOut kept.distinct member
    dsimp only
    rw [standing]
    dsimp only
    rw [found]
    generalize (state.vBlocksInFlight.eraseP fun entry => entry.1 == it) = rest at split
    obtain ⟨kept', gone⟩ := @Kept.fewer _ _ { state with
      vBlocksInFlight := rest, nBlocksInFlight := state.nBlocksInFlight - 1, nStallingSince := 0 } _
      kept split rfl
    refine ⟨_, rfl, ⟨?_, ?_⟩, ?_, ?_, ?_⟩
    · intro other peer at'
      simp only [listed_set]
      constructor
      · intro left
        obtain ⟨apart, before⟩ := find?_erase_some left
        obtain ⟨queued, listed, name⟩ := (inFlight.mapped other peer at').mp before
        refine ⟨queued, ?_, name⟩
        by_cases own : peer = nodeid
        · obtain ⟨state', standing', inside⟩ := listed
          rw [own, standing] at standing'
          cases standing'
          rcases List.mem_cons.mp (split.mem_iff.mp inside) with taken | remains
          · cases taken
            exact absurd (name.symm.trans same) apart
          · exact .inl ⟨own, remains⟩
        · exact .inr ⟨own, listed⟩
      · rintro ⟨queued, listed, name⟩
        have before : Listed node.mapNodeState peer (at', queued) := by
          rcases listed with ⟨own, remains⟩ | ⟨_, listed⟩
          · exact ⟨state, own ▸ standing, split.mem_iff.mpr (List.mem_cons_of_mem _ remains)⟩
          · exact listed
        have mapped := (inFlight.mapped other peer at').mpr ⟨queued, before, name⟩
        have apart : other ≠ hash := by
          intro alike
          rw [alike, flying] at mapped
          cases mapped
          rcases listed with ⟨_, remains⟩ | ⟨away, _⟩
          · exact gone (List.mem_map.mpr ⟨_, remains, rfl⟩)
          · exact away rfl
        rw [find?_erase_other _ apart]
        exact mapped
    · intro peer state' found'
      rcases find?_set_some found' with ⟨_, new⟩ | ⟨_, before⟩
      · exact new ▸ kept'
      · exact inFlight.kept peer state' before
    · unfold surplus queued
      rw [total_set _ _ standing, validated_perm split, validated_cons]
      dsimp only
      omega
    · exact find?_erase_same _ _
    · intro peer
      unfold OrderedMap.count
      rw [find?_set]
      split
      · rename_i own
        rw [own, standing]
        rfl
      · rfl

theorem queueBlock_keeps (inFlight : InFlight node) {nodeid : NodeId} {hash : Uint256}
    {pindex : Option Uint256} {nTimeMicros : Int} (free : node.mapBlocksInFlight.find? hash = none)
    (queues : node.queueBlock nodeid hash pindex nTimeMicros = some after) :
    InFlight after ∧ after.surplus = node.surplus := by
  unfold queueBlock at queues
  cases standing : node.mapNodeState.find? nodeid with
  | none =>
    rw [standing] at queues
    cases queues
  | some state =>
    rw [standing] at queues
    cases queues
    have kept := inFlight.kept nodeid state standing
    refine ⟨⟨?_, ?_⟩, ?_⟩
    · intro other peer at'
      simp only [listed_set]
      rw [find?_set]
      constructor
      · intro left
        split at left
        · rename_i own
          cases left
          exact ⟨_, .inl ⟨rfl, List.mem_append_right _ (List.mem_singleton_self _)⟩, own.symm⟩
        · obtain ⟨queued, listed, name⟩ := (inFlight.mapped other peer at').mp left
          refine ⟨queued, ?_, name⟩
          by_cases own : peer = nodeid
          · obtain ⟨state', standing', inside⟩ := listed
            rw [own, standing] at standing'
            cases standing'
            exact .inl ⟨own, List.mem_append_left _ inside⟩
          · exact .inr ⟨own, listed⟩
      · rintro ⟨queued, listed, name⟩
        have before (old : Listed node.mapNodeState peer (at', queued)) :
            (if other = hash then some (nodeid, node.nNodes)
              else node.mapBlocksInFlight.find? other) = some (peer, at') := by
          have mapped := (inFlight.mapped other peer at').mpr ⟨queued, old, name⟩
          have apart : other ≠ hash := by
            intro alike
            rw [alike, free] at mapped
            cases mapped
          rw [if_neg apart]
          exact mapped
        rcases listed with ⟨own, inside⟩ | ⟨_, listed⟩
        · rcases List.mem_append.mp inside with old | new
          · exact before ⟨state, own ▸ standing, old⟩
          · rw [List.mem_singleton] at new
            cases new
            rw [if_pos name.symm, own]
        · exact before listed
    · intro peer state' found'
      rcases find?_set_some found' with ⟨_, new⟩ | ⟨_, before⟩
      · subst new
        exact kept.queue rfl rfl
      · exact (inFlight.kept peer state' before).later
    · unfold surplus queued
      rw [total_set _ _ standing, validated_perm (List.perm_append_singleton _ _), validated_cons]
      dsimp only
      omega

theorem init_kept (nNodes : Nat) : Kept nNodes .init :=
  ⟨List.nodup_nil, rfl, fun _ member => absurd member List.not_mem_nil⟩

theorem kept_named (pnode : CNode) (kept : Kept nNodes state) :
    Kept nNodes (named pnode state) := ⟨kept.distinct, kept.counted, kept.made⟩

theorem listed_edit {pnode : CNode} {entry : Iterator × QueuedBlock} :
    Listed (mapNodeState.set nodeid (named pnode ((mapNodeState.find? nodeid).getD .init))) peer
      entry ↔ Listed mapNodeState peer entry := by
  have here : Listed mapNodeState nodeid entry ↔
      entry ∈ ((mapNodeState.find? nodeid).getD .init).vBlocksInFlight := by
    unfold Listed
    cases mapNodeState.find? nodeid with
    | none => simp [CNodeState.init]
    | some state => simp
  rw [listed_set]
  by_cases own : peer = nodeid
  · rw [own, here]
    simp [named]
  · simp [own]

theorem initializeNode_keeps (inFlight : InFlight node) (nodeid : NodeId) (pnode : CNode) :
    InFlight (node.initializeNode nodeid pnode) ∧
      (node.initializeNode nodeid pnode).surplus = node.surplus := by
  unfold initializeNode surplus queued
  rw [edit_eq_set]
  refine ⟨⟨?_, ?_⟩, ?_⟩
  · intro hash peer it
    rw [inFlight.mapped]
    simp [listed_edit]
  · intro peer state found
    rcases find?_set_some found with ⟨_, new⟩ | ⟨_, before⟩
    · rw [new]
      cases standing : node.mapNodeState.find? nodeid with
      | none => exact kept_named pnode (init_kept node.nNodes)
      | some old => exact kept_named pnode (inFlight.kept nodeid old standing)
    · exact inFlight.kept peer state before
  · cases standing : node.mapNodeState.find? nodeid with
    | none =>
      rw [total_set_absent _ _ standing, Option.getD_none]
      exact congrArg _ (Int.add_zero _)
    | some old =>
      rw [total_set _ _ standing, Option.getD_some]
      exact congrArg _ (Int.sub_add_cancel _ _)

theorem eraseInFlight_find? (queue : List (Iterator × QueuedBlock))
    (mapBlocksInFlight : OrderedMap Uint256 (NodeId × Iterator)) (hash : Uint256) :
    (eraseInFlight queue mapBlocksInFlight).find? hash =
      if ∃ entry ∈ queue, entry.2.hash = hash then none else mapBlocksInFlight.find? hash := by
  induction queue generalizing mapBlocksInFlight with
  | nil => simp [eraseInFlight]
  | cons entry rest ih =>
    rw [eraseInFlight, ih]
    by_cases own : hash = entry.2.hash
    · rw [own, find?_erase_same]
      simp
    · rw [find?_erase_other _ own]
      have other : ¬ entry.2.hash = hash := fun same => own same.symm
      apply if_congr _ rfl rfl
      rw [List.exists_mem_cons_iff]
      exact (or_iff_right other).symm

theorem finalizeNode_keeps {txHash : CTransaction → Uint256} (inFlight : InFlight node)
    {nodeid : NodeId} (finalizes : node.finalizeNode txHash nodeid = some after) :
    InFlight after ∧ after.surplus = node.surplus + node.dropped (.finalizeNode nodeid) := by
  unfold finalizeNode at finalizes
  unfold dropped
  cases standing : node.mapNodeState.find? nodeid with
  | none =>
    rw [standing] at finalizes
    cases finalizes
  | some state =>
    rw [standing] at finalizes
    cases finalizes
    refine ⟨⟨?_, ?_⟩, ?_⟩
    · intro hash peer it
      simp only [listed_erase]
      rw [eraseInFlight_find?]
      constructor
      · intro left
        split at left
        · cases left
        · rename_i elsewhere
          obtain ⟨block, listed, name⟩ := (inFlight.mapped hash peer it).mp left
          refine ⟨block, ⟨?_, listed⟩, name⟩
          intro own
          obtain ⟨state', standing', inside⟩ := listed
          rw [own, standing] at standing'
          cases standing'
          exact elsewhere ⟨_, inside, name⟩
      · rintro ⟨block, ⟨away, listed⟩, name⟩
        have mapped := (inFlight.mapped hash peer it).mpr ⟨block, listed, name⟩
        have elsewhere : ¬ ∃ entry ∈ state.vBlocksInFlight, entry.2.hash = hash := by
          rintro ⟨⟨at', other⟩, inside, alike⟩
          have here := (inFlight.mapped hash nodeid at').mpr ⟨other, ⟨state, standing, inside⟩, alike⟩
          rw [here] at mapped
          cases mapped
          exact away rfl
        rw [if_neg elsewhere]
        exact mapped
    · intro peer state' found'
      exact inFlight.kept peer state' (find?_erase_some found').2
    · unfold surplus queued
      dsimp only
      rw [total_erase _ standing, standing, Option.elim_some]
      omega

variable {txHash : CTransaction → Uint256}

theorem call_keeps (inFlight : InFlight node) {call : DownloadCall}
    (called : node.call txHash call = some after) :
    InFlight after ∧ after.surplus = node.surplus + node.dropped call := by
  cases call with
  | initializeNode nodeid pnode =>
    cases called
    rw [dropped, Int.add_zero]
    exact initializeNode_keeps inFlight nodeid pnode
  | finalizeNode nodeid => exact finalizeNode_keeps inFlight called
  | markBlockAsReceived hash =>
    obtain ⟨received, same, keeps⟩ := received inFlight hash
    have here : received = after := Option.some.inj (same.symm.trans called)
    rw [dropped, Int.add_zero, ← here]
    exact ⟨keeps.inFlight, keeps.surplus⟩
  | markBlockAsInFlight nodeid hash pindex nTimeMicros =>
    unfold call markBlockAsInFlight at called
    dsimp only at called
    split at called
    · obtain ⟨received, same, keeps⟩ := received inFlight hash
      rw [same, Option.bind_some] at called
      obtain ⟨queues, surplus⟩ := queueBlock_keeps keeps.inFlight keeps.gone called
      rw [dropped, Int.add_zero, surplus]
      exact ⟨queues, keeps.surplus⟩
    · cases called

theorem dropped_nonneg (node : Download) (call : DownloadCall) : 0 ≤ node.dropped call := by
  cases call with
  | finalizeNode nodeid =>
    unfold dropped
    dsimp only
    cases node.mapNodeState.find? nodeid with
    | none => exact le_refl 0
    | some state => exact Int.natCast_nonneg _
  | initializeNode nodeid pnode => exact le_refl 0
  | markBlockAsReceived hash => exact le_refl 0
  | markBlockAsInFlight nodeid hash pindex nTimeMicros => exact le_refl 0

theorem run_keeps {calls : List DownloadCall} (inFlight : InFlight node)
    (ran : run txHash calls node = some after) :
    InFlight after ∧ node.surplus ≤ after.surplus ∧
      (after.surplus = node.surplus ↔ NoneDropped txHash calls node) := by
  induction calls generalizing node with
  | nil =>
    cases ran
    exact ⟨inFlight, le_refl _, iff_of_true rfl trivial⟩
  | cons first rest ih =>
    obtain ⟨next, called, later⟩ := Option.bind_eq_some_iff.mp ran
    obtain ⟨keeps, surplus⟩ := call_keeps inFlight called
    obtain ⟨end', more, level⟩ := ih keeps later
    have nonnegative := dropped_nonneg node first
    refine ⟨end', by omega, ?_⟩
    constructor
    · intro same
      refine ⟨by omega, ?_⟩
      intro other here
      rw [called] at here
      cases here
      exact level.mp (by omega)
    · rintro ⟨none', onward⟩
      have stays := level.mpr (onward next called)
      omega

end Download

open Download in
/-- After any calls that come back, the map and the lists name the same entries and each
    length is right; the counter is right exactly if no call dropped a peer with validated
    blocks in flight. -/
theorem download_accounts_iff (txHash : CTransaction → Uint256) (calls : List DownloadCall)
    (node : Download) (ran : run txHash calls init = some node) :
    InFlight node ∧
      (node.nQueuedValidatedHeaders = node.queued ↔ NoneDropped txHash calls init) := by
  obtain ⟨inFlight, _, level⟩ := run_keeps init_inFlight ran
  refine ⟨inFlight, ?_⟩
  rw [← level]
  have start : init.surplus = 0 := rfl
  rw [start]
  unfold surplus
  omega

def askedAgain : List DownloadCall :=
  [.initializeNode 1 ⟨⟨⟨0⟩, 0⟩, "first"⟩, .initializeNode 2 ⟨⟨⟨0⟩, 0⟩, "second"⟩,
    .markBlockAsInFlight 1 77 (some 77) 0, .markBlockAsInFlight 2 77 (some 77) 1]

open Download in
theorem asked_again_accounts :
    ∃ node, run (fun _ => 0) askedAgain init = some node ∧ InFlight node ∧
      (node.nQueuedValidatedHeaders = node.queued ↔
        NoneDropped (fun _ => 0) askedAgain init) := by
  have returns : (run (fun _ => 0) askedAgain init).isSome = true := by decide +kernel
  obtain ⟨node, ran⟩ := Option.isSome_iff_exists.mp returns
  exact ⟨node, ran, download_accounts_iff (fun _ => 0) askedAgain node ran⟩

open Download in
theorem dropped_block_counted :
    ¬ ∀ (txHash : CTransaction → Uint256) (calls : List DownloadCall) (node : Download),
      run txHash calls init = some node →
        InFlight node ∧ node.nQueuedValidatedHeaders = node.queued := by
  intro claimed
  have counts : (run (fun _ => 0) (askedAgain ++ [.finalizeNode 2]) init).map
      (fun node => (node.nQueuedValidatedHeaders, node.queued)) = some (1, 0) := by
    decide +kernel
  obtain ⟨node, ran, pair⟩ := Option.map_eq_some_iff.mp counts
  have same := (claimed _ _ node ran).2
  rw [Prod.mk.injEq] at pair
  omega

end OxidBlockDownload
