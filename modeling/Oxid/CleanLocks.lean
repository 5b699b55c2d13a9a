import Oxid.LockSafety
import Oxid.Library.Clearing

/-!
What `CleanTransactionLocksList` takes away, against what belongs to the expired locks. It
goes by the request of an expired lock: without one it leaves the lock's votes, its refused
request and its inputs, and with one it frees the request's inputs, whoever they are locked
for.
-/
namespace OxidCleanLocks
open OxidPrimitives OxidMapKeys OxidMasternodeMan OxidInstantTX
open OxidInstantLocks OxidLockSafety OrderedMaps Clearing Runs

def LocksNamed (locks : OrderedMap Uint256 CTransactionLock) : Prop :=
  ∀ hash lock, locks.find? hash = some lock → lock.txHash = hash

section Belongings

variable (maps : LockMaps)

def Tracked (hash : Uint256) : Prop := maps.mapTxLocks.count hash = true

def Expired (time : Int64) (hash : Uint256) : Prop :=
  ∃ lock, maps.mapTxLocks.find? hash = some lock ∧ isExpired time lock = true

def VotedIn (hash key : Uint256) : Prop :=
  ∃ lock, maps.mapTxLocks.find? hash = some lock ∧
    key ∈ lock.vecConsensusVotes.map CConsensusVote.getHash

def Spends (hash : Uint256) (out : COutPoint) : Prop :=
  ∃ tx, maps.mapTxLockReq.find? hash = some tx ∧ out ∈ tx.vin.map (·.prevout)

end Belongings

/-- From one state to another the expired locks go with what is theirs, the inputs of the
    others stay locked, and what is left locked for a transaction without a lock some later
    cleanup frees. -/
structure Cleans (time : Int64) (state after : InstantTXState) : Prop where
  locks : Cleared (Expired state.maps time) state.maps.mapTxLocks after.maps.mapTxLocks
  requests : Cleared (Expired state.maps time) state.maps.mapTxLockReq after.maps.mapTxLockReq
  refused : Cleared (Expired state.maps time) state.maps.mapTxLockReqRejected
    after.maps.mapTxLockReqRejected
  votes : Cleared (fun key => ∃ hash, Expired state.maps time hash ∧ VotedIn state.maps hash key)
    state.mapTxLockVote after.mapTxLockVote
  owned : ∀ out hash, state.maps.mapLockedInputs.find? out = some hash →
    Expired state.maps time hash → after.maps.mapLockedInputs.find? out = none
  live : ∀ out hash, state.maps.mapLockedInputs.find? out = some hash →
    Tracked state.maps hash → ¬Expired state.maps time hash →
      after.maps.mapLockedInputs.find? out = some hash
  released : ∀ out hash, after.maps.mapLockedInputs.find? out = some hash →
    ¬Tracked after.maps hash → ∃ later : Int64, time.toInt ≤ later.toInt ∧
      (cleanTransactionLocksList true later after).maps.mapLockedInputs.find? out = none

/-- What an expired lock leaves behind otherwise goes by a request; no expired lock's request
    spends what is locked for a lock that stands; and every input locked without a lock waits for
    one. -/
structure OwnRequests (time : Int64) (state : InstantTXState) : Prop where
  refused : ∀ hash, Expired state.maps time hash →
    state.maps.mapTxLockReqRejected.count hash = true → state.maps.mapTxLockReq.count hash = true
  votes : ∀ hash key, Expired state.maps time hash → VotedIn state.maps hash key →
    state.mapTxLockVote.count key = true → ∃ other, Expired state.maps time other ∧
      state.maps.mapTxLockReq.count other = true ∧ VotedIn state.maps other key
  owned : ∀ out hash, state.maps.mapLockedInputs.find? out = some hash →
    Expired state.maps time hash → ∃ other, Expired state.maps time other ∧
      Spends state.maps other out
  live : ∀ out hash, state.maps.mapLockedInputs.find? out = some hash →
    Tracked state.maps hash → ¬Expired state.maps time hash →
      ∀ other, Expired state.maps time other → ¬Spends state.maps other out
  untracked : ∀ out hash, state.maps.mapLockedInputs.find? out = some hash →
    ¬Tracked state.maps hash → ∃ other, Tracked state.maps other ∧ Spends state.maps other out

structure Swept (gone : Uint256 → Prop) (before after : InstantTXState) : Prop where
  locks : Cleared gone before.maps.mapTxLocks after.maps.mapTxLocks
  requests : Cleared gone before.maps.mapTxLockReq after.maps.mapTxLockReq
  refused : Cleared (fun hash => gone hash ∧ before.maps.mapTxLockReq.count hash = true)
    before.maps.mapTxLockReqRejected after.maps.mapTxLockReqRejected
  votes : Cleared (fun key => ∃ hash, gone hash ∧ before.maps.mapTxLockReq.count hash = true ∧
    VotedIn before.maps hash key) before.mapTxLockVote after.mapTxLockVote
  inputs : Cleared (fun out => ∃ hash, gone hash ∧ Spends before.maps hash out)
    before.maps.mapLockedInputs after.maps.mapLockedInputs

section Sweeping

variable {gone more : Uint256 → Prop} {before between after state : InstantTXState}

theorem count_of_find? {Key Value : Type} [MapKey Key] {map : OrderedMap Key Value} {key : Key}
    {value : Value} (found : map.find? key = some value) : map.count key = true := by
  unfold OrderedMap.count
  rw [found]
  rfl

theorem Swept.none (idle : ∀ hash, ¬gone hash) : Swept gone state state where
  locks := Cleared.none fun hash went => absurd went (idle hash)
  requests := Cleared.none fun hash went => absurd went (idle hash)
  refused := Cleared.none fun hash went => absurd went.1 (idle hash)
  votes := Cleared.none fun _ went => absurd went.choose_spec.1 (idle _)
  inputs := Cleared.none fun _ went => absurd went.choose_spec.1 (idle _)

variable {hash : Uint256}

theorem dropLock_swept {lock : CTransactionLock} (named : lock.txHash = hash)
    (found : state.maps.mapTxLocks.find? hash = some lock) :
    Swept (fun other => other = hash) state (dropLock hash lock state) := by
  have locks : Cleared (fun other => other = hash) state.maps.mapTxLocks
      (dropLock hash lock state).maps.mapTxLocks := by
    rw [dropLock_locks]
    exact cleared_erase _ hash
  rcases @dropLock_cases state hash lock named with ⟨absent, is⟩ | ⟨tx, known, is⟩
  · have unknown : state.maps.mapTxLockReq.count hash = false := by
      unfold OrderedMap.count
      rw [absent]
      rfl
    rw [is] at locks ⊢
    refine ⟨locks, ?_, ?_, ?_, ?_⟩
    · apply Cleared.none
      rintro other rfl
      exact absent
    · apply Cleared.none
      rintro other ⟨rfl, counted⟩
      rw [unknown] at counted
      cases counted
    · apply Cleared.none
      rintro key ⟨other, rfl, counted, -⟩
      rw [unknown] at counted
      cases counted
    · apply Cleared.none
      rintro out ⟨other, rfl, tx, known, -⟩
      rw [absent] at known
      cases known
  · have counted := count_of_find? known
    rw [is] at locks ⊢
    refine ⟨locks, cleared_erase _ hash, ?_, ?_, ?_⟩
    · apply (cleared_erase _ hash).congr
      intro other _
      constructor
      · rintro rfl
        exact ⟨rfl, counted⟩
      · exact And.left
    · apply (cleared_erases lock.vecConsensusVotes CConsensusVote.getHash _).congr
      intro key _
      constructor
      · intro listed
        exact ⟨hash, rfl, counted, lock, found, listed⟩
      · rintro ⟨other, rfl, -, lock', found', listed⟩
        rw [found] at found'
        cases found'
        exact listed
    · apply (cleared_erases tx.vin (·.prevout) _).congr
      intro out _
      constructor
      · intro listed
        exact ⟨hash, rfl, tx, known, listed⟩
      · rintro ⟨other, rfl, tx', known', listed⟩
        rw [known] at known'
        cases known'
        exact listed

theorem Swept.votedIn (swept : Swept gone before after) {hash key : Uint256}
    (stays : ¬gone hash) : VotedIn after.maps hash key ↔ VotedIn before.maps hash key := by
  unfold VotedIn
  rw [swept.locks.kept hash stays]

theorem Swept.spends (swept : Swept gone before after) {out : COutPoint} (stays : ¬gone hash) :
    Spends after.maps hash out ↔ Spends before.maps hash out := by
  unfold Spends
  rw [swept.requests.kept hash stays]

theorem Swept.requested (swept : Swept gone before after) (stays : ¬gone hash) :
    after.maps.mapTxLockReq.count hash = before.maps.mapTxLockReq.count hash := by
  unfold OrderedMap.count
  rw [swept.requests.kept hash stays]

theorem Swept.andThen (first : Swept gone before between) (second : Swept more between after)
    (apart : ∀ hash, more hash → ¬gone hash) :
    Swept (fun hash => gone hash ∨ more hash) before after where
  locks := first.locks.andThen second.locks
  requests := first.requests.andThen second.requests
  refused := by
    apply (first.refused.andThen second.refused).congr
    intro hash _
    constructor
    · rintro (⟨went, counted⟩ | ⟨later, counted⟩)
      · exact ⟨.inl went, counted⟩
      · rw [first.requested (apart hash later)] at counted
        exact ⟨.inr later, counted⟩
    · rintro ⟨went | later, counted⟩
      · exact .inl ⟨went, counted⟩
      · rw [← first.requested (apart hash later)] at counted
        exact .inr ⟨later, counted⟩
  votes := by
    apply (first.votes.andThen second.votes).congr
    intro key _
    constructor
    · rintro (⟨hash, went, counted, voted⟩ | ⟨hash, later, counted, voted⟩)
      · exact ⟨hash, .inl went, counted, voted⟩
      · rw [first.requested (apart hash later)] at counted
        exact ⟨hash, .inr later, counted, (first.votedIn (apart hash later)).mp voted⟩
    · rintro ⟨hash, went | later, counted, voted⟩
      · exact .inl ⟨hash, went, counted, voted⟩
      · rw [← first.requested (apart hash later)] at counted
        exact .inr ⟨hash, later, counted, (first.votedIn (apart hash later)).mpr voted⟩
  inputs := by
    apply (first.inputs.andThen second.inputs).congr
    intro out _
    constructor
    · rintro (⟨hash, went, spent⟩ | ⟨hash, later, spent⟩)
      · exact ⟨hash, .inl went, spent⟩
      · exact ⟨hash, .inr later, (first.spends (apart hash later)).mp spent⟩
    · rintro ⟨hash, went | later, spent⟩
      · exact .inl ⟨hash, went, spent⟩
      · exact .inr ⟨hash, later, (first.spends (apart hash later)).mpr spent⟩

theorem Swept.congr (swept : Swept gone before after) (same : ∀ hash, gone hash ↔ more hash) :
    Swept more before after := by
  have : gone = more := funext fun hash => propext (same hash)
  rwa [← this]

theorem drops_swept (entries : List (Uint256 × CTransactionLock))
    (distinct : (entries.map (·.1)).Nodup)
    (stand : ∀ entry ∈ entries, state.maps.mapTxLocks.find? entry.1 = some entry.2 ∧
      entry.2.txHash = entry.1) :
    Swept (fun hash => hash ∈ entries.map (·.1)) state
      (entries.foldl (fun state entry => dropLock entry.1 entry.2 state) state) := by
  induction entries generalizing state with
  | nil => exact Swept.none fun hash listed => absurd listed List.not_mem_nil
  | cons entry rest ih =>
    rw [List.map_cons, List.nodup_cons] at distinct
    obtain ⟨found, named⟩ := stand entry List.mem_cons_self
    have first := dropLock_swept named found
    have away : ∀ hash, hash ∈ rest.map (·.1) → ¬hash = entry.1 := by
      rintro hash listed rfl
      exact distinct.1 listed
    have later := @ih (dropLock entry.1 entry.2 state) distinct.2 (by
      intro other member
      obtain ⟨stands, named'⟩ := stand other (List.mem_cons_of_mem entry member)
      have different := away other.1 (List.mem_map_of_mem member)
      exact ⟨(first.locks.kept other.1 different).trans stands, named'⟩)
    exact (first.andThen later away).congr fun hash => by rw [List.map_cons, List.mem_cons]

theorem mem_expiredLocks {time : Int64} :
    hash ∈ (expiredLocks time state).map (·.1) ↔ Expired state.maps time hash := by
  rw [List.mem_map]
  constructor
  · rintro ⟨⟨key, lock⟩, member, rfl⟩
    obtain ⟨inside, expired⟩ := List.mem_filter.mp member
    exact ⟨lock, (OrderedMap.mem_entries_iff _ _ _).mp inside, expired⟩
  · rintro ⟨lock, found, expired⟩
    exact ⟨(hash, lock), List.mem_filter.mpr ⟨(OrderedMap.mem_entries_iff _ _ _).mpr found, expired⟩,
      rfl⟩

theorem expiredLocks_distinct (time : Int64) :
    ((expiredLocks time state).map (·.1)).Nodup := by
  exact state.maps.mapTxLocks.keys_nodup.sublist (List.filter_sublist.map _)

theorem clean_swept (named : LocksNamed state.maps.mapTxLocks) (time : Int64) :
    Swept (Expired state.maps time) state (cleanTransactionLocksList true time state) := by
  have stand : ∀ entry ∈ expiredLocks time state,
      state.maps.mapTxLocks.find? entry.1 = some entry.2 ∧ entry.2.txHash = entry.1 := by
    intro entry member
    have found := (OrderedMap.mem_entries_iff _ _ _).mp (List.mem_filter.mp member).1
    exact ⟨found, named entry.1 entry.2 found⟩
  exact (drops_swept _ (expiredLocks_distinct time) stand).congr fun hash => mem_expiredLocks

theorem clean_named (named : LocksNamed state.maps.mapTxLocks) (hasTip : Bool) (time : Int64) :
    LocksNamed (cleanTransactionLocksList hasTip time state).maps.mapTxLocks :=
  fun hash lock left => named hash lock (clean_locks hash lock left)

theorem clean_idle {time : Int64} (idle : ∀ hash, ¬Expired state.maps time hash) (hasTip : Bool) :
    cleanTransactionLocksList hasTip time state = state := by
  have nothing : expiredLocks time state = [] := by
    rw [List.eq_nil_iff_forall_not_mem]
    intro entry member
    exact idle entry.1 (mem_expiredLocks.mp (List.mem_map_of_mem member))
  unfold cleanTransactionLocksList
  rw [nothing]
  cases hasTip <;> rfl

end Sweeping

section Cleaning

variable {state : InstantTXState} {time : Int64} {hash : Uint256} {maps : LockMaps}

theorem expired_tracked (expired : Expired maps time hash) :
    Tracked maps hash := by
  obtain ⟨lock, found, _⟩ := expired
  exact count_of_find? found

theorem expired_last (tracked : Tracked maps hash) :
    Expired maps Int64.maxValue hash := by
  obtain ⟨lock, found⟩ := Option.isSome_iff_exists.mp tracked
  refine ⟨lock, found, ?_⟩
  have small := lock.nExpiration.toInt_lt
  unfold isExpired
  rw [decide_eq_true_iff, Int64.toInt_maxValue]
  omega

theorem freed_iff (named : LocksNamed state.maps.mapTxLocks) {out : COutPoint}
    (locked : state.maps.mapLockedInputs.find? out = some hash) :
    (∃ later : Int64, time.toInt ≤ later.toInt ∧
        (cleanTransactionLocksList true later state).maps.mapLockedInputs.find? out = none) ↔
      ∃ other, Tracked state.maps other ∧ Spends state.maps other out := by
  constructor
  · rintro ⟨later, _, free⟩
    obtain ⟨other, expired, spent⟩ :=
      ((clean_swept named later).inputs.gone_iff (count_of_find? locked)).mpr free
    exact ⟨other, expired_tracked expired, spent⟩
  · rintro ⟨other, tracked, spent⟩
    exact ⟨Int64.maxValue, by rw [Int64.toInt_maxValue]; exact time.toInt_le,
      (clean_swept named Int64.maxValue).inputs.taken out ⟨other, expired_last tracked, spent⟩⟩

theorem left_tracked (named : LocksNamed state.maps.mapTxLocks) :
    Tracked (cleanTransactionLocksList true time state).maps hash ↔
      Tracked state.maps hash ∧ ¬Expired state.maps time hash := by
  have locks := (clean_swept named time).locks
  unfold Tracked OrderedMap.count
  by_cases expired : Expired state.maps time hash
  · rw [locks.taken hash expired]
    simp [expired]
  · rw [locks.kept hash expired]
    simp [expired]

theorem cleans_iff (named : LocksNamed state.maps.mapTxLocks) :
    Cleans time state (cleanTransactionLocksList true time state) ↔ OwnRequests time state := by
  have swept := clean_swept named time
  have named' := clean_named named true time
  constructor
  · intro cleans
    constructor
    · intro hash expired counted
      exact ((swept.refused.iff.mp cleans.refused hash counted).mpr expired).2
    · intro hash key expired voted counted
      exact (swept.votes.iff.mp cleans.votes key counted).mpr ⟨hash, expired, voted⟩
    · intro out hash locked expired
      have free := cleans.owned out hash locked expired
      exact (swept.inputs.gone_iff (count_of_find? locked)).mpr free
    · intro out hash locked tracked standing other expired spent
      have stays := cleans.live out hash locked tracked standing
      rw [swept.inputs.taken out ⟨other, expired, spent⟩] at stays
      cases stays
    · intro out hash locked untracked
      by_cases spent : ∃ other, Expired state.maps time other ∧ Spends state.maps other out
      · obtain ⟨other, expired, spends⟩ := spent
        exact ⟨other, expired_tracked expired, spends⟩
      · have stays := swept.inputs.kept out spent
        rw [locked] at stays
        have free := cleans.released out hash stays fun tracked =>
          untracked ((left_tracked named).mp tracked).1
        obtain ⟨other, tracked, spends⟩ := (freed_iff named' stays).mp free
        obtain ⟨before, standing⟩ := (left_tracked named).mp tracked
        exact ⟨other, before, (swept.spends standing).mp spends⟩
  · intro own
    refine ⟨swept.locks, swept.requests, ?_, ?_, ?_, ?_, ?_⟩
    · apply swept.refused.congr
      intro hash counted
      exact ⟨And.left, fun expired => ⟨expired, own.refused hash expired counted⟩⟩
    · apply swept.votes.congr
      intro key counted
      constructor
      · rintro ⟨hash, expired, -, voted⟩
        exact ⟨hash, expired, voted⟩
      · rintro ⟨hash, expired, voted⟩
        exact own.votes hash key expired voted counted
    · intro out hash locked expired
      exact swept.inputs.taken out (own.owned out hash locked expired)
    · intro out hash locked tracked standing
      rw [swept.inputs.kept out fun ⟨other, expired, spent⟩ =>
        own.live out hash locked tracked standing other expired spent, locked]
    · intro out hash left untracked
      have unspent : ¬∃ other, Expired state.maps time other ∧ Spends state.maps other out := by
        intro spent
        rw [swept.inputs.taken out spent] at left
        cases left
      have locked := left
      rw [swept.inputs.kept out unspent] at locked
      have never : ¬Tracked state.maps hash := by
        intro tracked
        apply untracked
        apply (left_tracked named).mpr
        exact ⟨tracked, fun expired => unspent (own.owned out hash locked expired)⟩
      obtain ⟨other, tracked, spent⟩ := own.untracked out hash locked never
      have standing : ¬Expired state.maps time other := fun expired =>
        unspent ⟨other, expired, spent⟩
      exact (freed_iff named' left).mpr
        ⟨other, (left_tracked named).mpr ⟨tracked, standing⟩, (swept.spends standing).mpr spent⟩

/-- For every state of the lock maps and every time: `CleanTransactionLocksList` takes away
    the expired locks and what is theirs, and sets free what it should, exactly when what
    is left of an expired lock goes by its request, no expired request spends an input of
    a lock that stands, and what is locked without a lock is spent by some request. -/
theorem clean_own_iff (hasTip : Bool) (time : Int64) (state : InstantTXState)
    (named : LocksNamed state.maps.mapTxLocks) :
    Cleans time state (cleanTransactionLocksList hasTip time state) ↔
      (hasTip = true ∨ ∀ hash, ¬Expired state.maps time hash) ∧ OwnRequests time state := by
  cases hasTip with
  | true =>
    rw [cleans_iff named]
    simp
  | false =>
    rw [← cleans_iff named]
    constructor
    · intro cleans
      have idle : ∀ hash, ¬Expired state.maps time hash := by
        intro hash expired
        have gone := cleans.locks.taken hash expired
        obtain ⟨lock, found, _⟩ := expired
        have same : cleanTransactionLocksList false time state = state := rfl
        rw [same, found] at gone
        cases gone
      rw [clean_idle idle] at cleans ⊢
      exact ⟨.inr idle, cleans⟩
    · rintro ⟨idle, cleans⟩
      have idle := idle.resolve_left Bool.false_ne_true
      rw [clean_idle idle] at cleans ⊢
      exact cleans

end Cleaning

section Naming

variable {txHash : CTransaction → Uint256} {locks : OrderedMap Uint256 CTransactionLock}

theorem named_set (named : LocksNamed locks) {hash : Uint256} {lock : CTransactionLock}
    (own : lock.txHash = hash) : LocksNamed (locks.set hash lock) := by
  intro other found here
  rcases OrderedMap.find?_set_some here with ⟨same, is⟩ | ⟨_, before⟩
  · rw [same, is, own]
  · exact named other found before

theorem named_expire (named : LocksNamed locks) (call : TxlvoteCall) (ended : Uint256) :
    LocksNamed (call.expire ended locks) := by
  intro hash lock found
  rw [expire_find?] at found
  obtain ⟨before, stood, same⟩ := Option.map_eq_some_iff.mp found
  rw [← same, ← named hash before stood]
  split <;> rfl

theorem named_conflicts {maps : LockMaps} (named : LocksNamed maps.mapTxLocks)
    (call : TxlvoteCall) (tx : CTransaction) :
    LocksNamed (call.checkForConflictingLocks txHash tx maps).2.mapTxLocks := by
  unfold TxlvoteCall.checkForConflictingLocks
  split
  · exact named
  · exact named_expire (named_expire named call _) call _

theorem named_ix {state : InstantTXState} (named : LocksNamed state.maps.mapTxLocks)
    (call : IxCall) (tx : CTransaction) :
    LocksNamed (processIx call txHash tx state).maps.mapTxLocks := by
  have created : LocksNamed (call.createNewLock txHash tx state.maps).2.mapTxLocks := by
    rcases @createNewLock_cases txHash state.maps call tx (named _) with same | ⟨lock, is, own, _⟩
    · rw [same]
      exact named
    · rw [is]
      exact named_set named own
  unfold processIx
  split
  · exact named
  · dsimp only
    split
    · exact created
    · unfold IxCall.rejectRequest
      split
      · have ended := @named_conflicts txHash
          (IxCall.refuse txHash tx (call.createNewLock txHash tx state.maps).2) created
          call.toTxlvoteCall tx
        split
        · rename_i conflicting
          rw [conflicting] at ended
          exact ended
        · rename_i clear
          rw [clear] at ended
          exact ended
      · exact created

theorem named_votedLocks {maps : LockMaps} (named : LocksNamed maps.mapTxLocks)
    (call : TxlvoteCall) (ctx : CConsensusVote) : LocksNamed (votedLocks call ctx maps) :=
  named_set named (votedLock_txHash (named ctx.txHash))

theorem named_txlvote {state : InstantTXState} (named : LocksNamed state.maps.mapTxLocks)
    (call : TxlvoteCall) (ctx : CConsensusVote) :
    LocksNamed (processTxlvote call txHash ctx state).2.maps.mapTxLocks := by
  cases passes : votePasses call ctx state with
  | false =>
    rw [(processTxlvote_stays passes).1]
    exact named
  | true =>
    have voted := named_votedLocks named call ctx
    rw [processTxlvote_passes passes]
    unfold TxlvoteCall.castsVote
    obtain ⟨unknown, limited⟩ :=
      @limits_maps call ctx (call.addVote txHash ctx state.maps).2
    rw [limited, addVote_eq]
    split
    · unfold TxlvoteCall.complete
      dsimp only
      have ended := @named_conflicts txHash
        { state.maps with
          mapTxLocks := votedLocks call ctx state.maps
          mapTxLockReq := state.maps.mapTxLockReq.insert ctx.txHash CTransaction.fresh } voted call
        ((state.maps.mapTxLockReq.find? ctx.txHash).getD CTransaction.fresh)
      split
      · rename_i conflicting
        rw [conflicting] at ended
        exact ended
      · rename_i clear
        rw [clear] at ended
        exact ended
    · exact voted

theorem run_named (man : CMasternodeMan) (events : List LockEvent) :
    LocksNamed (runAll (lockStep txHash) events (LockNode.init man)).state.maps.mapTxLocks := by
  refine @runAll_kept _ _ (lockStep txHash)
    (fun node => LocksNamed node.state.maps.mapTxLocks) ?_ events _ ?_
  · intro event node named
    cases event with
    | ix call tx => exact named_ix named call tx
    | txlvote call ctx => exact named_txlvote named call ctx
    | clean hasTip time => exact clean_named named hasTip time
    | masternodes man => exact named
  · intro hash lock found
    cases found

end Naming

section Samples

variable {state : InstantTXState} {time : Int64} {own : Uint256} {tx : CTransaction}

theorem single_own
    (locks : state.maps.mapTxLocks.entries.map (·.1) = [own])
    (refused : state.maps.mapTxLockReqRejected.entries = [])
    (request : state.maps.mapTxLockReq.find? own = some tx)
    (inputs : ∀ entry ∈ state.maps.mapLockedInputs.entries,
      entry.2 = own ∧ entry.1 ∈ tx.vin.map (·.prevout)) : OwnRequests time state := by
  have only : ∀ hash, Tracked state.maps hash → hash = own := by
    intro hash tracked
    obtain ⟨lock, found⟩ := Option.isSome_iff_exists.mp tracked
    have member : hash ∈ state.maps.mapTxLocks.entries.map (·.1) :=
      List.mem_map.mpr ⟨(hash, lock), (OrderedMap.mem_entries_iff _ _ _).mpr found, rfl⟩
    rw [locks] at member
    exact List.mem_singleton.mp member
  have tracked : Tracked state.maps own := by
    have member : own ∈ state.maps.mapTxLocks.entries.map (·.1) := by
      rw [locks]
      exact List.mem_singleton_self own
    obtain ⟨⟨hash, lock⟩, inside, rfl⟩ := List.mem_map.mp member
    exact count_of_find? ((OrderedMap.mem_entries_iff _ _ _).mp inside)
  have locked : ∀ out hash, state.maps.mapLockedInputs.find? out = some hash →
      hash = own ∧ out ∈ tx.vin.map (·.prevout) := fun out hash found =>
    inputs (out, hash) ((OrderedMap.mem_entries_iff _ _ _).mpr found)
  constructor
  · intro hash _ counted
    obtain ⟨other, found⟩ := Option.isSome_iff_exists.mp counted
    have member := (OrderedMap.mem_entries_iff _ _ _).mpr found
    rw [refused] at member
    cases member
  · intro hash key expired voted _
    refine ⟨hash, expired, ?_, voted⟩
    rw [only hash (expired_tracked expired)]
    exact count_of_find? request
  · intro out hash found expired
    obtain ⟨rfl, spent⟩ := locked out hash found
    exact ⟨hash, expired, tx, request, spent⟩
  · intro out hash found _ standing other expired
    obtain ⟨rfl, -⟩ := locked out hash found
    rw [only other (expired_tracked expired)] at expired
    exact absurd expired standing
  · intro out hash found _
    obtain ⟨-, spent⟩ := locked out hash found
    exact ⟨own, tracked, tx, request, spent⟩

end Samples

theorem voted_lock_cleaned :
    Cleans 5000 (finalNode (votedRun (request 1))).state
      (cleanTransactionLocksList true 5000 (finalNode (votedRun (request 1))).state) := by
  apply (clean_own_iff true 5000 (finalNode (votedRun (request 1))).state
    (run_named lockVoters (votedRun (request 1)))).mpr
  refine ⟨.inl rfl, ?_⟩
  apply @single_own _ _ (requestHash (request 1)) (request 1)
  · decide +kernel
  · decide +kernel
  · decide +kernel
  · decide +kernel

def overtakenRun : List LockEvent :=
  .ix (readyCall true) (request 2) ::
    .ix { readyCall true with time := 4000 } (request 1) ::
    (List.range 6).map fun number =>
      .txlvote (readyCall true).toTxlvoteCall ⟨voterInput number, requestHash (request 1), 94, [1]⟩

/-- The refused request's input stays locked without a lock, and the earlier request's lock
    takes the input of the later one along when it expires. -/
theorem cleanup_misses :
    ¬Cleans 5000 (finalNode refusedRun).state
        (cleanTransactionLocksList true 5000 (finalNode refusedRun).state) ∧
      ¬Cleans 5000 (finalNode overtakenRun).state
        (cleanTransactionLocksList true 5000 (finalNode overtakenRun).state) := by
  constructor
  · intro cleans
    have expires : ((finalNode refusedRun).state.maps.mapTxLocks.find?
        (requestHash (request 1))).any (isExpired 5000) = true := by decide +kernel
    obtain ⟨lock, found, expired⟩ := (Option.any_eq_true _ _).mp expires
    have free := cleans.owned ⟨5, 0⟩ (requestHash (request 1)) (by decide +kernel)
      ⟨lock, found, expired⟩
    have locked : (cleanTransactionLocksList true 5000
        (finalNode refusedRun).state).maps.mapLockedInputs.find? ⟨5, 0⟩ =
          some (requestHash (request 1)) := by decide +kernel
    rw [free] at locked
    cases locked
  · intro cleans
    have stays := cleans.live ⟨5, 0⟩ (requestHash (request 1)) (by decide +kernel)
      (by unfold Tracked; decide +kernel) (by
        rintro ⟨lock, found, expired⟩
        have standing : ((finalNode overtakenRun).state.maps.mapTxLocks.find?
            (requestHash (request 1))).any (isExpired 5000) = false := by decide +kernel
        rw [found, Option.any_some, expired] at standing
        cases standing)
    have free : (cleanTransactionLocksList true 5000
        (finalNode overtakenRun).state).maps.mapLockedInputs.find? ⟨5, 0⟩ = none := by
      decide +kernel
    rw [free] at stays
    cases stays

end OxidCleanLocks
