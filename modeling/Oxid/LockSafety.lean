import Oxid.InstantLocks

/-!
When transaction locks are safe. No step may lock the inputs of a refused request, complete
a lock by a request, complete one whose request is not known, or free the inputs of another
lock.
-/
namespace OxidLockSafety
open OxidPrimitives OxidMapKeys OxidMasternode OxidMasternodeMan OxidMasternodePayments
open OxidInstantTX OxidInstantLocks OrderedMaps Runs

section Conditions

variable (txHash : CTransaction → Uint256)

def requestMinds (call : IxCall) (tx : CTransaction) (maps : LockMaps) : Bool :=
  !IxCall.isComplete (txHash tx) maps &&
    (call.acceptToMemoryPool tx || tx.vin.all fun txin => maps.mapLockedInputs.count txin.prevout)

def voteMinds (call : TxlvoteCall) (ctx : CConsensusVote) (maps : LockMaps) : Bool :=
  !completes call ctx maps || maps.mapTxLockReq.count ctx.txHash

def foundIn (conflicts : List (Uint256 × Int64)) (hash : Uint256) : Bool :=
  conflicts.any fun found => found.1 == hash

def dropMinds (conflicts : List (Uint256 × Int64)) (lock : CTransactionLock) (maps : LockMaps) :
    Bool :=
  (maps.mapTxLockReq.find? lock.txHash).all fun tx => tx.vin.all fun txin =>
    (maps.mapLockedInputs.find? txin.prevout).all fun hash =>
      hash == lock.txHash || foundIn conflicts hash

/-- The step takes none of those branches. A request that is taken up does not find its
    lock complete, and its inputs are locked already if the pool refuses it; a vote that
    completes a lock finds the request; an expired lock that is dropped has no input
    locked for another, except for one found in conflict. -/
def minds (event : LockEvent) (node : LockNode) : Bool :=
  match event with
  | .ix call tx =>
    !call.takesUp txHash tx node.state.maps ||
      requestMinds txHash call tx (call.createNewLock txHash tx node.state.maps).2
  | .txlvote call ctx =>
    !votePasses call ctx node.state || voteMinds call ctx node.state.maps
  | .clean hasTip time =>
    !hasTip || (expiredLocks time node.state).all fun entry =>
      dropMinds node.conflicts entry.2 node.state.maps
  | .masternodes _ => true

end Conditions

section Maps

theorem find?_insert (map : OrderedMap COutPoint Uint256) (key other : COutPoint)
    (value : Uint256) :
    (map.insert key value).find? other =
      ((map.find? other).or (if other = key then some value else none)) := by
  by_cases here : other = key
  · rw [here, OrderedMap.find?_insert_same, if_pos rfl]
    cases map.find? key <;> rfl
  · rw [OrderedMap.find?_insert_other map value here, if_neg here]
    cases map.find? other <;> rfl

theorem find?_lockInputs (hash : Uint256) (vin : List CTxIn) (locked : OrderedMap COutPoint Uint256)
    (out : COutPoint) :
    (vin.foldl (fun locked (txin : CTxIn) => locked.insert txin.prevout hash) locked).find? out =
      ((locked.find? out).or (if out ∈ vin.map (·.prevout) then some hash else none)) := by
  induction vin generalizing locked with
  | nil => cases found : locked.find? out <;> simp [found]
  | cons txin rest ih =>
    rw [List.foldl_cons, ih, find?_insert]
    cases locked.find? out with
    | some other => rfl
    | none => by_cases here : out = txin.prevout <;> simp [here]

theorem find?_freeInputs (vin : List CTxIn) (locked : OrderedMap COutPoint Uint256)
    (out : COutPoint) :
    (vin.foldl (fun locked (txin : CTxIn) => locked.erase txin.prevout) locked).find? out =
      if out ∈ vin.map (·.prevout) then none else locked.find? out := by
  induction vin generalizing locked with
  | nil => simp
  | cons txin rest ih =>
    rw [List.foldl_cons, ih]
    by_cases here : out = txin.prevout
    · rw [here]
      simp
    · rw [OrderedMap.find?_erase_other locked here]
      simp [here]

theorem count_eraseVotes (votes : List CConsensusVote) (map : OrderedMap Uint256 CConsensusVote)
    {hash : Uint256} (away : ∀ vote ∈ votes, vote.getHash ≠ hash) (noted : map.count hash = true) :
    (votes.foldl (fun map (vote : CConsensusVote) => map.erase vote.getHash) map).count hash =
      true := by
  induction votes generalizing map with
  | nil => exact noted
  | cons vote rest ih =>
    apply ih _ (fun other member => away other (List.mem_cons_of_mem vote member))
    unfold OrderedMap.count at noted ⊢
    rw [OrderedMap.find?_erase_other map (away vote (by simp)).symm]
    exact noted

theorem count_set {Value : Type} (map : OrderedMap Uint256 Value) (key hash : Uint256)
    (value : Value) :
    (map.set key value).count hash = (decide (hash = key) || map.count hash) := by
  unfold OrderedMap.count
  by_cases here : hash = key
  · rw [here]
    simp
  · rw [OrderedMap.find?_set_other map value here]
    simp [here]

end Maps

section Votes

/-- Each vote of a lock is for its transaction, is noted as seen, and was found valid and
    in the top set; no two votes have one hash. -/
structure VotesKept (locks : OrderedMap Uint256 CTransactionLock)
    (seen : OrderedMap Uint256 CConsensusVote) (answers : List VoteAnswer) : Prop where
  named : ∀ hash lock, locks.find? hash = some lock → lock.txHash = hash
  noted : ∀ hash lock, locks.find? hash = some lock → ∀ vote ∈ lock.vecConsensusVotes,
    vote.txHash = hash ∧ seen.count vote.getHash = true ∧ AnsweredInTop answers vote
  distinct : ∀ hash lock, locks.find? hash = some lock →
    (lock.vecConsensusVotes.map CConsensusVote.getHash).Nodup
  apart : ∀ hash1 hash2 lock1 lock2, hash1 ≠ hash2 → locks.find? hash1 = some lock1 →
    locks.find? hash2 = some lock2 → ∀ vote1 ∈ lock1.vecConsensusVotes,
      ∀ vote2 ∈ lock2.vecConsensusVotes, vote1.getHash ≠ vote2.getHash

variable {locks : OrderedMap Uint256 CTransactionLock}
  {seen noted : OrderedMap Uint256 CConsensusVote} {answers more : List VoteAnswer}

theorem answered_mono {vote : CConsensusVote} (answered : AnsweredInTop answers vote)
    (grown : answers ⊆ more) : AnsweredInTop more vote := by
  obtain ⟨rank, member, known, top⟩ := answered
  exact ⟨rank, grown member, known, top⟩

theorem VotesKept.mono (kept : VotesKept locks seen answers)
    (counted : ∀ hash, seen.count hash = true → noted.count hash = true)
    (grown : answers ⊆ more) : VotesKept locks noted more where
  named := kept.named
  noted := by
    intro hash lock found vote member
    obtain ⟨named, before, answered⟩ := kept.noted hash lock found vote member
    exact ⟨named, counted _ before, answered_mono answered grown⟩
  distinct := kept.distinct
  apart := kept.apart

theorem VotesKept.empty : VotesKept ∅ seen answers where
  named := by
    intro hash lock found
    simp at found
  noted := by
    intro hash lock found
    simp at found
  distinct := by
    intro hash lock found
    simp at found
  apart := by
    intro hash1 hash2 lock1 lock2 different found
    simp at found

def votesOf (hash : Uint256) (locks : OrderedMap Uint256 CTransactionLock) :
    List CConsensusVote :=
  ((locks.find? hash).map (·.vecConsensusVotes)).getD []

theorem mem_votesOf {hash : Uint256} {vote : CConsensusVote} :
    vote ∈ votesOf hash locks ↔
      ∃ lock, locks.find? hash = some lock ∧ vote ∈ lock.vecConsensusVotes := by
  unfold votesOf
  cases locks.find? hash <;> simp

theorem votesOf_some {hash : Uint256} {lock : CTransactionLock}
    (found : locks.find? hash = some lock) : votesOf hash locks = lock.vecConsensusVotes := by
  simp [votesOf, found]

section
variable (kept : VotesKept locks seen answers)
include kept

variable {lock : CTransactionLock}

variable {hash : Uint256}

theorem VotesKept.set (named : lock.txHash = hash)
    (votes : ∀ vote ∈ lock.vecConsensusVotes,
      vote.txHash = hash ∧ seen.count vote.getHash = true ∧ AnsweredInTop answers vote)
    (distinct : (lock.vecConsensusVotes.map CConsensusVote.getHash).Nodup)
    (away : ∀ other, other ≠ hash → ∀ vote1 ∈ lock.vecConsensusVotes,
      ∀ vote2 ∈ votesOf other locks, vote1.getHash ≠ vote2.getHash) :
    VotesKept (locks.set hash lock) seen answers := by
  constructor
  · intro other found here
    rcases OrderedMap.find?_set_some here with ⟨same, is⟩ | ⟨_, before⟩
    · rw [same, is, named]
    · exact kept.named other found before
  · intro other found here vote member
    rcases OrderedMap.find?_set_some here with ⟨same, is⟩ | ⟨_, before⟩
    · rw [is] at member
      rw [same]
      exact votes vote member
    · exact kept.noted other found before vote member
  · intro other found here
    rcases OrderedMap.find?_set_some here with ⟨_, is⟩ | ⟨_, before⟩
    · rw [is]
      exact distinct
    · exact kept.distinct other found before
  · intro hash1 hash2 lock1 lock2 different here1 here2 vote1 member1 vote2 member2
    rcases OrderedMap.find?_set_some here1 with ⟨same1, is1⟩ | ⟨other1, before1⟩
    · rcases OrderedMap.find?_set_some here2 with ⟨same2, _⟩ | ⟨other2, before2⟩
      · exact absurd (same1.trans same2.symm) different
      · rw [is1] at member1
        exact away hash2 other2 vote1 member1 vote2 (mem_votesOf.mpr ⟨lock2, before2, member2⟩)
    · rcases OrderedMap.find?_set_some here2 with ⟨_, is2⟩ | ⟨_, before2⟩
      · rw [is2] at member2
        have other := away hash1 other1 vote2 member2 vote1
          (mem_votesOf.mpr ⟨lock1, before1, member1⟩)
        exact other.symm
      · exact kept.apart hash1 hash2 lock1 lock2 different before1 before2 vote1 member1 vote2
          member2

theorem VotesKept.reset (named : lock.txHash = hash)
    (same : lock.vecConsensusVotes = votesOf hash locks) :
    VotesKept (locks.set hash lock) seen answers := by
  apply kept.set named
  · intro vote member
    rw [same] at member
    obtain ⟨before, found, inside⟩ := mem_votesOf.mp member
    exact kept.noted hash before found vote inside
  · rw [same]
    cases found : locks.find? hash with
    | none => simp [votesOf, found]
    | some before =>
      rw [votesOf_some found]
      exact kept.distinct hash before found
  · intro other different vote1 member1 vote2 member2
    rw [same] at member1
    obtain ⟨before1, found1, inside1⟩ := mem_votesOf.mp member1
    obtain ⟨before2, found2, inside2⟩ := mem_votesOf.mp member2
    exact kept.apart hash other before1 before2 different.symm found1 found2 vote1 inside1 vote2
      inside2

theorem VotesKept.noted_of_mem {vote : CConsensusVote} (member : vote ∈ votesOf hash locks) :
    seen.count vote.getHash = true := by
  obtain ⟨lock, found, inside⟩ := mem_votesOf.mp member
  exact (kept.noted hash lock found vote inside).2.1

theorem VotesKept.add {ctx : CConsensusVote} (named : lock.txHash = ctx.txHash)
    (votes : lock.vecConsensusVotes = votesOf ctx.txHash locks ++ [ctx])
    (fresh : seen.count ctx.getHash = false) (grown : answers ⊆ more)
    (answered : AnsweredInTop more ctx) :
    VotesKept (locks.set ctx.txHash lock) (seen.set ctx.getHash ctx) more := by
  have unlike : ∀ hash, ∀ vote ∈ votesOf hash locks, vote.getHash ≠ ctx.getHash := by
    intro hash vote member same
    have noted := kept.noted_of_mem member
    rw [same, fresh] at noted
    cases noted
  have counted : ∀ hash, seen.count hash = true → (seen.set ctx.getHash ctx).count hash = true := by
    intro hash before
    rw [count_set, before, Bool.or_true]
  have later := kept.mono counted grown
  apply later.set named
  · intro vote member
    rw [votes] at member
    rcases List.mem_append.mp member with before | last
    · obtain ⟨old, found, inside⟩ := mem_votesOf.mp before
      exact later.noted ctx.txHash old found vote inside
    · rw [List.mem_singleton.mp last, count_set]
      simp [answered]
  · rw [votes, List.map_append, List.nodup_append]
    constructor
    · cases found : locks.find? ctx.txHash with
      | none => simp [votesOf, found]
      | some before =>
        rw [votesOf_some found]
        exact kept.distinct ctx.txHash before found
    · constructor
      · simp
      · intro hash1 member1 hash2 member2
        obtain ⟨vote, inside, is⟩ := List.mem_map.mp member1
        simp only [List.map_cons, List.map_nil, List.mem_singleton] at member2
        rw [member2, ← is]
        exact unlike ctx.txHash vote inside
  · intro other different vote1 member1 vote2 member2
    rw [votes] at member1
    rcases List.mem_append.mp member1 with before | last
    · obtain ⟨before1, found1, inside1⟩ := mem_votesOf.mp before
      obtain ⟨before2, found2, inside2⟩ := mem_votesOf.mp member2
      exact kept.apart ctx.txHash other before1 before2 different.symm found1 found2 vote1 inside1
        vote2 inside2
    · rw [List.mem_singleton.mp last]
      exact (unlike other vote2 member2).symm

theorem VotesKept.drop
    (stays : ∀ key, (∀ vote ∈ votesOf hash locks, vote.getHash ≠ key) →
      seen.count key = true → noted.count key = true) :
    VotesKept (locks.erase hash) noted answers := by
  constructor
  · intro other lock found
    exact kept.named other lock (OrderedMap.find?_erase_some found).2
  · intro other lock found vote member
    obtain ⟨different, old⟩ := OrderedMap.find?_erase_some found
    obtain ⟨named, was, answered⟩ := kept.noted other lock old vote member
    have away : ∀ taken ∈ votesOf hash locks, taken.getHash ≠ vote.getHash := by
      intro taken inside
      obtain ⟨gone, found', inside'⟩ := mem_votesOf.mp inside
      exact kept.apart hash other gone lock different.symm found' old taken inside' vote member
    exact ⟨named, stays _ away was, answered⟩
  · intro other lock found
    exact kept.distinct other lock (OrderedMap.find?_erase_some found).2
  · intro hash1 hash2 lock1 lock2 different found1 found2
    exact kept.apart hash1 hash2 lock1 lock2 different (OrderedMap.find?_erase_some found1).2
      (OrderedMap.find?_erase_some found2).2

theorem VotesKept.supported (found : locks.find? hash = some lock)
    (complete : INSTANTTX_SIGNATURES_REQUIRED ≤ lock.countSignatures) :
    Supported answers hash lock := by
  constructor
  · unfold CTransactionLock.countSignatures at complete
    split at complete
    · simp [INSTANTTX_SIGNATURES_REQUIRED] at complete
    · rw [List.countP_eq_length_filter] at complete
      exact complete
  · intro vote member
    obtain ⟨inside, height⟩ := List.mem_filter.mp member
    obtain ⟨named, _, answered⟩ := kept.noted hash lock found vote inside
    exact ⟨named, by simpa using height, answered⟩
  · have hashes : ((countedVotes lock).map CConsensusVote.getHash).Nodup := by
      have inside : (countedVotes lock).Sublist lock.vecConsensusVotes := List.filter_sublist
      exact (inside.map CConsensusVote.getHash).nodup (kept.distinct hash lock found)
    -- within one lock the voter's outpoint gives the vote's hash
    have through : (countedVotes lock).map CConsensusVote.getHash =
        ((countedVotes lock).map (·.vinMasternode.prevout)).map fun out =>
          out.hash + BitVec.ofNat 256 out.n.toNat + hash := by
      rw [List.map_map]
      apply List.map_congr_left
      intro vote member
      have inside := (List.mem_filter.mp member).1
      rw [← (kept.noted hash lock found vote inside).1]
      rfl
    rw [through] at hashes
    exact hashes.of_map _

end

end Votes

section Conflicts

/-- Locks that were found in conflict stand, and end at a time when they were. -/
structure ConflictsKept (locks : OrderedMap Uint256 CTransactionLock)
    (conflicts : List (Uint256 × Int64)) : Prop where
  stand : ∀ hash time, (hash, time) ∈ conflicts → locks.count hash = true
  expire : ∀ hash lock time, locks.find? hash = some lock → (hash, time) ∈ conflicts →
    ∃ last, (hash, last) ∈ conflicts ∧ lock.nExpiration = last.toInt32

variable {locks : OrderedMap Uint256 CTransactionLock} {conflicts : List (Uint256 × Int64)}

theorem foundIn_iff {hash : Uint256} :
    foundIn conflicts hash = true ↔ ∃ time, (hash, time) ∈ conflicts := by
  unfold foundIn
  rw [List.any_eq_true]
  constructor
  · intro ⟨⟨other, time⟩, member, same⟩
    rw [beq_iff_eq] at same
    exact ⟨time, by rw [← same]; exact member⟩
  · intro ⟨time, member⟩
    exact ⟨_, member, by simp⟩

theorem ConflictsKept.set (kept : ConflictsKept locks conflicts) {hash : Uint256}
    {lock : CTransactionLock}
    (ends : ∀ before, locks.find? hash = some before → lock.nExpiration = before.nExpiration) :
    ConflictsKept (locks.set hash lock) conflicts := by
  constructor
  · intro other time member
    rw [count_set, kept.stand other time member, Bool.or_true]
  · intro other found time stands member
    rcases OrderedMap.find?_set_some stands with ⟨same, is⟩ | ⟨_, earlier⟩
    · have counted := kept.stand other time member
      rw [same, OrderedMap.count, Option.isSome_iff_exists] at counted
      obtain ⟨before, present⟩ := counted
      rw [same] at member ⊢
      rw [is]
      obtain ⟨last, inside, ended⟩ := kept.expire hash before time present member
      exact ⟨last, inside, (ends before present).trans ended⟩
    · exact kept.expire other found time earlier member

theorem ConflictsKept.end (kept : ConflictsKept locks conflicts) {call : TxlvoteCall}
    {hash : Uint256} (present : locks.count hash = true) :
    ConflictsKept (call.expire hash locks) ((hash, call.time) :: conflicts) := by
  rw [OrderedMap.count, Option.isSome_iff_exists] at present
  obtain ⟨before, found⟩ := present
  unfold TxlvoteCall.expire
  rw [found]
  constructor
  · intro other time member
    rw [count_set]
    rcases List.mem_cons.mp member with now | earlier
    · cases now
      simp
    · rw [kept.stand other time earlier, Bool.or_true]
  · intro other lock time stands member
    rcases OrderedMap.find?_set_some stands with ⟨same, is⟩ | ⟨different, before⟩
    · rw [is]
      exact ⟨call.time, by rw [same]; exact List.mem_cons_self, rfl⟩
    · rcases List.mem_cons.mp member with now | earlier
      · cases now
        exact absurd rfl different
      · obtain ⟨last, inside, ended⟩ := kept.expire other lock time before earlier
        exact ⟨last, List.mem_cons_of_mem _ inside, ended⟩

theorem ConflictsKept.within {left : OrderedMap Uint256 CTransactionLock}
    (kept : ConflictsKept locks conflicts)
    (inside : ∀ hash lock, left.find? hash = some lock → locks.find? hash = some lock) :
    ConflictsKept left (conflicts.filter fun found => left.count found.1) := by
  constructor
  · intro hash time member
    exact (List.mem_filter.mp member).2
  · intro hash lock time stands member
    obtain ⟨before, counted⟩ := List.mem_filter.mp member
    obtain ⟨last, noted, ended⟩ := kept.expire hash lock time (inside hash lock stands) before
    exact ⟨last, List.mem_filter.mpr ⟨noted, counted⟩, ended⟩

end Conflicts

section Inputs

open IxCall (isComplete)

variable (txHash : CTransaction → Uint256) (cancelled : Uint256 → Bool)

/-- A transaction with a complete lock is requested, an input is locked only for such a
    one that spends it, and all inputs of one are that is not cancelled. -/
structure InputsKept (maps : LockMaps) : Prop where
  requests : ∀ hash tx, maps.mapTxLockReq.find? hash = some tx → txHash tx = hash
  settled : ∀ hash tx, maps.mapTxLockReq.find? hash = some tx →
    maps.mapTxLockReqRejected.find? hash = none
  known : ∀ hash, isComplete hash maps = true →
    ∃ tx, maps.mapTxLockReq.find? hash = some tx
  locked : ∀ hash tx, isComplete hash maps = true → cancelled hash = false →
    maps.mapTxLockReq.find? hash = some tx →
      ∀ txin ∈ tx.vin, maps.mapLockedInputs.find? txin.prevout = some hash
  held : ∀ out hash, maps.mapLockedInputs.find? out = some hash →
    isComplete hash maps = true ∧
      ∃ tx, maps.mapTxLockReq.find? hash = some tx ∧ out ∈ tx.vin.map (·.prevout)

variable {txHash} {cancelled more : Uint256 → Bool} {maps after : LockMaps}

theorem isComplete_iff {hash : Uint256} :
    isComplete hash maps = true ↔ ∃ lock, maps.mapTxLocks.find? hash = some lock ∧
      INSTANTTX_SIGNATURES_REQUIRED ≤ lock.countSignatures := by
  unfold isComplete
  cases maps.mapTxLocks.find? hash <;> simp

theorem isComplete_congr {hash : Uint256}
    (same : after.mapTxLocks.find? hash = maps.mapTxLocks.find? hash) :
    isComplete hash after = isComplete hash maps := by
  unfold isComplete
  rw [same]

theorem InputsKept.frame (kept : InputsKept txHash cancelled maps)
    (complete : ∀ hash, isComplete hash after = isComplete hash maps)
    (requests : after.mapTxLockReq = maps.mapTxLockReq)
    (rejected : after.mapTxLockReqRejected = maps.mapTxLockReqRejected)
    (locked : after.mapLockedInputs = maps.mapLockedInputs) :
    InputsKept txHash cancelled after := by
  constructor
  · rw [requests]
    exact kept.requests
  · rw [requests, rejected]
    exact kept.settled
  · intro hash stands
    rw [complete] at stands
    rw [requests]
    exact kept.known hash stands
  · intro hash tx stands standing
    rw [complete] at stands
    rw [requests, locked]
    exact kept.locked hash tx stands standing
  · intro out hash found
    rw [locked] at found
    rw [complete, requests]
    exact kept.held out hash found

theorem InputsKept.mono (kept : InputsKept txHash cancelled maps)
    (grown : ∀ hash, isComplete hash maps = true → cancelled hash = true → more hash = true) :
    InputsKept txHash more maps where
  requests := kept.requests
  settled := kept.settled
  known := kept.known
  locked := by
    intro hash tx complete standing
    have before : cancelled hash = false := by
      apply Bool.eq_false_iff.mpr
      intro was
      rw [grown hash complete was] at standing
      cases standing
    exact kept.locked hash tx complete before
  held := kept.held

theorem InputsKept.requested (kept : InputsKept txHash cancelled maps) {hash : Uint256}
    {tx : CTransaction} (requested : Requested maps hash tx)
    (complete : isComplete hash maps = true) : maps.mapTxLockReq.find? hash = some tx := by
  obtain ⟨known, found⟩ := kept.known hash complete
  rcases requested with here | rejected
  · exact here
  · rw [kept.settled hash known found] at rejected
    cases rejected

end Inputs

section Requests

open IxCall (isComplete)

variable {txHash : CTransaction → Uint256} {cancelled : Uint256 → Bool} {maps : LockMaps}
  {call : IxCall} {tx : CTransaction}

theorem createNewLock_cases
    (named : ∀ lock, maps.mapTxLocks.find? (txHash tx) = some lock → lock.txHash = txHash tx) :
    (call.createNewLock txHash tx maps).2 = maps ∨
      ∃ lock, (call.createNewLock txHash tx maps).2 =
          { maps with mapTxLocks := maps.mapTxLocks.set (txHash tx) lock } ∧
        lock.txHash = txHash tx ∧
        lock.vecConsensusVotes = votesOf (txHash tx) maps.mapTxLocks ∧
        ∀ before, maps.mapTxLocks.find? (txHash tx) = some before →
          lock.nExpiration = before.nExpiration := by
  unfold IxCall.createNewLock
  split
  · exact .inl rfl
  · right
    cases found : maps.mapTxLocks.find? (txHash tx) with
    | none => exact ⟨_, rfl, rfl, by simp [votesOf, found, TxlvoteCall.newLock], nofun⟩
    | some lock =>
      refine ⟨_, rfl, named lock found, by rw [votesOf_some found], ?_⟩
      intro before same
      cases same
      rfl

theorem takesUp_absent (taken : call.takesUp txHash tx maps = true) :
    maps.mapTxLockReq.find? (txHash tx) = none ∧
      maps.mapTxLockReqRejected.find? (txHash tx) = none := by
  unfold IxCall.takesUp OrderedMap.count at taken
  simp only [Bool.and_eq_true, Bool.not_eq_true', Bool.or_eq_false_iff,
    Option.isSome_eq_false_iff, Option.isNone_iff_eq_none] at taken
  exact taken.1.1.2

theorem InputsKept.newLock (kept : InputsKept txHash cancelled maps)
    (absent : maps.mapTxLockReq.find? (txHash tx) = none)
    (named : ∀ lock, maps.mapTxLocks.find? (txHash tx) = some lock → lock.txHash = txHash tx)
    (incomplete : isComplete (txHash tx) (call.createNewLock txHash tx maps).2 = false) :
    InputsKept txHash cancelled (call.createNewLock txHash tx maps).2 := by
  have before : isComplete (txHash tx) maps = false := by
    apply Bool.eq_false_iff.mpr
    intro complete
    obtain ⟨known, found⟩ := kept.known _ complete
    rw [absent] at found
    cases found
  rcases @createNewLock_cases txHash maps call tx named with same | ⟨lock, is, _, _, _⟩
  · rw [same]
    exact kept
  · rw [is] at incomplete ⊢
    refine kept.frame ?_ rfl rfl rfl
    intro hash
    by_cases same : hash = txHash tx
    · rw [same, incomplete, before]
    · exact isComplete_congr (OrderedMap.find?_set_other maps.mapTxLocks lock same)

theorem InputsKept.accept (kept : InputsKept txHash cancelled maps)
    (absent : maps.mapTxLockReq.find? (txHash tx) = none)
    (unrefused : maps.mapTxLockReqRejected.find? (txHash tx) = none) :
    InputsKept txHash cancelled
      { maps with mapTxLockReq := maps.mapTxLockReq.insert (txHash tx) tx } := by
  have same : (maps.mapTxLockReq.insert (txHash tx) tx).find? (txHash tx) = some tx := by
    rw [OrderedMap.find?_insert_same, absent]
    rfl
  have incomplete : ∀ hash, isComplete hash maps = true → hash ≠ txHash tx := by
    intro hash complete here
    obtain ⟨known, found⟩ := kept.known hash complete
    rw [here, absent] at found
    cases found
  constructor
  · intro hash known found
    by_cases here : hash = txHash tx
    · rw [here, same] at found
      cases found
      exact here.symm
    · rw [OrderedMap.find?_insert_other _ _ here] at found
      exact kept.requests hash known found
  · intro hash known found
    by_cases here : hash = txHash tx
    · rw [here]
      exact unrefused
    · rw [OrderedMap.find?_insert_other _ _ here] at found
      exact kept.settled hash known found
  · intro hash complete
    rw [OrderedMap.find?_insert_other _ _ (incomplete hash complete)]
    exact kept.known hash complete
  · intro hash known complete standing found
    rw [OrderedMap.find?_insert_other _ _ (incomplete hash complete)] at found
    exact kept.locked hash known complete standing found
  · intro out hash found
    obtain ⟨complete, request⟩ := kept.held out hash found
    rw [OrderedMap.find?_insert_other _ _ (incomplete hash complete)]
    exact ⟨complete, request⟩

theorem rejectRequest_incomplete (incomplete : isComplete (txHash tx) maps = false) :
    call.rejectRequest txHash tx (IxCall.refuse txHash tx maps) =
      IxCall.refuse txHash tx maps := by
  unfold IxCall.rejectRequest
  rw [if_neg]
  exact Bool.eq_false_iff.mp incomplete

theorem InputsKept.reject (kept : InputsKept txHash cancelled maps)
    (absent : maps.mapTxLockReq.find? (txHash tx) = none)
    (incomplete : isComplete (txHash tx) maps = false)
    (locked : ∀ txin ∈ tx.vin, maps.mapLockedInputs.count txin.prevout = true) :
    InputsKept txHash cancelled
      (call.rejectRequest txHash tx (IxCall.refuse txHash tx maps)) := by
  have inputs : ∀ out, (IxCall.refuse txHash tx maps).mapLockedInputs.find? out =
      maps.mapLockedInputs.find? out := by
    intro out
    unfold IxCall.refuse
    rw [find?_lockInputs]
    cases found : maps.mapLockedInputs.find? out with
    | some hash => rfl
    | none =>
      have unlisted : out ∉ tx.vin.map (·.prevout) := by
        intro member
        obtain ⟨txin, inside, is⟩ := List.mem_map.mp member
        have counted := locked txin inside
        rw [is, OrderedMap.count, found] at counted
        cases counted
      simp [unlisted]
  rw [rejectRequest_incomplete incomplete]
  constructor
  · exact kept.requests
  · intro hash known found
    have different : hash ≠ txHash tx := by
      intro here
      change maps.mapTxLockReq.find? hash = some known at found
      rw [here, absent] at found
      cases found
    unfold IxCall.refuse
    rw [OrderedMap.find?_insert_other _ _ different]
    exact kept.settled hash known found
  · exact kept.known
  · intro hash known complete standing found txin member
    rw [inputs]
    exact kept.locked hash known complete standing found txin member
  · intro out hash found
    rw [inputs] at found
    exact kept.held out hash found

end Requests

section Completion

open IxCall (isComplete)

variable {txHash : CTransaction → Uint256} {cancelled : Uint256 → Bool} {maps after : LockMaps}
  {call : TxlvoteCall} {ctx : CConsensusVote}

def votedLocks (call : TxlvoteCall) (ctx : CConsensusVote) (maps : LockMaps) :
    OrderedMap Uint256 CTransactionLock :=
  maps.mapTxLocks.set ctx.txHash (votedLock call ctx maps)

/-- What a vote does to the locks and the inputs: its lock is not complete, or it is, and
    locks its inputs or is found in conflict with another. -/
inductive Voted (txHash : CTransaction → Uint256) (call : TxlvoteCall) (ctx : CConsensusVote)
    (maps after : LockMaps) : Prop where
  | short (few : completes call ctx maps = false)
      (locks : after.mapTxLocks = votedLocks call ctx maps)
      (inputs : after.mapLockedInputs = maps.mapLockedInputs)
  | locks (tx : CTransaction) (enough : completes call ctx maps = true)
      (known : maps.mapTxLockReq.find? ctx.txHash = some tx)
      (clear : TxlvoteCall.conflict txHash tx maps.mapLockedInputs = none)
      (locks : after.mapTxLocks = votedLocks call ctx maps)
      (inputs : ∀ out, after.mapLockedInputs.find? out = ((maps.mapLockedInputs.find? out).or
        (if out ∈ tx.vin.map (·.prevout) then some ctx.txHash else none)))
  | conflicts (tx : CTransaction) (other : Uint256) (enough : completes call ctx maps = true)
      (known : maps.mapTxLockReq.find? ctx.txHash = some tx)
      (found : TxlvoteCall.conflict txHash tx maps.mapLockedInputs = some other)
      (locks : after.mapTxLocks =
        call.expire other (call.expire (txHash tx) (votedLocks call ctx maps)))
      (inputs : after.mapLockedInputs = maps.mapLockedInputs)

structure SameRequests (maps after : LockMaps) : Prop where
  requests : ∀ hash, after.mapTxLockReq.find? hash = maps.mapTxLockReq.find? hash
  rejected : after.mapTxLockReqRejected = maps.mapTxLockReqRejected

theorem limits_maps (maps : LockMaps) : ∃ unknown,
    (call.limits ctx maps).2 = { maps with mapUnknownVotes := unknown } := by
  unfold TxlvoteCall.limits
  dsimp only
  split
  · exact ⟨_, rfl⟩
  · split
    · exact ⟨_, rfl⟩
    · exact ⟨_, rfl⟩

theorem addVote_eq :
    call.addVote txHash ctx maps =
      if completes call ctx maps = true then
        call.complete txHash (votedLock call ctx maps) ctx.txHash
          { maps with mapTxLocks := votedLocks call ctx maps }
      else (false, { maps with mapTxLocks := votedLocks call ctx maps }) := by
  unfold completes
  simp only [decide_eq_true_eq]
  rfl

theorem addVote_voted (minded : voteMinds call ctx maps = true) :
    Voted txHash call ctx maps (call.addVote txHash ctx maps).2 ∧
      SameRequests maps (call.addVote txHash ctx maps).2 := by
  rw [addVote_eq]
  cases enough : completes call ctx maps with
  | false => exact ⟨.short enough rfl rfl, fun _ => rfl, rfl⟩
  | true =>
    have present : maps.mapTxLockReq.count ctx.txHash = true := by
      rw [voteMinds, enough, Bool.not_true, Bool.false_or] at minded
      exact minded
    rw [OrderedMap.count, Option.isSome_iff_exists] at present
    obtain ⟨tx, known⟩ := present
    have requests : ∀ hash, (maps.mapTxLockReq.insert ctx.txHash CTransaction.fresh).find? hash =
        maps.mapTxLockReq.find? hash := by
      intro hash
      by_cases here : hash = ctx.txHash
      · rw [here, OrderedMap.find?_insert_same, known]
        rfl
      · exact OrderedMap.find?_insert_other _ _ here
    unfold TxlvoteCall.complete TxlvoteCall.checkForConflictingLocks
    simp only [known, Option.getD_some]
    cases clear : TxlvoteCall.conflict txHash tx maps.mapLockedInputs with
    | none =>
      exact ⟨.locks tx enough known clear rfl (find?_lockInputs ctx.txHash tx.vin _), requests, rfl⟩
    | some other => exact ⟨.conflicts tx other enough known clear rfl rfl, requests, rfl⟩

theorem castsVote_voted (minded : voteMinds call ctx maps = true) :
    Voted txHash call ctx maps (call.castsVote txHash ctx maps).2 ∧
      SameRequests maps (call.castsVote txHash ctx maps).2 := by
  obtain ⟨voted, same⟩ := @addVote_voted txHash maps call ctx minded
  obtain ⟨unknown, is⟩ := @limits_maps call ctx (call.addVote txHash ctx maps).2
  unfold TxlvoteCall.castsVote
  rw [is]
  refine ⟨?_, same.requests, same.rejected⟩
  cases voted with
  | short few locks inputs => exact .short few locks inputs
  | locks tx enough known clear locks inputs => exact .locks tx enough known clear locks inputs
  | conflicts tx other enough known found locks inputs =>
    exact .conflicts tx other enough known found locks inputs

theorem votedLock_votes :
    (votedLock call ctx maps).vecConsensusVotes = votesOf ctx.txHash maps.mapTxLocks ++ [ctx] := by
  unfold votedLock votesOf CTransactionLock.addSignature
  cases maps.mapTxLocks.find? ctx.txHash <;> rfl

theorem votedLock_txHash
    (named : ∀ lock, maps.mapTxLocks.find? ctx.txHash = some lock → lock.txHash = ctx.txHash) :
    (votedLock call ctx maps).txHash = ctx.txHash := by
  unfold votedLock CTransactionLock.addSignature
  cases found : maps.mapTxLocks.find? ctx.txHash with
  | none => rfl
  | some lock => exact named lock found

theorem votedLock_nExpiration {before : CTransactionLock}
    (found : maps.mapTxLocks.find? ctx.txHash = some before) :
    (votedLock call ctx maps).nExpiration = before.nExpiration := by
  simp [votedLock, CTransactionLock.addSignature, found]

theorem completes_of_complete (complete : isComplete ctx.txHash maps = true) :
    completes call ctx maps = true := by
  obtain ⟨lock, found, enough⟩ := isComplete_iff.mp complete
  unfold completes votedLock CTransactionLock.addSignature CTransactionLock.countSignatures
  unfold CTransactionLock.countSignatures at enough
  rw [found, decide_eq_true_eq]
  simp only [Option.getD_some]
  split at enough
  · simp [INSTANTTX_SIGNATURES_REQUIRED] at enough
  · rename_i height
    rw [if_neg height, List.countP_append]
    omega

variable {locks : OrderedMap Uint256 CTransactionLock}

theorem expire_find? (ended hash : Uint256) :
    (call.expire ended locks).find? hash = (locks.find? hash).map fun lock =>
      if hash = ended then { lock with nExpiration := call.time.toInt32 } else lock := by
  unfold TxlvoteCall.expire
  by_cases same : hash = ended
  · rw [same]
    cases found : locks.find? ended <;> simp [found]
  · cases found : locks.find? ended with
    | none => cases locks.find? hash <;> simp [same]
    | some lock =>
      rw [OrderedMap.find?_set_other locks _ same]
      cases locks.find? hash <;> simp [same]

theorem isComplete_expire {ended hash : Uint256} (is : after.mapTxLocks = call.expire ended locks) :
    isComplete hash after = isComplete hash { maps with mapTxLocks := locks } := by
  unfold isComplete
  rw [is, expire_find?]
  cases locks.find? hash with
  | none => rfl
  | some lock =>
    by_cases same : hash = ended
    · simp only [Option.map_some, if_pos same]
      rfl
    · simp only [Option.map_some, if_neg same]

theorem VotesKept.expire {seen : OrderedMap Uint256 CConsensusVote} {answers : List VoteAnswer}
    (kept : VotesKept locks seen answers) (ended : Uint256) :
    VotesKept (call.expire ended locks) seen answers := by
  unfold TxlvoteCall.expire
  cases found : locks.find? ended with
  | none => exact kept
  | some lock => exact kept.reset (kept.named ended lock found) (votesOf_some found).symm

theorem Voted.isComplete (voted : Voted txHash call ctx maps after) (hash : Uint256) :
    isComplete hash after =
      if hash = ctx.txHash then completes call ctx maps else isComplete hash maps := by
  have plain : IxCall.isComplete hash { maps with mapTxLocks := votedLocks call ctx maps } =
      if hash = ctx.txHash then completes call ctx maps else IxCall.isComplete hash maps := by
    unfold IxCall.isComplete votedLocks completes
    by_cases same : hash = ctx.txHash
    · simp [same]
    · simp [same, OrderedMap.find?_set_other _ _ same]
  cases voted with
  | short few locks inputs => exact (isComplete_congr (by rw [locks])).trans plain
  | locks tx enough known clear locks inputs => exact (isComplete_congr (by rw [locks])).trans plain
  | conflicts tx other enough known found locks inputs =>
    rw [@isComplete_expire maps _ _ _ _ _ locks]
    exact (@isComplete_expire maps _ _ _ _ _ rfl).trans plain

variable {locked : OrderedMap COutPoint Uint256}

theorem conflict_none {tx : CTransaction} (clear : TxlvoteCall.conflict txHash tx locked = none)
    {txin : CTxIn} (member : txin ∈ tx.vin) {hash : Uint256}
    (found : locked.find? txin.prevout = some hash) : hash = txHash tx := by
  unfold TxlvoteCall.conflict at clear
  rw [List.find?_eq_none] at clear
  have same := clear hash (List.mem_filterMap.mpr ⟨txin, member, found⟩)
  simpa using same

theorem conflict_some {tx : CTransaction} {other : Uint256}
    (found : TxlvoteCall.conflict txHash tx locked = some other) :
    ∃ out, locked.find? out = some other := by
  obtain ⟨txin, _, stands⟩ := List.mem_filterMap.mp (List.mem_of_find?_eq_some found)
  exact ⟨_, stands⟩

section Voting

variable {more : Uint256 → Bool} (voted : Voted txHash call ctx maps after)
include voted

theorem voted_own : isComplete ctx.txHash after = completes call ctx maps := by
  rw [voted.isComplete, if_pos rfl]

variable {hash : Uint256}

theorem voted_lasts (complete : isComplete hash maps = true) : isComplete hash after = true := by
  rw [voted.isComplete]
  split
  · rename_i here
    rw [here] at complete
    exact completes_of_complete complete
  · exact complete

theorem voted_before (different : hash ≠ ctx.txHash) (complete : isComplete hash after = true) :
    isComplete hash maps = true := by
  rwa [voted.isComplete, if_neg different] at complete

theorem InputsKept.vote_locked (kept : InputsKept txHash cancelled maps)
    (grown : ∀ hash, cancelled hash = true → more hash = true)
    (noted : ∀ tx other, completes call ctx maps = true →
      maps.mapTxLockReq.find? ctx.txHash = some tx →
      TxlvoteCall.conflict txHash tx maps.mapLockedInputs = some other → more ctx.txHash = true)
    {tx : CTransaction} (complete : isComplete hash after = true) (fresh : more hash = false)
    (found : maps.mapTxLockReq.find? hash = some tx) {txin : CTxIn} (member : txin ∈ tx.vin) :
    after.mapLockedInputs.find? txin.prevout = some hash := by
  have standing : cancelled hash = false := by
    apply Bool.eq_false_iff.mpr
    intro was
    rw [grown hash was] at fresh
    cases fresh
  have old : hash ≠ ctx.txHash → maps.mapLockedInputs.find? txin.prevout = some hash :=
    fun different =>
      kept.locked hash tx (voted_before voted different complete) standing found txin member
  have own := voted_own voted
  cases voted with
  | short few locks inputs =>
    have different : hash ≠ ctx.txHash := by
      intro here
      rw [here, own, few] at complete
      cases complete
    rw [inputs]
    exact old different
  | locks request enough known clear locks inputs =>
    rw [inputs]
    by_cases here : hash = ctx.txHash
    · rw [here, known] at found
      cases found
      have listed : txin.prevout ∈ tx.vin.map (·.prevout) := List.mem_map_of_mem member
      rw [if_pos listed]
      cases stands : maps.mapLockedInputs.find? txin.prevout with
      | none => rw [here, Option.none_or]
      | some other =>
        rw [Option.some_or, conflict_none clear member stands, kept.requests _ tx known, here]
    · rw [old here, Option.some_or]
  | conflicts request other enough known conflict locks inputs =>
    have different : hash ≠ ctx.txHash := by
      intro here
      rw [here, noted request other enough known conflict] at fresh
      cases fresh
    rw [inputs]
    exact old different

theorem InputsKept.vote_held (kept : InputsKept txHash cancelled maps) {out : COutPoint}
    (found : after.mapLockedInputs.find? out = some hash) :
    isComplete hash after = true ∧ ∃ tx, maps.mapTxLockReq.find? hash = some tx ∧
      out ∈ tx.vin.map (·.prevout) := by
  have was : maps.mapLockedInputs.find? out = some hash →
      isComplete hash after = true ∧ ∃ tx, maps.mapTxLockReq.find? hash = some tx ∧
        out ∈ tx.vin.map (·.prevout) := by
    intro stood
    obtain ⟨complete, request⟩ := kept.held out hash stood
    exact ⟨voted_lasts voted complete, request⟩
  have own := voted_own voted
  cases voted with
  | short few locks inputs =>
    rw [inputs] at found
    exact was found
  | locks tx enough known clear locks inputs =>
    rw [inputs] at found
    cases stood : maps.mapLockedInputs.find? out with
    | some other =>
      rw [stood, Option.some_or] at found
      cases found
      exact was stood
    | none =>
      rw [stood, Option.none_or] at found
      split at found
      · rename_i listed
        cases found
        exact ⟨own.trans enough, tx, known, listed⟩
      · cases found
  | conflicts tx other enough known conflict locks inputs =>
    rw [inputs] at found
    exact was found

theorem InputsKept.vote (kept : InputsKept txHash cancelled maps) (same : SameRequests maps after)
    (grown : ∀ hash, cancelled hash = true → more hash = true)
    (noted : ∀ tx other, completes call ctx maps = true →
      maps.mapTxLockReq.find? ctx.txHash = some tx →
      TxlvoteCall.conflict txHash tx maps.mapLockedInputs = some other →
        more ctx.txHash = true) : InputsKept txHash more after := by
  constructor
  · intro hash tx found
    rw [same.requests] at found
    exact kept.requests hash tx found
  · intro hash tx found
    rw [same.requests] at found
    rw [same.rejected]
    exact kept.settled hash tx found
  · intro hash complete
    rw [same.requests]
    by_cases here : hash = ctx.txHash
    · rw [here]
      have own := voted_own voted
      cases voted with
      | short few locks inputs =>
        rw [here, own, few] at complete
        cases complete
      | locks tx enough known clear locks inputs => exact ⟨tx, known⟩
      | conflicts tx other enough known found locks inputs => exact ⟨tx, known⟩
    · exact kept.known hash (voted_before voted here complete)
  · intro hash tx complete fresh found txin member
    rw [same.requests] at found
    exact InputsKept.vote_locked voted kept grown noted complete fresh found member
  · intro out hash found
    simp only [same.requests]
    exact InputsKept.vote_held voted kept found

end Voting

end Completion

section Steps

open IxCall (isComplete)

variable {txHash : CTransaction → Uint256}

structure LockInvariant (txHash : CTransaction → Uint256) (state : InstantTXState)
    (answers : List VoteAnswer) (cancelled : Uint256 → Bool) : Prop where
  votes : VotesKept state.maps.mapTxLocks state.mapTxLockVote answers
  inputs : InputsKept txHash cancelled state.maps

variable {state : InstantTXState} {answers : List VoteAnswer}
  {conflicts : List (Uint256 × Int64)}

variable {hash : Uint256}

theorem dropLock_cases {lock : CTransactionLock} (named : lock.txHash = hash) :
    (state.maps.mapTxLockReq.find? hash = none ∧ dropLock hash lock state =
      { state with maps := { state.maps with
        mapTxLocks := state.maps.mapTxLocks.erase hash } }) ∨
    ∃ tx, state.maps.mapTxLockReq.find? hash = some tx ∧ dropLock hash lock state =
      { state with
        mapTxLockVote := lock.vecConsensusVotes.foldl
          (fun votes (v : CConsensusVote) => votes.erase v.getHash) state.mapTxLockVote
        maps := { state.maps with
          mapTxLocks := state.maps.mapTxLocks.erase hash
          mapLockedInputs := tx.vin.foldl
            (fun locked (txin : CTxIn) => locked.erase txin.prevout) state.maps.mapLockedInputs
          mapTxLockReq := state.maps.mapTxLockReq.erase hash
          mapTxLockReqRejected := state.maps.mapTxLockReqRejected.erase hash } } := by
  unfold dropLock
  rw [named]
  cases found : state.maps.mapTxLockReq.find? hash with
  | none => exact .inl ⟨rfl, rfl⟩
  | some tx => exact .inr ⟨tx, rfl, rfl⟩

theorem isComplete_erase {maps after : LockMaps} {key hash : Uint256}
    (erased : after.mapTxLocks = maps.mapTxLocks.erase key) :
    isComplete hash after = (decide (hash ≠ key) && isComplete hash maps) := by
  unfold isComplete
  rw [erased]
  by_cases same : hash = key
  · rw [same, OrderedMap.find?_erase_same]
    simp
  · rw [OrderedMap.find?_erase_other _ same]
    simp [same]

theorem InputsKept.drop {maps : LockMaps} {cancelled : Uint256 → Bool}
    (kept : InputsKept txHash cancelled maps) {tx : CTransaction}
    (known : maps.mapTxLockReq.find? hash = some tx)
    (unshared : ∀ txin ∈ tx.vin, ∀ other, cancelled other = false →
      maps.mapLockedInputs.find? txin.prevout = some other → other = hash) :
    InputsKept txHash cancelled { maps with
      mapTxLocks := maps.mapTxLocks.erase hash
      mapLockedInputs := tx.vin.foldl
        (fun locked (txin : CTxIn) => locked.erase txin.prevout) maps.mapLockedInputs
      mapTxLockReq := maps.mapTxLockReq.erase hash
      mapTxLockReqRejected := maps.mapTxLockReqRejected.erase hash } := by
  constructor
  · intro other request stands
    exact kept.requests other request (OrderedMap.find?_erase_some stands).2
  · intro other request stands
    obtain ⟨different, before⟩ := OrderedMap.find?_erase_some stands
    rw [OrderedMap.find?_erase_other _ different]
    exact kept.settled other request before
  · intro other complete
    rw [@isComplete_erase maps _ hash other rfl, Bool.and_eq_true,
      decide_eq_true_eq] at complete
    rw [OrderedMap.find?_erase_other _ complete.1]
    exact kept.known other complete.2
  · intro other request complete fresh stands txin member
    rw [@isComplete_erase maps _ hash other rfl, Bool.and_eq_true,
      decide_eq_true_eq] at complete
    obtain ⟨different, before⟩ := OrderedMap.find?_erase_some stands
    have own := kept.locked other request complete.2 fresh before txin member
    have unlisted : txin.prevout ∉ tx.vin.map (·.prevout) := by
      intro listed
      obtain ⟨spent, inside, same⟩ := List.mem_map.mp listed
      exact different (unshared spent inside other fresh (by rw [same, own]))
    rw [find?_freeInputs, if_neg unlisted]
    exact own
  · intro out other stands
    rw [find?_freeInputs] at stands
    split at stands
    · cases stands
    · rename_i unlisted
      obtain ⟨complete, request, requested, inside⟩ := kept.held out other stands
      have different : other ≠ hash := by
        intro same
        rw [same, known] at requested
        cases requested
        exact unlisted inside
      rw [@isComplete_erase maps _ hash other rfl, complete]
      rw [OrderedMap.find?_erase_other _ different]
      exact ⟨by simp [different], request, requested, inside⟩

theorem LockInvariant.drop (kept : LockInvariant txHash state answers (foundIn conflicts))
    {lock : CTransactionLock} (found : state.maps.mapTxLocks.find? hash = some lock)
    (minded : dropMinds conflicts lock state.maps = true) :
    LockInvariant txHash (dropLock hash lock state) answers (foundIn conflicts) := by
  have named := kept.votes.named hash lock found
  unfold dropMinds at minded
  rw [named] at minded
  rcases @dropLock_cases state hash lock named with ⟨absent, is⟩ | ⟨tx, known, is⟩
  · rw [is]
    constructor
    · exact kept.votes.drop fun _ _ counted => counted
    · refine kept.inputs.frame ?_ rfl rfl rfl
      intro other
      rw [@isComplete_erase state.maps _ hash other rfl]
      by_cases same : other = hash
      · have incomplete : isComplete hash state.maps = false := by
          apply Bool.eq_false_iff.mpr
          intro complete
          obtain ⟨known, stands⟩ := kept.inputs.known hash complete
          rw [absent] at stands
          cases stands
        simp [same, incomplete]
      · simp [same]
  · rw [is]
    have unshared : ∀ txin ∈ tx.vin, ∀ other, foundIn conflicts other = false →
        state.maps.mapLockedInputs.find? txin.prevout = some other → other = hash := by
      intro txin member other fresh stands
      rw [known] at minded
      simp only [Option.all_some, List.all_eq_true] at minded
      have only := minded txin member
      rw [stands, Option.all_some, fresh, Bool.or_false, beq_iff_eq] at only
      exact only
    constructor
    · apply kept.votes.drop
      intro key away counted
      apply count_eraseVotes _ _ _ counted
      rw [votesOf_some found] at away
      exact away
    · exact kept.inputs.drop known unshared

theorem dropLock_other {hash other : Uint256} {lock kept : CTransactionLock}
    (named : lock.txHash = hash) (named' : kept.txHash = other) (different : other ≠ hash)
    (minded : dropMinds conflicts kept state.maps = true) :
    (dropLock hash lock state).maps.mapTxLocks.find? other =
        state.maps.mapTxLocks.find? other ∧
      dropMinds conflicts kept (dropLock hash lock state).maps = true := by
  unfold dropMinds at minded ⊢
  rw [named'] at minded ⊢
  rcases @dropLock_cases state hash lock named with ⟨_, is⟩ | ⟨tx, _, is⟩
  · rw [is]
    exact ⟨OrderedMap.find?_erase_other _ different, minded⟩
  · rw [is]
    constructor
    · exact OrderedMap.find?_erase_other _ different
    · dsimp only
      rw [OrderedMap.find?_erase_other _ different]
      rw [Option.all_eq_true] at minded ⊢
      intro request stands
      have all := minded request stands
      rw [List.all_eq_true] at all ⊢
      intro txin member
      rw [find?_freeInputs]
      split
      · rfl
      · exact all txin member

theorem dropLock_locks (hash : Uint256) (lock : CTransactionLock) :
    (dropLock hash lock state).maps.mapTxLocks = state.maps.mapTxLocks.erase hash := by
  unfold dropLock
  cases state.maps.mapTxLockReq.find? lock.txHash <;> rfl

theorem drops_kept (entries : List (Uint256 × CTransactionLock))
    (distinct : (entries.map (·.1)).Nodup)
    (kept : LockInvariant txHash state answers (foundIn conflicts))
    (stand : ∀ entry ∈ entries, state.maps.mapTxLocks.find? entry.1 = some entry.2 ∧
      dropMinds conflicts entry.2 state.maps = true) :
    LockInvariant txHash (entries.foldl (fun state entry => dropLock entry.1 entry.2 state) state)
      answers (foundIn conflicts) := by
  induction entries generalizing state with
  | nil => exact kept
  | cons entry rest ih =>
    rw [List.map_cons, List.nodup_cons] at distinct
    obtain ⟨found, minded⟩ := stand entry List.mem_cons_self
    have named := kept.votes.named entry.1 entry.2 found
    apply ih distinct.2 (kept.drop found minded)
    intro other member
    obtain ⟨stands, minded'⟩ := stand other (List.mem_cons_of_mem entry member)
    have named' := kept.votes.named other.1 other.2 stands
    have different : other.1 ≠ entry.1 := by
      intro same
      apply distinct.1
      rw [← same]
      exact List.mem_map_of_mem member
    obtain ⟨same, still⟩ := dropLock_other named named' different minded'
    exact ⟨same.trans stands, still⟩

theorem drops_locks (entries : List (Uint256 × CTransactionLock)) (hash : Uint256)
    (lock : CTransactionLock)
    (left : (entries.foldl (fun state entry => dropLock entry.1 entry.2 state)
      state).maps.mapTxLocks.find? hash = some lock) :
    state.maps.mapTxLocks.find? hash = some lock := by
  induction entries generalizing state with
  | nil => exact left
  | cons entry rest ih =>
    have before := ih left
    rw [dropLock_locks] at before
    exact (OrderedMap.find?_erase_some before).2

theorem clean_locks {hasTip : Bool} {time : Int64} (hash : Uint256) (lock : CTransactionLock)
    (left : (cleanTransactionLocksList hasTip time state).maps.mapTxLocks.find? hash =
      some lock) : state.maps.mapTxLocks.find? hash = some lock := by
  unfold cleanTransactionLocksList at left
  split at left
  · exact left
  · exact drops_locks _ hash lock left

theorem LockInvariant.clean (kept : LockInvariant txHash state answers (foundIn conflicts))
    {hasTip : Bool} {time : Int64} (minded : (!hasTip || (expiredLocks time state).all fun entry =>
      dropMinds conflicts entry.2 state.maps) = true) :
    LockInvariant txHash (cleanTransactionLocksList hasTip time state) answers
      (foundIn conflicts) := by
  unfold cleanTransactionLocksList
  split
  · exact kept
  · rename_i tip
    have all : ∀ entry ∈ expiredLocks time state,
        dropMinds conflicts entry.2 state.maps = true := by
      have present : hasTip = true := by simpa using tip
      rw [present, Bool.not_true, Bool.false_or] at minded
      exact List.all_eq_true.mp minded
    apply drops_kept _ _ kept
    · intro entry member
      have inside := (List.mem_filter.mp member).1
      exact ⟨(OrderedMap.mem_entries_iff _ _ _).mp inside, all entry member⟩
    · have part : (expiredLocks time state).Sublist state.maps.mapTxLocks.entries :=
        List.filter_sublist
      rw [List.Nodup, List.pairwise_map]
      apply (state.maps.mapTxLocks.ascending.sublist part).imp
      intro earlier later before same
      rw [same] at before
      omega

theorem LockInvariant.forget {after : InstantTXState}
    (kept : LockInvariant txHash after answers (foundIn conflicts)) :
    LockInvariant txHash after answers
      (foundIn (conflicts.filter fun found => after.maps.mapTxLocks.count found.1)) := by
  constructor
  · exact kept.votes
  · apply kept.inputs.mono
    intro hash complete noted
    obtain ⟨time, member⟩ := foundIn_iff.mp noted
    obtain ⟨lock, found, _⟩ := isComplete_iff.mp complete
    apply foundIn_iff.mpr
    refine ⟨time, List.mem_filter.mpr ⟨member, ?_⟩⟩
    simp [OrderedMap.count, found]

variable {seen : OrderedMap Uint256 CConsensusVote}

theorem doConsensusVote_grows {call : IxCall} {man : CMasternodeMan} {tx : CTransaction}
    {nBlockHeight : Int32} (counted : seen.count hash = true) :
    (call.doConsensusVote txHash man tx nBlockHeight seen).count hash = true := by
  unfold IxCall.doConsensusVote
  dsimp only
  split
  · exact counted
  · split
    · exact counted
    · split
      · rw [count_set, counted, Bool.or_true]
      · exact counted

variable {ixCall : IxCall} {tx : CTransaction}

theorem VotesKept.newLock {maps : LockMaps} (kept : VotesKept maps.mapTxLocks seen answers) :
    VotesKept (ixCall.createNewLock txHash tx maps).2.mapTxLocks seen answers := by
  rcases @createNewLock_cases txHash maps ixCall tx (kept.named (txHash tx)) with
    same | ⟨lock, is, named, votes, _⟩
  · rw [same]
    exact kept
  · rw [is]
    exact kept.reset named votes

theorem createNewLock_requests {maps : LockMaps} :
    (ixCall.createNewLock txHash tx maps).2.mapTxLockReq = maps.mapTxLockReq ∧
      (ixCall.createNewLock txHash tx maps).2.mapTxLockReqRejected =
        maps.mapTxLockReqRejected := by
  unfold IxCall.createNewLock
  split <;> exact ⟨rfl, rfl⟩

theorem processIx_locks (minded : (!ixCall.takesUp txHash tx state.maps ||
      requestMinds txHash ixCall tx (ixCall.createNewLock txHash tx state.maps).2) = true) :
    (processIx ixCall txHash tx state).maps.mapTxLocks = state.maps.mapTxLocks ∨
      (processIx ixCall txHash tx state).maps.mapTxLocks =
        (ixCall.createNewLock txHash tx state.maps).2.mapTxLocks := by
  unfold processIx
  split
  · exact .inl rfl
  · rename_i taken
    simp only [Bool.not_eq_true, Bool.not_eq_false'] at taken
    rw [taken, Bool.not_true, Bool.false_or, requestMinds, Bool.and_eq_true,
      Bool.not_eq_true'] at minded
    right
    dsimp only
    split
    · rfl
    · rw [rejectRequest_incomplete minded.1]
      rfl

theorem LockInvariant.ix (kept : LockInvariant txHash state answers (foundIn conflicts))
    (minded : (!ixCall.takesUp txHash tx state.maps ||
      requestMinds txHash ixCall tx (ixCall.createNewLock txHash tx state.maps).2) = true) :
    LockInvariant txHash (processIx ixCall txHash tx state) answers (foundIn conflicts) := by
  have locks : VotesKept (processIx ixCall txHash tx state).maps.mapTxLocks state.mapTxLockVote
      answers := by
    rcases processIx_locks minded with same | is
    · rw [same]
      exact kept.votes
    · rw [is]
      exact kept.votes.newLock
  unfold processIx at locks ⊢
  cases taken : ixCall.takesUp txHash tx state.maps with
  | false => exact kept
  | true =>
    obtain ⟨absent, unrefused⟩ := takesUp_absent taken
    rw [taken, Bool.not_true, Bool.false_or] at minded
    unfold requestMinds at minded
    rw [Bool.and_eq_true, Bool.not_eq_true'] at minded
    obtain ⟨incomplete, inputsMinded⟩ := minded
    have inputs := kept.inputs.newLock absent (kept.votes.named (txHash tx)) incomplete
    obtain ⟨requests, rejected⟩ := @createNewLock_requests txHash ixCall tx state.maps
    rw [← requests] at absent
    rw [← rejected] at unrefused
    simp only [taken, Bool.not_true, Bool.false_eq_true, if_false] at locks ⊢
    split at locks
    · rename_i accepted
      rw [if_pos accepted]
      exact ⟨locks.mono (fun _ => doConsensusVote_grows) (fun _ => id),
        inputs.accept absent unrefused⟩
    · rename_i refused
      rw [if_neg refused]
      have all : ∀ txin ∈ tx.vin,
          (ixCall.createNewLock txHash tx state.maps).2.mapLockedInputs.count txin.prevout =
            true := by
        rw [Bool.eq_false_iff.mpr refused, Bool.false_or] at inputsMinded
        exact List.all_eq_true.mp inputsMinded
      exact ⟨locks, inputs.reject absent incomplete all⟩

theorem ConflictsKept.ix (kept : ConflictsKept state.maps.mapTxLocks conflicts)
    (votes : VotesKept state.maps.mapTxLocks state.mapTxLockVote answers)
    (minded : (!ixCall.takesUp txHash tx state.maps ||
      requestMinds txHash ixCall tx (ixCall.createNewLock txHash tx state.maps).2) = true) :
    ConflictsKept (processIx ixCall txHash tx state).maps.mapTxLocks conflicts := by
  rcases processIx_locks minded with same | is
  · rw [same]
    exact kept
  · rw [is]
    rcases @createNewLock_cases txHash state.maps ixCall tx (votes.named (txHash tx)) with
      same | ⟨lock, is, _, _, ends⟩
    · rw [same]
      exact kept
    · rw [is]
      exact kept.set ends

theorem ixConflicts_none (minded : (!ixCall.takesUp txHash tx state.maps ||
      requestMinds txHash ixCall tx (ixCall.createNewLock txHash tx state.maps).2) = true) :
    ixConflicts txHash ixCall tx state.maps = [] := by
  unfold ixConflicts
  cases taken : ixCall.takesUp txHash tx state.maps with
  | false => simp
  | true =>
    rw [taken, Bool.not_true, Bool.false_or, requestMinds, Bool.and_eq_true,
      Bool.not_eq_true'] at minded
    have incomplete : isComplete (txHash tx) (IxCall.refuse txHash tx
        (ixCall.createNewLock txHash tx state.maps).2) = false := minded.1
    simp [incomplete]

end Steps

section VoteSteps

open IxCall (isComplete)

variable {txHash : CTransaction → Uint256} {state : InstantTXState} {answers : List VoteAnswer}
  {conflicts : List (Uint256 × Int64)} {call : TxlvoteCall} {ctx : CConsensusVote}

theorem votePasses_iff :
    votePasses call ctx state = true ↔
      (call.liteMode || !call.sporkActive || !call.blockchainSynced) = false ∧
        state.mapTxLockVote.count ctx.getHash = false ∧
        call.getMasternodeRank ctx.vinMasternode ctx.nBlockHeight ≠ -1 ∧
        call.getMasternodeRank ctx.vinMasternode ctx.nBlockHeight ≤ INSTANTTX_SIGNATURES_TOTAL ∧
        call.signatureValid state.mnodeman ctx = true := by
  unfold votePasses
  simp only [Bool.and_eq_true, Bool.not_eq_true', decide_eq_true_eq, and_assoc]

theorem processTxlvote_passes (passes : votePasses call ctx state = true) :
    (processTxlvote call txHash ctx state).2 =
      ⟨state.mnodeman, state.mapTxLockVote.set ctx.getHash ctx,
        (call.castsVote txHash ctx state.maps).2⟩ := by
  obtain ⟨gate, unseen, known, top, valid⟩ := votePasses_iff.mp passes
  unfold processTxlvote
  rw [gate, unseen, valid]
  simp only [Bool.false_eq_true, if_false, Bool.not_true]
  rw [if_neg known, if_neg (by omega)]

theorem processTxlvote_stays (stays : votePasses call ctx state = false) :
    (processTxlvote call txHash ctx state).2.maps = state.maps ∧
      ∀ hash, state.mapTxLockVote.count hash = true →
        (processTxlvote call txHash ctx state).2.mapTxLockVote.count hash = true := by
  have grows : ∀ hash, state.mapTxLockVote.count hash = true →
      (state.mapTxLockVote.set ctx.getHash ctx).count hash = true := by
    intro hash counted
    rw [count_set, counted, Bool.or_true]
  unfold processTxlvote
  split
  · exact ⟨rfl, fun _ => id⟩
  · rename_i gate
    split
    · exact ⟨rfl, fun _ => id⟩
    · rename_i unseen
      dsimp only
      split
      · exact ⟨rfl, grows⟩
      · rename_i known
        split
        · exact ⟨rfl, grows⟩
        · rename_i top
          split
          · exact ⟨rfl, grows⟩
          · rename_i valid
            have passes : votePasses call ctx state = true := by
              rw [votePasses_iff]
              exact ⟨by simpa using gate, by simpa using unseen, known, by omega,
                by simpa using valid⟩
            rw [stays] at passes
            cases passes

theorem VotesKept.voted {maps after : LockMaps} {seen : OrderedMap Uint256 CConsensusVote}
    {more : List VoteAnswer} (kept : VotesKept maps.mapTxLocks seen answers)
    (voted : Voted txHash call ctx maps after) (unseen : seen.count ctx.getHash = false)
    (grown : answers ⊆ more) (answered : AnsweredInTop more ctx) :
    VotesKept after.mapTxLocks (seen.set ctx.getHash ctx) more := by
  have added : VotesKept (votedLocks call ctx maps) (seen.set ctx.getHash ctx) more :=
    kept.add (votedLock_txHash (kept.named ctx.txHash)) votedLock_votes unseen grown answered
  cases voted with
  | short few locks inputs =>
    rw [locks]
    exact added
  | locks tx enough known clear locks inputs =>
    rw [locks]
    exact added
  | conflicts tx other enough known found locks inputs =>
    rw [locks]
    exact (added.expire _).expire _

theorem expire_count {locks : OrderedMap Uint256 CTransactionLock} (ended hash : Uint256) :
    (call.expire ended locks).count hash = locks.count hash := by
  unfold OrderedMap.count
  rw [expire_find?, Option.isSome_map]

theorem ConflictsKept.vote (kept : ConflictsKept state.maps.mapTxLocks conflicts)
    (inputs : InputsKept txHash (foundIn conflicts) state.maps) {after : LockMaps}
    (passes : votePasses call ctx state = true)
    (voted : Voted txHash call ctx state.maps after) :
    ConflictsKept after.mapTxLocks (voteConflicts txHash call ctx state ++ conflicts) := by
  have set : ConflictsKept (votedLocks call ctx state.maps) conflicts :=
    kept.set fun before found => votedLock_nExpiration found
  unfold voteConflicts conflictsFound
  cases voted with
  | short few locks _ =>
    rw [locks]
    simp only [few, Bool.and_false, Bool.false_eq_true, if_false, List.nil_append]
    exact set
  | locks tx enough known clear locks _ =>
    rw [locks]
    simp only [passes, enough, Bool.and_self, if_true, known, Option.getD_some, clear,
      List.nil_append]
    exact set
  | conflicts tx other enough known found locks _ =>
    rw [locks]
    simp only [passes, enough, Bool.and_self, if_true, known, Option.getD_some, found,
      List.cons_append, List.nil_append]
    have own : (votedLocks call ctx state.maps).count (txHash tx) = true := by
      rw [inputs.requests _ tx known, votedLocks, count_set]
      simp
    have standing : (votedLocks call ctx state.maps).count other = true := by
      obtain ⟨out, stands⟩ := conflict_some found
      obtain ⟨lock, present, _⟩ := isComplete_iff.mp (inputs.held out other stands).1
      rw [votedLocks, count_set, OrderedMap.count, present]
      simp
    have first : ConflictsKept (call.expire (txHash tx) (votedLocks call ctx state.maps))
        ((txHash tx, call.time) :: conflicts) := set.end own
    exact first.end ((expire_count (txHash tx) other).trans standing)

theorem LockInvariant.txlvote (kept : LockInvariant txHash state answers (foundIn conflicts))
    (minded : (!votePasses call ctx state || voteMinds call ctx state.maps) = true) :
    LockInvariant txHash (processTxlvote call txHash ctx state).2
      (⟨ctx, call.getMasternodeRank ctx.vinMasternode ctx.nBlockHeight,
        call.signatureValid state.mnodeman ctx⟩ :: answers)
      (foundIn (voteConflicts txHash call ctx state ++ conflicts)) := by
  have grown : ∀ hash, foundIn conflicts hash = true →
      foundIn (voteConflicts txHash call ctx state ++ conflicts) hash = true := by
    intro hash noted
    obtain ⟨time, member⟩ := foundIn_iff.mp noted
    exact foundIn_iff.mpr ⟨time, List.mem_append_right _ member⟩
  cases passes : votePasses call ctx state with
  | false =>
    obtain ⟨maps, grows⟩ := @processTxlvote_stays txHash state call ctx passes
    constructor
    · rw [maps]
      exact kept.votes.mono grows (List.subset_cons_self _ _)
    · rw [maps]
      exact kept.inputs.mono fun hash _ => grown hash
  | true =>
    rw [passes, Bool.not_true, Bool.false_or] at minded
    obtain ⟨voted, same⟩ := @castsVote_voted txHash state.maps call ctx minded
    obtain ⟨_, unseen, known, top, valid⟩ := votePasses_iff.mp passes
    rw [processTxlvote_passes passes]
    constructor
    · apply kept.votes.voted voted unseen (List.subset_cons_self _ _)
      rw [valid]
      exact ⟨_, List.mem_cons_self, known, top⟩
    · apply kept.inputs.vote voted same grown
      intro tx other enough requested found
      apply foundIn_iff.mpr
      unfold voteConflicts conflictsFound
      rw [passes, enough, requested]
      simp only [Bool.and_self, if_true, Option.getD_some, found]
      exact ⟨call.time, by simp [kept.inputs.requests _ tx requested]⟩

theorem ConflictsKept.txlvote (kept : ConflictsKept state.maps.mapTxLocks conflicts)
    (inputs : InputsKept txHash (foundIn conflicts) state.maps)
    (minded : (!votePasses call ctx state || voteMinds call ctx state.maps) = true) :
    ConflictsKept (processTxlvote call txHash ctx state).2.maps.mapTxLocks
      (voteConflicts txHash call ctx state ++ conflicts) := by
  cases passes : votePasses call ctx state with
  | false =>
    rw [(@processTxlvote_stays txHash state call ctx passes).1]
    have none : voteConflicts txHash call ctx state = [] := by simp [voteConflicts, passes]
    rw [none]
    exact kept
  | true =>
    rw [passes, Bool.not_true, Bool.false_or] at minded
    rw [processTxlvote_passes passes]
    exact kept.vote inputs passes (@castsVote_voted txHash state.maps call ctx minded).1

end VoteSteps

section Runs

variable {txHash : CTransaction → Uint256}

structure NodeInvariant (txHash : CTransaction → Uint256) (node : LockNode) : Prop where
  locks : LockInvariant txHash node.state node.answers (foundIn node.conflicts)
  conflicts : ConflictsKept node.state.maps.mapTxLocks node.conflicts

theorem lockStep_kept (event : LockEvent) (node : LockNode) (kept : NodeInvariant txHash node)
    (minded : minds txHash event node = true) :
    NodeInvariant txHash (lockStep txHash event node) := by
  cases event with
  | ix call tx =>
    unfold lockStep
    dsimp only
    rw [ixConflicts_none minded]
    exact ⟨kept.locks.ix minded, kept.conflicts.ix kept.locks.votes minded⟩
  | txlvote call ctx =>
    exact ⟨kept.locks.txlvote minded, kept.conflicts.txlvote kept.locks.inputs minded⟩
  | clean hasTip time =>
    exact ⟨(kept.locks.clean minded).forget, kept.conflicts.within clean_locks⟩
  | masternodes man => exact ⟨⟨kept.locks.votes, kept.locks.inputs⟩, kept.conflicts⟩

theorem NodeInvariant.init (man : CMasternodeMan) :
    NodeInvariant txHash (LockNode.init man) := by
  constructor
  · constructor
    · exact VotesKept.empty
    · constructor
      · intro hash tx found
        cases found
      · intro hash tx found
        cases found
      · intro hash complete
        cases complete
      · intro hash tx complete
        cases complete
      · intro out hash found
        cases found
  · constructor
    · intro hash time member
      cases member
    · intro hash lock time found
      cases found

theorem NodeInvariant.supported {node : LockNode} (kept : NodeInvariant txHash node) :
    LocksSupported node := by
  intro out hash found
  obtain ⟨lock, stands, enough⟩ := isComplete_iff.mp
    (kept.locks.inputs.held out hash found).1
  exact ⟨lock, stands, kept.locks.votes.supported stands enough⟩

theorem NodeInvariant.cancel {node : LockNode} (kept : NodeInvariant txHash node) :
    LocksCancel node := by
  intro hash1 hash2 tx1 tx2 different requested1 requested2 conflicting complete1 complete2
  have noted : ∀ hash, IxCall.isComplete hash node.state.maps = true →
      foundIn node.conflicts hash = true → Cancelled node hash := by
    intro hash complete found
    obtain ⟨time, member⟩ := foundIn_iff.mp found
    obtain ⟨lock, stands, _⟩ := isComplete_iff.mp complete
    obtain ⟨last, inside, ends⟩ := kept.conflicts.expire hash lock time stands member
    exact ⟨lock, last, stands, inside, ends⟩
  have first := kept.locks.inputs.requested requested1 complete1
  have second := kept.locks.inputs.requested requested2 complete2
  cases found1 : foundIn node.conflicts hash1 with
  | true => exact .inl (noted hash1 complete1 found1)
  | false =>
    cases found2 : foundIn node.conflicts hash2 with
    | true => exact .inr (noted hash2 complete2 found2)
    | false =>
      obtain ⟨in1, member1, in2, member2, same⟩ := conflicting
      have locked1 := kept.locks.inputs.locked hash1 tx1 complete1 found1 first in1 member1
      have locked2 := kept.locks.inputs.locked hash2 tx2 complete2 found2 second in2 member2
      rw [same, locked2] at locked1
      exact absurd (Option.some.inj locked1).symm different

end Runs

def paid (nValue : Int) : CTxOut :=
  ⟨nValue, [0x76, 0xa9, 0x14] ++ List.replicate 20 1 ++ [0x88, 0xac], -10⟩

def request (nValue : Int) : CTransaction :=
  ⟨1, [⟨⟨5, 0⟩, [], 0xffffffff⟩], [paid (nValue * COIN)], 0⟩

def requestHash (tx : CTransaction) : Uint256 :=
  BitVec.ofInt 256 (100 + (tx.vout.map (·.nValue)).sum)

def readyCall (accepts : Bool) : IxCall where
  liteMode := false
  sporkActive := true
  blockchainSynced := true
  time := 1000
  getMasternodeRank _ _ := 3
  verifyMessage _ vchSig _ := vchSig == [1]
  walletUpdates _ := false
  getTransaction _ := some ⟨1, [], [paid (3 * COIN)], 0⟩
  maxValue := 1000
  getInputAge _ := 10
  tipHeight := 100
  acceptToMemoryPool _ := accepts
  fMasterNode := false
  activeVin := ⟨⟨0, 0⟩, [], 0xffffffff⟩
  sign _ := none

def voterInput (number : Nat) : CTxIn := ⟨⟨20, number.toUInt32⟩, [], 0xffffffff⟩

def lockVoters : CMasternodeMan where
  vMasternodes := (List.range 6).map fun number =>
    { CMasternode.fresh 0 with vin := voterInput number }
  mAskedUsForMasternodeList := ∅
  mWeAskedForMasternodeList := ∅
  mWeAskedForMasternodeListEntry := ∅
  nDsqCount := 0
  mapSeenMasternodeBroadcast := ∅
  mapSeenMasternodePing := ∅

def votedRun (tx : CTransaction) : List LockEvent :=
  .ix (readyCall true) tx :: (List.range 6).map fun number =>
    .txlvote (readyCall true).toTxlvoteCall ⟨voterInput number, requestHash tx, 94, [1]⟩

def conflictRun : List LockEvent := votedRun (request 1) ++ votedRun (request 2)

def refusedRun : List LockEvent := [.ix (readyCall false) (request 1)]

def finalNode (events : List LockEvent) : LockNode :=
  runAll (lockStep requestHash) events (LockNode.init lockVoters)

end OxidLockSafety
