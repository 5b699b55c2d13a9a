import Oxid.AddrManCalls
import Oxid.AddrManCheck

/-!
Every run of calls from an empty address manager passes the check after each of them.
-/
namespace OxidAddrManRuns
open OxidPrimitives OxidMasternode OxidMasternodeMan OxidAddrMan OxidAddrManInvariant
  OxidAddrManCalls OxidAddrManCheck OrderedMaps OrderedMap

inductive Call
  | add (addr : CAddress) (source : CNetAddr) (nTimePenalty nNow : Int) (getRandInt : Nat → Nat)
  | good (addr : CService) (nTime : Int64) (nRnd : NewBucket)
  | attempt (addr : CService) (nTime : Int64)
  | connected (addr : CService) (nTime : Int64)
  | getAddr (nNow : Int) (draw : Nat → Nat)
  | select (draws : CAddrMan.Draws) (empty : CAddress)

def Call.apply (rules : AddrRules) (man : CAddrMan) : Call → Option CAddrMan
  | .add addr source nTimePenalty nNow getRandInt =>
    (man.add rules addr source nTimePenalty nNow getRandInt).map Prod.fst
  | .good addr nTime nRnd => man.good rules addr nTime nRnd
  | .attempt addr nTime => some (man.attempt addr nTime)
  | .connected addr nTime => some (man.connected addr nTime)
  | .getAddr nNow draw => (man.getAddr nNow draw).map Prod.fst
  | .select draws empty => (man.select draws empty).map fun _ => man

def run (rules : AddrRules) : List Call → CAddrMan → Option CAddrMan
  | [], man => some man
  | call :: rest, man => (call.apply rules man).bind (run rules rest)

def Call.Positive : Call → Prop
  | .good _ nTime _ => 0 < nTime
  | _ => True

def Call.Dated : Call → Prop
  | .attempt _ nTime => 0 ≤ nTime
  | _ => True

structure Sound (rules : AddrRules) (man : CAddrMan) : Prop where
  check : man.check rules = 0
  addresses : ∀ addr n, man.mapAddr.find? addr = some n ↔
    ∃ info, man.mapInfo.find? n = some info ∧ info.ip = addr
  shuffled : ∀ (place n : Nat), man.vRandom[place]? = some n ↔
    ∃ info, man.mapInfo.find? n = some info ∧ info.nRandomPos = place
  tried : man.nTried = man.mapInfo.entries.countP isTried
  new : man.nNew = man.mapInfo.entries.countP fun entry => !isTried entry
  inTried : ∀ bucket pos n, man.vvTried bucket pos = some n ↔
    ∃ info, man.mapInfo.find? n = some info ∧ info.fInTried = true ∧
      info.getTriedBucket rules man.nKey = bucket ∧
        info.getBucketPosition rules man.nKey false bucket = pos
  inNew : ∀ bucket pos n, man.vvNew bucket pos = some n →
    ∃ info, man.mapInfo.find? n = some info ∧ info.fInTried = false ∧
      info.getBucketPosition rules man.nKey true bucket = pos
  refs : ∀ n info, man.mapInfo.find? n = some info → info.fInTried = false →
    1 ≤ info.nRefCount ∧ info.nRefCount ≤ ADDRMAN_NEW_BUCKETS_PER_ADDRESS ∧
      held (CAddrMan.occupied man.vvNew) n = info.nRefCount

section Runs

variable {rules : AddrRules} {man : CAddrMan}

theorem consistent_sound (consistent : Consistent rules man) : Sound rules man := by
  have kept := consistent.2
  constructor
  · exact check_sound (checked_of_consistent consistent)
  · intro addr n
    constructor
    · exact kept.indexed.owned addr n
    · intro standing
      obtain ⟨info, found, at'⟩ := standing
      rw [← at', kept.indexed.named n info found]
  · intro place n
    constructor
    · exact kept.shuffled.listed place n
    · intro standing
      obtain ⟨info, found, atPlace⟩ := standing
      obtain ⟨place', atPlace', listed⟩ := kept.shuffled.standing n info found
      rw [show place = place' by omega, listed]
  · exact (checked_of_consistent consistent).tried
  · exact (checked_of_consistent consistent).new
  · intro bucket pos n
    constructor
    · exact kept.bucketed.inTried bucket pos n
    · intro standing
      obtain ⟨info, found, tried, atBucket, atPos⟩ := standing
      rw [← atPos, ← atBucket]
      exact (kept.bucketed.tried n info found tried).2
  · exact kept.bucketed.inNew
  · intro n info found untried
    have nonneg := kept.bucketed.nonneg found
    have some : info.nRefCount ≠ 0 := fun zero => kept.referenced n info found untried zero
    exact ⟨by omega, kept.bucketed.few n info found, held_new kept.bucketed found⟩

theorem init_consistent {nKey : Uint256} (keyed : nKey ≠ 0) :
    Consistent rules (CAddrMan.init nKey) := by
  have none : ∀ n info, (CAddrMan.init nKey).mapInfo.find? n ≠ some info := by
    intro n info absent
    cases absent
  refine ⟨keyed, ⟨⟨?_, ?_, ?_, ?_, ?_⟩, ?_⟩⟩
  · constructor
    · intro n info found
      exact absurd found (none n info)
    · intro n info found
      exact absurd found (none n info)
    · intro addr n absent
      cases absent
  · constructor
    · intro n info found
      exact absurd found (none n info)
    · intro bucket pos n absent
      cases absent
    · intro bucket pos n absent
      cases absent
    · intro n info found
      exact absurd found (none n info)
    · intro n info found
      exact absurd found (none n info)
  · exact ⟨rfl, rfl⟩
  · constructor
    · intro n info found
      exact absurd found (none n info)
    · intro n info found
      exact absurd found (none n info)
    · intro n info found
      exact absurd found (none n info)
  · intro n info found
    exact absurd found (none n info)
  · constructor
    · intro n info found
      exact absurd found (none n info)
    · intro place n absent
      cases absent

theorem apply_consistent (consistent : Consistent rules man) (call : Call)
    (positive : call.Positive) (dated : call.Dated) :
    ∃ man', call.apply rules man = some man' ∧ Consistent rules man' := by
  obtain ⟨keyed, kept⟩ := consistent
  cases call with
  | add addr source nTimePenalty nNow getRandInt =>
    obtain ⟨result, added, kept', key⟩ := add_kept kept addr source nTimePenalty nNow getRandInt
    refine ⟨result.1, ?_, by rwa [key], kept'⟩
    rw [Call.apply, added, Option.map_some]
  | good addr nTime nRnd =>
    obtain ⟨man', moved, kept', key⟩ := good_kept kept addr positive nRnd
    exact ⟨man', moved, by rwa [key], kept'⟩
  | attempt addr nTime =>
    obtain ⟨kept', key⟩ := attempt_kept kept addr dated
    exact ⟨_, rfl, by rwa [key], kept'⟩
  | connected addr nTime =>
    obtain ⟨kept', key⟩ := connected_kept kept addr nTime
    exact ⟨_, rfl, by rwa [key], kept'⟩
  | getAddr nNow draw =>
    obtain ⟨result, listed, kept', key⟩ := getAddr_kept kept nNow draw
    refine ⟨result.1, ?_, by rwa [key], kept'⟩
    rw [Call.apply, listed, Option.map_some]
  | select draws empty =>
    obtain ⟨selected, found⟩ := select_finds kept draws empty
    refine ⟨man, ?_, keyed, kept⟩
    rw [Call.apply, found, Option.map_some]

theorem run_consistent (calls : List Call) (man : CAddrMan) (consistent : Consistent rules man)
    (positive : ∀ call ∈ calls, call.Positive) (dated : ∀ call ∈ calls, call.Dated) :
    ∃ man', run rules calls man = some man' ∧ Consistent rules man' := by
  induction calls generalizing man with
  | nil => exact ⟨man, rfl, consistent⟩
  | cons call rest ih =>
    obtain ⟨next, applied, consistent'⟩ := apply_consistent consistent call
      (positive call List.mem_cons_self) (dated call List.mem_cons_self)
    rw [run, applied, Option.bind_some]
    apply ih next consistent'
    · intro call' inside
      exact positive call' (List.mem_cons_of_mem _ inside)
    · intro call' inside
      exact dated call' (List.mem_cons_of_mem _ inside)

end Runs

section Times

def crowded : AddrRules where
  keyHash _ _ := 0
  triedHash _ _ _ := 0
  groupsHash _ _ _ := 0
  sourceHash _ _ _ := 0
  positionHash _ _ _ _ := 0
  isRoutable _ := true

def somePeer : CService := ⟨⟨1⟩, 1⟩

def otherPeer : CService := ⟨⟨2⟩, 1⟩

def oneAdded : Call := .add ⟨somePeer, 1, 1000, 0⟩ ⟨1⟩ 0 1000 fun _ => 0

end Times

end OxidAddrManRuns
