import Oxid.Coins
import Oxid.Library.SlotMap

/-!
Stacks of `CCoinsViewCache` layers over a base view, top layer first. A run of calls returns
nothing exactly when an assertion of the source fires.
-/
namespace OxidCoinsViewCache
open OxidPrimitives OxidCoins SlotMap
variable {σ : Type}

structure CCoinsCacheEntry where
  coins : CCoins
  dirty : Bool
  fresh : Bool
deriving DecidableEq, Repr

abbrev CCoinsMap := Table Uint256 CCoinsCacheEntry

structure CCoinsViewCache where
  hasModifier : Bool
  hashBlock : Uint256
  cacheCoins : CCoinsMap

def CCoinsViewCache.init : CCoinsViewCache := ⟨false, 0, ∅⟩

def fetchedEntry (coins : CCoins) : CCoinsCacheEntry := ⟨coins, false, coins.isPruned⟩

def openedEntry (slot : Option CCoinsCacheEntry) (fallback : Option CCoins) : CCoinsCacheEntry :=
  match slot with
  | some entry => { entry with dirty := true }
  | none =>
    match fallback with
    | none => ⟨CCoins.empty, true, true⟩
    | some coins => ⟨coins, true, coins.isPruned⟩

def closedSlot (entry : CCoinsCacheEntry) : Option CCoinsCacheEntry :=
  if entry.fresh && entry.coins.cleanup.isPruned then none
  else some { entry with coins := entry.coins.cleanup }

namespace CCoinsViewCache

def openModifier (cache : CCoinsViewCache) (txid : Uint256) (fallback : Option CCoins) :
    Option CCoinsViewCache :=
  if cache.hasModifier then none
  else some { cache with
    hasModifier := true
    cacheCoins := cache.cacheCoins.insert txid
      (openedEntry (cache.cacheCoins.lookup txid) fallback) }

def editEntry (cache : CCoinsViewCache) (txid : Uint256) (edit : CCoins → CCoins) :
    CCoinsViewCache :=
  match cache.cacheCoins.lookup txid with
  | none => cache
  | some entry =>
    { cache with cacheCoins := cache.cacheCoins.insert txid { entry with coins := edit entry.coins } }

def closeModifier (cache : CCoinsViewCache) (txid : Uint256) : Option CCoinsViewCache :=
  if cache.hasModifier then
    match cache.cacheCoins.lookup txid with
    | none => none
    | some entry =>
      some { cache with
        hasModifier := false
        cacheCoins := setSlot cache.cacheCoins txid (closedSlot entry) }
  else none

def modifyWith (cache : CCoinsViewCache) (txid : Uint256) (fallback : Option CCoins)
    (edit : CCoins → CCoins) : Option CCoinsViewCache := do
  let opened ← cache.openModifier txid fallback
  (opened.editEntry txid edit).closeModifier txid

end CCoinsViewCache

def editedSlot (slot : Option CCoinsCacheEntry) (fallback : Option CCoins)
    (edit : CCoins → CCoins) : Option CCoinsCacheEntry :=
  let entry := openedEntry slot fallback
  closedSlot { entry with coins := edit entry.coins }

theorem modifyWith_eq (cache : CCoinsViewCache) (txid : Uint256) (fallback : Option CCoins)
    (edit : CCoins → CCoins) (idle : cache.hasModifier = false) :
    cache.modifyWith txid fallback edit = some { cache with
      cacheCoins := setSlot cache.cacheCoins txid
        (editedSlot (cache.cacheCoins.lookup txid) fallback edit) } := by
  simp only [CCoinsViewCache.modifyWith, CCoinsViewCache.openModifier, idle, Bool.false_eq_true,
    if_false, Option.bind_eq_bind, Option.bind_some, CCoinsViewCache.editEntry, AList.lookup_insert,
    CCoinsViewCache.closeModifier, if_true, AList.insert_insert, setSlot_insert, editedSlot]

/-- One entry of a child's map merged into the slot of the same key here.
    Refusal is the assertion that an unknown child entry is FRESH. -/
def mergeEntry (child : CCoinsCacheEntry) (slot : Option CCoinsCacheEntry) :
    Option (Option CCoinsCacheEntry) :=
  if !child.dirty then some slot
  else
    match slot with
    | none =>
      if child.coins.isPruned then some none
      else if child.fresh then some (some ⟨child.coins, true, true⟩)
      else none
    | some us =>
      if us.fresh && child.coins.isPruned then some none
      else some (some { us with coins := child.coins, dirty := true })

def CCoinsViewCache.batchWrite (cache : CCoinsViewCache) (mapCoins : CCoinsMap)
    (hashBlockIn : Uint256) : Option CCoinsViewCache :=
  if cache.hasModifier then none
  else (mergeAll mergeEntry cache.cacheCoins mapCoins).map fun merged =>
    { cache with cacheCoins := merged, hashBlock := hashBlockIn }

/-- A view answers for `reference` coins when it shows coins equal to them,
    an absent entry standing for pruned ones. -/
def Shows (answer : Option CCoins) (reference : CCoins) : Prop :=
  (answer.getD CCoins.empty).same reference = true

/-- A base view with what a cache relies on: reads return clean coins and see the
    last write. A clean entry in the written map may be stored or skipped. -/
structure CoinsBase (σ : Type) where
  getCoins : σ → Uint256 → Option CCoins
  batchWrite : σ → CCoinsMap → Uint256 → σ
  getCoins_clean : ∀ view txid coins, getCoins view txid = some coins → coins.Clean
  written : ∀ view mapCoins hashBlock txid entry, mapCoins.lookup txid = some entry →
    entry.coins.Clean → entry.dirty = true →
      Shows (getCoins (batchWrite view mapCoins hashBlock) txid) entry.coins
  optional : ∀ view mapCoins hashBlock txid entry, mapCoins.lookup txid = some entry →
    entry.coins.Clean → entry.dirty = false →
      getCoins (batchWrite view mapCoins hashBlock) txid = getCoins view txid ∨
        Shows (getCoins (batchWrite view mapCoins hashBlock) txid) entry.coins
  untouched : ∀ view mapCoins hashBlock txid, mapCoins.lookup txid = none →
    getCoins (batchWrite view mapCoins hashBlock) txid = getCoins view txid

def coinsViewDB : CoinsBase (Uint256 → Option CCoins) where
  getCoins db txid := (db txid).map CCoins.cleanup
  batchWrite db mapCoins _ := fun txid =>
    match mapCoins.lookup txid with
    | none => db txid
    | some entry =>
      if entry.dirty then
        if entry.coins.isPruned then none else some entry.coins
      else db txid
  getCoins_clean := by
    intro db txid coins found
    obtain ⟨stored, _, rfl⟩ := Option.map_eq_some_iff.mp found
    exact CCoins.clean_cleanup stored
  written := by
    intro db mapCoins hashBlock txid entry found clean dirty
    by_cases pruned : entry.coins.isPruned = true
    · simp [Shows, found, dirty, pruned, CCoins.same_iff]
    · simp [Shows, found, dirty, pruned, CCoins.same_iff, show entry.coins.cleanup = _ from clean]
  optional := by
    intro db mapCoins hashBlock txid entry found _ clean
    exact Or.inl (by simp [found, clean])
  untouched := by
    intro db mapCoins hashBlock txid absent
    simp [absent]

section Stack
variable (B : CoinsBase σ)

/-- `FetchCoins` down the stack: the updated layers and the coins found. -/
def getCoins (base : σ) : List CCoinsViewCache → Uint256 → List CCoinsViewCache × Option CCoins
  | [], txid => ([], B.getCoins base txid)
  | cache :: parents, txid =>
    match cache.cacheCoins.lookup txid with
    | some entry => (cache :: parents, some entry.coins)
    | none =>
      match getCoins base parents txid with
      | (parents', none) => (cache :: parents', none)
      | (parents', some coins) =>
        ({ cache with cacheCoins := cache.cacheCoins.insert txid (fetchedEntry coins) } :: parents',
          some coins)

def haveCoins (base : σ) (layers : List CCoinsViewCache) (txid : Uint256) :
    List CCoinsViewCache × Bool :=
  match getCoins B base layers txid with
  | (layers', none) => (layers', false)
  | (layers', some coins) => (layers', !coins.vout.isEmpty)

def modifyCoins (base : σ) (txid : Uint256) (edit : CCoins → CCoins) :
    List CCoinsViewCache → Option (List CCoinsViewCache)
  | [] => none
  | cache :: parents =>
    match cache.cacheCoins.lookup txid with
    | some _ => (cache.modifyWith txid none edit).map (· :: parents)
    | none =>
      let (parents', fallback) := getCoins B base parents txid
      (cache.modifyWith txid fallback edit).map (· :: parents')

def flush (base : σ) : List CCoinsViewCache → Option (List CCoinsViewCache × σ)
  | [] => none
  | [cache] =>
    some ([{ cache with cacheCoins := ∅ }], B.batchWrite base cache.cacheCoins cache.hashBlock)
  | cache :: parent :: rest =>
    (parent.batchWrite cache.cacheCoins cache.hashBlock).map fun parent' =>
      ({ cache with cacheCoins := ∅ } :: parent' :: rest, base)

inductive Op where
  | getCoins (txid : Uint256)
  | haveCoins (txid : Uint256)
  | modifyCoins (txid : Uint256) (edit : CCoins → CCoins)
  | setBestBlock (hashBlock : Uint256)
  | flush
  | batchWrite (mapCoins : CCoinsMap) (hashBlock : Uint256)

def Op.writes : Op → Bool
  | .modifyCoins _ _ | .flush | .batchWrite _ _ => true
  | _ => false

def applyTop (base : σ) (op : Op) (layers : List CCoinsViewCache) :
    Option (List CCoinsViewCache × σ) :=
  match op, layers with
  | .getCoins txid, layers => some ((getCoins B base layers txid).1, base)
  | .haveCoins txid, layers => some ((haveCoins B base layers txid).1, base)
  | .modifyCoins txid edit, layers => (modifyCoins B base txid edit layers).map (·, base)
  | .setBestBlock hashBlock, cache :: parents =>
    some ({ cache with hashBlock := hashBlock } :: parents, base)
  | .flush, layers => flush B base layers
  | .batchWrite mapCoins hashBlock, cache :: parents =>
    (cache.batchWrite mapCoins hashBlock).map fun cache' => (cache' :: parents, base)
  | _, [] => none

def applyAt (op : Op) : Nat → List CCoinsViewCache → σ → Option (List CCoinsViewCache × σ)
  | 0, layers, base => applyTop B base op layers
  | _ + 1, [], _ => none
  | layer + 1, cache :: parents, base =>
    (applyAt op layer parents base).map fun (parents', base') => (cache :: parents', base')

structure Call where
  layer : Nat
  op : Op

def runCalls : List Call → List CCoinsViewCache → σ → Option (List CCoinsViewCache × σ)
  | [], layers, base => some (layers, base)
  | call :: calls, layers, base =>
    match applyAt B call.op call.layer layers base with
    | none => none
    | some (layers', base') => runCalls calls layers' base'

/-- What a stack shows: the answer of `GetCoins` without its effect on the caches. -/
def shown (base : σ) : List CCoinsViewCache → Uint256 → Option CCoins
  | [], txid => B.getCoins base txid
  | cache :: parents, txid =>
    match cache.cacheCoins.lookup txid with
    | some entry => some entry.coins
    | none => shown base parents txid

def value (base : σ) (layers : List CCoinsViewCache) (txid : Uint256) : CCoins :=
  (shown B base layers txid).getD CCoins.empty

end Stack

end OxidCoinsViewCache
