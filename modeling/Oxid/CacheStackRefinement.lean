import Oxid.CoinsViewCache

/-!
A stack of caches against plain reference maps, one for each layer and one for the base. The
layers above the written one hold nothing, and edits may not look into coins that are
already pruned.
-/
namespace OxidCacheStackRefinement
open OxidPrimitives OxidCoins OxidCoinsViewCache
variable {σ : Type}

structure EntryOver (parent : CCoins) (held : Prop) (entry : CCoinsCacheEntry) : Prop where
  fresh : entry.fresh = true → parent.isPruned = true
  clean : entry.dirty = false → entry.coins.same parent = true
  held : entry.fresh = false → held
  tidy : entry.coins.Clean

def slotValue (parent : CCoins) (slot : Option CCoinsCacheEntry) : CCoins :=
  match slot with
  | some entry => entry.coins
  | none => parent

def SlotOver (parent : CCoins) (held : Prop) (slot : Option CCoinsCacheEntry) : Prop :=
  ∀ entry, slot = some entry → EntryOver parent held entry

theorem slotOver_none (parent : CCoins) (held : Prop) : SlotOver parent held none := by
  intro _ found
  cases found

theorem openedEntry_coins (slot : Option CCoinsCacheEntry) (fallback : Option CCoins) :
    (openedEntry slot fallback).coins = slotValue (fallback.getD CCoins.empty) slot := by
  cases slot with
  | some entry => rfl
  | none => cases fallback <;> rfl

theorem editedSlot_over (parent : CCoins) (held : Prop) (slot : Option CCoinsCacheEntry)
    (fallback : Option CCoins) (edit : CCoins → CCoins) (promised : SlotOver parent held slot)
    (answer : slot = none → fallback.getD CCoins.empty = parent)
    (pulled : slot = none → ∀ coins, fallback = some coins → held) :
    SlotOver parent held (editedSlot slot fallback edit) ∧
      (slotValue parent (editedSlot slot fallback edit)).same
        (edit (slotValue parent slot)).cleanup = true := by
  have coinsOpened : (openedEntry slot fallback).coins = slotValue parent slot := by
    rw [openedEntry_coins]
    cases slot with
    | some entry => rfl
    | none => exact answer rfl
  have freshOpened : (openedEntry slot fallback).fresh = true → parent.isPruned = true := by
    cases slot with
    | some entry => exact (promised entry rfl).fresh
    | none =>
      cases fallback with
      | none =>
        intro _
        rw [← answer rfl]
        rfl
      | some coins =>
        intro pruned
        rw [← answer rfl]
        exact pruned
  have heldOpened : (openedEntry slot fallback).fresh = false → held := by
    cases slot with
    | some entry => exact (promised entry rfl).held
    | none =>
      cases fallback with
      | none => exact fun impossible => Bool.noConfusion impossible
      | some coins => exact fun _ => pulled rfl coins rfl
  have dirtyOpened : (openedEntry slot fallback).dirty = true := by
    cases slot with
    | some entry => rfl
    | none => cases fallback <;> rfl
  simp only [editedSlot, closedSlot, coinsOpened, CCoins.isPruned_cleanup]
  split
  · rename_i erased
    simp only [Bool.and_eq_true] at erased
    refine ⟨slotOver_none parent held, ?_⟩
    rw [CCoins.same_iff]
    exact Or.inl ⟨freshOpened erased.1, by simpa using erased.2⟩
  · refine ⟨?_, CCoins.same_refl _⟩
    intro entry found
    cases found
    exact ⟨freshOpened, fun clean => by simp [dirtyOpened] at clean, heldOpened,
      CCoins.clean_cleanup _⟩

/-- Merging a child's entry keeps the promises of the slot it lands in and shows
    the child's coins where they were dirty. -/
theorem mergeEntry_over (parent : CCoins) (held : Prop) (slot : Option CCoinsCacheEntry)
    (child : CCoinsCacheEntry) (promised : SlotOver parent held slot)
    (childOver : EntryOver (slotValue parent slot) (slot.isSome = true) child) :
    ∃ merged, mergeEntry child slot = some merged ∧ SlotOver parent held merged ∧
      (slotValue parent merged).same
        (if child.dirty then child.coins else slotValue parent slot) = true := by
  by_cases dirty : child.dirty = true
  · cases slot with
    | none =>
      have childFresh : child.fresh = true := by
        by_contra stale
        simpa using childOver.held (by simpa using stale)
      have parentPruned : parent.isPruned = true := childOver.fresh childFresh
      by_cases pruned : child.coins.isPruned = true
      · refine ⟨none, by simp [mergeEntry, dirty, pruned], promised, ?_⟩
        simp only [dirty, if_true, slotValue, CCoins.same_iff]
        exact Or.inl ⟨parentPruned, pruned⟩
      · refine ⟨some ⟨child.coins, true, true⟩, by simp [mergeEntry, dirty, pruned, childFresh],
          ?_, by simp [slotValue, dirty, CCoins.same_refl]⟩
        intro entry found
        cases found
        exact ⟨fun _ => parentPruned, by simp, by simp, childOver.tidy⟩
    | some us =>
      by_cases drop : us.fresh = true ∧ child.coins.isPruned = true
      · refine ⟨none, by simp [mergeEntry, dirty, drop.1, drop.2],
          slotOver_none parent held, ?_⟩
        simp only [dirty, if_true, slotValue, CCoins.same_iff]
        exact Or.inl ⟨(promised us rfl).fresh drop.1, drop.2⟩
      · refine ⟨some { us with coins := child.coins, dirty := true }, ?_, ?_, ?_⟩
        · simp only [mergeEntry, dirty, Bool.not_true, Bool.false_eq_true, if_false]
          rw [if_neg (by simpa using drop)]
        · intro entry found
          cases found
          exact ⟨(promised us rfl).fresh, by simp, (promised us rfl).held, childOver.tidy⟩
        · simp [slotValue, dirty, CCoins.same_refl]
  · refine ⟨slot, by simp [mergeEntry, dirty], promised, ?_⟩
    simp [dirty, CCoins.same_refl]

section Stack
variable (B : CoinsBase σ)

def HoldsKey : List CCoinsViewCache → Uint256 → Prop
  | [], _ => True
  | cache :: _, txid => (cache.cacheCoins.lookup txid).isSome = true

def MapOver (base : σ) (parents : List CCoinsViewCache) (mapCoins : CCoinsMap) : Prop :=
  ∀ txid, SlotOver (value B base parents txid) (HoldsKey parents txid) (mapCoins.lookup txid)

def Coherent (base : σ) : List CCoinsViewCache → Prop
  | [] => True
  | cache :: parents =>
    cache.hasModifier = false ∧ MapOver B base parents cache.cacheCoins ∧ Coherent base parents

theorem value_cons (base : σ) (cache : CCoinsViewCache) (parents : List CCoinsViewCache)
    (txid : Uint256) :
    value B base (cache :: parents) txid =
      slotValue (value B base parents txid) (cache.cacheCoins.lookup txid) := by
  simp only [value, shown, slotValue]
  cases cache.cacheCoins.lookup txid <;> rfl

theorem getCoins_answer (base : σ) (layers : List CCoinsViewCache) (txid : Uint256) :
    (getCoins B base layers txid).2 = shown B base layers txid := by
  induction layers with
  | nil => rfl
  | cons cache parents ih =>
    simp only [getCoins, shown]
    cases cached : cache.cacheCoins.lookup txid with
    | some entry => rfl
    | none =>
      rw [← ih]
      rcases getCoins B base parents txid with ⟨parents', _ | coins⟩ <;> rfl

theorem shown_clean (base : σ) (layers : List CCoinsViewCache) (coherent : Coherent B base layers)
    (txid : Uint256) (coins : CCoins) (found : shown B base layers txid = some coins) :
    coins.Clean := by
  induction layers with
  | nil => exact B.getCoins_clean base txid coins found
  | cons cache parents ih =>
    obtain ⟨_, promised, below⟩ := coherent
    simp only [shown] at found
    cases cached : cache.cacheCoins.lookup txid with
    | some entry =>
      rw [cached] at found
      cases found
      exact (promised txid entry cached).tidy
    | none =>
      rw [cached] at found
      exact ih below found

structure Unread (base : σ) (before after : List CCoinsViewCache) : Prop where
  shown : ∀ txid, shown B base after txid = shown B base before txid
  holds : ∀ txid, HoldsKey before txid → HoldsKey after txid
  coherent : Coherent B base before → Coherent B base after

theorem unread_refl (base : σ) (layers : List CCoinsViewCache) : Unread B base layers layers :=
  ⟨fun _ => rfl, fun _ held => held, fun coherent => coherent⟩

variable {before after : List CCoinsViewCache} {base : σ}

theorem unread_value (unread : Unread B base before after) (txid : Uint256) :
    value B base after txid = value B base before txid := by
  rw [value, value, unread.shown]

theorem mapOver_unread (unread : Unread B base before after) (mapCoins : CCoinsMap)
    (promised : MapOver B base before mapCoins) : MapOver B base after mapCoins := by
  intro txid entry found
  have old := promised txid entry found
  rw [← unread_value B unread] at old
  exact ⟨old.fresh, old.clean, fun stale => unread.holds txid (old.held stale), old.tidy⟩

theorem unread_cons (unread : Unread B base before after) (cache : CCoinsViewCache) :
    Unread B base (cache :: before) (cache :: after) := by
  refine ⟨?_, fun _ held => held, ?_⟩
  · intro txid
    simp only [OxidCoinsViewCache.shown]
    cases cache.cacheCoins.lookup txid with
    | some entry => rfl
    | none => exact unread.shown txid
  · rintro ⟨idle, promised, below⟩
    exact ⟨idle, mapOver_unread B unread cache.cacheCoins promised, unread.coherent below⟩

theorem getCoins_holds (base : σ) (layers : List CCoinsViewCache) (txid : Uint256) (coins : CCoins)
    (found : (getCoins B base layers txid).2 = some coins) :
    HoldsKey (getCoins B base layers txid).1 txid := by
  cases layers with
  | nil => trivial
  | cons cache parents =>
    simp only [getCoins] at found ⊢
    cases cached : cache.cacheCoins.lookup txid with
    | some entry => simp [HoldsKey, cached]
    | none =>
      rw [cached] at found
      rcases fetched : getCoins B base parents txid with ⟨parents', _ | pulled⟩
      · simp [fetched] at found
      · simp [HoldsKey]

theorem getCoins_unread (base : σ) (layers : List CCoinsViewCache) (txid : Uint256) :
    Unread B base layers (getCoins B base layers txid).1 := by
  induction layers with
  | nil => exact unread_refl B base []
  | cons cache parents ih =>
    have answer := getCoins_answer B base parents txid
    have holds := getCoins_holds B base parents txid
    simp only [getCoins]
    cases cached : cache.cacheCoins.lookup txid with
    | some entry => exact unread_refl B base _
    | none =>
      rcases fetched : getCoins B base parents txid with ⟨parents', _ | pulled⟩
      · rw [fetched] at ih
        exact unread_cons B ih cache
      · rw [fetched] at ih answer holds
        have found : OxidCoinsViewCache.shown B base parents txid = some pulled := answer.symm
        have below := unread_cons B ih cache
        refine ⟨?_, ?_, ?_⟩
        · intro other
          by_cases same : other = txid
          · subst same
            simp [OxidCoinsViewCache.shown, cached, found, fetchedEntry]
          · rw [← below.shown other]
            simp [OxidCoinsViewCache.shown, AList.lookup_insert_ne same]
        · intro other held
          simp only [HoldsKey] at held ⊢
          by_cases same : other = txid
          · subst same
            simp
          · rwa [AList.lookup_insert_ne same]
        · intro coherent
          obtain ⟨idle, promised, parentsCoherent⟩ := below.coherent coherent
          refine ⟨idle, ?_, parentsCoherent⟩
          intro other entry present
          by_cases same : other = txid
          · subst same
            simp only [AList.lookup_insert, Option.some.injEq] at present
            subst present
            have parentValue : value B base parents' other = pulled := by
              rw [unread_value B ih, value, found]
              rfl
            rw [parentValue]
            exact ⟨fun pruned => pruned, fun _ => CCoins.same_refl pulled,
              fun _ => holds pulled rfl,
              shown_clean B base parents coherent.2.2 other pulled found⟩
          · rw [AList.lookup_insert_ne same] at present
            exact promised other entry present

theorem haveCoins_layers (base : σ) (layers : List CCoinsViewCache) (txid : Uint256) :
    (haveCoins B base layers txid).1 = (getCoins B base layers txid).1 := by
  simp only [haveCoins]
  rcases getCoins B base layers txid with ⟨layers', _ | coins⟩ <;> rfl

theorem haveCoins_answer (base : σ) (layers : List CCoinsViewCache)
    (coherent : Coherent B base layers) (txid : Uint256) :
    (haveCoins B base layers txid).2 = !(value B base layers txid).isPruned := by
  have answer := getCoins_answer B base layers txid
  simp only [haveCoins, value]
  rcases fetched : getCoins B base layers txid with ⟨layers', _ | coins⟩
  · rw [fetched] at answer
    rw [← answer]
    rfl
  · rw [fetched] at answer
    rw [← answer]
    have clean := shown_clean B base layers coherent txid coins answer.symm
    simp [CCoins.clean_isPruned coins clean]

end Stack

end OxidCacheStackRefinement
