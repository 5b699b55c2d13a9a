import Oxid.CacheStackRefinement

/-!
Whole runs of calls on a stack of caches, each matched by an edit of the reference maps.
-/
namespace OxidCacheStackRuns
open OxidPrimitives OxidCoins OxidCoinsViewCache OxidCacheStackRefinement SlotMap
variable {σ : Type}

abbrev RefMap := Uint256 → CCoins

def writeRef (op : Op) (ref : RefMap) : RefMap :=
  match op with
  | .modifyCoins txid edit => Function.update ref txid (edit (ref txid)).cleanup
  | .batchWrite mapCoins _ => fun txid =>
    match mapCoins.lookup txid with
    | none => ref txid
    | some entry => if entry.dirty then entry.coins else ref txid
  | _ => ref

/-- The reference maps after a call. Layers above the written one see the write
    through it, and a flush copies a layer's map to its parent. -/
def refCall (op : Op) : Nat → List RefMap → List RefMap
  | _, [] => []
  | layer + 1, ref :: refs => writeRef op ref :: refCall op layer refs
  | 0, ref :: refs =>
    match op, refs with
    | .flush, _ :: below => ref :: ref :: below
    | _, refs => writeRef op ref :: refs

def refRun (calls : List Call) (refs : List RefMap) : List RefMap :=
  calls.foldl (fun refs call => refCall call.op call.layer refs) refs

def Respectful (edit : CCoins → CCoins) : Prop :=
  ∀ a b : CCoins, a.isPruned = true → b.isPruned = true →
    (edit a).cleanup.same (edit b).cleanup = true

section Stack
variable (B : CoinsBase σ)

/-- A map handed to `BatchWrite` promises what a child cache promises. -/
def AdmissibleOp (op : Op) (layers : List CCoinsViewCache) (base : σ) : Prop :=
  match op with
  | .modifyCoins _ edit => Respectful edit
  | .batchWrite mapCoins _ => MapOver B base layers mapCoins
  | _ => True

def Admissible (op : Op) : Nat → List CCoinsViewCache → σ → Prop
  | _, [], _ => False
  | 0, cache :: parents, base => AdmissibleOp B op (cache :: parents) base
  | layer + 1, cache :: parents, base =>
    (op.writes = true → cache.cacheCoins = ∅) ∧ Admissible op layer parents base

def AdmissibleRun : List Call → List CCoinsViewCache → σ → Prop
  | [], _, _ => True
  | call :: calls, layers, base =>
    Admissible B call.op call.layer layers base ∧
      ∀ layers' base', applyAt B call.op call.layer layers base = some (layers', base') →
        AdmissibleRun calls layers' base'

def Agrees (base : σ) : List CCoinsViewCache → List RefMap → Prop
  | [], [ref] => ∀ txid, (value B base [] txid).same (ref txid) = true
  | cache :: parents, ref :: refs =>
    (∀ txid, (value B base (cache :: parents) txid).same (ref txid) = true) ∧
      Agrees base parents refs
  | _, _ => False

variable {B} {layers : List CCoinsViewCache} {refs : List RefMap} {base : σ}
variable {cache : CCoinsViewCache} {parents : List CCoinsViewCache} {ref : RefMap} {op : Op}
variable {layer : Nat}

theorem same_writeRef (admissible : AdmissibleOp B op layers base) {left right : RefMap}
    (related : ∀ txid, (left txid).same (right txid) = true) (txid : Uint256) :
    (writeRef op left txid).same (writeRef op right txid) = true := by
  cases op with
  | modifyCoins key edit =>
    simp only [writeRef, Function.update_apply]
    split
    · rcases (CCoins.same_iff _ _).mp (related key) with pruned | equal
      · exact admissible _ _ pruned.1 pruned.2
      · rw [equal]
        exact CCoins.same_refl _
    · exact related txid
  | batchWrite mapCoins hashBlock =>
    simp only [writeRef]
    cases found : mapCoins.lookup txid with
    | none => simpa [found] using related txid
    | some entry =>
      cases dirty : entry.dirty with
      | true => simpa [found, dirty] using CCoins.same_refl _
      | false => simpa [found, dirty] using related txid
  | _ => exact related txid

theorem getCoins_agrees (txid : Uint256) (agrees : Agrees B base layers refs) :
    Agrees B base (getCoins B base layers txid).1 refs := by
  induction layers generalizing refs with
  | nil => exact agrees
  | cons cache parents ih =>
    cases refs with
    | nil => exact False.elim agrees
    | cons ref refs =>
      have unread := getCoins_unread B base (cache :: parents) txid
      have head := fun other => (unread_value B unread other) ▸ agrees.1 other
      have tail := ih agrees.2
      simp only [getCoins] at head ⊢
      cases cached : cache.cacheCoins.lookup txid with
      | some entry => exact agrees
      | none =>
        rw [cached] at head
        rcases fetched : getCoins B base parents txid with ⟨parents', _ | coins⟩
        · rw [fetched] at head tail
          exact ⟨head, tail⟩
        · rw [fetched] at head tail
          exact ⟨head, tail⟩

theorem agrees_head (agrees : Agrees B base layers refs) :
    ∃ ref below, refs = ref :: below ∧ ∀ txid, (value B base layers txid).same (ref txid) = true := by
  cases layers with
  | nil =>
    match refs, agrees with
    | [ref], agrees => exact ⟨ref, [], rfl, agrees⟩
  | cons cache parents =>
    match refs, agrees with
    | ref :: below, agrees => exact ⟨ref, below, rfl, agrees.1⟩

theorem refCall_head (op : Op) (layer : Nat) (ref : RefMap) (refs : List RefMap) :
    ∃ below, refCall op layer (ref :: refs) = writeRef op ref :: below := by
  cases layer with
  | succ layer => exact ⟨_, rfl⟩
  | zero =>
    cases op with
    | flush => cases refs <;> exact ⟨_, rfl⟩
    | _ => exact ⟨_, rfl⟩

theorem refCall_reads (reads : op.writes = false) (layer : Nat) (refs : List RefMap) :
    refCall op layer refs = refs := by
  have same : writeRef op = id := by
    cases op with
    | modifyCoins | flush | batchWrite => cases reads
    | _ => rfl
  induction refs generalizing layer with
  | nil => cases layer <;> rfl
  | cons ref refs ih =>
    cases layer with
    | succ layer => rw [refCall, ih, same]; rfl
    | zero =>
      cases op with
      | modifyCoins | flush | batchWrite => cases reads
      | _ => rfl

theorem admissible_op (admissible : Admissible B op layer layers base) :
    ∃ named, AdmissibleOp B op named base := by
  induction layer generalizing layers with
  | zero =>
    cases layers with
    | nil => exact False.elim admissible
    | cons cache parents => exact ⟨_, admissible⟩
  | succ layer ih =>
    cases layers with
    | nil => exact False.elim admissible
    | cons cache parents => exact ih admissible.2

theorem applyAt_reads (reads : op.writes = false) (admissible : Admissible B op layer layers base) :
    ∃ layers', applyAt B op layer layers base = some (layers', base) ∧
      Unread B base layers layers' ∧
      ∀ refs, Agrees B base layers refs → Agrees B base layers' refs := by
  induction layer generalizing layers with
  | zero =>
    cases layers with
    | nil => exact False.elim admissible
    | cons cache parents =>
      cases op with
      | modifyCoins | flush | batchWrite => cases reads
      | getCoins txid =>
        exact ⟨_, rfl, getCoins_unread B base _ txid, fun _ => getCoins_agrees txid⟩
      | haveCoins txid =>
        refine ⟨_, rfl, ?_⟩
        rw [haveCoins_layers]
        exact ⟨getCoins_unread B base _ txid, fun _ => getCoins_agrees txid⟩
      | setBestBlock hashBlock =>
        exact ⟨_, rfl, ⟨fun _ => rfl, fun _ held => held, fun coherent => coherent⟩,
          fun refs agrees => by cases refs <;> exact agrees⟩
  | succ layer ih =>
    cases layers with
    | nil => exact False.elim admissible
    | cons cache parents =>
      obtain ⟨parents', run, unread, below⟩ := ih admissible.2
      refine ⟨cache :: parents', by simp [applyAt, run], unread_cons B unread cache, ?_⟩
      intro refs agrees
      cases refs with
      | nil => exact False.elim agrees
      | cons ref refs =>
        refine ⟨fun txid => ?_, below refs agrees.2⟩
        rw [unread_value B (unread_cons B unread cache)]
        exact agrees.1 txid

variable {edit : CCoins → CCoins} {mapCoins : CCoinsMap}

theorem modifyWith_kept {parents parents' : List CCoinsViewCache} (txid : Uint256)
    (fallback : Option CCoins) (respectful : Respectful edit)
    (coherent : Coherent B base (cache :: parents))
    (shows : ∀ other, (value B base (cache :: parents) other).same (ref other) = true)
    (unread : Unread B base parents parents') (below : Agrees B base parents' refs)
    (answer : cache.cacheCoins.lookup txid = none →
      fallback.getD CCoins.empty = value B base parents txid)
    (pulled : cache.cacheCoins.lookup txid = none →
      ∀ coins, fallback = some coins → HoldsKey parents' txid) :
    ∃ cache', cache.modifyWith txid fallback edit = some cache' ∧
      Coherent B base (cache' :: parents') ∧
      Agrees B base (cache' :: parents')
        (Function.update ref txid (edit (ref txid)).cleanup :: refs) := by
  obtain ⟨idle, promised, belowCoherent⟩ := (unread_cons B unread cache).coherent coherent
  rw [← unread_value B unread] at answer
  obtain ⟨slotOver, slotShows⟩ := editedSlot_over (value B base parents' txid)
    (HoldsKey parents' txid) (cache.cacheCoins.lookup txid) fallback edit (promised txid) answer pulled
  refine ⟨_, modifyWith_eq cache txid fallback edit idle, ⟨idle, ?_, belowCoherent⟩, ?_, below⟩
  · intro other entry found
    by_cases same : other = txid
    · subst same
      rw [lookup_setSlot_same] at found
      exact slotOver entry found
    · rw [lookup_setSlot_other _ _ same] at found
      exact promised other entry found
  · intro other
    have before := shows other
    rw [← unread_value B (unread_cons B unread cache), value_cons] at before
    rw [value_cons]
    by_cases same : other = txid
    · subst same
      rw [lookup_setSlot_same, Function.update_self]
      refine CCoins.same_trans slotShows ?_
      rcases (CCoins.same_iff _ _).mp before with pruned | equal
      · exact respectful _ _ pruned.1 pruned.2
      · rw [equal]
        exact CCoins.same_refl _
    · rwa [lookup_setSlot_other _ _ same, Function.update_of_ne same]

theorem modifyCoins_kept (txid : Uint256) (respectful : Respectful edit)
    (coherent : Coherent B base (cache :: parents))
    (agrees : Agrees B base (cache :: parents) (ref :: refs)) :
    ∃ layers', modifyCoins B base txid edit (cache :: parents) = some layers' ∧
      Coherent B base layers' ∧
      Agrees B base layers' (Function.update ref txid (edit (ref txid)).cleanup :: refs) := by
  cases cached : cache.cacheCoins.lookup txid with
  | some entry =>
    obtain ⟨cache', run, kept⟩ := modifyWith_kept txid none respectful coherent agrees.1
      (unread_refl B base parents) agrees.2 (by simp [cached]) (by simp [cached])
    exact ⟨cache' :: parents, by simp [modifyCoins, cached, run], kept⟩
  | none =>
    have found := getCoins_answer B base parents txid
    obtain ⟨cache', run, kept⟩ := modifyWith_kept txid (getCoins B base parents txid).2 respectful
      coherent agrees.1 (getCoins_unread B base parents txid)
      (getCoins_agrees txid agrees.2) (fun _ => by rw [found, value])
      (fun _ => getCoins_holds B base parents txid)
    exact ⟨_, by simp [modifyCoins, cached, run], kept⟩

theorem batchWrite_kept (hashBlock : Uint256) (coherent : Coherent B base (cache :: parents))
    (promised : MapOver B base (cache :: parents) mapCoins) :
    ∃ cache', cache.batchWrite mapCoins hashBlock = some cache' ∧
      Coherent B base (cache' :: parents) ∧
      ∀ txid, (value B base (cache' :: parents) txid).same
        (writeRef (.batchWrite mapCoins hashBlock) (value B base (cache :: parents)) txid) = true := by
  obtain ⟨idle, own, below⟩ := coherent
  have entryMerge : ∀ txid child, mapCoins.lookup txid = some child → _ :=
    fun txid child found => mergeEntry_over (value B base parents txid) (HoldsKey parents txid)
      (cache.cacheCoins.lookup txid) child (own txid)
      (by rw [← value_cons]; exact promised txid child found)
  obtain ⟨merged, run, slots⟩ := mergeAll_slots mergeEntry cache.cacheCoins mapCoins
    (fun txid child found => by
      obtain ⟨slot, merge, _⟩ := entryMerge txid child found
      simp [merge])
  refine ⟨{ cache with cacheCoins := merged, hashBlock := hashBlock },
    by simp [CCoinsViewCache.batchWrite, idle, run], ⟨idle, ?_, below⟩, ?_⟩
  · intro txid
    have slot := slots txid
    cases found : mapCoins.lookup txid with
    | none =>
      simp only [mergedSlot, found, Option.some.injEq] at slot
      rw [← slot]
      exact own txid
    | some child =>
      obtain ⟨slot', merge, slotOver, _⟩ := entryMerge txid child found
      simp only [mergedSlot, found, merge, Option.some.injEq] at slot
      rw [← slot]
      exact slotOver
  · intro txid
    have slot := slots txid
    cases found : mapCoins.lookup txid with
    | none =>
      simp only [mergedSlot, found, Option.some.injEq] at slot
      simp only [writeRef, found, ← slot, value_cons]
      exact CCoins.same_refl _
    | some child =>
      obtain ⟨slot', merge, _, shows⟩ := entryMerge txid child found
      simp only [mergedSlot, found, merge, Option.some.injEq] at slot
      simp only [writeRef, found, ← slot, value_cons]
      exact shows

theorem writeRef_own {hashBlock : Uint256} (promised : MapOver B base layers mapCoins)
    (txid : Uint256) :
    (writeRef (.batchWrite mapCoins hashBlock) (value B base layers) txid).same
      (slotValue (value B base layers txid) (mapCoins.lookup txid)) = true := by
  simp only [writeRef, slotValue]
  cases found : mapCoins.lookup txid with
  | none => exact CCoins.same_refl _
  | some entry =>
    cases dirty : entry.dirty with
    | true => simpa [dirty] using CCoins.same_refl _
    | false => simpa [dirty] using CCoins.same_symm ((promised txid entry found).clean dirty)

theorem base_batchWrite_value (hashBlock : Uint256) (promised : MapOver B base [] cache.cacheCoins)
    (txid : Uint256) :
    (value B (B.batchWrite base cache.cacheCoins hashBlock) [] txid).same
      (value B base [cache] txid) = true := by
  rw [value_cons]
  cases found : cache.cacheCoins.lookup txid with
  | none =>
    simp only [slotValue, value, shown, B.untouched base cache.cacheCoins hashBlock txid found]
    exact CCoins.same_refl _
  | some entry =>
    have tidy := (promised txid entry found).tidy
    cases dirty : entry.dirty with
    | true => exact B.written base cache.cacheCoins hashBlock txid entry found tidy dirty
    | false =>
      rcases B.optional base cache.cacheCoins hashBlock txid entry found tidy dirty with
        kept | stored
      · have old := (promised txid entry found).clean dirty
        simp only [value, shown] at old ⊢
        rw [kept]
        exact CCoins.same_symm old
      · exact stored

theorem flush_kept (coherent : Coherent B base (cache :: parents))
    (agrees : Agrees B base (cache :: parents) (ref :: refs)) :
    ∃ layers' base', flush B base (cache :: parents) = some (layers', base') ∧
      Coherent B base' layers' ∧ Agrees B base' layers' (refCall .flush 0 (ref :: refs)) := by
  obtain ⟨below, rest, rfl, _⟩ := agrees_head agrees.2
  obtain ⟨idle, promised, parentsCoherent⟩ := coherent
  have emptied : ∀ base' parents', MapOver B base' parents' (∅ : CCoinsMap) := by
    intro base' parents' txid entry found
    simp at found
  cases parents with
  | nil =>
    have shows := fun txid => CCoins.same_trans
      (base_batchWrite_value cache.hashBlock promised txid) (agrees.1 txid)
    cases rest with
    | cons extra rest => exact False.elim agrees.2
    | nil =>
      refine ⟨_, _, rfl, ⟨idle, emptied _ _, trivial⟩, ?_, shows⟩
      intro txid
      simpa only [value_cons, slotValue, AList.lookup_empty] using shows txid
  | cons parent parents =>
    obtain ⟨parent', run, kept, merged⟩ :=
      batchWrite_kept cache.hashBlock parentsCoherent promised
    have shows : ∀ txid, (value B base (parent' :: parents) txid).same (ref txid) = true := by
      intro txid
      refine CCoins.same_trans (merged txid) (CCoins.same_trans (writeRef_own promised txid) ?_)
      rw [← value_cons]
      exact agrees.1 txid
    refine ⟨{ cache with cacheCoins := ∅ } :: parent' :: parents, base, by simp [flush, run],
      ⟨idle, emptied _ _, kept⟩, ?_, shows, agrees.2.2⟩
    intro txid
    simpa only [value_cons, slotValue, AList.lookup_empty] using shows txid

theorem applyAt_writes (writes : op.writes = true) (admissible : Admissible B op layer layers base)
    (coherent : Coherent B base layers) (agrees : Agrees B base layers refs) :
    ∃ layers' base', applyAt B op layer layers base = some (layers', base') ∧
      Coherent B base' layers' ∧ Agrees B base' layers' (refCall op layer refs) := by
  induction layer generalizing layers refs with
  | zero =>
    cases layers with
    | nil => exact False.elim admissible
    | cons cache parents =>
      obtain ⟨ref, refs, rfl, _⟩ := agrees_head agrees
      cases op with
      | getCoins | haveCoins | setBestBlock => cases writes
      | flush => exact flush_kept coherent agrees
      | modifyCoins txid edit =>
        obtain ⟨layers', run, kept⟩ := modifyCoins_kept txid admissible coherent agrees
        exact ⟨layers', base, by simp [applyAt, applyTop, run], kept⟩
      | batchWrite mapCoins hashBlock =>
        obtain ⟨cache', run, kept, merged⟩ :=
          batchWrite_kept hashBlock coherent admissible
        refine ⟨cache' :: parents, base, by simp [applyAt, applyTop, run], kept, ?_, agrees.2⟩
        exact fun txid => CCoins.same_trans (merged txid) (same_writeRef admissible agrees.1 txid)
  | succ layer ih =>
    cases layers with
    | nil => exact False.elim admissible
    | cons cache parents =>
      obtain ⟨empty, admissible⟩ := admissible
      obtain ⟨ref, refs, rfl, _⟩ := agrees_head agrees
      obtain ⟨idle, _, parentsCoherent⟩ := coherent
      obtain ⟨parents', base', run, kept, below⟩ := ih admissible parentsCoherent agrees.2
      have through : ∀ base' parents' txid,
          value B base' (cache :: parents') txid = value B base' parents' txid := by
        intro base' parents' txid
        rw [value_cons, empty writes, AList.lookup_empty]
        rfl
      obtain ⟨lower, rest, rfl, lowerShows⟩ := agrees_head agrees.2
      obtain ⟨tail, head⟩ := refCall_head op layer lower rest
      obtain ⟨lower', rest', split, shows⟩ := agrees_head below
      have lowerIs : lower' = writeRef op lower := by
        rw [head, List.cons.injEq] at split
        exact split.1.symm
      obtain ⟨named, admissibleOp⟩ := admissible_op admissible
      refine ⟨cache :: parents', base', by simp [applyAt, run], ⟨idle, ?_, kept⟩, ?_, below⟩
      · intro txid entry found
        rw [empty writes, AList.lookup_empty] at found
        cases found
      · intro txid
        rw [through]
        refine CCoins.same_trans (shows txid) ?_
        rw [lowerIs]
        refine same_writeRef admissibleOp (fun other => ?_) txid
        refine CCoins.same_trans (CCoins.same_symm (lowerShows other)) ?_
        rw [← through]
        exact agrees.1 other

theorem applyAt_kept (admissible : Admissible B op layer layers base)
    (coherent : Coherent B base layers) (agrees : Agrees B base layers refs) :
    ∃ layers' base', applyAt B op layer layers base = some (layers', base') ∧
      Coherent B base' layers' ∧ Agrees B base' layers' (refCall op layer refs) := by
  cases writes : op.writes with
  | true => exact applyAt_writes writes admissible coherent agrees
  | false =>
    obtain ⟨layers', run, unread, below⟩ := applyAt_reads writes admissible
    rw [refCall_reads writes]
    exact ⟨layers', base, run, unread.coherent coherent, below refs agrees⟩

theorem runCalls_kept (calls : List Call) (admissible : AdmissibleRun B calls layers base)
    (coherent : Coherent B base layers) (agrees : Agrees B base layers refs) :
    ∃ layers' base', runCalls B calls layers base = some (layers', base') ∧
      Coherent B base' layers' ∧ Agrees B base' layers' (refRun calls refs) := by
  induction calls generalizing layers base refs with
  | nil => exact ⟨layers, base, rfl, coherent, agrees⟩
  | cons call calls ih =>
    obtain ⟨first, later⟩ := admissible
    obtain ⟨layers', base', run, coherent', agrees'⟩ := applyAt_kept first coherent agrees
    obtain ⟨final, finalBase, rest, kept⟩ := ih (later layers' base' run) coherent' agrees'
    exact ⟨final, finalBase, by simp [runCalls, run, rest], kept⟩

def startRefs (B : CoinsBase σ) (base : σ) (layers : List CCoinsViewCache) : List RefMap :=
  layers.tails.map (value B base)

theorem agrees_start (base : σ) (layers : List CCoinsViewCache) :
    Agrees B base layers (startRefs B base layers) := by
  induction layers with
  | nil => exact fun txid => CCoins.same_refl _
  | cons cache parents ih => exact ⟨fun txid => CCoins.same_refl _, ih⟩

theorem coherent_drop (layer : Nat) (coherent : Coherent B base layers) :
    Coherent B base (layers.drop layer) := by
  induction layer generalizing layers with
  | zero => exact coherent
  | succ layer ih =>
    cases layers with
    | nil => exact coherent
    | cons cache parents => exact ih coherent.2.2

theorem agrees_drop (layer : Nat) (inside : layer < layers.length)
    (agrees : Agrees B base layers refs) :
    Agrees B base (layers.drop layer) (refs.drop layer) := by
  induction layer generalizing layers refs with
  | zero => exact agrees
  | succ layer ih =>
    cases layers with
    | nil => simp at inside
    | cons cache parents =>
      obtain ⟨ref, refs, rfl, _⟩ := agrees_head agrees
      exact ih (by simpa using inside) agrees.2

/-- What a layer over its parents shows, against a reference map. -/
structure Faithful (B : CoinsBase σ) (base : σ) (cache : CCoinsViewCache)
    (parents : List CCoinsViewCache) (ref : RefMap) : Prop where
  getCoins : ∀ txid, Shows (getCoins B base (cache :: parents) txid).2 (ref txid)
  haveCoins : ∀ txid, (haveCoins B base (cache :: parents) txid).2 = !(ref txid).isPruned
  fresh : ∀ txid entry, cache.cacheCoins.lookup txid = some entry → entry.fresh = true →
    (value B base parents txid).isPruned = true
  clean : ∀ txid entry, cache.cacheCoins.lookup txid = some entry → entry.dirty = false →
    entry.coins.same (value B base parents txid) = true

theorem faithful_of_kept (coherent : Coherent B base (cache :: parents))
    (shows : ∀ txid, (value B base (cache :: parents) txid).same (ref txid) = true) :
    Faithful B base cache parents ref where
  getCoins txid := by
    rw [getCoins_answer]
    exact shows txid
  haveCoins txid := by
    rw [haveCoins_answer B base _ coherent, CCoins.same_pruned (shows txid)]
  fresh txid entry found := (coherent.2.1 txid entry found).fresh
  clean txid entry found := (coherent.2.1 txid entry found).clean

end Stack

/-- From a coherent stack, such as one of empty caches, every admissible run of
    calls gets past all assertions, and each layer ends up showing what the same
    edits made of the reference maps. -/
theorem cache_stack_refines_reference (B : CoinsBase σ) (layers : List CCoinsViewCache) (base : σ)
    (calls : List Call) (coherent : Coherent B base layers)
    (admissible : AdmissibleRun B calls layers base) :
    ∃ layers' base', runCalls B calls layers base = some (layers', base') ∧
      ∀ layer, layer < layers'.length → ∃ cache parents ref,
        layers'.drop layer = cache :: parents ∧
        (refRun calls (startRefs B base layers))[layer]? = some ref ∧
        Faithful B base' cache parents ref := by
  obtain ⟨layers', base', run, kept, agrees⟩ :=
    runCalls_kept calls admissible coherent (agrees_start base layers)
  refine ⟨layers', base', run, fun layer inside => ?_⟩
  have keptBelow := coherent_drop layer kept
  have agreesBelow := agrees_drop layer inside agrees
  obtain ⟨ref, rest, split, shows⟩ := agrees_head agreesBelow
  have found : (refRun calls (startRefs B base layers))[layer]? = some ref := by
    rw [← List.head?_drop, split]
    rfl
  cases stack : layers'.drop layer with
  | nil => simp [List.drop_eq_nil_iff, Nat.not_le.mpr inside] at stack
  | cons cache parents =>
    rw [stack] at keptBelow shows
    exact ⟨cache, parents, ref, rfl, found, faithful_of_kept keptBelow shows⟩

theorem coherent_init (B : CoinsBase σ) (base : σ) (count : Nat) :
    Coherent B base (List.replicate count CCoinsViewCache.init) := by
  induction count with
  | zero => trivial
  | succ count ih =>
    refine ⟨rfl, fun txid entry found => ?_, ih⟩
    simp [CCoinsViewCache.init] at found

def paidCoins : CCoins := ⟨false, false, [⟨5, [], -10⟩], 1, 1⟩

def paidDB : Uint256 → Option CCoins := fun txid => if txid = 7 then some paidCoins else none

def twoLayers : List CCoinsViewCache := List.replicate 2 CCoinsViewCache.init

def payAndFlush : List Call :=
  [⟨0, .modifyCoins 7 fun _ => paidCoins⟩, ⟨0, .flush⟩, ⟨1, .flush⟩]

theorem pay_and_flush_admissible :
    AdmissibleRun coinsViewDB payAndFlush twoLayers (fun _ => none) := by
  refine ⟨fun _ _ _ _ => CCoins.same_refl _, fun layers base paid => ?_⟩
  cases paid
  refine ⟨trivial, fun layers base flushed => ?_⟩
  cases flushed
  refine ⟨⟨fun _ => rfl, trivial⟩, fun layers base flushed => ?_⟩
  cases flushed
  trivial

theorem pay_and_flush_refines :
    ∃ layers' base', runCalls coinsViewDB payAndFlush twoLayers (fun _ => none) =
        some (layers', base') ∧
      ∀ layer, layer < layers'.length → ∃ cache parents ref,
        layers'.drop layer = cache :: parents ∧
        (refRun payAndFlush (startRefs coinsViewDB (fun _ => none) twoLayers))[layer]? = some ref ∧
        Faithful coinsViewDB base' cache parents ref :=
  cache_stack_refines_reference coinsViewDB twoLayers (fun _ => none) payAndFlush
    (coherent_init coinsViewDB _ 2) pay_and_flush_admissible

def topVersion (calls : List Call) (layers : List CCoinsViewCache)
    (base : Uint256 → Option CCoins) : Option Int32 × Option Int32 :=
  ((runCalls coinsViewDB calls layers base).map fun (layers', base') =>
      (value coinsViewDB base' layers' 7).nVersion,
    (refRun calls (startRefs coinsViewDB base layers)).head?.map fun ref => (ref 7).nVersion)

def setVersion (nVersion : Int32) : Op := .modifyCoins 7 fun coins => { coins with nVersion }

/-- Each call outside the discipline goes wrong: a lower layer flushed or a foreign map merged
    fires the assertion of `BatchWrite`, a changed lower layer is not seen, and a pruned entry
    forgets what was written to it. -/
theorem undisciplined_calls_diverge :
    runCalls coinsViewDB [⟨0, .getCoins 7⟩, ⟨1, .flush⟩, ⟨0, setVersion 2⟩, ⟨0, .flush⟩]
        twoLayers paidDB = none ∧
      runCalls coinsViewDB [⟨0, .batchWrite (AList.singleton 7 ⟨paidCoins, true, false⟩) 0⟩]
        twoLayers paidDB = none ∧
      topVersion [⟨0, .getCoins 7⟩, ⟨1, setVersion 2⟩] twoLayers paidDB = (some 1, some 2) ∧
      topVersion [⟨0, setVersion 2⟩,
          ⟨0, .modifyCoins 7 fun coins => { coins with vout := paidCoins.vout }⟩]
        twoLayers (fun _ => none) = (some 0, some 2) := by
  refine ⟨rfl, rfl, rfl, rfl⟩

end OxidCacheStackRuns
