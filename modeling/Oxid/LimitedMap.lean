import Oxid.Library.Runs
import Oxid.MapKeys

/-!
The map that is to keep the entries with the highest values. It holds its entries in a map
and the iterators to them in an index ordered by value. An iterator is the key it points to:
none outlives its entry.
-/
namespace OxidLimitedMap
open OxidPrimitives OxidMapKeys OrderedMaps Runs

variable {K V : Type} [MapKey K] [DecidableEq K] [LinearOrder V]

structure LimitedMap (K V : Type) [MapKey K] where
  map : OrderedMap K V
  rmap : List (V × K)
  nMaxSize : Nat

inductive Fault where
  | assertion
  /-- The first iterator of an empty index is used. -/
  | emptyIndex
deriving DecidableEq, Repr

/-- Behind the iterators of the same value. -/
def rmapInsert (v : V) (it : K) : List (V × K) → List (V × K)
  | [] => [(v, it)]
  | first :: rest =>
    if v < first.1 then (v, it) :: first :: rest else first :: rmapInsert v it rest

def rmapErase (v : V) (itTarget : K) : List (V × K) → Option (List (V × K))
  | [] => none
  | first :: rest =>
    if first.1 = v ∧ first.2 = itTarget then some rest
    else (rmapErase v itTarget rest).map (first :: ·)

namespace LimitedMap

def init (nMaxSizeIn : Nat) : LimitedMap K V := ⟨∅, [], nMaxSizeIn⟩

/-- Insertion of a key the map does not hold. -/
def insertNew (limited : LimitedMap K V) (k : K) (v : V) : Except Fault (LimitedMap K V) :=
  let map := limited.map.insert k v
  if limited.nMaxSize ≠ 0 ∧ map.size = limited.nMaxSize then
    match limited.rmap with
    | [] => .error .emptyIndex
    | first :: rest => .ok { limited with map := map.erase first.2, rmap := rmapInsert v k rest }
  else .ok { limited with map := map, rmap := rmapInsert v k limited.rmap }

def insert (limited : LimitedMap K V) (k : K) (v : V) : Except Fault (LimitedMap K V) :=
  if limited.map.count k then .ok limited else limited.insertNew k v

def erase (limited : LimitedMap K V) (k : K) : Except Fault (LimitedMap K V) :=
  match limited.map.find? k with
  | none => .ok limited
  | some value =>
    match rmapErase value k limited.rmap with
    | none => .error .assertion
    | some rmap => .ok { limited with map := limited.map.erase k, rmap := rmap }

def update (limited : LimitedMap K V) (k : K) (v : V) : Except Fault (LimitedMap K V) :=
  match limited.map.find? k with
  | none => .ok limited
  | some value =>
    match rmapErase value k limited.rmap with
    | none => .error .assertion
    | some rmap => .ok { limited with map := limited.map.set k v, rmap := rmapInsert v k rmap }

def shrink (s : Nat) (map : OrderedMap K V) :
    List (V × K) → Except Fault (OrderedMap K V × List (V × K))
  | [] => if s < map.size then .error .emptyIndex else .ok (map, [])
  | first :: rest =>
    if s < map.size then shrink s (map.erase first.2) rest else .ok (map, first :: rest)

def maxSize (limited : LimitedMap K V) (s : Nat) : Except Fault (LimitedMap K V) :=
  if s ≠ 0 then
    (shrink s limited.map limited.rmap).map fun shrunk => ⟨shrunk.1, shrunk.2, s⟩
  else .ok { limited with nMaxSize := s }

end LimitedMap

inductive Call (K V : Type) where
  | insert (k : K) (v : V)
  | erase (k : K)
  | update (k : K) (v : V)
  | maxSize (s : Nat)

def run (limited : LimitedMap K V) : Call K V → Except Fault (LimitedMap K V)
  | .insert k v => limited.insert k v
  | .erase k => limited.erase k
  | .update k v => limited.update k v
  | .maxSize s => limited.maxSize s

def step (call : Call K V) (limited : LimitedMap K V) :
    Option (LimitedMap K V × Call K V × LimitedMap K V) :=
  (run limited call).toOption.map fun next => (next, call, limited)

section Index
variable {v : V} {k : K} {index : List (V × K)}

omit [MapKey K] [DecidableEq K] in
theorem rmapInsert_perm (v : V) (k : K) (index : List (V × K)) :
    (rmapInsert v k index).Perm ((v, k) :: index) := by
  induction index with
  | nil => exact List.Perm.refl _
  | cons first rest ih =>
    unfold rmapInsert
    split
    · exact List.Perm.refl _
    · exact (ih.cons first).trans (List.Perm.swap _ _ rest)

omit [MapKey K] [DecidableEq K] in
theorem rmapInsert_ordered (ordered : index.Pairwise fun a b => a.1 ≤ b.1) :
    (rmapInsert v k index).Pairwise fun a b => a.1 ≤ b.1 := by
  induction index with
  | nil => exact List.pairwise_singleton _ _
  | cons first rest ih =>
    obtain ⟨least, ordered'⟩ := List.pairwise_cons.mp ordered
    unfold rmapInsert
    split
    · rename_i below
      refine List.pairwise_cons.mpr ⟨?_, ordered⟩
      intro other member
      rcases List.mem_cons.mp member with rfl | later
      · exact below.le
      · exact below.le.trans (least other later)
    · rename_i above
      refine List.pairwise_cons.mpr ⟨?_, ih ordered'⟩
      intro other member
      rcases List.mem_cons.mp ((rmapInsert_perm v k rest).mem_iff.mp member) with rfl | later
      · exact not_lt.mp above
      · exact least other later

omit [MapKey K] in
theorem rmapErase_found (member : (v, k) ∈ index) :
    ∃ left, rmapErase v k index = some left ∧ index.Perm ((v, k) :: left) ∧
      left.Sublist index := by
  induction index with
  | nil => cases member
  | cons first rest ih =>
    unfold rmapErase
    by_cases here : first.1 = v ∧ first.2 = k
    · rw [if_pos here]
      have same : first = (v, k) := Prod.ext here.1 here.2
      exact ⟨rest, rfl, by rw [same], List.sublist_cons_self first rest⟩
    · rw [if_neg here]
      rcases List.mem_cons.mp member with same | later
      · exact absurd ⟨by rw [← same], by rw [← same]⟩ here
      · obtain ⟨left, ran, split, sub⟩ := ih later
        refine ⟨first :: left, by rw [ran]; rfl, ?_, sub.cons_cons first⟩
        exact (split.cons first).trans (List.Perm.swap _ _ left)

end Index

section Invariant

/-- The index holds the pairs of the map, each once. -/
def Indexed (map : OrderedMap K V) (rmap : List (V × K)) : Prop :=
  rmap.Perm (map.entries.map Prod.swap)

structure Sound (limited : LimitedMap K V) : Prop where
  indexed : Indexed limited.map limited.rmap
  ordered : limited.rmap.Pairwise fun a b => a.1 ≤ b.1
  within : limited.nMaxSize ≠ 0 → limited.map.size ≤ limited.nMaxSize

/-- What an insertion of a new key may drop: an entry of lowest value where the map is
    full, the new one among them, and nothing elsewhere. -/
def Drops (after : LimitedMap K V) : Call K V × LimitedMap K V → Prop
  | (.insert k v, before) => before.map.find? k = none →
    if before.nMaxSize ≠ 0 ∧ before.map.size = before.nMaxSize then
      ∃ low, (∀ entry ∈ (k, v) :: before.map.entries, low.2 ≤ entry.2) ∧
        (low :: after.map.entries).Perm ((k, v) :: before.map.entries)
    else after.map.entries.Perm ((k, v) :: before.map.entries)
  | _ => True

/-- A new key comes only where the map stays below its limit. -/
def Roomy : Call K V → LimitedMap K V → Prop
  | .insert k _, limited => limited.map.find? k = none → limited.nMaxSize ≠ 0 →
    limited.map.size + 1 < limited.nMaxSize
  | _, _ => True

variable {map : OrderedMap K V} {rmap rest : List (V × K)} {first : V × K} {k : K} {v value : V}
  {limited next : LimitedMap K V}

omit [DecidableEq K] [LinearOrder V] in
theorem indexed_size (indexed : Indexed map rmap) : rmap.length = map.size := by
  rw [indexed.length_eq, List.length_map]
  rfl

omit [DecidableEq K] [LinearOrder V] in
theorem insert_perm (v : V) (absent : map.find? k = none) :
    (map.insert k v).entries.Perm ((k, v) :: map.entries) :=
  OrderedMap.editEntries_perm _ absent

omit [DecidableEq K] [LinearOrder V] in
theorem insert_size (v : V) (absent : map.find? k = none) :
    (map.insert k v).size = map.size + 1 :=
  (insert_perm v absent).length_eq

omit [DecidableEq K] [LinearOrder V] in
theorem indexed_erased {left : List (V × K)} (indexed : Indexed map rmap)
    (found : map.find? k = some value) (split : rmap.Perm ((value, k) :: left)) :
    Indexed (map.erase k) left := by
  have entries := (OrderedMap.erase_perm found).map Prod.swap
  exact List.Perm.cons_inv (split.symm.trans (indexed.trans entries))

omit [DecidableEq K] [LinearOrder V] in
theorem indexed_head (indexed : Indexed map (first :: rest)) :
    map.find? first.2 = some first.1 ∧ Indexed (map.erase first.2) rest := by
  have member := indexed.mem_iff.mp List.mem_cons_self
  obtain ⟨entry, among, same⟩ := List.mem_map.mp member
  have found : map.find? first.2 = some first.1 := by
    rw [← OrderedMap.mem_entries_iff, ← same]
    exact among
  exact ⟨found, indexed_erased indexed found (List.Perm.refl _)⟩

omit [DecidableEq K] in
theorem indexed_insert (indexed : Indexed map rmap) (v : V) (absent : map.find? k = none) :
    Indexed (map.insert k v) (rmapInsert v k rmap) := by
  have entries := (insert_perm v absent).map Prod.swap
  exact (rmapInsert_perm v k rmap).trans ((indexed.cons (v, k)).trans entries.symm)

theorem indexed_find (indexed : Indexed map rmap) (found : map.find? k = some value) :
    ∃ left, rmapErase value k rmap = some left ∧ Indexed (map.erase k) left ∧
      left.Sublist rmap := by
  have member : (value, k) ∈ rmap :=
    indexed.mem_iff.mpr (List.mem_map_of_mem ((map.mem_entries_iff k value).mpr found))
  obtain ⟨left, ran, split, sub⟩ := rmapErase_found member
  exact ⟨left, ran, indexed_erased indexed found split, sub⟩

omit [DecidableEq K] in
theorem indexed_set (v : V) (indexed : Indexed (map.erase k) rmap) :
    Indexed (map.set k v) (rmapInsert v k rmap) := by
  have entries := (OrderedMap.set_perm_erase map k v).map Prod.swap
  exact (rmapInsert_perm v k rmap).trans ((indexed.cons (v, k)).trans entries.symm)

omit [LinearOrder V] in
theorem erase_insert (v : V) {other : K} (apart : k ≠ other) :
    (map.insert k v).erase other = (map.erase other).insert k v := by
  apply OrderedMap.eq_of_find?
  intro key
  by_cases at' : key = other
  · rw [at', OrderedMap.find?_erase_same, OrderedMap.find?_insert_other _ _ (Ne.symm apart),
      OrderedMap.find?_erase_same]
  · rw [OrderedMap.find?_erase_other _ at']
    by_cases here : key = k
    · rw [here, OrderedMap.find?_insert_same, OrderedMap.find?_insert_same,
        OrderedMap.find?_erase_other _ apart]
    · rw [OrderedMap.find?_insert_other _ _ here, OrderedMap.find?_insert_other _ _ here,
        OrderedMap.find?_erase_other _ at']

omit [DecidableEq K] in
theorem insert_standing (v : V) (found : limited.map.find? k = some value) :
    limited.insert k v = .ok limited := by
  unfold LimitedMap.insert OrderedMap.count
  rw [found]
  rfl

omit [DecidableEq K] in
theorem insert_absent (v : V) (absent : limited.map.find? k = none) :
    limited.insert k v = limited.insertNew k v := by
  unfold LimitedMap.insert OrderedMap.count
  rw [absent]
  rfl

omit [DecidableEq K] in
theorem shrink_kept (s : Nat) (indexed : Indexed map rmap)
    (ordered : rmap.Pairwise fun a b => a.1 ≤ b.1) :
    ∃ left, LimitedMap.shrink s map rmap = .ok left ∧ Indexed left.1 left.2 ∧
      (left.2.Pairwise fun a b => a.1 ≤ b.1) ∧ left.1.size ≤ s := by
  induction rmap generalizing map with
  | nil =>
    have empty := indexed_size indexed
    unfold LimitedMap.shrink
    rw [if_neg (by rw [← empty]; exact Nat.not_lt_zero s)]
    exact ⟨_, rfl, indexed, List.Pairwise.nil, by rw [← empty]; exact Nat.zero_le s⟩
  | cons first rest ih =>
    unfold LimitedMap.shrink
    split
    · exact ih (indexed_head indexed).2 (List.pairwise_cons.mp ordered).2
    · exact ⟨_, rfl, indexed, ordered, by dsimp only; omega⟩

def added (limited : LimitedMap K V) (k : K) (v : V) : LimitedMap K V :=
  { limited with map := limited.map.insert k v, rmap := rmapInsert v k limited.rmap }

omit [DecidableEq K] in
theorem insert_full (v : V) (absent : limited.map.find? k = none)
    (full : limited.map.size = limited.nMaxSize) :
    limited.insert k v = .ok (added limited k v) := by
  have size := insert_size v absent
  rw [insert_absent v absent, LimitedMap.insertNew]
  exact if_neg fun again => by omega

section Calls
variable (sound : Sound limited)
include sound

theorem erase_kept (k : K) : ∃ next, limited.erase k = .ok next ∧ Sound next := by
  unfold LimitedMap.erase
  cases found : limited.map.find? k with
  | none => exact ⟨limited, rfl, sound⟩
  | some value =>
    obtain ⟨left, ran, indexed, sub⟩ := indexed_find sound.indexed found
    have fewer := OrderedMap.size_erase_lt found
    simp only [ran]
    refine ⟨_, rfl, indexed, sound.ordered.sublist sub, ?_⟩
    intro limit
    exact fewer.le.trans (sound.within limit)

theorem update_kept (k : K) (v : V) : ∃ next, limited.update k v = .ok next ∧ Sound next := by
  unfold LimitedMap.update
  cases found : limited.map.find? k with
  | none => exact ⟨limited, rfl, sound⟩
  | some value =>
    obtain ⟨left, ran, indexed, sub⟩ := indexed_find sound.indexed found
    have same : (limited.map.set k v).size = limited.map.size := by
      rw [← OrderedMap.size_erase found]
      exact (OrderedMap.set_perm_erase limited.map k v).length_eq
    simp only [ran]
    refine ⟨_, rfl, indexed_set v indexed, rmapInsert_ordered (sound.ordered.sublist sub), ?_⟩
    intro limit
    exact same.le.trans (sound.within limit)

omit [DecidableEq K] in
theorem maxSize_kept (s : Nat) : ∃ next, limited.maxSize s = .ok next ∧ Sound next := by
  unfold LimitedMap.maxSize
  split
  · obtain ⟨left, ran, indexed, ordered, small⟩ := shrink_kept s sound.indexed sound.ordered
    rw [ran]
    exact ⟨_, rfl, indexed, ordered, fun _ => small⟩
  · rename_i unlimited
    refine ⟨_, rfl, sound.indexed, sound.ordered, fun limit => ?_⟩
    exact absurd limit unlimited

omit [DecidableEq K] in
theorem insert_roomy (v : V) (absent : limited.map.find? k = none)
    (roomy : limited.nMaxSize ≠ 0 → limited.map.size + 1 < limited.nMaxSize) :
    limited.insert k v = .ok (added limited k v) ∧ Sound (added limited k v) := by
  have size := insert_size v absent
  constructor
  · rw [insert_absent v absent, LimitedMap.insertNew]
    exact if_neg fun full => by have := roomy full.1; omega
  · refine ⟨indexed_insert sound.indexed v absent, rmapInsert_ordered sound.ordered, ?_⟩
    intro limit
    have := roomy limit
    dsimp only [added]
    omega

theorem insert_short (v : V) (absent : limited.map.find? k = none)
    (short : limited.map.size + 1 = limited.nMaxSize) :
    limited.insert k v = .error .emptyIndex ∨
      ∃ next, limited.insert k v = .ok next ∧ Sound next ∧ next.map.size = limited.map.size ∧
        next.nMaxSize = limited.nMaxSize := by
  have size := insert_size v absent
  rw [insert_absent v absent, LimitedMap.insertNew]
  rw [if_pos ⟨by omega, by omega⟩]
  cases listed : limited.rmap with
  | nil => exact Or.inl rfl
  | cons first rest =>
    have indexed := sound.indexed
    have ordered := sound.ordered
    rw [listed] at indexed ordered
    obtain ⟨found, indexed⟩ := indexed_head indexed
    have apart : k ≠ first.2 := by
      rintro rfl
      rw [found] at absent
      cases absent
    have still : (limited.map.erase first.2).find? k = none := by
      rw [OrderedMap.find?_erase_other _ apart]
      exact absent
    have swapped := @erase_insert _ _ _ _ limited.map _ v _ apart
    have fewer := OrderedMap.size_erase found
    have count : ((limited.map.insert k v).erase first.2).size = limited.map.size := by
      rw [swapped, insert_size v still, fewer]
    refine Or.inr ⟨_, rfl, ⟨?_, rmapInsert_ordered (List.pairwise_cons.mp ordered).2, ?_⟩,
      count, rfl⟩
    · dsimp only
      rw [swapped]
      exact indexed_insert indexed v still
    · intro _
      dsimp only
      omega

end Calls

theorem step_ok {call : Call K V} (ran : run limited call = .ok next) :
    step call limited = some (next, call, limited) := by
  unfold step
  rw [ran]
  rfl

theorem step_inv {call : Call K V} {output : Call K V × LimitedMap K V}
    (taken : step call limited = some (next, output)) :
    run limited call = .ok next ∧ output = (call, limited) := by
  unfold step at taken
  cases ran : run limited call with
  | error fault =>
    rw [ran] at taken
    cases taken
  | ok result =>
    rw [ran] at taken
    cases taken
    exact ⟨rfl, rfl⟩

theorem step_exact (call : Call K V) (limited : LimitedMap K V) (sound : Sound limited) :
    (∃ next output, step call limited = some (next, output) ∧ Sound next ∧ Drops next output) ↔
      Roomy call limited := by
  cases call with
  | erase k =>
    obtain ⟨next, ran, kept⟩ := erase_kept sound k
    exact iff_of_true ⟨next, _, step_ok ran, kept, trivial⟩ trivial
  | update k v =>
    obtain ⟨next, ran, kept⟩ := update_kept sound k v
    exact iff_of_true ⟨next, _, step_ok ran, kept, trivial⟩ trivial
  | maxSize s =>
    obtain ⟨next, ran, kept⟩ := maxSize_kept sound s
    exact iff_of_true ⟨next, _, step_ok ran, kept, trivial⟩ trivial
  | insert k v =>
    constructor
    · rintro ⟨next, output, taken, kept, drops⟩ absent limit
      obtain ⟨ran, rfl⟩ := step_inv taken
      have bound := sound.within limit
      by_contra tight
      rcases Nat.eq_or_lt_of_le bound with full | short
      · cases ran.symm.trans (insert_full v absent full)
        have grown : (added limited k v).map.size = limited.map.size + 1 := insert_size v absent
        have within := kept.within limit
        dsimp only [added] at within grown
        omega
      · have shortBy : limited.map.size + 1 = limited.nMaxSize := by omega
        have entries := drops absent
        rw [if_neg (fun both => by omega)] at entries
        have grown : next.map.size = limited.map.size + 1 := entries.length_eq
        rcases insert_short sound v absent shortBy with failed | ⟨other, ran', -, same, -⟩
        · cases ran.symm.trans failed
        · cases ran.symm.trans ran'
          omega
    · intro roomy
      cases found : limited.map.find? k with
      | some value =>
        refine ⟨limited, _, step_ok (insert_standing v found), sound, ?_⟩
        intro absent
        rw [found] at absent
        cases absent
      | none =>
        obtain ⟨ran, kept⟩ := insert_roomy sound v found (roomy found)
        refine ⟨_, _, step_ok ran, kept, fun _ => ?_⟩
        rw [if_neg (fun both => by have := roomy found both.1; omega)]
        exact insert_perm v found

omit [DecidableEq K] in
theorem init_sound (nMaxSizeIn : Nat) : Sound (LimitedMap.init nMaxSizeIn : LimitedMap K V) where
  indexed := List.Perm.refl _
  ordered := List.Pairwise.nil
  within _ := Nat.zero_le _

end Invariant

section Insertions
variable {N : Nat}

def insertAll : LimitedMap K V → List (K × V) → Except Fault (LimitedMap K V)
  | limited, [] => .ok limited
  | limited, x :: rest =>
    match limited.insert x.1 x.2 with
    | .ok next => insertAll next rest
    | .error fault => .error fault

/-- The entries of a map without a limit: the first value inserted of every key. -/
def inserted (map : OrderedMap K V) : List (K × V) → OrderedMap K V
  | [] => map
  | x :: rest => inserted (map.insert x.1 x.2) rest

/-- So many of the entries as fit, and none of those left out is higher. -/
structure Highest (N : Nat) (every kept : List (K × V)) : Prop where
  among : kept.Subperm every
  count : kept.length = min N every.length
  highest : ∀ entry ∈ every, entry ∉ kept → ∀ other ∈ kept, entry.2 ≤ other.2

omit [DecidableEq K] [LinearOrder V] in
theorem insert_size_le (map : OrderedMap K V) (x : K × V) :
    map.size ≤ (map.insert x.1 x.2).size := by
  cases found : map.find? x.1 with
  | none =>
    rw [insert_size x.2 found]
    omega
  | some value => rw [OrderedMap.insert_standing x.2 found]

omit [DecidableEq K] [LinearOrder V] in
theorem inserted_size_le (map : OrderedMap K V) (xs : List (K × V)) :
    map.size ≤ (inserted map xs).size := by
  induction xs generalizing map with
  | nil => exact le_refl _
  | cons x rest ih => exact (insert_size_le map x).trans (ih _)

omit [DecidableEq K] in
theorem insertAll_below {limited : LimitedMap K V} (sound : Sound limited)
    (limit : limited.nMaxSize = N) (xs : List (K × V))
    (below : (inserted limited.map xs).size < N) :
    ∃ final, insertAll limited xs = .ok final ∧ final.map = inserted limited.map xs := by
  induction xs generalizing limited with
  | nil => exact ⟨limited, rfl, rfl⟩
  | cons x rest ih =>
    unfold insertAll
    cases found : limited.map.find? x.1 with
    | some value =>
      rw [insert_standing x.2 found]
      unfold inserted at below ⊢
      rw [OrderedMap.insert_standing x.2 found] at below ⊢
      exact ih sound limit below
    | none =>
      have grown := insert_size x.2 found
      have later := inserted_size_le (limited.map.insert x.1 x.2) rest
      unfold inserted at below
      obtain ⟨ran, kept⟩ := insert_roomy sound x.2 found (by omega)
      rw [ran]
      exact ih kept limit below

theorem insertAll_short {limited final : LimitedMap K V} (sound : Sound limited)
    (limit : limited.nMaxSize = N) (short : limited.map.size < N) {xs : List (K × V)}
    (ran : insertAll limited xs = .ok final) : final.map.size < N := by
  induction xs generalizing limited with
  | nil =>
    cases ran
    exact short
  | cons x rest ih =>
    unfold insertAll at ran
    cases found : limited.map.find? x.1 with
    | some value =>
      rw [insert_standing x.2 found] at ran
      exact ih sound limit short ran
    | none =>
      rcases Nat.eq_or_lt_of_le (Nat.succ_le_of_lt short) with last | room
      · rcases insert_short sound x.2 found (last.trans limit.symm) with
          failed | ⟨next, passed, kept, same, still⟩
        · rw [failed] at ran
          cases ran
        · rw [passed] at ran
          exact ih kept (still.trans limit) (by omega) ran
      · have grown := insert_size x.2 found
        obtain ⟨passed, kept⟩ := insert_roomy sound x.2 found (by omega)
        rw [passed] at ran
        exact ih kept limit (by dsimp only [added]; omega) ran

theorem insertions_highest_iff (one : 1 ≤ N) (xs : List (K × V)) :
    (∃ final, insertAll (LimitedMap.init N) xs = .ok final ∧
      Highest N (inserted ∅ xs).entries final.map.entries) ↔ (inserted ∅ xs).size < N := by
  constructor
  · rintro ⟨final, ran, highest⟩
    have short : final.map.size < N := insertAll_short (init_sound N) rfl one ran
    have count : final.map.size = min N (inserted ∅ xs).size := highest.count
    omega
  · intro below
    obtain ⟨final, ran, same⟩ := insertAll_below (init_sound N) rfl xs below
    refine ⟨final, ran, ?_⟩
    rw [same]
    constructor
    · exact List.Subperm.refl _
    · exact (min_eq_right below.le).symm
    · exact fun entry among left => absurd among left

end Insertions

/-- The map and its index agree, no call fails, the limit is kept and an insertion drops a
    lowest entry of a full map only: in exactly the runs in which a new key comes only where
    the map stays below its limit. After insertions alone, the map holds as many of the
    highest entries as fit if and only if there were fewer keys than fit. -/
theorem limit_kept_iff (N : Nat) (one : 1 ≤ N) :
    (∀ calls : List (Call K V),
      KeptAll step Sound Drops calls (LimitedMap.init N) ↔
        MeetsAll step Roomy calls (LimitedMap.init N)) ∧
    ∀ xs : List (K × V),
      (∃ final, insertAll (LimitedMap.init N) xs = .ok final ∧
        Highest N (inserted ∅ xs).entries final.map.entries) ↔ (inserted ∅ xs).size < N :=
  ⟨fun calls => keptAll_iff step_exact (init_sound N) calls,
    fun xs => insertions_highest_iff one xs⟩

def twoKeys : List (Uint256 × Int) := [(1, 5), (2, 6)]

theorem three_hold_two : ∃ final, insertAll (LimitedMap.init 3) twoKeys = .ok final ∧
    Highest 3 (inserted ∅ twoKeys).entries final.map.entries :=
  ((limit_kept_iff 3 (by decide)).2 twoKeys).mpr (by decide +kernel)

theorem second_drops_first : ¬∀ (N : Nat) (calls : List (Call Uint256 Int)), 1 ≤ N →
    KeptAll step Sound Drops calls (LimitedMap.init N) := by
  intro kept
  have met := (keptAll_iff step_exact (init_sound 2) [.insert 1 5, .insert 2 6]).mp
    (kept 2 [.insert (1 : Uint256) (5 : Int), .insert 2 6] (by decide))
  have second := (met.2 ⟨OrderedMap.set ∅ 1 5, [(5, 1)], 2⟩ _ (by rfl)).1
  exact absurd (second (by decide) (by decide)) (by decide)

end OxidLimitedMap
