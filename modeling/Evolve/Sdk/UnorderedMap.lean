import Mathlib
import Evolve.Sdk.Vector

/-! A map in account storage that can be iterated, against the finite map that it stands for.  The
keys are in a vector, and removing one of them moves the last one into its place, so three tables
have to agree: from keys to indices, from indices to keys, and from keys to values. -/

namespace Evolve

open Machine Effects Refinement

def errValueMissing : ErrorCode := defineError 0x04
def errKeyMissing : ErrorCode := defineError 0x05

structure UnorderedMap (K V : Type) where
  indexMap : Map K UInt64
  keysVec : Vector K
  valuesMap : Map K V

structure UnorderedMapIter (K V : Type) where
  map : UnorderedMap K V
  index : UInt64
  length : UInt64

section Programs

variable {K V : Type} [Encodable K] [Encodable V]

variable (map : UnorderedMap K V) (env : Env)

namespace UnorderedMap

def new (indexMapPrefix keysVecIndexPrefix keysVecElemsPrefix valuesMapPrefix : UInt8) :
    UnorderedMap K V :=
  ⟨⟨indexMapPrefix⟩, .new keysVecIndexPrefix keysVecElemsPrefix, ⟨valuesMapPrefix⟩⟩

def len : QueryProgram UInt64 := map.keysVec.len env

def mayGet (key : K) : QueryProgram (Option V) :=
  map.valuesMap.mayGet env key

def insert (key : K) (value : V) : Program (Option V) := do
  let index ← (map.indexMap.mayGet env key).lift
  if index.isSome then do
    let oldValue ← (map.valuesMap.get env key).lift
    map.valuesMap.set key value
    pure (some oldValue)
  else do
    let newIndex ← (map.keysVec.len env).lift
    map.keysVec.push env key
    map.indexMap.set key newIndex
    map.valuesMap.set key value
    pure none

/-- The last key takes the place of the one that is removed. -/
def fillHole (removedIndex lastIndex : UInt64) : Program Unit :=
  if removedIndex < lastIndex then do
    let lastKey ← (map.keysVec.get env lastIndex).lift
    map.keysVec.elems.set removedIndex lastKey
    map.indexMap.set lastKey removedIndex
  else pure ()

def remove (key : K) : Program (Option V) := do
  match ← (map.indexMap.mayGet env key).lift with
  | none => pure none
  | some removedIndex => do
    map.indexMap.remove key
    let oldValue ← (map.valuesMap.get env key).lift
    map.valuesMap.remove key
    let length ← (map.keysVec.len env).lift
    map.fillHole env removedIndex (length - 1)
    let _ ← map.keysVec.pop env
    pure (some oldValue)

def update (key : K) (updateFn : Option V → SdkResult V) : Program V := do
  let oldValue ← (map.mayGet env key).lift
  let newValue ← Prog.ofExcept (updateFn oldValue)
  let _ ← map.insert env key newValue
  pure newValue

def iter : QueryProgram (UnorderedMapIter K V) := do
  let length ← map.len env
  pure ⟨map, 0, length⟩

end UnorderedMap

/-- The item for what was found of a key. -/
def UnorderedMapIter.item (map : UnorderedMap K V) :
    SdkResult (Option K) → QueryProgram (SdkResult (K × V))
  | .ok (some k) => do
    match ← (map.valuesMap.mayGet env k).attempt with
    | .ok (some v) => pure (.ok (k, v))
    | .ok none => pure (.error errValueMissing)
    | .error e => pure (.error e)
  | .ok none => pure (.error errKeyMissing)
  | .error e => pure (.error e)

def UnorderedMapIter.next (iter : UnorderedMapIter K V) :
    QueryProgram (Option (SdkResult (K × V)) × UnorderedMapIter K V) :=
  if iter.index ≥ iter.length then pure (none, iter)
  else do
    let maybeKey ← (iter.map.keysVec.mayGet env iter.index).attempt
    let item ← UnorderedMapIter.item env iter.map maybeKey
    pure (some item, { iter with index := iter.index + 1 })

/-- The first `n` items of `iter`. -/
def UnorderedMap.firstItems (n : Nat) (env : Env) : QueryProgram (List (SdkResult (K × V))) := do
  let iter ← map.iter env
  takeItems (UnorderedMapIter.next env) n iter

end Programs

/-! ### Lists of keys -/

section Keys

variable {K : Type} {init : List K} {last key : K} {r : Nat}

/-- Where the keys come from once the last one has taken the place of the one at `r`. -/
theorem getElem?_set_last {i : Nat} {k : K}
    (hk : (init.set r last)[i]? = some k) :
    ∃ j, j ≠ r ∧ (init ++ [last])[j]? = some k ∧
      ((i = r ∧ j = init.length) ∨ (j = i ∧ j < init.length)) := by
  rw [List.getElem?_set] at hk
  split at hk
  · rename_i hi
    split at hk
    · rename_i hlt
      cases hk
      exact ⟨init.length, by omega, List.getElem?_concat_length, .inl ⟨hi.symm, rfl⟩⟩
    · cases hk
  · rename_i hi
    have hlt := (List.getElem?_eq_some_iff.mp hk).1
    refine ⟨i, fun h => hi h.symm, ?_, .inr ⟨rfl, hlt⟩⟩
    rw [List.getElem?_append_left hlt, hk]

theorem mem_set_last (hnodup : (init ++ [last]).Nodup) (hr : (init ++ [last])[r]? = some key)
    {k : K} : k ∈ init.set r last ↔ k ∈ init ++ [last] ∧ k ≠ key := by
  have hlt := (List.getElem?_eq_some_iff.mp hr).1
  constructor
  · intro hk
    obtain ⟨i, hi⟩ := List.mem_iff_getElem?.mp hk
    obtain ⟨j, hj, hk, -⟩ := getElem?_set_last hi
    refine ⟨List.mem_iff_getElem?.mpr ⟨j, hk⟩, ?_⟩
    rintro rfl
    exact hj ((List.getElem?_inj hlt hnodup).mp (hr.trans hk.symm)).symm
  · rintro ⟨hk, hne⟩
    obtain ⟨j, hj⟩ := List.mem_iff_getElem?.mp hk
    have hjr : r ≠ j := by
      rintro rfl
      exact hne (Option.some.inj (hj.symm.trans hr))
    by_cases hlast : j < init.length
    · rw [List.getElem?_append_left hlast] at hj
      exact List.mem_iff_getElem?.mpr ⟨j, by rw [List.getElem?_set_ne hjr, hj]⟩
    · have hjlt := (List.getElem?_eq_some_iff.mp hj).1
      rw [List.length_append, List.length_singleton] at hlt hjlt
      obtain rfl : j = init.length := by omega
      cases List.getElem?_concat_length.symm.trans hj
      exact List.mem_iff_getElem?.mpr ⟨r, List.getElem?_set_self (by omega)⟩

theorem nodup_set_last (hnodup : (init ++ [last]).Nodup) : (init.set r last).Nodup := by
  obtain ⟨hinit, -, hlast⟩ := List.nodup_append.mp hnodup
  exact hinit.set fun h => hlast last h last (List.mem_singleton_self last) rfl

end Keys

namespace UnorderedMap

variable {K V : Type} [Encodable K] [Encodable V]

/-! ### What is stored -/

/-- The four prefixes are distinct. -/
def DistinctPrefixes (map : UnorderedMap K V) : Prop :=
  [map.indexMap.keyPrefix, map.keysVec.index.keyPrefix, map.keysVec.elems.keyPrefix,
    map.valuesMap.keyPrefix].Nodup

/-- The tables have no entries in common. -/
structure Separate (map : UnorderedMap K V) : Prop where
  indexValues : map.indexMap.Apart map.valuesMap
  indexLength : map.indexMap.Apart map.keysVec.index
  indexElems : map.indexMap.Apart map.keysVec.elems
  valuesLength : map.valuesMap.Apart map.keysVec.index
  valuesElems : map.valuesMap.Apart map.keysVec.elems

omit [Encodable V] in
theorem DistinctPrefixes.separate {map : UnorderedMap K V} (h : map.DistinctPrefixes) :
    map.Separate := by
  simp only [DistinctPrefixes, List.nodup_cons, List.mem_cons, not_or, List.not_mem_nil,
    not_false_eq_true, and_true] at h
  obtain ⟨⟨hil, hie, hiv⟩, ⟨-, hlv⟩, hev, -⟩ := h
  exact ⟨Map.apart_of_ne (Ne.symm hiv), Map.apart_of_ne (Ne.symm hil),
    Map.apart_of_ne (Ne.symm hie), Map.apart_of_ne hlv, Map.apart_of_ne hev⟩

/-- The map stands for `m`, with its keys in the order of `keys`. -/
structure Represents (map : UnorderedMap K V) (owner : AccountId) (m : K → Option V)
    (keys : List K) (w : World) : Prop where
  vector : ∃ stale, map.keysVec.Represents owner keys stale w
  nodup : keys.Nodup
  mem : ∀ k, k ∈ keys ↔ (m k).isSome
  storable : ∀ k ∈ keys, Storable k
  index : ∀ i k, keys[i]? = some k →
    map.indexMap.read w.storage owner k = .ok (some (UInt64.ofNat i))
  absent : ∀ k, Storable k → k ∉ keys → map.indexMap.read w.storage owner k = .ok none
  values : ∀ k, Storable k → map.valuesMap.read w.storage owner k = .ok (m k)

variable {map : UnorderedMap K V} {owner : AccountId} {m : K → Option V} {keys init : List K}
  {key last : K} {value : V} {r : Nat} {w w' w₁ w₂ : World}

/-- The tables are as they were. -/
structure SameEntries (map : UnorderedMap K V) (owner : AccountId) (w w' : World) : Prop where
  vector : map.keysVec.SameEntries owner w w'
  index : ∀ k, map.indexMap.read w'.storage owner k = map.indexMap.read w.storage owner k
  values : ∀ k, map.valuesMap.read w'.storage owner k = map.valuesMap.read w.storage owner k

theorem SameEntries.of_sameStore (hsame : w.SameStore w') : map.SameEntries owner w w' where
  vector := ⟨Map.read_congr _ hsame .., fun _ => Map.read_congr _ hsame ..⟩
  index _ := Map.read_congr _ hsame ..
  values _ := Map.read_congr _ hsame ..

theorem Represents.of_sameEntries (h : map.Represents owner m keys w)
    (hsame : map.SameEntries owner w w') : map.Represents owner m keys w' where
  vector := h.vector.imp fun _ h => h.of_sameEntries hsame.vector
  nodup := h.nodup
  mem := h.mem
  storable := h.storable
  index i k hk := by rw [hsame.index, h.index i k hk]
  absent k hk hnot := by rw [hsame.index, h.absent k hk hnot]
  values k hk := by rw [hsame.values, h.values k hk]

theorem Represents.of_sameStore (h : map.Represents owner m keys w) (hsame : w.SameStore w') :
    map.Represents owner m keys w' := h.of_sameEntries (.of_sameStore hsame)

theorem Represents.read_index (h : map.Represents owner m keys w) (hkey : key ∈ keys) :
    ∃ i, keys[i]? = some key ∧
      map.indexMap.read w.storage owner key = .ok (some (UInt64.ofNat i)) := by
  obtain ⟨i, hi⟩ := List.mem_iff_getElem?.mp hkey
  exact ⟨i, hi, h.index i key hi⟩

theorem Represents.eq_some (h : map.Represents owner m keys w) (hkey : key ∈ keys) :
    ∃ v, m key = some v := Option.isSome_iff_exists.mp ((h.mem key).mp hkey)

theorem Represents.eq_none (h : map.Represents owner m keys w) (hkey : key ∉ keys) :
    m key = none := Option.not_isSome_iff_eq_none.mp (mt (h.mem key).mpr hkey)

section Changes

variable [DecidableEq K]

theorem read_values_update {value : Option V}
    (hvalues : ∀ k, Storable k → map.valuesMap.read w.storage owner k = .ok (m k))
    (hput : map.valuesMap.Puts owner key value w w') (k : K) (hk : Storable k) :
    map.valuesMap.read w'.storage owner k = .ok (Function.update m key value k) := by
  by_cases heq : k = key
  · subst heq
    rw [hput.read, Function.update_self]
  · rw [hput.read_other heq, hvalues k hk, Function.update_of_ne heq]

theorem Represents.replace (hsep : map.Separate) (h : map.Represents owner m keys w)
    (hkey : key ∈ keys) (hput : map.valuesMap.Puts owner key (some value) w w') :
    map.Represents owner (Function.update m key (some value)) keys w' := by
  have hindex := fun k => hput.read_apart hsep.indexValues.symm k
  have hvector : map.keysVec.SameEntries owner w w' :=
    ⟨hput.read_apart hsep.valuesLength (), hput.read_apart hsep.valuesElems⟩
  refine ⟨h.vector.imp fun _ h => h.of_sameEntries hvector, h.nodup, fun k => ?_, h.storable,
    fun i k hk => by rw [hindex, h.index i k hk],
    fun k hk hnot => by rw [hindex, h.absent k hk hnot], read_values_update h.values hput⟩
  by_cases heq : k = key
  · subst heq
    simpa using hkey
  · rw [Function.update_of_ne heq, h.mem]

theorem Represents.add (hsep : map.Separate) (h : map.Represents owner m keys w)
    (hkey : Storable key) (hnew : key ∉ keys)
    (hvector : ∃ stale, map.keysVec.Represents owner (keys ++ [key]) stale w₁)
    (hothers : map.keysVec.LeavesOthers owner w w₁)
    (hindex : map.indexMap.Puts owner key (some (UInt64.ofNat keys.length)) w₁ w₂)
    (hvalue : map.valuesMap.Puts owner key (some value) w₂ w') :
    map.Represents owner (Function.update m key (some value)) (keys ++ [key]) w' := by
  have hindexRead : ∀ k, k ≠ key →
      map.indexMap.read w'.storage owner k = map.indexMap.read w.storage owner k := fun k hne => by
    rw [hvalue.read_apart hsep.indexValues.symm, hindex.read_other hne,
      hothers hsep.indexLength.symm hsep.indexElems.symm]
  have hentries : map.keysVec.SameEntries owner w₁ w' := by
    constructor
    · rw [hvalue.read_apart hsep.valuesLength, hindex.read_apart hsep.indexLength]
    · intro i
      rw [hvalue.read_apart hsep.valuesElems, hindex.read_apart hsep.indexElems]
  refine ⟨hvector.imp fun _ h => h.of_sameEntries hentries, ?_, fun k => ?_, fun k hk => ?_,
    fun i k hk => ?_, fun k hk hnot => ?_, read_values_update (fun k hk => ?_) hvalue⟩
  · rw [← List.concat_eq_append, List.nodup_concat]
    exact ⟨hnew, h.nodup⟩
  · rw [List.mem_append, List.mem_singleton]
    by_cases heq : k = key
    · simp [heq]
    · rw [Function.update_of_ne heq, h.mem, or_iff_left heq]
  · rcases List.mem_append.mp hk with hk | hk
    · exact h.storable k hk
    · rwa [List.mem_singleton.mp hk]
  · by_cases hi : i = keys.length
    · subst hi
      cases List.getElem?_concat_length.symm.trans hk
      rw [hvalue.read_apart hsep.indexValues.symm, hindex.read]
    · rw [Vector.getElem?_concat_of_ne hi] at hk
      have hne : k ≠ key := fun heq => hnew (heq ▸ List.mem_of_getElem? hk)
      rw [hindexRead k hne, h.index i k hk]
  · rw [List.mem_append, List.mem_singleton, not_or] at hnot
    rw [hindexRead k hnot.2, h.absent k hk hnot.1]
  · rw [hindex.read_apart hsep.indexValues, hothers hsep.valuesLength.symm hsep.valuesElems.symm,
      h.values k hk]

/-- The last key takes the place of one that is removed. -/
theorem Represents.swapRemove (h : map.Represents owner m (init ++ [last]) w)
    (hr : (init ++ [last])[r]? = some key)
    (hvector : ∃ stale, map.keysVec.Represents owner (init.set r last) stale w')
    (hkey : map.indexMap.read w'.storage owner key = .ok none)
    (hlast : r < init.length →
      map.indexMap.read w'.storage owner last = .ok (some (UInt64.ofNat r)))
    (hindex : ∀ k, k ≠ key → k ≠ last →
      map.indexMap.read w'.storage owner k = map.indexMap.read w.storage owner k)
    (hvalues : ∀ k, Storable k →
      map.valuesMap.read w'.storage owner k = .ok (Function.update m key none k)) :
    map.Represents owner (Function.update m key none) (init.set r last) w' := by
  have hlt := (List.getElem?_eq_some_iff.mp hr).1
  refine ⟨hvector, nodup_set_last h.nodup, fun k => ?_, fun k hk => ?_, fun i k hk => ?_,
    fun k hk hnot => ?_, hvalues⟩
  · rw [mem_set_last h.nodup hr, h.mem]
    by_cases heq : k = key
    · simp [heq]
    · rw [Function.update_of_ne heq, and_iff_left heq]
  · exact h.storable k ((mem_set_last h.nodup hr).mp hk).1
  · obtain ⟨j, hjr, hj, ⟨rfl, rfl⟩ | ⟨rfl, hjlt⟩⟩ := getElem?_set_last hk
    · cases List.getElem?_concat_length.symm.trans hj
      rw [List.length_append, List.length_singleton] at hlt
      exact hlast (by omega)
    · have hjlt' := (List.getElem?_eq_some_iff.mp hj).1
      have hkey : k ≠ key := by
        rintro rfl
        exact hjr ((List.getElem?_inj hjlt' h.nodup).mp (hj.trans hr.symm))
      have hne : k ≠ last := by
        rintro rfl
        have heq := (List.getElem?_inj hjlt' h.nodup).mp
          (hj.trans List.getElem?_concat_length.symm)
        omega
      rw [hindex k hkey hne, h.index j k hj]
  · by_cases heq : k = key
    · rw [heq, hkey]
    · have hmem : k ∉ init ++ [last] := fun hmem =>
        hnot ((mem_set_last h.nodup hr).mpr ⟨hmem, heq⟩)
      have hne : k ≠ last := by
        rintro rfl
        exact hmem (List.mem_append_right _ (List.mem_singleton_self k))
      rw [hindex k heq hne, h.absent k hk hmem]

end Changes

/-! ### Operations -/

section Operations

variable [DecidableEq K] {host : Host} {fuel : Nat} {frame : Invoker}

theorem delivers_insert (hsep : map.Separate) (h : map.Represents frame.whoami m keys w)
    (hkey : Storable key) (hvalue : Storable value)
    (hsmall : key ∉ keys → keys.length + 1 < 2 ^ 64) :
    Prog.Delivers (environment host fuel frame) (map.insert frame.env key value)
      (fun found w' => found = m key ∧
        ∃ keys', map.Represents frame.whoami (Function.update m key (some value)) keys' w') w := by
  by_cases hmem : key ∈ keys
  · obtain ⟨i, -, hindex⟩ := h.read_index hmem
    obtain ⟨old, hold⟩ := h.eq_some hmem
    refine .bind ((Map.delivers_mayGet hkey hindex).mono ?_)
    rintro _ w₁ ⟨rfl, hsame⟩
    replace h := h.of_sameStore hsame
    rw [if_pos Option.isSome_some]
    have hread := h.values key hkey
    rw [hold] at hread
    refine .bind ((Map.delivers_get hkey hread).mono ?_)
    rintro _ w₂ ⟨rfl, hsame'⟩
    refine .bind ((Map.delivers_set hkey hvalue).mono fun _ w₃ hput => .pure ⟨hold.symm, keys, ?_⟩)
    exact (h.of_sameStore hsame').replace hsep hmem hput
  · refine .bind ((Map.delivers_mayGet hkey (h.absent key hkey hmem)).mono ?_)
    rintro _ w₁ ⟨rfl, hsame⟩
    replace h := h.of_sameStore hsame
    rw [if_neg (by decide)]
    obtain ⟨stale, hvector⟩ := h.vector
    refine .bind ((Vector.delivers_len hvector).mono ?_)
    rintro _ w₂ ⟨rfl, hsame'⟩
    replace h := h.of_sameStore hsame'
    have hlength : (keys ++ [key]).length < 2 ^ 64 := by
      rw [List.length_append, List.length_singleton]
      exact hsmall hmem
    refine .bind ((Vector.delivers_push (hvector.of_sameStore hsame') hkey hlength).mono ?_)
    rintro _ w₃ ⟨hpushed, hothers⟩
    refine .bind ((Map.delivers_set hkey (storable_u64 _)).mono fun _ w₄ hindex => ?_)
    refine .bind ((Map.delivers_set hkey hvalue).mono fun _ w₅ hput => .pure ?_)
    exact ⟨(h.eq_none hmem).symm, _, h.add hsep hkey hmem ⟨_, hpushed⟩ hothers hindex hput⟩

omit [DecidableEq K] in
theorem delivers_fillHole {stale : UInt64 → SdkResult (Option K)} (hsep : map.Separate)
    (hvector : map.keysVec.Represents frame.whoami (init ++ [last]) stale w)
    (hlast : Storable last) (hr : r ≤ init.length) :
    Prog.Delivers (environment host fuel frame)
      (map.fillHole frame.env (UInt64.ofNat r) (UInt64.ofNat init.length))
      (fun _ w' =>
        (∃ stale, map.keysVec.Represents frame.whoami (init.set r last ++ [last]) stale w') ∧
        (r < init.length →
          map.indexMap.read w'.storage frame.whoami last = .ok (some (UInt64.ofNat r))) ∧
        (∀ k, k ≠ last ∨ r = init.length → map.indexMap.read w'.storage frame.whoami k =
          map.indexMap.read w.storage frame.whoami k) ∧
        ∀ k, map.valuesMap.read w'.storage frame.whoami k =
          map.valuesMap.read w.storage frame.whoami k) w := by
  have hsmall := hvector.small
  rw [List.length_append, List.length_singleton] at hsmall
  unfold fillHole
  by_cases hlt : r < init.length
  · have hbefore : UInt64.ofNat r < UInt64.ofNat init.length := by
      rw [UInt64.lt_iff_toNat_lt, toNat_ofNat (by omega), toNat_ofNat (by omega)]
      exact hlt
    have hread : map.keysVec.elems.read w.storage frame.whoami (UInt64.ofNat init.length) =
        .ok (some last) := by
      rw [hvector.holds, toNat_ofNat (by omega), List.getElem?_concat_length]
      rfl
    rw [if_pos hbefore]
    refine .bind ((Map.delivers_get (storable_u64 _) hread).mono ?_)
    rintro _ w₁ ⟨rfl, hsame⟩
    refine .bind ((Map.delivers_set (storable_u64 _) hlast).mono fun _ w₂ hput => ?_)
    refine (Map.delivers_set hlast (storable_u64 _)).mono fun _ w₃ hindex => ?_
    have hset := (hvector.of_sameStore hsame).set
      (by rw [List.length_append]; omega) hput
    rw [List.set_append_left _ _ hlt] at hset
    have hentries : map.keysVec.SameEntries frame.whoami w₂ w₃ :=
      ⟨hindex.read_apart hsep.indexLength (), hindex.read_apart hsep.indexElems⟩
    refine ⟨⟨_, hset.of_sameEntries hentries⟩, fun _ => hindex.read, fun k hk => ?_, fun k => ?_⟩
    · rw [hindex.read_other (hk.resolve_right hlt.ne), hput.read_apart hsep.indexElems.symm,
        map.indexMap.read_congr hsame]
    · rw [hindex.read_apart hsep.indexValues, hput.read_apart hsep.valuesElems.symm,
        map.valuesMap.read_congr hsame]
  · obtain rfl : r = init.length := by omega
    rw [if_neg (UInt64.lt_irrefl _)]
    refine .pure ⟨⟨stale, ?_⟩, fun h => absurd h hlt, fun _ _ => rfl, fun _ => rfl⟩
    rwa [List.set_eq_of_length_le le_rfl]

/-- The vector of keys loses the key at `r`, and the index of the key that fills the hole is
set. -/
theorem delivers_shrink {stale : UInt64 → SdkResult (Option K)} {old : V} (hsep : map.Separate)
    (h : map.Represents frame.whoami m (init ++ [last]) w)
    (hr : (init ++ [last])[r]? = some key)
    (hvector : map.keysVec.Represents frame.whoami (init ++ [last]) stale w₁)
    (hindex : map.indexMap.Puts frame.whoami key none w w₂)
    (hindex' : ∀ k, map.indexMap.read w₁.storage frame.whoami k =
      map.indexMap.read w₂.storage frame.whoami k)
    (hvalues : ∀ k, Storable k →
      map.valuesMap.read w₁.storage frame.whoami k = .ok (Function.update m key none k)) :
    Prog.Delivers (environment host fuel frame)
      (do
        let length ← (map.keysVec.len frame.env).lift
        map.fillHole frame.env (UInt64.ofNat r) (length - 1)
        let _ ← map.keysVec.pop frame.env
        pure (some old))
      (fun found w' => found = some old ∧
        map.Represents frame.whoami (Function.update m key none) (init.set r last) w') w₁ := by
  have hlt := (List.getElem?_eq_some_iff.mp hr).1
  rw [List.length_append, List.length_singleton] at hlt
  have hpred : UInt64.ofNat (init ++ [last]).length - 1 = UInt64.ofNat init.length := by
    rw [List.length_append]
    exact (UInt64.ofNat_sub (Nat.le_add_left 1 init.length)).symm
  have hlast : Storable last :=
    h.storable last (List.mem_append_right _ (List.mem_singleton_self last))
  refine .bind ((Vector.delivers_len hvector).mono ?_)
  rintro _ w₃ ⟨rfl, hsame⟩
  rw [hpred]
  refine .bind ((delivers_fillHole hsep (hvector.of_sameStore hsame) hlast (by omega)).mono ?_)
  rintro _ w₄ ⟨⟨stale', hfilled⟩, hmoved, hstays, hvaluesStay⟩
  refine .bind ((Vector.delivers_pop hfilled).mono ?_)
  rintro _ w₅ ⟨-, hpopped, hothers⟩
  have hindexRead : ∀ k, k ≠ last ∨ r = init.length →
      map.indexMap.read w₅.storage frame.whoami k =
        map.indexMap.read w₂.storage frame.whoami k := fun k hk => by
    rw [hothers hsep.indexLength.symm hsep.indexElems.symm, hstays k hk,
      map.indexMap.read_congr hsame, hindex']
  refine .pure ⟨rfl, h.swapRemove hr ⟨_, hpopped⟩ ?_ (fun hr => ?_) (fun k hk hne => ?_)
    fun k hk => ?_⟩
  · have hcase : key ≠ last ∨ r = init.length := by
      refine or_iff_not_imp_right.mpr fun hne heq => hne ?_
      subst heq
      exact (List.getElem?_inj (by rwa [List.length_append, List.length_singleton]) h.nodup).mp
        (hr.trans List.getElem?_concat_length.symm)
    rw [hindexRead key hcase, hindex.read]
  · rw [hothers hsep.indexLength.symm hsep.indexElems.symm, hmoved hr]
  · rw [hindexRead k (.inl hne), hindex.read_other hk]
  · rw [hothers hsep.valuesLength.symm hsep.valuesElems.symm, hvaluesStay,
      map.valuesMap.read_congr hsame, hvalues k hk]

theorem delivers_remove (hsep : map.Separate) (h : map.Represents frame.whoami m keys w)
    (hkey : Storable key) :
    Prog.Delivers (environment host fuel frame) (map.remove frame.env key)
      (fun found w' => found = m key ∧
        ∃ keys', map.Represents frame.whoami (Function.update m key none) keys' w') w := by
  by_cases hmem : key ∈ keys
  · obtain ⟨r, hr, hindex⟩ := h.read_index hmem
    obtain ⟨old, hold⟩ := h.eq_some hmem
    refine .bind ((Map.delivers_mayGet hkey hindex).mono ?_)
    rintro _ w₁ ⟨rfl, hsame⟩
    replace h := h.of_sameStore hsame
    refine .bind ((Map.delivers_remove hkey).mono fun _ w₂ hindexPut => ?_)
    have hvalues₂ : ∀ k, Storable k →
        map.valuesMap.read w₂.storage frame.whoami k = .ok (m k) := fun k hk => by
      rw [hindexPut.read_apart hsep.indexValues, h.values k hk]
    have hread := hvalues₂ key hkey
    rw [hold] at hread
    refine .bind ((Map.delivers_get hkey hread).mono ?_)
    rintro _ w₃ ⟨rfl, hsame'⟩
    refine .bind ((Map.delivers_remove hkey).mono fun _ w₄ hvaluePut => ?_)
    have hvalues₄ := read_values_update (fun k hk => by
      rw [map.valuesMap.read_congr hsame', hvalues₂ k hk]) hvaluePut
    have hindex₄ : ∀ k, map.indexMap.read w₄.storage frame.whoami k =
        map.indexMap.read w₂.storage frame.whoami k := fun k => by
      rw [hvaluePut.read_apart hsep.indexValues.symm, map.indexMap.read_congr hsame']
    have hentries : map.keysVec.SameEntries frame.whoami w₁ w₄ := by
      constructor
      · rw [hvaluePut.read_apart hsep.valuesLength, map.keysVec.index.read_congr hsame',
          hindexPut.read_apart hsep.indexLength]
      · intro i
        rw [hvaluePut.read_apart hsep.valuesElems, map.keysVec.elems.read_congr hsame',
          hindexPut.read_apart hsep.indexElems]
    obtain ⟨stale, hvector⟩ := h.vector
    rcases List.eq_nil_or_concat keys with rfl | ⟨init, last, rfl⟩
    · cases hmem
    rw [List.concat_eq_append] at h hr hvector
    refine (delivers_shrink hsep h hr (hvector.of_sameEntries hentries) hindexPut hindex₄
      hvalues₄).mono ?_
    rintro _ w₅ ⟨rfl, hafter⟩
    exact ⟨hold.symm, _, hafter⟩
  · refine .bind ((Map.delivers_mayGet hkey (h.absent key hkey hmem)).mono ?_)
    rintro _ w₁ ⟨rfl, hsame⟩
    have hnone := h.eq_none hmem
    refine .pure ⟨hnone.symm, keys, ?_⟩
    rw [Function.update_eq_self_iff.mpr hnone.symm]
    exact h.of_sameStore hsame

theorem delivers_update {updateFn : Option V → SdkResult V} (hsep : map.Separate)
    (h : map.Represents frame.whoami m keys w) (hkey : Storable key)
    (hnew : updateFn (m key) = .ok value) (hvalue : Storable value)
    (hsmall : key ∉ keys → keys.length + 1 < 2 ^ 64) :
    Prog.Delivers (environment host fuel frame) (map.update frame.env key updateFn)
      (fun found w' => found = value ∧
        ∃ keys', map.Represents frame.whoami (Function.update m key (some value)) keys' w') w := by
  refine .bind ((Map.delivers_mayGet hkey (h.values key hkey)).mono ?_)
  rintro _ w₁ ⟨rfl, hsame⟩
  refine .bind (.ofExcept hnew (.bind ?_))
  refine (delivers_insert hsep (h.of_sameStore hsame) hkey hvalue hsmall).mono ?_
  rintro _ w₂ ⟨-, hafter⟩
  exact .pure ⟨rfl, hafter⟩

omit [DecidableEq K] in
theorem concludes_update_error {updateFn : Option V → SdkResult V} {e : ErrorCode}
    (h : map.Represents frame.whoami m keys w) (hkey : Storable key)
    (hnew : updateFn (m key) = .error e) :
    Prog.Concludes (environment host fuel frame) (map.update frame.env key updateFn)
      (fun r w' => r = .error e ∧ map.Represents frame.whoami m keys w') w := by
  refine .bind ((Map.delivers_mayGet hkey (h.values key hkey)).mono ?_)
  rintro _ w₁ ⟨rfl, hsame⟩
  rw [hnew]
  exact .bind_error (.ofExcept ⟨e, rfl, rfl, h.of_sameStore hsame⟩)

end Operations

/-! ### Queries -/

section Queries

variable {host : Host} {fuel : Nat} {frame : Invoker}

/-- The present keys with their values. -/
def pairsOf (m : K → Option V) (keys : List K) : List (K × V) :=
  keys.filterMap fun k => (m k).map fun v => (k, v)

omit [Encodable K] [Encodable V] in
theorem mem_pairsOf {k : K} {v : V} : (k, v) ∈ pairsOf m keys ↔ k ∈ keys ∧ m k = some v := by
  simp only [pairsOf, List.mem_filterMap, Option.map_eq_some_iff, Prod.mk.injEq]
  constructor
  · rintro ⟨k, hk, v, hv, rfl, rfl⟩
    exact ⟨hk, hv⟩
  · rintro ⟨hk, hv⟩
    exact ⟨k, hk, v, hv, rfl, rfl⟩

theorem Represents.map_fst_pairsOf (h : map.Represents owner m keys w) :
    (pairsOf m keys).map Prod.fst = keys := by
  have hsome : ∀ k ∈ keys, (m k).isSome := fun k => (h.mem k).mp
  clear h
  induction keys with
  | nil => rfl
  | cons k keys ih =>
    obtain ⟨hk, hkeys⟩ := List.forall_mem_cons.mp hsome
    obtain ⟨v, hv⟩ := Option.isSome_iff_exists.mp hk
    have hcons : pairsOf m (k :: keys) = (k, v) :: pairsOf m keys := by
      simp [pairsOf, hv]
    rw [hcons, List.map_cons, ih hkeys]

theorem delivers_item {k : K} {v : V} (h : map.Represents frame.whoami m keys w)
    (hk : k ∈ keys) (hv : m k = some v) :
    Prog.Delivers (environment host fuel frame)
      (UnorderedMapIter.item frame.env map (.ok (some k))).lift
      (fun item w' => item = .ok (k, v) ∧ w.SameStore w') w := by
  have hread := h.values k (h.storable k hk)
  rw [hv] at hread
  unfold UnorderedMapIter.item
  rw [QueryProgram.lift_bind, QueryProgram.lift_attempt]
  refine .bind ((Map.delivers_mayGet (h.storable k hk) hread).attempt.mono ?_)
  rintro _ w' ⟨_, rfl, rfl, hsame⟩
  exact .pure ⟨rfl, hsame⟩

theorem delivers_next {i : Nat} {k : K} {v : V} (h : map.Represents frame.whoami m keys w)
    (hk : keys[i]? = some k) (hv : m k = some v) :
    Prog.Delivers (environment host fuel frame)
      (UnorderedMapIter.next frame.env ⟨map, UInt64.ofNat i, UInt64.ofNat keys.length⟩).lift
      (fun r w' => r = (some (.ok (k, v)), ⟨map, UInt64.ofNat (i + 1), UInt64.ofNat keys.length⟩) ∧
        w.SameStore w') w := by
  obtain ⟨stale, hvector⟩ := h.vector
  have hsmall := hvector.small
  obtain ⟨hi, -⟩ := List.getElem?_eq_some_iff.mp hk
  have hnot : ¬ UInt64.ofNat i ≥ UInt64.ofNat keys.length := by
    rw [ge_iff_le, UInt64.le_iff_toNat_le, toNat_ofNat hsmall, toNat_ofNat (by omega)]
    omega
  have hread : map.keysVec.elems.read w.storage frame.whoami (UInt64.ofNat i) = .ok (some k) := by
    rw [hvector.holds, toNat_ofNat (by omega), hk]
    rfl
  unfold UnorderedMapIter.next
  rw [if_neg hnot, QueryProgram.lift_bind, QueryProgram.lift_attempt]
  refine .bind ((Map.delivers_mayGet (storable_u64 _) hread).attempt.mono ?_)
  rintro _ w₁ ⟨_, rfl, rfl, hsame⟩
  rw [QueryProgram.lift_bind]
  refine .bind ((delivers_item (h.of_sameStore hsame) (List.mem_of_getElem? hk) hv).mono ?_)
  rintro _ w₂ ⟨rfl, hsame'⟩
  refine .pure ⟨?_, hsame.trans hsame'⟩
  rw [UInt64.ofNat_add]
  rfl

theorem delivers_firstItems (n : Nat) (h : map.Represents frame.whoami m keys w) :
    Prog.Delivers (environment host fuel frame) (map.firstItems n frame.env).lift
      (fun items _ => items = ((pairsOf m keys).take n).map .ok) w := by
  have hfst := h.map_fst_pairsOf
  have hlength : (pairsOf m keys).length = keys.length := by
    rw [← List.length_map Prod.fst, hfst]
  obtain ⟨stale, hvector⟩ := h.vector
  unfold firstItems iter
  rw [QueryProgram.lift_bind, QueryProgram.lift_bind]
  refine .bind (.bind ((Vector.delivers_len hvector).mono ?_))
  rintro _ w₁ ⟨rfl, hsame⟩
  let iterAt (i : Nat) : UnorderedMapIter K V := ⟨map, UInt64.ofNat i, UInt64.ofNat keys.length⟩
  refine .pure (delivers_takeItems (pairsOf m keys) iterAt (fun w' _ => ?_) ?_ n (Nat.zero_le _)
    hsame)
  · unfold UnorderedMapIter.next
    rw [hlength, if_pos (UInt64.le_refl _)]
    exact .pure rfl
  · rintro i ⟨k, v⟩ w' hsame hpair
    have hk : keys[i]? = some k := by
      rw [← hfst, List.getElem?_map, hpair]
      rfl
    have hv := (mem_pairsOf.mp (List.mem_of_getElem? hpair)).2
    exact delivers_next (h.of_sameStore hsame) hk hv

end Queries

end UnorderedMap

end Evolve
