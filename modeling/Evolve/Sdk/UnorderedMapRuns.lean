import Mathlib
import Evolve.Sdk.UnorderedMap

/-! Runs of an iterable map against the finite map that it stands for. -/

namespace Evolve

open Machine Effects Refinement

namespace UnorderedMap

variable {K V : Type} [Encodable K] [Encodable V]

variable {map : UnorderedMap K V} {owner : AccountId} {m : K → Option V} {keys : List K} {key : K}
  {value : V} {w : World}

/-! ### Against finite maps -/

/-- What the queries show of a finite map: its values, how many there are, and every pair exactly
once. -/
structure ReadsAs (map : UnorderedMap K V) (host : Host) (owner : AccountId) (w : World)
    (m : K → Option V) : Prop where
  mayGet : ∀ {k}, Storable k → Answers host owner (fun env => map.mayGet env k) (m k) w
  pairs : ∃ pairs : List (K × V), (pairs.map Prod.fst).Nodup ∧
    (∀ k v, (k, v) ∈ pairs ↔ m k = some v) ∧ pairs.length < 2 ^ 64 ∧
    Answers host owner map.len (UInt64.ofNat pairs.length) w ∧
    ∀ n, Answers host owner (map.firstItems n) ((pairs.take n).map .ok) w

theorem Represents.readsAs {host : Host} (h : map.Represents owner m keys w) :
    map.ReadsAs host owner w m where
  mayGet {k} hk := by
    rintro fuel frame w' rfl hsame
    exact (Map.delivers_mayGet hk ((h.of_sameStore hsame).values k hk)).mono fun _ _ h => h.1
  pairs := by
    have hfst := h.map_fst_pairsOf
    have hlength : (pairsOf m keys).length = keys.length := by
      rw [← List.length_map Prod.fst, hfst]
    obtain ⟨stale, hvector⟩ := h.vector
    refine ⟨pairsOf m keys, ?_, fun k v => ?_, ?_, ?_, ?_⟩
    · rw [hfst]
      exact h.nodup
    · rw [mem_pairsOf]
      refine and_iff_right_of_imp fun hv => (h.mem k).mpr ?_
      rw [hv]
      rfl
    · rw [hlength]
      exact hvector.small
    · rintro fuel frame w' rfl hsame
      rw [hlength]
      exact (Vector.delivers_len (hvector.of_sameStore hsame)).mono fun _ _ h => h.1
    · rintro n fuel frame w' rfl hsame
      exact delivers_firstItems n (h.of_sameStore hsame)

inductive Op (K V : Type) where
  | insert (key : K) (value : V)
  | remove (key : K)
  | update (key : K) (updateFn : Option V → SdkResult V)

namespace Op

def program (map : UnorderedMap K V) (op : Op K V) (env : Env) : Program (Option V) :=
  match op with
  | .insert key value => map.insert env key value
  | .remove key => map.remove env key
  | .update key updateFn => do
    let newValue ← map.update env key updateFn
    pure (some newValue)

/-- The key and everything that the operation may write can be stored. -/
def Storable : Op K V → Prop
  | .insert key value => Evolve.Storable key ∧ Evolve.Storable value
  | .remove key => Evolve.Storable key
  | .update key updateFn =>
    Evolve.Storable key ∧ ∀ old v, updateFn old = .ok v → Evolve.Storable v

end Op

abbrev MapStep (K V : Type) := Step World (Op K V) (SdkResult (Option V))

def Performs (map : UnorderedMap K V) (host : Host) (owner : AccountId) (step : MapStep K V) :
    Prop :=
  step.op.Storable ∧
    Performed host owner (step.op.program map) step.before step.result step.after

structure Empty (map : UnorderedMap K V) (owner : AccountId) (w : World) : Prop where
  vector : map.keysVec.Empty owner w
  index : ∀ k, Storable k → map.indexMap.read w.storage owner k = .ok none
  values : ∀ k, Storable k → map.valuesMap.read w.storage owner k = .ok none

theorem Empty.represents (h : map.Empty owner w) :
    map.Represents owner (fun _ => none) [] w where
  vector := ⟨_, h.vector.represents⟩
  nodup := List.nodup_nil
  mem k := by simp
  storable k hk := (List.not_mem_nil hk).elim
  index i k hk := by cases hk
  absent k hk _ := h.index k hk
  values := h.values

section Runs

variable [DecidableEq K] {host : Host}

def finiteMapType (K V : Type) [DecidableEq K] :
    DataType (Op K V) (SdkResult (Option V)) (K → Option V) where
  answer op m :=
    match op with
    | .insert key _ => .ok (m key)
    | .remove key => .ok (m key)
    | .update key updateFn => (updateFn (m key)).map some
  next op m :=
    match op with
    | .insert key value => Function.update m key (some value)
    | .remove key => Function.update m key none
    | .update key updateFn =>
      match updateFn (m key) with
      | .ok v => Function.update m key (some v)
      | .error _ => m

/-- Fewer than `n` keys are present. -/
def Fewer (n : Nat) (m : K → Option V) : Prop :=
  ∃ keys : List K, keys.Nodup ∧ (∀ k, k ∈ keys ↔ (m k).isSome) ∧ keys.length < n

/-- Nothing of the index table is in the committed store, and the overlay is within its limit, as in
every block that the map was empty before. -/
structure InBlock (map : UnorderedMap K V) (owner : AccountId) (w : World) : Prop where
  base : ∀ k bytes, map.indexMap.makeKey k = .ok bytes →
    w.storage.baseStorage (Invoker.accountStorageKey owner bytes) = .ok none
  size : w.storage.overlay.size ≤ maxOverlayEntries

omit [DecidableEq K] [Encodable V] in
theorem mem_overlay {index : UInt64} (hblock : map.InBlock owner w)
    (hread : map.indexMap.read w.storage owner key = .ok (some index)) :
    ∃ bytes, map.indexMap.makeKey key = .ok bytes ∧
      Invoker.accountStorageKey owner bytes ∈ w.storage.overlay := by
  obtain ⟨bytes, hbytes, hrest⟩ := bind_eq_ok hread
  obtain ⟨stored, hstored, hdecode⟩ := bind_eq_ok hrest
  refine ⟨bytes, hbytes, Std.ExtTreeMap.mem_iff_isSome_getElem?.mpr ?_⟩
  unfold ExecutionState.lookup at hstored
  split at hstored
  · rename_i hoverlay
    rw [hoverlay]
    rfl
  · rw [hblock.base key bytes hbytes] at hstored
    cases hstored
    cases hdecode

omit [DecidableEq K] in
theorem Represents.length_le (h : map.Represents owner m keys w) (hblock : map.InBlock owner w) :
    keys.length ≤ maxOverlayEntries := by
  let entry (k : K) : Bytes :=
    Invoker.accountStorageKey owner ((map.indexMap.makeKey k).toOption.getD [])
  have hentry : ∀ k ∈ keys, ∃ bytes, map.indexMap.makeKey k = .ok bytes ∧
      entry k = Invoker.accountStorageKey owner bytes ∧ entry k ∈ w.storage.overlay := by
    intro k hk
    obtain ⟨i, -, hread⟩ := h.read_index hk
    obtain ⟨bytes, hbytes, hmem⟩ := mem_overlay hblock hread
    have heq : entry k = Invoker.accountStorageKey owner bytes := by
      show Invoker.accountStorageKey owner ((map.indexMap.makeKey k).toOption.getD []) = _
      rw [hbytes]
      rfl
    exact ⟨bytes, hbytes, heq, heq ▸ hmem⟩
  have hnodup : (keys.map entry).Nodup := by
    refine h.nodup.map_on fun k hk k' hk' heq => ?_
    obtain ⟨bytes, hbytes, hk, -⟩ := hentry k hk
    obtain ⟨bytes', hbytes', hk', -⟩ := hentry k' hk'
    rw [hk, hk', Map.accountStorageKey_inj] at heq
    subst heq
    exact Map.makeKey_inj hbytes hbytes'
  have hsubset : keys.map entry ⊆ w.storage.overlay.keys := by
    intro bytes hbytes
    obtain ⟨k, hk, rfl⟩ := List.mem_map.mp hbytes
    obtain ⟨_, -, -, hmem⟩ := hentry k hk
    exact Std.ExtTreeMap.mem_keys.mpr hmem
  calc keys.length = (keys.map entry).length := (List.length_map entry).symm
    _ ≤ w.storage.overlay.keys.length := (List.subperm_of_subset hnodup hsubset).length_le
    _ = w.storage.overlay.size := Std.ExtTreeMap.length_keys
    _ ≤ maxOverlayEntries := hblock.size

/-- Fewer than 2^64 keys after the step, or all of them in one block. -/
def Bounded (map : UnorderedMap K V) (owner : AccountId) (step : MapStep K V) (m : K → Option V) :
    Prop :=
  Fewer (2 ^ 64) ((finiteMapType K V).next step.op m) ∨ map.InBlock owner step.before

theorem Represents.length_lt (h : map.Represents owner m keys w)
    (hbound : Fewer (2 ^ 64) (Function.update m key (some value)) ∨ map.InBlock owner w)
    (hnew : key ∉ keys) : keys.length + 1 < 2 ^ 64 := by
  rcases hbound with ⟨keys', hnodup, hmem, hlt⟩ | hblock
  · have hperm : (key :: keys).Perm keys' := by
      have hnodup' : (key :: keys).Nodup := List.nodup_cons.mpr ⟨hnew, h.nodup⟩
      refine (List.perm_ext_iff_of_nodup hnodup' hnodup).mpr fun k => ?_
      rw [List.mem_cons, hmem]
      by_cases heq : k = key
      · simp [heq]
      · rw [Function.update_of_ne heq, ← h.mem, or_iff_right heq]
    have hlength := hperm.length_eq
    rw [List.length_cons] at hlength
    omega
  · have hle := h.length_le hblock
    unfold maxOverlayEntries at hle
    omega

theorem follows {step : MapStep K V} (hsep : map.Separate)
    (hperforms : map.Performs host owner step) (hbound : map.Bounded owner step m)
    (h : ∃ keys, map.Represents owner m keys step.before) :
    (finiteMapType K V).Follows (fun w m => ∃ keys, map.Represents owner m keys w) step m := by
  obtain ⟨before, op, result, after⟩ := step
  obtain ⟨hstorable, hperformed⟩ := hperforms
  obtain ⟨keys, h⟩ := h
  cases op with
  | insert key value =>
    obtain ⟨_, rfl, rfl, hafter⟩ := hperformed.delivers
      (P := fun r w' => r = m key ∧
        ∃ keys', map.Represents owner (Function.update m key (some value)) keys' w') <| by
        rintro fuel frame rfl
        exact delivers_insert hsep h hstorable.1 hstorable.2 (h.length_lt hbound)
    exact ⟨rfl, hafter⟩
  | remove key =>
    obtain ⟨_, rfl, rfl, hafter⟩ := hperformed.delivers
      (P := fun r w' => r = m key ∧
        ∃ keys', map.Represents owner (Function.update m key none) keys' w') <| by
        rintro fuel frame rfl
        exact delivers_remove hsep h hstorable
    exact ⟨rfl, hafter⟩
  | update key updateFn =>
    cases hnew : updateFn (m key) with
    | ok value =>
      have hnext : (finiteMapType K V).next (.update key updateFn) m =
          Function.update m key (some value) := by
        simp only [finiteMapType, hnew]
      have hanswer : (finiteMapType K V).answer (.update key updateFn) m = .ok (some value) := by
        simp only [finiteMapType, hnew]
        rfl
      have hbound' : Fewer (2 ^ 64) (Function.update m key (some value)) ∨
          map.InBlock owner before := hnext ▸ hbound
      obtain ⟨_, rfl, rfl, hafter⟩ := hperformed.delivers
        (P := fun r w' => r = some value ∧
          ∃ keys', map.Represents owner (Function.update m key (some value)) keys' w') <| by
          rintro fuel frame rfl
          refine .bind ((delivers_update hsep h hstorable.1 hnew (hstorable.2 _ _ hnew)
            (h.length_lt hbound')).mono ?_)
          rintro _ w' ⟨rfl, hafter⟩
          exact .pure ⟨rfl, hafter⟩
      exact ⟨hanswer.symm, hnext.symm ▸ hafter⟩
    | error e =>
      have hnext : (finiteMapType K V).next (.update key updateFn) m = m := by
        simp only [finiteMapType, hnew]
      have hanswer : (finiteMapType K V).answer (.update key updateFn) m = .error e := by
        simp only [finiteMapType, hnew]
        rfl
      obtain ⟨rfl, hafter⟩ := hperformed.concludes
        (Q := fun r w' => r = .error e ∧ map.Represents owner m keys w') <| by
          rintro fuel frame rfl
          exact .bind_error ((concludes_update_error h hstorable.1 hnew).mono fun _ _ hafter =>
            ⟨e, hafter.1, rfl, hafter.2⟩)
      exact ⟨hanswer.symm, keys, hnext.symm ▸ hafter⟩

/-- In every run with distinct prefixes, with anything in between that leaves the entries alone, the
map is a finite map. -/
theorem refines_finiteMap {steps : List (MapStep K V)} (hprefixes : map.DistinctPrefixes)
    (hrun : Runs (map.Performs host owner) (map.SameEntries owner) w steps)
    (hempty : map.Empty owner w)
    (hbound : (finiteMapType K V).EveryStep (map.Bounded owner) (fun _ => none) steps) :
    (finiteMapType K V).EveryStep ((finiteMapType K V).Follows (map.ReadsAs host owner))
      (fun _ => none) steps := by
  have hfollows := hrun.everyStep (R := fun w m => ∃ keys, map.Represents owner m keys w)
    ⟨[], hempty.represents⟩ hbound (fun hgap ⟨keys, h⟩ => ⟨keys, h.of_sameEntries hgap⟩)
    (fun hperforms hbound h => follows hprefixes.separate hperforms hbound h)
  exact hfollows.mono fun step m h => h.mono fun _ _ ⟨_, h⟩ => h.readsAs

omit [Encodable K] [Encodable V] in
theorem Fewer.update {n : Nat} (h : Fewer n m) (key : K) (value : Option V) :
    Fewer (n + 1) (Function.update m key value) := by
  obtain ⟨keys, hnodup, hmem, hlt⟩ := h
  have hlength := List.length_filter_le (fun k => decide (k ≠ key)) keys
  have hfilter := hnodup.filter fun k => decide (k ≠ key)
  cases value with
  | none =>
    refine ⟨keys.filter (· ≠ key), hfilter, fun k => ?_, by omega⟩
    by_cases heq : k = key
    · simp [heq]
    · simp [heq, hmem]
  | some v =>
    refine ⟨key :: keys.filter (· ≠ key), List.nodup_cons.mpr ⟨by simp, hfilter⟩, fun k => ?_, ?_⟩
    · by_cases heq : k = key
      · simp [heq]
      · simp [heq, hmem]
    · rw [List.length_cons]
      omega

omit [Encodable K] [Encodable V] in
theorem fewer_next {n : Nat} (h : Fewer n m) (op : Op K V) :
    Fewer (n + 1) ((finiteMapType K V).next op m) := by
  cases op with
  | insert key value => exact h.update key (some value)
  | remove key => exact h.update key none
  | update key updateFn =>
    unfold finiteMapType
    dsimp only
    split
    · exact h.update key _
    · obtain ⟨keys, hnodup, hmem, hlt⟩ := h
      exact ⟨keys, hnodup, hmem, by omega⟩

omit [Encodable V] in
theorem everyStep_bounded {steps : List (MapStep K V)} {n : Nat} (h : Fewer n m)
    (hlength : n + steps.length ≤ 2 ^ 64) :
    (finiteMapType K V).EveryStep (map.Bounded owner) m steps := by
  induction steps generalizing n m with
  | nil => trivial
  | cons step steps ih =>
    rw [List.length_cons] at hlength
    have hnext := fewer_next h step.op
    refine ⟨.inl ?_, ih hnext (by omega)⟩
    obtain ⟨keys, hnodup, hmem, hlt⟩ := hnext
    exact ⟨keys, hnodup, hmem, by omega⟩

end Runs

/-! ### A run of a map of numbers -/

def numbers : UnorderedMap UInt64 UInt64 := .new 1 2 3 4

def playNumbers : List (Op UInt64 UInt64) → Option (List (MapStep UInt64 UInt64)) :=
  play (fun w op => tryPerform sampleHost 2 Vector.numbersFrame (op.program numbers) w)
    Vector.newWorld

theorem runs_of_playNumbers {ops : List (Op UInt64 UInt64)} {steps : List (MapStep UInt64 UInt64)}
    (h : playNumbers ops = some steps) :
    Runs (numbers.Performs sampleHost (.fromU64 10)) (numbers.SameEntries (.fromU64 10))
      Vector.newWorld steps := by
  refine runs_of_play (fun w => .of_sameStore (.refl w)) (fun {w op result after} hperform => ?_) h
  refine ⟨?_, performed_of_tryPerform hperform⟩
  cases op with
  | insert key value => exact ⟨storable_u64 key, storable_u64 value⟩
  | remove key => exact storable_u64 key
  | update key updateFn => exact ⟨storable_u64 key, fun _ v _ => storable_u64 v⟩

theorem empty_numbers : numbers.Empty (.fromU64 10) Vector.newWorld where
  vector := ⟨Map.read_new _ _ (storable_unit ()), fun i => Map.read_new _ _ (storable_u64 i)⟩
  index _ hk := Map.read_new _ _ hk
  values _ hk := Map.read_new _ _ hk

/-- The first of three keys is removed, and the last one takes its place. -/
theorem refines_finiteMap_numbers :
    ∃ steps, steps.map Step.result =
        [.ok none, .ok none, .ok none, .ok (some 50), .ok (some 61), .ok (some 70)] ∧
      Runs (numbers.Performs sampleHost (.fromU64 10)) (numbers.SameEntries (.fromU64 10))
        Vector.newWorld steps ∧
      (finiteMapType UInt64 UInt64).EveryStep ((finiteMapType UInt64 UInt64).Follows
        (numbers.ReadsAs sampleHost (.fromU64 10))) (fun _ => none) steps := by
  have hplayed : ∃ steps ∈ playNumbers
        [.insert 5 50, .insert 6 60, .insert 7 70, .remove 5,
          .update 6 fun old => .ok (old.getD 0 + 1), .remove 7],
      steps.map Step.result =
        [.ok none, .ok none, .ok none, .ok (some 50), .ok (some 61), .ok (some 70)] ∧
      steps.length < 2 ^ 64 := by
    decide +kernel
  obtain ⟨steps, hplay, hresults, hlength⟩ := hplayed
  have hrun := runs_of_playNumbers hplay
  have hnone : Fewer 1 (fun _ : UInt64 => (none : Option UInt64)) :=
    ⟨[], List.nodup_nil, by simp, by decide⟩
  have hprefixes : numbers.DistinctPrefixes := by
    unfold DistinctPrefixes
    decide
  exact ⟨steps, hresults, hrun, refines_finiteMap hprefixes hrun empty_numbers
    (everyStep_bounded hnone (by omega))⟩

end UnorderedMap

end Evolve
