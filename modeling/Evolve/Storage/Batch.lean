import Mathlib
import Evolve.Stf.Block

/-! Batches of the storage layer.  The changes of a block are accepted as a batch exactly if they
are few and short enough; their keys always are. -/

namespace Evolve

open Machine Borsh Effects Std

namespace Storage

def errKeyTooLarge : ErrorCode := defineError 0x5
def errBatchTooLarge : ErrorCode := defineError 0x7

def keyLengthPrefixSize : Nat := 2
def storageKeySize : Nat := 256
def maxKeySize : Nat := maxStorageKeySize
def maxBatchSize : Nat := 10000
def maxValueSize : Nat := 4092

abbrev StorageKey := FixedBytes storageKeySize

inductive Operation where
  | set (key : Bytes) (value : Bytes)
  | remove (key : Bytes)

inductive StorageError where
  | key (code : ErrorCode)
  | valueTooLarge (size max : Nat)
deriving DecidableEq

/-- The key in an envelope of fixed size: its length, the key and zeros. -/
def createStorageKey (key : Bytes) : Except StorageError StorageKey :=
  if h : key.length > maxKeySize then .error (.key errKeyTooLarge)
  else .ok ⟨leBytes keyLengthPrefixSize key.length ++ key ++
      List.replicate (storageKeySize - keyLengthPrefixSize - key.length) 0, by
    simp only [maxKeySize, maxStorageKeySize] at h
    simp only [List.length_append, length_leBytes, List.length_replicate, keyLengthPrefixSize,
      storageKeySize]
    omega⟩

structure PreparedBatch where
  updates : List (StorageKey × Option Bytes)
  keysToInvalidate : List Bytes
  opsCount : Nat
  sets : Nat
  deletes : Nat

def PreparedBatch.add (batch : PreparedBatch) : Operation → Except StorageError PreparedBatch
  | .set key value =>
    if value.length > maxValueSize then .error (.valueTooLarge value.length maxValueSize)
    else do
      let storageKey ← createStorageKey key
      pure { batch with
        updates := batch.updates ++ [(storageKey, some value)]
        keysToInvalidate := batch.keysToInvalidate ++ [key]
        sets := batch.sets + 1 }
  | .remove key => do
    let storageKey ← createStorageKey key
    pure { batch with
      updates := batch.updates ++ [(storageKey, none)]
      keysToInvalidate := batch.keysToInvalidate ++ [key]
      deletes := batch.deletes + 1 }

def prepareBatch (operations : List Operation) : Except StorageError PreparedBatch :=
  if operations.length > maxBatchSize then .error (.key errBatchTooLarge)
  else operations.foldlM PreparedBatch.add ⟨[], [], operations.length, 0, 0⟩

def stateChangesToOperations (changes : List CoreStateChange) : List Operation :=
  changes.map fun
    | .set key value => .set key value
    | .remove key => .remove key

/-! ### What a batch holds -/

def Operation.key : Operation → Bytes
  | .set key _ => key
  | .remove key => key

/-- What is stored under the key after the operation. -/
def Operation.value : Operation → Option Bytes
  | .set _ value => some value
  | .remove _ => none

theorem PreparedBatch.add_ok {batch batch' : PreparedBatch} {op : Operation}
    (h : batch.add op = .ok batch') :
    ∃ storageKey, createStorageKey op.key = .ok storageKey ∧
      batch'.updates = batch.updates ++ [(storageKey, op.value)] ∧
      batch'.keysToInvalidate = batch.keysToInvalidate ++ [op.key] := by
  cases op with
  | set key value =>
    unfold PreparedBatch.add at h
    dsimp only at h
    split at h
    · cases h
    · cases hkey : createStorageKey key with
      | error e => rw [hkey] at h; cases h
      | ok storageKey =>
        rw [hkey] at h
        cases h
        exact ⟨storageKey, hkey, rfl, rfl⟩
  | remove key =>
    unfold PreparedBatch.add at h
    dsimp only at h
    cases hkey : createStorageKey key with
    | error e => rw [hkey] at h; cases h
    | ok storageKey =>
      rw [hkey] at h
      cases h
      exact ⟨storageKey, hkey, rfl, rfl⟩

/-- What holds of the empty batch and is kept by each operation that is accepted holds of every
batch. -/
theorem prepareBatch_induction {P : List Operation → PreparedBatch → Prop}
    (start : ∀ count, P [] ⟨[], [], count, 0, 0⟩)
    (add : ∀ operations op batch batch', P operations batch → batch.add op = .ok batch' →
      P (operations ++ [op]) batch')
    {operations : List Operation} {batch : PreparedBatch}
    (h : prepareBatch operations = .ok batch) : P operations batch := by
  have hfold : ∀ (rest done : List Operation) (sofar : PreparedBatch), P done sofar →
      rest.foldlM PreparedBatch.add sofar = .ok batch → P (done ++ rest) batch := by
    intro rest
    induction rest with
    | nil =>
      intro done sofar hsofar hok
      cases hok
      rwa [List.append_nil]
    | cons op rest ih =>
      intro done sofar hsofar hok
      rw [List.foldlM_cons] at hok
      cases hadd : sofar.add op with
      | error e => rw [hadd] at hok; cases hok
      | ok next =>
        rw [hadd] at hok
        rw [← List.singleton_append, ← List.append_assoc]
        exact ih _ next (add _ op _ _ hsofar hadd) hok
  unfold prepareBatch at h
  split at h
  · cases h
  · exact hfold operations [] _ (start _) h

/-! ### What a batch accepts -/

def Operation.Fits : Operation → Prop
  | .set key value => key.length ≤ maxKeySize ∧ value.length ≤ maxValueSize
  | .remove key => key.length ≤ maxKeySize

theorem createStorageKey_ok_iff {key : Bytes} :
    (∃ storageKey, createStorageKey key = .ok storageKey) ↔ key.length ≤ maxKeySize := by
  unfold createStorageKey
  split
  · rename_i h
    refine iff_of_false ?_ (by omega)
    rintro ⟨_, ⟨⟩⟩
  · rename_i h
    exact iff_of_true ⟨_, rfl⟩ (by omega)

theorem PreparedBatch.add_ok_iff (batch : PreparedBatch) (op : Operation) :
    (∃ batch', batch.add op = .ok batch') ↔ op.Fits := by
  cases op with
  | set key value =>
    simp only [PreparedBatch.add, Operation.Fits]
    split
    · rename_i hvalue
      refine iff_of_false ?_ (by omega)
      rintro ⟨_, ⟨⟩⟩
    · rename_i hvalue
      rw [← createStorageKey_ok_iff]
      cases hkey : createStorageKey key with
      | error e => simp [bind, Except.bind]
      | ok storageKey => simpa [bind, Except.bind, pure, Except.pure] using hvalue
  | remove key =>
    simp only [PreparedBatch.add, Operation.Fits]
    rw [← createStorageKey_ok_iff]
    cases hkey : createStorageKey key with
    | error e => simp [bind, Except.bind]
    | ok storageKey => simp [bind, Except.bind, pure, Except.pure]

theorem foldlM_add_ok_iff (operations : List Operation) (batch : PreparedBatch) :
    (∃ batch', operations.foldlM PreparedBatch.add batch = .ok batch') ↔
      ∀ op ∈ operations, op.Fits := by
  induction operations generalizing batch with
  | nil => simp [pure, Except.pure]
  | cons op operations ih =>
    rw [List.foldlM_cons, List.forall_mem_cons, ← batch.add_ok_iff op]
    cases hadd : batch.add op with
    | error e => simp [bind, Except.bind]
    | ok batch' => simpa [bind, Except.bind] using ih batch'

theorem prepareBatch_ok_iff (operations : List Operation) :
    (∃ batch, prepareBatch operations = .ok batch) ↔
      operations.length ≤ maxBatchSize ∧ ∀ op ∈ operations, op.Fits := by
  unfold prepareBatch
  split
  · rename_i hlength
    refine iff_of_false ?_ (by omega)
    rintro ⟨_, ⟨⟩⟩
  · rename_i hlength
    rw [foldlM_add_ok_iff]
    exact (and_iff_right (by omega)).symm

def entryOperation (entry : Bytes × Option Message) : Operation :=
  match entry with
  | (key, some value) => .set key value
  | (key, none) => .remove key

theorem mem_operations_iff (s : ExecutionState) (op : Operation) :
    op ∈ stateChangesToOperations s.intoChanges ↔
      ∃ key entry, s.overlay[key]? = some entry ∧ entryOperation (key, entry) = op := by
  simp only [stateChangesToOperations, ExecutionState.intoChanges, List.mem_map, List.mem_mergeSort]
  constructor
  · rintro ⟨_, ⟨⟨key, entry⟩, hmem, rfl⟩, rfl⟩
    refine ⟨key, entry, ExtTreeMap.mem_toList_iff_getElem?_eq_some.mp hmem, ?_⟩
    cases entry <;> rfl
  · rintro ⟨key, entry, hentry, rfl⟩
    refine ⟨_, ⟨(key, entry), ExtTreeMap.mem_toList_iff_getElem?_eq_some.mpr hentry, rfl⟩, ?_⟩
    cases entry <;> rfl

theorem length_operations (s : ExecutionState) :
    (stateChangesToOperations s.intoChanges).length = s.overlay.size := by
  simp [stateChangesToOperations, ExecutionState.intoChanges]

end Storage

/-! ### Blocks -/

/-- No key of the overlay is longer than the limit. -/
def ExecutionState.KeysFit (s : ExecutionState) : Prop :=
  ∀ (key : Bytes) (entry : Option Message),
    s.overlay[key]? = some entry → key.length ≤ maxKeySize

theorem ExecutionState.KeysFit.write {s s' : ExecutionState} {key : Bytes} {entry : Option Message}
    {change : Bytes → Bool → Option (Option Message) → StateChange}
    (h : s.write key entry change = .ok s') (hkey : key.length ≤ maxKeySize) (hfit : s.KeysFit) :
    s'.KeysFit := by
  intro k e he
  rw [(write_ok h).1, record, ExtTreeMap.getElem?_insert] at he
  split at he
  · rename_i hk
    rwa [← LawfulEqCmp.eq_of_compare hk]
  · exact hfit k e he

theorem keysFit_stepRule : StepRule fun w w' => w.storage.KeysFit → w'.storage.KeysFit where
  refl _ := id
  trans _ _ _ h₁ h₂ h := h₂ (h₁ h)
  storage w s hstep hfit := by
    cases hstep with
    | metrics _ => exact hfit
    | nextUniqueObjectId => exact hfit
    | @emitEvent event s' h =>
      unfold ExecutionState.emitEvent at h
      split at h
      · cases h
      · cases h
        exact hfit
    | set h =>
      obtain ⟨hkey, -, hwrite⟩ := ExecutionState.set_ok h
      exact hfit.write hwrite hkey
    | remove h =>
      obtain ⟨hkey, hwrite⟩ := ExecutionState.remove_ok h
      exact hfit.write hwrite hkey
  charge _ _ _ := id
  note _ _ := id
  rollback _ _ _ _ h := h

namespace Storage

/-- For every base store and every block whose execution finishes, the changes of the block are
accepted as a batch if and only if there are at most 10,000 of them and every value set is at most
4092 bytes long. -/
theorem applyBlock_batch_accepted_iff {Tx Block : Type} [Transaction Tx] [BlockTrait Block Tx]
    {host : Host} {fuel : Nat} {stf : Stf Tx Block} {block : Block} {base : ReadonlyKV}
    {gasCounter : GasCounter} {history : List AccountOp} {w' : World}
    {r : SdkResult (BlockResult × List Tx)}
    (hrun : stf.applyBlock host fuel block ⟨.new base, gasCounter, history⟩ = .done (r, w')) :
    (∃ batch, prepareBatch (stateChangesToOperations w'.storage.intoChanges) = .ok batch) ↔
      w'.storage.overlay.size ≤ maxBatchSize ∧
        ∀ (key : Bytes) (value : Message), w'.storage.overlay[key]? = some (some value) →
          value.length ≤ maxValueSize := by
  have hkeeps : Exec.Keeps (fun w w' => w.storage.KeysFit → w'.storage.KeysFit)
      (Stf.applyBlock host fuel stf block) :=
    Stf.keeps_applyBlock fuel (keysFit_stepRule.callRule host) (fun _ => id) (fun _ _ => id) block
  have hfit : w'.storage.KeysFit := by
    refine Exec.wp_done (hkeeps _) hrun fun key entry hentry => ?_
    simp [ExecutionState.new] at hentry
  rw [prepareBatch_ok_iff, length_operations]
  refine and_congr_right fun _ => ⟨fun h key value hvalue => ?_, fun h op hop => ?_⟩
  · exact (h (.set key value) ((mem_operations_iff _ _).mpr ⟨key, some value, hvalue, rfl⟩)).2
  · obtain ⟨key, entry, hentry, rfl⟩ := (mem_operations_iff _ _).mp hop
    have hkey : key.length ≤ maxKeySize := hfit key entry hentry
    cases entry with
    | none => exact hkey
    | some value => exact ⟨hkey, h key value hentry⟩

theorem fullBlock_overlay_ends :
    Exec.Ends (Stf.applyBlock sampleHost 3 testStf Stf.fullBlock)
      (fun _ w' => w'.storage.overlay.size = 1 ∧
        ∀ entry ∈ w'.storage.overlay.toList, entry.2.all (·.length ≤ maxValueSize))
      sampleWorld := by
  decide +kernel

theorem applyBlock_batch_accepted_fullBlock :
    ∃ r w', Stf.applyBlock sampleHost 3 testStf Stf.fullBlock sampleWorld = .done (r, w') ∧
      ∃ batch, prepareBatch (stateChangesToOperations w'.storage.intoChanges) = .ok batch := by
  obtain ⟨r, w', hrun, hsize, hvalues⟩ := fullBlock_overlay_ends.exists
  refine ⟨r, w', hrun, (applyBlock_batch_accepted_iff hrun).mpr ⟨?_, fun key value hvalue => ?_⟩⟩
  · simp [hsize, maxBatchSize]
  · have hmem := ExtTreeMap.mem_toList_iff_getElem?_eq_some.mpr hvalue
    simpa using hvalues _ hmem

def longValueCode : AccountCode where
  init _ _ := Prog.ofExcept (InvokeResponse.new ())
  execute _ _ := do
    let value := List.replicate (maxValueSize + 1) 0
    let request ← Prog.ofExcept (InvokeRequest.new (StorageSetRequest.mk [7] value))
    let _ ← Prog.request (EnvOp.doExec storageAccountId request [])
    Prog.ofExcept (InvokeResponse.new ())
  query _ _ := Prog.throw errUnknownFunction

def longValueHost : Host := { sampleHost with withCode := fun _ => .ok (some longValueCode) }

def longValueBlock : TestBlock := ⟨⟨1, 0⟩, [Stf.recordingTx 100000], 100000⟩

theorem longValueBlock_ends :
    Exec.Ends (Stf.applyBlock longValueHost 3 testStf longValueBlock)
      (fun r w' =>
        (r.map fun p => p.1.txResults.map (·.response.toOption.isSome)) = .ok [true] ∧
        (prepareBatch (stateChangesToOperations w'.storage.intoChanges)).toOption.isNone)
      sampleWorld := by
  decide +kernel

/-- A block whose only transaction succeeds, and whose changes are refused. -/
theorem applyBlock_long_value_refused :
    ∃ result executed w', Stf.applyBlock longValueHost 3 testStf longValueBlock sampleWorld =
        .done (.ok (result, executed), w') ∧
      result.txResults.map (·.response.toOption.isSome) = [true] ∧
      ¬ ∃ batch, prepareBatch (stateChangesToOperations w'.storage.intoChanges) = .ok batch := by
  obtain ⟨r, w', hrun, hr, hrefused⟩ := longValueBlock_ends.exists
  cases r with
  | error e => cases hr
  | ok p =>
    refine ⟨p.1, p.2, w', hrun, Except.ok.inj hr, ?_⟩
    rintro ⟨batch, hbatch⟩
    rw [hbatch] at hrefused
    cases hrefused

end Storage

end Evolve
