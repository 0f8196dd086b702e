import Mathlib
import Evolve.Lib.Effects
import Evolve.Lib.Sorting
import Evolve.Stf.ExecutionState

/-! Histories of an execution state.  The operations are run in place, as the code runs them, so
that what an error leaves behind can be seen.  Each checkpoint that is still valid brings back the
overlay, the events and the counter of the time it was taken, and the list of changes at the end
says what the overlay says. -/

namespace Evolve

open Machine Effects Std

namespace ExecutionState

/-! ### Operations in place -/

abbrev InPlace := Exec ExecutionState ErrorCode

def pushUndo (change : StateChange) : InPlace Unit :=
  Exec.modify fun s => { s with undoLog := change :: s.undoLog }

variable (key : Bytes) (entry : Option Message)

def insertEntry : InPlace Unit :=
  Exec.modify fun s => { s with overlay := s.overlay.insert key entry }

def incStorageWrites : InPlace Unit :=
  Exec.modify fun s =>
    { s with metrics := { s.metrics with storageWrites := s.metrics.storageWrites + 1 } }

def updateUndoLogMax : InPlace Unit :=
  Exec.modify fun s =>
    { s with metrics := { s.metrics with
      undoLogLenMax := max s.metrics.undoLogLenMax s.undoLog.length } }

def updateOverlayMax : InPlace Unit :=
  Exec.modify fun s =>
    { s with metrics := { s.metrics with
      overlayLenMax := max s.metrics.overlayLenMax s.overlay.size } }

/-- Inserts an entry and tells what there was before. -/
def replaceEntry : InPlace (Bool × Option (Option Message)) := do
  let overlayLen ← Exec.read fun s => s.overlay.size
  match ← Exec.read fun s => s.overlay[key]? with
  | some previous =>
    insertEntry key entry
    pure (true, some previous)
  | none =>
    if overlayLen ≥ maxOverlayEntries then Exec.throw errOverlaySizeExceeded
    else
      insertEntry key entry
      pure (false, none)

variable (change : Bytes → Bool → Option (Option Message) → StateChange)

def writeInPlace : InPlace Unit := do
  let (hadOverlayEntry, previousOverlayValue) ← replaceEntry key entry
  pushUndo (change key hadOverlayEntry previousOverlayValue)
  incStorageWrites
  updateUndoLogMax
  updateOverlayMax

def setInPlace (value : Message) : InPlace Unit :=
  if key.length > maxKeySize then Exec.throw errKeyTooLarge
  else if value.length > maxValueSize then Exec.throw errValueTooLarge
  else writeInPlace key (some value) .set

def removeInPlace : InPlace Unit :=
  if key.length > maxKeySize then Exec.throw errKeyTooLarge
  else writeInPlace key none .remove

def emitEventInPlace (event : Event) : InPlace Unit := do
  let count ← Exec.read fun s => s.events.length
  if count ≥ maxEventsPerExecution then Exec.throw errTooManyEvents
  else
    Exec.modify fun s => { s with events := s.events ++ [event] }
    Exec.modify fun s =>
      { s with metrics := { s.metrics with eventsEmitted := s.metrics.eventsEmitted + 1 } }

def nextUniqueObjectIdInPlace : InPlace Unit := Exec.modify fun s => s.nextUniqueObjectId.2

/-- Reverts the newest changes until `n` are left. -/
def popUndoLog (n : Nat) : InPlace Unit :=
  Exec.modify fun s =>
    let popped := Undo.popTo StateChange.revert n s.undoLog s.overlay
    { s with undoLog := popped.1, overlay := popped.2 }

def restoreInPlace (checkpoint : Checkpoint) : InPlace Unit := do
  let s ← Exec.read id
  if checkpoint.undoLogIndex > s.undoLog.length ∨ checkpoint.eventsIndex > s.events.length then
    Exec.throw errInvalidCheckpoint
  else
    popUndoLog checkpoint.undoLogIndex
    Exec.modify fun s => { s with events := s.events.take checkpoint.eventsIndex }
    Exec.modify fun s => { s with uniqueObjects := checkpoint.uniqueObjectsCreated }
    Exec.modify fun s =>
      { s with metrics := { s.metrics with restores := s.metrics.restores + 1 } }

/-! ### Batches -/

inductive BatchOp where
  | set (value : Message)
  | remove

structure BatchOperation where
  key : Bytes
  operation : BatchOp

/-- The first pass: checks every operation and counts the keys that the overlay does not have.  A
key that occurs twice is counted twice. -/
def validateBatch (overlay : Overlay) : List BatchOperation → Nat → SdkResult Nat
  | [], newKeysCount => .ok newKeysCount
  | op :: operations, newKeysCount =>
    if op.key.length > maxKeySize then .error errKeyTooLarge
    else
      let newKeysCount := if overlay.contains op.key then newKeysCount else newKeysCount + 1
      match op.operation with
      | .set value =>
        if value.length > maxValueSize then .error errValueTooLarge
        else validateBatch overlay operations newKeysCount
      | .remove => validateBatch overlay operations newKeysCount

def applyEntry : InPlace Unit := do
  let previousOverlayValue ← Exec.read fun s => s.overlay[key]?
  pushUndo (change key previousOverlayValue.isSome previousOverlayValue)
  insertEntry key entry
  incStorageWrites

def applyOperation (op : BatchOperation) : InPlace Unit :=
  match op.operation with
  | .set value => applyEntry op.key (some value) .set
  | .remove => applyEntry op.key none .remove

def applyBatch (operations : List BatchOperation) : InPlace Unit := do
  let s ← Exec.read id
  let newKeysCount ← Exec.ofExcept (validateBatch s.overlay operations 0)
  if s.overlay.size + newKeysCount > maxOverlayEntries then Exec.throw errOverlaySizeExceeded
  else
    operations.forM applyOperation
    updateUndoLogMax
    updateOverlayMax

/-! ### What the operations do -/

/-- The result of a function on states, as an operation in place that fails without a trace. -/
def inPlace (f : ExecutionState → SdkResult ExecutionState) : InPlace Unit := fun s =>
  match f s with
  | .ok s' => .done (.ok (), s')
  | .error e => .done (.error e, s)

theorem writeInPlace_eq : writeInPlace key entry change = inPlace (·.write key entry change) := by
  funext s
  unfold writeInPlace replaceEntry inPlace write
  simp only [Exec.bind_apply, Exec.read]
  cases hprevious : s.overlay[key]? with
  | some previous => rfl
  | none =>
    by_cases hfull : s.overlay.size ≥ maxOverlayEntries
    · simp only [hfull, if_true]
      rfl
    · simp only [hfull, if_false]
      rfl

theorem setInPlace_eq (value : Message) : setInPlace key value = inPlace (·.set key value) := by
  funext s
  unfold setInPlace inPlace set
  split
  · rfl
  · split
    · rfl
    · rw [writeInPlace_eq]
      rfl

theorem removeInPlace_eq : removeInPlace key = inPlace (·.remove key) := by
  funext s
  unfold removeInPlace inPlace remove
  split
  · rfl
  · rw [writeInPlace_eq]
    rfl

theorem emitEventInPlace_eq (event : Event) :
    emitEventInPlace event = inPlace (·.emitEvent event) := by
  funext s
  unfold emitEventInPlace inPlace emitEvent
  simp only [Exec.bind_apply, Exec.read]
  split
  · rfl
  · rfl

theorem restoreInPlace_eq (checkpoint : Checkpoint) :
    restoreInPlace checkpoint = inPlace (·.restore checkpoint) := by
  funext s
  unfold restoreInPlace inPlace restore
  simp only [Exec.bind_apply, Exec.read, id]
  split
  · rfl
  · rfl

/-- The operation fails and leaves the state as it was, or the state grows. -/
def GrowsOrFails (s : ExecutionState) (r : SdkResult Unit) (s' : ExecutionState) : Prop :=
  match r with
  | .ok _ => s.Extends s'
  | .error _ => s' = s

theorem growsOrFails_inPlace {f : ExecutionState → SdkResult ExecutionState}
    (hf : ∀ s s', f s = .ok s' → s.Extends s') (s : ExecutionState) :
    Exec.wp (inPlace f) s.GrowsOrFails s := by
  unfold Exec.wp inPlace
  cases h : f s with
  | ok s' => exact hf s s' h
  | error e => exact rfl

theorem applyEntry_apply (s : ExecutionState) :
    applyEntry key entry change s = .done (.ok (), { s with
      overlay := s.overlay.insert key entry
      undoLog := change key s.overlay[key]?.isSome s.overlay[key]? :: s.undoLog
      metrics := { s.metrics with storageWrites := s.metrics.storageWrites + 1 } }) := rfl

theorem applyEntry_extends {change : Bytes → Bool → Option (Option Message) → StateChange}
    (hchange : ∀ had previous overlay,
      (change key had previous).revert overlay = revertKey overlay key had previous)
    (s : ExecutionState) :
    ∃ s', applyEntry key entry change s = .done (.ok (), s') ∧ s.Extends s' := by
  refine ⟨_, applyEntry_apply key entry change s, rfl, ⟨[_], rfl, Undo.Undoes.single ?_⟩,
    List.prefix_rfl⟩
  rw [hchange]
  exact revertKey_insert s.overlay key entry

theorem applyOperation_extends (op : BatchOperation) (s : ExecutionState) :
    ∃ s', applyOperation op s = .done (.ok (), s') ∧ s.Extends s' := by
  unfold applyOperation
  cases op.operation with
  | set value => exact applyEntry_extends op.key (some value) (fun _ _ _ => rfl) s
  | remove => exact applyEntry_extends op.key none (fun _ _ _ => rfl) s

/-- The second pass does not fail. -/
theorem applyOperations_extends (operations : List BatchOperation) (s : ExecutionState) :
    ∃ s', operations.forM applyOperation s = .done (.ok (), s') ∧ s.Extends s' := by
  induction operations generalizing s with
  | nil => exact ⟨s, rfl, .refl s⟩
  | cons op operations ih =>
    obtain ⟨s₁, hop, hext₁⟩ := applyOperation_extends op s
    obtain ⟨s₂, hrest, hext₂⟩ := ih s₁
    refine ⟨s₂, ?_, hext₁.trans hext₂⟩
    change (applyOperation op >>= fun _ => operations.forM applyOperation) s = _
    rw [Exec.bind_apply, hop]
    exact hrest

theorem growsOrFails_applyBatch (operations : List BatchOperation) (s : ExecutionState) :
    Exec.wp (applyBatch operations) s.GrowsOrFails s := by
  obtain ⟨s', happly, hext⟩ := applyOperations_extends operations s
  unfold Exec.wp applyBatch
  simp only [Exec.bind_apply, Exec.read, id, Exec.ofExcept]
  cases hvalid : validateBatch s.overlay operations 0 with
  | error e => exact rfl
  | ok newKeysCount =>
    by_cases hfull : s.overlay.size + newKeysCount > maxOverlayEntries
    · simp only [hfull, if_true]
      exact rfl
    · simp only [hfull, if_false, Exec.bind_apply, happly]
      exact hext.trans (.of_eq rfl rfl rfl rfl)

inductive Operation where
  | set (key : Bytes) (value : Message)
  | remove (key : Bytes)
  | applyBatch (operations : List BatchOperation)
  | emitEvent (event : Event)
  | nextUniqueObjectId

def Operation.run : Operation → InPlace Unit
  | .set key value => setInPlace key value
  | .remove key => removeInPlace key
  | .applyBatch operations => ExecutionState.applyBatch operations
  | .emitEvent event => emitEventInPlace event
  | .nextUniqueObjectId => nextUniqueObjectIdInPlace

theorem Operation.growsOrFails (op : Operation) (s : ExecutionState) :
    Exec.wp op.run s.GrowsOrFails s := by
  cases op with
  | set key value =>
    rw [Operation.run, setInPlace_eq]
    exact growsOrFails_inPlace (fun _ _ h => .set h) s
  | remove key =>
    rw [Operation.run, removeInPlace_eq]
    exact growsOrFails_inPlace (fun _ _ h => .remove h) s
  | applyBatch operations => exact growsOrFails_applyBatch operations s
  | emitEvent event =>
    rw [Operation.run, emitEventInPlace_eq]
    exact growsOrFails_inPlace (fun _ _ h => .emitEvent h) s
  | nextUniqueObjectId => exact .of_eq rfl rfl rfl rfl

/-! ### Histories -/

/-- A checkpoint, with the state when it was taken. -/
structure Snapshot where
  checkpoint : Checkpoint
  state : ExecutionState

/-- The states that operations lead to, with the checkpoints that are still valid, the newest first.
Going back to a checkpoint makes those that were taken after it invalid. -/
inductive Reaches (start : ExecutionState) : ExecutionState → List Snapshot → Prop
  | refl : Reaches start start []
  | run {s s' : ExecutionState} {valid : List Snapshot} {r : SdkResult Unit}
      (reaches : Reaches start s valid) (op : Operation) (runs : op.run s = .done (r, s')) :
      Reaches start s' valid
  | checkpoint {s : ExecutionState} {valid : List Snapshot} (reaches : Reaches start s valid) :
      Reaches start s.checkpoint.2 (⟨s.checkpoint.1, s⟩ :: valid)
  | restore {s s' : ExecutionState} {newer older : List Snapshot} {snapshot : Snapshot}
      {r : SdkResult Unit} (reaches : Reaches start s (newer ++ snapshot :: older))
      (runs : restoreInPlace snapshot.checkpoint s = .done (r, s')) :
      Reaches start s' (snapshot :: older)

/-- The state, and each snapshot, has grown from every older snapshot. -/
structure Nested (s : ExecutionState) (valid : List Snapshot) : Prop where
  grown : (s :: valid.map Snapshot.state).Pairwise fun newer older => older.Extends newer
  taken : ∀ snapshot ∈ valid, snapshot.checkpoint = snapshot.state.checkpoint.1

namespace Nested

variable {s s' : ExecutionState} {valid : List Snapshot}

theorem grownFrom (h : Nested s valid) {snapshot : Snapshot} (hmem : snapshot ∈ valid) :
    snapshot.state.Extends s :=
  (List.pairwise_cons.mp h.grown).1 _ (List.mem_map_of_mem hmem)

theorem grow (h : Nested s valid) (hext : s.Extends s') : Nested s' valid := by
  obtain ⟨hs, hvalid⟩ := List.pairwise_cons.mp h.grown
  exact ⟨List.pairwise_cons.mpr ⟨fun older holder => (hs older holder).trans hext, hvalid⟩, h.taken⟩

theorem checkpoint (h : Nested s valid) :
    Nested s.checkpoint.2 (⟨s.checkpoint.1, s⟩ :: valid) := by
  have hext : s.Extends s.checkpoint.2 := .of_eq rfl rfl rfl rfl
  refine ⟨?_, ?_⟩
  · obtain ⟨hgrown, -⟩ := List.pairwise_cons.mp (h.grow hext).grown
    refine List.pairwise_cons.mpr ⟨?_, h.grown⟩
    intro older holder
    rcases List.mem_cons.mp holder with rfl | holder
    · exact hext
    · exact hgrown older holder
  · intro snapshot hmem
    rcases List.mem_cons.mp hmem with rfl | hmem
    · rfl
    · exact h.taken snapshot hmem

/-- A valid checkpoint can be restored, and then nothing newer is left. -/
theorem restore {newer older : List Snapshot} {snapshot : Snapshot}
    (h : Nested s (newer ++ snapshot :: older)) :
    s.restore snapshot.checkpoint = .ok (rollback snapshot.state s) ∧
      Nested (rollback snapshot.state s) (snapshot :: older) := by
  have hmem : snapshot ∈ newer ++ snapshot :: older := by simp
  have hext := h.grownFrom hmem
  refine ⟨?_, ?_, ?_⟩
  · rw [h.taken snapshot hmem]
    exact restore_eq hext
  · have hback : snapshot.state.Extends (rollback snapshot.state s) :=
      .of_eq hext.base rfl rfl rfl
    have hold : (snapshot :: older).map Snapshot.state |>.Pairwise
        fun newer older => older.Extends newer := by
      have hall := (List.pairwise_cons.mp h.grown).2
      rw [List.map_append] at hall
      exact (List.pairwise_append.mp hall).2.1
    refine List.pairwise_cons.mpr ⟨?_, hold⟩
    intro state hstate
    rcases List.mem_cons.mp hstate with rfl | hstate
    · exact hback
    · exact ((List.pairwise_cons.mp hold).1 state hstate).trans hback
  · intro other hother
    exact h.taken other (List.mem_append_right _ hother)

end Nested

theorem Reaches.nested {start s : ExecutionState} {valid : List Snapshot}
    (h : Reaches start s valid) : Nested s valid := by
  induction h with
  | refl => exact ⟨List.pairwise_singleton _ _, by rintro snapshot ⟨⟩⟩
  | @run s s' valid r _ op runs ih =>
    have hspec := Exec.wp_done (op.growsOrFails s) runs
    cases r with
    | ok _ => exact ih.grow hspec
    | error e =>
      cases hspec
      exact ih
  | checkpoint _ ih => exact ih.checkpoint
  | restore _ runs ih =>
    obtain ⟨hrestore, hnested⟩ := ih.restore
    rw [restoreInPlace_eq, inPlace, hrestore] at runs
    cases runs
    exact hnested

/-- Whatever operations led to a state: each checkpoint that is still valid can be restored, which
brings back the overlay, the events and the counter of the time it was taken, and an operation that
fails changes nothing. -/
theorem restores_snapshots {start s : ExecutionState} {valid : List Snapshot}
    (h : Reaches start s valid) :
    (∀ snapshot ∈ valid, ∃ s', restoreInPlace snapshot.checkpoint s = .done (.ok (), s') ∧
      s'.overlay = snapshot.state.overlay ∧ s'.events = snapshot.state.events ∧
      s'.uniqueObjects = snapshot.state.uniqueObjects) ∧
    (∀ (op : Operation) (e : ErrorCode) (s' : ExecutionState),
      op.run s = .done (.error e, s') → s' = s) ∧
    ∀ (checkpoint : Checkpoint) (e : ErrorCode) (s' : ExecutionState),
      restoreInPlace checkpoint s = .done (.error e, s') → s' = s := by
  refine ⟨?_, ?_, ?_⟩
  · intro snapshot hmem
    obtain ⟨newer, older, rfl⟩ := List.append_of_mem hmem
    obtain ⟨hrestore, -⟩ := h.nested.restore
    refine ⟨rollback snapshot.state s, ?_, rfl, rfl, rfl⟩
    rw [restoreInPlace_eq, inPlace, hrestore]
  · intro op e s' hop
    exact Exec.wp_done (op.growsOrFails s) hop
  · intro checkpoint e s' hrestore
    rw [restoreInPlace_eq, inPlace] at hrestore
    split at hrestore
    · cases hrestore
    · cases hrestore
      rfl

/-! ### A history -/

/-- A step of a history; `restore n` goes back to the valid checkpoint before which `n` newer ones
are listed. -/
inductive Command where
  | run (op : Operation)
  | checkpoint
  | restore (n : Nat)

def Command.play (s : ExecutionState) (valid : List Snapshot) :
    Command → Option (ExecutionState × List Snapshot)
  | .run op =>
    match op.run s with
    | .done (_, s') => some (s', valid)
    | _ => none
  | .checkpoint => some (s.checkpoint.2, ⟨s.checkpoint.1, s⟩ :: valid)
  | .restore n =>
    match valid.drop n with
    | [] => none
    | snapshot :: older =>
      match restoreInPlace snapshot.checkpoint s with
      | .done (_, s') => some (s', snapshot :: older)
      | _ => none

theorem Reaches.play {start s : ExecutionState} {valid : List Snapshot}
    (h : Reaches start s valid) {command : Command} {p : ExecutionState × List Snapshot}
    (hplay : command.play s valid = some p) : Reaches start p.1 p.2 := by
  cases command with
  | run op =>
    dsimp only [Command.play] at hplay
    split at hplay
    · rename_i hrun
      cases hplay
      exact h.run op hrun
    · cases hplay
  | checkpoint =>
    cases hplay
    exact h.checkpoint
  | restore n =>
    dsimp only [Command.play] at hplay
    split at hplay
    · cases hplay
    · rename_i snapshot older hdrop
      rw [← List.take_append_drop n valid, hdrop] at h
      split at hplay
      · rename_i hrun
        cases hplay
        exact h.restore hrun
      · cases hplay

def playAll (commands : List Command) (start : ExecutionState) :
    Option (ExecutionState × List Snapshot) :=
  commands.foldlM (fun p command => command.play p.1 p.2) (start, [])

theorem reaches_of_playAll {commands : List Command} {start : ExecutionState}
    {p : ExecutionState × List Snapshot} (hplay : playAll commands start = some p) :
    Reaches start p.1 p.2 := by
  suffices ∀ q : ExecutionState × List Snapshot, Reaches start q.1 q.2 →
      commands.foldlM (fun p command => Command.play p.1 p.2 command) q = some p →
        Reaches start p.1 p.2 from this (start, []) .refl hplay
  clear hplay
  induction commands with
  | nil =>
    rintro q hq ⟨⟩
    exact hq
  | cons command commands ih =>
    intro q hq hplay
    rw [List.foldlM_cons] at hplay
    obtain ⟨q', hcommand, hrest⟩ := Option.bind_eq_some_iff.mp hplay
    exact ih q' (hq.play hcommand) hrest

/-- A batch that sets a key twice and removes another, between two checkpoints; then the state goes
back to the older one, and writes again. -/
def rewinding : List Command :=
  [.run (.set [1] [10]), .checkpoint,
    .run (.applyBatch [⟨[1], .set [11]⟩, ⟨[1], .remove⟩, ⟨[2], .set [20]⟩]),
    .run (.emitEvent ⟨runtimeAccountId, "moved", []⟩), .checkpoint, .run .nextUniqueObjectId,
    .run (.remove [2]), .restore 1, .run (.set [3] [30])]

theorem rewinding_plays :
    (playAll rewinding (new fun _ => .ok none)).map (fun p =>
      (p.1.overlay.toList, p.2.map fun snapshot => snapshot.state.overlay.toList.length)) =
      some ([([1], some [10]), ([3], some [30])], [1]) := by
  decide +kernel

theorem restores_snapshots_rewinding :
    ∃ s valid, Reaches (new fun _ => .ok none) s valid ∧
      s.overlay.toList = [([1], some [10]), ([3], some [30])] ∧
      ∃ snapshot ∈ valid, ∃ s', restoreInPlace snapshot.checkpoint s = .done (.ok (), s') ∧
        s'.overlay.toList.length = 1 := by
  obtain ⟨⟨s, valid⟩, hplays, hresult⟩ := Option.map_eq_some_iff.mp rewinding_plays
  obtain ⟨hoverlay, hsnapshots⟩ := Prod.mk.inj hresult
  have hreaches := reaches_of_playAll hplays
  refine ⟨s, valid, hreaches, hoverlay, ?_⟩
  obtain ⟨snapshot, hvalid, hsnapshot⟩ := List.map_eq_singleton_iff.mp hsnapshots
  have hmem : snapshot ∈ valid := by
    rw [show valid = [snapshot] from hvalid]
    exact List.mem_singleton_self snapshot
  obtain ⟨s', hrestore, hback, -, -⟩ := (restores_snapshots hreaches).1 snapshot hmem
  exact ⟨snapshot, hmem, s', hrestore, by rw [hback, hsnapshot]⟩

/-! ### The list of changes -/

/-- The entries of an overlay, in the order in which a hash map happens to give them. -/
structure Enumerates (entries : List (Bytes × Option Message)) (overlay : Overlay) : Prop where
  nodup : (entries.map Prod.fst).Nodup
  mem : ∀ key entry, (key, entry) ∈ entries ↔ overlay[key]? = some entry

/-- The changes made from entries in any order. -/
def changesOf (entries : List (Bytes × Option Message)) : List CoreStateChange :=
  (entries.map coreStateChange).mergeSort fun a b => (compare (changeKey a) (changeKey b)).isLE

theorem changesOf_toList (s : ExecutionState) : changesOf s.overlay.toList = s.intoChanges := rfl

theorem changeKey_coreStateChange (p : Bytes × Option Message) :
    changeKey (coreStateChange p) = p.1 := by
  obtain ⟨key, _ | value⟩ := p <;> rfl

theorem enumerates_toList (overlay : Overlay) : Enumerates overlay.toList overlay where
  nodup := by
    have hdistinct := ExtTreeMap.distinct_keys_toList (t := overlay)
    rw [List.Nodup, List.pairwise_map]
    refine hdistinct.imp fun hne heq => hne ?_
    rw [heq]
    exact ReflCmp.compare_self
  mem _ _ := ExtTreeMap.mem_toList_iff_getElem?_eq_some

variable {entries entries' : List (Bytes × Option Message)}

theorem changesOf_sorted (h : (entries.map Prod.fst).Nodup) :
    (changesOf entries).Pairwise fun a b => compare (changeKey a) (changeKey b) = .lt := by
  refine Sorting.sortOn_increasing ?_
  simpa only [List.map_map, Function.comp_def, changeKey_coreStateChange] using h

theorem Enumerates.perm {overlay : Overlay} (h : Enumerates entries overlay)
    (h' : Enumerates entries' overlay) : entries.Perm entries' := by
  refine (List.perm_ext_iff_of_nodup h.nodup.of_map h'.nodup.of_map).mpr ?_
  rintro ⟨key, entry⟩
  rw [h.mem, h'.mem]

theorem changesOf_eq {overlay : Overlay} (h : Enumerates entries overlay)
    (h' : Enumerates entries' overlay) : changesOf entries = changesOf entries' := by
  refine Sorting.sortOn_eq_of_perm ?_ ((h.perm h').map _)
  simpa only [List.map_map, Function.comp_def, changeKey_coreStateChange] using h.nodup

/-! ### The store after the changes -/

def applyChange (store : ReadonlyKV) : CoreStateChange → ReadonlyKV
  | .set key value => fun k => if k = key then .ok (some value) else store k
  | .remove key => fun k => if k = key then .ok none else store k

def applyChanges (store : ReadonlyKV) (changes : List CoreStateChange) : ReadonlyKV :=
  changes.foldl applyChange store

theorem applyChange_coreStateChange (store : ReadonlyKV) (p : Bytes × Option Message) (k : Bytes) :
    applyChange store (coreStateChange p) k = if k = p.1 then .ok p.2 else store k := by
  obtain ⟨key, _ | value⟩ := p <;> rfl

theorem applyChanges_of_not_mem {changes : List CoreStateChange} {k : Bytes}
    (h : k ∉ changes.map changeKey) (store : ReadonlyKV) :
    applyChanges store changes k = store k := by
  induction changes generalizing store with
  | nil => rfl
  | cons change changes ih =>
    rw [List.map_cons, List.mem_cons, not_or] at h
    rw [applyChanges, List.foldl_cons]
    refine (ih h.2 _).trans ?_
    cases change with
    | set key value => exact if_neg h.1
    | remove key => exact if_neg h.1

theorem applyChanges_of_mem {changes : List CoreStateChange}
    (hsorted : changes.Pairwise fun a b => compare (changeKey a) (changeKey b) = .lt)
    {p : Bytes × Option Message} (h : coreStateChange p ∈ changes) (store : ReadonlyKV) :
    applyChanges store changes p.1 = .ok p.2 := by
  induction changes generalizing store with
  | nil => cases h
  | cons change changes ih =>
    obtain ⟨hlt, hsorted⟩ := List.pairwise_cons.mp hsorted
    rw [applyChanges, List.foldl_cons]
    rcases List.mem_cons.mp h with rfl | hmem
    · refine (applyChanges_of_not_mem ?_ _).trans ?_
      · intro hkey
        obtain ⟨later, hlater, heq⟩ := List.mem_map.mp hkey
        have hself := hlt later hlater
        rw [heq, changeKey_coreStateChange] at hself
        have heq : compare p.1 p.1 = .eq := ReflCmp.compare_self
        cases heq.symm.trans hself
      · rw [applyChange_coreStateChange, if_pos rfl]
    · exact ih hsorted hmem _

theorem applyChanges_changesOf {s : ExecutionState} (h : Enumerates entries s.overlay) (k : Bytes) :
    applyChanges s.baseStorage (changesOf entries) k = s.lookup k := by
  unfold lookup
  cases hentry : s.overlay[k]? with
  | some entry =>
    have hmem : coreStateChange (k, entry) ∈ changesOf entries := by
      rw [changesOf, List.mem_mergeSort]
      exact List.mem_map_of_mem ((h.mem k entry).mpr hentry)
    exact applyChanges_of_mem (changesOf_sorted h.nodup) hmem s.baseStorage
  | none =>
    refine applyChanges_of_not_mem ?_ s.baseStorage
    intro hkey
    obtain ⟨change, hchange, rfl⟩ := List.mem_map.mp hkey
    rw [changesOf, List.mem_mergeSort] at hchange
    obtain ⟨⟨key, entry⟩, hmem, rfl⟩ := List.mem_map.mp hchange
    rw [changeKey_coreStateChange, (h.mem key entry).mp hmem] at hentry
    cases hentry

/-- Whatever operations led to a state: the keys of its changes are strictly increasing, the changes
are the same for every order in which the overlay gives its entries, and the base store with the
changes applied answers each key as the state does. -/
theorem intoChanges_faithful (s : ExecutionState) :
    (s.intoChanges.Pairwise fun a b => compare (changeKey a) (changeKey b) = .lt) ∧
    (∀ entries, Enumerates entries s.overlay → changesOf entries = s.intoChanges) ∧
    ∀ key, applyChanges s.baseStorage s.intoChanges key = (s.get key).1 := by
  have hentries := enumerates_toList s.overlay
  rw [← changesOf_toList]
  refine ⟨changesOf_sorted hentries.nodup, ?_, ?_⟩
  · intro entries h
    exact changesOf_eq h hentries
  · intro key
    exact applyChanges_changesOf hentries key

end ExecutionState

end Evolve
