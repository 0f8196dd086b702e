import Mathlib
import Evolve.Core
import Evolve.Lib.Undo

/-! The execution state: an overlay of changes over a base store, with an undo log, the events
emitted and a counter of unique objects.  `Extends` says how the operations let a state grow, and
`restore_eq` that going back to a checkpoint undoes all of it. -/

namespace Evolve

open Machine Std

def errOverlaySizeExceeded : ErrorCode := defineError 0x0A
def errTooManyEvents : ErrorCode := defineError 0x10
def errKeyTooLarge : ErrorCode := defineError 0x11
def errValueTooLarge : ErrorCode := defineError 0x12
def errInvalidCheckpoint : ErrorCode := defineError 0x13

def maxOverlayEntries : Nat := 100000
def maxEventsPerExecution : Nat := 10000
def maxKeySize : Nat := maxStorageKeySize
def maxValueSize : Nat := 1024 * 1024

abbrev ReadonlyKV := Bytes → SdkResult (Option Bytes)

/-- For each changed key its new value, or `none` for a key that was removed. -/
abbrev Overlay := ExtTreeMap Bytes (Option Message) compare

structure ExecutionMetrics where
  storageReads : UInt64
  storageWrites : UInt64
  eventsEmitted : UInt64
  checkpoints : UInt64
  restores : UInt64
  overlayLenMax : Nat
  undoLogLenMax : Nat
deriving DecidableEq

inductive StateChange where
  | set (key : Bytes) (hadOverlayEntry : Bool) (previousOverlayValue : Option (Option Message))
  | remove (key : Bytes) (hadOverlayEntry : Bool) (previousOverlayValue : Option (Option Message))

def revertKey (overlay : Overlay) (key : Bytes) (hadOverlayEntry : Bool)
    (previousOverlayValue : Option (Option Message)) : Overlay :=
  if hadOverlayEntry then
    match previousOverlayValue with
    | some previous => overlay.insert key previous
    | none => overlay
  else overlay.erase key

def StateChange.revert : StateChange → Overlay → Overlay
  | .set key had previous, overlay => revertKey overlay key had previous
  | .remove key had previous, overlay => revertKey overlay key had previous

inductive CoreStateChange where
  | set (key : Bytes) (value : Bytes)
  | remove (key : Bytes)

def changeKey : CoreStateChange → Bytes
  | .set key _ => key
  | .remove key => key

def coreStateChange : Bytes × Option Message → CoreStateChange
  | (key, some value) => .set key value
  | (key, none) => .remove key

structure Checkpoint where
  undoLogIndex : Nat
  eventsIndex : Nat
  uniqueObjectsCreated : UInt64

/-- The undo log lists the newest change first; events are in the order of their emission. -/
structure ExecutionState where
  baseStorage : ReadonlyKV
  overlay : Overlay
  undoLog : List StateChange
  events : List Event
  uniqueObjects : UInt64
  metrics : ExecutionMetrics

namespace ExecutionState

def new (baseStorage : ReadonlyKV) : ExecutionState :=
  ⟨baseStorage, ∅, [], [], 0, ⟨0, 0, 0, 0, 0, 0, 0⟩⟩

def lookup (s : ExecutionState) (key : Bytes) : SdkResult (Option Message) :=
  match s.overlay[key]? with
  | some value => .ok value
  | none => s.baseStorage key

def countRead (s : ExecutionState) : ExecutionState :=
  { s with metrics := { s.metrics with storageReads := s.metrics.storageReads + 1 } }

def get (s : ExecutionState) (key : Bytes) : SdkResult (Option Message) × ExecutionState :=
  (s.lookup key, s.countRead)

def record (s : ExecutionState) (key : Bytes) (entry : Option Message) (change : StateChange) :
    ExecutionState :=
  let overlay := s.overlay.insert key entry
  let undoLog := change :: s.undoLog
  { s with
    overlay
    undoLog
    metrics := { s.metrics with
      storageWrites := s.metrics.storageWrites + 1
      undoLogLenMax := max s.metrics.undoLogLenMax undoLog.length
      overlayLenMax := max s.metrics.overlayLenMax overlay.size } }

/-- Changes the overlay entry of a key.  Only a key that is new to the overlay counts against its
limit. -/
def write (s : ExecutionState) (key : Bytes) (entry : Option Message)
    (change : Bytes → Bool → Option (Option Message) → StateChange) : SdkResult ExecutionState :=
  match s.overlay[key]? with
  | some previous => .ok (s.record key entry (change key true (some previous)))
  | none =>
    if s.overlay.size ≥ maxOverlayEntries then .error errOverlaySizeExceeded
    else .ok (s.record key entry (change key false none))

def set (s : ExecutionState) (key : Bytes) (value : Message) : SdkResult ExecutionState :=
  if key.length > maxKeySize then .error errKeyTooLarge
  else if value.length > maxValueSize then .error errValueTooLarge
  else s.write key (some value) .set

def remove (s : ExecutionState) (key : Bytes) : SdkResult ExecutionState :=
  if key.length > maxKeySize then .error errKeyTooLarge
  else s.write key none .remove

def emitEvent (s : ExecutionState) (event : Event) : SdkResult ExecutionState :=
  if s.events.length ≥ maxEventsPerExecution then .error errTooManyEvents
  else .ok { s with
    events := s.events ++ [event]
    metrics := { s.metrics with eventsEmitted := s.metrics.eventsEmitted + 1 } }

def popEvents (s : ExecutionState) : List Event × ExecutionState :=
  (s.events, { s with events := [] })

def nextUniqueObjectId (s : ExecutionState) : UInt64 × ExecutionState :=
  (s.uniqueObjects + 1, { s with uniqueObjects := s.uniqueObjects + 1 })

def checkpoint (s : ExecutionState) : Checkpoint × ExecutionState :=
  (⟨s.undoLog.length, s.events.length, s.uniqueObjects⟩,
    { s with metrics := { s.metrics with checkpoints := s.metrics.checkpoints + 1 } })

def restore (s : ExecutionState) (checkpoint : Checkpoint) : SdkResult ExecutionState :=
  if checkpoint.undoLogIndex > s.undoLog.length ∨ checkpoint.eventsIndex > s.events.length then
    .error errInvalidCheckpoint
  else
    let popped := Undo.popTo StateChange.revert checkpoint.undoLogIndex s.undoLog s.overlay
    .ok { s with
      undoLog := popped.1
      overlay := popped.2
      events := s.events.take checkpoint.eventsIndex
      uniqueObjects := checkpoint.uniqueObjectsCreated
      metrics := { s.metrics with restores := s.metrics.restores + 1 } }

def intoChanges (s : ExecutionState) : List CoreStateChange :=
  (s.overlay.toList.map coreStateChange).mergeSort fun a b =>
    (compare (changeKey a) (changeKey b)).isLE

/-! ### Writes -/

theorem revertKey_insert (overlay : Overlay) (key : Bytes) (entry : Option Message) :
    revertKey (overlay.insert key entry) key overlay[key]?.isSome overlay[key]? = overlay := by
  refine ExtTreeMap.ext_getElem? fun k => ?_
  cases h : overlay[key]? with
  | some previous =>
    simp only [revertKey, Option.isSome_some, if_true, ExtTreeMap.getElem?_insert]
    split
    · rename_i hk
      rw [← LawfulEqCmp.eq_of_compare hk, h]
    · rfl
  | none =>
    simp only [revertKey, Option.isSome_none, Bool.false_eq_true, if_false,
      ExtTreeMap.getElem?_erase, ExtTreeMap.getElem?_insert]
    split
    · rename_i hk
      rw [← LawfulEqCmp.eq_of_compare hk, h]
    · rfl

variable {s s' : ExecutionState} {key : Bytes}

/-- What a successful write does: it records one change that can be undone, on a key that the
overlay had or had room for. -/
theorem write_ok {entry : Option Message}
    {change : Bytes → Bool → Option (Option Message) → StateChange}
    (h : s.write key entry change = .ok s') :
    s' = s.record key entry (change key s.overlay[key]?.isSome s.overlay[key]?) ∧
      (s.overlay[key]? = none → s.overlay.size < maxOverlayEntries) := by
  unfold write at h
  split at h
  · rename_i previous hprev
    cases h
    simp [hprev]
  · rename_i hnone
    split at h
    · cases h
    · rename_i hroom
      cases h
      simp only [hnone, Option.isSome_none, true_and, forall_const]
      omega

theorem set_ok {value : Message} (h : s.set key value = .ok s') :
    key.length ≤ maxKeySize ∧ value.length ≤ maxValueSize ∧
      s.write key (some value) .set = .ok s' := by
  unfold set at h
  split at h
  · cases h
  · split at h
    · cases h
    · exact ⟨by omega, by omega, h⟩

theorem remove_ok (h : s.remove key = .ok s') :
    key.length ≤ maxKeySize ∧ s.write key none .remove = .ok s' := by
  unfold remove at h
  split at h
  · cases h
  · exact ⟨by omega, h⟩

theorem lookup_record (s : ExecutionState) (key : Bytes) (entry : Option Message)
    (change : StateChange) (k : Bytes) :
    (s.record key entry change).lookup k = if key = k then .ok entry else s.lookup k := by
  simp only [lookup, record, ExtTreeMap.getElem?_insert]
  by_cases hk : key = k
  · simp [hk]
  · have : compare key k ≠ .eq := fun h => hk (LawfulEqCmp.eq_of_compare h)
    simp [hk, this]

theorem lookup_set {value : Message} (h : s.set key value = .ok s') (k : Bytes) :
    s'.lookup k = if key = k then .ok (some value) else s.lookup k := by
  rw [(write_ok (set_ok h).2.2).1, lookup_record]

theorem lookup_remove (h : s.remove key = .ok s') (k : Bytes) :
    s'.lookup k = if key = k then .ok none else s.lookup k := by
  rw [(write_ok (remove_ok h).2).1, lookup_record]

theorem lookup_emitEvent {event : Event} (h : s.emitEvent event = .ok s') :
    s'.lookup = s.lookup := by
  unfold emitEvent at h
  split at h
  · cases h
  · cases h
    rfl

/-! ### Checkpoints -/

/-- `s'` has grown from `s`: its undo log leads back to the overlay of `s`, and the events of `s`
come before its own. -/
structure Extends (s s' : ExecutionState) : Prop where
  base : s'.baseStorage = s.baseStorage
  undo : ∃ log, s'.undoLog = log ++ s.undoLog ∧
    Undo.Undoes StateChange.revert log s'.overlay s.overlay
  events : s.events <+: s'.events

namespace Extends

theorem refl (s : ExecutionState) : Extends s s :=
  ⟨rfl, ⟨[], rfl, Undo.Undoes.nil _⟩, List.prefix_rfl⟩

theorem trans {a b c : ExecutionState} (h₁ : Extends a b) (h₂ : Extends b c) : Extends a c := by
  obtain ⟨log₁, hlog₁, hundo₁⟩ := h₁.undo
  obtain ⟨log₂, hlog₂, hundo₂⟩ := h₂.undo
  refine ⟨h₂.base.trans h₁.base, ⟨log₂ ++ log₁, ?_, hundo₁.append hundo₂⟩,
    h₁.events.trans h₂.events⟩
  rw [hlog₂, hlog₁, List.append_assoc]

theorem of_eq (hbase : s'.baseStorage = s.baseStorage) (hoverlay : s'.overlay = s.overlay)
    (hlog : s'.undoLog = s.undoLog) (hevents : s'.events = s.events) : Extends s s' :=
  ⟨hbase, ⟨[], hlog, hoverlay⟩, hevents ▸ List.prefix_rfl⟩

theorem write {entry : Option Message}
    {change : Bytes → Bool → Option (Option Message) → StateChange}
    (hchange : ∀ had previous overlay,
      (change key had previous).revert overlay = revertKey overlay key had previous)
    (h : s.write key entry change = .ok s') : Extends s s' := by
  obtain ⟨rfl, -⟩ := write_ok h
  refine ⟨rfl, ⟨[_], rfl, Undo.Undoes.single ?_⟩, List.prefix_rfl⟩
  rw [hchange]
  exact revertKey_insert s.overlay key entry

theorem set {value : Message} (h : s.set key value = .ok s') : Extends s s' :=
  write (fun _ _ _ => rfl) (set_ok h).2.2

theorem remove (h : s.remove key = .ok s') : Extends s s' :=
  write (fun _ _ _ => rfl) (remove_ok h).2

theorem emitEvent {event : Event} (h : s.emitEvent event = .ok s') : Extends s s' := by
  unfold ExecutionState.emitEvent at h
  split at h
  · cases h
  · cases h
    exact ⟨rfl, ⟨[], rfl, rfl⟩, List.prefix_append _ _⟩

end Extends

def rollback (s s' : ExecutionState) : ExecutionState :=
  { s' with
    overlay := s.overlay
    undoLog := s.undoLog
    events := s.events
    uniqueObjects := s.uniqueObjects
    metrics := { s'.metrics with restores := s'.metrics.restores + 1 } }

/-- A state that has grown from `s` can go back to the checkpoint of `s`, and there it has the
overlay, the undo log, the events and the counter of `s`. -/
theorem restore_eq (h : Extends s s') : s'.restore s.checkpoint.1 = .ok (rollback s s') := by
  obtain ⟨log, hlog, hundo⟩ := h.undo
  have hle : s.undoLog.length ≤ s'.undoLog.length := by
    rw [hlog, List.length_append]
    omega
  have hevents : s.events.length ≤ s'.events.length := h.events.length_le
  have htake : s'.events.take s.events.length = s.events :=
    (List.prefix_iff_eq_take.mp h.events).symm
  have hpop := Undo.popTo_append hundo s.undoLog
  rw [← hlog] at hpop
  unfold restore
  simp only [checkpoint, hpop, htake]
  rw [if_neg (by omega)]
  rfl

end ExecutionState

end Evolve
