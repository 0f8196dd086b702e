import Mathlib
import Evolve.Stf.Objects
import Evolve.Stf.Snapshots
import Evolve.Stf.Block

/-! Transactions from states with the same logical store.  What one state has in its overlay another
may have in its base, as after a commit.  A transaction that asks for no unique id cannot tell such
states apart as long as neither overlay fills up. -/

namespace Evolve

open Machine Borsh Effects Std

/-! ### Worlds with the same logical store -/

structure World.Alike (w w₂ : World) : Prop where
  lookup : w₂.storage.lookup = w.storage.lookup
  events : w₂.storage.events = w.storage.events
  gasCounter : w₂.gasCounter = w.gasCounter

def Action.isWrite : Action → Bool
  | .begins _ _ => false
  | .write _ _ _ _ _ => true

def writes (l : List Action) : Nat := l.countP Action.isWrite

theorem writes_append (l l' : List Action) : writes (l ++ l') = writes l + writes l' :=
  List.countP_append

def World.overlaySize (w : World) : Nat := w.storage.overlay.size

/-- The overlay stays below its limit with `n` more entries. -/
def World.HasRoom (w : World) (n : Nat) : Prop := w.overlaySize + n < maxOverlayEntries

theorem World.HasRoom.mono {w : World} {n k : Nat} (h : w.HasRoom n) (hk : k ≤ n) : w.HasRoom k :=
  Nat.lt_of_le_of_lt (Nat.add_le_add_left hk _) h

/-- Two worlds with the same logical store and room for what the first run writes, which asks for no
unique id. -/
structure Separable (w w₂ : World) (l : List Action) : Prop where
  alike : w.Alike w₂
  room : w.HasRoom (writes l)
  room₂ : w₂.HasRoom (writes l)
  noIds : objectRequests l = []

/-- Two worlds with the same logical store again, whose overlays have at most one entry more for
each write. -/
structure Rejoined (w w₂ : World) (l : List Action) (w' w₂' : World) : Prop where
  alike : w'.Alike w₂'
  size : w'.overlaySize ≤ w.overlaySize + writes l
  size₂ : w₂'.overlaySize ≤ w₂.overlaySize + writes l

def storeCoupling : Coupling Action World where
  Keep _ _ := True
  Before w w₂ l _ := Separable w w₂ l
  After := Rejoined

namespace storeCoupling

theorem composes : storeCoupling.Composes where
  keep_refl _ := trivial
  keep_trans _ _ _ _ _ := trivial
  after_refl _ _ h := ⟨h.alike, Nat.le_add_right _ _, Nat.le_add_right _ _⟩
  before_left a a₂ l b l' c h _ := by
    have hle : writes l ≤ writes (l ++ l') := by
      rw [writes_append]
      exact Nat.le_add_right _ _
    have hids := h.noIds
    rw [objectRequests, List.filterMap_append, List.append_eq_nil_iff] at hids
    exact ⟨h.alike, h.room.mono hle, h.room₂.mono hle, hids.1⟩
  before_right a a₂ l b b₂ l' c h hafter := by
    have hids := h.noIds
    rw [objectRequests, List.filterMap_append, List.append_eq_nil_iff] at hids
    obtain ⟨-, hroom, hroom₂, -⟩ := h
    unfold World.HasRoom at hroom hroom₂
    rw [writes_append] at hroom hroom₂
    have hsize := hafter.size
    have hsize₂ := hafter.size₂
    refine ⟨hafter.alike, ?_, ?_, hids.2⟩ <;> unfold World.HasRoom <;> omega
  after_trans a a₂ l b b₂ l' c c₂ h h' := by
    have hsize := h.size
    have hsize₂ := h.size₂
    have hsize' := h'.size
    have hsize₂' := h'.size₂
    refine ⟨h'.alike, ?_, ?_⟩ <;> rw [writes_append] <;> omega

theorem undoRule : UndoRule storeCoupling where
  keep_checkpoint _ := trivial
  before_checkpoint h := ⟨⟨h.alike.lookup, h.alike.events, h.alike.gasCounter⟩, h.room, h.room₂,
    h.noIds⟩
  after_checkpoint h := ⟨h.alike, h.size, h.size₂⟩
  keep_rollback _ := trivial
  before_rollback h := h
  after_rollback {w w₂ w' w₂' l} hext hext₂ hbefore hafter := by
    refine ⟨⟨?_, hbefore.alike.events, hafter.alike.gasCounter⟩, Nat.le_add_right _ _,
      Nat.le_add_right _ _⟩
    have hlookup := (ExecutionState.SameExceptMetrics.rollback hext).lookup
    have hlookup₂ := (ExecutionState.SameExceptMetrics.rollback hext₂).lookup
    exact hlookup₂.trans (hbefore.alike.lookup.trans hlookup.symm)

/-! ### Operations that write nothing -/

section

variable {α : Type}

/-- Two runs from worlds with the same logical store that leave the overlays as they are. -/
def Still (m m₂ : Run α) : Prop :=
  ∀ ⦃w r w'⦄, m w = .done (r, w') → w'.overlaySize = w.overlaySize ∧
    ∀ w₂, w.Alike w₂ → ∃ w₂', m₂ w₂ = .done (r, w₂') ∧ w'.Alike w₂' ∧
      w₂'.overlaySize = w₂.overlaySize

theorem couples_still {m m₂ : Traced α} (hm : Still m.exec m₂.exec) :
    storeCoupling.Couples m m₂ := by
  intro w r w' h
  obtain ⟨hsize, hfollow⟩ := hm h
  refine ⟨trivial, fun w₂ hbefore => ?_⟩
  obtain ⟨w₂', hdone, halike, hsize₂⟩ := hfollow w₂ hbefore.alike
  exact ⟨w₂', hdone, halike, hsize ▸ Nat.le_add_right _ _, hsize₂ ▸ Nat.le_add_right _ _⟩

theorem still_of_history {m m₂ : Run Unit}
    (hm : ∀ w, ∃ history, m w = .done (.ok (), { w with history }))
    (hm₂ : ∀ w, ∃ history, m₂ w = .done (.ok (), { w with history })) : Still m m₂ := by
  intro w r w' h
  obtain ⟨history, hdone⟩ := hm w
  rw [hdone] at h
  cases h
  refine ⟨rfl, fun w₂ halike => ?_⟩
  obtain ⟨history₂, hdone₂⟩ := hm₂ w₂
  exact ⟨_, hdone₂, ⟨halike.lookup, halike.events, halike.gasCounter⟩, rfl⟩

theorem still_get (key : Bytes) : Still (Run.get key) (Run.get key) := by
  rintro w _ _ ⟨⟩
  refine ⟨rfl, fun w₂ halike => ⟨w₂.countRead, ?_, ⟨halike.lookup, halike.events,
    halike.gasCounter⟩, rfl⟩⟩
  show Outcome.done (w₂.storage.lookup key, w₂.countRead) = _
  rw [halike.lookup]
  rfl

theorem still_charge (charge : StorageGasConfig → UInt64) (size : UInt64) :
    Still (Run.charge (·.consumeStorageGas charge size))
      (Run.charge (·.consumeStorageGas charge size)) := by
  intro w r w' h
  simp only [Run.charge] at h ⊢
  cases hcharge : w.gasCounter.consumeStorageGas charge size with
  | error e =>
    rw [hcharge] at h
    cases h
    refine ⟨rfl, fun w₂ halike => ⟨w₂, ?_, halike, rfl⟩⟩
    rw [halike.gasCounter, hcharge]
  | ok c =>
    rw [hcharge] at h
    cases h
    refine ⟨rfl, fun w₂ halike => ⟨{ w₂ with gasCounter := c }, ?_, ⟨halike.lookup, halike.events,
      rfl⟩, rfl⟩⟩
    rw [halike.gasCounter, hcharge]

theorem still_gasUsed : Still Run.gasUsed Run.gasUsed := by
  rintro w _ _ ⟨⟩
  refine ⟨rfl, fun w₂ halike => ⟨w₂, ?_, halike, rfl⟩⟩
  show Outcome.done (Except.ok w₂.gasCounter.gasUsed, w₂) = _
  rw [halike.gasCounter]

theorem still_popEvents : Still Run.popEvents Run.popEvents := by
  rintro w _ _ ⟨⟩
  refine ⟨rfl, fun w₂ halike => ⟨{ w₂ with storage := w₂.storage.popEvents.2 }, ?_,
    ⟨halike.lookup, rfl, halike.gasCounter⟩, rfl⟩⟩
  show Outcome.done (Except.ok w₂.storage.events, _) = _
  rw [halike.events]
  rfl

theorem still_emitEvent (event : Event) :
    Still (Run.update (·.emitEvent event)) (Run.update (·.emitEvent event)) := by
  intro w r w' h
  by_cases hfull : w.storage.events.length ≥ maxEventsPerExecution
  · have hrefused : ∀ w₂ : World, w.Alike w₂ →
        Run.update (·.emitEvent event) w₂ = .done (.error errTooManyEvents, w₂) := by
      intro w₂ halike
      rw [← halike.events] at hfull
      exact update_error (if_pos hfull)
    cases (hrefused w ⟨rfl, rfl, rfl⟩).symm.trans h
    exact ⟨rfl, fun w₂ halike => ⟨w₂, hrefused w₂ halike, halike, rfl⟩⟩
  · have hemitted : ∀ w₂ : World, w.Alike w₂ →
        Run.update (·.emitEvent event) w₂ = .done (.ok (), { w₂ with storage := { w₂.storage with
          events := w.storage.events ++ [event]
          metrics := { w₂.storage.metrics with
            eventsEmitted := w₂.storage.metrics.eventsEmitted + 1 } } }) := by
      intro w₂ halike
      rw [← halike.events] at hfull ⊢
      exact update_ok (if_neg hfull)
    cases (hemitted w ⟨rfl, rfl, rfl⟩).symm.trans h
    exact ⟨rfl, fun w₂ halike => ⟨_, hemitted w₂ halike, ⟨halike.lookup, rfl, halike.gasCounter⟩,
      rfl⟩⟩

end

/-! ### Writes -/

/-- An operation that writes one entry wherever the overlay has room for it, or is always
refused. -/
def WritesEntry (key : Bytes) (entry : Option Message)
    (f : ExecutionState → SdkResult ExecutionState) : Prop :=
  (∃ e, ∀ s, f s = .error e) ∨
    ∀ s : ExecutionState, s.overlay.size < maxOverlayEntries →
      ∃ change, f s = .ok (s.record key entry change)

theorem write_of_room {s : ExecutionState} (hroom : s.overlay.size < maxOverlayEntries)
    (key : Bytes) (entry : Option Message)
    (change : Bytes → Bool → Option (Option Message) → StateChange) :
    ∃ c, s.write key entry change = .ok (s.record key entry c) := by
  unfold ExecutionState.write
  split
  · exact ⟨_, rfl⟩
  · rw [if_neg (Nat.not_le.mpr hroom)]
    exact ⟨_, rfl⟩

theorem writesEntry_set (key : Bytes) (value : Message) :
    WritesEntry key (some value) (·.set key value) := by
  by_cases hkey : key.length > maxKeySize
  · exact .inl ⟨errKeyTooLarge, fun s => if_pos hkey⟩
  · by_cases hvalue : value.length > maxValueSize
    · exact .inl ⟨errValueTooLarge, fun s => (if_neg hkey).trans (if_pos hvalue)⟩
    · refine .inr fun s hroom => ?_
      obtain ⟨change, hwrite⟩ := write_of_room hroom key (some value) .set
      exact ⟨change, (if_neg hkey).trans ((if_neg hvalue).trans hwrite)⟩

theorem writesEntry_remove (key : Bytes) : WritesEntry key none (·.remove key) := by
  by_cases hkey : key.length > maxKeySize
  · exact .inl ⟨errKeyTooLarge, fun s => if_pos hkey⟩
  · refine .inr fun s hroom => ?_
    obtain ⟨change, hwrite⟩ := write_of_room hroom key none .remove
    exact ⟨change, (if_neg hkey).trans hwrite⟩

/-- What a run of at most one write does to the size of the overlay. -/
def GrowsBy (r : SdkResult Unit) (w w' : World) : Prop :=
  w'.overlaySize ≤ w.overlaySize + if r.toOption.isSome then 1 else 0

/-- A computation that makes at most one write, and does so from worlds with the same logical
store. -/
def WritesAlike (m : Run Unit) : Prop :=
  ∀ ⦃w r w'⦄, m w = .done (r, w') → ∀ w₂, w.Alike w₂ → w.HasRoom 0 → w₂.HasRoom 0 →
    ∃ w₂', m w₂ = .done (r, w₂') ∧ w'.Alike w₂' ∧ GrowsBy r w w' ∧ GrowsBy r w₂ w₂'

theorem alike_record {w w₂ : World} (h : w.Alike w₂) (key : Bytes) (entry : Option Message)
    (change change₂ : StateChange) :
    World.Alike { w with storage := w.storage.record key entry change }
      { w₂ with storage := w₂.storage.record key entry change₂ } := by
  refine ⟨funext fun k => ?_, h.events, h.gasCounter⟩
  show (w₂.storage.record key entry change₂).lookup k = (w.storage.record key entry change).lookup k
  rw [ExecutionState.lookup_record, ExecutionState.lookup_record, h.lookup]

theorem growsBy_record (w : World) (key : Bytes) (entry : Option Message) (change : StateChange) :
    GrowsBy (.ok ()) w { w with storage := w.storage.record key entry change } :=
  ExtTreeMap.size_insert_le

theorem writesAlike_update {key : Bytes} {entry : Option Message}
    {f : ExecutionState → SdkResult ExecutionState} (hf : WritesEntry key entry f) :
    WritesAlike (Run.update f) := by
  intro w r w' h w₂ halike hroom hroom₂
  rcases hf with ⟨e, hrefused⟩ | hwrite
  · cases (update_error (hrefused w.storage)).symm.trans h
    exact ⟨w₂, update_error (hrefused _), halike, Nat.le_refl _, Nat.le_refl _⟩
  · obtain ⟨change, hchange⟩ := hwrite w.storage hroom
    obtain ⟨change₂, hchange₂⟩ := hwrite w₂.storage hroom₂
    cases (update_ok hchange).symm.trans h
    exact ⟨_, update_ok hchange₂, alike_record halike _ _ _ _, growsBy_record _ _ _ _,
      growsBy_record _ _ _ _⟩

theorem writesAlike_charged {charge : StorageGasConfig → UInt64} {size : UInt64} {m : Run Unit}
    (hm : WritesAlike m) :
    WritesAlike (do
      Run.charge (·.consumeStorageGas charge size)
      m) := by
  intro w r w' h w₂ halike hroom hroom₂
  rcases Exec.bind_done.mp h with ⟨_, w₁, hcharge, hrest⟩ | ⟨e, hcharge, rfl⟩
  · obtain ⟨hsize, hfollow⟩ := still_charge charge size hcharge
    obtain ⟨v, hcharge₂, halike, hsize₂⟩ := hfollow w₂ halike
    rw [World.HasRoom, ← hsize] at hroom
    rw [World.HasRoom, ← hsize₂] at hroom₂
    obtain ⟨w₂', hrest₂, halike', hgrows, hgrows₂⟩ := hm hrest v halike hroom hroom₂
    rw [GrowsBy, hsize] at hgrows
    rw [GrowsBy, hsize₂] at hgrows₂
    exact ⟨w₂', Exec.bind_done.mpr (.inl ⟨_, v, hcharge₂, hrest₂⟩), halike', hgrows, hgrows₂⟩
  · obtain ⟨hsize, hfollow⟩ := still_charge charge size hcharge
    obtain ⟨w₂', hcharge₂, halike', hsize₂⟩ := hfollow w₂ halike
    exact ⟨w₂', Exec.bind_done.mpr (.inr ⟨e, hcharge₂, rfl⟩), halike', hsize.le, hsize₂.le⟩

/-- A write that is noted once it has succeeded. -/
theorem couples_noteWrite {m : Run Unit} (hm : WritesAlike m) (stack : Stack) (key : Bytes)
    (entry : Option Message) :
    storeCoupling.Couples (Logged.observe (Traced.noteWrite stack key entry) m)
      (Logged.observe (Traced.noteWrite stack key entry) m) := by
  intro w r w' h
  rw [Logged.exec_observe] at h
  refine ⟨trivial, fun w₂ hbefore => ?_⟩
  have hlog : writes ((Logged.observe (Traced.noteWrite stack key entry) m).log w) =
      if r.toOption.isSome then 1 else 0 := by
    rw [Logged.log_observe h]
    cases r <;> rfl
  obtain ⟨w₂', hdone, halike, hgrows, hgrows₂⟩ := hm h w₂ hbefore.alike
    (hbefore.room.mono (Nat.zero_le _)) (hbefore.room₂.mono (Nat.zero_le _))
  exact ⟨w₂', hdone, halike, hlog ▸ hgrows, hlog ▸ hgrows₂⟩

/-- Every call and every transaction that asks for no unique id does the same from both worlds. -/
theorem callCongruence :
    CallCongruence (fun _ => True) fun _ m m₂ => storeCoupling.Couples m m₂ where
  ofExcept := composes.ofExcept
  bind := composes.bind
  attempt := .attempt
  begins _ _ := couples_still (still_of_history (fun _ => ⟨_, rfl⟩) fun _ => ⟨_, rfl⟩)
  get key := couples_still (still_get key)
  charge charge size := couples_still (still_charge charge size)
  set stack key value := couples_noteWrite (writesAlike_update (writesEntry_set key value)) _ _ _
  chargedSet stack key value :=
    couples_noteWrite (writesAlike_charged (writesAlike_update (writesEntry_set key value))) _ _ _
  chargedRemove stack key :=
    couples_noteWrite (writesAlike_charged (writesAlike_update (writesEntry_remove key))) _ _ _
  readStorage := Coupling.couples_read
  note _ _ := couples_still (still_of_history (fun _ => ⟨_, rfl⟩) fun _ => ⟨_, rfl⟩)
  gasUsed := couples_still still_gasUsed
  emitEvent _ frame name data := by
    refine composes.bind (couples_still
      (still_of_history (fun _ => ⟨_, rfl⟩) fun _ => ⟨_, rfl⟩)) fun _ => ?_
    unfold Invoker.emitEvent
    rw [Logged.lift_bind]
    exact composes.bind (composes.ofExcept _) fun _ => couples_still (still_emitEvent _)
  uniqueId stack frame _ := by
    refine fun w r w' _ => ⟨trivial, fun w₂ hbefore => ?_⟩
    cases hbefore.noIds
  outOfFuel := @fun _ => Coupling.outOfFuel _
  orRollback := undoRule.couples_orRollback
  popEvents := couples_still still_popEvents

end storeCoupling

/-! ### Transactions -/

section

variable {Tx Block : Type} [Transaction Tx] {host : Host} {fuel : Nat} {stf : Stf Tx Block}
  {tx : Tx} {block : BlockContext} {w w' : World} {result : TxResult}

/-- The writes that a transaction makes, those that are rolled back included. -/
def txWrites (host : Host) (fuel : Nat) (stf : Stf Tx Block) (tx : Tx) (block : BlockContext)
    (w : World) : Nat :=
  writes ((Traced.applyTx host fuel stf tx block).log w)

theorem applyTx_follows (h : stf.applyTx host fuel tx block w = .done (.ok result, w'))
    (hids : objectRequests ((Traced.applyTx host fuel stf tx block).log w) = [])
    (hroom : w.HasRoom (txWrites host fuel stf tx block w)) {w₂ : World}
    (hlookup : w₂.storage.lookup = w.storage.lookup)
    (hevents : w₂.storage.events = w.storage.events)
    (hroom₂ : w₂.HasRoom (txWrites host fuel stf tx block w)) :
    ∃ w₂', stf.applyTx host fuel tx block w₂ = .done (.ok result, w₂') ∧
      w₂'.storage.lookup = w'.storage.lookup := by
  have hcouples : storeCoupling.Couples (Traced.meteredTx host fuel stf tx block)
      (Traced.meteredTx host fuel stf tx block) :=
    storeCoupling.callCongruence.meteredTx trivial trivial
  have hexec : (Traced.meteredTx host fuel stf tx block).exec = stf.meteredTx host fuel tx block :=
    Parts.exec_meteredTx (BlockPart.exec_traced host fuel stf) tx block
  have hmetered : (Traced.meteredTx host fuel stf tx block).exec (stf.metered tx w) =
      .done (.ok result, w') := by
    rw [hexec]
    exact h
  obtain ⟨w₂', hdone, hafter⟩ := (hcouples hmetered).2 (stf.metered tx w₂)
    ⟨⟨hlookup, hevents, rfl⟩, hroom, hroom₂, hids⟩
  rw [hexec] at hdone
  exact ⟨w₂', hdone, hafter.alike.lookup⟩

/-- The world of the next block, once the changes are committed to the base. -/
def World.committed (w : World) : World :=
  { w with
    storage := .new (ExecutionState.applyChanges w.storage.baseStorage w.storage.intoChanges) }

theorem lookup_committed (w : World) : w.committed.storage.lookup = w.storage.lookup := by
  funext key
  have hempty : w.committed.storage.overlay[key]? = none := ExtTreeMap.getElem?_empty
  rw [ExecutionState.lookup, hempty]
  exact ExecutionState.applyChanges_changesOf
    (ExecutionState.enumerates_toList w.storage.overlay) key

/-- For all account codes, transactions and states with no events, where the overlay leaves room for
what the transaction writes and the transaction asks for no unique id: it has the same result from
every state with the same logical store and no events, in particular from the state after a commit,
and the logical stores are the same again after it. -/
theorem applyTx_split_independent (hevents : w.storage.events = [])
    (h : stf.applyTx host fuel tx block w = .done (.ok result, w'))
    (hids : objectRequests ((Traced.applyTx host fuel stf tx block).log w) = [])
    (hroom : w.HasRoom (txWrites host fuel stf tx block w)) :
    (∀ w₂ : World, w₂.storage.lookup = w.storage.lookup → w₂.storage.events = [] →
      w₂.HasRoom (txWrites host fuel stf tx block w) →
      ∃ w₂', stf.applyTx host fuel tx block w₂ = .done (.ok result, w₂') ∧
        w₂'.storage.lookup = w'.storage.lookup) ∧
    ∃ w₂', stf.applyTx host fuel tx block w.committed = .done (.ok result, w₂') ∧
      w₂'.storage.lookup = w'.storage.lookup := by
  have hfollows : ∀ w₂ : World, w₂.storage.lookup = w.storage.lookup → w₂.storage.events = [] →
      w₂.HasRoom (txWrites host fuel stf tx block w) →
      ∃ w₂', stf.applyTx host fuel tx block w₂ = .done (.ok result, w₂') ∧
        w₂'.storage.lookup = w'.storage.lookup := fun w₂ hlookup hevents₂ hroom₂ =>
    applyTx_follows h hids hroom hlookup (hevents₂.trans hevents.symm) hroom₂
  refine ⟨hfollows, hfollows w.committed (lookup_committed w) rfl ?_⟩
  exact Nat.lt_of_le_of_lt (Nat.add_le_add_right (Nat.zero_le _) _) hroom

end

/-! ### A state with changes that are not committed -/

/-- The sample world with a value in the overlay. -/
def overlaidWorld : World :=
  { sampleWorld with
    storage := { sampleWorld.storage with
      overlay := (∅ : Overlay).insert (Invoker.accountStorageKey (.fromU64 10) [7]) (some [9]) } }

def recordTx : TestTx := ⟨.fromU64 200, .fromU64 10, Invoker.initRequest [], 1000, [], none⟩

theorem recordTx_ends :
    Exec.Ends (testStf.applyTx sampleHost 3 recordTx ⟨1, 0⟩)
      (fun r _ => r.toOption.any (fun result =>
        result.response.toOption.isSome && result.events.length == 1) = true) overlaidWorld := by
  decide +kernel

theorem applyTx_split_independent_record :
    ∃ result w' w₂',
      testStf.applyTx sampleHost 3 recordTx ⟨1, 0⟩ overlaidWorld = .done (.ok result, w') ∧
      result.response.toOption.isSome ∧ result.events.length = 1 ∧
      testStf.applyTx sampleHost 3 recordTx ⟨1, 0⟩ overlaidWorld.committed =
        .done (.ok result, w₂') ∧
      w₂'.storage.lookup = w'.storage.lookup := by
  have hids : (objectRequests
      ((Traced.applyTx sampleHost 3 testStf recordTx ⟨1, 0⟩).log overlaidWorld)).isEmpty := by
    decide +kernel
  have hroom : overlaidWorld.overlaySize + txWrites sampleHost 3 testStf recordTx ⟨1, 0⟩
      overlaidWorld < maxOverlayEntries := by decide +kernel
  obtain ⟨r, w', hdone, hr⟩ := recordTx_ends.exists
  cases r with
  | error e => cases hr
  | ok result =>
    simp only [Except.toOption, Option.any_some, Bool.and_eq_true, beq_iff_eq] at hr
    obtain ⟨w₂', hdone₂, hlookup⟩ :=
      (applyTx_split_independent rfl hdone (List.isEmpty_iff.mp hids) hroom).2
    exact ⟨result, w', w₂', hdone, hr.1, hr.2, hdone₂, hlookup⟩

end Evolve
