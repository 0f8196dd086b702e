import Mathlib
import Evolve.Storage.Cache

/-! The storage under calls that run one after the other.  Whatever the cache holds, is filled with
or gives up, every read answers what a plain map from keys to values holds, into which the batches
that were accepted are folded. -/

namespace Evolve.Storage

open Machine Interleave

abbrev KeyValues := Bytes → Option Bytes

def Operation.applyTo (m : KeyValues) (op : Operation) : KeyValues :=
  Function.update m op.key op.value

/-- What a database holds under the keys that it can hold. -/
def KeyValues.ofDb (db : StorageKey → Option Bytes) : KeyValues := fun key =>
  match createStorageKey key with
  | .ok storageKey => db storageKey
  | .error _ => none

/-- The map after a sequence of calls, the last one first: batches that were accepted are folded
into it, and no other call changes it. -/
def stored (initial : KeyValues) : List (Call × Answer) → KeyValues
  | [] => initial
  | (.applyBatch operations, .applied (.ok _)) :: history =>
    operations.foldl Operation.applyTo (stored initial history)
  | _ :: history => stored initial history

/-- A read that succeeds answers what the map holds. -/
def Answers (m : KeyValues) (answer : Answer) : Call → Prop
  | .get key => ∀ value, answer = .value (.ok value) → value = m key
  | .getAsync key => ∀ value, answer = .value (.ok value) → value = m key
  | .getMany keys => ∀ values, answer = .values (.ok values) → values = keys.map m
  | _ => True

/-! ### Between calls -/

/-- Between calls, the database holds what the map holds, and the cache what the database holds. -/
structure Mirrors (m : KeyValues) (s : Shared) : Prop where
  db : ∀ {key storageKey}, createStorageKey key = .ok storageKey → s.db storageKey = m key
  entries : ∀ key cached, s.cache.get key = some cached → Agrees s.db key cached.value

theorem mirrors_opened (db : StorageKey → Option Bytes) :
    Mirrors (.ofDb db) ⟨db, .withDefaults, false⟩ where
  db h := by rw [KeyValues.ofDb, h]
  entries _ _ h := by cases h

theorem Agrees.eq {m : KeyValues} {s : Shared} (h : Mirrors m s) {key : Bytes}
    {value : Option Bytes} (hagrees : Agrees s.db key value) : value = m key := by
  obtain ⟨storageKey, hcreated, hvalue⟩ := hagrees
  rw [← hvalue, h.db hcreated]

theorem coherent_alone {choice : Choice} {s s' : Shared} {call : Call}
    {progress : Progress Call Answer} (h : Coherent (⟨s, fun _ => some call⟩ : Storages Unit))
    (hstep : step choice s call = some (s', progress)) :
    Coherent (⟨s', fun _ => progress.rest⟩ : Storages Unit) := by
  have hquiet : Quiet (⟨s, fun _ => some call⟩ : Storages Unit) () call := by
    cases call with
    | commit batch prepared =>
      rintro _ _ ⟨⟩ p hp
      cases hp
    | _ => trivial
  have hrun := coherent_run h rfl hquiet (effect_of_step hstep)
  have hput : (⟨s, fun _ => some call⟩ : Storages Unit).put () progress.rest s' =
      ⟨s', fun _ => progress.rest⟩ :=
    congrArg (Config.mk s') (funext fun _ => Function.update_self ..)
  rwa [hput] at hrun

/-- A call that runs alone leaves in the cache only what is in the database. -/
theorem entries_of_completes {s s' : Shared} {call : Call} {answer : Answer}
    (hentries : ∀ key cached, s.cache.get key = some cached → Agrees s.db key cached.value)
    (hstarts : call.starts = true) (h : Completes step s call s' answer) :
    ∀ key cached, s'.cache.get key = some cached → Agrees s'.db key cached.value := by
  have hstart : Coherent (⟨s, fun _ => some call⟩ : Storages Unit) := by
    refine ⟨fun _ _ hcall => ?_, fun key cached hget => .inl (hentries key cached hget)⟩
    cases hcall
    rw [pending_of_starts hstarts]
    rintro p ⟨⟩
  have hend : Coherent (⟨s', fun _ => none⟩ : Storages Unit) :=
    h.invariant (fun call s => Coherent (⟨s, fun _ => call⟩ : Storages Unit))
      (fun _ _ _ _ _ => coherent_alone) hstart
  intro key cached hget
  rcases hend.entries key cached hget with hagrees | ⟨_, _, ⟨⟩, _⟩
  exact hagrees

/-! ### Reads -/

section

variable {s s' : Shared} {answer : Answer} {key : Bytes} {m : KeyValues}

theorem completes_getFill {value : Option Bytes}
    (h : Completes step s (.getFill key value) s' answer) :
    s'.db = s.db ∧ answer = .value (.ok value) := by
  refine h.step_rule ?_
  rintro _ _ _ ⟨⟩
  exact ⟨rfl, rfl⟩

theorem completes_getMiss (h : Completes step s (.getMiss key) s' answer) :
    s'.db = s.db ∧ ∀ value, answer = .value (.ok value) → Agrees s.db key value := by
  refine h.step_rule fun choice s₁ progress hstep => ?_
  obtain ⟨result, hread, hresult⟩ := Option.map_eq_some_iff.mp hstep
  cases result with
  | error code =>
    cases hresult
    exact ⟨rfl, by rintro value ⟨⟩⟩
  | ok value =>
    cases hresult
    intro hfill
    obtain ⟨hdb, rfl⟩ := completes_getFill hfill
    refine ⟨hdb, ?_⟩
    rintro _ ⟨⟩
    exact agrees_of_readDb hread

theorem completes_getAsyncMiss (h : Completes step s (.getAsyncMiss key) s' answer) :
    s'.db = s.db ∧ ∀ value, answer = .value (.ok value) → Agrees s.db key value := by
  refine h.step_rule fun choice s₁ progress hstep => ?_
  obtain ⟨result, hread, hresult⟩ := Option.map_eq_some_iff.mp hstep
  cases hresult
  refine ⟨rfl, ?_⟩
  rintro _ ⟨⟩
  exact agrees_of_readDb hread

/-- A hit answers what is in the cache, and a miss what the rest of the call answers. -/
theorem completes_cached {call miss : Call}
    (hcall : ∀ choice, step choice s call = match s.cache.get key with
      | some cached => some (s, .returns (.value (.ok cached.value)))
      | none => some (s, .next miss))
    (hmiss : Completes step s miss s' answer →
      s'.db = s.db ∧ ∀ value, answer = .value (.ok value) → Agrees s.db key value)
    (h : Completes step s call s' answer) :
    s'.db = s.db ∧ ∀ value, answer = .value (.ok value) → Agrees s.db key value ∨
      ∃ cached, s.cache.get key = some cached ∧ value = cached.value := by
  refine h.step_rule fun choice s₁ progress hstep => ?_
  rw [hcall] at hstep
  split at hstep
  · rename_i cached hget
    cases hstep
    refine ⟨rfl, ?_⟩
    rintro _ ⟨⟩
    exact .inr ⟨cached, hget, rfl⟩
  · cases hstep
    intro hrest
    obtain ⟨hdb, hvalue⟩ := hmiss hrest
    exact ⟨hdb, fun value hanswer => .inl (hvalue value hanswer)⟩

theorem completes_get (h : Completes step s (.get key) s' answer) :
    s'.db = s.db ∧ ∀ value, answer = .value (.ok value) → Agrees s.db key value ∨
      ∃ cached, s.cache.get key = some cached ∧ value = cached.value :=
  completes_cached (fun _ => rfl) completes_getMiss h

theorem completes_getAsync (h : Completes step s (.getAsync key) s' answer) :
    s'.db = s.db ∧ ∀ value, answer = .value (.ok value) → Agrees s.db key value ∨
      ∃ cached, s.cache.get key = some cached ∧ value = cached.value :=
  completes_cached (fun _ => rfl) completes_getAsyncMiss h

/-! ### Reads of several keys -/

theorem completes_getManyFill {fills : List (Bytes × Option Bytes)} {results : List (Option Bytes)}
    (h : Completes step s (.getManyFill fills results) s' answer) :
    s'.db = s.db ∧ answer = .values (.ok results) := by
  induction fills generalizing s with
  | nil =>
    refine h.step_rule ?_
    rintro _ _ _ ⟨⟩
    exact ⟨rfl, rfl⟩
  | cons fill fills ih =>
    refine h.step_rule ?_
    rintro _ _ _ ⟨⟩ hrest
    obtain ⟨hdb, hanswer⟩ := ih hrest
    exact ⟨hdb, hanswer⟩

theorem completes_getManyMiss {slots : List Slot}
    (h : Completes step s (.getManyMiss slots) s' answer) :
    s'.db = s.db ∧ ∀ values, answer = .values (.ok values) →
      values = slots.map (Slot.value s.db) := by
  refine h.step_rule fun choice s₁ progress hstep => ?_
  dsimp only [step] at hstep
  split at hstep
  · cases hstep
    exact ⟨rfl, by rintro values ⟨⟩⟩
  · split at hstep
    · cases hstep
    · cases hstep
      intro hfill
      obtain ⟨hdb, rfl⟩ := completes_getManyFill hfill
      exact ⟨hdb, by rintro values ⟨⟩; rfl⟩

theorem completes_getManyScan (hs : Mirrors m s) {keys : List Bytes} {slots : List Slot}
    (h : Completes step s (.getManyScan keys slots) s' answer) :
    s'.db = s.db ∧ ∀ values, answer = .values (.ok values) →
      values = slots.map (Slot.value s.db) ++ keys.map m := by
  induction keys generalizing slots with
  | nil =>
    refine h.step_rule fun choice s₁ progress hstep => ?_
    dsimp only [step] at hstep
    rw [List.map_nil, List.append_nil]
    split at hstep
    · cases hstep
      intro hmiss
      exact completes_getManyMiss hmiss
    · cases hstep
      exact ⟨rfl, by rintro values ⟨⟩; rfl⟩
  | cons key keys ih =>
    -- a slot that is added has the value of its key
    have hslot : ∀ slot : Slot, slot.value s.db = m key →
        Completes step s (.getManyScan keys (slots ++ [slot])) s' answer →
        s'.db = s.db ∧ ∀ values, answer = .values (.ok values) →
          values = slots.map (Slot.value s.db) ++ (key :: keys).map m := by
      intro slot hvalue hscan
      obtain ⟨hdb, hvalues⟩ := ih hscan
      refine ⟨hdb, fun values hanswer => (hvalues values hanswer).trans ?_⟩
      rw [List.map_append, List.map_singleton, hvalue, List.append_assoc, List.singleton_append,
        List.map_cons]
    refine h.step_rule fun choice s₁ progress hstep => ?_
    dsimp only [step] at hstep
    split at hstep
    · rename_i cached hget
      cases hstep
      intro hscan
      exact hslot (.hit cached.value) ((hs.entries key cached hget).eq hs) hscan
    · split at hstep
      · cases hstep
        exact ⟨rfl, by rintro values ⟨⟩⟩
      · rename_i storageKey hcreated
        cases hstep
        intro hscan
        exact hslot (.miss ⟨key, storageKey, hcreated⟩) (hs.db hcreated) hscan

theorem completes_getMany (hs : Mirrors m s) {keys : List Bytes}
    (h : Completes step s (.getMany keys) s' answer) :
    s'.db = s.db ∧ ∀ values, answer = .values (.ok values) → values = keys.map m := by
  refine h.step_rule fun choice s₁ progress hstep => ?_
  dsimp only [step] at hstep
  split at hstep
  · cases hstep
    exact ⟨rfl, by rintro values ⟨⟩⟩
  · split at hstep
    · cases hstep
      exact ⟨rfl, by rintro values ⟨⟩⟩
    · split at hstep
      · rename_i hempty
        cases hstep
        refine ⟨rfl, ?_⟩
        rintro values ⟨⟩
        rw [List.isEmpty_iff.mp hempty]
        rfl
      · cases hstep
        intro hscan
        exact completes_getManyScan hs hscan

/-! ### Batches -/

theorem completes_invalidate {keys : List Bytes}
    (h : Completes step s (.invalidate keys) s' answer) :
    s'.db = s.db ∧ answer = .applied (.ok ()) := by
  induction keys generalizing s with
  | nil =>
    refine h.step_rule ?_
    rintro _ _ _ ⟨⟩
    exact ⟨rfl, rfl⟩
  | cons key keys ih =>
    refine h.step_rule ?_
    rintro _ _ _ ⟨⟩ hrest
    obtain ⟨hdb, hanswer⟩ := ih hrest
    exact ⟨hdb, hanswer⟩

/-- A batch is written as a whole, or it is rejected and changes nothing in the database. -/
theorem completes_applyBatch {operations : List Operation}
    (h : Completes step s (.applyBatch operations) s' answer) :
    (∃ batch, prepareBatch operations = .ok batch ∧ answer = .applied (.ok ()) ∧
      s'.db = applyUpdates s.db batch.updates) ∨
      (∃ e, answer = .applied (.error e)) ∧ s'.db = s.db := by
  refine h.step_rule fun choice s₁ progress hstep => ?_
  dsimp only [step] at hstep
  split at hstep
  · cases hstep
    exact .inr ⟨⟨_, rfl⟩, rfl⟩
  · rename_i batch hbatch
    split at hstep
    · rename_i hempty
      cases hstep
      refine .inl ⟨batch, hbatch, rfl, ?_⟩
      rw [List.isEmpty_iff.mp hempty]
      rfl
    · cases hstep
      intro hcommit
      refine hcommit.step_rule fun choice s₁ progress hstep => ?_
      dsimp only [step] at hstep
      split at hstep
      · cases hstep
      · split at hstep
        · cases hstep
          exact .inr ⟨⟨_, rfl⟩, rfl⟩
        · cases hstep
          intro hinvalidate
          obtain ⟨hdb, hanswer⟩ := completes_invalidate hinvalidate
          exact .inl ⟨batch, hbatch, hanswer, hdb⟩

end

theorem applyUpdates_mirrors {operations : List Operation} {batch : PreparedBatch}
    (h : prepareBatch operations = .ok batch) {db : StorageKey → Option Bytes} {m : KeyValues}
    (hdb : ∀ {key storageKey}, createStorageKey key = .ok storageKey → db storageKey = m key)
    {key : Bytes} {storageKey : StorageKey} (hcreated : createStorageKey key = .ok storageKey) :
    applyUpdates db batch.updates storageKey = operations.foldl Operation.applyTo m key := by
  refine prepareBatch_induction (P := fun operations batch => ∀ {key storageKey},
    createStorageKey key = .ok storageKey →
      applyUpdates db batch.updates storageKey = operations.foldl Operation.applyTo m key)
    (fun _ => hdb) ?_ h hcreated
  intro operations op batch batch' ih hadd key storageKey hcreated
  obtain ⟨opKey, hopKey, hupdates, -⟩ := PreparedBatch.add_ok hadd
  rw [hupdates, applyUpdates, List.foldl_append, List.foldl_append]
  show Function.update (applyUpdates db batch.updates) opKey op.value storageKey =
    Function.update (operations.foldl Operation.applyTo m) op.key op.value key
  by_cases hkey : key = op.key
  · subst hkey
    cases hopKey.symm.trans hcreated
    rw [Function.update_self, Function.update_self]
  · have hne : storageKey ≠ opKey := by
      rintro rfl
      exact hkey (createStorageKey_inj hcreated hopKey)
    rw [Function.update_of_ne hne, Function.update_of_ne hkey, ih hcreated]

/-! ### Sequences of calls -/

/-- A call answers what the map holds, and leaves the storage with what the map holds after it. -/
theorem Mirrors.completes {initial : KeyValues} {history : List (Call × Answer)} {s s' : Shared}
    {call : Call} {answer : Answer} (hs : Mirrors (stored initial history) s)
    (hstarts : call.starts = true) (h : Completes step s call s' answer) :
    Answers (stored initial history) answer call ∧
      Mirrors (stored initial ((call, answer) :: history)) s' := by
  have hentries := entries_of_completes hs.entries hstarts h
  have hkept : s'.db = s.db → ∀ {key storageKey}, createStorageKey key = .ok storageKey →
      s'.db storageKey = stored initial history key := fun hdb _ _ hcreated => by
    rw [hdb]
    exact hs.db hcreated
  have hvalue : ∀ {key : Bytes} {value : Option Bytes}, (Agrees s.db key value ∨
      ∃ cached, s.cache.get key = some cached ∧ value = cached.value) →
        value = stored initial history key := by
    rintro key value (hagrees | ⟨cached, hget, rfl⟩)
    · exact hagrees.eq hs
    · exact (hs.entries key cached hget).eq hs
  cases call with
  | get key =>
    obtain ⟨hdb, hread⟩ := completes_get h
    exact ⟨fun value hanswer => hvalue (hread value hanswer), hkept hdb, hentries⟩
  | getAsync key =>
    obtain ⟨hdb, hread⟩ := completes_getAsync h
    exact ⟨fun value hanswer => hvalue (hread value hanswer), hkept hdb, hentries⟩
  | getMany keys =>
    obtain ⟨hdb, hread⟩ := completes_getMany hs h
    exact ⟨hread, hkept hdb, hentries⟩
  | applyBatch operations =>
    rcases completes_applyBatch h with ⟨batch, hbatch, rfl, hdb⟩ | ⟨⟨e, rfl⟩, hdb⟩
    · refine ⟨trivial, fun {key storageKey} hcreated => ?_, hentries⟩
      rw [hdb]
      exact applyUpdates_mirrors hbatch hs.db hcreated
    · exact ⟨trivial, hkept hdb, hentries⟩
  | _ => cases hstarts

/-- For every sequence of calls on one storage, over any database: every read that succeeds answers
what the map holds that the database held at first, with the batches folded in that were accepted
before the read. -/
theorem reads_refine_map (db : StorageKey → Option Bytes) {history : List (Call × Answer)}
    {s : Shared} (h : Sequential step (fun call => call.starts = true) ⟨db, .withDefaults, false⟩
      history s) {later earlier : List (Call × Answer)} {call : Call} {answer : Answer}
    (hsplit : history = later ++ (call, answer) :: earlier) :
    Answers (stored (.ofDb db) earlier) answer call := by
  have hmirrors : ∀ {history s}, Sequential step (fun call => call.starts = true)
      ⟨db, .withDefaults, false⟩ history s → Mirrors (stored (.ofDb db) history) s := by
    intro history s h
    induction h with
    | start => exact mirrors_opened db
    | call before starts completes ih => exact (ih.completes starts completes).2
  subst hsplit
  obtain ⟨s', hlast⟩ := h.earlier
  cases hlast with
  | call before starts completes => exact ((hmirrors before).completes starts completes).1

/-- A key that was cached as absent is stored. -/
def sampleCalls : List (Call × Answer) :=
  [(.getMany [[7], [7], [8]], .values (.ok [some [1], some [1], none])),
    (.applyBatch [.remove [7], .set [7] [1]], .applied (.ok ())),
    (.get [7], .value (.ok none))]

theorem reads_refine_map_sample :
    (∃ s, Sequential step (fun call => call.starts = true)
      ⟨fun _ => none, .withDefaults, false⟩ sampleCalls s) ∧
      [some [1], some [1], none] = [[7], [7], [8]].map (stored (.ofDb fun _ => none)
        sampleCalls.tail) := by
  have hplay : ((alone step noFault 3 ⟨fun _ => none, .withDefaults, false⟩ (.get [7])).any
      fun (s₁, answer) => decide (answer = .value (.ok none)) &&
        (alone step noFault 5 s₁ (.applyBatch [.remove [7], .set [7] [1]])).any
          fun (s₂, answer) => decide (answer = .applied (.ok ())) &&
            (alone step noFault 10 s₂ (.getMany [[7], [7], [8]])).any fun (_, answer) =>
              decide (answer = .values (.ok [some [1], some [1], none]))) = true := by
    decide +kernel
  simp only [Option.any_eq_true, Bool.and_eq_true, decide_eq_true_eq] at hplay
  obtain ⟨⟨s₁, _⟩, hget, rfl, ⟨s₂, _⟩, hbatch, rfl, ⟨s₃, _⟩, hmany, rfl⟩ := hplay
  have hrun : Sequential step (fun call => call.starts = true)
      ⟨fun _ => none, .withDefaults, false⟩ sampleCalls s₃ :=
    .call (.call (.call .start rfl (completes_of_alone hget)) rfl (completes_of_alone hbatch))
      rfl (completes_of_alone hmany)
  have hanswers : Answers (stored (.ofDb fun _ => none) sampleCalls.tail)
      (.values (.ok [some [1], some [1], none])) (.getMany [[7], [7], [8]]) :=
    reads_refine_map _ hrun (List.nil_append sampleCalls).symm
  exact ⟨⟨s₃, hrun⟩, hanswers _ rfl⟩

end Evolve.Storage
