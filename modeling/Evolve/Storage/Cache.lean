import Mathlib
import Evolve.Lib.Interleave
import Evolve.Lib.Lists
import Evolve.Storage.Batch

/-! The read cache of the storage.  Clones of one storage share a database behind a lock and a
sharded cache; their reads and batches run at the same time, one atomic step after another. -/

namespace Evolve.Storage

open Machine Interleave

/-! ### The cache -/

inductive CachedValue where
  | present (data : Bytes)
  | absent
deriving DecidableEq

def CachedValue.value : CachedValue → Option Bytes
  | .present data => some data
  | .absent => none

def CachedValue.ofValue : Option Bytes → CachedValue
  | some data => .present data
  | none => .absent

@[simp] theorem CachedValue.value_ofValue (value : Option Bytes) :
    (CachedValue.ofValue value).value = value := by
  cases value <;> rfl

/-- A map from keys to values, with one entry for each key. -/
structure CacheShard where
  entries : List (Bytes × CachedValue)
  maxEntries : Nat

namespace CacheShard

def get (shard : CacheShard) (key : Bytes) : Option CachedValue := shard.entries.lookup key

def invalidate (shard : CacheShard) (key : Bytes) : CacheShard :=
  { shard with entries := shard.entries.filter (·.1 ≠ key) }

/-- A full shard first gives up half of its entries, those that come first when the map lists its
keys.  The order in which it does so is given from outside. -/
def evict (shard : CacheShard) (order : List Bytes) : CacheShard :=
  if shard.entries.length ≥ shard.maxEntries then
    (order.take (shard.maxEntries / 2)).foldl invalidate shard
  else shard

def insert (shard : CacheShard) (order : List Bytes) (key : Bytes) (value : CachedValue) :
    CacheShard :=
  let shard := (shard.evict order).invalidate key
  { shard with entries := (key, value) :: shard.entries }

end CacheShard

def numShards : Nat := 256
def defaultMaxEntries : Nat := 16384

structure ShardedDbCache where
  shards : Fin numShards → CacheShard

namespace ShardedDbCache

def withDefaults : ShardedDbCache := ⟨fun _ => ⟨[], defaultMaxEntries / numShards⟩⟩

/-- The shard of a key is that of its first byte. -/
def shardIndex (key : Bytes) : Fin numShards := (key.head?.getD 0).toFin

def get (cache : ShardedDbCache) (key : Bytes) : Option CachedValue :=
  (cache.shards (shardIndex key)).get key

def insert (cache : ShardedDbCache) (order : List Bytes) (key : Bytes) (value : CachedValue) :
    ShardedDbCache :=
  ⟨Function.update cache.shards (shardIndex key)
    ((cache.shards (shardIndex key)).insert order key value)⟩

def invalidate (cache : ShardedDbCache) (key : Bytes) : ShardedDbCache :=
  ⟨Function.update cache.shards (shardIndex key) ((cache.shards (shardIndex key)).invalidate key)⟩

end ShardedDbCache

/-! ### The calls -/

/-- What the clones share.  `writing` is set while the write lock is held. -/
structure Shared where
  db : StorageKey → Option Bytes
  cache : ShardedDbCache
  writing : Bool

/-- What a step depends on from outside: the error with which the database or the runtime answers,
if it does, and the order of the keys in a shard. -/
structure Choice where
  fault : Option ErrorCode
  order : List Bytes

structure Miss where
  key : Bytes
  storageKey : StorageKey
  created : createStorageKey key = .ok storageKey

/-- What the scan of several keys has found for one of them. -/
inductive Slot where
  | hit (value : Option Bytes)
  | miss (m : Miss)

inductive BatchError where
  | prepare (error : StorageError)
  | qmdb (code : ErrorCode)
deriving DecidableEq

inductive Answer where
  | value (result : SdkResult (Option Bytes))
  | values (result : SdkResult (List (Option Bytes)))
  | applied (result : Except BatchError Unit)
deriving DecidableEq

/-- How far a call has come: what its next step does. -/
inductive Call where
  | get (key : Bytes)
  | getMiss (key : Bytes)
  | getFill (key : Bytes) (value : Option Bytes)
  | getAsync (key : Bytes)
  | getAsyncMiss (key : Bytes)
  | getMany (keys : List Bytes)
  | getManyScan (keys : List Bytes) (slots : List Slot)
  | getManyMiss (slots : List Slot)
  | getManyFill (fills : List (Bytes × Option Bytes)) (results : List (Option Bytes))
  | applyBatch (operations : List Operation)
  | commit (batch : PreparedBatch) (prepared : ∃ operations, prepareBatch operations = .ok batch)
  | invalidate (keys : List Bytes)

def StorageError.code : StorageError → ErrorCode
  | .key code => code
  | .valueTooLarge _ _ => errValueTooLarge

variable (db : StorageKey → Option Bytes)

namespace Slot

def isMiss : Slot → Bool
  | .hit _ => false
  | .miss _ => true

def value : Slot → Option Bytes
  | .hit value => value
  | .miss m => db m.storageKey

def fill? : Slot → Option (Bytes × Option Bytes)
  | .hit _ => none
  | .miss m => some (m.key, db m.storageKey)

end Slot

/-- The updates of a batch, in turn. -/
def applyUpdates (updates : List (StorageKey × Option Bytes)) : StorageKey → Option Bytes :=
  updates.foldl (fun db update => Function.update db update.1 update.2) db

/-- What a read of one key under the lock answers; nothing if the lock is not free. -/
def readDb (choice : Choice) (s : Shared) (key : Bytes) : Option (SdkResult (Option Bytes)) :=
  match choice.fault with
  | some code => some (.error code)
  | none =>
    match createStorageKey key with
    | .error e => some (.error e.code)
    | .ok storageKey => if s.writing then none else some (.ok (s.db storageKey))

/-- One atomic step of a call: a section under the lock of the database, or an operation of the
cache. -/
def step (choice : Choice) (s : Shared) : Call → Option (Shared × Progress Call Answer)
  | .get key =>
    match s.cache.get key with
    | some cached => some (s, .returns (.value (.ok cached.value)))
    | none => some (s, .next (.getMiss key))
  | .getMiss key =>
    (readDb choice s key).map fun
      | .ok value => (s, .next (.getFill key value))
      | .error code => (s, .returns (.value (.error code)))
  | .getFill key value =>
    some ({ s with cache := s.cache.insert choice.order key (.ofValue value) },
      .returns (.value (.ok value)))
  | .getAsync key =>
    match s.cache.get key with
    | some cached => some (s, .returns (.value (.ok cached.value)))
    | none => some (s, .next (.getAsyncMiss key))
  | .getAsyncMiss key => (readDb choice s key).map fun result => (s, .returns (.value result))
  | .getMany keys =>
    if let some code := choice.fault then some (s, .returns (.values (.error code)))
    else if keys.length > maxBatchSize then some (s, .returns (.values (.error errBatchTooLarge)))
    else if keys.isEmpty then some (s, .returns (.values (.ok [])))
    else some (s, .next (.getManyScan keys []))
  | .getManyScan [] slots =>
    if slots.any Slot.isMiss then some (s, .next (.getManyMiss slots))
    else some (s, .returns (.values (.ok (slots.map (Slot.value s.db)))))
  | .getManyScan (key :: keys) slots =>
    match s.cache.get key with
    | some cached => some (s, .next (.getManyScan keys (slots ++ [.hit cached.value])))
    | none =>
      match h : createStorageKey key with
      | .error e => some (s, .returns (.values (.error e.code)))
      | .ok storageKey =>
        some (s, .next (.getManyScan keys (slots ++ [.miss ⟨key, storageKey, h⟩])))
  | .getManyMiss slots =>
    match choice.fault with
    | some code => some (s, .returns (.values (.error code)))
    | none =>
      if s.writing then none
      else some (s, .next (.getManyFill (slots.filterMap (Slot.fill? s.db))
        (slots.map (Slot.value s.db))))
  | .getManyFill [] results => some (s, .returns (.values (.ok results)))
  | .getManyFill ((key, value) :: fills) results =>
    some ({ s with cache := s.cache.insert choice.order key (.ofValue value) },
      .next (.getManyFill fills results))
  | .applyBatch operations =>
    match h : prepareBatch operations with
    | .error e => some (s, .returns (.applied (.error (.prepare e))))
    | .ok batch =>
      if batch.updates.isEmpty then some (s, .returns (.applied (.ok ())))
      else some (s, .next (.commit batch ⟨operations, h⟩))
  | .commit batch _ =>
    if s.writing then none
    else
      match choice.fault with
      | some code => some (s, .returns (.applied (.error (.qmdb code))))
      | none =>
        some ({ s with db := applyUpdates s.db batch.updates, writing := true },
          .next (.invalidate batch.keysToInvalidate))
  | .invalidate [] => some ({ s with writing := false }, .returns (.applied (.ok ())))
  | .invalidate (key :: keys) =>
    some ({ s with cache := s.cache.invalidate key }, .next (.invalidate keys))

def Call.starts : Call → Bool
  | .get _ => true
  | .getAsync _ => true
  | .getMany _ => true
  | .applyBatch _ => true
  | _ => false

abbrev Storages (ι : Type) := Config ι Shared Call

/-- A storage that was just opened, over any database. -/
def opened (ι : Type) (db : StorageKey → Option Bytes) : Storages ι :=
  ⟨⟨db, .withDefaults, false⟩, fun _ => none⟩

/-! ### What a step does -/

section Cache

variable {key key' : Bytes} {cached value : CachedValue}

namespace CacheShard

variable {shard : CacheShard} {order : List Bytes}

theorem get_invalidate :
    (shard.invalidate key).get key' = if key' = key then none else shard.get key' :=
  Lists.lookup_filter_ne

theorem get_of_foldl_invalidate {keys : List Bytes}
    (h : (keys.foldl invalidate shard).get key = some cached) : shard.get key = some cached := by
  induction keys generalizing shard with
  | nil => exact h
  | cons k keys ih =>
    have hget := ih h
    rw [get_invalidate] at hget
    split at hget
    · cases hget
    · exact hget

theorem get_of_evict (h : (shard.evict order).get key = some cached) :
    shard.get key = some cached := by
  unfold evict at h
  split at h
  · exact get_of_foldl_invalidate h
  · exact h

theorem get_of_insert (h : (shard.insert order key value).get key' = some cached) :
    (key' = key ∧ cached = value) ∨ shard.get key' = some cached := by
  unfold insert get at h
  rw [List.lookup_cons] at h
  by_cases hkey : key' = key
  · subst hkey
    rw [beq_self_eq_true] at h
    exact .inl ⟨rfl, (Option.some.inj h).symm⟩
  · rw [beq_false_of_ne hkey] at h
    change ((shard.evict order).invalidate key).get key' = some cached at h
    rw [get_invalidate, if_neg hkey] at h
    exact .inr (get_of_evict h)

end CacheShard

namespace ShardedDbCache

variable {cache : ShardedDbCache} {order : List Bytes}

theorem get_of_insert (h : (cache.insert order key value).get key' = some cached) :
    (key' = key ∧ cached = value) ∨ cache.get key' = some cached := by
  dsimp only [insert, get] at h
  by_cases hshard : shardIndex key' = shardIndex key
  · rw [hshard, Function.update_self] at h
    rw [get, hshard]
    exact CacheShard.get_of_insert h
  · rw [Function.update_of_ne hshard] at h
    exact .inr h

theorem get_of_invalidate (h : (cache.invalidate key).get key' = some cached) :
    key' ≠ key ∧ cache.get key' = some cached := by
  dsimp only [invalidate, get] at h
  by_cases hshard : shardIndex key' = shardIndex key
  · rw [hshard, Function.update_self, CacheShard.get_invalidate] at h
    split at h
    · cases h
    · rename_i hne
      rw [get, hshard]
      exact ⟨hne, h⟩
  · rw [Function.update_of_ne hshard] at h
    exact ⟨fun hkey => hshard (congrArg shardIndex hkey), h⟩

end ShardedDbCache

end Cache

/-- The values that a call has read and not yet put into the cache. -/
def Call.pending : Call → List (Bytes × Option Bytes)
  | .getFill key value => [(key, value)]
  | .getManyFill fills _ => fills
  | _ => []

/-- The database holds the value under the key. -/
def Agrees (key : Bytes) (value : Option Bytes) : Prop :=
  ∃ storageKey, createStorageKey key = .ok storageKey ∧ db storageKey = value

instance (db : StorageKey → Option Bytes) (key : Bytes) (value : Option Bytes) :
    Decidable (Agrees db key value) :=
  decidable_of_iff ((createStorageKey key).toOption.map db = some value) <| by
    unfold Agrees
    cases createStorageKey key <;> simp [Except.toOption]

/-- The effects that a step can have. -/
inductive Effect (s : Shared) : Call → Shared → Option Call → Prop
  | read {call : Call} {rest : Option Call} (quiet : ∀ keys, call ≠ .invalidate keys)
      (reads : ∀ d ∈ rest, ∀ p ∈ d.pending, Agrees s.db p.1 p.2) : Effect s call s rest
  | fill {call : Call} {rest : Option Call} {order : List Bytes} {key : Bytes}
      {value : Option Bytes} (quiet : ∀ keys, call ≠ .invalidate keys)
      (mem : (key, value) ∈ call.pending) (keeps : ∀ d ∈ rest, d.pending ⊆ call.pending) :
      Effect s call { s with cache := s.cache.insert order key (.ofValue value) } rest
  | commit {batch : PreparedBatch} {prepared : ∃ operations, prepareBatch operations = .ok batch} :
      Effect s (.commit batch prepared)
        { s with db := applyUpdates s.db batch.updates, writing := true }
        (some (.invalidate batch.keysToInvalidate))
  | invalidate {key : Bytes} {keys : List Bytes} :
      Effect s (.invalidate (key :: keys)) { s with cache := s.cache.invalidate key }
        (some (.invalidate keys))
  | release : Effect s (.invalidate []) { s with writing := false } none

theorem agrees_of_readDb {choice : Choice} {s : Shared} {key : Bytes} {value : Option Bytes}
    (h : readDb choice s key = some (.ok value)) : Agrees s.db key value := by
  unfold readDb at h
  split at h
  · cases h
  · split at h
    · cases h
    · rename_i storageKey hkey
      split at h
      · cases h
      · cases h
        exact ⟨storageKey, hkey, rfl⟩

theorem agrees_of_fill? {db : StorageKey → Option Bytes} {slots : List Slot}
    {p : Bytes × Option Bytes} (h : p ∈ slots.filterMap (Slot.fill? db)) : Agrees db p.1 p.2 := by
  obtain ⟨slot, -, hslot⟩ := List.mem_filterMap.mp h
  cases slot with
  | hit => cases hslot
  | miss m =>
    cases hslot
    exact ⟨m.storageKey, m.created, rfl⟩

variable {call : Call}

theorem effect_of_step {choice : Choice} {s s' : Shared} {progress : Progress Call Answer}
    (h : step choice s call = some (s', progress)) : Effect s call s' progress.rest := by
  cases call with
  | get key =>
    dsimp only [step] at h
    split at h <;> cases h <;> exact .read nofun (by simp [Progress.rest, Call.pending])
  | getMiss key =>
    obtain ⟨result, hread, hresult⟩ := Option.map_eq_some_iff.mp h
    cases result with
    | error code =>
      cases hresult
      exact .read nofun nofun
    | ok value =>
      cases hresult
      refine .read nofun ?_
      simpa [Progress.rest, Call.pending] using agrees_of_readDb hread
  | getFill key value =>
    cases h
    exact .fill nofun (List.mem_singleton_self _) nofun
  | getAsync key =>
    dsimp only [step] at h
    split at h <;> cases h <;> exact .read nofun (by simp [Progress.rest, Call.pending])
  | getAsyncMiss key =>
    obtain ⟨result, -, hresult⟩ := Option.map_eq_some_iff.mp h
    cases hresult
    exact .read nofun nofun
  | getMany keys =>
    dsimp only [step] at h
    split at h
    · cases h
      exact .read nofun nofun
    · split at h
      · cases h
        exact .read nofun nofun
      · split at h <;> cases h <;> exact .read nofun (by simp [Progress.rest, Call.pending])
  | getManyScan keys slots =>
    cases keys with
    | nil =>
      dsimp only [step] at h
      split at h <;> cases h <;> exact .read nofun (by simp [Progress.rest, Call.pending])
    | cons key keys =>
      dsimp only [step] at h
      split at h
      · cases h
        exact .read nofun (by simp [Progress.rest, Call.pending])
      · split at h <;> cases h <;> exact .read nofun (by simp [Progress.rest, Call.pending])
  | getManyMiss slots =>
    dsimp only [step] at h
    split at h
    · cases h
      exact .read nofun nofun
    · split at h
      · cases h
      · cases h
        refine .read nofun ?_
        rintro _ ⟨⟩ p hp
        exact agrees_of_fill? hp
  | getManyFill fills results =>
    cases fills with
    | nil =>
      cases h
      exact .read nofun nofun
    | cons fill fills =>
      cases h
      refine .fill nofun (List.mem_cons_self ..) ?_
      rintro _ ⟨⟩
      exact List.subset_cons_self _ _
  | applyBatch operations =>
    dsimp only [step] at h
    split at h
    · cases h
      exact .read nofun nofun
    · split at h <;> cases h <;> exact .read nofun (by simp [Progress.rest, Call.pending])
  | commit batch prepared =>
    dsimp only [step] at h
    split at h
    · cases h
    · split at h
      · cases h
        exact .read nofun nofun
      · cases h
        exact .commit
  | invalidate keys =>
    cases keys with
    | nil =>
      cases h
      exact .release
    | cons key keys =>
      cases h
      exact .invalidate

/-! ### Batches and keys -/

theorem createStorageKey_inj {key key' : Bytes} {storageKey : StorageKey}
    (h : createStorageKey key = .ok storageKey) (h' : createStorageKey key' = .ok storageKey) :
    key = key' := by
  unfold createStorageKey at h h'
  split at h
  · cases h
  · rename_i hlength
    split at h'
    · cases h'
    · rename_i hlength'
      have hbytes := congrArg FixedBytes.bytes ((Except.ok.inj h).trans (Except.ok.inj h').symm)
      simp only [List.append_assoc] at hbytes
      obtain ⟨hlengths, hrest⟩ := List.append_inj hbytes (by simp)
      have hnat := congrArg leNat hlengths
      simp only [leNat_leBytes, keyLengthPrefixSize] at hnat
      simp only [maxKeySize, maxStorageKeySize] at hlength hlength'
      exact (List.append_inj hrest (by omega)).1

theorem applyUpdates_of_forall_ne {updates : List (StorageKey × Option Bytes)}
    {storageKey : StorageKey} (h : ∀ update ∈ updates, update.1 ≠ storageKey)
    (db : StorageKey → Option Bytes) : applyUpdates db updates storageKey = db storageKey := by
  induction updates generalizing db with
  | nil => rfl
  | cons update updates ih =>
    obtain ⟨hne, hrest⟩ := List.forall_mem_cons.mp h
    exact (ih hrest _).trans (Function.update_of_ne hne.symm ..)

/-- Every update of a batch is of a key that the batch invalidates. -/
def PreparedBatch.Covers (batch : PreparedBatch) : Prop :=
  ∀ update ∈ batch.updates, ∃ key ∈ batch.keysToInvalidate, createStorageKey key = .ok update.1

theorem covers_of_prepareBatch {operations : List Operation} {batch : PreparedBatch}
    (h : prepareBatch operations = .ok batch) : batch.Covers := by
  refine prepareBatch_induction (P := fun _ batch => batch.Covers) (fun _ => by rintro _ ⟨⟩) ?_ h
  intro operations op batch batch' hcovers hadd update hupdate
  obtain ⟨storageKey, hkey, hupdates, hkeys⟩ := PreparedBatch.add_ok hadd
  rw [hupdates] at hupdate
  rw [hkeys]
  rcases List.mem_append.mp hupdate with hmem | hmem
  · obtain ⟨k, hk, hcreated⟩ := hcovers update hmem
    exact ⟨k, List.mem_append_left _ hk, hcreated⟩
  · rw [List.mem_singleton.mp hmem]
    exact ⟨op.key, List.mem_append_right _ (List.mem_singleton_self _), hkey⟩

/-- A batch changes nothing that is stored under a key that it does not write. -/
theorem Agrees.applyUpdates {db : StorageKey → Option Bytes} {key : Bytes} {value : Option Bytes}
    (h : Agrees db key value) {batch : PreparedBatch} (hcovers : batch.Covers)
    (hkey : key ∉ batch.keysToInvalidate) : Agrees (applyUpdates db batch.updates) key value := by
  obtain ⟨storageKey, hcreated, hvalue⟩ := h
  refine ⟨storageKey, hcreated, ?_⟩
  rw [applyUpdates_of_forall_ne (fun update hmem hupdate => ?_) db, hvalue]
  obtain ⟨key', hmem', hcreated'⟩ := hcovers update hmem
  rw [hupdate] at hcreated'
  exact hkey (createStorageKey_inj hcreated hcreated' ▸ hmem')

/-! ### Interleavings -/

section

variable {ι : Type} [DecidableEq ι]

/-- A batch is written while no call still has to put into the cache what it has read of one of the
keys of the batch. -/
def Quiet (c : Storages ι) (_ : ι) : Call → Prop
  | .commit batch _ => ∀ u call, c.threads u = some call → ∀ p ∈ call.pending,
      p.1 ∉ batch.keysToInvalidate
  | _ => True

/-- What calls have read and not yet put into the cache is stored, and so is what the cache holds,
except under keys that a batch is about to invalidate. -/
structure Coherent (c : Storages ι) : Prop where
  fills : ∀ t call, c.threads t = some call → ∀ p ∈ call.pending, Agrees c.shared.db p.1 p.2
  entries : ∀ key cached, c.shared.cache.get key = some cached →
    Agrees c.shared.db key cached.value ∨
      ∃ t keys, c.threads t = some (.invalidate keys) ∧ key ∈ keys

omit [DecidableEq ι] in
theorem coherent_opened : Coherent (opened ι db) where
  fills _ _ h := by cases h
  entries _ _ h := by cases h

omit [DecidableEq ι] in
theorem pending_of_starts (h : call.starts = true) : call.pending = [] := by
  cases call <;> first | rfl | cases h

theorem coherent_issue {c : Storages ι} {t : ι} (h : Coherent c) (hidle : c.threads t = none)
    (hstarts : call.starts = true) :
    Coherent (c.put t (some call) c.shared) where
  fills := by
    refine Config.forall_threads_put.mpr ⟨?_, fun u _ d hd => h.fills u d hd⟩
    rintro _ ⟨⟩ p hp
    rw [pending_of_starts hstarts] at hp
    cases hp
  entries key cached hget := by
    refine (h.entries key cached hget).imp_right ?_
    rintro ⟨u, keys, hu, hkey⟩
    have hne : u ≠ t := by
      rintro rfl
      rw [hidle] at hu
      cases hu
    exact ⟨u, keys, by rwa [Config.threads_put_of_ne c hne], hkey⟩

/-- A batch that is about to invalidate a key still is after a step of another kind of call. -/
theorem invalidates_put {c : Storages ι} {t : ι} {rest : Option Call} {s' : Shared} {key : Bytes}
    (hactive : c.threads t = some call) (hquiet : ∀ keys, call ≠ .invalidate keys)
    (h : ∃ u keys, c.threads u = some (.invalidate keys) ∧ key ∈ keys) :
    ∃ u keys, (c.put t rest s').threads u = some (.invalidate keys) ∧ key ∈ keys := by
  obtain ⟨u, keys, hu, hkey⟩ := h
  have hne : u ≠ t := by
    rintro rfl
    rw [hactive] at hu
    exact hquiet keys (Option.some.inj hu)
  exact ⟨u, keys, by rwa [Config.threads_put_of_ne c hne], hkey⟩

theorem coherent_run {c : Storages ι} {t : ι} {s' : Shared} {rest : Option Call} (h : Coherent c)
    (hactive : c.threads t = some call) (hok : Quiet c t call)
    (heffect : Effect c.shared call s' rest) : Coherent (c.put t rest s') := by
  have hothers : ∀ u ≠ t, ∀ d, c.threads u = some d → ∀ p ∈ d.pending,
      Agrees c.shared.db p.1 p.2 := fun u _ d hd => h.fills u d hd
  cases heffect with
  | read hquiet hreads =>
    refine ⟨Config.forall_threads_put.mpr ⟨hreads, hothers⟩, fun key cached hget => ?_⟩
    exact (h.entries key cached hget).imp_right (invalidates_put hactive hquiet)
  | fill hquiet hmem hkeeps =>
    refine ⟨Config.forall_threads_put.mpr ⟨?_, hothers⟩, fun key cached hget => ?_⟩
    · exact fun d hd p hp => h.fills t call hactive p (hkeeps d hd hp)
    · rcases ShardedDbCache.get_of_insert hget with ⟨rfl, rfl⟩ | hget
      · rw [CachedValue.value_ofValue]
        exact .inl (h.fills t call hactive _ hmem)
      · exact (h.entries key cached hget).imp_right (invalidates_put hactive hquiet)
  | @commit batch prepared =>
    obtain ⟨operations, hprepared⟩ := prepared
    have hcovers := covers_of_prepareBatch hprepared
    refine ⟨Config.forall_threads_put.mpr ⟨?_, ?_⟩, fun key cached hget => ?_⟩
    · rintro _ ⟨⟩ p hp
      cases hp
    · exact fun u hu d hd p hp => (hothers u hu d hd p hp).applyUpdates hcovers (hok u d hd p hp)
    · by_cases hkey : key ∈ batch.keysToInvalidate
      · exact .inr ⟨t, _, Config.threads_put_self .., hkey⟩
      · refine (h.entries key cached hget).imp ?_ (invalidates_put hactive nofun)
        exact fun hagrees => hagrees.applyUpdates hcovers hkey
  | @invalidate key keys =>
    refine ⟨Config.forall_threads_put.mpr ⟨?_, hothers⟩, fun key' cached hget => ?_⟩
    · rintro _ ⟨⟩ p hp
      cases hp
    · obtain ⟨hne, hget⟩ := ShardedDbCache.get_of_invalidate hget
      refine (h.entries key' cached hget).imp_right ?_
      rintro ⟨u, keys', hu, hkey⟩
      by_cases hut : u = t
      · subst hut
        cases hactive.symm.trans hu
        exact ⟨u, keys, Config.threads_put_self .., (List.mem_cons.mp hkey).resolve_left hne⟩
      · exact ⟨u, keys', by rwa [Config.threads_put_of_ne c hut], hkey⟩
  | release =>
    refine ⟨Config.forall_threads_put.mpr ⟨nofun, hothers⟩, fun key cached hget => ?_⟩
    refine (h.entries key cached hget).imp_right ?_
    rintro ⟨u, keys, hu, hkey⟩
    by_cases hut : u = t
    · subst hut
      cases hactive.symm.trans hu
      cases hkey
    · exact ⟨u, keys, by rwa [Config.threads_put_of_ne c hut], hkey⟩

/-- What a read that runs alone answers when the database does not fail. -/
def Shared.read (s : Shared) (key : Bytes) : SdkResult (Option Bytes) :=
  match s.cache.get key with
  | some cached => .ok cached.value
  | none => (createStorageKey key).mapError StorageError.code |>.map s.db

/-- For every database and every interleaving of reads and batches on clones of one storage, such
that no batch is written while a call still has to put into the cache what it has read of one of its
keys: once no call is in flight every entry of the cache agrees with the database, and a read
answers what is stored. -/
theorem cache_agrees (db : StorageKey → Option Bytes) (c : Storages ι)
    (h : Reaches step (fun call => call.starts = true) Quiet (opened ι db) c)
    (hquiescent : c.Quiescent) (key : Bytes) :
    (∀ cached, c.shared.cache.get key = some cached →
      Agrees c.shared.db key cached.value) ∧
      c.shared.read key =
        ((createStorageKey key).mapError StorageError.code).map c.shared.db := by
  have hcoherent : Coherent c := by
    refine Reaches.invariant (fun c t call hc => coherent_issue hc) ?_ h (coherent_opened db)
    exact fun c t call choice s' progress hc hactive hok hstep =>
      coherent_run hc hactive hok (effect_of_step hstep)
  have hentries : ∀ cached, c.shared.cache.get key = some cached →
      Agrees c.shared.db key cached.value := by
    intro cached hget
    rcases hcoherent.entries key cached hget with hagrees | ⟨t, keys, ht, -⟩
    · exact hagrees
    · rw [hquiescent t] at ht
      cases ht
  refine ⟨hentries, ?_⟩
  unfold Shared.read
  cases hget : c.shared.cache.get key with
  | none => rfl
  | some cached =>
    obtain ⟨storageKey, hcreated, hvalue⟩ := hentries cached hget
    rw [hcreated]
    exact congrArg Except.ok hvalue.symm

end

/-! ### Two interleavings -/

def noFault : Choice := ⟨none, []⟩

instance (c : Storages (Fin 2)) (t : Fin 2) : DecidablePred (Quiet c t)
  | .commit batch _ => inferInstanceAs (Decidable (∀ u, ∀ call ∈ c.threads u,
      ∀ p ∈ call.pending, p.1 ∉ batch.keysToInvalidate))
  | .get _ | .getMiss _ | .getFill _ _ | .getAsync _ | .getAsyncMiss _ | .getMany _
  | .getManyScan _ _ | .getManyMiss _ | .getManyFill _ _ | .applyBatch _ | .invalidate _ =>
    isTrue trivial

/-- A batch stores a key that was read before, while a read of another key still has to fill the
cache; then the key is read again. -/
def quietSchedule : List (Interleave.Event (Fin 2) Call Choice) :=
  [.issue 0 (.get [7]), .run 0 noFault, .run 0 noFault, .run 0 noFault,
    .issue 0 (.get [8]), .run 0 noFault, .run 0 noFault,
    .issue 1 (.applyBatch [.set [7] [1]]), .run 1 noFault, .run 1 noFault, .run 1 noFault,
    .run 0 noFault, .run 1 noFault,
    .issue 1 (.get [7]), .run 1 noFault, .run 1 noFault, .run 1 noFault]

def playQuiet : Option (Storages (Fin 2)) :=
  playAll step (fun call => call.starts = true) Quiet (opened (Fin 2) fun _ => none) quietSchedule

/-- The cache has the new value of the one key, and that the other is absent. -/
theorem cache_agrees_quietSchedule :
    ∃ c : Storages (Fin 2),
      Reaches step (fun call => call.starts = true) Quiet (opened (Fin 2) fun _ => none) c ∧
      c.Quiescent ∧ c.shared.cache.get [7] = some (.present [1]) ∧
      c.shared.cache.get [8] = some .absent ∧
      Agrees c.shared.db [7] (some [1]) ∧ Agrees c.shared.db [8] none := by
  have hplay : playQuiet.any (fun c => (c.threads 0).isNone && (c.threads 1).isNone &&
      decide (c.shared.cache.get [7] = some (.present [1])) &&
      decide (c.shared.cache.get [8] = some .absent)) = true := by decide +kernel
  obtain ⟨c, hc, hplay⟩ := (Option.any_eq_true _ _).mp hplay
  simp only [Bool.and_eq_true, Option.isNone_iff_eq_none, decide_eq_true_eq] at hplay
  obtain ⟨⟨⟨h₀, h₁⟩, hpresent⟩, habsent⟩ := hplay
  have hreaches := reaches_of_playAll hc
  have hquiescent : c.Quiescent := Fin.forall_fin_two.mpr ⟨h₀, h₁⟩
  exact ⟨c, hreaches, hquiescent, hpresent, habsent,
    (cache_agrees _ c hreaches hquiescent [7]).1 _ hpresent,
    (cache_agrees _ c hreaches hquiescent [8]).1 _ habsent⟩

/-- A read of a key that is not stored, and a batch that stores it in between. -/
def staleSchedule : List (Interleave.Event (Fin 2) Call Choice) :=
  [.issue 0 (.get [7]), .run 0 noFault, .run 0 noFault,
    .issue 1 (.applyBatch [.set [7] [1]]), .run 1 noFault, .run 1 noFault, .run 1 noFault,
    .run 1 noFault,
    .run 0 noFault]

def playStale : Option (Storages (Fin 2)) :=
  playAll step (fun call => call.starts = true) (fun _ _ _ => True) (opened (Fin 2) fun _ => none)
    staleSchedule

/-- The read that began before the batch fills the cache after it: the cache says for good that the
key is absent, although it is stored. -/
theorem stale_entry :
    ∃ c : Storages (Fin 2),
      Reaches step (fun call => call.starts = true) (fun _ _ _ => True)
        (opened (Fin 2) fun _ => none) c ∧
      c.Quiescent ∧ c.shared.cache.get [7] = some .absent ∧
      Agrees c.shared.db [7] (some [1]) ∧ c.shared.read [7] = .ok none := by
  have hplay : playStale.any (fun c => (c.threads 0).isNone && (c.threads 1).isNone &&
      decide (c.shared.cache.get [7] = some .absent) &&
      decide (Agrees c.shared.db [7] (some [1])) &&
      decide (c.shared.read [7] = .ok none)) = true := by decide +kernel
  obtain ⟨c, hc, hplay⟩ := (Option.any_eq_true _ _).mp hplay
  simp only [Bool.and_eq_true, Option.isNone_iff_eq_none, decide_eq_true_eq] at hplay
  obtain ⟨⟨⟨⟨h₀, h₁⟩, habsent⟩, hagrees⟩, hread⟩ := hplay
  exact ⟨c, reaches_of_playAll hc, Fin.forall_fin_two.mpr ⟨h₀, h₁⟩, habsent, hagrees, hread⟩

end Evolve.Storage
