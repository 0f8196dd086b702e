import Mathlib
import Evolve.Rpc.IndexRuns

/-! The latest block number of the chain index.  In a running process the cache has the largest
number that was stored, but the database has the number of the block that was stored last, and a
restarted process goes by that. -/

namespace Evolve.ChainIndex

open Machine Eth Relational

section

variable [LruCrate]

namespace PersistentChainIndex

def loadLatestBlockNumber (index : PersistentChainIndex) : Option UInt64 := index.db.latestBlock

def latestBlockNumber (index : PersistentChainIndex) : Option UInt64 :=
  match index.cache.latestBlock with
  | some n => some n
  | none => index.loadLatestBlockNumber

def initializeIndex (index : PersistentChainIndex) : PersistentChainIndex :=
  match index.loadLatestBlockNumber with
  | some latest => ⟨index.db, index.cache.setLatestBlockNumber latest⟩
  | none => index

/-- A new process on the same database. -/
def restart (index : PersistentChainIndex) (config : CacheConfig) : PersistentChainIndex :=
  (index.uncached config).initializeIndex

end PersistentChainIndex

/-! ### Stored numbers -/

/-- The number of the block that a request stores, unless it fails. -/
def Request.stores (index : PersistentChainIndex) : Request → List UInt64
  | storeBlock block txs receipts =>
    match (index.storeBlock block txs receipts).1 with
    | .ok _ => [block.number]
    | .error _ => []
  | _ => []

/-- The answer is the largest of the numbers, if there are any. -/
def IsLargest (numbers : List UInt64) : Option UInt64 → Prop
  | none => numbers = []
  | some n => n ∈ numbers ∧ ∀ m ∈ numbers, m ≤ n

/-- No block was stored with a larger number than the block that was stored last. -/
def EndsWithLargest (numbers : List UInt64) : Prop :=
  ∀ earlier last, numbers = earlier ++ [last] → ∀ m ∈ earlier, m ≤ last

/-- The index after some requests, and the numbers of the blocks that were stored, in the order in
which they were.  The process is restarted only while the last of them is the largest. -/
inductive Ran (config : CacheConfig) : List UInt64 → PersistentChainIndex → Prop
  | new : Ran config [] (.new config)
  | request {numbers : List UInt64} {index : PersistentChainIndex} (request : Request) :
      Ran config numbers index →
        Ran config (numbers ++ request.stores index) (request.after index)
  | restart {numbers : List UInt64} {index : PersistentChainIndex} :
      Ran config numbers index → EndsWithLargest numbers →
        Ran config numbers (index.restart config)

omit [LruCrate] in
theorem isLargest_getLast? {numbers : List UInt64} :
    IsLargest numbers numbers.getLast? ↔ EndsWithLargest numbers := by
  rcases List.eq_nil_or_concat numbers with rfl | ⟨earlier, last, rfl⟩
  · simp [IsLargest, EndsWithLargest]
  · rw [List.concat_eq_append, List.getLast?_append, List.getLast?_singleton]
    constructor
    · rintro ⟨-, hle⟩ earlier' last' heq m hm
      obtain ⟨rfl, rfl⟩ := List.append_inj' heq rfl |>.imp_right List.singleton_inj.mp
      exact hle m (List.mem_append_left _ hm)
    · intro h
      refine ⟨by simp, fun m hm => ?_⟩
      rcases List.mem_append.mp hm with hm | hm
      · exact h earlier last rfl m hm
      · rw [List.mem_singleton.mp hm]
        exact UInt64.le_refl last

/-- The cached number stays the largest when another one, or one of those stored before, is set. -/
theorem IsLargest.setLatestBlockNumber {numbers numbers' : List UInt64} {cache : ChainCache}
    (h : IsLargest numbers cache.latestBlock) {n : UInt64}
    (hmem : ∀ m, m ∈ numbers' ↔ m ∈ numbers ∨ m = n) :
    IsLargest numbers' (cache.setLatestBlockNumber n).latestBlock := by
  unfold ChainCache.setLatestBlockNumber
  cases hlatest : cache.latestBlock with
  | none =>
    rw [hlatest] at h
    cases (h : numbers = [])
    refine ⟨(hmem n).mpr (.inr rfl), fun m hm => ?_⟩
    have hm := (hmem m).mp hm
    simp only [List.not_mem_nil, false_or] at hm
    exact hm ▸ UInt64.le_refl m
  | some latest =>
    rw [hlatest] at h
    obtain ⟨hlatest, hle⟩ := h
    by_cases hlt : latest < n
    · simp only [Option.all_some, gt_iff_lt, hlt, decide_true, if_true]
      refine ⟨(hmem n).mpr (.inr rfl), fun m hm => ?_⟩
      rcases (hmem m).mp hm with hm | rfl
      · exact UInt64.le_trans (hle m hm) (UInt64.le_of_lt hlt)
      · exact UInt64.le_refl m
    · simp only [Option.all_some, gt_iff_lt, hlt, decide_false, Bool.false_eq_true, if_false]
      refine ⟨(hmem latest).mpr (.inl hlatest), fun m hm => ?_⟩
      rcases (hmem m).mp hm with hm | rfl
      · exact hle m hm
      · exact UInt64.not_lt.mp hlt

/-! ### Reads -/

theorem ChainCache.latestBlock_insertBlock {cache cache' : ChainCache} (block : StoredBlock)
    (h : cache.latestBlock = cache'.latestBlock) :
    (cache.insertBlock block).latestBlock =
      (cache'.setLatestBlockNumber block.number).latestBlock := by
  unfold insertBlock setLatestBlockNumber
  rw [h]

theorem ChainCache.latestBlock_insertBlockWithData (cache : ChainCache) (block : StoredBlock)
    (txs : List StoredTransaction) (receipts : List StoredReceipt) :
    (cache.insertBlockWithData block txs receipts).latestBlock =
      (cache.setLatestBlockNumber block.number).latestBlock := by
  unfold insertBlockWithData
  rw [foldl_insertReceipt, foldl_insertTransaction]
  exact latestBlock_insertBlock block rfl

theorem ChainCache.latestBlock_getBlockByHash (cache : ChainCache) (hash : B256) :
    (cache.getBlockByHash hash).2.latestBlock = cache.latestBlock := by
  have hlatest : (cache.getBlockNumberByHash hash).2.latestBlock = cache.latestBlock := rfl
  unfold getBlockByHash
  split
  · rename_i number cache' hcached
    rw [hcached] at hlatest
    exact hlatest
  · rename_i hmissed
    rw [hmissed] at hlatest
    exact hlatest

namespace PersistentChainIndex

/-- A read leaves the database, and the cached number unless it caches a stored block. -/
def Looks (index index' : PersistentChainIndex) : Prop :=
  index'.db = index.db ∧ (index'.cache.latestBlock = index.cache.latestBlock ∨
    ∃ b ∈ index.db.blocks.rows,
      index'.cache.latestBlock = (index.cache.setLatestBlockNumber b.number).latestBlock)

/-- Looking into the caches first makes no difference. -/
theorem Looks.of_cached {index index' : PersistentChainIndex} {cache : ChainCache}
    (h : Looks ⟨index.db, cache⟩ index') (hlatest : cache.latestBlock = index.cache.latestBlock) :
    index.Looks index' := by
  refine ⟨h.1, h.2.imp (·.trans hlatest) ?_⟩
  rintro ⟨b, hb, hset⟩
  exact ⟨b, hb, hset.trans (by simp [ChainCache.setLatestBlockNumber, hlatest])⟩

variable (index : PersistentChainIndex)

theorem looks_getBlock (number : UInt64) : index.Looks (index.getBlock number).2 := by
  have hlatest : (index.cache.getBlockByNumber number).2.latestBlock = index.cache.latestBlock :=
    rfl
  unfold getBlock
  split
  · rename_i hcached
    rw [hcached] at hlatest
    exact ⟨rfl, .inl hlatest⟩
  · rename_i hmissed
    rw [hmissed] at hlatest
    split
    · rename_i block hblock
      exact ⟨rfl, .inr ⟨block, (Database.number_of_block hblock).1,
        ChainCache.latestBlock_insertBlock block hlatest⟩⟩
    · exact ⟨rfl, .inl hlatest⟩

theorem getBlockNumber_snd (hash : B256) :
    (index.getBlockNumber hash).2 = ⟨index.db, (index.cache.getBlockNumberByHash hash).2⟩ := by
  unfold getBlockNumber
  split
  · rename_i hcached
    rw [hcached]
  · rename_i hmissed
    rw [hmissed]

theorem looks_getBlockByHash (hash : B256) : index.Looks (index.getBlockByHash hash).2 := by
  have hlatest := index.cache.latestBlock_getBlockByHash hash
  unfold getBlockByHash
  split
  · rename_i hcached
    rw [hcached] at hlatest
    exact ⟨rfl, .inl hlatest⟩
  · rename_i cache hmissed
    rw [hmissed] at hlatest
    have hnumber := getBlockNumber_snd ⟨index.db, cache⟩ hash
    split
    · rename_i number index' hfound
      rw [hfound] at hnumber
      have hnumber : index' = ⟨index.db, (cache.getBlockNumberByHash hash).2⟩ := hnumber
      subst hnumber
      exact (looks_getBlock _ number).of_cached hlatest
    · rename_i index' hnone
      rw [hnone] at hnumber
      have hnumber : index' = ⟨index.db, (cache.getBlockNumberByHash hash).2⟩ := hnumber
      subst hnumber
      exact ⟨rfl, .inl hlatest⟩

theorem looks_getTransaction (hash : B256) : index.Looks (index.getTransaction hash).2 := by
  have hlatest : (index.cache.getTransaction hash).2.latestBlock = index.cache.latestBlock := rfl
  unfold getTransaction
  split
  · rename_i hcached
    rw [hcached] at hlatest
    exact ⟨rfl, .inl hlatest⟩
  · rename_i hmissed
    rw [hmissed] at hlatest
    split
    · exact ⟨rfl, .inl hlatest⟩
    · exact ⟨rfl, .inl hlatest⟩

theorem looks_getReceipt (hash : B256) : index.Looks (index.getReceipt hash).2 := by
  have hlatest : (index.cache.getReceipt hash).2.latestBlock = index.cache.latestBlock := rfl
  unfold getReceipt
  split
  · rename_i hcached
    rw [hcached] at hlatest
    exact ⟨rfl, .inl hlatest⟩
  · rename_i hmissed
    rw [hmissed] at hlatest
    split
    · exact ⟨rfl, .inl hlatest⟩
    · exact ⟨rfl, .inl hlatest⟩

end PersistentChainIndex

/-! ### Runs -/

/-- The database has the number that was stored last, and the cache the largest one. -/
structure Tracks (numbers : List UInt64) (index : PersistentChainIndex) : Prop where
  stored : index.db.latestBlock = numbers.getLast?
  cached : IsLargest numbers index.cache.latestBlock
  blocks : ∀ b ∈ index.db.blocks.rows, b.number ∈ numbers

namespace Tracks

variable {numbers : List UInt64} {index index' : PersistentChainIndex}

theorem look (h : Tracks numbers index) (hlooks : index.Looks index') : Tracks numbers index' := by
  obtain ⟨hdb, hlatest⟩ := hlooks
  refine ⟨hdb ▸ h.stored, ?_, hdb ▸ h.blocks⟩
  rcases hlatest with hsame | ⟨b, hb, hset⟩
  · rw [hsame]
    exact h.cached
  · rw [hset]
    refine h.cached.setLatestBlockNumber fun m => ?_
    exact (or_iff_left_of_imp fun hm => hm ▸ h.blocks b hb).symm

theorem storeBlock (h : Tracks numbers index) (block : StoredBlock) (txs : List StoredTransaction)
    (receipts : List StoredReceipt) :
    Tracks (numbers ++ (Request.storeBlock block txs receipts).stores index)
      (index.storeBlock block txs receipts).2 := by
  cases hstore : index.db.storeBlock block txs receipts with
  | error e =>
    have hresult : index.storeBlock block txs receipts = (.error e, index) := by
      unfold PersistentChainIndex.storeBlock
      rw [hstore]
    have hnone : (Request.storeBlock block txs receipts).stores index = [] := by
      simp [Request.stores, hresult]
    rw [hresult, hnone, List.append_nil]
    exact h
  | ok db' =>
    have hresult : index.storeBlock block txs receipts =
        (.ok (), ⟨db', index.cache.insertBlockWithData block txs receipts⟩) := by
      unfold PersistentChainIndex.storeBlock
      rw [hstore]
    have hone : (Request.storeBlock block txs receipts).stores index = [block.number] := by
      simp [Request.stores, hresult]
    have hstores := Database.stores_of_storeBlock hstore
    rw [hresult, hone]
    refine ⟨?_, ?_, fun b hb => ?_⟩
    · rw [List.getLast?_append, List.getLast?_singleton]
      exact Database.latestBlock_of_storeBlock hstore
    · rw [ChainCache.latestBlock_insertBlockWithData]
      exact h.cached.setLatestBlockNumber fun m => by simp
    · rcases hstores.mem_blocks.mp hb with ⟨hb, -, -⟩ | rfl
      · exact List.mem_append_left _ (h.blocks b hb)
      · exact List.mem_append_right _ (List.mem_singleton_self _)

theorem request (h : Tracks numbers index) (request : Request) :
    Tracks (numbers ++ request.stores index) (request.after index) := by
  have hread {index' : PersistentChainIndex} (hlooks : index.Looks index') :
      Tracks (numbers ++ []) index' :=
    (List.append_nil numbers).symm ▸ h.look hlooks
  cases request with
  | storeBlock block txs receipts => exact h.storeBlock block txs receipts
  | getBlock number => exact hread (index.looks_getBlock number)
  | getBlockNumber hash =>
    refine hread ?_
    show index.Looks (index.getBlockNumber hash).2
    rw [index.getBlockNumber_snd hash]
    exact ⟨rfl, .inl rfl⟩
  | getBlockByHash hash => exact hread (index.looks_getBlockByHash hash)
  | getTransaction hash => exact hread (index.looks_getTransaction hash)
  | getReceipt hash => exact hread (index.looks_getReceipt hash)

theorem restart_eq (h : Tracks numbers index) (config : CacheConfig) :
    (index.restart config).db = index.db ∧
      (index.restart config).cache.latestBlock = numbers.getLast? := by
  have hload : (index.uncached config).loadLatestBlockNumber = numbers.getLast? := h.stored
  unfold PersistentChainIndex.restart PersistentChainIndex.initializeIndex
  rw [hload]
  cases numbers.getLast? with
  | none => exact ⟨rfl, rfl⟩
  | some n => exact ⟨rfl, rfl⟩

theorem restart (h : Tracks numbers index) (hlast : EndsWithLargest numbers)
    (config : CacheConfig) : Tracks numbers (index.restart config) := by
  obtain ⟨hdb, hlatest⟩ := h.restart_eq config
  refine ⟨hdb ▸ h.stored, ?_, hdb ▸ h.blocks⟩
  rw [hlatest]
  exact isLargest_getLast?.mpr hlast

theorem latestBlockNumber (h : Tracks numbers index) :
    IsLargest numbers index.latestBlockNumber := by
  have hcached := h.cached
  unfold PersistentChainIndex.latestBlockNumber PersistentChainIndex.loadLatestBlockNumber
  cases hlatest : index.cache.latestBlock with
  | some n =>
    rw [hlatest] at hcached
    exact hcached
  | none =>
    rw [hlatest] at hcached
    cases (hcached : numbers = [])
    rw [h.stored]
    rfl

theorem restart_latestBlockNumber (h : Tracks numbers index) (config : CacheConfig) :
    (index.restart config).latestBlockNumber = numbers.getLast? := by
  obtain ⟨hdb, hlatest⟩ := h.restart_eq config
  unfold PersistentChainIndex.latestBlockNumber PersistentChainIndex.loadLatestBlockNumber
  rw [hlatest, hdb, h.stored]
  cases numbers.getLast? <;> rfl

end Tracks

theorem Ran.tracks {config : CacheConfig} {numbers : List UInt64} {index : PersistentChainIndex}
    (h : Ran config numbers index) : Tracks numbers index := by
  induction h with
  | new => exact ⟨rfl, rfl, nofun⟩
  | request request _ ih => exact ih.request request
  | restart _ hlast ih => exact ih.restart hlast config

/-- Along every run the latest block number is the largest one that was stored, and it still is
after a restart if and only if no block was stored with a larger number than the last one. -/
theorem latestBlockNumber_isLargest {config : CacheConfig} {numbers : List UInt64}
    {index : PersistentChainIndex} (h : Ran config numbers index) :
    IsLargest numbers index.latestBlockNumber ∧
      (IsLargest numbers (index.restart config).latestBlockNumber ↔ EndsWithLargest numbers) := by
  refine ⟨h.tracks.latestBlockNumber, ?_⟩
  rw [h.tracks.restart_latestBlockNumber]
  exact isLargest_getLast?

end

/-! Two blocks in either order -/

theorem ran_storeSample {numbers : List UInt64} {index : PersistentChainIndex} (number : UInt64)
    (blockHash hash : B256) (h : Ran .default numbers index)
    (hstores : (storeSample number blockHash hash).stores index = [number]) :
    Ran .default (numbers ++ [number]) ((storeSample number blockHash hash).after index) :=
  hstores ▸ h.request (storeSample number blockHash hash)

def forwardsIndex : PersistentChainIndex :=
  (storeSample 2 (.repeatByte 32 2) (.repeatByte 32 8)).after onceIndex

theorem ran_forwardsIndex : Ran .default [1, 2] forwardsIndex :=
  ran_storeSample 2 _ _ (ran_storeSample 1 _ _ .new (by decide +kernel)) (by decide +kernel)

theorem forwardsIndex_latest :
    EndsWithLargest [1, 2] ∧
      IsLargest [1, 2] (forwardsIndex.restart .default).latestBlockNumber := by
  have hlast : EndsWithLargest [1, 2] := isLargest_getLast?.mp ⟨by simp, by simp⟩
  exact ⟨hlast, (latestBlockNumber_isLargest ran_forwardsIndex).2.mpr hlast⟩

/-- Block 2 is stored before block 1. -/
def backwardsIndex : PersistentChainIndex :=
  (storeSample 1 (.repeatByte 32 1) (.repeatByte 32 9)).after
    ((storeSample 2 (.repeatByte 32 2) (.repeatByte 32 8)).after (.new .default))

theorem ran_backwardsIndex : Ran .default [2, 1] backwardsIndex :=
  ran_storeSample 1 _ _ (ran_storeSample 2 _ _ .new (by decide +kernel)) (by decide +kernel)

/-- After a restart the latest block is block 1. -/
theorem backwardsIndex_latest :
    Ran .default [2, 1] backwardsIndex ∧ backwardsIndex.latestBlockNumber = some 2 ∧
      (backwardsIndex.restart .default).latestBlockNumber = some 1 ∧
      ¬ IsLargest [2, 1] (backwardsIndex.restart .default).latestBlockNumber := by
  have hrestart : (backwardsIndex.restart .default).latestBlockNumber = some 1 := by
    decide +kernel
  refine ⟨ran_backwardsIndex, by decide +kernel, hrestart, ?_⟩
  rw [hrestart]
  rintro ⟨-, hle⟩
  exact absurd (hle 2 (by simp)) (by decide)

end Evolve.ChainIndex
