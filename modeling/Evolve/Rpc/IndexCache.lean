import Mathlib
import Evolve.Lib.Lru
import Evolve.Rpc.IndexStore

/-! The chain index: the database behind caches of blocks, transactions and receipts.  Storing a
block puts its data into the caches, but takes nothing out that the database no longer has. -/

namespace Evolve.ChainIndex

open Machine Eth

/-! ### The cache -/

structure CacheConfig where
  blockCacheSize : Nat
  txCacheSize : Nat
  receiptCacheSize : Nat

def CacheConfig.default : CacheConfig := ⟨128, 4096, 4096⟩

variable [LruCrate]

structure ChainCache where
  blocksByNumber : Lru UInt64 StoredBlock
  blockNumberByHash : Lru B256 UInt64
  transactions : Lru B256 StoredTransaction
  receipts : Lru B256 StoredReceipt
  latestBlock : Option UInt64

namespace ChainCache

def new (config : CacheConfig) : ChainCache :=
  ⟨.new config.blockCacheSize, .new config.blockCacheSize, .new config.txCacheSize,
    .new config.receiptCacheSize, none⟩

variable (cache : ChainCache)

/-- The latest block number never goes back. -/
def setLatestBlockNumber (number : UInt64) : ChainCache :=
  { cache with
    latestBlock :=
      if cache.latestBlock.all (number > ·) then some number else cache.latestBlock }

def insertBlock (block : StoredBlock) : ChainCache :=
  { cache with
    blocksByNumber := cache.blocksByNumber.put block.number block
    blockNumberByHash := cache.blockNumberByHash.put block.hash block.number
    }.setLatestBlockNumber block.number

def getBlockByNumber (number : UInt64) : Option StoredBlock × ChainCache :=
  ((cache.blocksByNumber.get number).1,
    { cache with blocksByNumber := (cache.blocksByNumber.get number).2 })

def getBlockNumberByHash (hash : B256) : Option UInt64 × ChainCache :=
  ((cache.blockNumberByHash.get hash).1,
    { cache with blockNumberByHash := (cache.blockNumberByHash.get hash).2 })

def getBlockByHash (hash : B256) : Option StoredBlock × ChainCache :=
  match cache.getBlockNumberByHash hash with
  | (some number, cache) => cache.getBlockByNumber number
  | (none, cache) => (none, cache)

def insertTransaction (tx : StoredTransaction) : ChainCache :=
  { cache with transactions := cache.transactions.put tx.hash tx }

def getTransaction (hash : B256) : Option StoredTransaction × ChainCache :=
  ((cache.transactions.get hash).1,
    { cache with transactions := (cache.transactions.get hash).2 })

def insertReceipt (receipt : StoredReceipt) : ChainCache :=
  { cache with receipts := cache.receipts.put receipt.transactionHash receipt }

def getReceipt (hash : B256) : Option StoredReceipt × ChainCache :=
  ((cache.receipts.get hash).1, { cache with receipts := (cache.receipts.get hash).2 })

def insertBlockWithData (block : StoredBlock) (txs : List StoredTransaction)
    (receipts : List StoredReceipt) : ChainCache :=
  receipts.foldl insertReceipt (txs.foldl insertTransaction (cache.insertBlock block))

end ChainCache

/-! ### The index -/

structure PersistentChainIndex where
  db : Database
  cache : ChainCache

namespace PersistentChainIndex

def new (config : CacheConfig) : PersistentChainIndex := ⟨.empty, .new config⟩

variable (index : PersistentChainIndex)

/-- The same database behind an empty cache. -/
def uncached (config : CacheConfig) : PersistentChainIndex :=
  ⟨index.db, .new config⟩

def getBlock (number : UInt64) : Option StoredBlock × PersistentChainIndex :=
  match index.cache.getBlockByNumber number with
  | (some block, cache) => (some block, ⟨index.db, cache⟩)
  | (none, cache) =>
    match index.db.block number with
    | some block => (some block, ⟨index.db, cache.insertBlock block⟩)
    | none => (none, ⟨index.db, cache⟩)

def getBlockNumber (hash : B256) : Option UInt64 × PersistentChainIndex :=
  match index.cache.getBlockNumberByHash hash with
  | (some number, cache) => (some number, ⟨index.db, cache⟩)
  | (none, cache) => (index.db.blockNumber hash, ⟨index.db, cache⟩)

def getBlockByHash (hash : B256) : Option StoredBlock × PersistentChainIndex :=
  match index.cache.getBlockByHash hash with
  | (some block, cache) => (some block, ⟨index.db, cache⟩)
  | (none, cache) =>
    match getBlockNumber ⟨index.db, cache⟩ hash with
    | (some number, index) => index.getBlock number
    | (none, index) => (none, index)

def getBlockTransactions (number : UInt64) : List B256 :=
  index.db.blockTransactions number

def getTransaction (hash : B256) : Option StoredTransaction × PersistentChainIndex :=
  match index.cache.getTransaction hash with
  | (some tx, cache) => (some tx, ⟨index.db, cache⟩)
  | (none, cache) =>
    match index.db.transaction hash with
    | some tx => (some tx, ⟨index.db, cache.insertTransaction tx⟩)
    | none => (none, ⟨index.db, cache⟩)

def getReceipt (hash : B256) : Option StoredReceipt × PersistentChainIndex :=
  match index.cache.getReceipt hash with
  | (some receipt, cache) => (some receipt, ⟨index.db, cache⟩)
  | (none, cache) =>
    match index.db.receipt hash with
    | some receipt => (some receipt, ⟨index.db, cache.insertReceipt receipt⟩)
    | none => (none, ⟨index.db, cache⟩)

def getLogsByBlock (number : UInt64) : List StoredLog :=
  index.db.logsByBlock number

/-- The cache is filled once the database has committed. -/
def storeBlock (block : StoredBlock) (txs : List StoredTransaction)
    (receipts : List StoredReceipt) : Except ChainIndexError Unit × PersistentChainIndex :=
  match index.db.storeBlock block txs receipts with
  | .ok db => (.ok (), ⟨db, index.cache.insertBlockWithData block txs receipts⟩)
  | .error e => (.error e, index)

end PersistentChainIndex

/-- The calls of the index that may change it. -/
inductive Request where
  | storeBlock (block : StoredBlock) (txs : List StoredTransaction) (receipts : List StoredReceipt)
  | getBlock (number : UInt64)
  | getBlockNumber (hash : B256)
  | getBlockByHash (hash : B256)
  | getTransaction (hash : B256)
  | getReceipt (hash : B256)

def Request.after (index : PersistentChainIndex) : Request → PersistentChainIndex
  | storeBlock block txs receipts => (index.storeBlock block txs receipts).2
  | getBlock number => (index.getBlock number).2
  | getBlockNumber hash => (index.getBlockNumber hash).2
  | getBlockByHash hash => (index.getBlockByHash hash).2
  | getTransaction hash => (index.getTransaction hash).2
  | getReceipt hash => (index.getReceipt hash).2

/-- A condition on the blocks that are stored, given the database before. -/
abbrev StoreCondition :=
  Database → StoredBlock → List StoredTransaction → List StoredReceipt → Prop

def Request.Meets (condition : StoreCondition) (db : Database) : Request → Prop
  | storeBlock block txs receipts => condition db block txs receipts
  | _ => True

/-- The indexes after any sequence of requests whose blocks meet the condition. -/
inductive Reached (condition : StoreCondition) (config : CacheConfig) :
    PersistentChainIndex → Prop
  | new : Reached condition config (.new config)
  | after {index : PersistentChainIndex} {request : Request} :
      Reached condition config index → request.Meets condition index.db →
        Reached condition config (request.after index)

/-! ### Rules for what is cached -/

/-- What is required of each entry of the caches. -/
structure EntryRule where
  block : UInt64 → StoredBlock → Prop
  number : B256 → UInt64 → Prop
  transaction : B256 → StoredTransaction → Prop
  receipt : B256 → StoredReceipt → Prop

structure ChainCache.Obeys (cache : ChainCache) (rule : EntryRule) : Prop where
  blocks : cache.blocksByNumber.Holds rule.block
  numbers : cache.blockNumberByHash.Holds rule.number
  transactions : cache.transactions.Holds rule.transaction
  receipts : cache.receipts.Holds rule.receipt

/-- What the database answers may be cached. -/
structure EntryRule.Allows (rule : EntryRule) (db : Database) : Prop where
  block : ∀ number block, db.block number = some block →
    rule.block block.number block ∧ rule.number block.hash block.number
  transaction : ∀ hash tx, db.transaction hash = some tx → rule.transaction tx.hash tx
  receipt : ∀ hash receipt, db.receipt hash = some receipt →
    rule.receipt receipt.transactionHash receipt

/-- The data of a block may be cached, and what is cached already may stay. -/
structure EntryRule.Admits (rule rule' : EntryRule) (block : StoredBlock)
    (txs : List StoredTransaction) (receipts : List StoredReceipt) : Prop where
  block_new : rule'.block block.number block
  block_old : ∀ number b, number ≠ block.number → rule.block number b → rule'.block number b
  number_new : rule'.number block.hash block.number
  number_old : ∀ hash number, hash ≠ block.hash → rule.number hash number →
    rule'.number hash number
  transaction_new : ∀ tx ∈ txs, rule'.transaction tx.hash tx
  transaction_old : ∀ hash tx, hash ∉ txs.map StoredTransaction.hash →
    rule.transaction hash tx → rule'.transaction hash tx
  receipt_new : ∀ receipt ∈ receipts, rule'.receipt receipt.transactionHash receipt
  receipt_old : ∀ hash receipt, hash ∉ receipts.map StoredReceipt.transactionHash →
    rule.receipt hash receipt → rule'.receipt hash receipt

namespace ChainCache

variable {cache : ChainCache} {rule rule' : EntryRule}

theorem obeys_new (config : CacheConfig) (rule : EntryRule) : (new config).Obeys rule :=
  ⟨Lru.holds_new _ _, Lru.holds_new _ _, Lru.holds_new _ _, Lru.holds_new _ _⟩

theorem Obeys.insertBlock (h : cache.Obeys rule) {block : StoredBlock}
    (hblock : rule.block block.number block) (hnumber : rule.number block.hash block.number) :
    (cache.insertBlock block).Obeys rule :=
  ⟨h.blocks.put hblock fun _ _ _ hold => hold, h.numbers.put hnumber fun _ _ _ hold => hold,
    h.transactions, h.receipts⟩

theorem foldl_insertTransaction (cache : ChainCache) (txs : List StoredTransaction) :
    txs.foldl insertTransaction cache = { cache with
      transactions := txs.foldl (fun c tx => c.put tx.hash tx) cache.transactions } := by
  induction txs generalizing cache with
  | nil => rfl
  | cons tx txs ih => exact ih (cache.insertTransaction tx)

theorem foldl_insertReceipt (cache : ChainCache) (receipts : List StoredReceipt) :
    receipts.foldl insertReceipt cache = { cache with
      receipts := receipts.foldl (fun c receipt => c.put receipt.transactionHash receipt)
        cache.receipts } := by
  induction receipts generalizing cache with
  | nil => rfl
  | cons receipt receipts ih => exact ih (cache.insertReceipt receipt)

theorem Obeys.insertBlockWithData (h : cache.Obeys rule) {block : StoredBlock}
    {txs : List StoredTransaction} {receipts : List StoredReceipt}
    (hadmits : rule.Admits rule' block txs receipts) :
    (cache.insertBlockWithData block txs receipts).Obeys rule' := by
  unfold ChainCache.insertBlockWithData
  rw [foldl_insertReceipt, foldl_insertTransaction]
  refine ⟨h.blocks.put hadmits.block_new hadmits.block_old,
    h.numbers.put hadmits.number_new hadmits.number_old,
    h.transactions.putAll hadmits.transaction_new fun hash tx hnone => ?_,
    h.receipts.putAll hadmits.receipt_new fun hash receipt hnone => ?_⟩
  · refine hadmits.transaction_old hash tx fun hmem => ?_
    obtain ⟨tx, htx, rfl⟩ := List.mem_map.mp hmem
    exact hnone tx htx rfl
  · refine hadmits.receipt_old hash receipt fun hmem => ?_
    obtain ⟨receipt, hreceipt, rfl⟩ := List.mem_map.mp hmem
    exact hnone receipt hreceipt rfl

end ChainCache

/-! ### Reads -/

namespace PersistentChainIndex

variable {index : PersistentChainIndex} {rule : EntryRule}

/-- A read leaves the database, and caches what the rule allows. -/
def Keeps (index : PersistentChainIndex) (rule : EntryRule) (index' : PersistentChainIndex) :
    Prop :=
  index'.db = index.db ∧ (index.cache.Obeys rule → rule.Allows index.db → index'.cache.Obeys rule)

theorem Keeps.trans {index₁ index₂ index₃ : PersistentChainIndex} (h₁ : index₁.Keeps rule index₂)
    (h₂ : index₂.Keeps rule index₃) : index₁.Keeps rule index₃ := by
  refine ⟨h₂.1.trans h₁.1, fun hobeys hallows => h₂.2 (h₁.2 hobeys hallows) ?_⟩
  rw [h₁.1]
  exact hallows

variable (rule)

theorem keeps_getBlockByNumber (index : PersistentChainIndex) (number : UInt64) :
    index.Keeps rule ⟨index.db, (index.cache.getBlockByNumber number).2⟩ :=
  ⟨rfl, fun h _ => ⟨h.blocks.get number, h.numbers, h.transactions, h.receipts⟩⟩

theorem keeps_getBlockNumberByHash (index : PersistentChainIndex) (hash : B256) :
    index.Keeps rule ⟨index.db, (index.cache.getBlockNumberByHash hash).2⟩ :=
  ⟨rfl, fun h _ => ⟨h.blocks, h.numbers.get hash, h.transactions, h.receipts⟩⟩

theorem keeps_getBlock (index : PersistentChainIndex) (number : UInt64) :
    index.Keeps rule (index.getBlock number).2 := by
  have hget := index.keeps_getBlockByNumber rule number
  unfold getBlock
  split
  · rename_i hcached
    rwa [hcached] at hget
  · rename_i hmissed
    rw [hmissed] at hget
    split
    · rename_i block hblock
      refine ⟨rfl, fun hobeys hallows => ?_⟩
      obtain ⟨hentry, hnumber⟩ := hallows.block number block hblock
      exact (hget.2 hobeys hallows).insertBlock hentry hnumber
    · exact hget

theorem keeps_getBlockNumber (index : PersistentChainIndex) (hash : B256) :
    index.Keeps rule (index.getBlockNumber hash).2 := by
  have hget := index.keeps_getBlockNumberByHash rule hash
  unfold getBlockNumber
  split
  · rename_i hcached
    rwa [hcached] at hget
  · rename_i hmissed
    rwa [hmissed] at hget

theorem keeps_cache_getBlockByHash (index : PersistentChainIndex) (hash : B256) :
    index.Keeps rule ⟨index.db, (index.cache.getBlockByHash hash).2⟩ := by
  have hget := index.keeps_getBlockNumberByHash rule hash
  unfold ChainCache.getBlockByHash
  split
  · rename_i number cache hcached
    rw [hcached] at hget
    exact hget.trans (keeps_getBlockByNumber rule ⟨index.db, cache⟩ number)
  · rename_i hmissed
    rwa [hmissed] at hget

theorem keeps_getBlockByHash (index : PersistentChainIndex) (hash : B256) :
    index.Keeps rule (index.getBlockByHash hash).2 := by
  have hget := index.keeps_cache_getBlockByHash rule hash
  unfold getBlockByHash
  split
  · rename_i hcached
    rwa [hcached] at hget
  · rename_i cache hmissed
    rw [hmissed] at hget
    have hnumber := hget.trans (keeps_getBlockNumber rule ⟨index.db, cache⟩ hash)
    split
    · rename_i number index' hfound
      rw [hfound] at hnumber
      exact hnumber.trans (index'.keeps_getBlock rule number)
    · rename_i hnone
      rwa [hnone] at hnumber

theorem keeps_getTransaction (index : PersistentChainIndex) (hash : B256) :
    index.Keeps rule (index.getTransaction hash).2 := by
  have hget : index.Keeps rule ⟨index.db, (index.cache.getTransaction hash).2⟩ :=
    ⟨rfl, fun h _ => ⟨h.blocks, h.numbers, h.transactions.get hash, h.receipts⟩⟩
  unfold getTransaction
  split
  · rename_i hcached
    rwa [hcached] at hget
  · rename_i hmissed
    rw [hmissed] at hget
    split
    · rename_i tx htx
      refine ⟨rfl, fun hobeys hallows => ?_⟩
      have hcache := hget.2 hobeys hallows
      exact ⟨hcache.blocks, hcache.numbers,
        hcache.transactions.put (hallows.transaction hash tx htx) fun _ _ _ hold => hold,
        hcache.receipts⟩
    · exact hget

theorem keeps_getReceipt (index : PersistentChainIndex) (hash : B256) :
    index.Keeps rule (index.getReceipt hash).2 := by
  have hget : index.Keeps rule ⟨index.db, (index.cache.getReceipt hash).2⟩ :=
    ⟨rfl, fun h _ => ⟨h.blocks, h.numbers, h.transactions, h.receipts.get hash⟩⟩
  unfold getReceipt
  split
  · rename_i hcached
    rwa [hcached] at hget
  · rename_i hmissed
    rw [hmissed] at hget
    split
    · rename_i receipt hreceipt
      refine ⟨rfl, fun hobeys hallows => ?_⟩
      have hcache := hget.2 hobeys hallows
      exact ⟨hcache.blocks, hcache.numbers, hcache.transactions,
        hcache.receipts.put (hallows.receipt hash receipt hreceipt) fun _ _ _ hold => hold⟩
    · exact hget

/-! ### Runs -/

theorem storeBlock_cases (index : PersistentChainIndex) (block : StoredBlock)
    (txs : List StoredTransaction) (receipts : List StoredReceipt) :
    (∃ db', index.db.storeBlock block txs receipts = .ok db' ∧
      (index.storeBlock block txs receipts).2 =
        ⟨db', index.cache.insertBlockWithData block txs receipts⟩) ∨
      (index.storeBlock block txs receipts).2 = index := by
  unfold storeBlock
  cases hstore : index.db.storeBlock block txs receipts with
  | ok db' => exact .inl ⟨db', rfl, rfl⟩
  | error e => exact .inr rfl

end PersistentChainIndex

/-- Along every run the cache obeys a rule that each stored block carries over from the database
before it to the one after it. -/
theorem Reached.obeys {condition : StoreCondition} {config : CacheConfig}
    {index : PersistentChainIndex} (rule : Database → EntryRule) (Inv : Database → Prop)
    (hreached : Reached condition config index) (hempty : Inv .empty)
    (hallows : ∀ db, Inv db → (rule db).Allows db)
    (hstore : ∀ db block txs receipts db', Inv db → condition db block txs receipts →
      db.storeBlock block txs receipts = .ok db' →
        Inv db' ∧ (rule db).Admits (rule db') block txs receipts) :
    Inv index.db ∧ index.cache.Obeys (rule index.db) := by
  induction hreached with
  | new => exact ⟨hempty, ChainCache.obeys_new _ _⟩
  | @after index request hreached hmeets ih =>
    obtain ⟨hinv, hobeys⟩ := ih
    have hread : ∀ index' : PersistentChainIndex, index.Keeps (rule index.db) index' →
        Inv index'.db ∧ index'.cache.Obeys (rule index'.db) := by
      intro index' hkeeps
      rw [hkeeps.1]
      exact ⟨hinv, hkeeps.2 hobeys (hallows _ hinv)⟩
    cases request with
    | storeBlock block txs receipts =>
      show Inv (index.storeBlock block txs receipts).2.db ∧
        (index.storeBlock block txs receipts).2.cache.Obeys
          (rule (index.storeBlock block txs receipts).2.db)
      rcases index.storeBlock_cases block txs receipts with ⟨db', hok, heq⟩ | heq
      · obtain ⟨hinv', hadmits⟩ := hstore _ _ _ _ _ hinv hmeets hok
        rw [heq]
        exact ⟨hinv', hobeys.insertBlockWithData hadmits⟩
      · rw [heq]
        exact ⟨hinv, hobeys⟩
    | getBlock number => exact hread _ (index.keeps_getBlock _ number)
    | getBlockNumber hash => exact hread _ (index.keeps_getBlockNumber _ hash)
    | getBlockByHash hash => exact hread _ (index.keeps_getBlockByHash _ hash)
    | getTransaction hash => exact hread _ (index.keeps_getTransaction _ hash)
    | getReceipt hash => exact hread _ (index.keeps_getReceipt _ hash)

end Evolve.ChainIndex
