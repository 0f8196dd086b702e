import Mathlib
import Evolve.Rpc.IndexCache

/-! Runs of the chain index.  The caches answer as the database does, and blocks do not change what
is answered about other blocks, while no number is given to a different block and no transaction is
included in two blocks.  Neither survives what `store_block` leaves behind otherwise. -/

namespace Evolve.ChainIndex

open Machine Eth Relational

/-! ### Answers of the database -/

variable {hash : B256} {number : UInt64} {b : StoredBlock}

namespace Database

def blockByHash (db : Database) (hash : B256) : Option StoredBlock := do
  let number ← db.blockNumber hash
  db.block number

variable {db : Database}

theorem blockNumber_eq_some_iff :
    db.blockNumber hash = some number ↔
      ∃ b ∈ db.blocks.rows, b.hash = hash ∧ b.number = number := by
  unfold blockNumber
  rw [Option.map_eq_some_iff]
  constructor
  · rintro ⟨b, hfound, hnumber⟩
    exact ⟨b, List.mem_of_find?_eq_some hfound, by simpa using List.find?_some hfound, hnumber⟩
  · rintro ⟨b, hb, hhash, hnumber⟩
    have hsome : (db.blocks.rows.find? fun b => b.hash = hash).isSome := by
      rw [List.find?_isSome]
      exact ⟨b, hb, by simpa using hhash⟩
    obtain ⟨found, hfound⟩ := Option.isSome_iff_exists.mp hsome
    have hsame : found.hash = hash := by simpa using List.find?_some hfound
    have heq := List.inj_on_of_nodup_map db.uniqueHash (List.mem_of_find?_eq_some hfound) hb
      (hsame.trans hhash.symm)
    exact ⟨found, hfound, heq ▸ hnumber⟩

theorem number_of_block (h : db.block number = some b) : b ∈ db.blocks.rows ∧ b.number = number :=
  Table.find_eq_some_iff.mp h

theorem hash_of_blockByHash (h : db.blockByHash hash = some b) : b.hash = hash := by
  obtain ⟨number, hnumber, hblock⟩ := Option.bind_eq_some_iff.mp h
  obtain ⟨hb, hnum⟩ := number_of_block hblock
  obtain ⟨b', hb', hhash, hnum'⟩ := blockNumber_eq_some_iff.mp hnumber
  have heq := List.inj_on_of_nodup_map db.blocks.unique hb hb' (hnum.trans hnum'.symm)
  rw [heq, hhash]

theorem hash_of_transaction {tx : StoredTransaction} (h : db.transaction hash = some tx) :
    tx.hash = hash := by
  obtain ⟨row, hrow, h⟩ := Option.bind_eq_some_iff.mp h
  obtain ⟨b, hblock, heq⟩ := Option.bind_eq_some_iff.mp h
  cases heq
  exact (Table.find_eq_some_iff.mp hrow).2

theorem hash_of_receipt {receipt : StoredReceipt} (h : db.receipt hash = some receipt) :
    receipt.transactionHash = hash := by
  obtain ⟨row, hrow, h⟩ := Option.bind_eq_some_iff.mp h
  obtain ⟨tx, htx, h⟩ := Option.bind_eq_some_iff.mp h
  obtain ⟨b, hblock, heq⟩ := Option.bind_eq_some_iff.mp h
  cases heq
  exact (Table.find_eq_some_iff.mp hrow).2

theorem mem_blockTransactions :
    hash ∈ db.blockTransactions number ↔
      ∃ row ∈ db.transactions.rows, row.blockNumber = number ∧ row.hash = hash := by
  unfold blockTransactions transactionsOf
  simp [and_assoc]

theorem length_blockTransactions (db : Database) (number : UInt64) :
    (db.blockTransactions number).length = (db.transactionsOf number).length := by
  unfold blockTransactions
  rw [List.length_map, List.length_mergeSort]

end Database

/-! ### Answers of the index -/

section

variable [LruCrate]

namespace PersistentChainIndex

variable {index : PersistentChainIndex}

theorem getBlock_fst
    (h : ∀ b, index.cache.blocksByNumber.peek number = some b → index.db.block number = some b) :
    (index.getBlock number).1 = index.db.block number := by
  unfold getBlock ChainCache.getBlockByNumber
  rw [Lru.get_fst]
  cases hcached : index.cache.blocksByNumber.peek number with
  | some b => exact (h b hcached).symm
  | none =>
    cases hblock : index.db.block number <;> rfl

theorem getBlock_cases (h : (index.getBlock number).1 = some b) :
    index.cache.blocksByNumber.peek number = some b ∨ index.db.block number = some b := by
  unfold getBlock ChainCache.getBlockByNumber at h
  rw [Lru.get_fst] at h
  cases hcached : index.cache.blocksByNumber.peek number with
  | some cached =>
    rw [hcached] at h
    exact .inl h
  | none =>
    cases hblock : index.db.block number with
    | some stored =>
      rw [hcached, hblock] at h
      exact .inr h
    | none =>
      rw [hcached, hblock] at h
      cases h

theorem getBlockNumber_fst (h : ∀ n, index.cache.blockNumberByHash.peek hash = some n →
      index.db.blockNumber hash = some n) :
    (index.getBlockNumber hash).1 = index.db.blockNumber hash := by
  unfold getBlockNumber ChainCache.getBlockNumberByHash
  rw [Lru.get_fst]
  cases hcached : index.cache.blockNumberByHash.peek hash with
  | some n => exact (h n hcached).symm
  | none => rfl

theorem getTransaction_fst (h : ∀ tx, index.cache.transactions.peek hash = some tx →
      index.db.transaction hash = some tx) :
    (index.getTransaction hash).1 = index.db.transaction hash := by
  unfold getTransaction ChainCache.getTransaction
  rw [Lru.get_fst]
  cases hcached : index.cache.transactions.peek hash with
  | some tx => exact (h tx hcached).symm
  | none =>
    cases htx : index.db.transaction hash <;> rfl

theorem getReceipt_fst (h : ∀ receipt, index.cache.receipts.peek hash = some receipt →
      index.db.receipt hash = some receipt) :
    (index.getReceipt hash).1 = index.db.receipt hash := by
  unfold getReceipt ChainCache.getReceipt
  rw [Lru.get_fst]
  cases hcached : index.cache.receipts.peek hash with
  | some receipt => exact (h receipt hcached).symm
  | none =>
    cases hreceipt : index.db.receipt hash <;> rfl

end PersistentChainIndex

/-- Only what the database answers is cached. -/
def Database.answers (db : Database) : EntryRule where
  block number block := db.block number = some block
  number hash number := db.blockNumber hash = some number
  transaction hash tx := db.transaction hash = some tx
  receipt hash receipt := db.receipt hash = some receipt

omit [LruCrate] in
theorem Database.allows_answers (db : Database) : db.answers.Allows db where
  block number b h := by
    obtain ⟨hb, hnumber⟩ := number_of_block h
    subst hnumber
    exact ⟨h, blockNumber_eq_some_iff.mpr ⟨b, hb, rfl, rfl⟩⟩
  transaction hash tx h := (hash_of_transaction h).symm ▸ h
  receipt hash receipt h := (hash_of_receipt h).symm ▸ h

theorem ChainCache.getBlockByHash_fst {cache : ChainCache}
    (h : (cache.getBlockByHash hash).1 = some b) :
    ∃ number, cache.blockNumberByHash.peek hash = some number ∧
      cache.blocksByNumber.peek number = some b := by
  unfold getBlockByHash getBlockNumberByHash at h
  rw [Lru.get_fst] at h
  cases hnumber : cache.blockNumberByHash.peek hash with
  | none =>
    rw [hnumber] at h
    cases h
  | some number =>
    rw [hnumber] at h
    unfold getBlockByNumber at h
    rw [Lru.get_fst] at h
    exact ⟨number, rfl, h⟩

theorem PersistentChainIndex.getBlockByHash_fst {index : PersistentChainIndex}
    (hobeys : index.cache.Obeys index.db.answers) (hash : B256) :
    (index.getBlockByHash hash).1 = index.db.blockByHash hash := by
  have hkeeps := index.keeps_cache_getBlockByHash index.db.answers hash
  unfold getBlockByHash
  split
  · rename_i b cache hcached
    obtain ⟨number, hnumber, hblock⟩ :=
      ChainCache.getBlockByHash_fst (congrArg Prod.fst hcached)
    have hanswer := hobeys.numbers hash number hnumber
    unfold Database.blockByHash
    rw [show index.db.blockNumber hash = some number from hanswer]
    exact (hobeys.blocks number b hblock).symm
  · rename_i cache hmissed
    rw [hmissed] at hkeeps
    have hobeys := hkeeps.2 hobeys index.db.allows_answers
    have hnumber : (getBlockNumber ⟨index.db, cache⟩ hash).1 = index.db.blockNumber hash :=
      getBlockNumber_fst (hobeys.numbers hash)
    have hkeeps := keeps_getBlockNumber index.db.answers ⟨index.db, cache⟩ hash
    unfold Database.blockByHash
    rw [← hnumber]
    split
    · rename_i number index' hfound
      rw [hfound] at hkeeps ⊢
      have hobeys := hkeeps.2 hobeys index.db.allows_answers
      rw [getBlock_fst, hkeeps.1]
      · rfl
      · rw [hkeeps.1]
        exact hobeys.blocks number
    · rename_i hnone
      rw [hnone]
      rfl

/-! ### The same answers as without a cache -/

/-- The index answers each read as it would with an empty cache, and reads of a block by its hash
return only a block with that hash. -/
structure ReadsAsUncached (index : PersistentChainIndex) : Prop where
  block : ∀ config number,
    (index.getBlock number).1 = ((index.uncached config).getBlock number).1
  blockByHash : ∀ config hash,
    (index.getBlockByHash hash).1 = ((index.uncached config).getBlockByHash hash).1
  transaction : ∀ config hash,
    (index.getTransaction hash).1 = ((index.uncached config).getTransaction hash).1
  receipt : ∀ config hash,
    (index.getReceipt hash).1 = ((index.uncached config).getReceipt hash).1
  hash_eq : ∀ hash block, (index.getBlockByHash hash).1 = some block → block.hash = hash

/-- The block is stored for the first time, or it is the one that is stored under its number
already: the block with its number is the one with its hash, and the transactions under its number
are its own. -/
structure NewOrSame (db : Database) (block : StoredBlock) (txs : List StoredTransaction)
    (receipts : List StoredReceipt) : Prop where
  data : Consistent block txs receipts
  blocks : ∀ b ∈ db.blocks.rows, b.number = block.number ↔ b.hash = block.hash
  transactions : ∀ row ∈ db.transactions.rows,
    row.blockNumber = block.number ↔ row.hash ∈ txs.map StoredTransaction.hash

section

variable {db db' : Database} {block : StoredBlock} {txs : List StoredTransaction}
  {receipts : List StoredReceipt}

omit [LruCrate] in
theorem NewOrSame.notElsewhere (h : NewOrSame db block txs receipts) :
    db.NotElsewhere block txs := fun row hrow hmem => (h.transactions row hrow).mpr hmem

omit [LruCrate] in
theorem NewOrSame.untouched (h : NewOrSame db block txs receipts)
    (hmem : hash ∉ txs.map StoredTransaction.hash) : db.Untouched block txs hash := by
  refine ⟨hmem, fun row hrow hhash hnumber => hmem ?_⟩
  rw [← hhash]
  exact (h.transactions row hrow).mp hnumber

omit [LruCrate] in
theorem NewOrSame.admits_answers (h : NewOrSame db block txs receipts) (hsound : db.Sound)
    (hstores : Database.Stores db block txs receipts db') :
    db.answers.Admits db'.answers block txs receipts where
  block_new := hstores.block_stored
  block_old number b hne hblock := by
    obtain ⟨hb, rfl⟩ := Database.number_of_block hblock
    have hhash : b.hash ≠ block.hash := fun hhash => hne ((h.blocks b hb).mpr hhash)
    exact Table.find_eq_some_iff.mpr ⟨hstores.mem_blocks.mpr (.inl ⟨hb, hhash, hne⟩), rfl⟩
  number_new :=
    Database.blockNumber_eq_some_iff.mpr ⟨block, hstores.mem_blocks.mpr (.inr rfl), rfl, rfl⟩
  number_old hash number hne hnumber := by
    obtain ⟨b, hb, rfl, rfl⟩ := Database.blockNumber_eq_some_iff.mp hnumber
    have hnum : b.number ≠ block.number := fun hnum => hne ((h.blocks b hb).mp hnum)
    exact Database.blockNumber_eq_some_iff.mpr
      ⟨b, hstores.mem_blocks.mpr (.inl ⟨hb, hne, hnum⟩), rfl, rfl⟩
  transaction_new tx hmem := by
    obtain ⟨index, htx⟩ := List.mem_iff_getElem?.mp hmem
    exact hstores.transaction_new h.data.toPlaced htx
  transaction_old hash tx hmem hanswer :=
    (hstores.transaction_untouched h.data.toPlaced (h.untouched hmem)).trans hanswer
  receipt_new receipt hmem := by
    obtain ⟨index, hreceipt⟩ := List.mem_iff_getElem?.mp hmem
    exact hstores.receipt_new h.data.toPlaced (hsound.notLoggedElsewhere h.notElsewhere) hreceipt
  receipt_old hash receipt hmem hanswer := by
    rw [h.data.toPlaced.map_transactionHash] at hmem
    exact (hstores.receipt_untouched h.data.toPlaced hsound (h.untouched hmem)).trans hanswer

end

/-- Along every run whose blocks are new or stored again as they are, the cache is not seen. -/
theorem readsAsUncached_of_newOrSame {config : CacheConfig} {index : PersistentChainIndex}
    (h : Reached NewOrSame config index) : ReadsAsUncached index := by
  obtain ⟨-, hobeys⟩ := Reached.obeys Database.answers Database.Sound h
    Database.sound_empty (fun db _ => db.allows_answers)
    (fun db block txs receipts db' hsound hcondition hok =>
      have hstores := Database.stores_of_storeBlock hok
      ⟨hstores.sound hcondition.data.toPlaced hcondition.data.count hsound hcondition.notElsewhere,
        hcondition.admits_answers hsound hstores⟩)
  have huncached (config : CacheConfig) :
      (index.uncached config).cache.Obeys (index.uncached config).db.answers :=
    ChainCache.obeys_new config _
  constructor
  · intro config number
    rw [PersistentChainIndex.getBlock_fst (hobeys.blocks number),
      PersistentChainIndex.getBlock_fst ((huncached config).blocks number)]
    rfl
  · intro config hash
    rw [PersistentChainIndex.getBlockByHash_fst hobeys,
      PersistentChainIndex.getBlockByHash_fst (huncached config)]
    rfl
  · intro config hash
    rw [PersistentChainIndex.getTransaction_fst (hobeys.transactions hash),
      PersistentChainIndex.getTransaction_fst ((huncached config).transactions hash)]
    rfl
  · intro config hash
    rw [PersistentChainIndex.getReceipt_fst (hobeys.receipts hash),
      PersistentChainIndex.getReceipt_fst ((huncached config).receipts hash)]
    rfl
  · intro hash block hfound
    rw [PersistentChainIndex.getBlockByHash_fst hobeys] at hfound
    exact Database.hash_of_blockByHash hfound

end

/-! A block with one transaction -/

def sampleBlock (number : UInt64) (hash : B256) (transactionCount : UInt32) : StoredBlock where
  number := number
  hash := hash
  parentHash := .repeatByte 32 0
  stateRoot := .repeatByte 32 0
  transactionsRoot := .repeatByte 32 0
  receiptsRoot := .repeatByte 32 0
  timestamp := 0
  gasUsed := 21000
  gasLimit := 30000000
  transactionCount := transactionCount
  miner := .repeatByte 20 0
  extraData := []

def sampleTransaction (number : UInt64) (blockHash hash : B256) : StoredTransaction where
  hash := hash
  blockNumber := number
  blockHash := blockHash
  transactionIndex := 0
  fromAddress := .repeatByte 20 1
  toAddress := some (.repeatByte 20 2)
  value := 5
  gas := 21000
  gasPrice := 1
  input := []
  nonce := 0
  v := 0
  r := 1
  s := 1
  txType := 0
  chainId := none
  maxFeePerGas := none
  maxPriorityFeePerGas := none

def sampleReceipt (number : UInt64) (blockHash hash : B256) : StoredReceipt where
  transactionHash := hash
  transactionIndex := 0
  blockHash := blockHash
  blockNumber := number
  fromAddress := .repeatByte 20 1
  toAddress := some (.repeatByte 20 2)
  cumulativeGasUsed := 21000
  gasUsed := 21000
  effectiveGasPrice := 1
  contractAddress := none
  logs := []
  status := 1
  txType := 0
  revertReason := none

theorem consistent_sample (number : UInt64) (blockHash hash : B256) :
    Consistent (sampleBlock number blockHash 1) [sampleTransaction number blockHash hash]
      [sampleReceipt number blockHash hash] := by
  have honly {α : Type} {a b : α} {index : Nat} (h : [a][index]? = some b) :
      index = 0 ∧ a = b := by
    cases index with
    | zero => exact ⟨rfl, Option.some.inj h⟩
    | succ index => cases h
  refine ⟨⟨List.nodup_singleton _, rfl, fun index tx h => ?_, fun index receipt h => ?_,
    fun index receipt h => ?_⟩, rfl⟩
  · obtain ⟨rfl, rfl⟩ := honly h
    exact ⟨rfl, rfl, rfl⟩
  · obtain ⟨rfl, rfl⟩ := honly h
    exact ⟨rfl, rfl, rfl⟩
  · obtain ⟨rfl, rfl⟩ := honly h
    exact ⟨_, rfl, rfl, rfl⟩

def storeSample (number : UInt64) (blockHash hash : B256) : Request :=
  .storeBlock (sampleBlock number blockHash 1) [sampleTransaction number blockHash hash]
    [sampleReceipt number blockHash hash]

theorem newOrSame_sample {db : Database} {blockHash : B256}
    (hblocks : ∀ b ∈ db.blocks.rows, b.number = number ↔ b.hash = blockHash)
    (htransactions : ∀ row ∈ db.transactions.rows, row.blockNumber = number ↔ row.hash = hash) :
    (storeSample number blockHash hash).Meets NewOrSame db :=
  ⟨consistent_sample .., hblocks, fun row hrow => (htransactions row hrow).trans (by simp
    [sampleTransaction])⟩

/-- Two blocks. -/
def twoBlocks : PersistentChainIndex :=
  (storeSample 2 (.repeatByte 32 2) (.repeatByte 32 8)).after
    ((storeSample 1 (.repeatByte 32 1) (.repeatByte 32 9)).after (.new .default))

/-- The first of two blocks is stored again, and read by its hash. -/
theorem readsAsUncached_sample :
    ReadsAsUncached ((Request.getBlockByHash (.repeatByte 32 1)).after
      ((storeSample 1 (.repeatByte 32 1) (.repeatByte 32 9)).after twoBlocks)) := by
  have hfirst : Reached NewOrSame .default
      ((storeSample 1 (.repeatByte 32 1) (.repeatByte 32 9)).after (.new .default)) :=
    .after .new (newOrSame_sample nofun nofun)
  have hsecond : Reached NewOrSame .default twoBlocks :=
    .after hfirst (newOrSame_sample (by decide +kernel) (by decide +kernel))
  exact readsAsUncached_of_newOrSame (.after
    (.after hsecond (newOrSame_sample (by decide +kernel) (by decide +kernel))) trivial)

/-- Block 1, and another block 1 with another transaction. -/
def replacedIndex : PersistentChainIndex :=
  (storeSample 1 (.repeatByte 32 2) (.repeatByte 32 8)).after
    ((storeSample 1 (.repeatByte 32 1) (.repeatByte 32 9)).after (.new .default))

/-- The hash of the first block still leads to the second. -/
theorem replacedIndex_reads : ¬ ReadsAsUncached replacedIndex := by
  intro h
  have hread : (replacedIndex.getBlockByHash (.repeatByte 32 1)).1.map StoredBlock.hash =
      some (.repeatByte 32 2) := by
    decide +kernel
  obtain ⟨block, hfound, hhash⟩ := Option.map_eq_some_iff.mp hread
  have hsame := h.hash_eq _ block hfound
  rw [hhash] at hsame
  exact absurd hsame (by decide)

/-! ### Blocks apart -/

section

variable [LruCrate]

/-- What the index returns for a block is the same. -/
structure SameFor (number : UInt64) (index index' : PersistentChainIndex) : Prop where
  transactions : index'.getBlockTransactions number = index.getBlockTransactions number
  receipts : ∀ hash ∈ index.getBlockTransactions number,
    (index'.getReceipt hash).1 = (index.getReceipt hash).1
  logs : index'.getLogsByBlock number = index.getLogsByBlock number

/-- As many transactions are listed for each block as it has. -/
def ListsAll (index : PersistentChainIndex) : Prop :=
  ∀ number block, (index.getBlock number).1 = some block →
    (index.getBlockTransactions number).length = block.transactionCount.toNat

/-- No transaction of the block is stored under another number. -/
structure Apart (db : Database) (block : StoredBlock) (txs : List StoredTransaction)
    (receipts : List StoredReceipt) : Prop where
  data : Consistent block txs receipts
  notElsewhere : db.NotElsewhere block txs

/-- A cached block has as many transactions as are listed for it, and the receipt of a listed
transaction is cached as it is stored.  Receipts of other transactions may be out of date. -/
def Database.listed (db : Database) : EntryRule where
  block number block := (db.transactionsOf number).length = block.transactionCount.toNat
  number _ _ := True
  transaction _ _ := True
  receipt hash receipt :=
    (∃ row ∈ db.transactions.rows, row.hash = hash) → db.receipt hash = some receipt

omit [LruCrate] in
theorem Database.Sound.allows_listed {db : Database} (h : db.Sound) : db.listed.Allows db where
  block _ b hblock := ⟨h.count b (number_of_block hblock).1, trivial⟩
  transaction _ _ _ := trivial
  receipt _ _ hreceipt _ := (hash_of_receipt hreceipt).symm ▸ hreceipt

namespace Apart

variable {db db' : Database} {block : StoredBlock} {txs : List StoredTransaction}
  {receipts : List StoredReceipt} (h : Apart db block txs receipts)
include h

omit [LruCrate] in
theorem untouched {row : TransactionRow} (hrow : row ∈ db.transactions.rows)
    (hnumber : row.blockNumber ≠ block.number) : db.Untouched block txs row.hash := by
  refine ⟨fun hmem => hnumber (h.notElsewhere row hrow hmem), fun other hother hhash => ?_⟩
  have heq := List.inj_on_of_nodup_map db.transactions.unique hother hrow hhash
  rwa [heq]

omit [LruCrate] in
theorem admits_listed (hsound : db.Sound) (hstores : Database.Stores db block txs receipts db') :
    db.listed.Admits db'.listed block txs receipts where
  block_new :=
    (hstores.sound h.data.toPlaced h.data.count hsound h.notElsewhere).count block
      (hstores.mem_blocks.mpr (.inr rfl))
  block_old number b hne hcount := by
    show (db'.transactionsOf number).length = _
    rw [hstores.transactionsOf_other h.data.toPlaced h.notElsewhere hne]
    exact hcount
  number_new := trivial
  number_old _ _ _ _ := trivial
  transaction_new _ _ := trivial
  transaction_old _ _ _ _ := trivial
  receipt_new receipt hmem _ := by
    obtain ⟨index, hreceipt⟩ := List.mem_iff_getElem?.mp hmem
    exact hstores.receipt_new h.data.toPlaced (hsound.notLoggedElsewhere h.notElsewhere) hreceipt
  receipt_old hash receipt hmem hcached := by
    rintro ⟨row, hrow, rfl⟩
    rw [h.data.toPlaced.map_transactionHash] at hmem
    rcases (hstores.mem_transactions h.data.toPlaced).mp hrow with ⟨hrow, hnumber, -⟩ | hnew
    · exact (hstores.receipt_untouched h.data.toPlaced hsound (h.untouched hrow hnumber)).trans
        (hcached ⟨row, hrow, rfl⟩)
    · have hhash := List.mem_map_of_mem (f := TransactionRow.hash) hnew
      rw [Database.map_hash_transactionRows] at hhash
      exact absurd hhash hmem

end Apart

variable {config : CacheConfig}

theorem sound_of_apart {index : PersistentChainIndex} (h : Reached Apart config index) :
    index.db.Sound ∧ index.cache.Obeys index.db.listed :=
  Reached.obeys Database.listed Database.Sound h Database.sound_empty
    (fun _ hsound => hsound.allows_listed)
    (fun _ _ _ _ _ hsound hcondition hok =>
      have hstores := Database.stores_of_storeBlock hok
      ⟨hstores.sound hcondition.data.toPlaced hcondition.data.count hsound hcondition.notElsewhere,
        hcondition.admits_listed hsound hstores⟩)

theorem Database.listed_receipt {index : PersistentChainIndex}
    (hobeys : index.cache.Obeys index.db.listed) {row : TransactionRow}
    (hrow : row ∈ index.db.transactions.rows) :
    (index.getReceipt row.hash).1 = index.db.receipt row.hash :=
  PersistentChainIndex.getReceipt_fst fun receipt hcached =>
    hobeys.receipts row.hash receipt hcached ⟨row, hrow, rfl⟩

theorem sameFor_storeBlock {index : PersistentChainIndex} (hreached : Reached Apart config index)
    {block : StoredBlock} {txs : List StoredTransaction} {receipts : List StoredReceipt}
    (h : Apart index.db block txs receipts) (hne : number ≠ block.number) :
    SameFor number index (index.storeBlock block txs receipts).2 := by
  have hafter : Reached Apart config ((Request.storeBlock block txs receipts).after index) :=
    .after hreached h
  change Reached Apart config (index.storeBlock block txs receipts).2 at hafter
  obtain ⟨hsound, hobeys⟩ := sound_of_apart hreached
  obtain ⟨-, hobeys'⟩ := sound_of_apart hafter
  rcases index.storeBlock_cases block txs receipts with ⟨db', hok, heq⟩ | heq
  · have hstores := Database.stores_of_storeBlock hok
    have hlist := hstores.transactionsOf_other h.data.toPlaced h.notElsewhere hne
    rw [heq] at hobeys' ⊢
    refine ⟨?_, fun hash hmem => ?_, hstores.logsByBlock_other hne⟩
    · show Database.blockTransactions db' number = index.db.blockTransactions number
      unfold Database.blockTransactions
      rw [hlist]
    · obtain ⟨row, hrow, hnumber, rfl⟩ := Database.mem_blockTransactions.mp hmem
      have hother : row.blockNumber ≠ block.number := hnumber ▸ hne
      have hmem' : row ∈ db'.transactions.rows :=
        (hstores.mem_transactions h.data.toPlaced).mpr
          (.inl ⟨hrow, hother, (h.untouched hrow hother).notMem⟩)
      rw [Database.listed_receipt hobeys hrow, Database.listed_receipt hobeys' hmem']
      exact hstores.receipt_untouched h.data.toPlaced hsound (h.untouched hrow hother)
  · rw [heq]
    exact ⟨rfl, fun _ _ => rfl, rfl⟩

theorem listsAll_of_apart {index : PersistentChainIndex} (h : Reached Apart config index) :
    ListsAll index := by
  obtain ⟨hsound, hobeys⟩ := sound_of_apart h
  intro number block hfound
  show (index.db.blockTransactions number).length = _
  rw [Database.length_blockTransactions]
  rcases PersistentChainIndex.getBlock_cases hfound with hcached | hstored
  · exact hobeys.blocks number block hcached
  · obtain ⟨hblock, rfl⟩ := Database.number_of_block hstored
    exact hsound.count block hblock

/-- Along every run in which no transaction is included in two blocks, blocks do not change each
other, and all transactions of a block are listed. -/
theorem blocks_apart {config : CacheConfig} {index : PersistentChainIndex}
    (h : Reached Apart config index) :
    (∀ block txs receipts, Apart index.db block txs receipts → ∀ number ≠ block.number,
      SameFor number index (index.storeBlock block txs receipts).2) ∧ ListsAll index :=
  ⟨fun _ _ _ hblock _ hne => sameFor_storeBlock h hblock hne, listsAll_of_apart h⟩

end

theorem apart_sample (number : UInt64) (blockHash hash : B256) :
    (storeSample number blockHash hash).Meets Apart .empty :=
  ⟨consistent_sample .., nofun⟩

def onceIndex : PersistentChainIndex :=
  (storeSample 1 (.repeatByte 32 1) (.repeatByte 32 9)).after (.new .default)

/-- A block with one transaction, and a second with another one. -/
theorem blocks_apart_sample : ListsAll onceIndex ∧ SameFor 1 onceIndex
    ((storeSample 2 (.repeatByte 32 2) (.repeatByte 32 8)).after onceIndex) := by
  have hreached : Reached Apart .default onceIndex := .after .new (apart_sample ..)
  have h := blocks_apart hreached
  refine ⟨h.2, h.1 _ _ _ ⟨consistent_sample .., ?_⟩ 1 (by decide)⟩
  unfold Database.NotElsewhere
  decide +kernel

/-- The transaction of block 1 is included in block 2 as well. -/
def twiceIndex : PersistentChainIndex :=
  (storeSample 2 (.repeatByte 32 2) (.repeatByte 32 9)).after onceIndex

/-- Then it is no longer listed for block 1. -/
theorem twiceIndex_lists : ¬ SameFor 1 onceIndex twiceIndex ∧ ¬ ListsAll twiceIndex := by
  constructor
  · intro h
    have hlists := congrArg List.length h.transactions
    revert hlists
    decide +kernel
  · intro h
    have hread : ((twiceIndex.getBlock 1).1.map StoredBlock.transactionCount) = some 1 := by
      decide +kernel
    obtain ⟨block, hfound, hcount⟩ := Option.map_eq_some_iff.mp hread
    have hlength := h 1 block hfound
    rw [hcount] at hlength
    revert hlength
    decide +kernel

end Evolve.ChainIndex
