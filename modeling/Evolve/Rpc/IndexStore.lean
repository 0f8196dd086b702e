import Mathlib
import Evolve.Lib.Table
import Evolve.Rpc.ChainIndex

/-! The database of the chain index: a table of blocks, one of transactions and one of receipts,
both keyed by the hash of the transaction, and one of logs.  Storing a block replaces what is stored
under its number, and also what is stored elsewhere about its transactions. -/

namespace Evolve.ChainIndex

open Machine Eth Relational Effects

/-! ### Rows -/

/-- A row has no block hash: that is read from the block's own row. -/
structure TransactionRow where
  hash : B256
  blockNumber : UInt64
  transactionIndex : Nat
  fromAddress : Address
  toAddress : Option Address
  value : U256
  gas : UInt64
  gasPrice : U256
  input : Bytes
  nonce : UInt64
  v : UInt64
  r : U256
  s : U256
  txType : UInt8
  chainId : Option UInt64
  maxFeePerGas : Option U256
  maxPriorityFeePerGas : Option U256

/-- The row of a transaction, whose index is its position in the list that is stored. -/
def TransactionRow.ofStored (tx : StoredTransaction) (arrayIndex : Nat) : TransactionRow where
  hash := tx.hash
  blockNumber := tx.blockNumber
  transactionIndex := arrayIndex
  fromAddress := tx.fromAddress
  toAddress := tx.toAddress
  value := tx.value
  gas := tx.gas
  gasPrice := tx.gasPrice
  input := tx.input
  nonce := tx.nonce
  v := tx.v
  r := tx.r
  s := tx.s
  txType := tx.txType
  chainId := tx.chainId
  maxFeePerGas := tx.maxFeePerGas
  maxPriorityFeePerGas := tx.maxPriorityFeePerGas

def TransactionRow.toStored (row : TransactionRow) (blockHash : B256) : StoredTransaction where
  hash := row.hash
  blockNumber := row.blockNumber
  blockHash := blockHash
  transactionIndex := UInt32.ofNat row.transactionIndex
  fromAddress := row.fromAddress
  toAddress := row.toAddress
  value := row.value
  gas := row.gas
  gasPrice := row.gasPrice
  input := row.input
  nonce := row.nonce
  v := row.v
  r := row.r
  s := row.s
  txType := row.txType
  chainId := row.chainId
  maxFeePerGas := row.maxFeePerGas
  maxPriorityFeePerGas := row.maxPriorityFeePerGas

/-- A row has neither the block hash nor the gas price nor the logs: those are read from the rows of
the block, of the transaction and of the logs. -/
structure ReceiptRow where
  transactionHash : B256
  transactionIndex : Nat
  blockNumber : UInt64
  fromAddress : Address
  toAddress : Option Address
  cumulativeGasUsed : UInt64
  gasUsed : UInt64
  contractAddress : Option Address
  status : UInt8
  txType : UInt8
  revertReason : Option String

def ReceiptRow.ofStored (receipt : StoredReceipt) (arrayIndex : Nat) : ReceiptRow where
  transactionHash := receipt.transactionHash
  transactionIndex := arrayIndex
  blockNumber := receipt.blockNumber
  fromAddress := receipt.fromAddress
  toAddress := receipt.toAddress
  cumulativeGasUsed := receipt.cumulativeGasUsed
  gasUsed := receipt.gasUsed
  contractAddress := receipt.contractAddress
  status := receipt.status
  txType := receipt.txType
  revertReason := receipt.revertReason

def ReceiptRow.toStored (row : ReceiptRow) (blockHash : B256) (gasPrice : U256)
    (logs : List StoredLog) : StoredReceipt where
  transactionHash := row.transactionHash
  transactionIndex := UInt32.ofNat row.transactionIndex
  blockHash := blockHash
  blockNumber := row.blockNumber
  fromAddress := row.fromAddress
  toAddress := row.toAddress
  cumulativeGasUsed := row.cumulativeGasUsed
  gasUsed := row.gasUsed
  effectiveGasPrice := gasPrice
  contractAddress := row.contractAddress
  logs := logs
  status := row.status
  txType := row.txType
  revertReason := row.revertReason

structure LogRow where
  blockNumber : UInt64
  transactionHash : B256
  log : StoredLog

/-! ### The database -/

inductive ChainIndexError where
  | sqlite (text : String)
deriving DecidableEq

def foreignKeyFailed : ChainIndexError := .sqlite "FOREIGN KEY constraint failed"

/-- The hashes of blocks are unique besides their numbers.  Logs are in the order of their
identifiers. -/
structure Database where
  blocks : Table StoredBlock.number
  uniqueHash : (blocks.rows.map StoredBlock.hash).Nodup
  transactions : Table TransactionRow.hash
  receipts : Table ReceiptRow.transactionHash
  logs : List LogRow
  latestBlock : Option UInt64

variable {index : Nat} {number : UInt64} {hash : B256}

namespace Database

def empty : Database := ⟨.empty, List.nodup_nil, .empty, .empty, [], none⟩

variable (db : Database)

def deleteBlockData (number : UInt64) : Database :=
  { db with
    logs := db.logs.filter fun log => log.blockNumber ≠ number
    receipts := db.receipts.delete fun row => row.blockNumber = number
    transactions := db.transactions.delete fun row => row.blockNumber = number }

/-- Some row refers to the block. -/
def references (number : UInt64) : Bool :=
  db.transactions.rows.any (fun row => row.blockNumber = number) ||
    db.receipts.rows.any (fun row => row.blockNumber = number) ||
    db.logs.any fun log => log.blockNumber = number

/-- Replaces the blocks with the same number or the same hash.  A block with another number cannot
be replaced while rows refer to it. -/
def insertBlock (block : StoredBlock) : Except ChainIndexError Database :=
  if db.blocks.rows.any fun b =>
      b.hash = block.hash && b.number ≠ block.number && db.references b.number then
    .error foreignKeyFailed
  else
    .ok { db with
      blocks := (db.blocks.delete fun b => b.hash = block.hash).upsert block
      uniqueHash := Table.nodup_map_upsert db.uniqueHash block }

def requireBlock (number : UInt64) : Except ChainIndexError Unit :=
  if (db.blocks.find number).isSome then .ok () else .error foreignKeyFailed

def insertTransaction (tx : StoredTransaction) (arrayIndex : Nat) :
    Except ChainIndexError Database := do
  db.requireBlock tx.blockNumber
  pure { db with transactions := db.transactions.upsert (.ofStored tx arrayIndex) }

def insertTransactions :
    Nat → List StoredTransaction → Database → Except ChainIndexError Database
  | _, [], db => .ok db
  | index, tx :: txs, db => do
    let db ← db.insertTransaction tx index
    insertTransactions (index + 1) txs db

def insertReceipt (receipt : StoredReceipt) (arrayIndex : Nat) :
    Except ChainIndexError Database := do
  db.requireBlock receipt.blockNumber
  pure { db with receipts := db.receipts.upsert (.ofStored receipt arrayIndex) }

def insertLog (number : UInt64) (hash : B256) (db : Database) (log : StoredLog) :
    Except ChainIndexError Database := do
  db.requireBlock number
  pure { db with logs := db.logs ++ [⟨number, hash, log⟩] }

def insertReceipts (number : UInt64) :
    Nat → List StoredReceipt → Database → Except ChainIndexError Database
  | _, [], db => .ok db
  | index, receipt :: receipts, db => do
    let db ← db.insertReceipt receipt index
    let db ← receipt.logs.foldlM (insertLog number receipt.transactionHash) db
    insertReceipts number (index + 1) receipts db

/-- One transaction of the database: an error leaves it as it was. -/
def storeBlock (block : StoredBlock) (txs : List StoredTransaction)
    (receipts : List StoredReceipt) : Except ChainIndexError Database := do
  let db := db.deleteBlockData block.number
  let db ← db.insertBlock block
  let db ← insertTransactions 0 txs db
  let db ← insertReceipts block.number 0 receipts db
  pure { db with latestBlock := some block.number }

/-! ### Queries -/

def block (number : UInt64) : Option StoredBlock := db.blocks.find number

def blockNumber (hash : B256) : Option UInt64 :=
  (db.blocks.rows.find? fun b => b.hash = hash).map StoredBlock.number

def transactionsOf (number : UInt64) : List TransactionRow :=
  db.transactions.rows.filter fun row => row.blockNumber = number

def blockTransactions (number : UInt64) : List B256 :=
  ((db.transactionsOf number).mergeSort fun a b => a.transactionIndex ≤ b.transactionIndex).map
    TransactionRow.hash

def transaction (hash : B256) : Option StoredTransaction := do
  let row ← db.transactions.find hash
  let block ← db.blocks.find row.blockNumber
  pure (row.toStored block.hash)

def logsForTx (hash : B256) : List StoredLog :=
  (db.logs.filter fun row => row.transactionHash = hash).map LogRow.log

def receipt (hash : B256) : Option StoredReceipt := do
  let row ← db.receipts.find hash
  let tx ← db.transactions.find row.transactionHash
  let block ← db.blocks.find row.blockNumber
  pure (row.toStored block.hash tx.gasPrice (db.logsForTx hash))

def logsByBlock (number : UInt64) : List StoredLog :=
  (db.logs.filter fun row => row.blockNumber = number).map LogRow.log

/-! ### What storing a block changes -/

def transactionRows (index : Nat) (txs : List StoredTransaction) : List TransactionRow :=
  (txs.zipIdx index).map fun p => .ofStored p.1 p.2

def receiptRows (index : Nat) (receipts : List StoredReceipt) : List ReceiptRow :=
  (receipts.zipIdx index).map fun p => .ofStored p.1 p.2

def logRows (number : UInt64) (receipts : List StoredReceipt) : List LogRow :=
  receipts.flatMap fun receipt => receipt.logs.map (LogRow.mk number receipt.transactionHash)

variable {txs : List StoredTransaction}

theorem insertTransactions_ok {db db' : Database} (h : insertTransactions index txs db = .ok db') :
    db' = { db with transactions := db.transactions.upsertAll (transactionRows index txs) } := by
  induction txs generalizing index db with
  | nil =>
    cases h
    rfl
  | cons tx txs ih =>
    obtain ⟨db₁, hfirst, h⟩ := bind_eq_ok h
    obtain ⟨_, _, ⟨⟩⟩ := bind_eq_ok hfirst
    exact ih h

theorem insertLogs_ok {logs : List StoredLog} {db db' : Database}
    (h : logs.foldlM (insertLog number hash) db = .ok db') :
    db' = { db with logs := db.logs ++ logs.map (LogRow.mk number hash) } := by
  induction logs generalizing db with
  | nil =>
    cases h
    simp
  | cons log logs ih =>
    rw [List.foldlM_cons] at h
    obtain ⟨db₁, hfirst, h⟩ := bind_eq_ok h
    obtain ⟨_, _, ⟨⟩⟩ := bind_eq_ok hfirst
    rw [ih h]
    simp

variable {receipts : List StoredReceipt}

theorem insertReceipts_ok {db db' : Database}
    (h : insertReceipts number index receipts db = .ok db') :
    db' = { db with
      receipts := db.receipts.upsertAll (receiptRows index receipts)
      logs := db.logs ++ logRows number receipts } := by
  induction receipts generalizing index db with
  | nil =>
    cases h
    simp [logRows, receiptRows, Table.upsertAll]
  | cons receipt receipts ih =>
    obtain ⟨db₁, hfirst, h⟩ := bind_eq_ok h
    obtain ⟨_, _, ⟨⟩⟩ := bind_eq_ok hfirst
    obtain ⟨db₂, hlogs, h⟩ := bind_eq_ok h
    rw [ih h, insertLogs_ok hlogs]
    simp [logRows, receiptRows, Table.upsertAll]

/-- How a block that could be stored has changed the tables. -/
structure Stores (db : Database) (block : StoredBlock) (txs : List StoredTransaction)
    (receipts : List StoredReceipt) (db' : Database) : Prop where
  blocks_eq : db'.blocks = (db.blocks.delete fun b => b.hash = block.hash).upsert block
  transactions_eq : db'.transactions =
    (db.transactions.delete fun row => row.blockNumber = block.number).upsertAll
      (transactionRows 0 txs)
  receipts_eq : db'.receipts =
    (db.receipts.delete fun row => row.blockNumber = block.number).upsertAll
      (receiptRows 0 receipts)
  logs_eq : db'.logs =
    (db.logs.filter fun log => log.blockNumber ≠ block.number) ++ logRows block.number receipts
  unreferenced : ∀ b ∈ db.blocks.rows, b.hash = block.hash → b.number ≠ block.number →
    ∀ row ∈ db.transactions.rows, row.blockNumber ≠ b.number

theorem stores_of_storeBlock {db db' : Database} {block : StoredBlock}
    (h : db.storeBlock block txs receipts = .ok db') : Stores db block txs receipts db' := by
  obtain ⟨db₁, hblock, h⟩ := bind_eq_ok h
  obtain ⟨db₂, htxs, h⟩ := bind_eq_ok h
  obtain ⟨db₃, hreceipts, ⟨⟩⟩ := bind_eq_ok h
  unfold insertBlock at hblock
  split at hblock
  · cases hblock
  · rename_i hfree
    cases hblock
    rw [insertReceipts_ok hreceipts, insertTransactions_ok htxs]
    refine ⟨rfl, rfl, rfl, rfl, fun b hb hhash hnumber row hrow hrefers => hfree ?_⟩
    have hkept : row.blockNumber ≠ block.number := hrefers ▸ hnumber
    have hreferences : (db.deleteBlockData block.number).references b.number = true := by
      have hmem : row ∈ (db.deleteBlockData block.number).transactions.rows :=
        Table.mem_delete.mpr ⟨hrow, by simpa using hkept⟩
      unfold references
      rw [List.any_eq_true.mpr ⟨row, hmem, by simpa using hrefers⟩]
      rfl
    exact List.any_eq_true.mpr ⟨b, hb, by simp [hhash, hnumber, hreferences]⟩

theorem latestBlock_of_storeBlock {db db' : Database} {block : StoredBlock}
    (h : db.storeBlock block txs receipts = .ok db') : db'.latestBlock = some block.number := by
  obtain ⟨db₁, -, h⟩ := bind_eq_ok h
  obtain ⟨db₂, -, h⟩ := bind_eq_ok h
  obtain ⟨db₃, -, ⟨⟩⟩ := bind_eq_ok h
  rfl

end Database

/-! ### The data of a block -/

/-- The data that belongs together: every transaction and every receipt says where it is, and there
is a receipt with the same gas price for each transaction.  `build_index_data` makes it so. -/
structure Placed (block : StoredBlock) (txs : List StoredTransaction)
    (receipts : List StoredReceipt) : Prop where
  distinct : (txs.map StoredTransaction.hash).Nodup
  length_eq : receipts.length = txs.length
  tx_placed : ∀ (index : Nat) (tx : StoredTransaction), txs[index]? = some tx →
    tx.blockNumber = block.number ∧ tx.blockHash = block.hash ∧
      tx.transactionIndex = UInt32.ofNat index
  receipt_placed : ∀ (index : Nat) (receipt : StoredReceipt), receipts[index]? = some receipt →
    receipt.blockNumber = block.number ∧ receipt.blockHash = block.hash ∧
      receipt.transactionIndex = UInt32.ofNat index
  paired : ∀ (index : Nat) (receipt : StoredReceipt), receipts[index]? = some receipt →
    ∃ tx : StoredTransaction, txs[index]? = some tx ∧ receipt.transactionHash = tx.hash ∧
      receipt.effectiveGasPrice = tx.gasPrice

/-- The block also says how many transactions it has. -/
structure Consistent (block : StoredBlock) (txs : List StoredTransaction)
    (receipts : List StoredReceipt) : Prop extends Placed block txs receipts where
  count : block.transactionCount.toNat = txs.length

theorem Placed.map_transactionHash {block : StoredBlock} {txs : List StoredTransaction}
    {receipts : List StoredReceipt} (h : Placed block txs receipts) :
    receipts.map StoredReceipt.transactionHash = txs.map StoredTransaction.hash := by
  refine List.ext_getElem? fun index => ?_
  rw [List.getElem?_map, List.getElem?_map]
  cases hreceipt : receipts[index]? with
  | none =>
    have hlength := List.getElem?_eq_none_iff.mp hreceipt
    rw [h.length_eq] at hlength
    rw [List.getElem?_eq_none hlength]
    rfl
  | some receipt =>
    obtain ⟨tx, htx, hhash, -⟩ := h.paired index receipt hreceipt
    rw [htx]
    exact congrArg some hhash

variable {tx : StoredTransaction}

section

variable {crypto : Crypto} {sha256 : Bytes → B256} {Tx Block : Type} [Transaction Tx]
  [IndexedTransaction Tx] [BlockTrait Block Tx]

/-- Both parts of an entry say where it is, and agree about its transaction. -/
theorem placed_of_indexLoop {blockNumber : UInt64} {blockHash : B256} {chainId : UInt64} {idx : Nat}
    {cumulativeGas : UInt64} {pairs : List (Tx × TxResult)} {receipt : StoredReceipt}
    (h : (indexLoop crypto blockNumber blockHash chainId idx cumulativeGas pairs)[index]? =
      some (tx, receipt)) :
    (tx.blockNumber = blockNumber ∧ tx.blockHash = blockHash ∧
      tx.transactionIndex = UInt32.ofNat (idx + index)) ∧
    (receipt.blockNumber = blockNumber ∧ receipt.blockHash = blockHash ∧
      receipt.transactionIndex = UInt32.ofNat (idx + index)) ∧
    receipt.transactionHash = tx.hash ∧ receipt.effectiveGasPrice = tx.gasPrice := by
  induction pairs generalizing idx cumulativeGas index with
  | nil => cases h
  | cons pair pairs ih =>
    cases index with
    | zero =>
      cases h
      unfold buildStoredTransaction buildStoredReceipt
      cases IndexedTransaction.ethereumFields pair.1 with
      | none => exact ⟨⟨rfl, rfl, rfl⟩, ⟨rfl, rfl, rfl⟩, rfl, rfl⟩
      | some fields => exact ⟨⟨rfl, rfl, rfl⟩, ⟨rfl, rfl, rfl⟩, rfl, rfl⟩
    | succ index =>
      rw [show idx + (index + 1) = idx + 1 + index by omega]
      exact ih h

theorem buildIndexData_placed (block : Block) (result : BlockResult) (metadata : BlockMetadata)
    (hdistinct : (((buildIndexData crypto sha256 block result metadata).2.1).map
      StoredTransaction.hash).Nodup) :
    Placed (buildIndexData crypto sha256 block result metadata).1
      (buildIndexData crypto sha256 block result metadata).2.1
      (buildIndexData crypto sha256 block result metadata).2.2 := by
  -- the lists that are stored are the two sides of the entries of the loop
  have hplaced {index : Nat} {tx : StoredTransaction} {receipt : StoredReceipt}
      (h : (indexLoop crypto (BlockTrait.context block).height metadata.hash metadata.chainId 0 0
        ((BlockTrait.txs block).zip result.txResults))[index]? = some (tx, receipt)) :=
    Nat.zero_add index ▸ placed_of_indexLoop h
  refine ⟨hdistinct, ?_, fun index tx htx => ?_, fun index receipt hreceipt => ?_,
    fun index receipt hreceipt => ?_⟩
  · simp [buildIndexData]
  · obtain ⟨⟨tx, receipt⟩, hentry, rfl⟩ :=
      Option.map_eq_some_iff.mp (List.getElem?_map.symm.trans htx)
    exact (hplaced hentry).1
  · obtain ⟨⟨tx, receipt⟩, hentry, rfl⟩ :=
      Option.map_eq_some_iff.mp (List.getElem?_map.symm.trans hreceipt)
    exact (hplaced hentry).2.1
  · obtain ⟨⟨tx, receipt⟩, hentry, rfl⟩ :=
      Option.map_eq_some_iff.mp (List.getElem?_map.symm.trans hreceipt)
    refine ⟨tx, List.getElem?_map.trans ?_, (hplaced hentry).2.2⟩
    rw [hentry]
    rfl

end

theorem TransactionRow.toStored_ofStored (hhash : tx.blockHash = hash)
    (hindex : tx.transactionIndex = UInt32.ofNat index) :
    (TransactionRow.ofStored tx index).toStored hash = tx := by
  subst hhash
  unfold ofStored toStored
  rw [← hindex]

theorem ReceiptRow.toStored_ofStored {receipt : StoredReceipt} {gasPrice : U256}
    {logs : List StoredLog} (hhash : receipt.blockHash = hash)
    (hindex : receipt.transactionIndex = UInt32.ofNat index)
    (hprice : receipt.effectiveGasPrice = gasPrice) (hlogs : receipt.logs = logs) :
    (ReceiptRow.ofStored receipt index).toStored hash gasPrice logs = receipt := by
  subst hhash hprice hlogs
  unfold ofStored toStored
  rw [← hindex]

namespace Database

theorem map_hash_transactionRows (index : Nat) (txs : List StoredTransaction) :
    (transactionRows index txs).map TransactionRow.hash = txs.map StoredTransaction.hash := by
  have h := congrArg (List.map StoredTransaction.hash) (List.zipIdx_map_fst index txs)
  rw [List.map_map] at h
  rw [transactionRows, List.map_map]
  exact h

theorem map_hash_receiptRows (index : Nat) (receipts : List StoredReceipt) :
    (receiptRows index receipts).map ReceiptRow.transactionHash =
      receipts.map StoredReceipt.transactionHash := by
  have h := congrArg (List.map StoredReceipt.transactionHash) (List.zipIdx_map_fst index receipts)
  rw [List.map_map] at h
  rw [receiptRows, List.map_map]
  exact h

variable {row : TransactionRow}

theorem mem_transactionRows {txs : List StoredTransaction} :
    row ∈ transactionRows 0 txs ↔ ∃ index tx, txs[index]? = some tx ∧ row = .ofStored tx index := by
  unfold transactionRows
  rw [List.mem_map]
  constructor
  · rintro ⟨⟨tx, index⟩, hmem, rfl⟩
    exact ⟨index, tx, List.mk_mem_zipIdx_iff_getElem?.mp hmem, rfl⟩
  · rintro ⟨index, tx, htx, rfl⟩
    exact ⟨(tx, index), List.mk_mem_zipIdx_iff_getElem?.mpr htx, rfl⟩

theorem mem_receiptRows {receipts : List StoredReceipt} {row : ReceiptRow} :
    row ∈ receiptRows 0 receipts ↔
      ∃ index receipt, receipts[index]? = some receipt ∧ row = .ofStored receipt index := by
  unfold receiptRows
  rw [List.mem_map]
  constructor
  · rintro ⟨⟨receipt, index⟩, hmem, rfl⟩
    exact ⟨index, receipt, List.mk_mem_zipIdx_iff_getElem?.mp hmem, rfl⟩
  · rintro ⟨index, receipt, hreceipt, rfl⟩
    exact ⟨(receipt, index), List.mk_mem_zipIdx_iff_getElem?.mpr hreceipt, rfl⟩

theorem map_log_filter_logRows (number : UInt64) (hash : B256) (receipts : List StoredReceipt) :
    ((logRows number receipts).filter (fun row => row.transactionHash = hash)).map LogRow.log =
      (receipts.filter fun receipt => receipt.transactionHash = hash).flatMap
        StoredReceipt.logs := by
  induction receipts with
  | nil => rfl
  | cons receipt receipts ih =>
    have hsplit : logRows number (receipt :: receipts) =
        receipt.logs.map (LogRow.mk number receipt.transactionHash) ++ logRows number receipts :=
      List.flatMap_cons
    rw [hsplit, List.filter_append, List.map_append, ih]
    by_cases hhash : receipt.transactionHash = hash
    · rw [List.filter_cons_of_pos (by simpa using hhash), List.flatMap_cons,
        List.filter_eq_self.mpr (by simp [hhash]), List.map_map]
      exact congrArg (· ++ _) (List.map_id _)
    · rw [List.filter_cons_of_neg (by simpa using hhash),
        List.filter_eq_nil_iff.mpr (by simp [hhash]), List.map_nil, List.nil_append]

/-! ### When a block can be stored -/

/-- Another block has the hash of the block, and rows refer to it. -/
def HashTaken (db : Database) (block : StoredBlock) : Prop :=
  ∃ b ∈ db.blocks.rows, b.hash = block.hash ∧ b.number ≠ block.number ∧
    db.references b.number = true

theorem references_deleteBlockData (db : Database) {other : UInt64} (hne : other ≠ number) :
    (db.deleteBlockData number).references other = db.references other := by
  have hfilter {α : Type} (f : α → UInt64) (rows : List α) :
      (rows.filter fun row => f row ≠ number).any (fun row => f row = other) =
        rows.any fun row => f row = other := by
    rw [Bool.eq_iff_iff, List.any_eq_true, List.any_eq_true]
    constructor
    · rintro ⟨row, hrow, hother⟩
      exact ⟨row, (List.mem_filter.mp hrow).1, hother⟩
    · rintro ⟨row, hrow, hother⟩
      have hother' := of_decide_eq_true hother
      exact ⟨row, List.mem_filter.mpr ⟨hrow, by simpa [hother'] using hne⟩, hother⟩
  unfold references deleteBlockData Table.delete
  simp only [← decide_not, hfilter]

theorem insertTransactions_total {txs : List StoredTransaction} {db : Database}
    (h : ∀ tx ∈ txs, (db.blocks.find tx.blockNumber).isSome) (index : Nat) :
    ∃ db', insertTransactions index txs db = .ok db' := by
  induction txs generalizing index db with
  | nil => exact ⟨db, rfl⟩
  | cons tx txs ih =>
    let db₁ : Database := { db with transactions := db.transactions.upsert (.ofStored tx index) }
    have hfirst : db.insertTransaction tx index = .ok db₁ := by
      unfold insertTransaction requireBlock
      rw [if_pos (h tx (List.mem_cons_self ..))]
      rfl
    have hrest : ∀ tx ∈ txs, (db₁.blocks.find tx.blockNumber).isSome :=
      fun tx htx => h tx (List.mem_cons_of_mem _ htx)
    unfold insertTransactions
    rw [hfirst]
    exact ih hrest (index + 1)

theorem insertLogs_total {db : Database} (h : (db.blocks.find number).isSome) (hash : B256)
    (logs : List StoredLog) : ∃ db', logs.foldlM (insertLog number hash) db = .ok db' := by
  induction logs generalizing db with
  | nil => exact ⟨db, rfl⟩
  | cons log logs ih =>
    let db₁ : Database := { db with logs := db.logs ++ [⟨number, hash, log⟩] }
    have hfirst : insertLog number hash db log = .ok db₁ := by
      unfold insertLog requireBlock
      rw [if_pos h]
      rfl
    have hrest : (db₁.blocks.find number).isSome := h
    rw [List.foldlM_cons, hfirst]
    exact ih hrest

theorem insertReceipts_total {receipts : List StoredReceipt} {db : Database}
    (hnumber : (db.blocks.find number).isSome)
    (h : ∀ receipt ∈ receipts, (db.blocks.find receipt.blockNumber).isSome) (index : Nat) :
    ∃ db', insertReceipts number index receipts db = .ok db' := by
  induction receipts generalizing index db with
  | nil => exact ⟨db, rfl⟩
  | cons receipt receipts ih =>
    let db₁ : Database := { db with receipts := db.receipts.upsert (.ofStored receipt index) }
    have hfirst : db.insertReceipt receipt index = .ok db₁ := by
      unfold insertReceipt requireBlock
      rw [if_pos (h receipt (List.mem_cons_self ..))]
      rfl
    have hnumber₁ : (db₁.blocks.find number).isSome := hnumber
    obtain ⟨db₂, hlogs⟩ := insertLogs_total hnumber₁ receipt.transactionHash receipt.logs
    have hblocks : db₂.blocks = db.blocks := by rw [insertLogs_ok hlogs]
    obtain ⟨db', hrest⟩ := ih (hblocks ▸ hnumber)
      (fun receipt hmem => hblocks ▸ h receipt (List.mem_cons_of_mem _ hmem)) (index + 1)
    refine ⟨db', ?_⟩
    unfold insertReceipts
    rw [hfirst]
    show (receipt.logs.foldlM (insertLog number receipt.transactionHash) db₁ >>= _) = _
    rw [hlogs]
    exact hrest

theorem storeBlock_cases {db : Database} {block : StoredBlock} {txs : List StoredTransaction}
    {receipts : List StoredReceipt} (hdata : Placed block txs receipts) :
    (db.HashTaken block ∧ db.storeBlock block txs receipts = .error foreignKeyFailed) ∨
      ¬ db.HashTaken block ∧ ∃ db', db.storeBlock block txs receipts = .ok db' := by
  have htaken : db.HashTaken block ↔ (db.deleteBlockData block.number).blocks.rows.any (fun b =>
      b.hash = block.hash && b.number ≠ block.number &&
        (db.deleteBlockData block.number).references b.number) = true := by
    rw [List.any_eq_true]
    refine exists_congr fun b => and_congr_right fun _ => ?_
    by_cases hne : b.number = block.number
    · simp [hne]
    · simp [hne, references_deleteBlockData db hne]
  unfold storeBlock
  dsimp only
  by_cases h : db.HashTaken block
  · refine .inl ⟨h, ?_⟩
    unfold insertBlock
    rw [if_pos (htaken.mp h)]
    rfl
  · refine .inr ⟨h, ?_⟩
    obtain ⟨db₁, hblock, hfound⟩ : ∃ db₁, (db.deleteBlockData block.number).insertBlock block =
        .ok db₁ ∧ db₁.blocks.find block.number = some block := by
      unfold insertBlock
      rw [if_neg (mt htaken.mpr h)]
      exact ⟨_, rfl, Table.find_eq_some_iff.mpr ⟨Table.mem_upsert.mpr (.inr rfl), rfl⟩⟩
    have htxs : ∀ tx ∈ txs, (db₁.blocks.find tx.blockNumber).isSome := by
      intro tx htx
      obtain ⟨index, hindex⟩ := List.mem_iff_getElem?.mp htx
      rw [(hdata.tx_placed index tx hindex).1, hfound]
      rfl
    obtain ⟨db₂, htxs⟩ := insertTransactions_total htxs 0
    have hblocks : db₂.blocks = db₁.blocks := by rw [insertTransactions_ok htxs]
    have hreceipts : ∀ receipt ∈ receipts, (db₂.blocks.find receipt.blockNumber).isSome := by
      intro receipt hmem
      obtain ⟨index, hindex⟩ := List.mem_iff_getElem?.mp hmem
      rw [(hdata.receipt_placed index receipt hindex).1, hblocks, hfound]
      rfl
    obtain ⟨db₃, hreceipts⟩ :=
      insertReceipts_total (by rw [hblocks, hfound]; rfl) hreceipts 0
    rw [hblock]
    show ∃ db', (insertTransactions 0 txs db₁ >>= _) = _
    rw [htxs]
    show ∃ db', (insertReceipts block.number 0 receipts db₂ >>= _) = _
    rw [hreceipts]
    exact ⟨_, rfl⟩

/-- The rows belong together: a receipt and a log are stored under the number of the block that
their transaction is stored under, and a block has as many transactions as it says. -/
structure Sound (db : Database) : Prop where
  receipts : ∀ row ∈ db.receipts.rows, ∃ tx ∈ db.transactions.rows,
    tx.hash = row.transactionHash ∧ tx.blockNumber = row.blockNumber
  logs : ∀ log ∈ db.logs, ∃ tx ∈ db.transactions.rows,
    tx.hash = log.transactionHash ∧ tx.blockNumber = log.blockNumber
  count : ∀ b ∈ db.blocks.rows, (db.transactionsOf b.number).length = b.transactionCount.toNat

theorem sound_empty : Sound empty := ⟨nofun, nofun, nofun⟩

/-- No transaction of the block is stored under another number. -/
def NotElsewhere (db : Database) (block : StoredBlock) (txs : List StoredTransaction) : Prop :=
  ∀ row ∈ db.transactions.rows, row.hash ∈ txs.map StoredTransaction.hash →
    row.blockNumber = block.number

/-- No transaction of the block has logs under another number. -/
def NotLoggedElsewhere (db : Database) (block : StoredBlock) (txs : List StoredTransaction) :
    Prop :=
  ∀ log ∈ db.logs, log.transactionHash ∈ txs.map StoredTransaction.hash →
    log.blockNumber = block.number

theorem Sound.notLoggedElsewhere {db : Database} (h : db.Sound) {block : StoredBlock}
    {txs : List StoredTransaction} (hhere : db.NotElsewhere block txs) :
    db.NotLoggedElsewhere block txs := by
  intro log hlog hmem
  obtain ⟨tx, htx, htxHash, htxNumber⟩ := h.logs log hlog
  rw [← htxNumber]
  exact hhere tx htx (htxHash ▸ hmem)

/-- The transaction is neither in the block nor in the one that the block replaces. -/
structure Untouched (db : Database) (block : StoredBlock) (txs : List StoredTransaction)
    (hash : B256) : Prop where
  notMem : hash ∉ txs.map StoredTransaction.hash
  elsewhere : ∀ row ∈ db.transactions.rows, row.hash = hash → row.blockNumber ≠ block.number

namespace Stores

variable {db db' : Database} {block : StoredBlock} {txs : List StoredTransaction}
  {receipts : List StoredReceipt} (hstores : Stores db block txs receipts db')
include hstores

theorem mem_blocks {b : StoredBlock} : b ∈ db'.blocks.rows ↔
    (b ∈ db.blocks.rows ∧ b.hash ≠ block.hash ∧ b.number ≠ block.number) ∨ b = block := by
  rw [hstores.blocks_eq, Table.mem_upsert, Table.mem_delete, and_assoc, decide_eq_false_iff_not]

theorem block_stored : db'.blocks.find block.number = some block :=
  Table.find_eq_some_iff.mpr ⟨hstores.mem_blocks.mpr (.inr rfl), rfl⟩

/-- A block that a transaction is stored under is not replaced by one with another number. -/
theorem find_block (hrow : row ∈ db.transactions.rows) (hnumber : row.blockNumber ≠ block.number) :
    db'.blocks.find row.blockNumber = db.blocks.find row.blockNumber := by
  refine Table.find_congr fun b hb => ?_
  rw [hstores.mem_blocks]
  constructor
  · rintro (⟨hmem, -, -⟩ | rfl)
    · exact hmem
    · exact absurd hb.symm hnumber
  · intro hmem
    have hne : b.number ≠ block.number := hb ▸ hnumber
    refine .inl ⟨hmem, fun hhash => ?_, hne⟩
    exact hstores.unreferenced b hmem hhash hne row hrow hb.symm

variable (hdata : Placed block txs receipts)
include hdata

theorem mem_transactions : row ∈ db'.transactions.rows ↔
    (row ∈ db.transactions.rows ∧ row.blockNumber ≠ block.number ∧
      row.hash ∉ txs.map StoredTransaction.hash) ∨ row ∈ transactionRows 0 txs := by
  have hdistinct : ((transactionRows 0 txs).map TransactionRow.hash).Nodup := by
    rw [map_hash_transactionRows]
    exact hdata.distinct
  rw [hstores.transactions_eq, Table.mem_upsertAll hdistinct, Table.mem_delete,
    map_hash_transactionRows, and_assoc, decide_eq_false_iff_not]

theorem mem_receipts {row : ReceiptRow} : row ∈ db'.receipts.rows ↔
    (row ∈ db.receipts.rows ∧ row.blockNumber ≠ block.number ∧
      row.transactionHash ∉ txs.map StoredTransaction.hash) ∨ row ∈ receiptRows 0 receipts := by
  have hdistinct : ((receiptRows 0 receipts).map ReceiptRow.transactionHash).Nodup := by
    rw [map_hash_receiptRows, hdata.map_transactionHash]
    exact hdata.distinct
  rw [hstores.receipts_eq, Table.mem_upsertAll hdistinct, Table.mem_delete,
    map_hash_receiptRows, hdata.map_transactionHash, and_assoc, decide_eq_false_iff_not]

/-! Transactions that are left alone -/

theorem find_untouched (h : Untouched db block txs hash) :
    db'.transactions.find hash = db.transactions.find hash := by
  refine Table.find_congr fun row hrow => ?_
  rw [hstores.mem_transactions hdata]
  constructor
  · rintro (⟨hmem, -, -⟩ | hnew)
    · exact hmem
    · have hhash := List.mem_map_of_mem (f := TransactionRow.hash) hnew
      rw [map_hash_transactionRows, hrow] at hhash
      exact absurd hhash h.notMem
  · intro hmem
    exact .inl ⟨hmem, h.elsewhere row hmem hrow, hrow ▸ h.notMem⟩

theorem transaction_untouched (h : Untouched db block txs hash) :
    db'.transaction hash = db.transaction hash := by
  unfold transaction
  rw [hstores.find_untouched hdata h]
  cases hfound : db.transactions.find hash with
  | none => rfl
  | some row =>
    obtain ⟨hrow, hhash⟩ := Table.find_eq_some_iff.mp hfound
    show (db'.blocks.find row.blockNumber >>= _) = (db.blocks.find row.blockNumber >>= _)
    rw [hstores.find_block hrow (h.elsewhere row hrow hhash)]

theorem logsForTx_untouched (hsound : db.Sound) (h : Untouched db block txs hash) :
    db'.logsForTx hash = db.logsForTx hash := by
  have hnew : (logRows block.number receipts).filter (fun row => row.transactionHash = hash) =
      [] := by
    refine List.filter_eq_nil_iff.mpr fun log hlog hhash => h.notMem ?_
    obtain ⟨receipt, hreceipt, hlog⟩ := List.mem_flatMap.mp hlog
    obtain ⟨_, _, rfl⟩ := List.mem_map.mp hlog
    have hmem := List.mem_map_of_mem (f := StoredReceipt.transactionHash) hreceipt
    rw [hdata.map_transactionHash] at hmem
    exact of_decide_eq_true hhash ▸ hmem
  unfold logsForTx
  rw [hstores.logs_eq, List.filter_append, hnew, List.append_nil, List.filter_filter]
  refine congrArg (List.map LogRow.log) (List.filter_congr fun log hlog => ?_)
  by_cases hhash : log.transactionHash = hash
  · obtain ⟨tx, htx, htxHash, hnumber⟩ := hsound.logs log hlog
    have hne := h.elsewhere tx htx (htxHash.trans hhash)
    rw [hnumber] at hne
    simp [hhash, hne]
  · simp [hhash]

theorem receipt_untouched (hsound : db.Sound) (h : Untouched db block txs hash) :
    db'.receipt hash = db.receipt hash := by
  have hfind : db'.receipts.find hash = db.receipts.find hash := by
    refine Table.find_congr fun row hrow => ?_
    rw [hstores.mem_receipts hdata]
    constructor
    · rintro (⟨hmem, -, -⟩ | hnew)
      · exact hmem
      · have hhash := List.mem_map_of_mem (f := ReceiptRow.transactionHash) hnew
        rw [map_hash_receiptRows, hdata.map_transactionHash, hrow] at hhash
        exact absurd hhash h.notMem
    · intro hmem
      obtain ⟨tx, htx, htxHash, hnumber⟩ := hsound.receipts row hmem
      refine .inl ⟨hmem, ?_, hrow ▸ h.notMem⟩
      rw [← hnumber]
      exact h.elsewhere tx htx (htxHash.trans hrow)
  unfold receipt
  rw [hfind, hstores.logsForTx_untouched hdata hsound h]
  cases hfound : db.receipts.find hash with
  | none => rfl
  | some row =>
    obtain ⟨hrow, hhash⟩ := Table.find_eq_some_iff.mp hfound
    obtain ⟨tx, htx, htxHash, hnumber⟩ := hsound.receipts row hrow
    have hblock : db'.blocks.find row.blockNumber = db.blocks.find row.blockNumber := by
      rw [← hnumber]
      exact hstores.find_block htx (h.elsewhere tx htx (htxHash.trans hhash))
    show (db'.transactions.find row.transactionHash >>= fun tx => db'.blocks.find row.blockNumber
      >>= _) = (db.transactions.find row.transactionHash >>= fun tx =>
        db.blocks.find row.blockNumber >>= _)
    rw [hblock, hhash, hstores.find_untouched hdata h]

/-! Transactions of the block -/

theorem mem_new (htx : txs[index]? = some tx) :
    TransactionRow.ofStored tx index ∈ db'.transactions.rows :=
  (hstores.mem_transactions hdata).mpr (.inr (mem_transactionRows.mpr ⟨index, tx, htx, rfl⟩))

theorem find_new (htx : txs[index]? = some tx) :
    db'.transactions.find tx.hash = some (.ofStored tx index) :=
  Table.find_eq_some_iff.mpr ⟨hstores.mem_new hdata htx, rfl⟩

theorem transaction_new (htx : txs[index]? = some tx) : db'.transaction tx.hash = some tx := by
  obtain ⟨hnumber, hhash, hindex⟩ := hdata.tx_placed index tx htx
  have hblock : db'.blocks.find (TransactionRow.ofStored tx index).blockNumber = some block :=
    (congrArg db'.blocks.find hnumber).trans hstores.block_stored
  unfold transaction
  rw [hstores.find_new hdata htx]
  show (db'.blocks.find (TransactionRow.ofStored tx index).blockNumber >>= _) = _
  rw [hblock]
  exact congrArg some (TransactionRow.toStored_ofStored hhash hindex)

theorem logsForTx_new (hlogs : db.NotLoggedElsewhere block txs) {receipt : StoredReceipt}
    (hmem : receipt ∈ receipts) :
    db'.logsForTx receipt.transactionHash = receipt.logs := by
  have hhash := List.mem_map_of_mem (f := StoredReceipt.transactionHash) hmem
  have hold : (db.logs.filter fun log => log.blockNumber ≠ block.number).filter
      (fun row => row.transactionHash = receipt.transactionHash) = [] := by
    refine List.filter_eq_nil_iff.mpr fun log hlog hsame => ?_
    obtain ⟨hlog, hnumber⟩ := List.mem_filter.mp hlog
    rw [hdata.map_transactionHash, ← of_decide_eq_true hsame] at hhash
    exact of_decide_eq_true hnumber (hlogs log hlog hhash)
  unfold logsForTx
  rw [hstores.logs_eq, List.filter_append, hold, List.nil_append, map_log_filter_logRows,
    Lists.filter_eq_singleton (hdata.map_transactionHash ▸ hdata.distinct) hmem]
  exact List.append_nil _

theorem receipt_new (hlogs : db.NotLoggedElsewhere block txs) {receipt : StoredReceipt}
    (hreceipt : receipts[index]? = some receipt) :
    db'.receipt receipt.transactionHash = some receipt := by
  obtain ⟨hnumber, hhash, hindex⟩ := hdata.receipt_placed index receipt hreceipt
  obtain ⟨tx, htx, htxHash, hprice⟩ := hdata.paired index receipt hreceipt
  have hfind : db'.receipts.find receipt.transactionHash = some (.ofStored receipt index) :=
    Table.find_eq_some_iff.mpr ⟨(hstores.mem_receipts hdata).mpr
      (.inr (mem_receiptRows.mpr ⟨index, receipt, hreceipt, rfl⟩)), rfl⟩
  have htxRow : db'.transactions.find (ReceiptRow.ofStored receipt index).transactionHash =
      some (.ofStored tx index) :=
    (congrArg db'.transactions.find htxHash).trans (hstores.find_new hdata htx)
  have hblock : db'.blocks.find (ReceiptRow.ofStored receipt index).blockNumber = some block :=
    (congrArg db'.blocks.find hnumber).trans hstores.block_stored
  have hlogs := hstores.logsForTx_new hdata hlogs (List.mem_of_getElem? hreceipt)
  unfold Database.receipt
  rw [hfind]
  show (db'.transactions.find (ReceiptRow.ofStored receipt index).transactionHash >>= fun tx =>
    db'.blocks.find (ReceiptRow.ofStored receipt index).blockNumber >>= _) = _
  rw [htxRow, hblock]
  exact congrArg some (ReceiptRow.toStored_ofStored hhash hindex hprice hlogs.symm)

/-! Other blocks -/

theorem transactionsOf_other (hhere : db.NotElsewhere block txs) (hne : number ≠ block.number) :
    db'.transactionsOf number = db.transactionsOf number := by
  unfold transactionsOf
  rw [hstores.transactions_eq, Table.filter_upsertAll]
  · unfold Table.delete
    rw [List.filter_filter]
    refine List.filter_congr fun row _ => ?_
    by_cases hrow : row.blockNumber = number
    · simp [hrow, hne]
    · simp [hrow]
  · intro row hrow
    obtain ⟨index, tx, htx, rfl⟩ := mem_transactionRows.mp hrow
    have hnumber : (TransactionRow.ofStored tx index).blockNumber = block.number :=
      (hdata.tx_placed index tx htx).1
    simpa [hnumber] using hne.symm
  · intro row hrow hnumber hhash
    rw [map_hash_transactionRows] at hhash
    have hhere := hhere row (Table.mem_delete.mp hrow).1 hhash
    exact hne ((of_decide_eq_true hnumber).symm.trans hhere)

theorem transactionsOf_block : db'.transactionsOf block.number = transactionRows 0 txs := by
  unfold transactionsOf
  rw [hstores.transactions_eq]
  refine Table.filter_upsertAll_new ?_ ?_ ?_
  · rw [map_hash_transactionRows]
    exact hdata.distinct
  · intro row hrow
    obtain ⟨index, tx, htx, rfl⟩ := mem_transactionRows.mp hrow
    exact decide_eq_true (hdata.tx_placed index tx htx).1
  · refine List.filter_eq_nil_iff.mpr fun row hrow hnumber => ?_
    have hother := (Table.mem_delete.mp hrow).2
    rw [hnumber] at hother
    cases hother

theorem blockTransactions_block :
    db'.blockTransactions block.number = txs.map StoredTransaction.hash := by
  have hsorted : (transactionRows 0 txs).Pairwise fun a b =>
      decide (a.transactionIndex ≤ b.transactionIndex) = true :=
    List.pairwise_map.mpr ((Lists.pairwise_zipIdx txs 0).imp fun hlt => decide_eq_true hlt.le)
  unfold blockTransactions
  rw [hstores.transactionsOf_block hdata, List.mergeSort_of_pairwise hsorted,
    map_hash_transactionRows]

omit hdata in
theorem logsByBlock_other (hne : number ≠ block.number) :
    db'.logsByBlock number = db.logsByBlock number := by
  have hnew : (logRows block.number receipts).filter (fun row => row.blockNumber = number) =
      [] := by
    refine List.filter_eq_nil_iff.mpr fun log hlog hnumber => ?_
    obtain ⟨receipt, -, hlog⟩ := List.mem_flatMap.mp hlog
    obtain ⟨_, _, rfl⟩ := List.mem_map.mp hlog
    exact hne (of_decide_eq_true hnumber).symm
  unfold logsByBlock
  rw [hstores.logs_eq, List.filter_append, hnew, List.append_nil, List.filter_filter]
  refine congrArg (List.map LogRow.log) (List.filter_congr fun log _ => ?_)
  by_cases hnumber : log.blockNumber = number
  · simp [hnumber, hne]
  · simp [hnumber]

omit hdata in
theorem logsByBlock_block :
    db'.logsByBlock block.number = receipts.flatMap StoredReceipt.logs := by
  have hold : (db.logs.filter fun log => log.blockNumber ≠ block.number).filter
      (fun row => row.blockNumber = block.number) = [] := by
    simp [List.filter_filter]
  have hnew : (logRows block.number receipts).filter (fun row => row.blockNumber = block.number) =
      logRows block.number receipts := by
    refine List.filter_eq_self.mpr fun log hlog => ?_
    obtain ⟨receipt, -, hlog⟩ := List.mem_flatMap.mp hlog
    obtain ⟨_, _, rfl⟩ := List.mem_map.mp hlog
    exact decide_eq_true rfl
  unfold logsByBlock
  rw [hstores.logs_eq, List.filter_append, hold, hnew]
  simp [logRows, List.map_flatMap, Function.comp_def]

theorem sound (hcount : block.transactionCount.toNat = txs.length) (hsound : db.Sound)
    (hhere : db.NotElsewhere block txs) : db'.Sound := by
  constructor
  · intro row hrow
    rcases (hstores.mem_receipts hdata).mp hrow with ⟨hrow, hnumber, hhash⟩ | hrow
    · obtain ⟨tx, htx, htxHash, htxNumber⟩ := hsound.receipts row hrow
      refine ⟨tx, (hstores.mem_transactions hdata).mpr (.inl ⟨htx, ?_, ?_⟩), htxHash, htxNumber⟩
      · rwa [htxNumber]
      · rwa [htxHash]
    · obtain ⟨index, receipt, hreceipt, rfl⟩ := mem_receiptRows.mp hrow
      obtain ⟨tx, htx, htxHash, -⟩ := hdata.paired index receipt hreceipt
      exact ⟨_, hstores.mem_new hdata htx, htxHash.symm, (hdata.tx_placed index tx htx).1.trans
        (hdata.receipt_placed index receipt hreceipt).1.symm⟩
  · intro log hlog
    rw [hstores.logs_eq] at hlog
    rcases List.mem_append.mp hlog with hlog | hlog
    · obtain ⟨hlog, hnumber⟩ := List.mem_filter.mp hlog
      obtain ⟨tx, htx, htxHash, htxNumber⟩ := hsound.logs log hlog
      have hne : tx.blockNumber ≠ block.number := htxNumber ▸ of_decide_eq_true hnumber
      refine ⟨tx, (hstores.mem_transactions hdata).mpr (.inl ⟨htx, hne, fun hmem => ?_⟩), htxHash,
        htxNumber⟩
      exact hne (hhere tx htx hmem)
    · obtain ⟨receipt, hmem, hlog⟩ := List.mem_flatMap.mp hlog
      obtain ⟨_, _, rfl⟩ := List.mem_map.mp hlog
      obtain ⟨index, hreceipt⟩ := List.mem_iff_getElem?.mp hmem
      obtain ⟨tx, htx, htxHash, -⟩ := hdata.paired index receipt hreceipt
      exact ⟨_, hstores.mem_new hdata htx, htxHash.symm, (hdata.tx_placed index tx htx).1⟩
  · intro b hb
    rcases hstores.mem_blocks.mp hb with ⟨hb, -, hnumber⟩ | rfl
    · rw [hstores.transactionsOf_other hdata hhere hnumber]
      exact hsound.count b hb
    · rw [hstores.transactionsOf_block hdata, hcount, transactionRows, List.length_map,
        List.length_zipIdx]

end Stores

end Database

end Evolve.ChainIndex
