import Mathlib
import Evolve.Rpc.IndexRuns

/-! The columns of the tables of the chain index.  SQLite keeps 64-bit integers, byte strings and
texts: what is stored is cast to these, and what is read is cast back and its lengths are checked.
The tables represent the database of whole values, and the queries read from them what the database
answers. -/

namespace Evolve.ChainIndex

open Machine Eth Relational Effects

/-! ### Columns -/

def u256ToBeBytes (value : U256) : Bytes := beBytes 32 value.toNat

structure BlockColumns where
  number : Int64
  hash : Bytes
  parentHash : Bytes
  stateRoot : Bytes
  transactionsRoot : Bytes
  receiptsRoot : Bytes
  timestamp : Int64
  gasUsed : Int64
  gasLimit : Int64
  transactionCount : Int64
  miner : Bytes
  extraData : Bytes

def BlockColumns.ofStored (block : StoredBlock) : BlockColumns where
  number := block.number.toInt64
  hash := block.hash.bytes
  parentHash := block.parentHash.bytes
  stateRoot := block.stateRoot.bytes
  transactionsRoot := block.transactionsRoot.bytes
  receiptsRoot := block.receiptsRoot.bytes
  timestamp := block.timestamp.toInt64
  gasUsed := block.gasUsed.toInt64
  gasLimit := block.gasLimit.toInt64
  transactionCount := block.transactionCount.toUInt64.toInt64
  miner := block.miner.bytes
  extraData := block.extraData

structure TransactionColumns where
  hash : Bytes
  blockNumber : Int64
  transactionIndex : Int64
  fromAddr : Bytes
  toAddr : Option Bytes
  value : Bytes
  gas : Int64
  gasPrice : Bytes
  input : Bytes
  nonce : Int64
  v : Int64
  r : Bytes
  s : Bytes
  txType : Int64
  chainId : Option Int64
  maxFeePerGas : Option Bytes
  maxPriorityFeePerGas : Option Bytes

def TransactionColumns.ofRow (row : TransactionRow) : TransactionColumns where
  hash := row.hash.bytes
  blockNumber := row.blockNumber.toInt64
  transactionIndex := Int64.ofNat row.transactionIndex
  fromAddr := row.fromAddress.bytes
  toAddr := row.toAddress.map FixedBytes.bytes
  value := u256ToBeBytes row.value
  gas := row.gas.toInt64
  gasPrice := u256ToBeBytes row.gasPrice
  input := row.input
  nonce := row.nonce.toInt64
  v := row.v.toInt64
  r := u256ToBeBytes row.r
  s := u256ToBeBytes row.s
  txType := row.txType.toUInt64.toInt64
  chainId := row.chainId.map UInt64.toInt64
  maxFeePerGas := row.maxFeePerGas.map u256ToBeBytes
  maxPriorityFeePerGas := row.maxPriorityFeePerGas.map u256ToBeBytes

structure ReceiptColumns where
  transactionHash : Bytes
  transactionIndex : Int64
  blockNumber : Int64
  fromAddr : Bytes
  toAddr : Option Bytes
  cumulativeGasUsed : Int64
  gasUsed : Int64
  contractAddress : Option Bytes
  status : Int64
  txType : Int64
  revertReason : Option String

def ReceiptColumns.ofRow (row : ReceiptRow) : ReceiptColumns where
  transactionHash := row.transactionHash.bytes
  transactionIndex := Int64.ofNat row.transactionIndex
  blockNumber := row.blockNumber.toInt64
  fromAddr := row.fromAddress.bytes
  toAddr := row.toAddress.map FixedBytes.bytes
  cumulativeGasUsed := row.cumulativeGasUsed.toInt64
  gasUsed := row.gasUsed.toInt64
  contractAddress := row.contractAddress.map FixedBytes.bytes
  status := row.status.toUInt64.toInt64
  txType := row.txType.toUInt64.toInt64
  revertReason := row.revertReason

/-- The JSON text of topics, as `serde_json` writes it and reads it back. -/
class TopicsJson where
  toText : List B256 → Bytes
  fromText : Bytes → Option (List B256)
  fromText_toText : ∀ topics, fromText (toText topics) = some topics

/-- Logs are in the order of their identifiers.  The topics are JSON text. -/
structure LogColumns where
  blockNumber : Int64
  transactionHash : Bytes
  address : Bytes
  topics : Bytes
  data : Bytes

def LogColumns.ofRow [TopicsJson] (row : LogRow) : LogColumns where
  blockNumber := row.blockNumber.toInt64
  transactionHash := row.transactionHash.bytes
  address := row.log.address.bytes
  topics := TopicsJson.toText row.log.topics
  data := row.log.data

/-! ### Reading columns -/

inductive ConversionCause where
  | text (text : String)
  | json

inductive RowError where
  | fromSqlConversionFailure (column : Nat) (cause : ConversionCause)
  /-- `U256::from_be_slice` panics on more than 32 bytes. -/
  | valueTooLarge

def fixedFromRow (n : Nat) (name : String) (bytes : Bytes) (col : Nat) :
    Except RowError (FixedBytes n) :=
  if h : bytes.length = n then .ok ⟨bytes, h⟩
  else .error (.fromSqlConversionFailure col (.text ("expected " ++ toString n ++ " bytes for " ++
    name ++ ", got " ++ toString bytes.length)))

def b256FromRow (bytes : Bytes) (col : Nat) : Except RowError B256 :=
  fixedFromRow 32 "B256" bytes col

def addressFromRow (bytes : Bytes) (col : Nat) : Except RowError Address :=
  fixedFromRow 20 "Address" bytes col

def u256FromBeSlice (bytes : Bytes) : Except RowError U256 :=
  if bytes.length ≤ 32 then .ok (BitVec.ofNat 256 (beNat bytes)) else .error .valueTooLarge

def rowToStoredBlock (row : BlockColumns) : Except RowError StoredBlock := do
  let hash ← b256FromRow row.hash 1
  let parentHash ← b256FromRow row.parentHash 2
  let stateRoot ← b256FromRow row.stateRoot 3
  let transactionsRoot ← b256FromRow row.transactionsRoot 4
  let receiptsRoot ← b256FromRow row.receiptsRoot 5
  let miner ← addressFromRow row.miner 10
  pure {
    number := row.number.toUInt64
    hash, parentHash, stateRoot, transactionsRoot, receiptsRoot
    timestamp := row.timestamp.toUInt64
    gasUsed := row.gasUsed.toUInt64
    gasLimit := row.gasLimit.toUInt64
    transactionCount := row.transactionCount.toUInt64.toUInt32
    miner
    extraData := row.extraData }

/-- The hash of the block is from the row of the block. -/
def rowToStoredTransaction (row : TransactionColumns) (blockHash : Bytes) :
    Except RowError StoredTransaction := do
  let toAddress ← row.toAddr.mapM (addressFromRow · 5)
  let hash ← b256FromRow row.hash 0
  let blockHash ← b256FromRow blockHash 2
  let fromAddress ← addressFromRow row.fromAddr 4
  let value ← u256FromBeSlice row.value
  let gasPrice ← u256FromBeSlice row.gasPrice
  let r ← u256FromBeSlice row.r
  let s ← u256FromBeSlice row.s
  let maxFeePerGas ← row.maxFeePerGas.mapM u256FromBeSlice
  let maxPriorityFeePerGas ← row.maxPriorityFeePerGas.mapM u256FromBeSlice
  pure {
    hash
    blockNumber := row.blockNumber.toUInt64
    blockHash
    transactionIndex := row.transactionIndex.toUInt64.toUInt32
    fromAddress, toAddress, value
    gas := row.gas.toUInt64
    gasPrice
    input := row.input
    nonce := row.nonce.toUInt64
    v := row.v.toUInt64
    r, s
    txType := row.txType.toUInt64.toUInt8
    chainId := row.chainId.map Int64.toUInt64
    maxFeePerGas, maxPriorityFeePerGas }

/-- The gas price is from the row of the transaction.  Logs are added later. -/
def rowToStoredReceipt (row : ReceiptColumns) (blockHash gasPrice : Bytes) :
    Except RowError StoredReceipt := do
  let toAddress ← row.toAddr.mapM (addressFromRow · 5)
  let contractAddress ← row.contractAddress.mapM (addressFromRow · 8)
  let transactionHash ← b256FromRow row.transactionHash 0
  let blockHash ← b256FromRow blockHash 2
  let fromAddress ← addressFromRow row.fromAddr 4
  let effectiveGasPrice ← u256FromBeSlice gasPrice
  pure {
    transactionHash
    transactionIndex := row.transactionIndex.toUInt64.toUInt32
    blockHash
    blockNumber := row.blockNumber.toUInt64
    fromAddress, toAddress
    cumulativeGasUsed := row.cumulativeGasUsed.toUInt64
    gasUsed := row.gasUsed.toUInt64
    effectiveGasPrice, contractAddress
    logs := []
    status := row.status.toUInt64.toUInt8
    txType := row.txType.toUInt64.toUInt8
    revertReason := row.revertReason }

def parseStoredLog [TopicsJson] (row : LogColumns) : Except RowError StoredLog := do
  let topics ←
    match TopicsJson.fromText row.topics with
    | some topics => .ok topics
    | none => .error (.fromSqlConversionFailure 1 .json)
  let address ← addressFromRow row.address 0
  pure ⟨address, topics, row.data⟩

/-! ### What was stored is read back -/

theorem fixedFromRow_bytes {n : Nat} (x : FixedBytes n) (name : String) (col : Nat) :
    fixedFromRow n name x.bytes col = .ok x := by
  unfold fixedFromRow
  rw [dif_pos x.length_eq]

@[simp] theorem b256FromRow_bytes (x : B256) (col : Nat) : b256FromRow x.bytes col = .ok x :=
  fixedFromRow_bytes x "B256" col

@[simp] theorem addressFromRow_bytes (x : Address) (col : Nat) :
    addressFromRow x.bytes col = .ok x :=
  fixedFromRow_bytes x "Address" col

@[simp] theorem u256FromBeSlice_toBeBytes (x : U256) :
    u256FromBeSlice (u256ToBeBytes x) = .ok x := by
  have hfits : x.toNat < 256 ^ 32 := x.isLt
  unfold u256FromBeSlice u256ToBeBytes
  rw [if_pos (by simp), beNat_beBytes, Nat.mod_eq_of_lt hfits]
  simp

theorem mapM_map_ok {α β : Type} {f : α → β} {g : β → Except RowError α}
    (h : ∀ a, g (f a) = .ok a) (o : Option α) : (o.map f).mapM g = .ok o := by
  cases o with
  | none => rfl
  | some a => simp [h a]

theorem mapM_rows_ok {α β γ : Type} {f : α → β} {g : β → Except RowError γ} {h : α → γ}
    (hread : ∀ a, g (f a) = .ok (h a)) (rows : List α) :
    (rows.map f).mapM g = .ok (rows.map h) := by
  induction rows with
  | nil => rfl
  | cons row rows ih =>
    rw [List.map_cons, List.mapM_cons, hread row, ih]
    rfl

theorem rowToStoredBlock_ofStored (block : StoredBlock) :
    rowToStoredBlock (.ofStored block) = .ok block := by
  unfold rowToStoredBlock BlockColumns.ofStored
  simp only [b256FromRow_bytes, addressFromRow_bytes]
  simp [bind, Except.bind, pure, Except.pure]

theorem rowToStoredTransaction_ofRow (row : TransactionRow) (blockHash : B256) :
    rowToStoredTransaction (.ofRow row) blockHash.bytes = .ok (row.toStored blockHash) := by
  unfold rowToStoredTransaction TransactionColumns.ofRow TransactionRow.toStored
  rw [mapM_map_ok (addressFromRow_bytes · 5), mapM_map_ok u256FromBeSlice_toBeBytes,
    mapM_map_ok u256FromBeSlice_toBeBytes]
  simp only [b256FromRow_bytes, addressFromRow_bytes, u256FromBeSlice_toBeBytes]
  simp [bind, Except.bind, pure, Except.pure, Option.map_map, Function.comp_def]

theorem rowToStoredReceipt_ofRow (row : ReceiptRow) (blockHash : B256) (gasPrice : U256) :
    rowToStoredReceipt (.ofRow row) blockHash.bytes (u256ToBeBytes gasPrice) =
      .ok (row.toStored blockHash gasPrice []) := by
  unfold rowToStoredReceipt ReceiptColumns.ofRow ReceiptRow.toStored
  rw [mapM_map_ok (addressFromRow_bytes · 5), mapM_map_ok (addressFromRow_bytes · 8)]
  simp only [b256FromRow_bytes, addressFromRow_bytes, u256FromBeSlice_toBeBytes]
  simp [bind, Except.bind, pure, Except.pure]

theorem parseStoredLog_ofRow [TopicsJson] (row : LogRow) :
    parseStoredLog (.ofRow row) = .ok row.log := by
  unfold parseStoredLog LogColumns.ofRow
  simp only [TopicsJson.fromText_toText, addressFromRow_bytes]
  rfl

/-! ### The tables -/

/-- What SQLite keeps.  As in the database, the hashes of blocks are unique and logs are in the
order of their identifiers. -/
@[ext] structure Tables where
  blocks : Table BlockColumns.number
  uniqueHash : (blocks.rows.map BlockColumns.hash).Nodup
  transactions : Table TransactionColumns.hash
  receipts : Table ReceiptColumns.transactionHash
  logs : List LogColumns
  latestBlock : Option Int64

variable (t : Tables)

namespace Tables

def empty : Tables := ⟨.empty, List.nodup_nil, .empty, .empty, [], none⟩

def deleteBlockData (number : Int64) : Tables :=
  { t with
    logs := t.logs.filter fun log => log.blockNumber ≠ number
    receipts := t.receipts.delete fun row => row.blockNumber = number
    transactions := t.transactions.delete fun row => row.blockNumber = number }

def references (number : Int64) : Bool :=
  t.transactions.rows.any (fun row => row.blockNumber = number) ||
    t.receipts.rows.any (fun row => row.blockNumber = number) ||
    t.logs.any fun log => log.blockNumber = number

def insertBlock (block : BlockColumns) : Except ChainIndexError Tables :=
  if t.blocks.rows.any fun b =>
      b.hash = block.hash && b.number ≠ block.number && t.references b.number then
    .error foreignKeyFailed
  else
    .ok { t with
      blocks := (t.blocks.delete fun b => b.hash = block.hash).upsert block
      uniqueHash := Table.nodup_map_upsert t.uniqueHash block }

def requireBlock (number : Int64) : Except ChainIndexError Unit :=
  if (t.blocks.find number).isSome then .ok () else .error foreignKeyFailed

def insertTransaction (tx : StoredTransaction) (arrayIndex : Nat) :
    Except ChainIndexError Tables := do
  t.requireBlock tx.blockNumber.toInt64
  pure { t with transactions := t.transactions.upsert (.ofRow (.ofStored tx arrayIndex)) }

def insertTransactions : Nat → List StoredTransaction → Tables → Except ChainIndexError Tables
  | _, [], t => .ok t
  | index, tx :: txs, t => do
    let t ← t.insertTransaction tx index
    insertTransactions (index + 1) txs t

def insertReceipt (receipt : StoredReceipt) (arrayIndex : Nat) : Except ChainIndexError Tables := do
  t.requireBlock receipt.blockNumber.toInt64
  pure { t with receipts := t.receipts.upsert (.ofRow (.ofStored receipt arrayIndex)) }

def insertLog [TopicsJson] (number : UInt64) (hash : B256) (t : Tables) (log : StoredLog) :
    Except ChainIndexError Tables := do
  t.requireBlock number.toInt64
  pure { t with logs := t.logs ++ [.ofRow ⟨number, hash, log⟩] }

def insertReceipts [TopicsJson] (number : UInt64) :
    Nat → List StoredReceipt → Tables → Except ChainIndexError Tables
  | _, [], t => .ok t
  | index, receipt :: receipts, t => do
    let t ← t.insertReceipt receipt index
    let t ← receipt.logs.foldlM (insertLog number receipt.transactionHash) t
    insertReceipts number (index + 1) receipts t

def storeBlock [TopicsJson] (block : StoredBlock) (txs : List StoredTransaction)
    (receipts : List StoredReceipt) : Except ChainIndexError Tables := do
  let t := t.deleteBlockData block.number.toInt64
  let t ← t.insertBlock (.ofStored block)
  let t ← insertTransactions 0 txs t
  let t ← insertReceipts block.number 0 receipts t
  pure { t with latestBlock := some block.number.toInt64 }

/-! The queries, as they are made when nothing is cached -/

def loadLatestBlockNumber : Option UInt64 := t.latestBlock.map Int64.toUInt64

def getBlock (number : UInt64) : Except RowError (Option StoredBlock) :=
  (t.blocks.find number.toInt64).mapM rowToStoredBlock

def getBlockNumber (hash : B256) : Option UInt64 :=
  (t.blocks.rows.find? fun b => b.hash = hash.bytes).map fun b => b.number.toUInt64

def getBlockTransactions (number : UInt64) : Except RowError (List B256) :=
  let rows := t.transactions.rows.filter fun row => row.blockNumber = number.toInt64
  let rows := rows.mergeSort fun a b => a.transactionIndex ≤ b.transactionIndex
  rows.mapM fun row => b256FromRow row.hash 0

def getTransaction (hash : B256) : Except RowError (Option StoredTransaction) :=
  let joined := do
    let row ← t.transactions.find hash.bytes
    let block ← t.blocks.find row.blockNumber
    pure (row, block)
  joined.mapM fun (row, block) => rowToStoredTransaction row block.hash

def loadLogsForTx [TopicsJson] (hash : B256) : Except RowError (List StoredLog) :=
  (t.logs.filter fun row => row.transactionHash = hash.bytes).mapM parseStoredLog

def getReceipt [TopicsJson] (hash : B256) : Except RowError (Option StoredReceipt) :=
  let joined := do
    let row ← t.receipts.find hash.bytes
    let tx ← t.transactions.find row.transactionHash
    let block ← t.blocks.find row.blockNumber
    pure (row, tx, block)
  joined.mapM fun (row, tx, block) => do
    let receipt ← rowToStoredReceipt row block.hash tx.gasPrice
    let logs ← t.loadLogsForTx hash
    pure { receipt with logs := logs }

def getLogsByBlock [TopicsJson] (number : UInt64) : Except RowError (List StoredLog) :=
  (t.logs.filter fun row => row.blockNumber = number.toInt64).mapM parseStoredLog

end Tables

/-! ### The tables represent the database -/

theorem toInt64_injective : Function.Injective UInt64.toInt64 := fun a b h => by
  simpa using congrArg Int64.toUInt64 h

@[simp] theorem toInt64_inj {a b : UInt64} : a.toInt64 = b.toInt64 ↔ a = b :=
  toInt64_injective.eq_iff

theorem bytes_injective {n : Nat} :
    Function.Injective (FixedBytes.bytes : FixedBytes n → Bytes) := fun _ _ => FixedBytes.ext

def blockColumns : Representation StoredBlock.number BlockColumns.number :=
  ⟨.ofStored, UInt64.toInt64, fun _ => rfl, toInt64_injective⟩

def transactionColumns : Representation TransactionRow.hash TransactionColumns.hash :=
  ⟨.ofRow, FixedBytes.bytes, fun _ => rfl, bytes_injective⟩

def receiptColumns : Representation ReceiptRow.transactionHash ReceiptColumns.transactionHash :=
  ⟨.ofRow, FixedBytes.bytes, fun _ => rfl, bytes_injective⟩

section

variable [TopicsJson]

def Database.tables (db : Database) : Tables where
  blocks := db.blocks.represent blockColumns
  uniqueHash := by
    have h := db.uniqueHash.map bytes_injective
    rw [List.map_map] at h
    show ((db.blocks.rows.map BlockColumns.ofStored).map BlockColumns.hash).Nodup
    rw [List.map_map]
    exact h
  transactions := db.transactions.represent transactionColumns
  receipts := db.receipts.represent receiptColumns
  logs := db.logs.map .ofRow
  latestBlock := db.latestBlock.map UInt64.toInt64

namespace Database

variable (db : Database)

/-! Storing -/

theorem tables_deleteBlockData (number : UInt64) :
    db.tables.deleteBlockData number.toInt64 = (db.deleteBlockData number).tables := by
  have htxs : db.tables.transactions.delete (fun row => row.blockNumber = number.toInt64) =
      (db.transactions.delete fun row => row.blockNumber = number).represent transactionColumns :=
    Table.delete_represent _ _ fun row => by simp [transactionColumns, TransactionColumns.ofRow]
  have hreceipts : db.tables.receipts.delete (fun row => row.blockNumber = number.toInt64) =
      (db.receipts.delete fun row => row.blockNumber = number).represent receiptColumns :=
    Table.delete_represent _ _ fun row => by simp [receiptColumns, ReceiptColumns.ofRow]
  have hlogs : db.tables.logs.filter (fun log => log.blockNumber ≠ number.toInt64) =
      (db.logs.filter fun log => log.blockNumber ≠ number).map .ofRow := by
    simp [tables, List.filter_map, Function.comp_def, LogColumns.ofRow]
  unfold Tables.deleteBlockData
  rw [htxs, hreceipts, hlogs]
  rfl

theorem tables_references (number : UInt64) :
    db.tables.references number.toInt64 = db.references number := by
  simp [Tables.references, references, tables, Table.represent, transactionColumns,
    receiptColumns, TransactionColumns.ofRow, ReceiptColumns.ofRow, LogColumns.ofRow,
    Function.comp_def]

theorem tables_insertBlock (block : StoredBlock) :
    db.tables.insertBlock (.ofStored block) = (db.insertBlock block).map tables := by
  have htaken : (db.tables.blocks.rows.any fun b => b.hash = (BlockColumns.ofStored block).hash &&
      b.number ≠ (BlockColumns.ofStored block).number && db.tables.references b.number) =
      db.blocks.rows.any fun b =>
        b.hash = block.hash && b.number ≠ block.number && db.references b.number := by
    show (db.blocks.rows.map BlockColumns.ofStored).any _ = _
    rw [List.any_map]
    refine congrArg (List.any _) (funext fun b => ?_)
    simp [BlockColumns.ofStored, tables_references, bytes_injective.eq_iff]
  have hblocks : (db.tables.blocks.delete fun b =>
      b.hash = (BlockColumns.ofStored block).hash).upsert (.ofStored block) =
      ((db.blocks.delete fun b => b.hash = block.hash).upsert block).represent blockColumns := by
    rw [← Table.upsert_represent]
    refine congrArg (Table.upsert · _) (Table.delete_represent _ _ fun b => ?_)
    simp [blockColumns, BlockColumns.ofStored, bytes_injective.eq_iff]
  unfold Tables.insertBlock insertBlock
  rw [htaken]
  split
  · rfl
  · refine congrArg Except.ok ?_
    ext1
    · exact hblocks
    all_goals rfl

theorem tables_requireBlock (number : UInt64) :
    db.tables.requireBlock number.toInt64 = db.requireBlock number := by
  have hfind : db.tables.blocks.find number.toInt64 =
      (db.blocks.find number).map BlockColumns.ofStored := Table.find_represent blockColumns _ _
  unfold Tables.requireBlock requireBlock
  rw [hfind, Option.isSome_map]

theorem tables_insertTransaction (tx : StoredTransaction) (index : Nat) :
    db.tables.insertTransaction tx index = (db.insertTransaction tx index).map tables := by
  unfold Tables.insertTransaction insertTransaction
  rw [tables_requireBlock]
  cases db.requireBlock tx.blockNumber with
  | error e => rfl
  | ok _ =>
    refine congrArg Except.ok ?_
    ext1
    case transactions => exact Table.upsert_represent transactionColumns _ _
    all_goals rfl

theorem tables_insertReceipt (receipt : StoredReceipt) (index : Nat) :
    db.tables.insertReceipt receipt index = (db.insertReceipt receipt index).map tables := by
  unfold Tables.insertReceipt insertReceipt
  rw [tables_requireBlock]
  cases db.requireBlock receipt.blockNumber with
  | error e => rfl
  | ok _ =>
    refine congrArg Except.ok ?_
    ext1
    case receipts => exact Table.upsert_represent receiptColumns _ _
    all_goals rfl

theorem tables_insertLog (number : UInt64) (hash : B256) (log : StoredLog) :
    Tables.insertLog number hash db.tables log = (insertLog number hash db log).map tables := by
  unfold Tables.insertLog insertLog
  rw [tables_requireBlock]
  cases db.requireBlock number with
  | error e => rfl
  | ok _ =>
    refine congrArg Except.ok ?_
    ext1
    case logs => simp [tables]
    all_goals rfl

end Database

/-- A step on the tables goes on as the one on the database does. -/
theorem bind_map_tables {m : Except ChainIndexError Database}
    {f : Database → Except ChainIndexError Database}
    {g : Tables → Except ChainIndexError Tables}
    (h : ∀ db, g db.tables = (f db).map Database.tables) :
    (m.map Database.tables >>= g) = (m >>= f).map Database.tables := by
  cases m with
  | error e => rfl
  | ok db => exact h db

namespace Database

theorem tables_insertTransactions (index : Nat) (txs : List StoredTransaction) (db : Database) :
    Tables.insertTransactions index txs db.tables =
      (insertTransactions index txs db).map tables := by
  induction txs generalizing index db with
  | nil => rfl
  | cons tx txs ih =>
    unfold Tables.insertTransactions insertTransactions
    rw [tables_insertTransaction]
    exact bind_map_tables (ih (index + 1))

theorem tables_insertLogs (number : UInt64) (hash : B256) (logs : List StoredLog) (db : Database) :
    logs.foldlM (Tables.insertLog number hash) db.tables =
      (logs.foldlM (insertLog number hash) db).map tables := by
  induction logs generalizing db with
  | nil => rfl
  | cons log logs ih =>
    rw [List.foldlM_cons, List.foldlM_cons, tables_insertLog]
    exact bind_map_tables ih

theorem tables_insertReceipts (number : UInt64) (index : Nat) (receipts : List StoredReceipt)
    (db : Database) :
    Tables.insertReceipts number index receipts db.tables =
      (insertReceipts number index receipts db).map tables := by
  induction receipts generalizing index db with
  | nil => rfl
  | cons receipt receipts ih =>
    unfold Tables.insertReceipts insertReceipts
    rw [tables_insertReceipt]
    refine bind_map_tables fun db => ?_
    rw [tables_insertLogs]
    exact bind_map_tables (ih (index + 1))

theorem tables_storeBlock (db : Database) (block : StoredBlock) (txs : List StoredTransaction)
    (receipts : List StoredReceipt) :
    db.tables.storeBlock block txs receipts = (db.storeBlock block txs receipts).map tables := by
  unfold Tables.storeBlock storeBlock
  dsimp only
  rw [tables_deleteBlockData, tables_insertBlock]
  refine bind_map_tables fun db => ?_
  rw [tables_insertTransactions]
  refine bind_map_tables fun db => ?_
  rw [tables_insertReceipts]
  exact bind_map_tables fun db => rfl

/-! Reading -/

variable (db : Database)

theorem tables_findBlock (number : UInt64) : db.tables.blocks.find number.toInt64 =
    (db.blocks.find number).map BlockColumns.ofStored :=
  Table.find_represent blockColumns _ _

theorem tables_findTransaction (hash : B256) : db.tables.transactions.find hash.bytes =
    (db.transactions.find hash).map TransactionColumns.ofRow :=
  Table.find_represent transactionColumns _ _

theorem tables_loadLatestBlockNumber : db.tables.loadLatestBlockNumber = db.latestBlock := by
  simp [Tables.loadLatestBlockNumber, tables, Function.comp_def]

theorem tables_getBlock (number : UInt64) :
    db.tables.getBlock number = .ok (db.block number) := by
  unfold Tables.getBlock
  rw [tables_findBlock]
  exact mapM_map_ok rowToStoredBlock_ofStored _

theorem tables_getBlockNumber (hash : B256) :
    db.tables.getBlockNumber hash = db.blockNumber hash := by
  unfold Tables.getBlockNumber blockNumber
  show (((db.blocks.rows.map BlockColumns.ofStored).find? _).map _) = _
  rw [List.find?_map, Option.map_map]
  simp [Function.comp_def, BlockColumns.ofStored, bytes_injective.eq_iff]

theorem tables_getTransaction (hash : B256) :
    db.tables.getTransaction hash = .ok (db.transaction hash) := by
  unfold Tables.getTransaction transaction
  rw [tables_findTransaction]
  cases db.transactions.find hash with
  | none => rfl
  | some row =>
    have hblock : db.tables.blocks.find (TransactionColumns.ofRow row).blockNumber = _ :=
      db.tables_findBlock row.blockNumber
    simp only [Option.map_some, Option.bind_eq_bind, Option.bind_some, hblock]
    cases db.blocks.find row.blockNumber with
    | none => rfl
    | some block => exact congrArg (Except.map some) (rowToStoredTransaction_ofRow row block.hash)

theorem tables_loadLogsForTx (hash : B256) :
    db.tables.loadLogsForTx hash = .ok (db.logsForTx hash) := by
  unfold Tables.loadLogsForTx logsForTx
  rw [← mapM_rows_ok parseStoredLog_ofRow]
  simp [tables, List.filter_map, Function.comp_def, LogColumns.ofRow, bytes_injective.eq_iff]

theorem tables_getLogsByBlock (number : UInt64) :
    db.tables.getLogsByBlock number = .ok (db.logsByBlock number) := by
  unfold Tables.getLogsByBlock logsByBlock
  rw [← mapM_rows_ok parseStoredLog_ofRow]
  simp [tables, List.filter_map, Function.comp_def, LogColumns.ofRow]

theorem tables_getReceipt (hash : B256) :
    db.tables.getReceipt hash = .ok (db.receipt hash) := by
  have hfind : db.tables.receipts.find hash.bytes =
      (db.receipts.find hash).map ReceiptColumns.ofRow := Table.find_represent receiptColumns _ _
  unfold Tables.getReceipt receipt
  rw [hfind, tables_loadLogsForTx]
  cases db.receipts.find hash with
  | none => rfl
  | some row =>
    have htx : db.tables.transactions.find (ReceiptColumns.ofRow row).transactionHash = _ :=
      db.tables_findTransaction row.transactionHash
    have hblock : db.tables.blocks.find (ReceiptColumns.ofRow row).blockNumber = _ :=
      db.tables_findBlock row.blockNumber
    simp only [Option.map_some, Option.bind_eq_bind, Option.bind_some, htx, hblock]
    cases db.transactions.find row.transactionHash with
    | none => rfl
    | some tx =>
      cases db.blocks.find row.blockNumber with
      | none => rfl
      | some block =>
        have hread := rowToStoredReceipt_ofRow row block.hash tx.gasPrice
        simp only [Option.map_some, Option.bind_some, Option.pure_def, Option.mapM_some]
        show (rowToStoredReceipt (.ofRow row) block.hash.bytes (u256ToBeBytes tx.gasPrice) >>= _)
          >>= _ = _
        rw [hread]
        rfl

/-- The order of the integers is that of the indexes as long as these are 63-bit numbers. -/
theorem tables_getBlockTransactions {number : UInt64}
    (h : ∀ row ∈ db.transactionsOf number, row.transactionIndex < 2 ^ 63) :
    db.tables.getBlockTransactions number = .ok (db.blockTransactions number) := by
  have hrows : db.tables.transactions.rows.filter (fun row => row.blockNumber = number.toInt64) =
      (db.transactionsOf number).map .ofRow := by
    show (db.transactions.rows.map TransactionColumns.ofRow).filter _ = _
    unfold transactionsOf
    simp [List.filter_map, Function.comp_def, TransactionColumns.ofRow]
  have hsort : ((db.transactionsOf number).map TransactionColumns.ofRow).mergeSort
      (fun a b => a.transactionIndex ≤ b.transactionIndex) =
      ((db.transactionsOf number).mergeSort fun a b =>
        a.transactionIndex ≤ b.transactionIndex).map .ofRow := by
    refine (List.map_mergeSort fun a ha b hb => ?_).symm
    simp [TransactionColumns.ofRow, Int64.le_iff_toInt_le, Int64.toInt_ofNat_of_lt (h a ha),
      Int64.toInt_ofNat_of_lt (h b hb)]
  unfold Tables.getBlockTransactions blockTransactions
  dsimp only
  rw [hrows, hsort]
  exact mapM_rows_ok (fun row => b256FromRow_bytes row.hash 0) _

end Database

/-! ### What is stored is read back -/

namespace Tables

/-- The tables after blocks have been stored, whatever their data was. -/
inductive Reached : Tables → Prop where
  | empty : Reached empty
  | stored {t t' : Tables} {block : StoredBlock} {txs : List StoredTransaction}
      {receipts : List StoredReceipt} :
      Reached t → t.storeBlock block txs receipts = .ok t' → Reached t'

/-- No row about these transactions is under another number. -/
structure NotUsedElsewhere (t : Tables) (number : UInt64) (hashes : List B256) : Prop where
  transactions : ∀ row ∈ t.transactions.rows, ∀ hash ∈ hashes, row.hash = hash.bytes →
    row.blockNumber = number.toInt64
  receipts : ∀ row ∈ t.receipts.rows, ∀ hash ∈ hashes, row.transactionHash = hash.bytes →
    row.blockNumber = number.toInt64
  logs : ∀ row ∈ t.logs, ∀ hash ∈ hashes, row.transactionHash = hash.bytes →
    row.blockNumber = number.toInt64

/-- The hash of the block is that of another block, and rows refer to that block. -/
def HashTaken (block : StoredBlock) : Prop :=
  ∃ b ∈ t.blocks.rows, b.hash = block.hash.bytes ∧ b.number ≠ block.number.toInt64 ∧
    t.references b.number = true

/-- Every query about the block is answered with what was stored. -/
structure ReadsBack (t : Tables) (block : StoredBlock) (txs : List StoredTransaction)
    (receipts : List StoredReceipt) : Prop where
  readLatest : t.loadLatestBlockNumber = some block.number
  readBlock : t.getBlock block.number = .ok (some block)
  readNumber : t.getBlockNumber block.hash = some block.number
  readTransaction : ∀ tx ∈ txs, t.getTransaction tx.hash = .ok (some tx)
  readReceipt : ∀ receipt ∈ receipts, t.getReceipt receipt.transactionHash = .ok (some receipt)
  readLogs : t.getLogsByBlock block.number = .ok (receipts.flatMap StoredReceipt.logs)
  /-- No list in memory is longer. -/
  readHashes : txs.length < 2 ^ 63 →
    t.getBlockTransactions block.number = .ok (txs.map StoredTransaction.hash)

theorem Reached.represents {t : Tables} (h : t.Reached) : ∃ db : Database, db.tables = t := by
  induction h with
  | empty => exact ⟨.empty, rfl⟩
  | @stored _ _ block txs receipts _ hstored ih =>
    obtain ⟨db, rfl⟩ := ih
    rw [Database.tables_storeBlock] at hstored
    cases hdb : db.storeBlock block txs receipts with
    | error e =>
      rw [hdb] at hstored
      cases hstored
    | ok db' =>
      rw [hdb] at hstored
      exact ⟨db', Except.ok.inj hstored⟩

end Tables

namespace Database

theorem tables_hashTaken {db : Database} {block : StoredBlock} :
    db.tables.HashTaken block ↔ db.HashTaken block := by
  unfold Tables.HashTaken HashTaken
  show (∃ b ∈ db.blocks.rows.map BlockColumns.ofStored, _) ↔ _
  simp [BlockColumns.ofStored, tables_references, bytes_injective.eq_iff]

theorem tables_notLoggedElsewhere {db : Database} {block : StoredBlock}
    {txs : List StoredTransaction}
    (h : db.tables.NotUsedElsewhere block.number (txs.map StoredTransaction.hash)) :
    db.NotLoggedElsewhere block txs := by
  intro log hlog hmem
  have hrow := h.logs (.ofRow log) (List.mem_map_of_mem hlog) _ hmem rfl
  exact toInt64_injective hrow

namespace Stores

variable {db db' : Database} {block : StoredBlock} {txs : List StoredTransaction}
  {receipts : List StoredReceipt} (hstores : Stores db block txs receipts db')
include hstores

theorem readsBack (hdata : Placed block txs receipts)
    (hlatest : db'.latestBlock = some block.number) (hlogs : db.NotLoggedElsewhere block txs) :
    db'.tables.ReadsBack block txs receipts := by
  constructor
  · rw [tables_loadLatestBlockNumber, hlatest]
  · rw [tables_getBlock]
    exact congrArg Except.ok hstores.block_stored
  · rw [tables_getBlockNumber]
    exact blockNumber_eq_some_iff.mpr ⟨block, hstores.mem_blocks.mpr (.inr rfl), rfl, rfl⟩
  · intro tx htx
    obtain ⟨index, hindex⟩ := List.mem_iff_getElem?.mp htx
    rw [tables_getTransaction, hstores.transaction_new hdata hindex]
  · intro receipt hmem
    obtain ⟨index, hindex⟩ := List.mem_iff_getElem?.mp hmem
    rw [tables_getReceipt, hstores.receipt_new hdata hlogs hindex]
  · rw [tables_getLogsByBlock, hstores.logsByBlock_block]
  · intro hfew
    have hindexes : ∀ row ∈ db'.transactionsOf block.number, row.transactionIndex < 2 ^ 63 := by
      intro row hrow
      rw [hstores.transactionsOf_block hdata] at hrow
      obtain ⟨index, tx, htx, rfl⟩ := mem_transactionRows.mp hrow
      exact (List.getElem?_eq_some_iff.mp htx).1.trans hfew
    rw [tables_getBlockTransactions db' hindexes, hstores.blockTransactions_block hdata]

end Stores

end Database

namespace Tables

section

variable {crypto : Crypto} {sha256 : Bytes → B256} {Tx Block : Type} [Transaction Tx]
  [IndexedTransaction Tx] [BlockTrait Block Tx]

/-- The data of a block is stored unless the hash of the block is taken, and is then read back as it
was built: one receipt for each transaction that has a result, with its events in order. -/
theorem storeBlock_buildIndexData {t : Tables} (ht : t.Reached) {block : Block}
    {result : BlockResult} {metadata : BlockMetadata} {stored : StoredBlock}
    {txs : List StoredTransaction} {receipts : List StoredReceipt}
    (hbuilt : buildIndexData crypto sha256 block result metadata = (stored, txs, receipts))
    (hdistinct : (txs.map StoredTransaction.hash).Nodup)
    (hunused : t.NotUsedElsewhere stored.number (txs.map StoredTransaction.hash)) :
    IndexesExecuted crypto (BlockTrait.txs block) result.txResults receipts ∧
      ((t.HashTaken stored ∧ t.storeBlock stored txs receipts = .error foreignKeyFailed) ∨
        ¬ t.HashTaken stored ∧ ∃ t', t.storeBlock stored txs receipts = .ok t' ∧
          t'.ReadsBack stored txs receipts) := by
  obtain ⟨db, rfl⟩ := ht.represents
  have hexecuted : IndexesExecuted crypto (BlockTrait.txs block) result.txResults
      (buildIndexData crypto sha256 block result metadata).2.2 :=
    buildIndexData_receipts block result metadata
  have hdata : Placed (buildIndexData crypto sha256 block result metadata).1
      (buildIndexData crypto sha256 block result metadata).2.1
      (buildIndexData crypto sha256 block result metadata).2.2 :=
    buildIndexData_placed block result metadata (by rwa [hbuilt])
  rw [hbuilt] at hexecuted hdata
  refine ⟨hexecuted, ?_⟩
  rw [Database.tables_hashTaken, Database.tables_storeBlock]
  rcases Database.storeBlock_cases hdata with ⟨htaken, herror⟩ | ⟨hfree, db', hstored⟩
  · rw [herror]
    exact .inl ⟨htaken, rfl⟩
  · rw [hstored]
    refine .inr ⟨hfree, db'.tables, rfl, ?_⟩
    exact (Database.stores_of_storeBlock hstored).readsBack hdata
      (Database.latestBlock_of_storeBlock hstored) (Database.tables_notLoggedElsewhere hunused)

end

end Tables

end

/-! ### A block that is stored -/

namespace Tables

open Evnode.ExecutorServiceImpl

/-- Reads words of 32 bytes that stand one after the other. -/
def readWords : Nat → Bytes → Option (List B256)
  | 0, text => if text = [] then some [] else none
  | n + 1, text =>
    if h : (text.take 32).length = 32 then
      (readWords n (text.drop 32)).map (⟨text.take 32, h⟩ :: ·)
    else none

theorem readWords_flatMap (topics : List B256) :
    readWords topics.length (topics.flatMap FixedBytes.bytes) = some topics := by
  induction topics with
  | nil => rfl
  | cons topic topics ih =>
    have htake (rest) : (topic.bytes ++ rest).take 32 = topic.bytes :=
      List.take_left' topic.length_eq
    have hdrop (rest) : (topic.bytes ++ rest).drop 32 = rest := List.drop_left' topic.length_eq
    rw [List.length_cons, List.flatMap_cons, readWords]
    simp only [htake, hdrop, ih, topic.length_eq, dif_pos, Option.map_some]

/-- A text of topics that has only their bytes. -/
instance plainTopics : TopicsJson where
  toText topics := topics.flatMap FixedBytes.bytes
  fromText text := readWords (text.length / 32) text
  fromText_toText topics := by
    have hlength : (topics.flatMap FixedBytes.bytes).length = topics.length * 32 := by
      simp [List.length_flatMap, FixedBytes.length_eq]
    rw [hlength, Nat.mul_div_cancel _ (by decide), readWords_flatMap]

/-- The last block that a number can be given to, with two transactions of which the first has
emitted an event. -/
def lastBlock : ServerBlock (TxContext sampleCrypto) :=
  { sampleService.block (sampleRequest roomyTxs) with number := 2 ^ 64 - 1 }

def lastResult : BlockResult where
  beginBlockEvents := []
  txResults := [⟨[⟨.fromU64 20, "moved", [1, 2]⟩], 2 ^ 63 + 5, .ok ⟨[]⟩⟩,
    ⟨[], 3, .error ⟨0x41, 0⟩⟩]
  endBlockEvents := []
  gasUsed := 2 ^ 63 + 8
  txsSkipped := 0

def lastData : StoredBlock × List StoredTransaction × List StoredReceipt :=
  buildIndexData sampleCrypto (fun _ => .repeatByte 32 0) lastBlock lastResult
    sampleMetadata

theorem storeBlock_lastData :
    ∃ t, empty.storeBlock lastData.1 lastData.2.1 lastData.2.2 = .ok t ∧
      t.ReadsBack lastData.1 lastData.2.1 lastData.2.2 := by
  have hdistinct : (lastData.2.1.map StoredTransaction.hash).Nodup := by decide +kernel
  have hparts (p : StoredBlock × List StoredTransaction × List StoredReceipt) :
      p = (p.1, p.2.1, p.2.2) := rfl
  have hunused (hashes : List B256) : empty.NotUsedElsewhere lastData.1.number hashes :=
    ⟨nofun, nofun, nofun⟩
  rcases (storeBlock_buildIndexData .empty (hparts lastData) hdistinct (hunused _)).2 with
    ⟨⟨b, hb, -⟩, -⟩ | ⟨-, hstored⟩
  · cases hb
  · exact hstored

end Tables

end Evolve.ChainIndex
