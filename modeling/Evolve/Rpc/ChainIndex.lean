import Mathlib
import Evolve.Rpc.Service

/-! What is stored about a block after its execution.  `build_index_data` pairs the transactions of
the block with the results by position, although the results of skipped transactions are missing. -/

namespace Evolve

open Machine Borsh Effects Eth

namespace ChainIndex

/-! ### Stored data -/

structure BlockMetadata where
  hash : B256
  parentHash : B256
  stateRoot : B256
  timestamp : UInt64
  gasLimit : UInt64
  miner : Address
  extraData : Bytes
  chainId : UInt64

structure StoredBlock where
  number : UInt64
  hash : B256
  parentHash : B256
  stateRoot : B256
  transactionsRoot : B256
  receiptsRoot : B256
  timestamp : UInt64
  gasUsed : UInt64
  gasLimit : UInt64
  transactionCount : UInt32
  miner : Address
  extraData : Bytes

structure StoredTransaction where
  hash : B256
  blockNumber : UInt64
  blockHash : B256
  transactionIndex : UInt32
  fromAddress : Address
  toAddress : Option Address
  value : U256
  gas : UInt64
  gasPrice : U256
  input : Bytes
  nonce : UInt64
  v : UInt64
  r : U256
  s : U256
  txType : UInt8
  chainId : Option UInt64
  maxFeePerGas : Option U256
  maxPriorityFeePerGas : Option U256

structure StoredLog where
  address : Address
  topics : List B256
  data : Bytes
deriving DecidableEq

structure StoredReceipt where
  transactionHash : B256
  transactionIndex : UInt32
  blockHash : B256
  blockNumber : UInt64
  fromAddress : Address
  toAddress : Option Address
  cumulativeGasUsed : UInt64
  gasUsed : UInt64
  effectiveGasPrice : U256
  contractAddress : Option Address
  logs : List StoredLog
  status : UInt8
  txType : UInt8
  revertReason : Option String

/-! ### Ethereum transactions -/

structure EthereumIndexedTransaction where
  value : U256
  gasPrice : U256
  input : Bytes
  nonce : UInt64
  v : UInt64
  r : U256
  s : U256
  txType : UInt8
  chainId : Option UInt64
  maxFeePerGas : Option U256
  maxPriorityFeePerGas : Option U256

def saturatingMul (a b : UInt64) : UInt64 := UInt64.ofNat (min (a.toNat * b.toNat) (2 ^ 64 - 1))

def legacySignatureV (yParity : Bool) (chainId : Option UInt64) : UInt64 :=
  match chainId with
  | some chainId =>
    saturatingAdd (saturatingAdd 35 (saturatingMul chainId 2)) (if yParity then 1 else 0)
  | none => 27 + if yParity then 1 else 0

def u256 (n : U128) : U256 := n.setWidth 256

/-- The fields of a context that carries an envelope. -/
def ethereumTxFields {crypto : Crypto} (tx : TxContext crypto) :
    Option EthereumIndexedTransaction :=
  match tx.payload with
  | .custom _ => none
  | .eoa (.legacy legacy) => some {
      value := legacy.inner.tx.value
      gasPrice := u256 tx.effectiveGasPrice
      input := legacy.inner.tx.input
      nonce := legacy.inner.tx.nonce
      v := legacySignatureV legacy.inner.signature.v legacy.inner.tx.chainId
      r := legacy.inner.signature.r
      s := legacy.inner.signature.s
      txType := 0
      chainId := legacy.inner.tx.chainId
      maxFeePerGas := none
      maxPriorityFeePerGas := none }
  | .eoa (.eip1559 eip1559) => some {
      value := eip1559.inner.tx.value
      gasPrice := u256 tx.effectiveGasPrice
      input := eip1559.inner.tx.input
      nonce := eip1559.inner.tx.nonce
      v := if eip1559.inner.signature.v then 1 else 0
      r := eip1559.inner.signature.r
      s := eip1559.inner.signature.s
      txType := 2
      chainId := some eip1559.inner.tx.chainId
      maxFeePerGas := some (u256 eip1559.inner.tx.maxFeePerGas)
      maxPriorityFeePerGas := some (u256 eip1559.inner.tx.maxPriorityFeePerGas) }

/-- What the index asks of a transaction besides `Transaction`.  Only contexts have the fields of
an Ethereum transaction: those of other types fail the downcast. -/
class IndexedTransaction (Tx : Type) where
  senderEthAddress : Tx → Option Address := fun _ => none
  recipientEthAddress : Tx → Option Address := fun _ => none
  ethereumFields : Tx → Option EthereumIndexedTransaction := fun _ => none

instance {crypto : Crypto} : IndexedTransaction (TxContext crypto) where
  senderEthAddress := TxContext.senderEthAddress
  recipientEthAddress := TxContext.recipientEthAddress
  ethereumFields := ethereumTxFields

/-! ### Building -/

section

variable (crypto : Crypto) (sha256 : Bytes → B256)
variable {Tx Block : Type} [Transaction Tx] [IndexedTransaction Tx] [BlockTrait Block Tx]

def domainContractAddrRuntimeV1 : Bytes := Codec.utf8 "contract:addr:runtime:v1"

def accountIdToAddress (accountId : AccountId) : Address :=
  addressOfHash (crypto.keccak256 (domainContractAddrRuntimeV1 ++ accountId.bytes.bytes))

def eventToStoredLog (event : Event) : StoredLog where
  address := accountIdToAddress crypto event.source
  topics := [crypto.keccak256 (Codec.utf8 event.name)]
  data := event.contents

def resolveSenderAddress (tx : Tx) : Address :=
  (IndexedTransaction.senderEthAddress tx).getD (accountIdToAddress crypto (Transaction.sender tx))

def resolveRecipientAddress (tx : Tx) : Option Address :=
  match IndexedTransaction.recipientEthAddress tx with
  | some recipient => some recipient
  | none =>
    let recipient := Transaction.recipient tx
    if recipient = .invalid then none else some (accountIdToAddress crypto recipient)

def buildStoredTransaction (tx : Tx) (txHash : B256) (blockNumber : UInt64) (blockHash : B256)
    (transactionIndex : UInt32) (chainId : UInt64)
    (ethFields : Option EthereumIndexedTransaction) : StoredTransaction :=
  match ethFields with
  | some f => {
      hash := txHash
      blockNumber, blockHash, transactionIndex
      fromAddress := resolveSenderAddress crypto tx
      toAddress := resolveRecipientAddress crypto tx
      value := f.value
      gas := Transaction.gasLimit tx
      gasPrice := f.gasPrice
      input := f.input
      nonce := f.nonce
      v := f.v
      r := f.r
      s := f.s
      txType := f.txType
      chainId := f.chainId
      maxFeePerGas := f.maxFeePerGas
      maxPriorityFeePerGas := f.maxPriorityFeePerGas }
  | none => {
      hash := txHash
      blockNumber, blockHash, transactionIndex
      fromAddress := resolveSenderAddress crypto tx
      toAddress := resolveRecipientAddress crypto tx
      value := (Transaction.funds tx).foldl (fun acc asset => acc + u256 asset.amount) 0
      gas := Transaction.gasLimit tx
      gasPrice := 0
      input := ((Encodable.codec : Codec InvokeRequest).encode (Transaction.request tx)).getD []
      nonce := 0
      v := 0
      r := 0
      s := 0
      txType := 0
      chainId := some chainId
      maxFeePerGas := none
      maxPriorityFeePerGas := none }

def displayErrorCode (e : ErrorCode) : String :=
  let digits := Nat.toDigits 16 e.id.toNat
  "ErrorCode(id=0x" ++ String.ofList (List.replicate (4 - digits.length) '0' ++ digits) ++
    ", arg=" ++ toString e.arg.toNat ++ ")"

def buildStoredReceipt (tx : Tx) (txResult : TxResult) (txHash : B256) (blockNumber : UInt64)
    (blockHash : B256) (transactionIndex : UInt32) (cumulativeGasUsed : UInt64)
    (ethFields : Option EthereumIndexedTransaction) : StoredReceipt where
  transactionHash := txHash
  transactionIndex := transactionIndex
  blockHash := blockHash
  blockNumber := blockNumber
  fromAddress := resolveSenderAddress crypto tx
  toAddress := resolveRecipientAddress crypto tx
  cumulativeGasUsed := cumulativeGasUsed
  gasUsed := txResult.gasUsed
  effectiveGasPrice := (ethFields.map EthereumIndexedTransaction.gasPrice).getD 0
  contractAddress := none
  logs := txResult.events.map (eventToStoredLog crypto)
  status := if txResult.response.toOption.isSome then 1 else 0
  txType := (ethFields.map EthereumIndexedTransaction.txType).getD 0
  revertReason :=
    match txResult.response with
    | .error e => some (displayErrorCode e)
    | .ok _ => none

/-- The loop over the transactions that are paired with a result. -/
def indexLoop (blockNumber : UInt64) (blockHash : B256) (chainId : UInt64) :
    Nat → UInt64 → List (Tx × TxResult) → List (StoredTransaction × StoredReceipt)
  | _, _, [] => []
  | idx, cumulativeGas, (tx, txResult) :: rest =>
    let txHash := Transaction.computeIdentifier tx
    let cumulativeGas := cumulativeGas + txResult.gasUsed
    let ethFields := IndexedTransaction.ethereumFields tx
    (buildStoredTransaction crypto tx txHash blockNumber blockHash (UInt32.ofNat idx) chainId
        ethFields,
      buildStoredReceipt crypto tx txResult txHash blockNumber blockHash (UInt32.ofNat idx)
        cumulativeGas ethFields) ::
      indexLoop blockNumber blockHash chainId (idx + 1) cumulativeGas rest

def computeTxRoot (txs : List StoredTransaction) : B256 :=
  if txs.isEmpty then .repeatByte 32 0 else sha256 (txs.flatMap fun tx => tx.hash.bytes)

def computeReceiptsRoot (receipts : List StoredReceipt) : B256 :=
  if receipts.isEmpty then .repeatByte 32 0
  else sha256 (receipts.flatMap fun receipt =>
    receipt.transactionHash.bytes ++ [receipt.status] ++ beBytes 8 receipt.gasUsed.toNat)

def buildIndexData (block : Block) (result : BlockResult) (metadata : BlockMetadata) :
    StoredBlock × List StoredTransaction × List StoredReceipt :=
  let blockNumber := (BlockTrait.context block).height
  let stored := indexLoop crypto blockNumber metadata.hash metadata.chainId 0 0
    ((BlockTrait.txs block).zip result.txResults)
  let storedTxs := stored.map Prod.fst
  let storedReceipts := stored.map Prod.snd
  ({
    number := blockNumber
    hash := metadata.hash
    parentHash := metadata.parentHash
    stateRoot := metadata.stateRoot
    transactionsRoot := computeTxRoot sha256 storedTxs
    receiptsRoot := computeReceiptsRoot sha256 storedReceipts
    timestamp := metadata.timestamp
    gasUsed := (result.txResults.map TxResult.gasUsed).sum
    gasLimit := metadata.gasLimit
    transactionCount := UInt32.ofNat storedTxs.length
    miner := metadata.miner
    extraData := metadata.extraData }, storedTxs, storedReceipts)

/-! ### Which results the receipts carry -/

/-- A receipt carries the hash, sender and recipient of a transaction, and the status, gas and
events of a result. -/
structure ReceiptOf (tx : Tx) (txResult : TxResult) (receipt : StoredReceipt) : Prop where
  hash : receipt.transactionHash = Transaction.computeIdentifier tx
  sender : receipt.fromAddress = resolveSenderAddress crypto tx
  recipient : receipt.toAddress = resolveRecipientAddress crypto tx
  status : receipt.status = 1 ↔ txResult.response.toOption.isSome
  gasUsed : receipt.gasUsed = txResult.gasUsed
  logs : receipt.logs = txResult.events.map (eventToStoredLog crypto)

/-- There is one receipt for each executed transaction, which carries its own result. -/
def IndexesExecuted (executed : List Tx) (txResults : List TxResult)
    (receipts : List StoredReceipt) : Prop :=
  List.Forall₂ (fun (p : Tx × TxResult) receipt => ReceiptOf crypto p.1 p.2 receipt)
    (executed.zip txResults) receipts

variable {crypto sha256}

theorem forall₂_indexLoop (blockNumber : UInt64) (blockHash : B256) (chainId : UInt64) (idx : Nat)
    (cumulativeGas : UInt64) (pairs : List (Tx × TxResult)) :
    List.Forall₂ (fun (p : Tx × TxResult) receipt => ReceiptOf crypto p.1 p.2 receipt) pairs
      ((indexLoop crypto blockNumber blockHash chainId idx cumulativeGas pairs).map Prod.snd) := by
  induction pairs generalizing idx cumulativeGas with
  | nil => exact .nil
  | cons pair pairs ih =>
    refine .cons ⟨rfl, rfl, rfl, ?_, rfl, rfl⟩ (ih _ _)
    dsimp only [buildStoredReceipt]
    split
    · rename_i hok
      simp [hok]
    · rename_i herror
      simp [herror]

theorem IndexesExecuted.hashes {executed : List Tx} {txResults : List TxResult}
    {receipts : List StoredReceipt} (h : IndexesExecuted crypto executed txResults receipts) :
    receipts.map StoredReceipt.transactionHash =
      (executed.zip txResults).map fun p => Transaction.computeIdentifier p.1 := by
  unfold IndexesExecuted at h
  generalize executed.zip txResults = pairs at h ⊢
  induction h with
  | nil => rfl
  | cons hfirst _ ih => rw [List.map_cons, List.map_cons, ih, hfirst.hash]

theorem buildIndexData_receipts (block : Block) (result : BlockResult) (metadata : BlockMetadata) :
    IndexesExecuted crypto (BlockTrait.txs block) result.txResults
      (buildIndexData crypto sha256 block result metadata).2.2 :=
  forall₂_indexLoop ..

omit [Transaction Tx] [IndexedTransaction Tx] in
theorem zip_take_length (txs : List Tx) (txResults : List TxResult) :
    (txs.take txResults.length).zip txResults = txs.zip txResults := by
  induction txs generalizing txResults with
  | nil => simp
  | cons tx txs ih =>
    cases txResults with
    | nil => simp
    | cons txResult txResults => simp [ih]

theorem IndexesExecuted.map_hash {executed : List Tx} {txResults : List TxResult}
    {receipts : List StoredReceipt} (h : IndexesExecuted crypto executed txResults receipts) :
    receipts.map StoredReceipt.transactionHash =
      (executed.take txResults.length).map Transaction.computeIdentifier := by
  have hfirst : ((executed.take txResults.length).zip txResults).map Prod.fst =
      executed.take txResults.length := List.map_fst_zip (by simp)
  rw [h.hashes, ← hfirst, List.map_map, zip_take_length]
  rfl

/-- For every block: if transactions are skipped only at the end, the receipts carry for each
executed transaction its own result, and where no two transactions have the same hash, only then. -/
theorem buildIndexData_indexesExecuted_iff {host : Host} {fuel : Nat} {stf : Stf Tx Block}
    {block : Block} {w w' : World} {result : BlockResult} {executed : List Tx}
    (hrun : Stf.applyBlock host fuel stf block w = .done (.ok (result, executed), w'))
    (metadata : BlockMetadata) :
    (Stf.SkipsAtEnd host fuel stf block w →
      IndexesExecuted crypto executed result.txResults
        (buildIndexData crypto sha256 block result metadata).2.2) ∧
    (((BlockTrait.txs block).map (Transaction.computeIdentifier : Tx → B256)).Nodup →
      IndexesExecuted crypto executed result.txResults
        (buildIndexData crypto sha256 block result metadata).2.2 →
      Stf.SkipsAtEnd host fuel stf block w) := by
  have hreceipts : IndexesExecuted crypto (BlockTrait.txs block) result.txResults
      (buildIndexData crypto sha256 block result metadata).2.2 :=
    buildIndexData_receipts block result metadata
  have hlength : executed.length = result.txResults.length := by
    obtain ⟨_, _, q, _, -, hloop, hresults, -, -, rfl⟩ := Stf.applyBlock_loop hrun
    rw [hresults]
    exact hloop.length_executed rfl
  rw [← Stf.applyBlock_executed_eq_take_iff hrun]
  constructor
  · intro htake
    rw [htake, IndexesExecuted, zip_take_length]
    exact hreceipts
  · intro hdistinct hindexes
    have hhashes := hindexes.map_hash.symm.trans hreceipts.map_hash
    rw [← hlength, List.take_length] at hhashes
    refine Lists.eq_of_same_images hdistinct
      (Stf.applyBlock_executed_sublist hrun) (List.take_sublist _ _) fun hash => ?_
    rw [hhashes, hlength]

end

open Evnode.ExecutorServiceImpl

def sampleMetadata : BlockMetadata where
  hash := .repeatByte 32 0xAA
  parentHash := .repeatByte 32 0
  stateRoot := .repeatByte 32 0
  timestamp := 0
  gasLimit := 740
  miner := .repeatByte 20 0
  extraData := []
  chainId := 1

/-- The receipts of a block of the sample service. -/
def sampleReceipts (txs : List Bytes) (result : BlockResult) : List StoredReceipt :=
  (buildIndexData sampleCrypto (fun _ => .repeatByte 32 0)
    (sampleService.block (sampleRequest txs)) result sampleMetadata).2.2

theorem skipsAtEnd_of_executedHashes {crypto : Crypto} {fuel : Nat}
    {service : Evnode.ExecutorServiceImpl crypto} {storage : ReadonlyKV}
    {block : ServerBlock (TxContext crypto)} {result : BlockResult}
    {executed : List (TxContext crypto)} {w : World}
    (hrun : service.executeBlock fuel storage block = .done (.ok (result, executed), w))
    (hdistinct : (block.transactions.map TxContext.txHash).Nodup)
    (hhashes : executedHashes block result = executed.map TxContext.txHash) :
    Stf.SkipsAtEnd service.codes fuel service.stf block ⟨.new storage, .infinite, []⟩ := by
  refine (Stf.applyBlock_executed_eq_take_iff hrun).mp ?_
  refine Lists.eq_of_same_images hdistinct (Stf.applyBlock_executed_sublist hrun)
    (List.take_sublist _ _) fun hash => ?_
  rw [← hhashes]
  rfl

theorem buildIndexData_roomyTxs :
    ∃ result executed w, sampleService.executeBlock 3 sampleStore
        (sampleService.block (sampleRequest roomyTxs)) = .done (.ok (result, executed), w) ∧
      IndexesExecuted sampleCrypto executed result.txResults
        (sampleReceipts roomyTxs result) := by
  obtain ⟨result, executed, w, hrun, hreported, hexecuted⟩ := roomyTxs_run.executeBlock
  have hdistinct := roomyTxs_distinct
  refine ⟨result, executed, w, hrun, ?_⟩
  unfold sampleReceipts
  generalize sampleService.block (sampleRequest roomyTxs) = block at *
  have hskips := skipsAtEnd_of_executedHashes hrun hdistinct (hreported.trans hexecuted.symm)
  exact (buildIndexData_indexesExecuted_iff hrun sampleMetadata).1 hskips

/-- The second receipt has the hash of the second transaction, which was skipped, with the result of
the third. -/
theorem buildIndexData_indexes_skipped :
    ∃ result executed w, sampleService.executeBlock 3 sampleStore
        (sampleService.block (sampleRequest gappyTxs)) = .done (.ok (result, executed), w) ∧
      executed.map TxContext.txHash = [.repeatByte 32 1, .repeatByte 32 3] ∧
      (sampleReceipts gappyTxs result).map StoredReceipt.transactionHash =
        [.repeatByte 32 1, .repeatByte 32 2] ∧
      ¬ IndexesExecuted sampleCrypto executed result.txResults
        (sampleReceipts gappyTxs result) := by
  obtain ⟨result, executed, w, hrun, hreported, hexecuted⟩ := gappyTxs_run.executeBlock
  have hhashes : (sampleReceipts gappyTxs result).map StoredReceipt.transactionHash =
      [.repeatByte 32 1, .repeatByte 32 2] := by
    rw [← hreported]
    exact (buildIndexData_receipts _ result sampleMetadata).map_hash
  refine ⟨result, executed, w, hrun, hexecuted, hhashes, fun hindexes => ?_⟩
  have htaken := hindexes.map_hash
  have hmem : (FixedBytes.repeatByte 32 2 : B256) ∈ executed.map TxContext.txHash := by
    have hsub := (List.take_sublist result.txResults.length executed).map TxContext.txHash
    have htaken : (executed.take result.txResults.length).map TxContext.txHash = _ :=
      htaken.symm.trans hhashes
    exact hsub.subset (htaken ▸ by simp)
  rw [hexecuted] at hmem
  revert hmem
  decide

end ChainIndex

end Evolve
