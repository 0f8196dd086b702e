import Mathlib
import Evolve.Rpc.LatestBlock

/-! The logs of the chain: `get_logs` of the state provider, which filters the logs of a range of
blocks, and the logs of a transaction receipt.  The former numbers logs in their block, the latter
in their receipt. -/

namespace Evolve.ChainIndex

open Machine Eth Effects

/-! ### Filters, logs and receipts -/

inductive BlockTag where
  | latest
  | earliest
  | pending
  | safe
  | finalized
deriving DecidableEq

inductive BlockNumberOrTag where
  | number (n : UInt64)
  | tag (tag : BlockTag)

inductive FilterAddress where
  | single (addr : Address)
  | multiple (addrs : List Address)

inductive FilterTopic where
  | single (topic : B256)
  | multiple (topics : List B256)

structure LogFilter where
  fromBlock : Option BlockNumberOrTag
  toBlock : Option BlockNumberOrTag
  address : Option FilterAddress
  topics : Option (List (Option FilterTopic))
  blockHash : Option B256

structure RpcLog where
  address : Address
  topics : List B256
  data : Bytes
  blockNumber : Option UInt64
  transactionHash : Option B256
  transactionIndex : Option UInt64
  blockHash : Option B256
  logIndex : Option UInt64
  removed : Bool
deriving DecidableEq

structure RpcReceipt where
  transactionHash : B256
  transactionIndex : UInt64
  blockHash : B256
  blockNumber : UInt64
  fromAddress : Address
  toAddress : Option Address
  cumulativeGasUsed : UInt64
  gasUsed : UInt64
  effectiveGasPrice : U256
  contractAddress : Option Address
  logs : List RpcLog
  logsBloom : Bytes
  txType : UInt64
  status : UInt64
  revertReason : Option String

inductive RpcError where
  | invalidParams (text : String)
  | blockNotFound
deriving DecidableEq

def StoredLog.toRpcLog (log : StoredLog) (blockNumber : UInt64) (blockHash txHash : B256)
    (txIndex : UInt32) (logIndex : UInt64) : RpcLog where
  address := log.address
  topics := log.topics
  data := log.data
  blockNumber := some blockNumber
  transactionHash := some txHash
  transactionIndex := some txIndex.toUInt64
  blockHash := some blockHash
  logIndex := some logIndex
  removed := false

def StoredReceipt.toRpcReceipt (receipt : StoredReceipt) : RpcReceipt where
  transactionHash := receipt.transactionHash
  transactionIndex := receipt.transactionIndex.toUInt64
  blockHash := receipt.blockHash
  blockNumber := receipt.blockNumber
  fromAddress := receipt.fromAddress
  toAddress := receipt.toAddress
  cumulativeGasUsed := receipt.cumulativeGasUsed
  gasUsed := receipt.gasUsed
  effectiveGasPrice := receipt.effectiveGasPrice
  contractAddress := receipt.contractAddress
  logs := receipt.logs.zipIdx.map fun (log, i) =>
    log.toRpcLog receipt.blockNumber receipt.blockHash receipt.transactionHash
      receipt.transactionIndex (UInt64.ofNat i)
  logsBloom := []
  txType := receipt.txType.toUInt64
  status := receipt.status.toUInt64
  revertReason := receipt.revertReason

/-! ### Matching -/

def FilterAddress.allows (address : Address) : FilterAddress → Bool
  | single addr => address = addr
  | multiple addrs => addrs.contains address

def FilterTopic.allows (topic : B256) : FilterTopic → Bool
  | single t => topic = t
  | multiple ts => ts.contains topic

/-- The loop over the filters of the topics, from position `i` on. -/
def topicsMatch (log : StoredLog) : Nat → List (Option FilterTopic) → Bool
  | _, [] => true
  | i, none :: rest => topicsMatch log (i + 1) rest
  | i, some topicFilter :: rest =>
    match log.topics[i]? with
    | none => false
    | some topic => if topicFilter.allows topic then topicsMatch log (i + 1) rest else false

def LogFilter.addressMatches (filter : LogFilter) (log : StoredLog) : Bool :=
  match filter.address with
  | none => true
  | some addrFilter => addrFilter.allows log.address

def LogFilter.topicsMatch (filter : LogFilter) (log : StoredLog) : Bool :=
  match filter.topics with
  | none => true
  | some topics => ChainIndex.topicsMatch log 0 topics

def FilterAddress.listed : FilterAddress → List Address
  | single addr => [addr]
  | multiple addrs => addrs

def FilterTopic.listed : FilterTopic → List B256
  | single topic => [topic]
  | multiple topics => topics

/-- The address is one of those listed, and so is the topic at each position that has a list. -/
structure LogFilter.Matches (filter : LogFilter) (log : StoredLog) : Prop where
  address : ∀ a ∈ filter.address, log.address ∈ a.listed
  topics : ∀ topics ∈ filter.topics, ∀ (i : Nat) (t : FilterTopic), topics[i]? = some (some t) →
    ∃ topic ∈ log.topics[i]?, topic ∈ t.listed

theorem FilterAddress.allows_iff {a : FilterAddress} {address : Address} :
    a.allows address = true ↔ address ∈ a.listed := by
  cases a <;> simp [allows, listed]

theorem FilterTopic.allows_iff {t : FilterTopic} {topic : B256} :
    t.allows topic = true ↔ topic ∈ t.listed := by
  cases t <;> simp [allows, listed]

theorem topicsMatch_iff {log : StoredLog} {topics : List (Option FilterTopic)} :
    topicsMatch log 0 topics = true ↔ ∀ (i : Nat) (t : FilterTopic), topics[i]? = some (some t) →
      ∃ topic ∈ log.topics[i]?, topic ∈ t.listed := by
  have hcons : ∀ i filter rest, topicsMatch log i (filter :: rest) = true ↔
      (∀ t ∈ filter, ∃ topic ∈ log.topics[i]?, topic ∈ t.listed) ∧
        topicsMatch log (i + 1) rest = true := by
    intro i filter rest
    cases filter with
    | none => simp [topicsMatch]
    | some t =>
      cases hget : log.topics[i]? with
      | none => simp [topicsMatch, hget]
      | some topic => simp [topicsMatch, hget, FilterTopic.allows_iff]
  rw [Lists.loop_iff (fun _ => rfl) hcons]
  simp only [Nat.zero_add]
  constructor
  · intro h i t hi
    exact h i (some t) hi t rfl
  · rintro h i filter hi t rfl
    exact h i t hi

theorem LogFilter.matches_iff {filter : LogFilter} {log : StoredLog} :
    filter.Matches log ↔ filter.addressMatches log = true ∧ filter.topicsMatch log = true := by
  have haddress : (∀ a ∈ filter.address, log.address ∈ a.listed) ↔
      filter.addressMatches log = true := by
    unfold addressMatches
    cases filter.address with
    | none => simp
    | some a => simp [FilterAddress.allows_iff]
  have htopics : (∀ topics ∈ filter.topics, ∀ (i : Nat) (t : FilterTopic),
      topics[i]? = some (some t) → ∃ topic ∈ log.topics[i]?, topic ∈ t.listed) ↔
      filter.topicsMatch log = true := by
    unfold LogFilter.topicsMatch
    cases filter.topics with
    | none => simp
    | some topics => simp [topicsMatch_iff]
  rw [← haddress, ← htopics]
  constructor
  · rintro ⟨h₁, h₂⟩
    exact ⟨h₁, h₂⟩
  · rintro ⟨h₁, h₂⟩
    exact ⟨h₁, h₂⟩

instance (filter : LogFilter) (log : StoredLog) : Decidable (filter.Matches log) :=
  decidable_of_iff _ LogFilter.matches_iff.symm

/-! ### Reading the index -/

/-- The reads of an index that the provider uses.  A read may change what is cached. -/
class IndexReads (I : Type) where
  latestBlockNumber : I → Option UInt64
  getBlock : UInt64 → I → Option StoredBlock × I
  getBlockNumber : B256 → I → Option UInt64 × I
  getBlockTransactions : UInt64 → I → List B256
  getReceipt : B256 → I → Option StoredReceipt × I

instance [LruCrate] : IndexReads PersistentChainIndex where
  latestBlockNumber := PersistentChainIndex.latestBlockNumber
  getBlock number index := index.getBlock number
  getBlockNumber hash index := index.getBlockNumber hash
  getBlockTransactions number index := index.getBlockTransactions number
  getReceipt hash index := index.getReceipt hash

section

variable {I : Type} [IndexReads I]

def query {α : Type} (f : I → α × I) : Exec I RpcError α := fun index =>
  .done (.ok (f index).1, (f index).2)

def blockNumber : Exec I RpcError UInt64 := do
  match ← Exec.read IndexReads.latestBlockNumber with
  | some n => pure n
  | none => Exec.throw .blockNotFound

def getTransactionReceipt (hash : B256) : Exec I RpcError (Option RpcReceipt) := do
  let receipt ← query (IndexReads.getReceipt hash)
  pure (receipt.map StoredReceipt.toRpcReceipt)

/-! ### `get_logs` -/

def maxBlockRange : UInt64 := 1000

def maxLogs : Nat := 10000

def invertedRange (fromBlock toBlock : UInt64) : RpcError :=
  .invalidParams ("fromBlock (" ++ toString fromBlock ++ ") is greater than toBlock (" ++
    toString toBlock ++ ")")

def rangeTooLarge (range : UInt64) : RpcError :=
  .invalidParams ("block range (" ++ toString range ++ ") exceeds maximum (" ++
    toString maxBlockRange ++ "); narrow the filter range")

def tooManyLogs : RpcError :=
  .invalidParams ("query returned more than " ++ toString maxLogs ++
    " results; narrow the filter range")

/-- The loop over the logs of a receipt.  Logs that do not match are counted as well. -/
def scanLogs (filter : LogFilter) (blockNum : UInt64) (blockHash txHash : B256) (txIdx : Nat) :
    List StoredLog → UInt64 → List RpcLog → Except RpcError (UInt64 × List RpcLog)
  | [], logIndex, result => .ok (logIndex, result)
  | log :: logs, logIndex, result =>
    if !filter.addressMatches log then
      scanLogs filter blockNum blockHash txHash txIdx logs (logIndex + 1) result
    else if !filter.topicsMatch log then
      scanLogs filter blockNum blockHash txHash txIdx logs (logIndex + 1) result
    else if result.length ≥ maxLogs then
      .error tooManyLogs
    else
      scanLogs filter blockNum blockHash txHash txIdx logs (logIndex + 1)
        (result ++ [log.toRpcLog blockNum blockHash txHash (UInt32.ofNat txIdx) logIndex])

/-- The loop over the transactions of a block. -/
def scanTransactions (filter : LogFilter) (blockNum : UInt64) (blockHash : B256) :
    List B256 → Nat → UInt64 → List RpcLog → Exec I RpcError (List RpcLog)
  | [], _, _, result => pure result
  | txHash :: rest, txIdx, logIndex, result => do
    match ← query (IndexReads.getReceipt txHash) with
    | some receipt => do
      let (logIndex, result) ← Exec.ofExcept
        (scanLogs filter blockNum blockHash txHash txIdx receipt.logs logIndex result)
      scanTransactions filter blockNum blockHash rest (txIdx + 1) logIndex result
    | none => scanTransactions filter blockNum blockHash rest (txIdx + 1) logIndex result

/-- The loop over the blocks. -/
def scanBlocks (filter : LogFilter) : List UInt64 → List RpcLog → Exec I RpcError (List RpcLog)
  | [], result => pure result
  | blockNum :: rest, result => do
    match ← query (IndexReads.getBlock blockNum) with
    | none => scanBlocks filter rest result
    | some block => do
      let txHashes ← Exec.read (IndexReads.getBlockTransactions blockNum)
      let result ← scanTransactions filter blockNum block.hash txHashes 0 0 result
      scanBlocks filter rest result

/-- The block numbers from one to another, both included. -/
def blockRange (fromBlock toBlock : UInt64) : List UInt64 :=
  (List.range' fromBlock.toNat (toBlock.toNat + 1 - fromBlock.toNat)).map UInt64.ofNat

def getLogsForBlockRange (fromBlock toBlock : UInt64) (filter : LogFilter) :
    Exec I RpcError (List RpcLog) :=
  if fromBlock > toBlock then
    Exec.throw (invertedRange fromBlock toBlock)
  else
    let range := saturatingAdd (saturatingSub toBlock fromBlock) 1
    if range > maxBlockRange then
      Exec.throw (rangeTooLarge range)
    else
      scanBlocks filter (blockRange fromBlock toBlock) []

/-- The number of a block that is given by number or tag. -/
def BlockNumberOrTag.resolve (latest : UInt64) : Option BlockNumberOrTag → UInt64
  | some (.number n) => n
  | some (.tag .earliest) => 0
  | some (.tag _) => latest
  | none => latest

def getLogs (filter : LogFilter) : Exec I RpcError (List RpcLog) := do
  let latest ← Exec.attempt blockNumber
  let latest := latest.toOption.getD 0
  let fromBlock := BlockNumberOrTag.resolve latest filter.fromBlock
  let toBlock := BlockNumberOrTag.resolve latest filter.toBlock
  match filter.blockHash with
  | some blockHash =>
    match ← query (IndexReads.getBlockNumber blockHash) with
    | some number => getLogsForBlockRange number number filter
    | none => pure []
  | none => getLogsForBlockRange fromBlock toBlock filter

/-! ### All logs -/

/-- A log of a block: the transaction that emitted it, and which of its logs it is. -/
structure LogEntry where
  txHash : B256
  txIndex : Nat
  place : Nat
  log : StoredLog
deriving DecidableEq

/-- A log with its block and its position among all logs of the block. -/
structure PlacedLog extends LogEntry where
  blockNumber : UInt64
  blockHash : B256
  position : Nat
deriving DecidableEq

def PlacedLog.toRpc (p : PlacedLog) : RpcLog :=
  p.log.toRpcLog p.blockNumber p.blockHash p.txHash (UInt32.ofNat p.txIndex)
    (UInt64.ofNat p.position)

def logEntries (txHash : B256) (txIndex place : Nat) (logs : List StoredLog) : List LogEntry :=
  (logs.zipIdx place).map fun (log, place) => ⟨txHash, txIndex, place, log⟩

def placeFrom (blockNumber : UInt64) (blockHash : B256) (position : Nat)
    (entries : List LogEntry) : List PlacedLog :=
  (entries.zipIdx position).map fun (entry, position) =>
    { entry with blockNumber, blockHash, position }

/-- The logs of the transactions of a block, read one after the other. -/
def readEntries : List B256 → Nat → I → List LogEntry × I
  | [], _, index => ([], index)
  | txHash :: rest, txIdx, index =>
    let read := IndexReads.getReceipt txHash index
    let later := readEntries rest (txIdx + 1) read.2
    (logEntries txHash txIdx 0 (read.1.elim [] StoredReceipt.logs) ++ later.1, later.2)

/-- The logs of blocks, read one after the other. -/
def readLogs : List UInt64 → I → List PlacedLog × I
  | [], index => ([], index)
  | blockNum :: rest, index =>
    let read := IndexReads.getBlock blockNum index
    match read.1 with
    | none => readLogs rest read.2
    | some block =>
      let entries := readEntries (IndexReads.getBlockTransactions blockNum read.2) 0 read.2
      let later := readLogs rest entries.2
      (placeFrom blockNum block.hash 0 entries.1 ++ later.1, later.2)

/-! ### The loops -/

/-- Adds a log to the result if it matches and there is room. -/
def LogFilter.push (filter : LogFilter) (result : List RpcLog) (p : PlacedLog) :
    Except RpcError (List RpcLog) :=
  if filter.Matches p.log then
    if result.length ≥ maxLogs then .error tooManyLogs else .ok (result ++ [p.toRpc])
  else
    .ok result

theorem foldlM_push (filter : LogFilter) (logs : List PlacedLog) (result : List RpcLog)
    (hroom : result.length ≤ maxLogs) :
    logs.foldlM filter.push result =
      if result.length + (logs.filter fun p => filter.Matches p.log).length ≤ maxLogs then
        .ok (result ++ (logs.filter fun p => filter.Matches p.log).map PlacedLog.toRpc)
      else .error tooManyLogs := by
  induction logs generalizing result with
  | nil => simp [hroom, pure, Except.pure]
  | cons p logs ih =>
    rw [List.foldlM_cons]
    unfold LogFilter.push
    by_cases hmatch : filter.Matches p.log
    · rw [if_pos hmatch, List.filter_cons_of_pos (by simpa using hmatch), List.length_cons,
        List.map_cons]
      by_cases hfull : result.length ≥ maxLogs
      · rw [if_pos hfull, if_neg (by omega)]
        rfl
      · rw [if_neg hfull]
        refine (ih (result ++ [p.toRpc]) (by simp; omega)).trans ?_
        rw [List.length_append, List.length_singleton, List.append_assoc, List.singleton_append,
          Nat.add_assoc, Nat.add_comm 1]
    · rw [if_neg hmatch, List.filter_cons_of_neg (by simpa using hmatch)]
      exact ih result hroom

theorem foldlM_push_nil (filter : LogFilter) (logs : List PlacedLog) :
    logs.foldlM filter.push [] =
      if 10000 < (logs.filter fun p => filter.Matches p.log).length then .error tooManyLogs
      else .ok ((logs.filter fun p => filter.Matches p.log).map PlacedLog.toRpc) := by
  rw [foldlM_push filter logs [] (Nat.zero_le _), List.length_nil, Nat.zero_add, List.nil_append,
    maxLogs]
  by_cases hmany : 10000 < (logs.filter fun p => filter.Matches p.log).length
  · rw [if_pos hmany, if_neg (Nat.not_le.mpr hmany)]
  · rw [if_neg hmany, if_pos (Nat.not_lt.mp hmany)]

theorem placeFrom_append (blockNumber : UInt64) (blockHash : B256) (position : Nat)
    (entries later : List LogEntry) :
    placeFrom blockNumber blockHash position (entries ++ later) =
      placeFrom blockNumber blockHash position entries ++
        placeFrom blockNumber blockHash (position + entries.length) later := by
  unfold placeFrom
  rw [List.zipIdx_append, List.map_append]

theorem scanLogs_eq (filter : LogFilter) (blockNum : UInt64) (blockHash txHash : B256)
    (txIdx place position : Nat) (logs : List StoredLog) (result : List RpcLog) :
    scanLogs filter blockNum blockHash txHash txIdx logs (UInt64.ofNat position) result =
      (fun result => (UInt64.ofNat (position + logs.length), result)) <$>
        (placeFrom blockNum blockHash position (logEntries txHash txIdx place logs)).foldlM
          filter.push result := by
  induction logs generalizing place position result with
  | nil => rfl
  | cons log logs ih =>
    have hnext : UInt64.ofNat position + 1 = UInt64.ofNat (position + 1) := by
      rw [UInt64.ofNat_add]
      rfl
    have hcount : position + (log :: logs).length = position + 1 + logs.length := by
      rw [List.length_cons]
      omega
    have hlogs :
        placeFrom blockNum blockHash position (logEntries txHash txIdx place (log :: logs)) =
        ⟨⟨txHash, txIdx, place, log⟩, blockNum, blockHash, position⟩ ::
          placeFrom blockNum blockHash (position + 1) (logEntries txHash txIdx (place + 1) logs) :=
      rfl
    rw [hlogs, List.foldlM_cons, hcount]
    unfold scanLogs LogFilter.push
    rw [hnext]
    by_cases hmatch : filter.Matches log
    · obtain ⟨haddress, htopics⟩ := LogFilter.matches_iff.mp hmatch
      rw [if_neg (by simp [haddress]), if_neg (by simp [htopics]), if_pos hmatch]
      by_cases hfull : result.length ≥ maxLogs
      · rw [if_pos hfull, if_pos hfull]
        rfl
      · rw [if_neg hfull, if_neg hfull]
        exact ih (place + 1) (position + 1) _
    · have hskip := ih (place + 1) (position + 1) result
      rw [if_neg hmatch]
      by_cases haddress : filter.addressMatches log = true
      · have htopics : ¬ filter.topicsMatch log = true := fun htopics =>
          hmatch (LogFilter.matches_iff.mpr ⟨haddress, htopics⟩)
        rw [if_neg (by simp [haddress]), if_pos (by simp [htopics])]
        exact hskip
      · rw [if_pos (by simp [haddress])]
        exact hskip

/-- A computation ends with a result, and where that is a value also in a known state. -/
def Reaches {α : Type} (m : Exec I RpcError α) (index : I) (result : Except RpcError α) (last : I) :
    Prop :=
  ∃ index', m index = .done (result, index') ∧ ∀ a, result = .ok a → index' = last

omit [IndexReads I] in
theorem Reaches.bind {α β : Type} {m : Exec I RpcError α} {f : α → Exec I RpcError β} {index middle
    last : I} {result : Except RpcError α} {g : α → Except RpcError β}
    (hm : Reaches m index result middle)
    (hf : ∀ a, result = .ok a → Reaches (f a) middle (g a) last) :
    Reaches (m >>= f) index (result >>= g) last := by
  obtain ⟨index', hdone, hmiddle⟩ := hm
  unfold Reaches
  rw [Exec.bind_apply, hdone]
  cases result with
  | error e => exact ⟨index', rfl, nofun⟩
  | ok a =>
    obtain ⟨last', hdone', hlast⟩ := hf a rfl
    rw [hmiddle a rfl]
    exact ⟨last', hdone', hlast⟩

omit [IndexReads I] in
theorem reaches_query {α β : Type} {f : I → α × I} {g : α → Exec I RpcError β} {index last : I}
    {result : Except RpcError β} (h : Reaches (g (f index).1) (f index).2 result last) :
    Reaches (query f >>= g) index result last := h

theorem scanTransactions_reaches (filter : LogFilter) (blockNum : UInt64) (blockHash : B256)
    (txHashes : List B256) (txIdx position : Nat) (result : List RpcLog) (index : I) :
    Reaches
      (scanTransactions filter blockNum blockHash txHashes txIdx (UInt64.ofNat position) result)
      index
      ((placeFrom blockNum blockHash position (readEntries txHashes txIdx index).1).foldlM
        filter.push result)
      (readEntries txHashes txIdx index).2 := by
  induction txHashes generalizing txIdx position result index with
  | nil => exact ⟨index, rfl, fun _ _ => rfl⟩
  | cons txHash rest ih =>
    unfold scanTransactions readEntries
    refine reaches_query ?_
    dsimp only
    generalize IndexReads.getReceipt txHash index = read
    obtain ⟨found, index⟩ := read
    cases found with
    | none => exact ih (txIdx + 1) position result index
    | some receipt =>
      dsimp only [Option.elim_some]
      rw [placeFrom_append, List.foldlM_append]
      have hlength : (logEntries txHash txIdx 0 receipt.logs).length = receipt.logs.length := by
        simp [logEntries]
      rw [hlength, scanLogs_eq filter blockNum blockHash txHash txIdx 0 position]
      generalize (placeFrom blockNum blockHash position
        (logEntries txHash txIdx 0 receipt.logs)).foldlM filter.push result = scanned
      cases scanned with
      | error e => exact ⟨_, rfl, nofun⟩
      | ok result' => exact ih (txIdx + 1) (position + receipt.logs.length) result' _

theorem scanBlocks_reaches (filter : LogFilter) (numbers : List UInt64) (result : List RpcLog)
    (index : I) :
    Reaches (scanBlocks filter numbers result) index
      ((readLogs numbers index).1.foldlM filter.push result) (readLogs numbers index).2 := by
  induction numbers generalizing result index with
  | nil => exact ⟨index, rfl, fun _ _ => rfl⟩
  | cons blockNum rest ih =>
    unfold scanBlocks readLogs
    refine reaches_query ?_
    dsimp only
    generalize IndexReads.getBlock blockNum index = read
    obtain ⟨found, index⟩ := read
    cases found with
    | none => exact ih result index
    | some block =>
      dsimp only
      rw [List.foldlM_append]
      exact (scanTransactions_reaches filter blockNum block.hash _ 0 0 result _).bind
        fun result' _ => ih result' _

/-! ### The content of an index -/

/-- What an index answers. -/
structure IndexContent where
  block : UInt64 → Option StoredBlock
  blockNumber : B256 → Option UInt64
  transactions : UInt64 → List B256
  receipt : B256 → Option StoredReceipt

/-- In the states that satisfy `Inv` the reads answer from the content, and lead to such states. -/
structure Reflects (content : IndexContent) (Inv : I → Prop) : Prop where
  block : ∀ number index, Inv index →
    (IndexReads.getBlock number index).1 = content.block number ∧
      Inv (IndexReads.getBlock number index).2
  blockNumber : ∀ hash index, Inv index →
    (IndexReads.getBlockNumber hash index).1 = content.blockNumber hash ∧
      Inv (IndexReads.getBlockNumber hash index).2
  transactions : ∀ number index, Inv index →
    IndexReads.getBlockTransactions number index = content.transactions number
  receipt : ∀ hash index, Inv index →
    (IndexReads.getReceipt hash index).1 = content.receipt hash ∧
      Inv (IndexReads.getReceipt hash index).2

namespace IndexContent

variable (content : IndexContent)

def logsOf (txHash : B256) : List StoredLog := (content.receipt txHash).elim [] StoredReceipt.logs

/-- The logs of transactions, of which the first one has index `txIndex`. -/
def entriesFrom (txIndex : Nat) (txHashes : List B256) : List LogEntry :=
  (txHashes.zipIdx txIndex).flatMap fun (txHash, txIndex) =>
    logEntries txHash txIndex 0 (content.logsOf txHash)

/-- All logs of a block, in the order of its transactions. -/
def placedLogs (number : UInt64) : List PlacedLog :=
  match content.block number with
  | none => []
  | some block =>
    placeFrom number block.hash 0 (content.entriesFrom 0 (content.transactions number))

/-- The logs of a range of blocks that match a filter. -/
def matching (filter : LogFilter) (fromBlock toBlock : UInt64) : List PlacedLog :=
  ((blockRange fromBlock toBlock).flatMap content.placedLogs).filter fun p => filter.Matches p.log

/-- The first and the last block that a filter asks for, unless it asks for an unknown hash. -/
def rangeOf (latest : UInt64) (filter : LogFilter) : Option (UInt64 × UInt64) :=
  match filter.blockHash with
  | some blockHash => (content.blockNumber blockHash).map fun number => (number, number)
  | none => some (BlockNumberOrTag.resolve latest filter.fromBlock,
      BlockNumberOrTag.resolve latest filter.toBlock)

/-- The matching logs, unless the range is inverted or too large, or there are too many of them. -/
def answer (latest : UInt64) (filter : LogFilter) : Except RpcError (List RpcLog) :=
  match content.rangeOf latest filter with
  | none => .ok []
  | some (fromBlock, toBlock) =>
    if toBlock < fromBlock then
      .error (invertedRange fromBlock toBlock)
    else if fromBlock.toNat + 1000 ≤ toBlock.toNat then
      .error (rangeTooLarge (saturatingAdd (toBlock - fromBlock) 1))
    else if 10000 < (content.matching filter fromBlock toBlock).length then
      .error tooManyLogs
    else
      .ok ((content.matching filter fromBlock toBlock).map PlacedLog.toRpc)

end IndexContent

namespace Reflects

variable {content : IndexContent} {Inv : I → Prop} (h : Reflects content Inv)
include h

theorem readEntries (txHashes : List B256) (txIdx : Nat) {index : I} (hindex : Inv index) :
    (ChainIndex.readEntries txHashes txIdx index).1 = content.entriesFrom txIdx txHashes ∧
      Inv (ChainIndex.readEntries txHashes txIdx index).2 := by
  induction txHashes generalizing txIdx index with
  | nil => exact ⟨rfl, hindex⟩
  | cons txHash rest ih =>
    obtain ⟨hanswer, hinv⟩ := h.receipt txHash index hindex
    obtain ⟨hlater, hinv⟩ := ih (txIdx + 1) hinv
    refine ⟨?_, hinv⟩
    unfold ChainIndex.readEntries
    dsimp only
    rw [hlater, hanswer]
    rfl

theorem readLogs (numbers : List UInt64) {index : I} (hindex : Inv index) :
    (ChainIndex.readLogs numbers index).1 = numbers.flatMap content.placedLogs ∧
      Inv (ChainIndex.readLogs numbers index).2 := by
  induction numbers generalizing index with
  | nil => exact ⟨rfl, hindex⟩
  | cons number rest ih =>
    obtain ⟨hblock, hinv⟩ := h.block number index hindex
    have htxs := h.transactions number _ hinv
    rw [List.flatMap_cons]
    unfold ChainIndex.readLogs IndexContent.placedLogs
    rw [← hblock]
    dsimp only
    cases (IndexReads.getBlock number index).1 with
    | none => exact ih hinv
    | some block =>
      obtain ⟨hentries, hinv⟩ := h.readEntries (content.transactions number) 0 hinv
      obtain ⟨hlater, hinv⟩ := ih hinv
      dsimp only
      rw [htxs, hentries, hlater]
      exact ⟨rfl, hinv⟩

end Reflects

theorem range_gt_iff {fromBlock toBlock : UInt64} (hle : ¬ toBlock < fromBlock) :
    saturatingAdd (saturatingSub toBlock fromBlock) 1 > maxBlockRange ↔
      fromBlock.toNat + 1000 ≤ toBlock.toNat := by
  have hle : fromBlock ≤ toBlock := UInt64.not_lt.mp hle
  have hnat := UInt64.le_iff_toNat_le.mp hle
  have hto := toBlock.toNat_lt
  have hsize : UInt64.size = 2 ^ 64 := rfl
  have hone : (1 : UInt64).toNat = 1 := rfl
  have hmax : maxBlockRange.toNat = 1000 := rfl
  unfold saturatingAdd saturatingSub
  rw [if_pos hle, gt_iff_lt, UInt64.lt_iff_toNat_lt, UInt64.toNat_sub_of_le _ _ hle, hone, hmax,
    UInt64.toNat_ofNat_of_lt' (by omega)]
  omega

theorem getLogsForBlockRange_done (fromBlock toBlock : UInt64) (filter : LogFilter) (index : I) :
    ∃ index', getLogsForBlockRange fromBlock toBlock filter index =
      .done (if toBlock < fromBlock then .error (invertedRange fromBlock toBlock)
        else if fromBlock.toNat + 1000 ≤ toBlock.toNat then
          .error (rangeTooLarge (saturatingAdd (toBlock - fromBlock) 1))
        else (readLogs (blockRange fromBlock toBlock) index).1.foldlM filter.push [], index') := by
  unfold getLogsForBlockRange
  by_cases hinverted : toBlock < fromBlock
  · rw [if_pos hinverted, if_pos hinverted]
    exact ⟨index, rfl⟩
  · rw [if_neg hinverted, if_neg hinverted]
    by_cases hlarge : fromBlock.toNat + 1000 ≤ toBlock.toNat
    · rw [if_pos ((range_gt_iff hinverted).mpr hlarge), if_pos hlarge, saturatingSub,
        if_pos (UInt64.not_lt.mp hinverted)]
      exact ⟨index, rfl⟩
    · rw [if_neg (mt (range_gt_iff hinverted).mp hlarge), if_neg hlarge]
      obtain ⟨index', hdone, -⟩ := scanBlocks_reaches filter (blockRange fromBlock toBlock) [] index
      exact ⟨index', hdone⟩

theorem getLogs_apply (filter : LogFilter) (index : I) :
    getLogs filter index =
      match filter.blockHash with
      | some blockHash =>
        match (IndexReads.getBlockNumber blockHash index).1 with
        | some number =>
          getLogsForBlockRange number number filter (IndexReads.getBlockNumber blockHash index).2
        | none => .done (.ok [], (IndexReads.getBlockNumber blockHash index).2)
      | none =>
        getLogsForBlockRange
          (BlockNumberOrTag.resolve ((IndexReads.latestBlockNumber index).getD 0) filter.fromBlock)
          (BlockNumberOrTag.resolve ((IndexReads.latestBlockNumber index).getD 0) filter.toBlock)
          filter index := by
  have hlatest : Exec.attempt (blockNumber : Exec I RpcError UInt64) index =
      .done (.ok ((IndexReads.latestBlockNumber index).elim (.error .blockNotFound) .ok),
        index) := by
    unfold Exec.attempt blockNumber
    rw [Exec.bind_apply]
    unfold Exec.read
    cases IndexReads.latestBlockNumber index <;> rfl
  have hgetD : ((IndexReads.latestBlockNumber index).elim (.error .blockNotFound) .ok :
      Except RpcError UInt64).toOption.getD 0 = (IndexReads.latestBlockNumber index).getD 0 := by
    cases IndexReads.latestBlockNumber index <;> rfl
  unfold getLogs
  rw [Exec.bind_apply, hlatest]
  dsimp only
  rw [hgetD]
  cases filter.blockHash with
  | none => rfl
  | some blockHash =>
    show (query (IndexReads.getBlockNumber blockHash) >>= _ :
      Exec I RpcError (List RpcLog)) index = _
    rw [Exec.bind_apply]
    unfold query
    dsimp only
    cases (IndexReads.getBlockNumber blockHash index).1 <;> rfl

theorem matches_of_getLogs {filter : LogFilter} {index index' : I} {logs : List RpcLog}
    (h : getLogs filter index = .done (.ok logs, index')) {log : RpcLog} (hlog : log ∈ logs) :
    ∃ p : PlacedLog, log = p.toRpc ∧ filter.Matches p.log := by
  -- both ways to find the range end in the same search
  have hrange {fromBlock toBlock : UInt64} {index₁ : I}
      (h : getLogsForBlockRange fromBlock toBlock filter index₁ = .done (.ok logs, index')) :
      ∃ p : PlacedLog, log = p.toRpc ∧ filter.Matches p.log := by
    obtain ⟨index₂, hdone⟩ := getLogsForBlockRange_done fromBlock toBlock filter index₁
    have heq := (Prod.mk.inj (Outcome.done.inj (h.symm.trans hdone))).1
    split at heq
    · cases heq
    · split at heq
      · cases heq
      · rw [foldlM_push_nil] at heq
        split at heq
        · cases heq
        · cases heq
          obtain ⟨p, hp, rfl⟩ := List.mem_map.mp hlog
          exact ⟨p, rfl, of_decide_eq_true (List.mem_filter.mp hp).2⟩
  rw [getLogs_apply] at h
  split at h
  · split at h
    · exact hrange h
    · cases h
      cases hlog
  · exact hrange h

/-! ### The order of the logs -/

/-- The first log is in an earlier block, or before the other one in the same block. -/
def PlacedLog.Before (p q : PlacedLog) : Prop :=
  p.blockNumber < q.blockNumber ∨ p.blockNumber = q.blockNumber ∧ p.position < q.position ∧
    (p.txIndex < q.txIndex ∨ p.txIndex = q.txIndex ∧ p.place < q.place)

end

namespace IndexContent

variable (content : IndexContent)

theorem mem_placedLogs {number : UInt64} {p : PlacedLog} (h : p ∈ content.placedLogs number) :
    p.blockNumber = number ∧ (content.placedLogs number)[p.position]? = some p := by
  unfold placedLogs at h ⊢
  generalize content.block number = found at h ⊢
  cases found with
  | none => cases h
  | some block =>
    obtain ⟨⟨entry, position⟩, hmem, rfl⟩ := List.mem_map.mp h
    refine ⟨rfl, ?_⟩
    dsimp only [placeFrom]
    rw [List.getElem?_map, List.getElem?_zipIdx, List.mk_mem_zipIdx_iff_getElem?.mp hmem]
    simp

theorem mem_answer {latest : UInt64} {filter : LogFilter} {logs : List RpcLog}
    (h : content.answer latest filter = .ok logs) {log : RpcLog} (hlog : log ∈ logs) :
    ∃ fromBlock toBlock, ∃ p ∈ content.matching filter fromBlock toBlock, log = p.toRpc := by
  unfold answer at h
  split at h
  · cases h
    cases hlog
  · split at h
    · cases h
    · split at h
      · cases h
      · split at h
        · cases h
        · cases h
          obtain ⟨p, hp, rfl⟩ := List.mem_map.mp hlog
          exact ⟨_, _, p, hp, rfl⟩

end IndexContent

section

variable {I : Type} [IndexReads I] {content : IndexContent} {Inv : I → Prop}

theorem Reflects.getLogs_done (h : Reflects content Inv) (filter : LogFilter) {index : I}
    (hindex : Inv index) :
    ∃ index', getLogs filter index =
      .done (content.answer ((IndexReads.latestBlockNumber index).getD 0) filter, index') := by
  -- the search in the range, which the filter gives by a hash or by two numbers
  have hrange (fromBlock toBlock : UInt64) {index : I} (hindex : Inv index) :
      ∃ index', getLogsForBlockRange fromBlock toBlock filter index =
        .done (if toBlock < fromBlock then .error (invertedRange fromBlock toBlock)
          else if fromBlock.toNat + 1000 ≤ toBlock.toNat then
            .error (rangeTooLarge (saturatingAdd (toBlock - fromBlock) 1))
          else if 10000 < (content.matching filter fromBlock toBlock).length then
            .error tooManyLogs
          else .ok ((content.matching filter fromBlock toBlock).map PlacedLog.toRpc), index') := by
    obtain ⟨index', hdone⟩ := getLogsForBlockRange_done fromBlock toBlock filter index
    refine ⟨index', hdone.trans ?_⟩
    rw [foldlM_push_nil, (h.readLogs _ hindex).1]
    rfl
  rw [getLogs_apply]
  unfold IndexContent.answer IndexContent.rangeOf
  cases filter.blockHash with
  | none => exact hrange _ _ hindex
  | some blockHash =>
    obtain ⟨hnumber, hinv⟩ := h.blockNumber blockHash index hindex
    dsimp only
    rw [hnumber]
    cases content.blockNumber blockHash with
    | none => exact ⟨_, rfl⟩
    | some number => exact hrange number number hinv

end

/-! ### Tables behind a cache -/

def Database.content (db : Database) : IndexContent where
  block := db.block
  blockNumber := db.blockNumber
  transactions := db.blockTransactions
  receipt := db.receipt

/-- While the caches only have what the tables answer, the index answers from its tables. -/
theorem Database.reflects [LruCrate] (db : Database) :
    Reflects db.content fun index : PersistentChainIndex =>
      index.db = db ∧ index.cache.Obeys db.answers := by
  have hkeeps {index index' : PersistentChainIndex}
      (hindex : index.db = db ∧ index.cache.Obeys db.answers)
      (h : index.Keeps db.answers index') : index'.db = db ∧ index'.cache.Obeys db.answers := by
    obtain ⟨rfl, hobeys⟩ := hindex
    exact ⟨h.1, h.2 hobeys index.db.allows_answers⟩
  constructor
  · rintro number index ⟨rfl, hobeys⟩
    exact ⟨PersistentChainIndex.getBlock_fst (hobeys.blocks number),
      hkeeps ⟨rfl, hobeys⟩ (index.keeps_getBlock _ number)⟩
  · rintro hash index ⟨rfl, hobeys⟩
    exact ⟨PersistentChainIndex.getBlockNumber_fst (hobeys.numbers hash),
      hkeeps ⟨rfl, hobeys⟩ (index.keeps_getBlockNumber _ hash)⟩
  · rintro number index ⟨rfl, hobeys⟩
    rfl
  · rintro hash index ⟨rfl, hobeys⟩
    exact ⟨PersistentChainIndex.getReceipt_fst (hobeys.receipts hash),
      hkeeps ⟨rfl, hobeys⟩ (index.keeps_getReceipt _ hash)⟩

def sampleLog (topic : UInt8) : StoredLog := ⟨.repeatByte 20 3, [.repeatByte 32 topic], []⟩

/-- Block 1 with a transaction that has emitted two logs. -/
def emittingIndex : PersistentChainIndex :=
  ((PersistentChainIndex.new .default).storeBlock (sampleBlock 1 (.repeatByte 32 1) 1)
    [sampleTransaction 1 (.repeatByte 32 1) (.repeatByte 32 9)]
    [{ sampleReceipt 1 (.repeatByte 32 1) (.repeatByte 32 9) with
      logs := [sampleLog 6, sampleLog 7] }]).2.uncached .default

/-- Logs from block 1 on with topic 7. -/
def sampleFilter : LogFilter where
  fromBlock := some (.number 1)
  toBlock := some (.tag .latest)
  address := none
  topics := some [some (.single (.repeatByte 32 7))]
  blockHash := none

end Evolve.ChainIndex
