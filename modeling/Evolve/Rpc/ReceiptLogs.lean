import Mathlib
import Evolve.Rpc.Logs

/-! The indices of the logs in a transaction receipt.  They start at zero in every receipt, while
`get_logs` counts on through the block, so the two agree only about the first transaction that emits
logs. -/

namespace Evolve.ChainIndex

open Machine Eth Effects

/-! ### Where a log is -/

theorem getElem?_logEntries (txHash : B256) (txIndex : Nat) (logs : List StoredLog) (i : Nat) :
    (logEntries txHash txIndex 0 logs)[i]? =
      logs[i]?.map fun log => ⟨txHash, txIndex, i, log⟩ := by
  unfold logEntries
  rw [List.getElem?_map, List.getElem?_zipIdx, Option.map_map]
  simp [Function.comp_def]

variable {p : PlacedLog}

theorem mem_placeFrom {blockNumber : UInt64} {blockHash : B256} {position : Nat}
    {entries : List LogEntry} :
    p ∈ placeFrom blockNumber blockHash position entries ↔
      ∃ i, entries[i]? = some p.toLogEntry ∧ p.position = position + i ∧
        p.blockNumber = blockNumber ∧ p.blockHash = blockHash := by
  unfold placeFrom
  rw [List.mem_iff_getElem?]
  refine exists_congr fun i => ?_
  rw [List.getElem?_map, List.getElem?_zipIdx, Option.map_map, Option.map_eq_some_iff]
  constructor
  · rintro ⟨entry, hentry, rfl⟩
    exact ⟨hentry, rfl, rfl, rfl⟩
  · rintro ⟨hentry, hposition, hnumber, hhash⟩
    refine ⟨p.toLogEntry, hentry, ?_⟩
    rw [Function.comp_apply, ← hposition, ← hnumber, ← hhash]

namespace IndexContent

variable (content : IndexContent)

/-- The number of logs that transactions have emitted. -/
def countLogs (txHashes : List B256) : Nat :=
  (txHashes.map fun txHash => (content.logsOf txHash).length).sum

/-- A log of a block is behind the logs of the transactions before its own, and behind those that
its own transaction has emitted before. -/
theorem mem_placeFrom_entriesFrom {blockNumber : UInt64} {blockHash : B256} {txHashes : List B256}
    {txIndex position : Nat} :
    p ∈ placeFrom blockNumber blockHash position (content.entriesFrom txIndex txHashes) ↔
      ∃ j, txHashes[j]? = some p.txHash ∧ p.txIndex = txIndex + j ∧
        (content.logsOf p.txHash)[p.place]? = some p.log ∧
        p.position = position + (content.countLogs (txHashes.take j) + p.place) ∧
        p.blockNumber = blockNumber ∧ p.blockHash = blockHash := by
  induction txHashes generalizing txIndex position with
  | nil => simp [entriesFrom, placeFrom]
  | cons txHash rest ih =>
    have hsplit : content.entriesFrom txIndex (txHash :: rest) =
        logEntries txHash txIndex 0 (content.logsOf txHash) ++
          content.entriesFrom (txIndex + 1) rest := rfl
    have hlength : (logEntries txHash txIndex 0 (content.logsOf txHash)).length =
        (content.logsOf txHash).length := by
      simp [logEntries]
    rw [hsplit, placeFrom_append, List.mem_append, ih, hlength, mem_placeFrom]
    constructor
    · rintro (⟨i, hentry, hposition, hplace⟩ | ⟨j, hj, hindex, hlog, hposition, hplace⟩)
      · rw [getElem?_logEntries, Option.map_eq_some_iff] at hentry
        obtain ⟨log, hlog, hentry⟩ := hentry
        obtain ⟨⟨_, _, _, _⟩, _, _, _⟩ := p
        cases hentry
        exact ⟨0, rfl, rfl, hlog, by simpa [countLogs] using hposition, hplace⟩
      · refine ⟨j + 1, hj, by omega, hlog, ?_, hplace⟩
        rw [hposition, List.take_succ_cons]
        simp [countLogs]
        omega
    · rintro ⟨j, hj, hindex, hlog, hposition, hplace⟩
      cases j with
      | zero =>
        refine .inl ⟨p.place, ?_, by simpa [countLogs] using hposition, hplace⟩
        cases hj
        rw [getElem?_logEntries, hlog]
        obtain ⟨⟨_, _, _, _⟩, _, _, _⟩ := p
        cases hindex
        rfl
      | succ j =>
        refine .inr ⟨j, hj, by omega, hlog, ?_, hplace⟩
        rw [hposition, List.take_succ_cons]
        simp [countLogs]
        omega

theorem mem_placedLogs_iff {number : UInt64} {block : StoredBlock}
    (hblock : content.block number = some block) :
    p ∈ content.placedLogs number ↔
      (content.transactions number)[p.txIndex]? = some p.txHash ∧
        (content.logsOf p.txHash)[p.place]? = some p.log ∧
        p.position = content.countLogs ((content.transactions number).take p.txIndex) + p.place ∧
        p.blockNumber = number ∧ p.blockHash = block.hash := by
  unfold placedLogs
  rw [hblock]
  dsimp only
  rw [mem_placeFrom_entriesFrom]
  simp only [Nat.zero_add]
  constructor
  · rintro ⟨j, hj, rfl, hrest⟩
    exact ⟨hj, hrest⟩
  · rintro ⟨hj, hrest⟩
    exact ⟨p.txIndex, hj, rfl, hrest⟩

end IndexContent

/-! ### Indices in receipts -/

section

variable {I : Type} [IndexReads I]

/-- The receipt of its transaction gives a log the same index as `get_logs` does. -/
def ReceiptAgrees (index : I) (p : PlacedLog) : Prop :=
  ∃ receipt index', getTransactionReceipt p.txHash index = .done (.ok (some receipt), index') ∧
    receipt.logs[p.place]?.map RpcLog.logIndex = some p.toRpc.logIndex

/-- No transaction with logs comes after others with logs, counted in 64 bits. -/
def IndexContent.OneEmits (content : IndexContent) (number : UInt64) : Prop :=
  ∀ (txIndex : Nat) (txHash : B256), (content.transactions number)[txIndex]? = some txHash →
    content.logsOf txHash ≠ [] →
      UInt64.ofNat (content.countLogs ((content.transactions number).take txIndex)) = 0

theorem getTransactionReceipt_apply (hash : B256) (index : I) :
    getTransactionReceipt hash index =
      .done (.ok ((IndexReads.getReceipt hash index).1.map StoredReceipt.toRpcReceipt),
        (IndexReads.getReceipt hash index).2) := rfl

variable {content : IndexContent} {Inv : I → Prop}

theorem receiptAgrees_iff (h : Reflects content Inv) {index : I} (hindex : Inv index)
    (hlog : (content.logsOf p.txHash)[p.place]? = some p.log) :
    ReceiptAgrees index p ↔ UInt64.ofNat p.place = UInt64.ofNat p.position := by
  unfold ReceiptAgrees
  rw [getTransactionReceipt_apply, (h.receipt p.txHash index hindex).1]
  unfold IndexContent.logsOf at hlog
  cases hreceipt : content.receipt p.txHash with
  | none =>
    rw [hreceipt] at hlog
    cases hlog
  | some receipt =>
    rw [hreceipt] at hlog
    have hreported : receipt.toRpcReceipt.logs[p.place]?.map RpcLog.logIndex =
        some (some (UInt64.ofNat p.place)) := by
      have hlog : receipt.logs[p.place]? = some p.log := hlog
      unfold StoredReceipt.toRpcReceipt
      rw [List.getElem?_map, List.getElem?_zipIdx, hlog]
      simp [StoredLog.toRpcLog]
    constructor
    · rintro ⟨receipt', index', hdone, hagrees⟩
      cases hdone
      rw [hreported] at hagrees
      exact Option.some.inj (Option.some.inj hagrees)
    · intro heq
      refine ⟨_, _, rfl, hreported.trans ?_⟩
      rw [heq]
      rfl

/-- For every stored block: what `get_logs` returns about it are its logs with their positions in
the block, and the receipts give all of them the same indices if and only if no transaction with
logs comes after others with logs. -/
theorem receipt_logIndex_iff (h : Reflects content Inv) {index : I} (hindex : Inv index)
    {number : UInt64} {block : StoredBlock} (hblock : content.block number = some block) :
    (∀ filter logs index', getLogs filter index = .done (.ok logs, index') →
      ∀ log ∈ logs, log.blockNumber = some number →
        ∃ p ∈ content.placedLogs number, log = p.toRpc) ∧
    ((∀ p ∈ content.placedLogs number, ReceiptAgrees index p) ↔ content.OneEmits number) := by
  constructor
  · intro filter logs index' hdone log hlog hnumber
    obtain ⟨index₁, hanswer⟩ := h.getLogs_done filter hindex
    rw [hdone] at hanswer
    obtain ⟨fromBlock, toBlock, p, hp, rfl⟩ :=
      content.mem_answer (Prod.mk.inj (Outcome.done.inj hanswer)).1.symm hlog
    obtain ⟨n, -, hp⟩ := List.mem_flatMap.mp (List.mem_filter.mp hp).1
    have hn := (content.mem_placedLogs hp).1
    have hsame : p.blockNumber = number := Option.some.inj hnumber
    rw [← hsame, hn]
    exact ⟨p, hp, rfl⟩
  · constructor
    · intro hagree txIndex txHash htx hlogs
      -- the first log of the transaction
      obtain ⟨log, hlog⟩ : ∃ log, (content.logsOf txHash)[0]? = some log := by
        cases hcases : content.logsOf txHash with
        | nil => exact absurd hcases hlogs
        | cons log _ => exact ⟨log, rfl⟩
      let p : PlacedLog := ⟨⟨txHash, txIndex, 0, log⟩, number, block.hash,
        content.countLogs ((content.transactions number).take txIndex)⟩
      have hp : p ∈ content.placedLogs number :=
        (content.mem_placedLogs_iff hblock).mpr ⟨htx, hlog, rfl, rfl, rfl⟩
      exact ((receiptAgrees_iff h hindex hlog).mp (hagree p hp)).symm
    · intro hone p hp
      obtain ⟨htx, hlog, hposition, -, -⟩ := (content.mem_placedLogs_iff hblock).mp hp
      refine (receiptAgrees_iff h hindex hlog).mpr ?_
      rw [hposition, UInt64.ofNat_add, hone p.txIndex p.txHash htx ?_, UInt64.zero_add]
      rintro hnil
      rw [hnil] at hlog
      cases hlog

end

/-! One and two transactions with logs -/

theorem emittingIndex_receipts : (emittingIndex.db.content.block 1).isSome ∧
    ∀ p ∈ emittingIndex.db.content.placedLogs 1, ReceiptAgrees emittingIndex p := by
  have hstored : (emittingIndex.db.content.block 1).isSome := by decide +kernel
  refine ⟨hstored, ?_⟩
  obtain ⟨block, hblock⟩ := Option.isSome_iff_exists.mp hstored
  refine (receipt_logIndex_iff (Database.reflects emittingIndex.db)
    ⟨rfl, ChainCache.obeys_new _ _⟩ hblock).2.mpr fun txIndex txHash htx _ => ?_
  have htxs : emittingIndex.db.content.transactions 1 = [.repeatByte 32 9] := by decide +kernel
  rw [htxs] at htx ⊢
  cases txIndex with
  | zero => rfl
  | succ txIndex => cases htx

def secondTransaction : StoredTransaction :=
  { sampleTransaction 1 (.repeatByte 32 1) (.repeatByte 32 8) with transactionIndex := 1 }

def secondReceipt : StoredReceipt :=
  { sampleReceipt 1 (.repeatByte 32 1) (.repeatByte 32 8) with
    transactionIndex := 1
    logs := [sampleLog 7] }

/-- Block 1 with two transactions, each of which has emitted a log. -/
def twoEmitters : PersistentChainIndex :=
  ((PersistentChainIndex.new .default).storeBlock (sampleBlock 1 (.repeatByte 32 1) 2)
    [sampleTransaction 1 (.repeatByte 32 1) (.repeatByte 32 9), secondTransaction]
    [{ sampleReceipt 1 (.repeatByte 32 1) (.repeatByte 32 9) with logs := [sampleLog 6] },
      secondReceipt]).2.uncached .default

theorem twoEmitters_transactions :
    twoEmitters.db.content.transactions 1 = [.repeatByte 32 9, .repeatByte 32 8] := by
  have hsorted : (twoEmitters.db.transactionsOf 1).Pairwise fun a b =>
      decide (a.transactionIndex ≤ b.transactionIndex) = true := by
    decide +kernel
  show twoEmitters.db.blockTransactions 1 = _
  unfold Database.blockTransactions
  rw [List.mergeSort_of_pairwise hsorted]
  decide +kernel

/-- The log of the second transaction. -/
def secondLog : PlacedLog :=
  ⟨⟨.repeatByte 32 8, 1, 0, sampleLog 7⟩, 1, .repeatByte 32 1, 1⟩

/-- `get_logs` gives the second log the index 1, and its receipt gives it the index 0. -/
theorem twoEmitters_receipts :
    (∃ index', getLogs sampleFilter twoEmitters = .done (.ok [secondLog.toRpc], index')) ∧
      secondLog.toRpc.logIndex = some 1 ∧
      (∃ receipt index', getTransactionReceipt (.repeatByte 32 8) twoEmitters =
        .done (.ok (some receipt), index') ∧ receipt.logs.map RpcLog.logIndex = [some 0]) ∧
      secondLog ∈ twoEmitters.db.content.placedLogs 1 ∧ ¬ ReceiptAgrees twoEmitters secondLog := by
  have hinv : twoEmitters.db = twoEmitters.db ∧ twoEmitters.cache.Obeys twoEmitters.db.answers :=
    ⟨rfl, ChainCache.obeys_new _ _⟩
  have hreflects := Database.reflects twoEmitters.db
  -- the transactions are sorted by the store, which does not evaluate
  have hplaced : twoEmitters.db.content.placedLogs 1 =
      [⟨⟨.repeatByte 32 9, 0, 0, sampleLog 6⟩, 1, .repeatByte 32 1, 0⟩, secondLog] := by
    unfold IndexContent.placedLogs
    rw [twoEmitters_transactions]
    decide +kernel
  have hmatching : twoEmitters.db.content.matching sampleFilter 1 1 = [secondLog] := by
    have hrange : blockRange 1 1 = [1] := by decide
    unfold IndexContent.matching
    rw [hrange, List.flatMap_singleton, hplaced]
    decide +kernel
  refine ⟨?_, rfl, ?_, by rw [hplaced]; simp, fun hagrees => ?_⟩
  · obtain ⟨index', hdone⟩ := hreflects.getLogs_done sampleFilter hinv
    have hlatest : IndexReads.latestBlockNumber twoEmitters = some 1 := by decide +kernel
    have hrange : twoEmitters.db.content.rangeOf 1 sampleFilter = some (1, 1) := rfl
    have hanswer : twoEmitters.db.content.answer 1 sampleFilter = .ok [secondLog.toRpc] := by
      unfold IndexContent.answer
      rw [hrange]
      dsimp only
      rw [hmatching]
      decide
    rw [hlatest] at hdone
    exact ⟨index', hanswer ▸ hdone⟩
  · have hlogs : (IndexReads.getReceipt (.repeatByte 32 8) twoEmitters).1.map
        (fun receipt => receipt.toRpcReceipt.logs.map RpcLog.logIndex) = some [some 0] := by
      decide +kernel
    obtain ⟨receipt, hreceipt, hindices⟩ := Option.map_eq_some_iff.mp hlogs
    rw [getTransactionReceipt_apply, hreceipt]
    exact ⟨_, _, rfl, hindices⟩
  · have hlog : (twoEmitters.db.content.logsOf secondLog.txHash)[secondLog.place]? =
        some secondLog.log := by
      decide +kernel
    have hequal := (receiptAgrees_iff hreflects hinv hlog).mp hagrees
    exact absurd hequal (by decide)

end Evolve.ChainIndex
