import Mathlib
import Evolve.Stf.Block

/-! The second block loop, which measures what it executes.  Without the measurements it is the
first, and each of its entries is about the transaction that gave the result at the same place. -/

namespace Evolve

open Machine Borsh Effects

/-! ### What is measured -/

def ExecutionMetrics.delta (m before : ExecutionMetrics) : ExecutionMetrics where
  storageReads := saturatingSub m.storageReads before.storageReads
  storageWrites := saturatingSub m.storageWrites before.storageWrites
  eventsEmitted := saturatingSub m.eventsEmitted before.eventsEmitted
  checkpoints := saturatingSub m.checkpoints before.checkpoints
  restores := saturatingSub m.restores before.restores
  overlayLenMax := m.overlayLenMax - before.overlayLenMax
  undoLogLenMax := m.undoLogLenMax - before.undoLogLenMax

structure TxExecutionMetrics extends ExecutionMetrics where
  index : UInt64
  durationNs : UInt64
  gasUsed : UInt64
deriving DecidableEq

def TxExecutionMetrics.fromDelta (index durationNs gasUsed : UInt64) (delta : ExecutionMetrics) :
    TxExecutionMetrics :=
  { delta with index, durationNs, gasUsed }

structure BlockExecutionMetrics extends ExecutionMetrics where
  beginBlockNs : UInt64
  endBlockNs : UInt64
  totalNs : UInt64
  txs : List TxExecutionMetrics

def BlockExecutionMetrics.fromDelta (beginBlockNs endBlockNs totalNs : UInt64)
    (delta : ExecutionMetrics) (txs : List TxExecutionMetrics) : BlockExecutionMetrics :=
  { delta with beginBlockNs, endBlockNs, totalNs, txs }

/-- What the clock shows: for the hooks, for the block and for the transaction at a position. -/
structure Timers where
  beginBlockNs : UInt64
  endBlockNs : UInt64
  totalNs : UInt64
  txNs : Nat → UInt64

def Run.metricsSnapshot : Run ExecutionMetrics := Exec.read fun w => w.storage.metrics

namespace Stf

variable {Tx Block : Type} [Transaction Tx]
variable (host : Host) (fuel : Nat) (stf : Stf Tx Block) (timers : Timers)

def applyTxsWithMetrics (block : BlockContext) (blockGasLimit : UInt64) (total : Nat) :
    List Tx → Nat → Progress Tx → List TxExecutionMetrics →
      Run (Progress Tx × List TxExecutionMetrics)
  | [], _, p, metrics => pure (p, metrics)
  | tx :: txs, index, p, metrics =>
    if saturatingAdd p.cumulativeGas (Transaction.gasLimit tx) > blockGasLimit then
      applyTxsWithMetrics block blockGasLimit total txs (index + 1) p.skip metrics
    else do
      let txStartMetrics ← Run.metricsSnapshot
      let result ← applyTx host fuel stf tx block
      let txEndMetrics ← Run.metricsSnapshot
      let metrics := metrics ++ [.fromDelta (UInt64.ofNat index) (timers.txNs index) result.gasUsed
        (txEndMetrics.delta txStartMetrics)]
      let p := p.push tx result
      if p.cumulativeGas ≥ blockGasLimit then pure (p.stop total, metrics)
      else applyTxsWithMetrics block blockGasLimit total txs (index + 1) p metrics

def applyBlockWithMetrics [BlockTrait Block Tx] (block : Block) :
    Run (BlockResult × BlockExecutionMetrics) := do
  let blockStartMetrics ← Run.metricsSnapshot
  let beginBlockEvents ← doBeginBlock host fuel stf block
  let txs := BlockTrait.txs block
  let (p, txMetrics) ← applyTxsWithMetrics host fuel stf timers (BlockTrait.context block)
    (BlockTrait.gasLimit block) txs.length txs 0 Progress.start []
  let endBlockEvents ← doEndBlock host fuel stf (BlockTrait.context block)
  let blockEndMetrics ← Run.metricsSnapshot
  pure (⟨beginBlockEvents, p.txResults, endBlockEvents, p.cumulativeGas, p.txsSkipped⟩,
    .fromDelta timers.beginBlockNs timers.endBlockNs timers.totalNs
      (blockEndMetrics.delta blockStartMetrics) txMetrics)

/-! ### The same block -/

theorem fst_applyTxsWithMetrics (block : BlockContext) (limit : UInt64) (total : Nat)
    (txs : List Tx) (index : Nat) (p : Progress Tx) (metrics : List TxExecutionMetrics) :
    Prod.fst <$> applyTxsWithMetrics host fuel stf timers block limit total txs index p metrics =
      applyTxs host fuel stf block limit total txs p := by
  induction txs generalizing index p metrics with
  | nil => rfl
  | cons tx txs ih =>
    rw [applyTxsWithMetrics, applyTxs]
    split
    · exact ih _ _ _
    · simp only [map_bind]
      -- the snapshots are reads, and nothing but the entry depends on them
      refine Exec.read_bind_of_forall fun txStartMetrics => bind_congr fun result => ?_
      refine Exec.read_bind_of_forall fun txEndMetrics => ?_
      rw [apply_ite (Prod.fst <$> ·), ih]
      rfl

theorem fst_applyBlockWithMetrics [BlockTrait Block Tx] (block : Block) :
    Prod.fst <$> applyBlockWithMetrics host fuel stf timers block =
      Prod.fst <$> applyBlock host fuel stf block := by
  unfold applyBlockWithMetrics applyBlock
  simp only [map_bind]
  refine Exec.read_bind_of_forall fun blockStartMetrics => bind_congr fun beginBlockEvents => ?_
  rw [← fst_applyTxsWithMetrics host fuel stf timers _ _ _ _ 0 _ [], bind_map_left]
  refine bind_congr fun p => bind_congr fun endBlockEvents => ?_
  exact Exec.read_bind_of_forall fun blockEndMetrics => rfl

/-! ### The entries -/

/-- From `w`, the first `i` transactions give the first `k` results, and the one at position `i`
then fits and gives the next. -/
def ExecutesAt (block : BlockContext) (limit : UInt64) (total : Nat) (txs : List Tx) (w : World)
    (results : List TxResult) (k i : Nat) : Prop :=
  ∃ tx p w₁ result w₂, txs[i]? = some tx ∧
    applyTxs host fuel stf block limit total (txs.take i) .start w = .done (.ok p, w₁) ∧
    p.txResults = results.take k ∧
    ¬ saturatingAdd p.cumulativeGas (Transaction.gasLimit tx) > limit ∧
    applyTx host fuel stf tx block w₁ = .done (.ok result, w₂) ∧ results[k]? = some result

/-- There is one entry for each result, with its gas and the position of its transaction. -/
structure Measures (block : BlockContext) (limit : UInt64) (total : Nat) (txs : List Tx)
    (w : World) (results : List TxResult) (metrics : List TxExecutionMetrics) : Prop where
  gas : metrics.map TxExecutionMetrics.gasUsed = results.map TxResult.gasUsed
  position : ∀ k entry, metrics[k]? = some entry →
    ∃ i, entry.index = UInt64.ofNat i ∧
      ExecutesAt host fuel stf block limit total txs w results k i

variable {host fuel stf timers} {block : BlockContext} {limit : UInt64} {total : Nat}
  {txs : List Tx} {w₀ w w' : World} {p : Progress Tx} {metrics : List TxExecutionMetrics}

theorem ExecutesAt.append {results : List TxResult} {k i : Nat} (result : TxResult)
    (h : ExecutesAt host fuel stf block limit total txs w₀ results k i) :
    ExecutesAt host fuel stf block limit total txs w₀ (results ++ [result]) k i := by
  obtain ⟨tx, p, w₁, r, w₂, htx, hbefore, hresults, hfits, hrun, hr⟩ := h
  obtain ⟨hk, -⟩ := List.getElem?_eq_some_iff.mp hr
  refine ⟨tx, p, w₁, r, w₂, htx, hbefore, ?_, hfits, hrun, ?_⟩
  · rw [hresults, List.take_append_of_le_length hk.le]
  · rwa [List.getElem?_append_left hk]

theorem Measures.push {tx : Tx} {result : TxResult} {i : Nat} {w₁ : World}
    {entry : TxExecutionMetrics}
    (h : Measures host fuel stf block limit total txs w₀ p.txResults metrics)
    (htx : txs[i]? = some tx)
    (hbefore : applyTxs host fuel stf block limit total (txs.take i) .start w₀ = .done (.ok p, w))
    (hfits : ¬ saturatingAdd p.cumulativeGas (Transaction.gasLimit tx) > limit)
    (hrun : applyTx host fuel stf tx block w = .done (.ok result, w₁))
    (hgas : entry.gasUsed = result.gasUsed) (hindex : entry.index = UInt64.ofNat i) :
    Measures host fuel stf block limit total txs w₀ (p.push tx result).txResults
      (metrics ++ [entry]) where
  gas := by
    show _ = (p.txResults ++ [result]).map TxResult.gasUsed
    rw [List.map_append, List.map_append, h.gas, List.map_singleton, List.map_singleton, hgas]
  position k entry' hk := by
    have hlength : metrics.length = p.txResults.length := by
      simpa using congrArg List.length h.gas
    rcases Nat.lt_trichotomy k metrics.length with hlt | rfl | hgt
    · rw [List.getElem?_append_left hlt] at hk
      obtain ⟨j, hj, hexecutes⟩ := h.position k entry' hk
      exact ⟨j, hj, hexecutes.append result⟩
    · rw [List.getElem?_concat_length] at hk
      cases hk
      refine ⟨i, hindex, tx, p, w, result, w₁, htx, hbefore, ?_, hfits, hrun, ?_⟩
      · rw [hlength]
        exact (List.take_left' rfl).symm
      · rw [hlength]
        exact List.getElem?_concat_length
    · rw [List.getElem?_eq_none (by simpa using hgt)] at hk
      cases hk

/-- The loop from a progress that the transactions in front have led to. -/
theorem applyTxsWithMetrics_measures {front back : List Tx}
    (htxs : txs = front ++ back)
    (hfront : ∀ rest, applyTxs host fuel stf block limit total (front ++ rest) .start w₀ =
      applyTxs host fuel stf block limit total rest p w)
    (hp : Measures host fuel stf block limit total txs w₀ p.txResults metrics)
    {q : Progress Tx} {metrics' : List TxExecutionMetrics}
    (h : applyTxsWithMetrics host fuel stf timers block limit total back front.length p metrics w =
      .done (.ok (q, metrics'), w')) :
    Measures host fuel stf block limit total txs w₀ q.txResults metrics' := by
  induction back generalizing front p w metrics with
  | nil =>
    cases h
    exact hp
  | cons tx back ih =>
    have htxs' : txs = (front ++ [tx]) ++ back := by rw [htxs, List.append_assoc]; rfl
    have hlength : (front ++ [tx]).length = front.length + 1 := by simp
    rw [applyTxsWithMetrics] at h
    split at h
    · rename_i exceeds
      rw [← hlength] at h
      refine ih (p := p.skip) htxs' (fun rest => ?_) hp h
      rw [List.append_assoc, hfront, List.singleton_append, applyTxs, if_pos exceeds]
    · rename_i fits
      obtain ⟨_, _, ⟨⟩, h⟩ | ⟨_, ⟨⟩, -⟩ := Exec.bind_done.mp h
      obtain ⟨result, w₁, hrun, h⟩ | ⟨_, _, ⟨⟩⟩ := Exec.bind_done.mp h
      obtain ⟨_, _, ⟨⟩, h⟩ | ⟨_, ⟨⟩, -⟩ := Exec.bind_done.mp h
      have htx : txs[front.length]? = some tx := by
        rw [htxs, List.getElem?_append_right le_rfl]
        simp
      have hbefore : applyTxs host fuel stf block limit total (txs.take front.length) .start w₀ =
          .done (.ok p, w) := by
        rw [htxs, List.take_left, ← List.append_nil front, hfront]
        rfl
      split at h
      · cases h
        exact hp.push htx hbefore fits hrun rfl rfl
      · rename_i room
        rw [← hlength] at h
        refine ih htxs' (fun rest => ?_) (hp.push htx hbefore fits hrun rfl rfl) h
        rw [List.append_assoc, hfront, List.singleton_append, applyTxs, if_neg fits,
          Exec.bind_apply, hrun]
        exact congrFun (if_neg room) w₁

variable (host fuel stf timers) in
/-- For every block and whatever the clock shows: both loops give the same result and leave the same
world, and the one that measures has one entry for each result, in order, with the gas of the result
and the position in the block of the transaction that gave it. -/
theorem applyBlockWithMetrics_agrees [BlockTrait Block Tx] (block : Block) (w : World) :
    (Prod.fst <$> applyBlockWithMetrics host fuel stf timers block) w =
        (Prod.fst <$> applyBlock host fuel stf block) w ∧
      ∀ result metrics w', applyBlockWithMetrics host fuel stf timers block w =
          .done (.ok (result, metrics), w') →
        ∃ events w₁, doBeginBlock host fuel stf block w = .done (.ok events, w₁) ∧
          Measures host fuel stf (BlockTrait.context block) (BlockTrait.gasLimit block)
            (BlockTrait.txs block).length (BlockTrait.txs block) w₁ result.txResults
            metrics.txs := by
  refine ⟨congrFun (fst_applyBlockWithMetrics host fuel stf timers block) w, ?_⟩
  intro result metrics w' h
  obtain ⟨_, _, ⟨⟩, h⟩ | ⟨_, ⟨⟩, -⟩ := Exec.bind_done.mp h
  obtain ⟨events, w₁, hbegin, h⟩ | ⟨_, _, ⟨⟩⟩ := Exec.bind_done.mp h
  obtain ⟨⟨q, txMetrics⟩, w₂, htxs, h⟩ | ⟨_, _, ⟨⟩⟩ := Exec.bind_done.mp h
  obtain ⟨_, _, -, h⟩ | ⟨_, _, ⟨⟩⟩ := Exec.bind_done.mp h
  obtain ⟨_, _, ⟨⟩, h⟩ | ⟨_, ⟨⟩, -⟩ := Exec.bind_done.mp h
  cases h
  have hstart : Measures host fuel stf (BlockTrait.context block) (BlockTrait.gasLimit block)
      (BlockTrait.txs block).length (BlockTrait.txs block) w₁ [] [] := ⟨rfl, by simp⟩
  exact ⟨events, w₁, hbegin,
    applyTxsWithMetrics_measures (List.nil_append _).symm (fun _ => rfl) hstart htxs⟩

def stoppedClock : Timers := ⟨0, 0, 0, fun _ => 0⟩

theorem tightBlock_measured :
    Exec.Ends (applyBlockWithMetrics sampleHost 3 testStf stoppedClock tightBlock)
      (fun r _ => (r.map fun p => p.2.txs.map fun m => (m.index, m.gasUsed)) =
        .ok [(0, 370), (2, 370)]) sampleWorld := by
  decide +kernel

/-- The first and the third transaction of the tight block are measured. -/
theorem applyBlockWithMetrics_agrees_tightBlock :
    ∃ result metrics w', applyBlockWithMetrics sampleHost 3 testStf stoppedClock tightBlock
        sampleWorld = .done (.ok (result, metrics), w') ∧
      metrics.txs.map TxExecutionMetrics.index = [0, 2] ∧
      ∃ w₁, Measures sampleHost 3 testStf ⟨1, 0⟩ 740 3 tightBlock.txs w₁ result.txResults
        metrics.txs := by
  obtain ⟨r, w', hrun, hr⟩ := tightBlock_measured.exists
  cases r with
  | error e => cases hr
  | ok p =>
    have hmeasured := Except.ok.inj hr
    obtain ⟨_, w₁, -, hmeasures⟩ := (applyBlockWithMetrics_agrees sampleHost 3 testStf stoppedClock
      tightBlock sampleWorld).2 p.1 p.2 w' hrun
    refine ⟨p.1, p.2, w', hrun, ?_, w₁, hmeasures⟩
    have hindex := congrArg (List.map Prod.fst) hmeasured
    rwa [List.map_map] at hindex

end Stf

end Evolve
