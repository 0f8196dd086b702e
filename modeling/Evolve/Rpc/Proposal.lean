import Mathlib
import Evolve.Rpc.Service
import Evolve.Mempool.Selection

/-! Blocks made from the proposals of the pool.  The pool adds up gas limits and the block loop the
gas that is used, so a proposal within the gas limit of the block is executed as a whole. -/

namespace Evolve

open Machine Effects Eth Evnode

variable {crypto : Crypto} {Block : Type} [BlockTrait Block (TxContext crypto)]
variable {host : Host} {fuel : Nat} {stf : Stf (TxContext crypto) Block}

/-- A proposal for a gas limit that is executed as a block with that limit: the executed
transactions are the first of the proposal, and those after them have gas limit zero. -/
theorem propose_applyBlock (pool : Mempool (TxContext crypto) GasPriceOrdering)
    (heap : Mempool.BinaryHeap GasPriceOrdering) (limit : UInt64) (maxTxs : Nat) {block : Block}
    {w w' : World} {result : BlockResult} {executed : List (TxContext crypto)}
    (hpos : 0 < limit) (hmax : limit < u64Max) (hlimit : BlockTrait.gasLimit block = limit)
    (htxs : BlockTrait.txs block = (pool.propose heap limit maxTxs).1.1)
    (hrun : Stf.applyBlock host fuel stf block w = .done (.ok (result, executed), w')) :
    ∃ rest, (pool.propose heap limit maxTxs).1.1 = executed ++ rest ∧
      ∀ tx ∈ rest, tx.gasLimit = 0 := by
  obtain ⟨_, w₁, q, w₂, -, hloop, -, -, -, rfl⟩ := Stf.applyBlock_loop hrun
  have hgas := Mempool.propose_gas hpos hmax heap maxTxs pool
  rw [← htxs] at hgas ⊢
  rw [hlimit] at hloop
  obtain ⟨done, rest, hsplit, hexecuted, hzero⟩ := hloop.executed_of_sum_le (by
    rw [Stf.Progress.start]
    exact (Nat.zero_add _).trans_le hgas)
  rw [hexecuted]
  exact ⟨rest, hsplit, hzero⟩

open ExecutorServiceImpl

def samplePool : Mempool (TxContext sampleCrypto) GasPriceOrdering :=
  (decodeTxs sampleCrypto gappyTxs).foldl Mempool.insert .new

def proposedBlock : ServerBlock (TxContext sampleCrypto) where
  number := 1
  timestamp := 0
  gasLimit := 1100
  transactions := (samplePool.propose (Heap.greedyQueue OrderedEntry.key) 1100 0).1.1

theorem proposedBlock_transactions : proposedBlock.transactions =
    (samplePool.propose (Heap.greedyQueue OrderedEntry.key) 1100 0).1.1 := by
  rw [proposedBlock]

theorem proposedBlock_ends :
    Exec.Ends (Stf.applyBlock sampleService.codes 3 sampleService.stf proposedBlock)
      (fun r _ => r.toOption.map (fun p => p.2.map TxContext.txHash) =
        some [.repeatByte 32 3, .repeatByte 32 2]) ⟨.new sampleStore, .infinite, []⟩ := by
  decide +kernel

theorem propose_applyBlock_proposedBlock :
    ∃ result executed w', Stf.applyBlock sampleService.codes 3 sampleService.stf proposedBlock
        ⟨.new sampleStore, .infinite, []⟩ = .done (.ok (result, executed), w') ∧
      executed.map TxContext.txHash = [.repeatByte 32 3, .repeatByte 32 2] ∧
      ∃ rest, proposedBlock.transactions = executed ++ rest ∧ ∀ tx ∈ rest, tx.gasLimit = 0 := by
  obtain ⟨r, w', hrun, hr⟩ := proposedBlock_ends.exists
  cases r with
  | error e => cases hr
  | ok p =>
    refine ⟨p.1, p.2, w', hrun, Option.some.inj hr, ?_⟩
    have hlimit : BlockTrait.gasLimit proposedBlock = (1100 : UInt64) := rfl
    have htxs : BlockTrait.txs proposedBlock = _ := proposedBlock_transactions
    rw [proposedBlock_transactions]
    exact propose_applyBlock _ _ _ _ (by decide) (by decide) hlimit htxs hrun

end Evolve
