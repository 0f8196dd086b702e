import Mathlib
import Evolve.Lib.History
import Evolve.Mempool.Operations
import Evolve.Rpc.Service
import Evolve.Storage.Batch

/-! Block production without a consensus layer.  A production takes its height from a counter and
increments it before anything else; the hash of the last block is replaced at the end, once the
changes are committed. -/

namespace Evolve.Dev

open Machine Eth Mempool History

/-! ### Blocks -/

/-- A block of the server with its parent; the other fields of the header are constants. -/
structure Block (Tx : Type) extends ServerBlock Tx where
  parentHash : B256

inductive ServerError where
  | execution (message : String)
  | storage (message : String)
deriving DecidableEq

structure ProducedBlock where
  height : UInt64
  hash : B256
  txCount : Nat
  gasUsed : UInt64
  successfulTxs : Nat
  failedTxs : Nat

def computeBlockHash (keccak256 : Bytes → B256) (height timestamp : UInt64) (parentHash : B256) :
    B256 :=
  keccak256 (leBytes 8 height.toNat ++ leBytes 8 timestamp.toNat ++ parentHash.bytes)

/-! ### The engine -/

structure DevConfig where
  gasLimit : UInt64
  initialHeight : UInt64

structure DevState where
  height : UInt64
  lastHash : B256
  lastTimestamp : UInt64

def DevState.new (initialHeight : UInt64) : DevState := ⟨initialHeight, .repeatByte 32 0, 0⟩

/-- What the engine is made of: the execution of a block, with the changes that the execution state
is turned into, the storage, the hash function and the heap of the mempool.  `S` is all that the
storage keeps, also what makes it fail. -/
structure Node (Tx OrderingKey S E : Type) [LinearOrder OrderingKey] where
  config : DevConfig
  executeBlock : S → Block Tx → BlockResult × SdkResult (List CoreStateChange)
  batch : List Storage.Operation → S → Except E Unit × S
  commit : S → Except E B256 × S
  keccak256 : Bytes → B256
  heap : BinaryHeap OrderingKey
  debugCode : ErrorCode → String
  debugStorage : E → String

structure DevConsensus (Tx OrderingKey S : Type) where
  storage : S
  state : DevState
  mempool : Option (Mempool Tx OrderingKey)

variable {Tx OrderingKey S E : Type} [LinearOrder OrderingKey]
  (node : Node Tx OrderingKey S E)

namespace Node

def start (storage : S) (mempool : Option (Mempool Tx OrderingKey)) :
    DevConsensus Tx OrderingKey S :=
  ⟨storage, .new node.config.initialHeight, mempool⟩

/-- The block that a production builds. -/
def nextBlock (c : DevConsensus Tx OrderingKey S) (timestamp : UInt64)
    (transactions : List Tx) : Block Tx where
  number := c.state.height
  timestamp := timestamp
  gasLimit := node.config.gasLimit
  transactions := transactions
  parentHash := c.state.lastHash

/-- `produce_block_with_txs`, at a given time of the clock.  The tasks for the archive and the
index, which are started afterwards, play no part. -/
def produceBlockWithTxs (timestamp : UInt64) (transactions : List Tx)
    (c : DevConsensus Tx OrderingKey S) :
    Except ServerError ProducedBlock × DevConsensus Tx OrderingKey S :=
  let block := node.nextBlock c timestamp transactions
  let c := { c with state := { c.state with height := c.state.height + 1 } }
  let (result, changes) := node.executeBlock c.storage block
  match changes with
  | .error e =>
    (.error (.execution ("failed to get state changes: " ++ node.debugCode e)), c)
  | .ok changes =>
    let blockHash := computeBlockHash node.keccak256 block.number timestamp block.parentHash
    let gasUsed := (result.txResults.map TxResult.gasUsed).sum
    let executedTxCount := result.txResults.length
    let successfulTxs := (result.txResults.filter (·.response.isOk)).length
    match node.batch (Storage.stateChangesToOperations changes) c.storage with
    | (.error e, storage) =>
      (.error (.storage ("batch failed: " ++ node.debugStorage e)), { c with storage })
    | (.ok (), storage) =>
      match node.commit storage with
      | (.error e, storage) =>
        (.error (.storage ("commit failed: " ++ node.debugStorage e)), { c with storage })
      | (.ok _, storage) =>
        (.ok {
          height := block.number
          hash := blockHash
          txCount := executedTxCount
          gasUsed := gasUsed
          successfulTxs := successfulTxs
          failedTxs := executedTxCount - successfulTxs },
        { c with
          storage := storage
          state := { c.state with lastHash := blockHash, lastTimestamp := timestamp } })

def produceBlock (timestamp : UInt64) (c : DevConsensus Tx OrderingKey S) :
    Except ServerError ProducedBlock × DevConsensus Tx OrderingKey S :=
  node.produceBlockWithTxs timestamp [] c

variable [MempoolTx Tx OrderingKey]

/-- The transactions that are executed are taken out of the pool, the others go back into it. -/
def finalizeProposal (hashes executed : List TxId) (c : DevConsensus Tx OrderingKey S) :
    DevConsensus Tx OrderingKey S :=
  if hashes.isEmpty then c else { c with mempool := c.mempool.map (·.finalize executed) }

def produceBlockFromMempool (timestamp : UInt64) (maxTxs : Nat)
    (c : DevConsensus Tx OrderingKey S) :
    Except ServerError ProducedBlock × DevConsensus Tx OrderingKey S :=
  match c.mempool with
  | none => (.error (.execution "no mempool configured"), c)
  | some pool =>
    if maxTxs = 0 then node.produceBlockWithTxs timestamp [] c
    else
      let ((selected, _), pool) := pool.propose node.heap node.config.gasLimit maxTxs
      let hashes := selected.map MempoolTx.txId
      match node.produceBlockWithTxs timestamp selected { c with mempool := some pool } with
      | (.error e, c) => (.error e, finalizeProposal hashes [] c)
      | (.ok produced, c) =>
        (.ok produced, finalizeProposal hashes (hashes.take produced.txCount) c)

/-! ### Sequences of productions -/

/-- The productions, and changes that others make to the pool in between. -/
inductive Production (Tx OrderingKey : Type) where
  | withTxs (timestamp : UInt64) (transactions : List Tx)
  | fromMempool (timestamp : UInt64) (maxTxs : Nat)
  | poolChanges (pool : Mempool Tx OrderingKey)

def perform (c : DevConsensus Tx OrderingKey S) : Production Tx OrderingKey →
    Option (Except ServerError ProducedBlock) × DevConsensus Tx OrderingKey S
  | .withTxs timestamp transactions =>
    let (result, c) := node.produceBlockWithTxs timestamp transactions c
    (some result, c)
  | .fromMempool timestamp maxTxs =>
    let (result, c) := node.produceBlockFromMempool timestamp maxTxs c
    (some result, c)
  | .poolChanges pool => (none, { c with mempool := c.mempool.map fun _ => pool })

def step (c : DevConsensus Tx OrderingKey S) (production : Production Tx OrderingKey) :
    DevConsensus Tx OrderingKey S :=
  (node.perform c production).2

/-- The time and the transactions with which a block is built, if it comes to that. -/
def started (c : DevConsensus Tx OrderingKey S) :
    Production Tx OrderingKey → Option (UInt64 × List Tx)
  | .withTxs timestamp transactions => some (timestamp, transactions)
  | .fromMempool timestamp maxTxs =>
    c.mempool.map fun pool =>
      (timestamp,
        if maxTxs = 0 then [] else (pool.propose node.heap node.config.gasLimit maxTxs).1.1)
  | .poolChanges _ => none

/-- The blocks that were produced, with the results that were returned for them. -/
def blocks (c : DevConsensus Tx OrderingKey S) :
    List (Production Tx OrderingKey) → List (Block Tx × ProducedBlock)
  | [] => []
  | production :: productions =>
    (match node.started c production, (node.perform c production).1 with
      | some (timestamp, transactions), some (.ok produced) =>
        [(node.nextBlock c timestamp transactions, produced)]
      | _, _ => []) ++ blocks (node.step c production) productions

/-- The next height, and the hash of the block before as parent. -/
def Follows (a b : Block Tx × ProducedBlock) : Prop :=
  b.2.height = a.2.height + 1 ∧ b.1.parentHash = a.2.hash

/-- A production that fails leaves the height and the last hash as they are. -/
def FailsCleanly (c : DevConsensus Tx OrderingKey S) (production : Production Tx OrderingKey) :
    Prop :=
  ∀ e, (node.perform c production).1 = some (.error e) →
    (node.step c production).state.height = c.state.height ∧
      (node.step c production).state.lastHash = c.state.lastHash

/-- The changes can be collected, and the storage takes and commits them. -/
def Commits (c : DevConsensus Tx OrderingKey S) (timestamp : UInt64) (transactions : List Tx) :
    Prop :=
  ∃ changes, (node.executeBlock c.storage (node.nextBlock c timestamp transactions)).2 =
      .ok changes ∧
    (node.batch (Storage.stateChangesToOperations changes) c.storage).1 = .ok () ∧
    ∃ hash, (node.commit
      (node.batch (Storage.stateChangesToOperations changes) c.storage).2).1 = .ok hash

/-- If a block is built, it is committed. -/
def CommitsIfStarted (c : DevConsensus Tx OrderingKey S)
    (production : Production Tx OrderingKey) : Prop :=
  ∀ timestamp transactions, node.started c production = some (timestamp, transactions) →
    node.Commits c timestamp transactions

/-- What is left of the state by a production that has built a block. -/
inductive Leaves (c : DevConsensus Tx OrderingKey S) (state : DevState) (commits : Prop) :
    Except ServerError ProducedBlock → Prop
  | produced {produced : ProducedBlock} (hcommits : commits)
      (hheight : produced.height = c.state.height) (hnext : state.height = c.state.height + 1)
      (hlast : state.lastHash = produced.hash) : Leaves c state commits (.ok produced)
  | failed {e : ServerError} (hcommits : ¬commits) (hnext : state.height = c.state.height + 1) :
      Leaves c state commits (.error e)

omit [MempoolTx Tx OrderingKey] in
theorem leaves_produceBlockWithTxs (timestamp : UInt64) (transactions : List Tx)
    (c : DevConsensus Tx OrderingKey S) :
    Leaves c (node.produceBlockWithTxs timestamp transactions c).2.state
      (node.Commits c timestamp transactions)
      (node.produceBlockWithTxs timestamp transactions c).1 := by
  rcases hexecute : node.executeBlock c.storage (node.nextBlock c timestamp transactions) with
    ⟨result, e | changes⟩
  · simp only [produceBlockWithTxs, Commits, hexecute]
    refine .failed ?_ rfl
    rintro ⟨changes, hchanges, -⟩
    cases hchanges
  rcases hbatch : node.batch (Storage.stateChangesToOperations changes) c.storage with
    ⟨e | ⟨⟩, storage⟩
  · simp only [produceBlockWithTxs, Commits, hexecute, hbatch]
    refine .failed ?_ rfl
    rintro ⟨_, ⟨⟩, hok, -⟩
    rw [hbatch] at hok
    cases hok
  rcases hcommit : node.commit storage with ⟨e | hash, storage'⟩
  · simp only [produceBlockWithTxs, Commits, hexecute, hbatch, hcommit]
    refine .failed ?_ rfl
    rintro ⟨_, ⟨⟩, -, hash, hok⟩
    rw [hbatch, hcommit] at hok
    cases hok
  · simp only [produceBlockWithTxs, Commits, hexecute, hbatch, hcommit]
    refine .produced ⟨changes, rfl, ?_, hash, ?_⟩ rfl rfl rfl
    · rw [hbatch]
    · rw [hbatch, hcommit]

omit [LinearOrder OrderingKey] in
theorem finalizeProposal_state (hashes executed : List TxId)
    (c : DevConsensus Tx OrderingKey S) : (finalizeProposal hashes executed c).state = c.state := by
  unfold finalizeProposal
  split <;> rfl

theorem leaves_produceBlockFromMempool (timestamp : UInt64) (maxTxs : Nat)
    {c : DevConsensus Tx OrderingKey S} {pool : Mempool Tx OrderingKey}
    (hpool : c.mempool = some pool) :
    Leaves c (node.produceBlockFromMempool timestamp maxTxs c).2.state
      (node.Commits c timestamp
        (if maxTxs = 0 then [] else (pool.propose node.heap node.config.gasLimit maxTxs).1.1))
      (node.produceBlockFromMempool timestamp maxTxs c).1 := by
  unfold produceBlockFromMempool
  simp only [hpool]
  by_cases hzero : maxTxs = 0
  · rw [if_pos hzero, if_pos hzero]
    exact node.leaves_produceBlockWithTxs timestamp [] c
  · rw [if_neg hzero, if_neg hzero]
    rcases hpropose : pool.propose node.heap node.config.gasLimit maxTxs with
      ⟨⟨selected, gas⟩, pool'⟩
    -- The pool plays no part in the production itself.
    have hleaves := node.leaves_produceBlockWithTxs timestamp selected
      { c with mempool := some pool' }
    rcases hresult : node.produceBlockWithTxs timestamp selected
      { c with mempool := some pool' } with ⟨e | produced, c'⟩
    · rw [hresult] at hleaves
      cases hleaves with
      | failed hcommits hnext =>
        exact .failed hcommits ((congrArg _ (finalizeProposal_state ..)).trans hnext)
    · rw [hresult] at hleaves
      cases hleaves with
      | produced hcommits hheight hnext hlast =>
        exact .produced hcommits hheight ((congrArg _ (finalizeProposal_state ..)).trans hnext)
          ((congrArg _ (finalizeProposal_state ..)).trans hlast)

/-- A production does nothing to the height and the last hash before it starts. -/
theorem perform_cases (c : DevConsensus Tx OrderingKey S) (production : Production Tx OrderingKey) :
    (node.started c production = none ∧ (∀ produced,
      (node.perform c production).1 ≠ some (.ok produced)) ∧
        (node.step c production).state = c.state) ∨
    ∃ timestamp transactions result, node.started c production = some (timestamp, transactions) ∧
      (node.perform c production).1 = some result ∧
      Leaves c (node.step c production).state (node.Commits c timestamp transactions) result := by
  cases production with
  | withTxs timestamp transactions =>
    exact .inr ⟨timestamp, transactions, _, rfl, rfl,
      node.leaves_produceBlockWithTxs timestamp transactions c⟩
  | fromMempool timestamp maxTxs =>
    cases hpool : c.mempool with
    | none =>
      refine .inl ⟨by rw [started, hpool, Option.map_none], fun produced hok => ?_, ?_⟩
      · simp [perform, produceBlockFromMempool, hpool] at hok
      · simp [step, perform, produceBlockFromMempool, hpool]
    | some pool =>
      refine .inr ⟨timestamp, _, _, by rw [started, hpool, Option.map_some], rfl, ?_⟩
      exact node.leaves_produceBlockFromMempool timestamp maxTxs hpool
  | poolChanges pool => exact .inl ⟨rfl, fun produced hok => (nomatch hok), rfl⟩

theorem failsCleanly_iff (c : DevConsensus Tx OrderingKey S)
    (production : Production Tx OrderingKey) :
    node.FailsCleanly c production ↔ node.CommitsIfStarted c production := by
  unfold FailsCleanly CommitsIfStarted
  rcases node.perform_cases c production with ⟨hnone, -, hstate⟩ |
    ⟨timestamp, transactions, result, hstarted, hresult, hleaves⟩
  · simp [hnone, hstate]
  · rw [hstarted, hresult]
    cases hleaves with
    | produced hcommits hheight hnext hlast =>
      refine iff_of_true (fun e he => nomatch he) ?_
      rintro _ _ ⟨⟩
      exact hcommits
    | failed hcommits hnext =>
      refine iff_of_false (fun h => ?_) fun h => hcommits (h _ _ rfl)
      have hsame := (h _ rfl).1
      rw [hnext] at hsame
      simp at hsame

theorem linked_blocks {c : DevConsensus Tx OrderingKey S}
    {productions : List (Production Tx OrderingKey)}
    (h : EveryEvent node.step node.CommitsIfStarted c productions) :
    (∀ first ∈ (node.blocks c productions).head?, first.2.height = c.state.height ∧
      first.1.parentHash = c.state.lastHash) ∧ (node.blocks c productions).IsChain Follows := by
  induction productions generalizing c with
  | nil => exact ⟨fun first hfirst => (nomatch hfirst), .nil⟩
  | cons production productions ih =>
    obtain ⟨hevent, hrest⟩ := h
    obtain ⟨hhead, hchain⟩ := ih hrest
    rcases node.perform_cases c production with ⟨hnone, -, hstate⟩ |
      ⟨timestamp, transactions, result, hstarted, hresult, hleaves⟩
    · have hblocks : node.blocks c (production :: productions) =
          node.blocks (node.step c production) productions := by
        simp [blocks, hnone]
      rw [hblocks, ← hstate]
      exact ⟨hhead, hchain⟩
    · cases hleaves with
      | produced hcommits hheight hnext hlast =>
        rename_i produced
        have hblocks : node.blocks c (production :: productions) =
            (node.nextBlock c timestamp transactions, produced) ::
              node.blocks (node.step c production) productions := by
          simp [blocks, hstarted, hresult]
        rw [hblocks, List.isChain_cons]
        refine ⟨fun first hfirst => ?_, fun next hmem => ?_, hchain⟩
        · cases hfirst
          exact ⟨hheight, rfl⟩
        · obtain ⟨hnextHeight, hparent⟩ := hhead next hmem
          exact ⟨by rw [hnextHeight, hnext, hheight], hparent.trans hlast⟩
      | failed hcommits hnext => exact absurd (hevent _ _ hstarted) hcommits

/-- For every sequence of productions: the blocks have consecutive heights, each with the hash of
the one before as its parent, and failures leave the height and the last hash as they are, if and
only if no production that has built a block fails to collect, write or commit its changes. -/
theorem linked_iff_commits (c : DevConsensus Tx OrderingKey S)
    (productions : List (Production Tx OrderingKey)) :
    ((node.blocks c productions).IsChain Follows ∧
      EveryEvent node.step node.FailsCleanly c productions) ↔
      EveryEvent node.step node.CommitsIfStarted c productions := by
  rw [everyEvent_congr node.failsCleanly_iff]
  exact ⟨And.right, fun h => ⟨(node.linked_blocks h).2, h⟩⟩

end Node

/-! ### A commit that fails -/

/-- A node whose second commit fails; its storage counts the commits. -/
def failingNode : Node TestGasTx GasPriceOrdering Nat Unit where
  config := ⟨30000000, 1⟩
  executeBlock _ _ := (⟨[], [], [], 0, 0⟩, .ok [])
  batch _ commits := (.ok (), commits)
  commit commits :=
    (if commits = 1 then .error () else .ok (.repeatByte 32 0), commits + 1)
  keccak256 bytes := .repeatByte 32 (bytes.headD 0)
  heap := TestGasTx.heap
  debugCode _ := ""
  debugStorage _ := ""

def threeProductions : List (Node.Production TestGasTx GasPriceOrdering) :=
  [.withTxs 10 [], .withTxs 11 [], .withTxs 12 []]

/-- The height of the block that was not committed is left out. -/
theorem failingNode_skips_height :
    (failingNode.blocks (failingNode.start 0 none) threeProductions).map (·.2.height) = [1, 3] ∧
      (failingNode.produceBlock 11 ⟨1, ⟨2, .repeatByte 32 1, 10⟩, none⟩).1 =
        .error (.storage "commit failed: ") ∧
      (failingNode.produceBlock 11 ⟨1, ⟨2, .repeatByte 32 1, 10⟩, none⟩).2.state.height = 3 := by
  refine ⟨by decide, rfl, rfl⟩

end Evolve.Dev
