import Mathlib
import Evolve.Lib.Durable
import Evolve.Rpc.LatestBlock
import Evolve.Rpc.Service
import Evolve.Server.DevConsensus
import Evolve.Server.Persistence

/-! A node under an external consensus layer: how it starts from its storage, commits the blocks
that are executed one after the other, and saves where it has come to when it is stopped.  The
process may end at any call of the storage; what outlives it is the storage, the chain index and
what others were told. -/

namespace Evolve.Evnode

open Machine Borsh Effects Eth Durable Server ChainIndex

/-! ### What outlives a process -/

/-- What the node writes to its storage. -/
inductive Write (crypto : Crypto) (G : Type) where
  | genesis (changes : List CoreStateChange) (state : Server.ChainState G)
  | block (info : BlockExecutedInfo crypto)
  | chainState (state : Server.ChainState G)

def Write.operations {crypto : Crypto} {G : Type} (c : Codec G) :
    Write crypto G → List Storage.Operation
  | genesis changes state => Storage.stateChangesToOperations changes ++ state.operations c
  | block info => Storage.stateChangesToOperations info.stateChanges
  | chainState state => state.operations c

def Write.info {crypto : Crypto} {G : Type} : Write crypto G → Option (BlockExecutedInfo crypto)
  | block info => some info
  | _ => none

def Write.genesisResult {crypto : Crypto} {G : Type} : Write crypto G → Option G
  | genesis _ state => some state.genesisResult
  | _ => none

/-- Blocks, with whether the index has taken them. -/
abbrev Blocks := List (StoredBlock × Bool)

variable [LruCrate]

/-- The storage and the database of the chain index, and a record of what was seen from outside:
the states with which the processes have begun to serve, what each block was answered with, and the
blocks that were built. -/
structure Surroundings (crypto : Crypto) (G S : Type) where
  storage : Durable.Recorded S (Write crypto G)
  chainIndex : PersistentChainIndex
  served : List (Server.ChainState G)
  answers : List (BlockExecutedInfo crypto × Except EvnodeError B256)
  blocks : Blocks

/-! ### The node -/

/-- Which calls of the chain index fail: the load of the latest number when it is opened, the three
reads for the parent of the first block, and the storing of a block. -/
structure IndexFaults where
  loadLatest : Bool
  firstBlock : Bool
  latest : Bool
  headBlock : Bool
  store : Bool

/-- The reads for the parent of the first block succeed. -/
def IndexFaults.Readable (faults : IndexFaults) : Prop :=
  faults.firstBlock = false ∧ faults.latest = false ∧ faults.headBlock = false

/-- What a node is made of.  `S` is all that the storage keeps, also what makes it and the chain
index fail; genesis reads it and gives its changes and its result. -/
structure ExternalConsensusNode (crypto : Crypto) (G S E : Type) where
  get : S → Bytes → SdkResult (Option Bytes)
  batch : List Storage.Operation → S → Option (Except E Unit) × S
  commit : S → Option (Except E B256) × S
  reopen : S → S
  indexFaults : S → IndexFaults
  debug : E → String
  genesisCodec : Codec G
  encodeError : String
  runGenesis : S → Except String (List CoreStateChange × G)
  sha256 : Bytes → B256
  chainId : UInt64
  maxGas : UInt64
  rpcEnabled : Bool
  enableBlockIndexing : Bool

/-- What the worker of the sink keeps from block to block. -/
structure CommitSink where
  parentHash : B256
  currentHeight : UInt64

inductive Ending where
  | stopped
  | killed
deriving DecidableEq

/-- Failing to read the latest number is only warned about. -/
def openIndex (fails : Bool) (index : PersistentChainIndex) : PersistentChainIndex :=
  if fails then index.uncached .default else index.restart .default

def tryGetBlock (fails : Bool) (index : PersistentChainIndex) (number : UInt64) :
    Except Unit (Option StoredBlock) × PersistentChainIndex :=
  if fails then (.error (), index)
  else (.ok (index.getBlock number).1, (index.getBlock number).2)

def resolveInitialParentHash (faults : IndexFaults) (chainIndex : Option PersistentChainIndex)
    (initialHeight : UInt64) : B256 × Option PersistentChainIndex :=
  match chainIndex with
  | none => (.repeatByte 32 0, none)
  | some index =>
    match tryGetBlock faults.firstBlock index initialHeight with
    | (.ok (some block), index) => (block.hash, some index)
    -- the block is not there, or cannot be read
    | (_, index) =>
      if faults.latest then (.repeatByte 32 0, some index)
      else
        match index.latestBlockNumber with
        | none => (.repeatByte 32 0, some index)
        | some latestHeight =>
          match tryGetBlock faults.headBlock index latestHeight with
          | (.ok (some block), index) => (block.hash, some index)
          | (_, index) => (.repeatByte 32 0, some index)

namespace ExternalConsensusNode

variable {crypto : Crypto} {G S E : Type} (node : ExternalConsensusNode crypto G S E)

def store : Store S (Write crypto G) E B256 where
  write w := node.batch (w.operations node.genesisCodec)
  commit := node.commit
  reopen := node.reopen

/-- A batch with a commit. -/
def persist (w : Write crypto G) : Process (Surroundings crypto G S) (Persisted E B256) := fun s =>
  let (answer, storage) := node.store.persist w s.storage
  .done (answer.elim (.error .gone) .ok, { s with storage })

/-! ### The commit sink -/

def metadata (info : BlockExecutedInfo crypto) (parentHash root : B256) : BlockMetadata where
  hash := Dev.computeBlockHash crypto.keccak256 info.height info.timestamp parentHash
  parentHash := parentHash
  stateRoot := root
  timestamp := info.timestamp
  gasLimit := node.maxGas
  miner := .repeatByte 20 0
  extraData := []
  chainId := node.chainId

def indexData (info : BlockExecutedInfo crypto) (parentHash root : B256) :
    StoredBlock × List StoredTransaction × List StoredReceipt :=
  let block : ServerBlock (TxContext crypto) := ⟨info.height, info.timestamp, 0, info.transactions⟩
  buildIndexData crypto node.sha256 block info.blockResult (node.metadata info parentHash root)

def openChainIndex (s : Surroundings crypto G S) : Option PersistentChainIndex :=
  if node.rpcEnabled || node.enableBlockIndexing then some s.chainIndex else none

/-- A block that the index does not take is only warned about. -/
def indexBlock (info : BlockExecutedInfo crypto) (parentHash root : B256)
    (s : Surroundings crypto G S) : Surroundings crypto G S :=
  let data := node.indexData info parentHash root
  if node.enableBlockIndexing && !(node.indexFaults s.storage.store).store then
    let result := s.chainIndex.storeBlock data.1 data.2.1 data.2.2
    { s with chainIndex := result.2, blocks := s.blocks ++ [(data.1, result.1.isOk)] }
  else { s with blocks := s.blocks ++ [(data.1, false)] }

def answer (info : BlockExecutedInfo crypto) (result : Except EvnodeError B256) :
    Process (Surroundings crypto G S) Unit :=
  Exec.modify fun s => { s with answers := s.answers ++ [(info, result)] }

/-- What the worker does with a block of its queue. -/
def commitBlock (info : BlockExecutedInfo crypto) (sink : CommitSink) :
    Process (Surroundings crypto G S) CommitSink := do
  match ← node.persist (.block info) with
  | .refused e =>
    answer info (.error (.storage ("storage batch failed: " ++ node.debug e)))
    pure sink
  | .uncommitted e =>
    answer info (.error (.storage ("storage commit failed: " ++ node.debug e)))
    pure sink
  | .committed root =>
    Exec.modify (node.indexBlock info sink.parentHash root)
    answer info (.ok root)
    pure ⟨(node.metadata info sink.parentHash root).hash, info.height⟩

def commitBlocks : List (BlockExecutedInfo crypto) → CommitSink →
    Process (Surroundings crypto G S) CommitSink
  | [], sink => pure sink
  | info :: queue, sink => do
    let sink ← node.commitBlock info sink
    commitBlocks queue sink

def spawn (initialHeight : UInt64) : Process (Surroundings crypto G S) CommitSink := fun s =>
  let (parentHash, chainIndex) := resolveInitialParentHash (node.indexFaults s.storage.store)
    (node.openChainIndex s) initialHeight
  .done (.ok ⟨parentHash, initialHeight⟩, { s with chainIndex := chainIndex.getD s.chainIndex })

/-! ### The process -/

/-- A new process on what the last one has left. -/
def reopened (s : Surroundings crypto G S) : Surroundings crypto G S :=
  let storage := node.store.reopened s.storage
  { s with
    storage
    chainIndex := openIndex (node.indexFaults storage.store).loadLatest s.chainIndex }

/-- The process panics if genesis fails or is not committed. -/
def bootstrap : Process (Surroundings crypto G S) (Server.ChainState G) := do
  match ← Exec.read fun s => loadChainState node.genesisCodec (node.get s.storage.store) with
  | some state => pure state
  | none =>
    match ← Exec.read fun s => node.runGenesis s.storage.store with
    | .error _ => gone
    | .ok (changes, genesisResult) =>
      let state : Server.ChainState G := ⟨1, genesisResult⟩
      match (Server.ChainState.codec node.genesisCodec).encode state with
      | none => gone
      | some _ =>
        match ← node.persist (.genesis changes state) with
        | .committed _ => pure state
        | _ => gone

def saveChainState (state : Server.ChainState G) :
    Process (Surroundings crypto G S) (Except Dev.ServerError Unit) :=
  match (Server.ChainState.codec node.genesisCodec).encode state with
  | none => pure (.error (.storage ("serialize: " ++ node.encodeError)))
  | some _ => do
    match ← node.persist (.chainState state) with
    | .refused e => pure (.error (.storage ("batch: " ++ node.debug e)))
    | .uncommitted e => pure (.error (.storage ("commit: " ++ node.debug e)))
    | .committed _ => pure (.ok ())

/-- A process from its start to its end.  It commits the blocks that it is given; then it is killed,
or it is stopped and saves the height that it has come to. -/
def run (queue : List (BlockExecutedInfo crypto)) (ending : Ending) :
    Process (Surroundings crypto G S) (Except Dev.ServerError Unit) := do
  Exec.modify node.reopened
  let state ← node.bootstrap
  Exec.modify fun s => { s with served := s.served ++ [state] }
  let sink ← node.spawn state.height
  let sink ← node.commitBlocks queue sink
  match ending with
  | .killed => gone
  | .stopped => node.saveChainState ⟨sink.currentHeight, state.genesisResult⟩

/-! ### One process after the other -/

/-- A storage on which no process has run. -/
def untouched (storage : S) : Surroundings crypto G S :=
  ⟨⟨storage, [], []⟩, .new .default, [], [], []⟩

/-- The changes of a block leave the chain state alone. -/
def SparesInfo (info : BlockExecutedInfo crypto) : Prop :=
  SparesChainState (Storage.stateChangesToOperations info.stateChanges)

/-- What some processes, one after the other, have left. -/
inductive Reached (storage : S) : Surroundings crypto G S → Prop
  | untouched : Reached storage (untouched storage)
  | run {s s' : Surroundings crypto G S} {queue : List (BlockExecutedInfo crypto)} {ending : Ending}
      {r : Except Gone (Except Dev.ServerError Unit)} (hs : Reached storage s)
      (hqueue : ∀ info ∈ queue, SparesInfo info) (hrun : node.run queue ending s = .done (r, s')) :
      Reached storage s'

/-! ### What the steps leave alone -/

theorem settles_persist_storage (w : Write crypto G) (s : Surroundings crypto G S) :
    Exec.Settles (node.persist w)
      (fun r s' => ∃ storage, s' = { s with storage } ∧
        node.store.persist w s.storage = (some r, storage))
      (fun s' => ∃ storage, s' = { s with storage } ∧
        node.store.persist w s.storage = (none, storage)) s := by
  unfold Exec.Settles Exec.wp persist
  rcases hpersist : node.store.persist w s.storage with ⟨_ | r, storage⟩
  · exact ⟨storage, rfl, rfl⟩
  · exact ⟨storage, rfl, rfl⟩

/-- A process that finds a chain state resumes from it, and else starts at height 1. -/
def startHeight (state : Option (Server.ChainState G)) : UInt64 :=
  (state.map Server.ChainState.height).getD 1

theorem settles_bootstrap_storage (s : Surroundings crypto G S) :
    Exec.Settles node.bootstrap
      (fun state s' => (∃ storage, s' = { s with storage }) ∧
        state.height = startHeight (loadChainState node.genesisCodec (node.get s.storage.store)))
      (fun s' => ∃ storage, s' = { s with storage }) s := by
  refine .bind (.read ?_)
  cases loadChainState node.genesisCodec (node.get s.storage.store) with
  | some state => exact .pure ⟨⟨s.storage, rfl⟩, rfl⟩
  | none =>
    refine .bind (.read ?_)
    cases node.runGenesis s.storage.store with
    | error message => exact .throw ⟨s.storage, rfl⟩
    | ok output =>
      dsimp only
      cases (Server.ChainState.codec node.genesisCodec).encode ⟨1, output.2⟩ with
      | none => exact .throw ⟨s.storage, rfl⟩
      | some value =>
        refine .bind (((node.settles_persist_storage _ s).mono ?_).mono_error ?_)
        · rintro r _ ⟨storage, rfl, -⟩
          cases r with
          | refused e => exact .throw ⟨storage, rfl⟩
          | uncommitted e => exact .throw ⟨storage, rfl⟩
          | committed root => exact .pure ⟨⟨storage, rfl⟩, rfl⟩
        · rintro _ ⟨storage, rfl, -⟩
          exact ⟨storage, rfl⟩

theorem settles_saveChainState_storage (state : Server.ChainState G) (s : Surroundings crypto G S) :
    Exec.Settles (node.saveChainState state)
      (fun r s' => ∃ storage, s' = { s with storage } ∧ (r = .ok () →
        ∃ value root, (Server.ChainState.codec node.genesisCodec).encode state = some value ∧
          node.store.persist (.chainState state) s.storage = (some (.committed root), storage)))
      (fun s' => ∃ storage, s' = { s with storage }) s := by
  unfold saveChainState
  cases hencode : (Server.ChainState.codec node.genesisCodec).encode state with
  | none => exact .pure ⟨s.storage, rfl, nofun⟩
  | some value =>
    refine .bind (((node.settles_persist_storage _ s).mono ?_).mono_error ?_)
    · rintro r _ ⟨storage, rfl, hpersist⟩
      cases r with
      | refused e => exact .pure ⟨storage, rfl, nofun⟩
      | uncommitted e => exact .pure ⟨storage, rfl, nofun⟩
      | committed root => exact .pure ⟨storage, rfl, fun _ => ⟨value, root, rfl, hpersist⟩⟩
    · rintro _ ⟨storage, rfl, -⟩
      exact ⟨storage, rfl⟩

theorem settles_commitBlocks {I : CommitSink → Surroundings crypto G S → Prop}
    {E : Surroundings crypto G S → Prop} {queue : List (BlockExecutedInfo crypto)}
    (hstep : ∀ info ∈ queue, ∀ sink s, I sink s → Exec.Settles (node.commitBlock info sink) I E s)
    {sink : CommitSink} {s : Surroundings crypto G S} (h : I sink s) :
    Exec.Settles (node.commitBlocks queue sink) I E s := by
  induction queue generalizing sink s with
  | nil => exact .pure h
  | cons info queue ih =>
    refine .bind ((hstep info List.mem_cons_self sink s h).mono fun sink s' hs' => ?_)
    exact ih (fun info hinfo => hstep info (List.mem_cons_of_mem _ hinfo)) hs'

section

variable (info : BlockExecutedInfo crypto) (parentHash root : B256) (s : Surroundings crypto G S)

theorem indexBlock_storage : (node.indexBlock info parentHash root s).storage = s.storage := by
  unfold indexBlock
  split <;> rfl

theorem indexBlock_served : (node.indexBlock info parentHash root s).served = s.served := by
  unfold indexBlock
  split <;> rfl

theorem indexBlock_answers : (node.indexBlock info parentHash root s).answers = s.answers := by
  unfold indexBlock
  split <;> rfl

end

end ExternalConsensusNode

end Evolve.Evnode
