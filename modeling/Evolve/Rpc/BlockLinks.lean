import Mathlib
import Evolve.Rpc.Logs
import Evolve.Rpc.Restarts

/-! The blocks that a node builds, across its processes.  No block ever refers to a parent that was
not built before it; if every process is stopped in good order and the index has taken every block,
the blocks are one chain. -/

namespace Evolve.Evnode

open Machine Borsh Effects Exec Eth Durable Semantics Server Storage ChainIndex History

/-! ### The hash that a process starts from -/

def zeroHash : B256 := .repeatByte 32 0

/-- The hash of the indexed block at the height, or else of the block that was stored last. -/
def seedHash (db : Database) (height : UInt64) : B256 :=
  (((db.block height).or (db.latestBlock.bind db.block)).map StoredBlock.hash).getD zeroHash

section

variable [LruCrate]

theorem getBlock_latestBlockNumber {index : PersistentChainIndex} {number : UInt64}
    (h : (index.getBlock number).1 = none) :
    (index.getBlock number).2.latestBlockNumber = index.latestBlockNumber := by
  unfold PersistentChainIndex.getBlock at *
  split at h
  · cases h
  · rename_i cache hmissed
    have hcache : cache = (index.cache.getBlockByNumber number).2 := by rw [hmissed]
    split at h
    · cases h
    · rw [hcache]
      rfl

variable (index : PersistentChainIndex) (config : CacheConfig)

theorem restart_db : (index.restart config).db = index.db := by
  unfold PersistentChainIndex.restart PersistentChainIndex.initializeIndex
  split <;> rfl

theorem restart_obeys (rule : EntryRule) : (index.restart config).cache.Obeys rule := by
  have hnew := ChainCache.obeys_new config rule
  unfold PersistentChainIndex.restart PersistentChainIndex.initializeIndex
  split
  · exact ⟨hnew.blocks, hnew.numbers, hnew.transactions, hnew.receipts⟩
  · exact hnew

theorem restart_latest : (index.restart config).latestBlockNumber = index.db.latestBlock := by
  unfold PersistentChainIndex.restart PersistentChainIndex.initializeIndex
  split
  · rename_i latest hlatest
    exact hlatest.symm
  · rfl

theorem getBlock_of_obeys {index : PersistentChainIndex}
    (h : index.cache.Obeys index.db.answers) (number : UInt64) :
    (index.getBlock number).1 = index.db.block number :=
  PersistentChainIndex.getBlock_fst (h.blocks number)

/-- If the cache has only what the tables answer and the latest number is the stored one, a restart
changes no answer of `get_logs`. -/
theorem getLogs_restart (filter : LogFilter) (h : index.cache.Obeys index.db.answers)
    (hlatest : index.latestBlockNumber = index.db.latestBlock) :
    ∃ answer index₁ index₂, getLogs filter index = .done (answer, index₁) ∧
      getLogs filter (index.restart config) = .done (answer, index₂) := by
  obtain ⟨index₁, hbefore⟩ := index.db.reflects.getLogs_done filter ⟨rfl, h⟩
  obtain ⟨index₂, hafter⟩ := index.db.reflects.getLogs_done filter
    ⟨restart_db index config, restart_obeys index config _⟩
  have hsame : IndexReads.latestBlockNumber (index.restart config) =
      IndexReads.latestBlockNumber index := (restart_latest index config).trans hlatest.symm
  rw [hsame] at hafter
  exact ⟨_, index₁, index₂, hbefore, hafter⟩

end

/-- An index that has read a block and a receipt, which are in its cache then. -/
def warmIndex : PersistentChainIndex :=
  ((emittingIndex.getBlock 1).2.getReceipt (.repeatByte 32 9)).2

theorem warmIndex_obeys : warmIndex.cache.Obeys warmIndex.db.answers := by
  have hkeeps : emittingIndex.Keeps emittingIndex.db.answers warmIndex :=
    (emittingIndex.keeps_getBlock _ 1).trans (PersistentChainIndex.keeps_getReceipt _ _ _)
  rw [hkeeps.1]
  exact hkeeps.2 (ChainCache.obeys_new _ _) (Database.allows_answers _)

theorem getLogs_restart_sample :
    (warmIndex.cache.getBlockByNumber 1).1.isSome ∧
      (warmIndex.cache.getReceipt (.repeatByte 32 9)).1.isSome ∧
      ∃ answer index₁ index₂, getLogs sampleFilter warmIndex = .done (answer, index₁) ∧
        getLogs sampleFilter (warmIndex.restart .default) = .done (answer, index₂) :=
  ⟨by decide +kernel, by decide +kernel,
    getLogs_restart _ _ _ warmIndex_obeys (by decide +kernel)⟩

section

variable [LruCrate]

/-- The index reads as its database. -/
structure ReadsFrom (index : PersistentChainIndex) (db : Database) : Prop where
  db_eq : index.db = db
  obeys : index.cache.Obeys db.answers
  latest : index.latestBlockNumber = db.latestBlock

theorem readsFrom_openIndex (fails : Bool) (index : PersistentChainIndex) :
    ReadsFrom (openIndex fails index) index.db := by
  cases fails with
  | true => exact ⟨rfl, ChainCache.obeys_new _ _, rfl⟩
  | false =>
    exact ⟨restart_db index _, restart_obeys index _ _, restart_latest index _⟩

theorem tryGetBlock_spec (fails : Bool) {index : PersistentChainIndex} {db : Database}
    (h : ReadsFrom index db) (number : UInt64) :
    ∃ found index', tryGetBlock fails index number = (found, index') ∧ index'.db = db ∧
      ((∃ b, found = .ok (some b) ∧ db.block number = some b) ∨
        (∀ b, found ≠ .ok (some b)) ∧ (fails = false → db.block number = none) ∧
          ReadsFrom index' db) := by
  obtain ⟨rfl, hobeys, hlatest⟩ := h
  have hkeeps := index.keeps_getBlock index.db.answers number
  have hblock := getBlock_of_obeys hobeys number
  unfold tryGetBlock
  cases fails with
  | true => exact ⟨_, index, rfl, rfl, .inr ⟨nofun, nofun, rfl, hobeys, hlatest⟩⟩
  | false =>
    refine ⟨_, _, rfl, hkeeps.1, ?_⟩
    rw [hblock]
    cases hfound : index.db.block number with
    | some b => exact .inl ⟨b, rfl, rfl⟩
    | none =>
      refine .inr ⟨nofun, fun _ => rfl, hkeeps.1, hkeeps.2 hobeys (Database.allows_answers _), ?_⟩
      exact (getBlock_latestBlockNumber (hblock.trans hfound)).trans hlatest

theorem resolveInitialParentHash_of_unread {faults : IndexFaults}
    {index index₁ : PersistentChainIndex} {height : UInt64}
    {found : Except Unit (Option StoredBlock)}
    (hget : tryGetBlock faults.firstBlock index height = (found, index₁))
    (hnone : ∀ b, found ≠ .ok (some b)) :
    resolveInitialParentHash faults (some index) height =
      if faults.latest then (zeroHash, some index₁)
      else
        match index₁.latestBlockNumber with
        | none => (zeroHash, some index₁)
        | some latestHeight =>
          match tryGetBlock faults.headBlock index₁ latestHeight with
          | (.ok (some block), index) => (block.hash, some index)
          | (_, index) => (zeroHash, some index) := by
  unfold resolveInitialParentHash
  dsimp only
  rw [hget]
  rcases found with _ | _ | b
  · rfl
  · rfl
  · exact absurd rfl (hnone b)

/-- Whichever reads fail, the first parent is none or a block of the database; and if none fails, it
is the one that the height asks for. -/
theorem resolveInitialParentHash_spec (faults : IndexFaults) {index : PersistentChainIndex}
    {db : Database} (h : ReadsFrom index db) (height : UInt64) :
    ∃ hash index', resolveInitialParentHash faults (some index) height = (hash, some index') ∧
      index'.db = db ∧ (hash = zeroHash ∨ ∃ number b, db.block number = some b ∧ b.hash = hash) ∧
      (faults.Readable → hash = seedHash db height) := by
  obtain ⟨found, index₁, hget, hdb₁, ⟨b, rfl, hb⟩ | ⟨hnone, habsent, h₁⟩⟩ :=
    tryGetBlock_spec faults.firstBlock h height
  · unfold resolveInitialParentHash seedHash
    dsimp only
    rw [hget, hb]
    exact ⟨_, index₁, rfl, hdb₁, .inr ⟨height, b, hb, rfl⟩, fun _ => rfl⟩
  · rw [resolveInitialParentHash_of_unread hget hnone, h₁.latest]
    by_cases hfails : faults.latest = true
    · rw [if_pos hfails]
      refine ⟨_, index₁, rfl, hdb₁, .inl rfl, fun hreads => ?_⟩
      rw [hreads.2.1] at hfails
      cases hfails
    rw [if_neg hfails]
    have hseed (hreads : faults.Readable) :
        seedHash db height =
          ((db.latestBlock.bind db.block).map StoredBlock.hash).getD zeroHash := by
      unfold seedHash
      rw [habsent hreads.1, Option.none_or]
    cases hlatest : db.latestBlock with
    | none =>
      refine ⟨_, index₁, rfl, hdb₁, .inl rfl, fun hreads => ?_⟩
      rw [hseed hreads, hlatest]
      rfl
    | some latestHeight =>
      obtain ⟨found₂, index₂, hget₂, hdb₂, ⟨b, rfl, hb⟩ | ⟨hnone₂, habsent₂, -⟩⟩ :=
        tryGetBlock_spec faults.headBlock h₁ latestHeight
      · dsimp only
        rw [hget₂]
        refine ⟨_, index₂, rfl, hdb₂, .inr ⟨latestHeight, b, hb, rfl⟩, fun hreads => ?_⟩
        rw [hseed hreads, hlatest, Option.bind_some, hb]
        rfl
      · dsimp only
        rw [hget₂]
        refine ⟨zeroHash, index₂, ?_, hdb₂, .inl rfl, fun hreads => ?_⟩
        · rcases found₂ with _ | _ | b
          · rfl
          · rfl
          · exact absurd rfl (hnone₂ b)
        · rw [hseed hreads, hlatest, Option.bind_some, habsent₂ hreads.2.2]
          rfl

end

namespace ExternalConsensusNode

variable {crypto : Crypto} {G S E : Type}

/-! ### What is built -/

def built (blocks : Blocks) : List StoredBlock := blocks.map Prod.fst

/-- The hash of the block that was built last. -/
def lastHash (blocks : List StoredBlock) : B256 :=
  (blocks.getLast?.map StoredBlock.hash).getD zeroHash

/-- The block has the hash of its number, time and parent, and its parent is one of the blocks
before it, if it has one. -/
structure Grounded (crypto : Crypto) (earlier : List StoredBlock) (b : StoredBlock) : Prop where
  hash : b.hash = Dev.computeBlockHash crypto.keccak256 b.number b.timestamp b.parentHash
  parent : b.parentHash = zeroHash ∨ b.parentHash ∈ earlier.map StoredBlock.hash

/-- The parent is the block right before. -/
def Extends (earlier : List StoredBlock) (b : StoredBlock) : Prop := b.parentHash = lastHash earlier

section

variable [LruCrate] {node : ExternalConsensusNode crypto G S E} {s s' : Surroundings crypto G S}
  {info : BlockExecutedInfo crypto} {queue : List (BlockExecutedInfo crypto)} {ending : Ending}
  {sink : CommitSink} {storage : S}

/-- How a block that is committed changes what was built and the index. -/
theorem indexBlock_cases (node : ExternalConsensusNode crypto G S E)
    (info : BlockExecutedInfo crypto) (parentHash root : B256) (s : Surroundings crypto G S) :
    ∃ b indexed, b.number = info.height ∧ b.parentHash = parentHash ∧
      b.hash = Dev.computeBlockHash crypto.keccak256 info.height info.timestamp parentHash ∧
      b.timestamp = info.timestamp ∧
      (node.indexBlock info parentHash root s).blocks = s.blocks ++ [(b, indexed)] ∧
      (indexed = false ∧
          (node.indexBlock info parentHash root s).chainIndex.db = s.chainIndex.db ∨
        indexed = true ∧ ∃ txs receipts, Database.Stores s.chainIndex.db b txs receipts
          (node.indexBlock info parentHash root s).chainIndex.db) := by
  unfold indexBlock
  split
  · refine ⟨(node.indexData info parentHash root).1, _, rfl, rfl, rfl, rfl, rfl, ?_⟩
    dsimp only
    unfold PersistentChainIndex.storeBlock
    cases hstore : s.chainIndex.db.storeBlock (node.indexData info parentHash root).1
        (node.indexData info parentHash root).2.1 (node.indexData info parentHash root).2.2 with
    | error e => exact .inl ⟨rfl, rfl⟩
    | ok db => exact .inr ⟨rfl, _, _, Database.stores_of_storeBlock hstore⟩
  · exact ⟨(node.indexData info parentHash root).1, false, rfl, rfl, rfl, rfl, rfl,
      .inl ⟨rfl, rfl⟩⟩

/-- The sink starts from no block or from one of the index; if blocks are indexed and the index can
be read, from the one that the height asks for. -/
structure StartsFrom (node : ExternalConsensusNode crypto G S E) (db : Database)
    (sink : CommitSink) : Prop where
  known : sink.parentHash = zeroHash ∨
    ∃ number b, db.block number = some b ∧ b.hash = sink.parentHash
  seeded : node.enableBlockIndexing = true → (∀ t, (node.indexFaults t).Readable) →
    sink.parentHash = seedHash db sink.currentHeight

theorem spawn_eq (node : ExternalConsensusNode crypto G S E) {db : Database}
    (h : ReadsFrom s.chainIndex db) (height : UInt64) :
    ∃ sink chainIndex, node.spawn height s = .done (.ok sink, { s with chainIndex }) ∧
      chainIndex.db = db ∧ sink.currentHeight = height ∧ node.StartsFrom db sink := by
  obtain ⟨hash, index', hresolve, hdb, hknown, hseeded⟩ :=
    resolveInitialParentHash_spec (node.indexFaults s.storage.store) h height
  unfold spawn openChainIndex
  by_cases hopen : (node.rpcEnabled || node.enableBlockIndexing) = true
  · rw [if_pos hopen, hresolve]
    exact ⟨_, index', rfl, hdb, rfl, hknown, fun _ hreads => hseeded (hreads _)⟩
  · rw [if_neg hopen]
    refine ⟨_, s.chainIndex, rfl, h.db_eq, rfl, .inl rfl, fun hindexing => ?_⟩
    rw [hindexing, Bool.or_true] at hopen
    exact absurd rfl hopen

/-! ### What holds from block to block -/

section

variable {I : CommitSink → Blocks → Database → Prop}
  (hblock : ∀ info root sink s, I sink s.blocks s.chainIndex.db →
    I ⟨(node.metadata info sink.parentHash root).hash, info.height⟩
      (node.indexBlock info sink.parentHash root s).blocks
      (node.indexBlock info sink.parentHash root s).chainIndex.db)
include hblock

theorem settles_commitBlock_index (h : I sink s.blocks s.chainIndex.db) :
    Settles (node.commitBlock info sink) (fun sink s' => I sink s'.blocks s'.chainIndex.db)
      (fun s' => ∃ sink, I sink s'.blocks s'.chainIndex.db) s := by
  refine .bind (((node.settles_persist_storage _ s).mono ?_).mono_error ?_)
  · rintro r _ ⟨storage, rfl, -⟩
    cases r with
    | refused e => exact .bind (.modify (.pure h))
    | uncommitted e => exact .bind (.modify (.pure h))
    | committed root =>
      exact .bind (.modify (.bind (.modify (.pure (hblock info root sink { s with storage } h)))))
  · rintro _ ⟨storage, rfl, -⟩
    exact ⟨sink, h⟩

/-- What the first sink of a process satisfies and each block keeps, holds when the process ends,
unless it ends before it has a sink.  If the process has saved where it was, then that is the height
of its last sink. -/
theorem settles_run_index
    (hspawn : ∀ sink : CommitSink, sink.currentHeight = startHeight (loadChainState
        node.genesisCodec (node.get (node.reopened s).storage.store)) →
      node.StartsFrom s.chainIndex.db sink → I sink s.blocks s.chainIndex.db) :
    Settles (node.run queue ending)
      (fun r s' => ∃ sink, I sink s'.blocks s'.chainIndex.db ∧ (r = .ok () →
        ∃ g value root storage, (Server.ChainState.codec node.genesisCodec).encode
            ⟨sink.currentHeight, g⟩ = some value ∧
          node.store.persist (.chainState ⟨sink.currentHeight, g⟩) storage =
            (some (.committed root), s'.storage)))
      (fun s' => s'.blocks = s.blocks ∧ s'.chainIndex.db = s.chainIndex.db ∨
        ∃ sink, I sink s'.blocks s'.chainIndex.db) s := by
  refine .bind (.modify (.bind (((node.settles_bootstrap_storage _).mono ?_).mono_error ?_)))
  · rintro state _ ⟨⟨storage, rfl⟩, hheight⟩
    obtain ⟨sink, chainIndex, hspawns, hdb, hcurrent, hparent⟩ := spawn_eq node (s :=
      { node.reopened s with storage, served := s.served ++ [state] })
      (readsFrom_openIndex _ s.chainIndex) state.height
    refine .bind (.modify (.bind_from hspawns (.bind ?_)))
    have hsink : I sink s.blocks chainIndex.db := by
      rw [hdb]
      exact hspawn sink (hcurrent.trans hheight) hparent
    refine ((node.settles_commitBlocks (fun _ _ _ _ => settles_commitBlock_index hblock)
      hsink).mono_error fun _ => .inr).mono ?_
    intro sink s₂ hs₂
    cases ending with
    | killed => exact .throw (.inr ⟨sink, hs₂⟩)
    | stopped =>
      refine ((node.settles_saveChainState_storage _ s₂).mono ?_).mono_error ?_
      · rintro r _ ⟨storage, rfl, hsaved⟩
        refine ⟨sink, hs₂, fun hr => ?_⟩
        obtain ⟨value, root, hencode, hpersist⟩ := hsaved hr
        exact ⟨_, value, root, _, hencode, hpersist⟩
      · rintro _ ⟨storage, rfl⟩
        exact .inr ⟨sink, hs₂⟩
  · rintro _ ⟨storage, rfl⟩
    exact .inl ⟨rfl, (readsFrom_openIndex _ s.chainIndex).db_eq⟩

end

/-! ### Parents -/

def KnownHash (blocks : Blocks) (hash : B256) : Prop :=
  hash = zeroHash ∨ hash ∈ (built blocks).map StoredBlock.hash

/-- What the index holds was built. -/
structure Known (crypto : Crypto) (blocks : Blocks) (db : Database) : Prop where
  grounded : EachAfter (Grounded crypto) (built blocks)
  indexed : ∀ b ∈ db.blocks.rows, b.hash ∈ (built blocks).map StoredBlock.hash

omit [LruCrate] in
theorem built_append (blocks : Blocks) (b : StoredBlock) (indexed : Bool) :
    built (blocks ++ [(b, indexed)]) = built blocks ++ [b] := by
  unfold built
  rw [List.map_append]
  rfl

/-- The sink has the hash of a block that was built, or none. -/
def KnownSink (crypto : Crypto) (sink : CommitSink) (blocks : Blocks)
    (db : Database) : Prop :=
  Known crypto blocks db ∧ KnownHash blocks sink.parentHash

theorem known_indexBlock (info : BlockExecutedInfo crypto) (root : B256) (sink : CommitSink)
    (s : Surroundings crypto G S) (h : KnownSink crypto sink s.blocks s.chainIndex.db) :
    KnownSink crypto ⟨(node.metadata info sink.parentHash root).hash, info.height⟩
      (node.indexBlock info sink.parentHash root s).blocks
      (node.indexBlock info sink.parentHash root s).chainIndex.db := by
  obtain ⟨b, indexed, hnumber, hlink, hhash, htime, hblocks, hindex⟩ :=
    node.indexBlock_cases info sink.parentHash root s
  have hgrounded : EachAfter (Grounded crypto) (built s.blocks ++ [b]) := by
    refine h.1.grounded.append ⟨?_, ?_⟩
    · rw [hhash, hnumber, htime, hlink]
    · rw [hlink]
      exact h.2
  rw [hblocks]
  refine ⟨⟨built_append s.blocks b indexed ▸ hgrounded, fun old hold => ?_⟩, .inr ?_⟩
  · rw [built_append, List.map_append, List.mem_append]
    rcases hindex with ⟨-, hdb⟩ | ⟨-, txs, receipts, hstores⟩
    · rw [hdb] at hold
      exact .inl (h.1.indexed old hold)
    · rcases hstores.mem_blocks.mp hold with ⟨hold, -⟩ | rfl
      · exact .inl (h.1.indexed old hold)
      · exact .inr List.mem_cons_self
  · rw [built_append, List.map_append, List.mem_append, List.map_cons, hhash]
    exact .inr List.mem_cons_self

theorem known_run {r : Except Gone (Except Dev.ServerError Unit)}
    (h : Known crypto s.blocks s.chainIndex.db)
    (hrun : node.run queue ending s = .done (r, s')) :
    Known crypto s'.blocks s'.chainIndex.db := by
  have hsettles : Settles (node.run queue ending) _ _ s :=
    settles_run_index known_indexBlock fun sink _ hparent => by
      refine ⟨h, hparent.known.imp id ?_⟩
      rintro ⟨number, b, hb, hhash⟩
      exact hhash ▸ h.indexed b (Database.number_of_block hb).1
  cases r with
  | error e =>
    rcases hsettles.fails hrun with ⟨hblocks, hdb⟩ | ⟨sink, hknown, -⟩
    · rw [hblocks, hdb]
      exact h
    · exact hknown
  | ok result =>
    obtain ⟨sink, ⟨hknown, -⟩, -⟩ := hsettles.returns _ _ hrun
    exact hknown

/-- However the processes have ended and whichever calls of the index have failed, a block has the
hash of its contents, and its parent was built before it. -/
theorem blocks_grounded (h : node.Reached storage s) :
    EachAfter (Grounded crypto) (built s.blocks) := by
  suffices hknown : Known crypto s.blocks s.chainIndex.db from hknown.grounded
  induction h with
  | untouched => exact ⟨eachAfter_nil, nofun⟩
  | run hs hqueue hrun ih => exact known_run ih hrun

end

/-- A node whose index does not take the block of the fourth commit, and then cannot read the block
that it starts from. -/
def faultyNode : ExternalConsensusNode sampleCrypto UInt64 SampleStorage Unit :=
  { sampleNode with
    indexFaults := fun t => ⟨false, t.commits == 4, false, false, t.commits == 4⟩ }

/-- The second process goes on from the block before the one that the index has not taken. -/
def faultyProcesses : Surroundings sampleCrypto UInt64 SampleStorage :=
  left (faultyNode.run [sampleInfo 4] .stopped)
    (left (faultyNode.run [sampleInfo 2, sampleInfo 3] .killed)
      (untouched ⟨fun _ => none, fun _ => none, 1⟩))

theorem reached_faultyProcesses :
    faultyNode.Reached ⟨fun _ => none, fun _ => none, 1⟩ faultyProcesses := by
  refine .left (.left .untouched ?_ (by decide +kernel)) ?_ (by decide +kernel) <;>
    simp [sparesInfo_sample]

theorem blocks_grounded_faultyProcesses :
    (built faultyProcesses.blocks).map (fun b => (b.number, b.parentHash == zeroHash)) =
        [(2, true), (3, false), (4, false)] ∧
      ((built faultyProcesses.blocks).map StoredBlock.parentHash)[2]? =
        ((built faultyProcesses.blocks).map StoredBlock.hash)[0]? ∧
      EachAfter (Grounded sampleCrypto) (built faultyProcesses.blocks) :=
  ⟨by decide +kernel, by decide +kernel, blocks_grounded reached_faultyProcesses⟩

/-! ### One chain -/

section

variable [LruCrate] {node : ExternalConsensusNode crypto G S E} {s s' : Surroundings crypto G S}
  {info : BlockExecutedInfo crypto} {queue : List (BlockExecutedInfo crypto)} {ending : Ending}
  {sink : CommitSink} {storage : S}

/-- What processes have left that were all stopped, and have all saved the height that they had come
to. -/
inductive Stopped (node : ExternalConsensusNode crypto G S E) (storage : S) :
    Surroundings crypto G S → Prop
  | untouched : Stopped node storage (untouched storage)
  | run {s s' : Surroundings crypto G S} {queue : List (BlockExecutedInfo crypto)}
      (hs : Stopped node storage s) (hrun : node.run queue .stopped s = .done (.ok (.ok ()), s')) :
      Stopped node storage s'

def Indexed (blocks : Blocks) : Prop := ∀ b ∈ blocks, b.2 = true

/-- The next process goes on from the block that was built last, if it starts from the height. -/
structure GoesOn (blocks : Blocks) (db : Database) (height : UInt64) : Prop where
  chained : EachAfter Extends (built blocks)
  seed : seedHash db height = lastHash (built blocks)
  height : ∀ last, (built blocks).getLast? = some last → height = last.number

omit [LruCrate] in
theorem lastHash_append (blocks : List StoredBlock) (b : StoredBlock) :
    lastHash (blocks ++ [b]) = b.hash := by
  unfold lastHash
  rw [List.getLast?_concat]
  rfl

/-- The sink goes on from the block that was built last, if the index has taken all blocks. -/
def SinkGoesOn (sink : CommitSink) (blocks : Blocks) (db : Database) : Prop :=
  Indexed blocks → GoesOn blocks db sink.currentHeight ∧ sink.parentHash = lastHash (built blocks)

theorem goesOn_indexBlock (info : BlockExecutedInfo crypto) (root : B256) (sink : CommitSink)
    (s : Surroundings crypto G S) (h : SinkGoesOn sink s.blocks s.chainIndex.db) :
    SinkGoesOn ⟨(node.metadata info sink.parentHash root).hash, info.height⟩
      (node.indexBlock info sink.parentHash root s).blocks
      (node.indexBlock info sink.parentHash root s).chainIndex.db := by
  intro hindexed
  obtain ⟨b, indexed, hnumber, hlink, hhash, -, hblocks, hindex⟩ :=
    node.indexBlock_cases info sink.parentHash root s
  rw [hblocks] at hindexed ⊢
  obtain ⟨hgoes, hlast⟩ := h fun old hold => hindexed old (List.mem_append_left _ hold)
  have htaken : indexed = true := hindexed (b, indexed) (List.mem_append_right _ List.mem_cons_self)
  rcases hindex with ⟨hfalse, -⟩ | ⟨-, txs, receipts, hstores⟩
  · rw [htaken] at hfalse
    cases hfalse
  rw [built_append, lastHash_append]
  refine ⟨⟨?_, ?_, fun last hlast' => ?_⟩, hhash.symm⟩
  · rw [built_append]
    exact hgoes.chained.append (hlink.trans hlast)
  · rw [built_append, lastHash_append]
    have hstored : Database.block _ info.height = some b := hnumber ▸ hstores.block_stored
    unfold seedHash
    rw [hstored]
    rfl
  · rw [built_append, List.getLast?_concat] at hlast'
    cases hlast'
    exact hnumber.symm

/-- Whatever the next process reads, it goes on from the block that was built last. -/
def Continues (m : node.Trusted) (s : Surroundings crypto G S) : Prop :=
  ∀ contents ∈ m.survivors s.storage.store, GoesOn s.blocks s.chainIndex.db
    (startHeight (savedState node.genesisCodec contents))

theorem continues_run {m : node.Trusted} (hindexing : node.enableBlockIndexing = true)
    (hreads : ∀ t, (node.indexFaults t).Readable) (h : Indexed s.blocks → Continues m s)
    (hrun : node.run queue .stopped s = .done (.ok (.ok ()), s')) (hindexed : Indexed s'.blocks) :
    Continues m s' := by
  have hload : loadChainState node.genesisCodec (node.get (node.reopened s).storage.store) =
      savedState node.genesisCodec (m.current (node.reopened s).storage.store) :=
    loadChainState_eq (m.reads _)
  have hspawn (sink : CommitSink) (hheight : sink.currentHeight =
        startHeight (savedState node.genesisCodec (m.current (node.reopened s).storage.store)))
      (hparent : node.StartsFrom s.chainIndex.db sink) :
      SinkGoesOn sink s.blocks s.chainIndex.db := by
    intro hs
    have hgoes : GoesOn _ _ sink.currentHeight := hheight ▸ h hs _ (m.reopen s.storage.store).1
    exact ⟨hgoes, (hparent.seeded hindexing hreads).trans hgoes.seed⟩
  have hsettles : Settles (node.run queue .stopped) _ _ s :=
    settles_run_index goesOn_indexBlock (hload ▸ hspawn)
  obtain ⟨sink, hsink, hsaved⟩ := hsettles.returns _ _ hrun
  obtain ⟨g, value, root, storage, hencode, hpersist⟩ := hsaved rfl
  intro contents hcontents
  have hstate : savedState node.genesisCodec contents = some ⟨sink.currentHeight, g⟩ := by
    rw [persist_committed hpersist contents hcontents]
    exact savedState_operations hencode
  rw [hstate]
  exact (hsink hindexed).1

/-- If all processes were stopped and have saved where they were, and the index has taken all blocks
and could be read, then each block has the one right before it as parent, also the first of a
process, and the next process starts from the height of the last one. -/
theorem blocks_chained (m : node.Trusted) (hindexing : node.enableBlockIndexing = true)
    (hreads : ∀ t, (node.indexFaults t).Readable) (h : node.Stopped storage s)
    (hindexed : Indexed s.blocks) :
    EachAfter Extends (built s.blocks) ∧ ∀ contents ∈ m.survivors s.storage.store, ∀ last,
      (built s.blocks).getLast? = some last →
        startHeight (savedState node.genesisCodec contents) = last.number := by
  have hcontinues : Continues m s := by
    induction h with
    | untouched => exact fun _ _ => ⟨eachAfter_nil, rfl, nofun⟩
    | run hs hrun ih => exact continues_run hindexing hreads ih hrun hindexed
  have hnext := hcontinues _ (m.reopen s.storage.store).1
  exact ⟨hnext.chained, fun contents hcontents => (hcontinues contents hcontents).height⟩

theorem Stopped.left (hs : node.Stopped storage s)
    (h : Ends (node.run queue .stopped) (fun r _ => r = .ok (.ok ())) s) :
    node.Stopped storage (left (node.run queue .stopped) s) := by
  obtain ⟨r, hrun, rfl⟩ := run_left h
  exact .run hs hrun

end

/-- The second process goes on from the third block of the first. -/
def twoProcesses : Surroundings sampleCrypto UInt64 SampleStorage :=
  left (sampleNode.run [sampleInfo 5] .stopped)
    (left (sampleNode.run [sampleInfo 2, sampleInfo 3, sampleInfo 4] .stopped)
      (untouched ⟨fun _ => none, fun _ => none, 1⟩))

theorem stopped_twoProcesses :
    sampleNode.Stopped ⟨fun _ => none, fun _ => none, 1⟩ twoProcesses :=
  .left (.left .untouched (by decide +kernel)) (by decide +kernel)

theorem blocks_chained_twoProcesses :
    (built twoProcesses.blocks).length = 4 ∧ EachAfter Extends (built twoProcesses.blocks) :=
  ⟨by decide +kernel, (blocks_chained trusted rfl (fun _ => ⟨rfl, rfl, rfl⟩) stopped_twoProcesses
    (by unfold Indexed; decide +kernel)).1⟩

end ExternalConsensusNode

end Evolve.Evnode
