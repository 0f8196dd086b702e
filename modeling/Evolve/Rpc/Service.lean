import Mathlib
import Evolve.Lib.Lists
import Evolve.Eth.Gateway
import Evolve.Stf.Block

/-! The executor service, through which a consensus node executes blocks: how `execute_txs` runs a
block, and which transactions it reports to the mempool. -/

namespace Evolve

open Machine Borsh Effects Eth

/-- A block of the server, with the part of its header that is executed. -/
structure ServerBlock (Tx : Type) where
  number : UInt64
  timestamp : UInt64
  gasLimit : UInt64
  transactions : List Tx

instance {Tx : Type} : BlockTrait (ServerBlock Tx) Tx where
  context block := ⟨block.number, block.timestamp⟩
  txs := ServerBlock.transactions
  gasLimit := ServerBlock.gasLimit

namespace Evnode

/-! ### Errors -/

inductive Code where
  | invalidArgument
  | failedPrecondition
  | internal
deriving DecidableEq

structure Status where
  code : Code
  message : String
deriving DecidableEq

inductive EvnodeError where
  | invalidArgument (message : String)
  | internal (message : String)
  | chainNotInitialized
  | storage (message : String)

def EvnodeError.toStatus : EvnodeError → Status
  | .invalidArgument message => ⟨.invalidArgument, message⟩
  | .internal message => ⟨.internal, message⟩
  | .chainNotInitialized => ⟨.failedPrecondition, "chain not initialized"⟩
  | .storage message => ⟨.internal, "storage error: " ++ message⟩

/-! ### The state root -/

def encodeChange : CoreStateChange → Bytes
  | .set key value =>
    0x01 :: (leBytes 4 key.length ++ key ++ (leBytes 4 value.length ++ value))
  | .remove key => 0x02 :: (leBytes 4 key.length ++ key)

def computeStateRoot (crypto : Crypto) (baseStateRoot : B256) (changes : List CoreStateChange) :
    B256 :=
  if changes.isEmpty then baseStateRoot
  else crypto.keccak256 (baseStateRoot.bytes ++ changes.flatMap encodeChange)

def displayB256 (hash : B256) : String := "0x" ++ hexEncode hash.bytes

/-! ### The service -/

structure ExecutorServiceConfig where
  maxGas : UInt64
  maxBytes : UInt64

structure BlockExecutedInfo (crypto : Crypto) where
  height : UInt64
  timestamp : UInt64
  stateChanges : List CoreStateChange
  blockResult : BlockResult
  stateRoot : B256
  transactions : List (TxContext crypto)

/-- What the requests change.  The storage is changed by the callback only. -/
structure ExecutorState (crypto : Crypto) where
  initialized : Bool
  currentHeight : UInt64
  lastStateRoot : B256
  pendingChanges : List CoreStateChange
  storage : ReadonlyKV
  mempool : Option (Mempool (TxContext crypto) GasPriceOrdering)

structure ExecutorServiceImpl (crypto : Crypto) where
  stf : Stf (TxContext crypto) (ServerBlock (TxContext crypto))
  codes : Host
  config : ExecutorServiceConfig
  onBlockExecuted : Option (BlockExecutedInfo crypto → Exec ReadonlyKV EvnodeError B256)

structure ExecuteTxsRequest where
  txs : List Bytes
  blockHeight : UInt64
  timestamp : Option Int64
  prevStateRoot : Bytes

structure ExecuteTxsResponse where
  updatedStateRoot : Bytes
  maxBytes : UInt64

namespace ExecutorServiceImpl

variable {crypto : Crypto}

abbrev Handler (crypto : Crypto) := Exec (ExecutorState crypto) Status

def ensureInitialized : Handler crypto Unit := do
  if ← Exec.read ExecutorState.initialized then pure ()
  else Exec.throw EvnodeError.chainNotInitialized.toStatus

def timestampToUnix (timestamp : Option Int64) : UInt64 :=
  (timestamp.map Int64.toUInt64).getD 0

def decodeTxs (crypto : Crypto) (txs : List Bytes) : List (TxContext crypto) :=
  txs.filterMap fun raw => (TxContext.decode crypto raw).toOption

def resolvePrevStateRoot (lastStateRoot : B256) (prevStateRoot : Bytes) :
    Except EvnodeError B256 :=
  if prevStateRoot.isEmpty then .ok lastStateRoot
  else if h : prevStateRoot.length = 32 then
    let provided : B256 := ⟨prevStateRoot, h⟩
    if provided ≠ lastStateRoot then
      .error (.invalidArgument ("prev_state_root mismatch: expected " ++
        displayB256 lastStateRoot ++ ", got " ++ displayB256 provided))
    else .ok provided
  else
    .error (.invalidArgument ("prev_state_root must be 32 bytes, got " ++
      toString prevStateRoot.length))

def handleStateChanges (changes : List CoreStateChange) : Handler crypto Unit :=
  Exec.modify fun s => { s with pendingChanges := s.pendingChanges ++ changes }

variable (fuel : Nat) (service : ExecutorServiceImpl crypto)

def block (request : ExecuteTxsRequest) : ServerBlock (TxContext crypto) where
  number := request.blockHeight
  timestamp := timestampToUnix request.timestamp
  gasLimit := service.config.maxGas
  transactions := decodeTxs crypto request.txs

def executeBlock (storage : ReadonlyKV) (block : ServerBlock (TxContext crypto)) :
    Outcome (SdkResult (BlockResult × List (TxContext crypto)) × World) :=
  Stf.applyBlock service.codes fuel service.stf block ⟨.new storage, .infinite, []⟩

/-- The hashes that are reported as executed: those of as many transactions, from the first on, as
there are results. -/
def executedHashes (block : ServerBlock (TxContext crypto)) (result : BlockResult) : List TxId :=
  (block.transactions.take result.txResults.length).map TxContext.txHash

def runCallback (callback : Exec ReadonlyKV EvnodeError B256) : Handler crypto B256 := fun s =>
  match callback s.storage with
  | .done (root, storage) => .done (root.mapError EvnodeError.toStatus, { s with storage })
  | .outOfFuel => .outOfFuel
  | .panic => .panic

def persist (info : BlockExecutedInfo crypto) : Handler crypto B256 :=
  match service.onBlockExecuted with
  | some callback => runCallback (callback info)
  | none => do
    handleStateChanges info.stateChanges
    pure info.stateRoot

def finishBlock (prevStateRoot : B256) (block : ServerBlock (TxContext crypto))
    (result : BlockResult) (changes : List CoreStateChange) :
    Handler crypto ExecuteTxsResponse := do
  let updatedStateRoot ← service.persist {
    height := block.number
    timestamp := block.timestamp
    stateChanges := changes
    blockResult := result
    stateRoot := computeStateRoot crypto prevStateRoot changes
    transactions := block.transactions }
  Exec.modify fun s =>
    { s with mempool := s.mempool.map fun pool => pool.finalize (executedHashes block result) }
  Exec.modify fun s =>
    { s with currentHeight := block.number, lastStateRoot := updatedStateRoot }
  pure ⟨updatedStateRoot.bytes, service.config.maxBytes⟩

def executeTxs (request : ExecuteTxsRequest) : Handler crypto ExecuteTxsResponse := do
  ensureInitialized
  if request.blockHeight = 0 then
    Exec.throw (EvnodeError.invalidArgument "block_height must be > 0").toStatus
  else
    let lastStateRoot ← Exec.read ExecutorState.lastStateRoot
    let prevStateRoot ← Exec.ofExcept
      ((resolvePrevStateRoot lastStateRoot request.prevStateRoot).mapError EvnodeError.toStatus)
    let block := service.block request
    fun s =>
      match service.executeBlock fuel s.storage block with
      | .done (.ok (result, _), w) =>
        service.finishBlock prevStateRoot block result w.storage.intoChanges s
      -- `apply_block` returns no error: see `Stf.applyBlock_done`.
      | .done (.error _, _) => .panic
      | .outOfFuel => .outOfFuel
      | .panic => .panic

/-! ### What is reported as executed -/

variable {fuel service}
variable {request : ExecuteTxsRequest} {response : ExecuteTxsResponse} {s s' : ExecutorState crypto}

theorem ensureInitialized_apply (s : ExecutorState crypto) :
    ensureInitialized s = .done
      (if s.initialized then .ok () else .error EvnodeError.chainNotInitialized.toStatus, s) := by
  unfold ensureInitialized
  rw [Exec.bind_apply]
  change (if s.initialized then pure () else _ : Handler crypto Unit) s = _
  split <;> rfl

theorem ensureInitialized_ok {u : Unit}
    (h : ensureInitialized s = .done (.ok u, s')) : s' = s := by
  rw [ensureInitialized_apply] at h
  exact (congrArg Prod.snd (Outcome.done.inj h)).symm

theorem ensureInitialized_of (h : s.initialized = true) :
    ensureInitialized s = .done (.ok (), s) := by
  rw [ensureInitialized_apply, if_pos h]

theorem persist_done {info : BlockExecutedInfo crypto} {r : Except Status B256}
    (h : service.persist info s = .done (r, s')) :
    ∃ pendingChanges storage, s' = { s with pendingChanges, storage } ∧
      ((∃ status, r = .error status) → pendingChanges = s.pendingChanges) := by
  unfold persist at h
  cases hcallback : service.onBlockExecuted with
  | none =>
    rw [hcallback] at h
    cases h
    refine ⟨_, _, rfl, ?_⟩
    rintro ⟨status, ⟨⟩⟩
  | some callback =>
    rw [hcallback] at h
    replace h : runCallback (callback info) s = .done (r, s') := h
    unfold runCallback at h
    split at h
    · cases h
      exact ⟨_, _, rfl, fun _ => rfl⟩
    · cases h
    · cases h

theorem finishBlock_mempool {prevStateRoot : B256} {block : ServerBlock (TxContext crypto)}
    {result : BlockResult} {changes : List CoreStateChange}
    (h : service.finishBlock prevStateRoot block result changes s = .done (.ok response, s')) :
    s'.mempool = s.mempool.map fun pool => pool.finalize (executedHashes block result) := by
  rcases Exec.bind_done.mp h with ⟨root, s₁, hpersist, h⟩ | ⟨_, _, ⟨⟩⟩
  cases h
  obtain ⟨pendingChanges, storage, rfl, -⟩ := persist_done hpersist
  rfl

theorem resolvePrevStateRoot_ok {lastStateRoot root : B256} {prevStateRoot : Bytes}
    (h : resolvePrevStateRoot lastStateRoot prevStateRoot = .ok root) :
    root = lastStateRoot ∧ (prevStateRoot ≠ [] → prevStateRoot = lastStateRoot.bytes) := by
  unfold resolvePrevStateRoot at h
  split at h
  · rename_i hempty
    exact ⟨(Except.ok.inj h).symm, fun hne => absurd (List.isEmpty_iff.mp hempty) hne⟩
  · split at h
    · dsimp only at h
      split at h
      · cases h
      · rename_i hsame
        have hsame := not_not.mp hsame
        exact ⟨(Except.ok.inj h).symm.trans hsame, fun _ => congrArg FixedBytes.bytes hsame⟩
    · cases h

/-- A request is refused and changes nothing, or it has executed its block and finishes it from the
recorded root. -/
theorem executeTxs_cases {r : Except Status ExecuteTxsResponse}
    (h : service.executeTxs fuel request s = .done (r, s')) :
    ((∃ status, r = .error status) ∧ s' = s) ∨
      ∃ result executed w, service.executeBlock fuel s.storage (service.block request) =
          .done (.ok (result, executed), w) ∧
        service.finishBlock s.lastStateRoot (service.block request) result w.storage.intoChanges s =
          .done (r, s') := by
  rcases Exec.bind_done.mp h with ⟨_, s₁, hinit, hrest⟩ | ⟨status, hinit, rfl⟩
  · cases ensureInitialized_ok hinit
    split at hrest
    · cases hrest
      exact .inl ⟨⟨_, rfl⟩, rfl⟩
    rcases Exec.bind_done.mp hrest with ⟨_, s₂, ⟨⟩, hrest⟩ | ⟨_, ⟨⟩, _⟩
    rcases Exec.bind_done.mp hrest with
      ⟨prevStateRoot, s₃, hresolve, hrest⟩ | ⟨status, hresolve, rfl⟩
    · obtain ⟨hresolved, rfl⟩ := Prod.mk.inj (Outcome.done.inj hresolve)
      cases hroot : resolvePrevStateRoot s.lastStateRoot request.prevStateRoot with
      | error e =>
        rw [hroot] at hresolved
        cases hresolved
      | ok root =>
        rw [hroot] at hresolved
        cases hresolved
        cases (resolvePrevStateRoot_ok hroot).1
        split at hrest
        · rename_i result executed w hexecute
          exact .inr ⟨result, executed, w, hexecute, hrest⟩
        all_goals cases hrest
    · obtain ⟨-, rfl⟩ := Prod.mk.inj (Outcome.done.inj hresolve)
      exact .inl ⟨⟨status, rfl⟩, rfl⟩
  · rw [ensureInitialized_apply] at hinit
    exact .inl ⟨⟨status, rfl⟩, (congrArg Prod.snd (Outcome.done.inj hinit)).symm⟩

theorem executeTxs_ok (h : service.executeTxs fuel request s = .done (.ok response, s')) :
    ∃ result executed w,
      service.executeBlock fuel s.storage (service.block request) =
        .done (.ok (result, executed), w) ∧
      s'.mempool = s.mempool.map
        fun pool => pool.finalize (executedHashes (service.block request) result) := by
  rcases executeTxs_cases h with ⟨⟨_, ⟨⟩⟩, -⟩ | ⟨result, executed, w, hexecute, hfinish⟩
  exact ⟨result, executed, w, hexecute, finishBlock_mempool hfinish⟩

def ReportsExecuted (block : ServerBlock (TxContext crypto)) (result : BlockResult)
    (executed : List (TxContext crypto)) : Prop :=
  ∀ hash, hash ∈ executedHashes block result ↔ hash ∈ executed.map TxContext.txHash

theorem reportsExecuted_of_skipsAtEnd {storage : ReadonlyKV}
    {block : ServerBlock (TxContext crypto)} {result : BlockResult}
    {executed : List (TxContext crypto)} {w : World}
    (hskips : Stf.SkipsAtEnd service.codes fuel service.stf block ⟨.new storage, .infinite, []⟩)
    (h : service.executeBlock fuel storage block = .done (.ok (result, executed), w)) :
    ReportsExecuted block result executed := by
  intro hash
  rw [(Stf.applyBlock_executed_eq_take_iff h).mpr hskips]
  exact Iff.rfl

/-- For every request that succeeds: the hashes that the mempool is told to be executed are those
of the executed transactions if transactions are skipped only at the end of the block, and only if
they are when the block has no two transactions with the same hash. -/
theorem executeTxs_reportsExecuted_iff
    (h : service.executeTxs fuel request s = .done (.ok response, s')) :
    ∃ result executed w,
      service.executeBlock fuel s.storage (service.block request) =
        .done (.ok (result, executed), w) ∧
      s'.mempool = s.mempool.map
        (fun pool => pool.finalize (executedHashes (service.block request) result)) ∧
      (Stf.SkipsAtEnd service.codes fuel service.stf (service.block request)
          ⟨.new s.storage, .infinite, []⟩ →
        ReportsExecuted (service.block request) result executed) ∧
      (((service.block request).transactions.map TxContext.txHash).Nodup →
        ReportsExecuted (service.block request) result executed →
          Stf.SkipsAtEnd service.codes fuel service.stf (service.block request)
            ⟨.new s.storage, .infinite, []⟩) := by
  obtain ⟨result, executed, w, hexecute, hmempool⟩ := executeTxs_ok h
  refine ⟨result, executed, w, hexecute, hmempool, ?_, ?_⟩
  · intro hskips
    exact reportsExecuted_of_skipsAtEnd hskips hexecute
  · intro hdistinct hreports
    refine (Stf.applyBlock_executed_eq_take_iff hexecute).mp ?_
    exact Lists.eq_of_same_images hdistinct (Stf.applyBlock_executed_sublist hexecute)
      (List.take_sublist _ _) fun hash => (hreports hash).symm

/-! ### A block in which a transaction in the middle is skipped -/

def sampleService : ExecutorServiceImpl sampleCrypto where
  stf := {
    beginBlock := fun _ _ => pure ()
    endBlock := fun _ => pure ()
    validateTx := fun _ _ => pure ()
    afterTxExecuted := fun _ _ _ _ => pure ()
    storageGasConfig := ⟨10, 10, 10⟩ }
  codes := sampleHost
  config := ⟨740, 1024⟩
  onBlockExecuted := none

/-- A call of the recording account, which uses 370 gas, with the hash `n n … n`. -/
def recordingWire (n : UInt8) (gasLimit : UInt64) : TxContextWireV1 where
  senderType := SenderType.custom
  payload := .custom []
  txHash := FixedBytes.repeatByte 32 n
  gasLimit := gasLimit
  nonce := 0
  chainId := none
  effectiveGasPrice := 0
  invokeRequest := Invoker.initRequest []
  funds := []
  senderAccount := .fromU64 1
  recipientAccount := some (.fromU64 10)
  senderKey := [n]
  authenticationPayload := []
  senderEthAddress := none
  recipientEthAddress := none

def recordingBytes (n : UInt8) (gasLimit : UInt64) : Bytes :=
  txContextWireMagic ++ (TxContextWireV1.codec.encode (recordingWire n gasLimit)).getD []

def sampleRequest (txs : List Bytes) : ExecuteTxsRequest := ⟨txs, 1, none, []⟩

def sampleState (txs : List Bytes) : ExecutorState sampleCrypto where
  initialized := true
  currentHeight := 0
  lastStateRoot := FixedBytes.repeatByte 32 0
  pendingChanges := []
  storage := sampleStore
  mempool := some ((decodeTxs sampleCrypto txs).foldl Mempool.insert .new)

/-- The second transaction does not fit after the first, and the third does. -/
def gappyTxs : List Bytes := [recordingBytes 1 700, recordingBytes 2 400, recordingBytes 3 370]

def roomyTxs : List Bytes := [recordingBytes 1 700, recordingBytes 3 370]

def SampleRun (txs : List Bytes) (reported executed : List TxId) : Prop :=
  Exec.Ends (Stf.applyBlock sampleService.codes 3 sampleService.stf
      (sampleService.block (sampleRequest txs)))
    (fun r _ => r.toOption.map (fun p =>
      (executedHashes (sampleService.block (sampleRequest txs)) p.1, p.2.map TxContext.txHash)) =
        some (reported, executed)) ⟨.new sampleStore, .infinite, []⟩

instance (txs : List Bytes) (reported executed : List TxId) :
    Decidable (SampleRun txs reported executed) := by
  unfold SampleRun
  infer_instance

theorem SampleRun.executeBlock {txs : List Bytes} {reported executed : List TxId}
    (h : SampleRun txs reported executed) :
    ∃ result txs' w, sampleService.executeBlock 3 sampleStore
        (sampleService.block (sampleRequest txs)) = .done (.ok (result, txs'), w) ∧
      executedHashes (sampleService.block (sampleRequest txs)) result = reported ∧
      txs'.map TxContext.txHash = executed := by
  obtain ⟨r, w, hrun, hr⟩ := Exec.Ends.exists h
  cases r with
  | error e => cases hr
  | ok p =>
    obtain ⟨hreported, hexecuted⟩ := Prod.mk.inj (Option.some.inj hr)
    exact ⟨p.1, p.2, w, hrun, hreported, hexecuted⟩

theorem roomyTxs_ends :
    Exec.Ends (sampleService.executeTxs 3 (sampleRequest roomyTxs))
      (fun r _ => r.toOption.isSome) (sampleState roomyTxs) := by
  decide +kernel

theorem roomyTxs_run :
    SampleRun roomyTxs [.repeatByte 32 1, .repeatByte 32 3]
      [.repeatByte 32 1, .repeatByte 32 3] := by
  decide +kernel

theorem roomyTxs_distinct :
    ((sampleService.block (sampleRequest roomyTxs)).transactions.map TxContext.txHash).Nodup := by
  decide +kernel

theorem executeTxs_reportsExecuted_roomyTxs :
    ∃ response s', sampleService.executeTxs 3 (sampleRequest roomyTxs) (sampleState roomyTxs) =
        .done (.ok response, s') ∧
      Stf.SkipsAtEnd sampleService.codes 3 sampleService.stf
        (sampleService.block (sampleRequest roomyTxs))
        ⟨.new (sampleState roomyTxs).storage, .infinite, []⟩ := by
  obtain ⟨r, s', hrun, hr⟩ := roomyTxs_ends.exists
  cases r with
  | error e => cases hr
  | ok response =>
    obtain ⟨result, executed, w, hexecute, -, -, honly⟩ := executeTxs_reportsExecuted_iff hrun
    obtain ⟨result', executed', w', hexecute', hreported, hexecuted⟩ := roomyTxs_run.executeBlock
    cases hexecute.symm.trans hexecute'
    have hreports : ReportsExecuted (sampleService.block (sampleRequest roomyTxs)) result
        executed := by
      intro hash
      rw [hreported, hexecuted]
    exact ⟨response, s', hrun, honly roomyTxs_distinct hreports⟩

theorem gappyTxs_ends :
    Exec.Ends (sampleService.executeTxs 3 (sampleRequest gappyTxs))
      (fun r s' => r.toOption.isSome ∧
        s'.mempool.map (fun pool => (pool.contains (.repeatByte 32 2),
          pool.contains (.repeatByte 32 3))) = some (false, true)) (sampleState gappyTxs) := by
  decide +kernel

theorem gappyTxs_run :
    SampleRun gappyTxs [.repeatByte 32 1, .repeatByte 32 2]
      [.repeatByte 32 1, .repeatByte 32 3] := by
  decide +kernel

/-- The second transaction is reported as executed and leaves the pool; the third, which was
executed, stays in it. -/
theorem executeTxs_reports_skipped :
    ∃ response s' result executed w,
      sampleService.executeTxs 3 (sampleRequest gappyTxs) (sampleState gappyTxs) =
        .done (.ok response, s') ∧
      sampleService.executeBlock 3 sampleStore (sampleService.block (sampleRequest gappyTxs)) =
        .done (.ok (result, executed), w) ∧
      executed.map TxContext.txHash = [.repeatByte 32 1, .repeatByte 32 3] ∧
      executedHashes (sampleService.block (sampleRequest gappyTxs)) result =
        [.repeatByte 32 1, .repeatByte 32 2] ∧
      s'.mempool.map (fun pool => (pool.contains (.repeatByte 32 2),
        pool.contains (.repeatByte 32 3))) = some (false, true) ∧
      ¬ ReportsExecuted (sampleService.block (sampleRequest gappyTxs)) result executed := by
  obtain ⟨r, s', hrun, hr, hpool⟩ := gappyTxs_ends.exists
  cases r with
  | error e => cases hr
  | ok response =>
    obtain ⟨result, executed, w, hexecute, hreported, hexecuted⟩ := gappyTxs_run.executeBlock
    refine ⟨response, s', result, executed, w, hrun, hexecute, hexecuted, hreported, hpool, ?_⟩
    intro hreports
    have hsecond := hreports (.repeatByte 32 2)
    rw [hreported, hexecuted] at hsecond
    revert hsecond
    decide

end ExecutorServiceImpl

end Evnode

end Evolve
