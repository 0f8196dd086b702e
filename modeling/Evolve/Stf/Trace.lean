import Mathlib
import Evolve.Lib.Trace
import Evolve.Stf.Transaction

/-! The invoker with a trace: the same functions as in `Evolve.Stf.Invoker`, which also list every
activity that begins and every write to the overlay, each with the activities it is nested in.  The
trace changes nothing: without it the calls, transactions and blocks are those of the model. -/

namespace Evolve

open Machine Borsh Effects

/-! ### Activities -/

inductive Entry where
  | init
  | execute
  | query
deriving DecidableEq

def Entry.program : Entry → AccountCode → Env → InvokeRequest → Program InvokeResponse
  | .init, code, env, request => code.init env request
  | .execute, code, env, request => code.execute env request
  | .query, code, env, request => QueryProgram.lift (code.query env request)

/-- The runtime's own code that runs in a top-level frame. -/
inductive Phase where
  | beginBlock
  | resolveSender
  | bootstrapSender
  | validateTx
  | resolveRecipient
  | executeTx
  | afterTxExecuted
  | endBlock
deriving DecidableEq

/-- A transfer of funds that has been executed. -/
structure Payment where
  sender : AccountId
  recipient : AccountId
  asset : FungibleAsset
deriving DecidableEq

/-- What can be going on.  `exec` hands a request to its target, inside a call of `doExec` that has
executed the payments `paid` so far. -/
inductive Activity where
  | phase (phase : Phase) (frame : Invoker)
  | call (frame : Invoker) (op : EnvOp)
  | exec (frame : Invoker) (target : AccountId) (data : InvokeRequest)
      (funds : List FungibleAsset) (paid : List Payment)
  | create (frame : Invoker) (funds : List FungibleAsset)
  | register (frame : Invoker) (account : AccountId)
  | migrate (frame : Invoker) (funds : List FungibleAsset)
  | code (entry : Entry) (frame : Invoker) (code : AccountCode) (request : InvokeRequest)

/-- The activities that are going on, the innermost first. -/
abbrev Stack := List Activity

/-- What a trace lists.  A write goes from before it is charged for, if it is, to after it. -/
inductive Action where
  | begins (stack : Stack) (before : World)
  | write (stack : Stack) (before after : World) (key : Bytes) (entry : Option Message)

abbrev Traced := Logged Action World ErrorCode

abbrev TracedEnvironment := Stack → Invoker → (op : EnvOp) → Traced op.Ans

namespace Traced

def within {α : Type} (activity : Activity) (stack : Stack) (body : Stack → Traced α) : Traced α :=
  do
    Logged.mark (.begins (activity :: stack))
    body (activity :: stack)

/-- Notes a write once it has succeeded. -/
def noteWrite (stack : Stack) (key : Bytes) (entry : Option Message) (w : World) :
    SdkResult Unit → World → List Action
  | .ok _, w' => [.write stack w w' key entry]
  | .error _, _ => []

def set (stack : Stack) (key : Bytes) (value : Message) : Traced Unit :=
  Logged.observe (noteWrite stack key (some value)) (Run.set key value)

def chargedSet (stack : Stack) (key : Bytes) (value : Message) : Traced Unit :=
  Logged.observe (noteWrite stack key (some value)) do
    Run.charge (·.consumeSetGas key value)
    Run.set key value

def chargedRemove (stack : Stack) (key : Bytes) : Traced Unit :=
  Logged.observe (noteWrite stack key none) do
    Run.charge (·.consumeRemoveGas key)
    Run.remove key

def setAccountCodeIdentifierForAccount (stack : Stack) (account : AccountId) (codeId : String) :
    Traced Unit := do
  let message ← Logged.ofExcept (Message.new codeId)
  set stack (accountCodeIdentifierKey account) message

def nextAccountNumber (stack : Stack) : Traced AccountId := do
  let stored ← Logged.lift (Run.get accountNumberKey)
  let last ← Logged.ofExcept (accountNumber stored)
  let message ← Logged.ofExcept (Message.new last.increase)
  set stack accountNumberKey message
  pure last

def allocateAccount (stack : Stack) (codeId : String) : Traced AccountId := do
  let before ← Logged.lift (Exec.read World.storage)
  let newAccountId ← nextAccountNumber stack
  Logged.lift (Run.note (.create before newAccountId))
  setAccountCodeIdentifierForAccount stack newAccountId codeId
  pure newAccountId

def claimAccount (stack : Stack) (account : AccountId) (codeId : String) : Traced Unit := do
  let before ← Logged.lift (Exec.read World.storage)
  let message ← Logged.ofExcept (Message.new codeId)
  chargedSet stack (accountCodeIdentifierKey account) message
  Logged.lift (Run.note (.register before account))

def handleStorageExec (stack : Stack) (invoker : Invoker) (request : InvokeRequest) :
    Traced InvokeResponse :=
  if request.function = InvokableMessage.functionIdentifier StorageSetRequest then do
    let storageSet : StorageSetRequest ← Logged.ofExcept request.get
    chargedSet stack (Invoker.accountStorageKey invoker.whoami storageSet.key) storageSet.value
    Logged.ofExcept (InvokeResponse.new ())
  else if request.function = InvokableMessage.functionIdentifier StorageRemoveRequest then do
    let storageRemove : StorageRemoveRequest ← Logged.ofExcept request.get
    chargedRemove stack (Invoker.accountStorageKey invoker.whoami storageRemove.key)
    Logged.ofExcept (InvokeResponse.new ())
  else Logged.throw errUnknownFunction

section

variable (host : Host) (nested : TracedEnvironment)

def switchCode (stack : Stack) (account : AccountId) (newCodeId : String) : Traced Unit := do
  match ← Logged.lift (getAccountCodeIdentifierForAccount account) with
  | none => Logged.throw errAccountDoesNotExist
  | some currentCodeId =>
    let code ← Logged.ofExcept (host.withCode newCodeId)
    if code.isNone then Logged.throw errCodeNotFound
    else if currentCodeId = newCodeId then Logged.throw errSameCodeMigration
    else
      let before ← Logged.lift (Exec.read World.storage)
      setAccountCodeIdentifierForAccount stack account newCodeId
      Logged.lift (Run.note (.migrate before account))

def runCode (entry : Entry) (frame : Invoker) (code : AccountCode) (request : InvokeRequest)
    (stack : Stack) : Traced InvokeResponse :=
  within (.code entry frame code request) stack fun stack =>
    (entry.program code frame.env request).runLogged (nested stack frame)

variable (invoker : Invoker)

def createAccount (codeId : String) (message : Message) (funds : List FungibleAsset)
    (stack : Stack) : Traced (AccountId × Message) :=
  within (.create invoker funds) stack fun stack => do
    Logged.ofExcept (validateCodeId host.isAlphanumeric codeId)
    let newAccountId ← allocateAccount stack codeId
    let code ← Logged.lift (Invoker.codeOf host newAccountId)
    let response ← runCode nested .init (invoker.branchExec newAccountId funds) code
      (Invoker.initRequest message) stack
    pure (newAccountId, response.message)

def registerAccountAtId (account : AccountId) (codeId : String) (initMsg : Message)
    (stack : Stack) : Traced Unit :=
  within (.register invoker account) stack fun stack => do
    match ← Logged.lift (getAccountCodeIdentifierForAccount account) with
    | some _ => pure ()
    | none =>
      Logged.ofExcept (validateCodeId host.isAlphanumeric codeId)
      claimAccount stack account codeId
      let code ← Logged.lift (Invoker.withCode host codeId)
      let _ ← runCode nested .init (invoker.branchExec account []) code
        (Invoker.initRequest initMsg) stack

def migrate (request : InvokeRequest) (funds : List FungibleAsset) (stack : Stack) :
    Traced InvokeResponse :=
  within (.migrate invoker funds) stack fun stack => do
    let frame := invoker.branchExec runtimeAccountId []
    let req : MigrateRequest ← Logged.ofExcept request.get
    if req.accountId ≠ frame.sender then Logged.throw errUnauthorized
    else
      switchCode host stack req.accountId req.newCodeId
      nested stack frame (.doExec req.accountId req.executeMessage funds)

def handleSystemExec (request : InvokeRequest) (funds : List FungibleAsset) (stack : Stack) :
    Traced InvokeResponse :=
  if request.function = InvokableMessage.functionIdentifier CreateAccountRequest then do
    let req : CreateAccountRequest ← Logged.ofExcept request.get
    let (newAccountId, initResponse) ←
      createAccount host nested invoker req.codeId req.initMessage funds stack
    Logged.ofExcept (InvokeResponse.new (CreateAccountResponse.mk newAccountId initResponse))
  else if request.function = InvokableMessage.functionIdentifier RegisterAccountAtIdRequest then do
    let req : RegisterAccountAtIdRequest ← Logged.ofExcept request.get
    registerAccountAtId host nested invoker req.accountId req.codeId req.initMessage stack
    Logged.ofExcept (InvokeResponse.new ())
  else if request.function = InvokableMessage.functionIdentifier MigrateRequest then
    migrate host nested invoker request funds stack
  else Logged.throw errUnknownFunction

def doQuery (target : AccountId) (data : InvokeRequest) (stack : Stack) : Traced InvokeResponse :=
  if target = runtimeAccountId then Logged.lift Invoker.handleSystemQuery
  else if target = storageAccountId then Logged.lift (Invoker.handleStorageQuery data)
  else do
    let code ← Logged.lift (Invoker.codeOf host target)
    runCode nested .query (invoker.branchQuery target) code data stack

def execWithoutTransfers (target : AccountId) (data : InvokeRequest) (funds : List FungibleAsset)
    (paid : List Payment) (stack : Stack) : Traced InvokeResponse :=
  within (.exec invoker target data funds paid) stack fun stack =>
    if target = runtimeAccountId then handleSystemExec host nested invoker data funds stack
    else if target = storageAccountId then handleStorageExec stack invoker data
    else do
      let code ← Logged.lift (Invoker.codeOf host target)
      runCode nested .execute (invoker.branchExec target funds) code data stack

def transferAsset (target : AccountId) (asset : FungibleAsset) (paid : List Payment)
    (stack : Stack) : Traced Payment := do
  let request ← Logged.ofExcept (InvokeRequest.new (TransferMsg.mk target asset.amount))
  let _ ← execWithoutTransfers host nested invoker asset.assetId request [] paid stack
  pure ⟨invoker.whoami, target, asset⟩

def transferAssets (target : AccountId) (stack : Stack) :
    List FungibleAsset → List Payment → Traced (List Payment)
  | [], paid => pure paid
  | asset :: funds, paid => do
    let payment ← transferAsset host nested invoker target asset paid stack
    transferAssets target stack funds (paid ++ [payment])

def handleTransfers (target : AccountId) (funds : List FungibleAsset) (stack : Stack) :
    Traced (List Payment) :=
  if funds.isEmpty then pure []
  else if target = storageAccountId then Logged.throw errFundsToSystemAccount
  else transferAssets host nested invoker target stack funds []

def doExec (target : AccountId) (data : InvokeRequest) (funds : List FungibleAsset)
    (stack : Stack) : Traced InvokeResponse :=
  if invoker.callDepth ≥ maxCallDepth then Logged.throw errCallDepthExceeded
  else do
    let checkpoint ← Logged.lift Run.checkpoint
    match ← Logged.attempt (handleTransfers host nested invoker target funds stack) with
    | .error transferErr =>
      Logged.lift (Run.restoreCheckpoint checkpoint)
      Logged.throw transferErr
    | .ok paid =>
      match ← Logged.attempt
          (execWithoutTransfers host nested invoker target data funds paid stack) with
      | .error e =>
        Logged.lift (Run.restoreCheckpoint checkpoint)
        Logged.throw e
      | .ok response => pure response

def answer : TracedEnvironment := fun stack invoker op =>
  within (.call invoker op) stack fun stack =>
    match op with
    | .doExec target data funds => doExec host nested invoker target data funds stack
    | .doQuery target data => doQuery host nested invoker target data stack
    | .emitEvent name data => Logged.lift (Invoker.emitEvent invoker name data)
    | .uniqueId => Logged.lift (Invoker.uniqueId invoker)

end

end Traced

def tracedEnvironment (host : Host) : Nat → TracedEnvironment
  | 0 => fun _ _ _ => Logged.outOfFuel
  | fuel + 1 => Traced.answer host (tracedEnvironment host fuel)

/-! ### Without the trace -/

namespace Traced

@[simp] theorem exec_within {α : Type} (activity : Activity) (stack : Stack)
    (body : Stack → Traced α) :
    (within activity stack body).exec = (body (activity :: stack)).exec :=
  rfl

theorem exec_allocateAccount (stack : Stack) (codeId : String) :
    (allocateAccount stack codeId).exec = Invoker.allocateAccount codeId := rfl

theorem exec_claimAccount (stack : Stack) (account : AccountId) (codeId : String) :
    (claimAccount stack account codeId).exec = Invoker.claimAccount account codeId := by
  unfold claimAccount Invoker.claimAccount chargedSet
  simp only [Logged.exec_bind, Logged.exec_observe, bind_assoc]
  rfl

theorem exec_handleStorageExec (stack : Stack) (invoker : Invoker) (request : InvokeRequest) :
    (handleStorageExec stack invoker request).exec = invoker.handleStorageExec request := by
  unfold handleStorageExec Invoker.handleStorageExec chargedSet chargedRemove
  split
  · simp only [Logged.exec_bind, Logged.exec_observe, bind_assoc]
    rfl
  · split
    · simp only [Logged.exec_bind, Logged.exec_observe, bind_assoc]
      rfl
    · rfl

theorem exec_switchCode (host : Host) (stack : Stack) (account : AccountId) (codeId : String) :
    (switchCode host stack account codeId).exec = Invoker.switchCode host account codeId := by
  refine congrArg (getAccountCodeIdentifierForAccount account >>= ·) (funext fun found => ?_)
  cases found with
  | none => rfl
  | some current =>
    refine congrArg (Exec.ofExcept (host.withCode codeId) >>= ·) (funext fun code => ?_)
    dsimp only
    split
    · rfl
    · split <;> rfl

section

variable (host : Host) {nested : TracedEnvironment} {env : Environment}
  (hnested : ∀ stack frame op, (nested stack frame op).exec = env frame op)
include hnested

theorem exec_runLogged_nested {α : Type} (p : Program α) (stack : Stack) (frame : Invoker) :
    (p.runLogged (nested stack frame)).exec = p.run (env frame) := by
  rw [Prog.exec_runLogged]
  exact congrArg p.run (funext (hnested stack frame))

theorem exec_runCode (entry : Entry) (frame : Invoker) (code : AccountCode)
    (request : InvokeRequest) (stack : Stack) :
    (runCode nested entry frame code request stack).exec =
      (entry.program code frame.env request).run (env frame) :=
  exec_runLogged_nested hnested _ _ _

theorem exec_createAccount (invoker : Invoker) (codeId : String) (message : Message)
    (funds : List FungibleAsset) (stack : Stack) :
    (createAccount host nested invoker codeId message funds stack).exec =
      Invoker.createAccount host env invoker codeId message funds := by
  unfold createAccount Invoker.createAccount
  simp only [exec_within, Logged.exec_bind, Logged.exec_ofExcept, exec_allocateAccount,
    Logged.exec_lift, exec_runCode hnested]
  rfl

theorem exec_registerAccountAtId (invoker : Invoker) (account : AccountId) (codeId : String)
    (initMsg : Message) (stack : Stack) :
    (registerAccountAtId host nested invoker account codeId initMsg stack).exec =
      Invoker.registerAccountAtId host env invoker account codeId initMsg := by
  refine congrArg (getAccountCodeIdentifierForAccount account >>= ·) (funext fun found => ?_)
  cases found with
  | some _ => rfl
  | none =>
    simp only [Logged.exec_bind, exec_claimAccount, exec_runCode hnested]
    rfl

theorem exec_migrate (invoker : Invoker) (request : InvokeRequest) (funds : List FungibleAsset)
    (stack : Stack) :
    (migrate host nested invoker request funds stack).exec =
      Invoker.migrate host env invoker request funds := by
  refine congrArg ((Exec.ofExcept request.get : Run MigrateRequest) >>= ·) (funext fun req => ?_)
  dsimp only
  split
  · rfl
  · simp only [Logged.exec_bind, exec_switchCode, hnested]

theorem exec_handleSystemExec (invoker : Invoker) (request : InvokeRequest)
    (funds : List FungibleAsset) (stack : Stack) :
    (handleSystemExec host nested invoker request funds stack).exec =
      Invoker.handleSystemExec host env invoker request funds := by
  unfold handleSystemExec Invoker.handleSystemExec
  split
  · simp only [Logged.exec_bind, exec_createAccount host hnested]
    rfl
  · split
    · simp only [Logged.exec_bind, exec_registerAccountAtId host hnested]
      rfl
    · split
      · exact exec_migrate host hnested _ _ _ _
      · rfl

theorem exec_doQuery (invoker : Invoker) (target : AccountId) (data : InvokeRequest)
    (stack : Stack) :
    (doQuery host nested invoker target data stack).exec =
      Invoker.doQuery host env invoker target data := by
  unfold doQuery Invoker.doQuery
  split
  · rfl
  · split
    · rfl
    · simp only [Logged.exec_bind, exec_runCode hnested]
      rfl

theorem exec_execWithoutTransfers (invoker : Invoker) (target : AccountId) (data : InvokeRequest)
    (funds : List FungibleAsset) (paid : List Payment) (stack : Stack) :
    (execWithoutTransfers host nested invoker target data funds paid stack).exec =
      Invoker.execWithoutTransfers host env invoker target data funds := by
  unfold execWithoutTransfers Invoker.execWithoutTransfers
  rw [exec_within]
  split
  · exact exec_handleSystemExec host hnested _ _ _ _
  · split
    · exact exec_handleStorageExec _ _ _
    · simp only [Logged.exec_bind, exec_runCode hnested]
      rfl

theorem exec_transferAsset (invoker : Invoker) (target : AccountId) (asset : FungibleAsset)
    (paid : List Payment) (stack : Stack) :
    (transferAsset host nested invoker target asset paid stack).exec =
      (do Invoker.transferAsset host env invoker target asset
          pure ⟨invoker.whoami, target, asset⟩) := by
  unfold transferAsset Invoker.transferAsset
  simp only [Logged.exec_bind, exec_execWithoutTransfers host hnested, bind_assoc]
  rfl

theorem exec_transferAssets (invoker : Invoker) (target : AccountId) (stack : Stack)
    (funds : List FungibleAsset) (paid : List Payment) :
    (transferAssets host nested invoker target stack funds paid).exec =
      (do funds.forM (Invoker.transferAsset host env invoker target)
          pure (paid ++ funds.map (Payment.mk invoker.whoami target))) := by
  induction funds generalizing paid with
  | nil => simp [transferAssets]
  | cons asset funds ih =>
    unfold transferAssets
    simp [exec_transferAsset host hnested, ih]

/-- The transfers of a call, and the payments they are. -/
theorem exec_handleTransfers (invoker : Invoker) (target : AccountId) (funds : List FungibleAsset)
    (stack : Stack) :
    (handleTransfers host nested invoker target funds stack).exec =
      (do Invoker.handleTransfers host env invoker target funds
          pure (funds.map (Payment.mk invoker.whoami target))) := by
  unfold handleTransfers Invoker.handleTransfers
  split
  · rename_i h
    rw [List.isEmpty_iff.mp h]
    rfl
  · split
    · rfl
    · exact exec_transferAssets host hnested _ _ _ _ _

theorem exec_doExec (invoker : Invoker) (target : AccountId) (data : InvokeRequest)
    (funds : List FungibleAsset) (stack : Stack) :
    (doExec host nested invoker target data funds stack).exec =
      Invoker.doExec host env invoker target data funds := by
  unfold doExec Invoker.doExec
  split
  · rfl
  · refine congrArg (Run.checkpoint >>= ·) (funext fun checkpoint => ?_)
    rw [Logged.exec_bind, Logged.exec_attempt, exec_handleTransfers host hnested,
      Exec.attempt_bind_pure]
    refine congrArg (Exec.attempt _ >>= ·) (funext fun transferred => ?_)
    cases transferred with
    | error e => rfl
    | ok _ =>
      dsimp only [Except.map]
      rw [Logged.exec_bind, Logged.exec_attempt, exec_execWithoutTransfers host hnested]
      refine congrArg (Exec.attempt _ >>= ·) (funext fun response => ?_)
      cases response <;> rfl

theorem exec_answer (stack : Stack) (invoker : Invoker) (op : EnvOp) :
    (answer host nested stack invoker op).exec = Invoker.answer host env invoker op := by
  cases op with
  | doExec target data funds => exact exec_doExec host hnested _ _ _ _ _
  | doQuery target data => exact exec_doQuery host hnested _ _ _ _
  | emitEvent name data => rfl
  | uniqueId => rfl

end

end Traced

/-- A traced call is the call with a trace. -/
theorem exec_tracedEnvironment (host : Host) (fuel : Nat) (stack : Stack) (frame : Invoker)
    (op : EnvOp) :
    (tracedEnvironment host fuel stack frame op).exec = environment host fuel frame op := by
  induction fuel generalizing stack frame op with
  | zero => rfl
  | succ fuel ih => exact Traced.exec_answer host ih stack frame op

/-! ### Transactions and blocks -/

namespace Traced

variable {Tx Block : Type} [Transaction Tx] (host : Host) (fuel : Nat) (stf : Stf Tx Block)

def runIn {α : Type} (phase : Phase) (frame : Invoker) (p : Env → Program α) : Traced α :=
  within (.phase phase frame) [] fun stack =>
    (p frame.env).runLogged (tracedEnvironment host fuel stack frame)

def resolveSenderPhase (tx : Tx) (block : BlockContext) : Traced AccountId :=
  runIn host fuel .resolveSender (.newForBeginBlock block) (Transaction.resolveSenderAccount tx)

def bootstrapSenderPhase (tx : Tx) (resolvedSender : AccountId) (block : BlockContext) :
    Traced Unit :=
  match Transaction.senderBootstrap tx with
  | none => pure ()
  | some bootstrap => do
    let frame := Invoker.newForBeginBlock block
    within (.phase .bootstrapSender frame) []
      (registerAccountAtId host (tracedEnvironment host fuel) frame resolvedSender
        bootstrap.accountCodeId bootstrap.initMessage)
    runIn host fuel .bootstrapSender frame (Transaction.afterSenderBootstrap tx resolvedSender)
    let _ ← Logged.lift Run.popEvents

def validateTxPhase (tx : Tx) (block : BlockContext) : Traced Unit :=
  runIn host fuel .validateTx (Stf.validationFrame tx block) (stf.validateTx tx)

def executeTxPhase (tx : Tx) (resolvedSender : AccountId) (block : BlockContext) :
    Traced InvokeResponse := do
  let frame := Stf.executionFrame tx resolvedSender block
  let recipient ← runIn host fuel .resolveRecipient frame (Transaction.resolveRecipientAccount tx)
  let response ← Logged.attempt (within (.phase .executeTx frame) [] fun stack =>
    tracedEnvironment host fuel stack frame
      (.doExec recipient (Transaction.request tx) (Transaction.funds tx)))
  let gasUsed ← Logged.lift Run.gasUsed
  runIn host fuel .afterTxExecuted frame (stf.afterTxExecuted tx gasUsed response)
  Logged.ofExcept response

theorem exec_runIn {α : Type} (phase : Phase) (frame : Invoker) (p : Env → Program α) :
    (runIn host fuel phase frame p).exec = Stf.runIn host fuel frame p :=
  exec_runLogged_nested (exec_tracedEnvironment host fuel) _ _ _

theorem exec_bootstrapSenderPhase (tx : Tx) (resolvedSender : AccountId) (block : BlockContext) :
    (bootstrapSenderPhase host fuel tx resolvedSender block).exec =
      Stf.bootstrapSenderPhase host fuel tx resolvedSender block := by
  unfold bootstrapSenderPhase Stf.bootstrapSenderPhase
  cases Transaction.senderBootstrap tx with
  | none => rfl
  | some bootstrap =>
    refine (Logged.exec_bind _ _).trans ?_
    rw [exec_within, exec_registerAccountAtId host (exec_tracedEnvironment host fuel)]
    simp only [Logged.exec_bind, Logged.exec_lift, Logged.exec_pure, exec_runIn]

theorem exec_validateTxPhase (tx : Tx) (block : BlockContext) :
    (validateTxPhase host fuel stf tx block).exec = stf.validateTxPhase host fuel tx block :=
  exec_runIn host fuel _ _ _

theorem exec_executeTxPhase (tx : Tx) (resolvedSender : AccountId) (block : BlockContext) :
    (executeTxPhase host fuel stf tx resolvedSender block).exec =
      stf.executeTxPhase host fuel tx resolvedSender block := by
  unfold executeTxPhase Stf.executeTxPhase
  simp only [Logged.exec_bind, Logged.exec_attempt, exec_within, exec_runIn,
    exec_tracedEnvironment]
  rfl

end Traced

/-- The parts of a block that run code, each in frames of its own. -/
inductive BlockPart (Tx Block : Type) where
  | beginBlock (block : Block) (context : BlockContext)
  | resolveSender (tx : Tx) (context : BlockContext)
  | bootstrapSender (tx : Tx) (resolvedSender : AccountId) (context : BlockContext)
  | validateTx (tx : Tx) (context : BlockContext)
  | executeTx (tx : Tx) (resolvedSender : AccountId) (context : BlockContext)
  | endBlock (context : BlockContext)

abbrev BlockPart.Ans {Tx Block : Type} : BlockPart Tx Block → Type
  | .beginBlock _ _ => Unit
  | .resolveSender _ _ => AccountId
  | .bootstrapSender _ _ _ => Unit
  | .validateTx _ _ => Unit
  | .executeTx _ _ _ => InvokeResponse
  | .endBlock _ => Unit

namespace BlockPart

variable {Tx Block : Type} [Transaction Tx] (host : Host) (fuel : Nat) (stf : Stf Tx Block)

def run : (part : BlockPart Tx Block) → Run part.Ans
  | .beginBlock block context =>
    Stf.runIn host fuel (.newForBeginBlock context) (stf.beginBlock block)
  | .resolveSender tx context => Stf.resolveSenderPhase host fuel tx context
  | .bootstrapSender tx resolvedSender context =>
    Stf.bootstrapSenderPhase host fuel tx resolvedSender context
  | .validateTx tx context => stf.validateTxPhase host fuel tx context
  | .executeTx tx resolvedSender context => stf.executeTxPhase host fuel tx resolvedSender context
  | .endBlock context => Stf.runIn host fuel (.newForEndBlock context) stf.endBlock

def traced : (part : BlockPart Tx Block) → Traced part.Ans
  | .beginBlock block context =>
    Traced.runIn host fuel .beginBlock (.newForBeginBlock context) (stf.beginBlock block)
  | .resolveSender tx context => Traced.resolveSenderPhase host fuel tx context
  | .bootstrapSender tx resolvedSender context =>
    Traced.bootstrapSenderPhase host fuel tx resolvedSender context
  | .validateTx tx context => Traced.validateTxPhase host fuel stf tx context
  | .executeTx tx resolvedSender context =>
    Traced.executeTxPhase host fuel stf tx resolvedSender context
  | .endBlock context => Traced.runIn host fuel .endBlock (.newForEndBlock context) stf.endBlock

theorem exec_traced (part : BlockPart Tx Block) :
    (part.traced host fuel stf).exec = part.run host fuel stf := by
  cases part with
  | beginBlock block context => exact Traced.exec_runIn host fuel _ _ _
  | resolveSender tx context => exact Traced.exec_runIn host fuel _ _ _
  | bootstrapSender tx sender context => exact Traced.exec_bootstrapSenderPhase host fuel _ _ _
  | validateTx tx context => exact Traced.exec_validateTxPhase host fuel stf _ _
  | executeTx tx sender context => exact Traced.exec_executeTxPhase host fuel stf _ _ _
  | endBlock context => exact Traced.exec_runIn host fuel _ _ _

end BlockPart

/-! ### Transactions and blocks with a log of their parts -/

namespace Parts

variable {τ Tx Block : Type}

section

variable (parts : (part : BlockPart Tx Block) → Logged τ World ErrorCode part.Ans)

def admitTx (tx : Tx) (context : BlockContext) : Logged τ World ErrorCode AccountId := do
  let resolvedSender ← parts (.resolveSender tx context)
  parts (.bootstrapSender tx resolvedSender context)
  parts (.validateTx tx context)
  pure resolvedSender

def meteredTx (tx : Tx) (context : BlockContext) : Logged τ World ErrorCode TxResult := do
  match ← Logged.attempt (admitTx parts tx context) with
  | .error err => Logged.lift (Stf.txResult (.error err))
  | .ok resolvedSender =>
    let response ← Logged.attempt (parts (.executeTx tx resolvedSender context))
    Logged.lift (Stf.txResult response)

variable [Transaction Tx] (stf : Stf Tx Block)

def applyTx (tx : Tx) (context : BlockContext) : Logged τ World ErrorCode TxResult := do
  Logged.lift (Run.meter (stf.txGasCounter tx))
  meteredTx parts tx context

def applyTxs (context : BlockContext) (blockGasLimit : UInt64) (total : Nat) :
    List Tx → Stf.Progress Tx → Logged τ World ErrorCode (Stf.Progress Tx)
  | [], p => pure p
  | tx :: txs, p =>
    if saturatingAdd p.cumulativeGas (Transaction.gasLimit tx) > blockGasLimit then
      applyTxs context blockGasLimit total txs p.skip
    else do
      let result ← applyTx parts stf tx context
      let p := p.push tx result
      if p.cumulativeGas ≥ blockGasLimit then pure (p.stop total)
      else applyTxs context blockGasLimit total txs p

variable [BlockTrait Block Tx]

def doBeginBlock (block : Block) : Logged τ World ErrorCode (List Event) := do
  Logged.lift (Run.meter .infinite)
  let _ ← Logged.attempt (parts (.beginBlock block (BlockTrait.context block)))
  Logged.lift Run.popEvents

def doEndBlock (context : BlockContext) : Logged τ World ErrorCode (List Event) := do
  Logged.lift (Run.meter .infinite)
  let _ ← Logged.attempt (parts (.endBlock context))
  Logged.lift Run.popEvents

def applyBlock (block : Block) : Logged τ World ErrorCode (BlockResult × List Tx) := do
  let beginBlockEvents ← doBeginBlock parts block
  let txs := BlockTrait.txs block
  let p ← applyTxs parts stf (BlockTrait.context block) (BlockTrait.gasLimit block) txs.length
    txs Stf.Progress.start
  let endBlockEvents ← doEndBlock parts (BlockTrait.context block)
  pure (⟨beginBlockEvents, p.txResults, endBlockEvents, p.cumulativeGas, p.txsSkipped⟩, p.executed)

end

section

variable [Transaction Tx] {parts : (part : BlockPart Tx Block) → Logged τ World ErrorCode part.Ans}
  {host : Host} {fuel : Nat} {stf : Stf Tx Block}
  (hparts : ∀ part, (parts part).exec = part.run host fuel stf)
include hparts

theorem exec_admitTx (tx : Tx) (context : BlockContext) :
    (admitTx parts tx context).exec = stf.admitTx host fuel tx context := by
  unfold admitTx Stf.admitTx
  simp only [Logged.exec_bind, hparts]
  rfl

theorem exec_meteredTx (tx : Tx) (context : BlockContext) :
    (meteredTx parts tx context).exec = stf.meteredTx host fuel tx context := by
  unfold meteredTx Stf.meteredTx
  rw [Logged.exec_bind, Logged.exec_attempt, exec_admitTx hparts]
  refine congrArg (Exec.attempt _ >>= ·) (funext fun admitted => ?_)
  cases admitted with
  | error err => rfl
  | ok resolvedSender =>
    simp only [Logged.exec_bind, Logged.exec_attempt, hparts]
    rfl

theorem exec_applyTx (tx : Tx) (context : BlockContext) :
    (applyTx parts stf tx context).exec = stf.applyTx host fuel tx context := by
  unfold applyTx Stf.applyTx
  simp only [Logged.exec_bind, exec_meteredTx hparts]
  rfl

theorem exec_applyTxs (context : BlockContext) (blockGasLimit : UInt64) (total : Nat)
    (txs : List Tx) (p : Stf.Progress Tx) :
    (applyTxs parts stf context blockGasLimit total txs p).exec =
      stf.applyTxs host fuel context blockGasLimit total txs p := by
  induction txs generalizing p with
  | nil => rfl
  | cons tx txs ih =>
    unfold applyTxs Stf.applyTxs
    split
    · exact ih _
    · rw [Logged.exec_bind, exec_applyTx hparts]
      refine congrArg (Stf.applyTx host fuel stf tx context >>= ·) (funext fun result => ?_)
      dsimp only
      split
      · rfl
      · exact ih _

/-- A block with a log of its parts is the block. -/
theorem exec_applyBlock [BlockTrait Block Tx] (block : Block) :
    (applyBlock parts stf block).exec = stf.applyBlock host fuel block := by
  unfold applyBlock Stf.applyBlock doBeginBlock doEndBlock
  simp only [Logged.exec_bind, Logged.exec_attempt, hparts, exec_applyTxs hparts]
  rfl

end

/-! ### What is kept -/

section

variable {parts : (part : BlockPart Tx Block) → Logged τ World ErrorCode part.Ans}
  {R : World → List τ → Option World → Prop} (rule : Logged.Composes R)
  (hparts : ∀ part, Logged.Keeps R (parts part))
include rule hparts

theorem keeps_admitTx (tx : Tx) (context : BlockContext) :
    Logged.Keeps R (admitTx parts tx context) := by
  refine rule.keeps_bind (hparts _) fun sender => ?_
  refine rule.keeps_bind (hparts _) fun _ => ?_
  exact rule.keeps_bind (hparts _) fun _ => rule.keeps_pure _

theorem keeps_meteredTx (tx : Tx) (context : BlockContext)
    (hresult : ∀ response, Logged.Keeps R (Logged.lift (Stf.txResult response))) :
    Logged.Keeps R (meteredTx parts tx context) := by
  refine rule.keeps_bind (keeps_admitTx rule hparts tx context).attempt fun admitted => ?_
  cases admitted with
  | error err => exact hresult _
  | ok sender => exact rule.keeps_bind (hparts _).attempt fun response => hresult _

variable (hmeter : ∀ gasCounter, Logged.Keeps R (Logged.lift (Run.meter gasCounter)))
  (hresult : ∀ response, Logged.Keeps R (Logged.lift (Stf.txResult response)))
include hmeter hresult

theorem keeps_applyTxs [Transaction Tx] (stf : Stf Tx Block) (context : BlockContext)
    (blockGasLimit : UInt64) (total : Nat) (txs : List Tx) (p : Stf.Progress Tx) :
    Logged.Keeps R (applyTxs parts stf context blockGasLimit total txs p) := by
  induction txs generalizing p with
  | nil => exact rule.keeps_pure p
  | cons tx txs ih =>
    unfold applyTxs
    split
    · exact ih _
    · refine rule.keeps_bind ?_ fun result => ?_
      · exact rule.keeps_bind (hmeter _) fun _ => keeps_meteredTx rule hparts tx context hresult
      · dsimp only
        split
        · exact rule.keeps_pure _
        · exact ih _

/-- What the parts of a block keep, and what stands between them keeps, the block keeps. -/
theorem keeps_applyBlock [Transaction Tx] [BlockTrait Block Tx]
    (hevents : Logged.Keeps R (Logged.lift Run.popEvents)) (stf : Stf Tx Block) (block : Block) :
    Logged.Keeps R (applyBlock parts stf block) := by
  have hhook : ∀ part : BlockPart Tx Block, Logged.Keeps R (do
      Logged.lift (Run.meter .infinite)
      let _ ← Logged.attempt (parts part)
      Logged.lift Run.popEvents) := fun part =>
    rule.keeps_bind (hmeter _) fun _ => rule.keeps_bind (hparts part).attempt fun _ => hevents
  refine rule.keeps_bind (hhook _) fun beginBlockEvents => ?_
  refine rule.keeps_bind (keeps_applyTxs rule hparts hmeter hresult stf _ _ _ _ _) fun p => ?_
  exact rule.keeps_bind (hhook _) fun endBlockEvents => rule.keeps_pure _

end

end Parts

namespace Traced

variable {Tx Block : Type} [Transaction Tx] (host : Host) (fuel : Nat) (stf : Stf Tx Block)

def meteredTx (tx : Tx) (context : BlockContext) : Traced TxResult :=
  Parts.meteredTx (BlockPart.traced host fuel stf) tx context

def applyTx (tx : Tx) (context : BlockContext) : Traced TxResult :=
  Parts.applyTx (BlockPart.traced host fuel stf) stf tx context

/-- A traced transaction is the transaction with a trace. -/
theorem exec_applyTx (tx : Tx) (context : BlockContext) :
    (applyTx host fuel stf tx context).exec = stf.applyTx host fuel tx context :=
  Parts.exec_applyTx (BlockPart.exec_traced host fuel stf) tx context

end Traced

end Evolve
