import Mathlib
import Evolve.Stf.Environment

/-! The invoker: how the calls of account code are answered.  The functions take the environment
of nested frames as a parameter `nested`; `environment` ties the knot, to any given nesting. -/

namespace Evolve

open Machine Borsh Effects

def maxCallDepth : Nat := 64

abbrev Environment := Handler Invoker World ErrorCode EnvOp.Ans

namespace Invoker

variable (host : Host) (nested : Environment)

def withCode (codeId : String) : Run AccountCode := do
  match ← Exec.ofExcept (host.withCode codeId) with
  | some code => pure code
  | none => Exec.throw errCodeNotFound

def codeOf (account : AccountId) : Run AccountCode := do
  match ← getAccountCodeIdentifierForAccount account with
  | some codeId => withCode host codeId
  | none => Exec.throw errAccountDoesNotExist

/-! ### Accounts -/

def initRequest (message : Message) : InvokeRequest := .newFromMessage "init" 0 message

/-- Assigns the next account number and gives that account its code. -/
def allocateAccount (codeId : String) : Run AccountId := do
  let before ← Exec.read World.storage
  let newAccountId ← nextAccountNumber
  Run.note (.create before newAccountId)
  setAccountCodeIdentifierForAccount newAccountId codeId
  pure newAccountId

variable (invoker : Invoker)

def createAccount (codeId : String) (message : Message) (funds : List FungibleAsset) :
    Run (AccountId × Message) := do
  Exec.ofExcept (validateCodeId host.isAlphanumeric codeId)
  let newAccountId ← allocateAccount codeId
  let code ← codeOf host newAccountId
  let frame := invoker.branchExec newAccountId funds
  let response ← (code.init frame.env (initRequest message)).run (nested frame)
  pure (newAccountId, response.message)

def claimAccount (account : AccountId) (codeId : String) : Run Unit := do
  let before ← Exec.read World.storage
  let message ← Exec.ofExcept (Message.new codeId)
  Run.charge (·.consumeSetGas (accountCodeIdentifierKey account) message)
  Run.set (accountCodeIdentifierKey account) message
  Run.note (.register before account)

def registerAccountAtId (account : AccountId) (codeId : String) (initMsg : Message) : Run Unit := do
  match ← getAccountCodeIdentifierForAccount account with
  | some _ => pure ()
  | none =>
    Exec.ofExcept (validateCodeId host.isAlphanumeric codeId)
    claimAccount account codeId
    let code ← withCode host codeId
    let frame := invoker.branchExec account []
    let _ ← (code.init frame.env (initRequest initMsg)).run (nested frame)

def switchCode (account : AccountId) (newCodeId : String) : Run Unit := do
  match ← getAccountCodeIdentifierForAccount account with
  | none => Exec.throw errAccountDoesNotExist
  | some currentCodeId =>
    let code ← Exec.ofExcept (host.withCode newCodeId)
    if code.isNone then Exec.throw errCodeNotFound
    else if currentCodeId = newCodeId then Exec.throw errSameCodeMigration
    else
      let before ← Exec.read World.storage
      setAccountCodeIdentifierForAccount account newCodeId
      Run.note (.migrate before account)

def migrate (request : InvokeRequest) (funds : List FungibleAsset) : Run InvokeResponse := do
  let frame := invoker.branchExec runtimeAccountId []
  let req : MigrateRequest ← Exec.ofExcept request.get
  if req.accountId ≠ frame.sender then Exec.throw errUnauthorized
  else
    switchCode host req.accountId req.newCodeId
    nested frame (.doExec req.accountId req.executeMessage funds)

/-! ### System accounts -/

def handleSystemExec (request : InvokeRequest) (funds : List FungibleAsset) : Run InvokeResponse :=
  if request.function = InvokableMessage.functionIdentifier CreateAccountRequest then do
    let req : CreateAccountRequest ← Exec.ofExcept request.get
    let (newAccountId, initResponse) ←
      createAccount host nested invoker req.codeId req.initMessage funds
    Exec.ofExcept (InvokeResponse.new (CreateAccountResponse.mk newAccountId initResponse))
  else if request.function = InvokableMessage.functionIdentifier RegisterAccountAtIdRequest then do
    let req : RegisterAccountAtIdRequest ← Exec.ofExcept request.get
    registerAccountAtId host nested invoker req.accountId req.codeId req.initMessage
    Exec.ofExcept (InvokeResponse.new ())
  else if request.function = InvokableMessage.functionIdentifier MigrateRequest then
    migrate host nested invoker request funds
  else Exec.throw errUnknownFunction

def handleSystemQuery : Run InvokeResponse := Exec.throw errUnknownFunction

def accountStorageKey (account : AccountId) (key : Bytes) : Bytes :=
  accountStoragePrefix :: (account.asBytes ++ key)

def handleStorageExec (request : InvokeRequest) : Run InvokeResponse :=
  if request.function = InvokableMessage.functionIdentifier StorageSetRequest then do
    let storageSet : StorageSetRequest ← Exec.ofExcept request.get
    let key := accountStorageKey invoker.whoami storageSet.key
    Run.charge (·.consumeSetGas key storageSet.value)
    Run.set key storageSet.value
    Exec.ofExcept (InvokeResponse.new ())
  else if request.function = InvokableMessage.functionIdentifier StorageRemoveRequest then do
    let storageRemove : StorageRemoveRequest ← Exec.ofExcept request.get
    let key := accountStorageKey invoker.whoami storageRemove.key
    Run.charge (·.consumeRemoveGas key)
    Run.remove key
    Exec.ofExcept (InvokeResponse.new ())
  else Exec.throw errUnknownFunction

def handleStorageQuery (request : InvokeRequest) : Run InvokeResponse :=
  if request.function = InvokableMessage.functionIdentifier StorageGetRequest then do
    let storageGet : StorageGetRequest ← Exec.ofExcept request.get
    let key := accountStorageKey storageGet.accountId storageGet.key
    let value ← Run.get key
    Run.charge (·.consumeGetGas key value)
    Exec.ofExcept (InvokeResponse.new (StorageGetResponse.mk value))
  else Exec.throw errUnknownFunction

/-! ### Calls -/

def doQuery (target : AccountId) (data : InvokeRequest) : Run InvokeResponse :=
  if target = runtimeAccountId then handleSystemQuery
  else if target = storageAccountId then handleStorageQuery data
  else do
    let code ← codeOf host target
    let frame := invoker.branchQuery target
    (QueryProgram.lift (code.query frame.env data)).run (nested frame)

def execWithoutTransfers (target : AccountId) (data : InvokeRequest) (funds : List FungibleAsset) :
    Run InvokeResponse :=
  if target = runtimeAccountId then handleSystemExec host nested invoker data funds
  else if target = storageAccountId then handleStorageExec invoker data
  else do
    let code ← codeOf host target
    let frame := invoker.branchExec target funds
    (code.execute frame.env data).run (nested frame)

def transferAsset (target : AccountId) (asset : FungibleAsset) : Run Unit := do
  let request ← Exec.ofExcept (InvokeRequest.new (TransferMsg.mk target asset.amount))
  let _ ← execWithoutTransfers host nested invoker asset.assetId request []

def handleTransfers (target : AccountId) (funds : List FungibleAsset) : Run Unit :=
  if funds.isEmpty then pure ()
  else if target = storageAccountId then Exec.throw errFundsToSystemAccount
  else funds.forM (transferAsset host nested invoker target)

def doExec (target : AccountId) (data : InvokeRequest) (funds : List FungibleAsset) :
    Run InvokeResponse :=
  if invoker.callDepth ≥ maxCallDepth then Exec.throw errCallDepthExceeded
  else do
    let checkpoint ← Run.checkpoint
    match ← Exec.attempt (handleTransfers host nested invoker target funds) with
    | .error transferErr =>
      Run.restoreCheckpoint checkpoint
      Exec.throw transferErr
    | .ok () =>
      match ← Exec.attempt (execWithoutTransfers host nested invoker target data funds) with
      | .error e =>
        Run.restoreCheckpoint checkpoint
        Exec.throw e
      | .ok response => pure response

def emitEvent (name : String) (data : Bytes) : Run Unit := do
  Exec.ofExcept (validateEvent name data)
  Run.update (·.emitEvent ⟨invoker.whoami, name, data⟩)

def uniqueId : Run (FixedBytes 32) := do
  let counter ← Run.nextUniqueObjectId
  Exec.ofExcept (invoker.scope.uniqueId counter)

/-- The answers of a frame, given those of the frames nested in it. -/
def answer : Environment := fun invoker op =>
  match op with
  | .doExec target data funds => doExec host nested invoker target data funds
  | .doQuery target data => doQuery host nested invoker target data
  | .emitEvent name data => emitEvent invoker name data
  | .uniqueId => uniqueId invoker

end Invoker

/-- The environment of account code, with frames nested at most `fuel` deep. -/
def environment (host : Host) (fuel : Nat) : Environment := Handler.fuel (Invoker.answer host) fuel

end Evolve
