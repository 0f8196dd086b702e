import Mathlib
import Evolve.Lib.Effects
import Evolve.Stf.ExecutionState
import Evolve.Stf.Gas

/-! What account code runs in: the calls it can make, the frame of a call, the world that calls
change, and the checks and runtime records that the calls share. -/

namespace Evolve

open Machine Borsh Effects

def errAccountDoesNotExist : ErrorCode := defineError 0x1
def errCodeNotFound : ErrorCode := defineError 0x2
def errExecInQuery : ErrorCode := defineError 0x3
def errTooManyObjects : ErrorCode := defineError 0x4
def errInvalidCodeId : ErrorCode := defineError 0x5
def errEventNameTooLong : ErrorCode := defineError 0x6
def errEventContentTooLarge : ErrorCode := defineError 0x7
def errSameCodeMigration : ErrorCode := defineError 0x8
def errFundsToSystemAccount : ErrorCode := defineError 0x9
def errCallDepthExceeded : ErrorCode := defineError 0x14

def maxCodeIdLength : Nat := 256
def maxEventNameLength : Nat := 128
def maxEventContentSize : Nat := 64 * 1024

/-! ### Account code -/

inductive EnvOp where
  | doExec (target : AccountId) (data : InvokeRequest) (funds : List FungibleAsset)
  | doQuery (target : AccountId) (data : InvokeRequest)
  | emitEvent (name : String) (data : Bytes)
  | uniqueId

abbrev EnvOp.Ans : EnvOp → Type
  | .doExec _ _ _ => InvokeResponse
  | .doQuery _ _ => InvokeResponse
  | .emitEvent _ _ => Unit
  | .uniqueId => FixedBytes 32

structure QueryOp where
  target : AccountId
  data : InvokeRequest

/-- Code that runs with an `Environment`.  It sees every answer, so it may swallow errors. -/
abbrev Program := Prog EnvOp EnvOp.Ans ErrorCode

abbrev QueryProgram := Prog QueryOp (fun _ => InvokeResponse) ErrorCode

def QueryProgram.lift {α : Type} (p : QueryProgram α) : Program α :=
  p.rename (fun op => .doQuery op.target op.data) fun _ r => r

structure Env where
  whoami : AccountId
  sender : AccountId
  funds : List FungibleAsset
  block : BlockContext

structure AccountCode where
  init : Env → InvokeRequest → Program InvokeResponse
  execute : Env → InvokeRequest → Program InvokeResponse
  query : Env → InvokeRequest → QueryProgram InvokeResponse

/-- What the state transition function is given: the stored account codes, by identifier, and the
Unicode predicate of code identifiers. -/
structure Host where
  withCode : String → SdkResult (Option AccountCode)
  isAlphanumeric : Char → Bool

/-! ### Scopes -/

inductive ExecutionScope where
  | beginBlock (height : UInt64)
  | endBlock (height : UInt64)
  | transaction (txId : FixedBytes 32)
  | query

def maxObjectsPerTransaction : UInt64 := 65535

def blockUniqueId (height objectId : UInt64) : FixedBytes 32 :=
  ⟨beBytes 8 height.toNat ++ beBytes 8 objectId.toNat ++ List.replicate 16 0, by simp⟩

/-- The transaction's identifier with the object number in its last two bytes. -/
def txUniqueId (txId : FixedBytes 32) (objectId : UInt64) : FixedBytes 32 :=
  ⟨txId.bytes.take 30 ++ beBytes 2 objectId.toNat, by simp [txId.length_eq]⟩

def ExecutionScope.uniqueId : ExecutionScope → UInt64 → SdkResult (FixedBytes 32)
  | .beginBlock height, objectId => .ok (blockUniqueId height objectId)
  | .endBlock height, objectId => .ok (blockUniqueId height objectId)
  | .transaction txId, objectId =>
    if objectId > maxObjectsPerTransaction then .error errTooManyObjects
    else .ok (txUniqueId txId objectId)
  | .query, _ => .error errExecInQuery

/-! ### Validation -/

def validateCodeId (isAlphanumeric : Char → Bool) (codeId : String) : SdkResult Unit :=
  if codeId.isEmpty ∨ codeId.utf8ByteSize > maxCodeIdLength then .error errInvalidCodeId
  else if codeId.toList.all fun c => isAlphanumeric c || c == '-' || c == '_' || c == '/' then
    .ok ()
  else .error errInvalidCodeId

def validateEvent (name : String) (contents : Bytes) : SdkResult Unit :=
  if name.utf8ByteSize > maxEventNameLength then .error errEventNameTooLong
  else if contents.length > maxEventContentSize then .error errEventContentTooLarge
  else .ok ()

/-! ### The world -/

/-- One change to which account has which code, with the state just before it. -/
inductive AccountOp where
  | create (before : ExecutionState) (account : AccountId)
  | register (before : ExecutionState) (account : AccountId)
  | migrate (before : ExecutionState) (account : AccountId)

/-- What calls change: the execution state and the gas counter.  `history` lists the account
operations, the newest first, those that were rolled back included; nothing reads it. -/
structure World where
  storage : ExecutionState
  gasCounter : GasCounter
  history : List AccountOp

abbrev Run := Exec World ErrorCode

namespace Run

def get (key : Bytes) : Run (Option Message) := fun w =>
  .done ((w.storage.get key).1, { w with storage := (w.storage.get key).2 })

def update (f : ExecutionState → SdkResult ExecutionState) : Run Unit := fun w =>
  match f w.storage with
  | .ok storage => .done (.ok (), { w with storage })
  | .error e => .done (.error e, w)

def set (key : Bytes) (value : Message) : Run Unit := update (·.set key value)

def remove (key : Bytes) : Run Unit := update (·.remove key)

def charge (f : GasCounter → SdkResult GasCounter) : Run Unit := fun w =>
  match f w.gasCounter with
  | .ok gasCounter => .done (.ok (), { w with gasCounter })
  | .error e => .done (.error e, w)

def nextUniqueObjectId : Run UInt64 := fun w =>
  .done (.ok w.storage.nextUniqueObjectId.1,
    { w with storage := w.storage.nextUniqueObjectId.2 })

def checkpoint : Run Checkpoint := fun w =>
  .done (.ok w.storage.checkpoint.1, { w with storage := w.storage.checkpoint.2 })

/-- Goes back to a checkpoint, and aborts the process if that fails. -/
def restoreCheckpoint (checkpoint : Checkpoint) : Run Unit := fun w =>
  match w.storage.restore checkpoint with
  | .ok storage => .done (.ok (), { w with storage })
  | .error _ => .panic

def note (op : AccountOp) : Run Unit := Exec.modify fun w => { w with history := op :: w.history }

end Run

/-! ### Records of the runtime -/

def initialAccountNumber : UInt64 := 65535

def accountCodeIdentifierKey (account : AccountId) : Bytes :=
  accountIdentifierPrefix :: account.asBytes

def accountNumberKey : Bytes := [accountIdentifierSingletonPrefix]

def getAccountCodeIdentifierForAccount (account : AccountId) : Run (Option String) := do
  match ← Run.get (accountCodeIdentifierKey account) with
  | none => pure none
  | some codeId => some <$> Exec.ofExcept (Message.get codeId)

def setAccountCodeIdentifierForAccount (account : AccountId) (codeId : String) : Run Unit := do
  let message ← Exec.ofExcept (Message.new codeId)
  Run.set (accountCodeIdentifierKey account) message

def accountNumber : Option Message → SdkResult AccountId
  | some message => Message.get message
  | none => .ok (AccountId.fromU64 initialAccountNumber)

def nextAccountNumber : Run AccountId := do
  let stored ← Run.get accountNumberKey
  let last ← Exec.ofExcept (accountNumber stored)
  let message ← Exec.ofExcept (Message.new last.increase)
  Run.set accountNumberKey message
  pure last

/-! ### Frames -/

structure Invoker where
  whoami : AccountId
  sender : AccountId
  funds : List FungibleAsset
  scope : ExecutionScope
  callDepth : Nat
  block : BlockContext

namespace Invoker

variable (invoker : Invoker)

def env : Env :=
  ⟨invoker.whoami, invoker.sender, invoker.funds, invoker.block⟩

def deeper : Nat := min (invoker.callDepth + 1) 65535

def newForBeginBlock (block : BlockContext) : Invoker :=
  ⟨runtimeAccountId, .invalid, [], .beginBlock block.height, 0, block⟩

def newForEndBlock (block : BlockContext) : Invoker :=
  ⟨runtimeAccountId, .invalid, [], .endBlock block.height, 0, block⟩

def newForQueryWithContext (recipient sender : AccountId) (funds : List FungibleAsset)
    (block : BlockContext) : Invoker :=
  ⟨recipient, sender, funds, .query, 0, block⟩

def newForQuery (recipient : AccountId) : Invoker :=
  newForQueryWithContext recipient runtimeAccountId [] ⟨0, 0⟩

def newForValidateTx (txId : FixedBytes 32) (block : BlockContext) : Invoker :=
  ⟨.invalid, runtimeAccountId, [], .transaction txId, 0, block⟩

def branchQuery (whoami : AccountId) : Invoker :=
  { invoker with whoami, sender := runtimeAccountId, funds := [], callDepth := invoker.deeper }

def branchExec (target : AccountId) (funds : List FungibleAsset) : Invoker :=
  { invoker with whoami := target, sender := invoker.whoami, funds, callDepth := invoker.deeper }

def intoNewExec (sender : AccountId) : Invoker :=
  { invoker with whoami := sender, sender := .invalid, funds := [] }

end Invoker

end Evolve
