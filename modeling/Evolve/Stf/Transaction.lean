import Mathlib
import Evolve.Stf.CallTree

/-! The state transition function: how one transaction is applied, and how a block is. -/

namespace Evolve

open Machine Borsh Effects

structure SenderBootstrap where
  accountCodeId : String
  initMessage : Message

/-- What the state transition function needs of a transaction.  The resolutions and the hook run
with an environment. -/
class Transaction (Tx : Type) where
  sender : Tx → AccountId
  recipient : Tx → AccountId
  request : Tx → InvokeRequest
  gasLimit : Tx → UInt64
  funds : Tx → List FungibleAsset
  computeIdentifier : Tx → FixedBytes 32
  resolveSenderAccount : Tx → Env → Program AccountId := fun tx _ => pure (sender tx)
  resolveRecipientAccount : Tx → Env → Program AccountId := fun tx _ => pure (recipient tx)
  senderBootstrap : Tx → Option SenderBootstrap := fun _ => none
  afterSenderBootstrap : Tx → AccountId → Env → Program Unit := fun _ _ _ => pure ()

class BlockTrait (Block : Type) (Tx : outParam Type) where
  context : Block → BlockContext
  txs : Block → List Tx
  gasLimit : Block → UInt64 := fun _ => u64Max

structure Stf (Tx Block : Type) where
  beginBlock : Block → Env → Program Unit
  endBlock : Env → Program Unit
  validateTx : Tx → Env → Program Unit
  afterTxExecuted : Tx → UInt64 → SdkResult InvokeResponse → Env → Program Unit
  storageGasConfig : StorageGasConfig

structure TxResult where
  events : List Event
  gasUsed : UInt64
  response : SdkResult InvokeResponse
deriving DecidableEq

structure BlockResult where
  beginBlockEvents : List Event
  txResults : List TxResult
  endBlockEvents : List Event
  gasUsed : UInt64
  txsSkipped : Nat

namespace Run

def popEvents : Run (List Event) := fun w =>
  .done (.ok w.storage.popEvents.1, { w with storage := w.storage.popEvents.2 })

def gasUsed : Run UInt64 := Exec.read fun w => w.gasCounter.gasUsed

def meter (gasCounter : GasCounter) : Run Unit := Exec.modify fun w => { w with gasCounter }

end Run

namespace Stf

variable {Tx Block : Type} [Transaction Tx]
variable (host : Host) (fuel : Nat) (stf : Stf Tx Block)

def runIn {α : Type} (frame : Invoker) (p : Env → Program α) : Run α :=
  (p frame.env).run (environment host fuel frame)

/-! ### Transactions -/

def resolveSenderPhase (tx : Tx) (block : BlockContext) : Run AccountId :=
  runIn host fuel (.newForBeginBlock block) (Transaction.resolveSenderAccount tx)

def bootstrapSenderPhase (tx : Tx) (resolvedSender : AccountId) (block : BlockContext) :
    Run Unit :=
  match Transaction.senderBootstrap tx with
  | none => pure ()
  | some bootstrap => do
    let frame := Invoker.newForBeginBlock block
    Invoker.registerAccountAtId host (environment host fuel) frame resolvedSender
      bootstrap.accountCodeId bootstrap.initMessage
    runIn host fuel frame (Transaction.afterSenderBootstrap tx resolvedSender)
    let _ ← Run.popEvents

def validationFrame (tx : Tx) (block : BlockContext) : Invoker :=
  .newForValidateTx (Transaction.computeIdentifier tx) block

def validateTxPhase (tx : Tx) (block : BlockContext) : Run Unit :=
  runIn host fuel (validationFrame tx block) (stf.validateTx tx)

def executionFrame (tx : Tx) (resolvedSender : AccountId) (block : BlockContext) : Invoker :=
  (validationFrame tx block).intoNewExec resolvedSender

def executeTxPhase (tx : Tx) (resolvedSender : AccountId) (block : BlockContext) :
    Run InvokeResponse := do
  let frame := executionFrame tx resolvedSender block
  let recipient ← runIn host fuel frame (Transaction.resolveRecipientAccount tx)
  let response ← Exec.attempt (environment host fuel frame
    (.doExec recipient (Transaction.request tx) (Transaction.funds tx)))
  let gasUsed ← Run.gasUsed
  runIn host fuel frame (stf.afterTxExecuted tx gasUsed response)
  Exec.ofExcept response

/-- The phases before execution.  Each of them ends the transaction if it fails. -/
def admitTx (tx : Tx) (block : BlockContext) : Run AccountId := do
  let resolvedSender ← resolveSenderPhase host fuel tx block
  bootstrapSenderPhase host fuel tx resolvedSender block
  validateTxPhase host fuel stf tx block
  pure resolvedSender

def txResult (response : SdkResult InvokeResponse) : Run TxResult := do
  let events ← Run.popEvents
  let gasUsed ← Run.gasUsed
  pure ⟨events, gasUsed, response⟩

def txGasCounter (tx : Tx) : GasCounter := .finite (Transaction.gasLimit tx) 0 stf.storageGasConfig

def meteredTx (tx : Tx) (block : BlockContext) : Run TxResult := do
  match ← Exec.attempt (admitTx host fuel stf tx block) with
  | .error err => txResult (.error err)
  | .ok resolvedSender =>
    let response ← Exec.attempt (executeTxPhase host fuel stf tx resolvedSender block)
    txResult response

def applyTx (tx : Tx) (block : BlockContext) : Run TxResult := do
  Run.meter (stf.txGasCounter tx)
  meteredTx host fuel stf tx block

/-! ### Blocks -/

section Blocks

variable [BlockTrait Block Tx]

def doBeginBlock (block : Block) : Run (List Event) := do
  Run.meter .infinite
  let _ ← Exec.attempt (runIn host fuel (.newForBeginBlock (BlockTrait.context block))
    (stf.beginBlock block))
  Run.popEvents

def doEndBlock (block : BlockContext) : Run (List Event) := do
  Run.meter .infinite
  let _ ← Exec.attempt (runIn host fuel (.newForEndBlock block) stf.endBlock)
  Run.popEvents

/-- How far the loop over the transactions of a block has come.  `executed` lists the transactions
that `txResults` are the results of; nothing reads it. -/
structure Progress (Tx : Type) where
  cumulativeGas : UInt64
  txResults : List TxResult
  txsSkipped : Nat
  executed : List Tx

namespace Progress

def start : Progress Tx := ⟨0, [], 0, []⟩

def skip (p : Progress Tx) : Progress Tx := { p with txsSkipped := p.txsSkipped + 1 }

def push (p : Progress Tx) (tx : Tx) (result : TxResult) : Progress Tx :=
  { p with
    cumulativeGas := saturatingAdd p.cumulativeGas result.gasUsed
    txResults := p.txResults ++ [result]
    executed := p.executed ++ [tx] }

def stop (p : Progress Tx) (total : Nat) : Progress Tx :=
  { p with txsSkipped := p.txsSkipped + (total - p.txResults.length) }

end Progress

def applyTxs (block : BlockContext) (blockGasLimit : UInt64) (total : Nat) :
    List Tx → Progress Tx → Run (Progress Tx)
  | [], p => pure p
  | tx :: txs, p =>
    if saturatingAdd p.cumulativeGas (Transaction.gasLimit tx) > blockGasLimit then
      applyTxs block blockGasLimit total txs p.skip
    else do
      let result ← applyTx host fuel stf tx block
      let p := p.push tx result
      if p.cumulativeGas ≥ blockGasLimit then pure (p.stop total)
      else applyTxs block blockGasLimit total txs p

def applyBlock (block : Block) : Run (BlockResult × List Tx) := do
  let beginBlockEvents ← doBeginBlock host fuel stf block
  let txs := BlockTrait.txs block
  let p ← applyTxs host fuel stf (BlockTrait.context block) (BlockTrait.gasLimit block) txs.length
    txs Progress.start
  let endBlockEvents ← doEndBlock host fuel stf (BlockTrait.context block)
  pure (⟨beginBlockEvents, p.txResults, endBlockEvents, p.cumulativeGas, p.txsSkipped⟩, p.executed)

end Blocks

/-! ### What transactions and blocks keep -/

section Keeps

variable {host stf} {R : World → World → Prop} (rule : CallRule host R)
include rule

theorem keeps_runIn {α : Type} (frame : Invoker) (p : Env → Program α) :
    Exec.Keeps R (runIn host fuel frame p) :=
  rule.keeps_run (rule.keeps_call fuel) frame _

theorem keeps_executeTxPhase (tx : Tx) (sender : AccountId) (block : BlockContext) :
    Exec.Keeps R (executeTxPhase host fuel stf tx sender block) := by
  refine rule.keeps_bind (keeps_runIn fuel rule _ _) fun recipient => ?_
  refine rule.keeps_bind (Exec.Keeps.attempt (rule.keeps_call fuel _ _)) fun response => ?_
  refine rule.keeps_bind (Exec.Keeps.read rule.refl _) fun gasUsed => ?_
  exact rule.keeps_bind (keeps_runIn fuel rule _ _) fun _ => rule.keeps_ofExcept _

variable (popEvents : Exec.Keeps R Run.popEvents)
include popEvents

theorem keeps_bootstrapSenderPhase (tx : Tx) (sender : AccountId) (block : BlockContext) :
    Exec.Keeps R (bootstrapSenderPhase host fuel tx sender block) := by
  unfold bootstrapSenderPhase
  split
  · exact rule.keeps_pure _
  · refine rule.keeps_bind (rule.keeps_registerAccountAtId (rule.keeps_call fuel) _ _ _ _) ?_
    intro _
    refine rule.keeps_bind (keeps_runIn fuel rule _ _) fun _ => ?_
    exact rule.keeps_bind popEvents fun _ => rule.keeps_pure _

theorem keeps_admitTx (tx : Tx) (block : BlockContext) :
    Exec.Keeps R (admitTx host fuel stf tx block) := by
  refine rule.keeps_bind (keeps_runIn fuel rule _ _) fun sender => ?_
  refine rule.keeps_bind (keeps_bootstrapSenderPhase fuel rule popEvents tx sender block) ?_
  intro _
  exact rule.keeps_bind (keeps_runIn fuel rule _ _) fun _ => rule.keeps_pure _

theorem keeps_txResult (response : SdkResult InvokeResponse) :
    Exec.Keeps R (txResult response) := by
  refine rule.keeps_bind popEvents fun events => ?_
  exact rule.keeps_bind (Exec.Keeps.read rule.refl _) fun gasUsed => rule.keeps_pure _

theorem keeps_meteredTx (tx : Tx) (block : BlockContext) :
    Exec.Keeps R (meteredTx host fuel stf tx block) := by
  refine rule.keeps_bind (Exec.Keeps.attempt (keeps_admitTx fuel rule popEvents tx block)) ?_
  intro admitted
  cases admitted with
  | error err => exact keeps_txResult rule popEvents _
  | ok sender =>
    refine rule.keeps_bind (Exec.Keeps.attempt (keeps_executeTxPhase fuel rule tx sender block)) ?_
    exact fun response => keeps_txResult rule popEvents response

variable (meter : ∀ gasCounter, Exec.Keeps R (Run.meter gasCounter))
include meter

theorem keeps_applyTx (tx : Tx) (block : BlockContext) :
    Exec.Keeps R (applyTx host fuel stf tx block) :=
  rule.keeps_bind (meter _) fun _ => keeps_meteredTx fuel rule popEvents tx block

theorem keeps_applyTxs (block : BlockContext) (blockGasLimit : UInt64) (total : Nat)
    (txs : List Tx) (p : Progress Tx) :
    Exec.Keeps R (applyTxs host fuel stf block blockGasLimit total txs p) := by
  induction txs generalizing p with
  | nil => exact rule.keeps_pure p
  | cons tx txs ih =>
    unfold applyTxs
    split
    · exact ih _
    · refine rule.keeps_bind (keeps_applyTx fuel rule popEvents meter tx block) fun result => ?_
      dsimp only
      split
      · exact rule.keeps_pure _
      · exact ih _

/-- A relation that calls keep, and that popping events and starting a gas counter keep, holds
across every block. -/
theorem keeps_applyBlock [BlockTrait Block Tx] (block : Block) :
    Exec.Keeps R (applyBlock host fuel stf block) := by
  refine rule.keeps_bind (rule.keeps_bind (meter _) fun _ => ?_) fun beginBlockEvents => ?_
  · exact rule.keeps_bind (Exec.Keeps.attempt (keeps_runIn fuel rule _ _)) fun _ => popEvents
  · refine rule.keeps_bind (keeps_applyTxs fuel rule popEvents meter _ _ _ _ _) fun p => ?_
    refine rule.keeps_bind (rule.keeps_bind (meter _) fun _ => ?_) fun _ => rule.keeps_pure _
    exact rule.keeps_bind (Exec.Keeps.attempt (keeps_runIn fuel rule _ _)) fun _ => popEvents

end Keeps

end Stf

/-! ### Transactions and blocks that are only data -/

structure TestTx where
  sender : AccountId
  recipient : AccountId
  request : InvokeRequest
  gasLimit : UInt64
  funds : List FungibleAsset
  bootstrap : Option SenderBootstrap

instance : Transaction TestTx where
  sender := TestTx.sender
  recipient := TestTx.recipient
  request := TestTx.request
  gasLimit := TestTx.gasLimit
  funds := TestTx.funds
  computeIdentifier _ := FixedBytes.repeatByte 32 0
  senderBootstrap := TestTx.bootstrap

structure TestBlock where
  context : BlockContext
  txs : List TestTx
  gasLimit : UInt64

instance : BlockTrait TestBlock TestTx where
  context := TestBlock.context
  txs := TestBlock.txs
  gasLimit := TestBlock.gasLimit

def testStf : Stf TestTx TestBlock where
  beginBlock _ _ := pure ()
  endBlock _ := pure ()
  validateTx _ _ := pure ()
  afterTxExecuted _ _ _ _ := pure ()
  storageGasConfig := ⟨10, 10, 10⟩

end Evolve
