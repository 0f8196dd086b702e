import Mathlib
import Evolve.Lib.Lockstep
import Evolve.Stf.Trace

/-! The rule for relations between traced computations.  A relation that composing computations
preserves, and that relates each action of the invoker to itself, relates every call of every
account code to itself, however deep, and every part of a block.  A property of single computations
is such a relation as well. -/

namespace Evolve

open Machine Borsh Effects

def EnvOp.isExec : EnvOp → Bool
  | .doExec _ _ _ => true
  | _ => false

/-! ### Calls that are undone if they fail -/

variable {α : Type}

namespace Traced

variable (host : Host) (nested : TracedEnvironment) (invoker : Invoker) (target : AccountId)
  (data : InvokeRequest) (funds : List FungibleAsset) (stack : Stack)

/-- What `doExec` does between its checkpoint and the rollback. -/
def execBody : Traced InvokeResponse := do
  let paid ← handleTransfers host nested invoker target funds stack
  execWithoutTransfers host nested invoker target data funds paid stack

theorem log_restore (checkpoint : Checkpoint) (e : ErrorCode) (w : World) :
    (Logged.lift (Run.restoreCheckpoint checkpoint) >>= fun _ =>
      (Logged.throw e : Traced α)).log w = [] := by
  rw [Logged.log_bind]
  rcases (Logged.lift (Run.restoreCheckpoint checkpoint) : Traced Unit).exec w with
    ⟨⟨_ | _, w'⟩⟩ | _ | _ <;> rfl

theorem log_doExec (hdepth : invoker.callDepth < maxCallDepth) (w : World) :
    (doExec host nested invoker target data funds stack).log w =
      (execBody host nested invoker target data funds stack).log w.checkpointed := by
  unfold doExec execBody
  rw [if_neg (by omega), Logged.log_bind]
  change [] ++ _ = _
  rw [List.nil_append]
  change Logged.log (_ >>= _) w.checkpointed = _
  generalize w.checkpointed = w₀
  rw [Logged.log_bind, Logged.log_bind, Logged.exec_attempt, Exec.attempt]
  refine congrArg ((handleTransfers host nested invoker target funds stack).log w₀ ++ ·) ?_
  rcases (handleTransfers host nested invoker target funds stack).exec w₀ with
    ⟨⟨_ | paid, w₁⟩⟩ | _ | _
  · exact log_restore _ _ _
  · dsimp only
    rw [Logged.log_bind]
    refine Eq.trans ?_ (List.append_nil _)
    refine congrArg ((execWithoutTransfers host nested invoker target data funds paid
      stack).log w₁ ++ ·) ?_
    rw [Logged.exec_attempt, Exec.attempt]
    rcases (execWithoutTransfers host nested invoker target data funds paid stack).exec w₁ with
      ⟨⟨_ | response, w₂⟩⟩ | _ | _
    · exact log_restore _ _ _
    · rfl
    · rfl
    · rfl
  · rfl
  · rfl

def orRollback {α : Type} (m : Traced α) : Traced α :=
  ⟨Run.orRollback m.exec, fun w => m.log w.checkpointed⟩

theorem doExec_eq :
    doExec host nested invoker target data funds stack =
      if invoker.callDepth ≥ maxCallDepth then Logged.throw errCallDepthExceeded
      else orRollback (execBody host nested invoker target data funds stack) := by
  split
  · rename_i hdepth
    exact if_pos hdepth
  · rename_i hdepth
    refine Logged.ext ?_ (funext fun w =>
      log_doExec host nested invoker target data funds stack (Nat.lt_of_not_le hdepth) w)
    refine Eq.trans ?_ (orRollback_bind _ _).symm
    unfold doExec
    rw [if_neg hdepth]
    refine congrArg (Run.checkpoint >>= ·) (funext fun checkpoint => ?_)
    refine congrArg (Exec.attempt _ >>= ·) (funext fun transferred => ?_)
    cases transferred with
    | error e => rfl
    | ok paid =>
      refine congrArg (Exec.attempt _ >>= ·) (funext fun response => ?_)
      cases response <;> rfl

variable {host nested} in
theorem extends_execBody {fuel : Nat}
    (hnested : ∀ stack frame op, (nested stack frame op).exec = environment host fuel frame op) :
    Exec.Keeps (fun w w' => w.storage.Extends w'.storage)
      (execBody host nested invoker target data funds stack).exec := by
  have rule := extends_stepRule.callRule host
  have hcalls := rule.keeps_environment (fun _ _ h => h) fuel
  unfold execBody
  simp only [Logged.exec_bind, exec_handleTransfers host hnested,
    exec_execWithoutTransfers host hnested, bind_assoc, pure_bind]
  exact rule.keeps_bind (rule.keeps_handleTransfers hcalls _ _ _) fun _ =>
    rule.keeps_execWithoutTransfers hcalls _ _ _ _

end Traced

/-! ### Parts of blocks in any environment -/

namespace Traced

variable {Tx Block : Type} [Transaction Tx] (host : Host) (nested : TracedEnvironment)
  (stf : Stf Tx Block)

def runWith {α : Type} (phase : Phase) (frame : Invoker) (p : Env → Program α) : Traced α :=
  within (.phase phase frame) [] fun stack => (p frame.env).runLogged (nested stack frame)

def bootstrapWith (tx : Tx) (resolvedSender : AccountId) (block : BlockContext) : Traced Unit :=
  match Transaction.senderBootstrap tx with
  | none => pure ()
  | some bootstrap => do
    let frame := Invoker.newForBeginBlock block
    within (.phase .bootstrapSender frame) []
      (registerAccountAtId host nested frame resolvedSender bootstrap.accountCodeId
        bootstrap.initMessage)
    runWith nested .bootstrapSender frame (Transaction.afterSenderBootstrap tx resolvedSender)
    let _ ← Logged.lift Run.popEvents

def executeWith (tx : Tx) (resolvedSender : AccountId) (block : BlockContext) :
    Traced InvokeResponse := do
  let frame := Stf.executionFrame tx resolvedSender block
  let recipient ← runWith nested .resolveRecipient frame (Transaction.resolveRecipientAccount tx)
  let response ← Logged.attempt (within (.phase .executeTx frame) [] fun stack =>
    nested stack frame (.doExec recipient (Transaction.request tx) (Transaction.funds tx)))
  let gasUsed ← Logged.lift Run.gasUsed
  runWith nested .afterTxExecuted frame (stf.afterTxExecuted tx gasUsed response)
  Logged.ofExcept response

end Traced

namespace BlockPart

variable {Tx Block : Type} [Transaction Tx]

/-- A part of a block whose calls are answered, and traced, by a given environment. -/
def tracedWith (host : Host) (nested : TracedEnvironment) (stf : Stf Tx Block) :
    (part : BlockPart Tx Block) → Traced part.Ans
  | .beginBlock block context =>
    Traced.runWith nested .beginBlock (.newForBeginBlock context) (stf.beginBlock block)
  | .resolveSender tx context =>
    Traced.runWith nested .resolveSender (.newForBeginBlock context)
      (Transaction.resolveSenderAccount tx)
  | .bootstrapSender tx resolvedSender context =>
    Traced.bootstrapWith host nested tx resolvedSender context
  | .validateTx tx context =>
    Traced.runWith nested .validateTx (Stf.validationFrame tx context) (stf.validateTx tx)
  | .executeTx tx resolvedSender context =>
    Traced.executeWith nested stf tx resolvedSender context
  | .endBlock context =>
    Traced.runWith nested .endBlock (.newForEndBlock context) stf.endBlock

/-- The scope of the frames of a part.  Senders are resolved and bootstrapped in the scope of the
block. -/
def scope : BlockPart Tx Block → ExecutionScope
  | .beginBlock _ context => .beginBlock context.height
  | .resolveSender _ context => .beginBlock context.height
  | .bootstrapSender _ _ context => .beginBlock context.height
  | .validateTx tx _ => .transaction (Transaction.computeIdentifier tx)
  | .executeTx tx _ _ => .transaction (Transaction.computeIdentifier tx)
  | .endBlock context => .endBlock context.height

variable {host : Host} {fuel : Nat} {nested : TracedEnvironment} {stf : Stf Tx Block}

theorem exec_tracedWith
    (hnested : ∀ stack frame op, (nested stack frame op).exec = environment host fuel frame op)
    (part : BlockPart Tx Block) :
    (part.tracedWith host nested stf).exec = part.run host fuel stf := by
  have hrun : ∀ {α : Type} (phase : Phase) (frame : Invoker) (p : Env → Program α),
      (Traced.runWith nested phase frame p).exec = Stf.runIn host fuel frame p :=
    fun _ _ _ => Traced.exec_runLogged_nested hnested _ _ _
  cases part with
  | beginBlock block context => exact hrun _ _ _
  | resolveSender tx context => exact hrun _ _ _
  | bootstrapSender tx sender context =>
    change (Traced.bootstrapWith host nested tx sender context).exec =
      Stf.bootstrapSenderPhase host fuel tx sender context
    unfold Traced.bootstrapWith Stf.bootstrapSenderPhase
    cases Transaction.senderBootstrap tx with
    | none => rfl
    | some bootstrap =>
      refine (Logged.exec_bind _ _).trans ?_
      rw [Traced.exec_within, Traced.exec_registerAccountAtId host hnested]
      simp only [Logged.exec_bind, Logged.exec_lift, Logged.exec_pure, hrun]
  | validateTx tx context => exact hrun _ _ _
  | executeTx tx sender context =>
    change (Traced.executeWith nested stf tx sender context).exec =
      stf.executeTxPhase host fuel tx sender context
    unfold Traced.executeWith Stf.executeTxPhase
    simp only [Logged.exec_bind, Logged.exec_attempt, Logged.exec_lift, Logged.exec_ofExcept,
      Traced.exec_within, hrun, hnested]
  | endBlock context => exact hrun _ _ _

theorem tracedWith_tracedEnvironment (host : Host) (fuel : Nat) (stf : Stf Tx Block)
    (part : BlockPart Tx Block) :
    part.tracedWith host (tracedEnvironment host fuel) stf = part.traced host fuel stf := by
  cases part <;> rfl

end BlockPart

/-! ### The rule -/

/-- Other activities can begin inside it. -/
def Activity.nests : Activity → Bool
  | .call _ (.emitEvent _ _) => false
  | .call _ .uniqueId => false
  | _ => true

/-- A computation that is related to itself. -/
abbrev SelfRelated (P : (α : Type) → Traced α → Traced α → Prop) {α : Type} (m : Traced α) : Prop :=
  P α m m

/-- What a relation must allow for the invoker in frames of the given scopes.  The states that
`history` lists may differ. -/
structure Congruence (Scope : ExecutionScope → Prop)
    (P : (α : Type) → Traced α → Traced α → Prop) : Prop where
  ofExcept : ∀ {α : Type} (r : SdkResult α), SelfRelated P (Logged.ofExcept r)
  bind : ∀ {α β : Type} {m m₂ : Traced α} {f f₂ : α → Traced β}, P α m m₂ →
    (∀ a, P β (f a) (f₂ a)) → P β (m >>= f) (m₂ >>= f₂)
  attempt : ∀ {α : Type} {m m₂ : Traced α}, P α m m₂ →
    P (SdkResult α) (Logged.attempt m) (Logged.attempt m₂)
  begins : ∀ {activity : Activity} (stack : Stack), activity.nests = true →
    SelfRelated P (Logged.mark (.begins (activity :: stack)))
  get : ∀ key, SelfRelated P (Logged.lift (Run.get key))
  charge : ∀ charge size, SelfRelated P (Logged.lift (Run.charge (·.consumeStorageGas charge size)))
  set : ∀ stack key value, SelfRelated P (Traced.set stack key value)
  chargedSet : ∀ stack key value, SelfRelated P (Traced.chargedSet stack key value)
  chargedRemove : ∀ stack key, SelfRelated P (Traced.chargedRemove stack key)
  readStorage : ∀ {α : Type} {f f₂ : ExecutionState → Traced α}, (∀ s s₂, P α (f s) (f₂ s₂)) →
    P α (Logged.lift (Exec.read World.storage) >>= f)
      (Logged.lift (Exec.read World.storage) >>= f₂)
  note : ∀ op op₂, P Unit (Logged.lift (Run.note op)) (Logged.lift (Run.note op₂))
  gasUsed : SelfRelated P (Logged.lift Run.gasUsed)
  emitEvent : ∀ (stack : Stack) (frame : Invoker) (name : String) (data : Bytes),
    SelfRelated P (Traced.within (.call frame (.emitEvent name data)) stack fun _ =>
      Logged.lift (frame.emitEvent name data))
  uniqueId : ∀ (stack : Stack) {frame : Invoker}, Scope frame.scope →
    SelfRelated P (Traced.within (.call frame .uniqueId) stack fun _ => Logged.lift frame.uniqueId)

namespace Congruence

variable {Scope : ExecutionScope → Prop} {P : (α : Type) → Traced α → Traced α → Prop}
  (rule : Congruence Scope P)
include rule

theorem pure (a : α) : SelfRelated P (pure a) := rule.ofExcept (.ok a)

theorem throw (e : ErrorCode) : SelfRelated P (Logged.throw e : Traced α) :=
  rule.ofExcept (.error e)

theorem within {activity : Activity} {stack : Stack} {body : Stack → Traced α}
    (hnests : activity.nests = true) (hbody : SelfRelated P (body (activity :: stack))) :
    SelfRelated P (Traced.within activity stack body) :=
  rule.bind (rule.begins stack hnests) fun _ => hbody

/-! ### Actions that are not traced -/

theorem lift_bind {β : Type} {m : Run α} {f : α → Run β} (hm : SelfRelated P (Logged.lift m))
    (hf : ∀ a, SelfRelated P (Logged.lift (f a))) : SelfRelated P (Logged.lift (m >>= f)) := by
  rw [Logged.lift_bind]
  exact rule.bind hm hf

theorem getAccountCodeIdentifierForAccount (account : AccountId) :
    SelfRelated P (Logged.lift (getAccountCodeIdentifierForAccount account)) := by
  refine rule.lift_bind (rule.get _) fun stored => ?_
  cases stored with
  | none => exact rule.pure _
  | some codeId =>
    dsimp only
    rw [Exec.map_ofExcept]
    exact rule.ofExcept _

theorem withCode (host : Host) (codeId : String) :
    SelfRelated P (Logged.lift (Invoker.withCode host codeId)) := by
  refine rule.lift_bind (rule.ofExcept _) fun code => ?_
  cases code with
  | none => exact rule.throw _
  | some code => exact rule.pure _

theorem codeOf (host : Host) (account : AccountId) :
    SelfRelated P (Logged.lift (Invoker.codeOf host account)) := by
  refine rule.lift_bind (rule.getAccountCodeIdentifierForAccount account) fun codeId => ?_
  cases codeId with
  | none => exact rule.throw _
  | some codeId => exact rule.withCode host codeId

theorem handleStorageQuery (request : InvokeRequest) :
    SelfRelated P (Logged.lift (Invoker.handleStorageQuery request)) := by
  unfold Invoker.handleStorageQuery
  split
  · refine rule.lift_bind (rule.ofExcept _) fun storageGet => ?_
    refine rule.lift_bind (rule.get _) fun value => ?_
    exact rule.lift_bind (rule.charge _ _) fun _ => rule.ofExcept _
  · exact rule.throw _

/-! ### Writes -/

theorem handleStorageExec (stack : Stack) (invoker : Invoker) (request : InvokeRequest) :
    SelfRelated P (Traced.handleStorageExec stack invoker request) := by
  unfold Traced.handleStorageExec
  split
  · refine rule.bind (rule.ofExcept _) fun storageSet => ?_
    exact rule.bind (rule.chargedSet _ _ _) fun _ => rule.ofExcept _
  · split
    · refine rule.bind (rule.ofExcept _) fun storageRemove => ?_
      exact rule.bind (rule.chargedRemove _ _) fun _ => rule.ofExcept _
    · exact rule.throw _

theorem setAccountCodeIdentifierForAccount (stack : Stack) (account : AccountId)
    (codeId : String) :
    SelfRelated P (Traced.setAccountCodeIdentifierForAccount stack account codeId) :=
  rule.bind (rule.ofExcept _) fun _ => rule.set _ _ _

theorem nextAccountNumber (stack : Stack) :
    SelfRelated P (Traced.nextAccountNumber stack) := by
  refine rule.bind (rule.get _) fun stored => ?_
  refine rule.bind (rule.ofExcept _) fun last => ?_
  refine rule.bind (rule.ofExcept _) fun message => ?_
  exact rule.bind (rule.set _ _ _) fun _ => rule.pure _

theorem allocateAccount (stack : Stack) (codeId : String) :
    SelfRelated P (Traced.allocateAccount stack codeId) := by
  refine rule.readStorage fun before before₂ => ?_
  refine rule.bind (rule.nextAccountNumber stack) fun account => ?_
  refine rule.bind (rule.note _ _) fun _ => ?_
  exact rule.bind (rule.setAccountCodeIdentifierForAccount _ _ _) fun _ => rule.pure _

theorem claimAccount (stack : Stack) (account : AccountId) (codeId : String) :
    SelfRelated P (Traced.claimAccount stack account codeId) := by
  refine rule.readStorage fun before before₂ => ?_
  refine rule.bind (rule.ofExcept _) fun message => ?_
  exact rule.bind (rule.chargedSet _ _ _) fun _ => rule.note _ _

theorem switchCode (host : Host) (stack : Stack) (account : AccountId) (codeId : String) :
    SelfRelated P (Traced.switchCode host stack account codeId) := by
  refine rule.bind (rule.getAccountCodeIdentifierForAccount account) fun found => ?_
  cases found with
  | none => exact rule.throw _
  | some current =>
    refine rule.bind (rule.ofExcept _) fun code => ?_
    split
    · exact rule.throw _
    · split
      · exact rule.throw _
      · refine rule.readStorage fun before before₂ => ?_
        exact rule.bind (rule.setAccountCodeIdentifierForAccount _ _ _) fun _ => rule.note _ _

/-! ### Nested frames -/

section Nested

variable {host : Host} {nested : TracedEnvironment}
  (hnested : ∀ (stack : Stack) {frame : Invoker} (op : EnvOp), Scope frame.scope →
    SelfRelated P (nested stack frame op))
include hnested

theorem runLogged {frame : Invoker} (hscope : Scope frame.scope) (p : Program α) (stack : Stack) :
    SelfRelated P (p.runLogged (nested stack frame)) := by
  induction p with
  | ret r => exact rule.ofExcept r
  | call op k ih => exact rule.bind (rule.attempt (hnested stack op hscope)) ih

theorem runCode {frame : Invoker} (hscope : Scope frame.scope) (entry : Entry)
    (code : AccountCode) (request : InvokeRequest) (stack : Stack) :
    SelfRelated P (Traced.runCode nested entry frame code request stack) :=
  rule.within rfl (rule.runLogged hnested hscope _ _)

variable {invoker : Invoker}

theorem createAccount (hscope : Scope invoker.scope) (codeId : String) (message : Message)
    (funds : List FungibleAsset) (stack : Stack) :
    SelfRelated P (Traced.createAccount host nested invoker codeId message funds stack) := by
  refine rule.within rfl (rule.bind (rule.ofExcept _) fun _ => ?_)
  refine rule.bind (rule.allocateAccount _ _) fun account => ?_
  refine rule.bind (rule.codeOf host _) fun code => ?_
  exact rule.bind (rule.runCode hnested (by exact hscope) _ _ _ _) fun _ => rule.pure _

theorem registerAccountAtId (hscope : Scope invoker.scope) (account : AccountId) (codeId : String)
    (initMsg : Message) (stack : Stack) :
    SelfRelated P
      (Traced.registerAccountAtId host nested invoker account codeId initMsg stack) := by
  refine rule.within rfl
    (rule.bind (rule.getAccountCodeIdentifierForAccount account) fun found => ?_)
  cases found with
  | some _ => exact rule.pure _
  | none =>
    refine rule.bind (rule.ofExcept _) fun _ => ?_
    refine rule.bind (rule.claimAccount _ _ _) fun _ => ?_
    refine rule.bind (rule.withCode host codeId) fun code => ?_
    exact rule.bind (rule.runCode hnested (by exact hscope) _ _ _ _) fun _ => rule.pure _

theorem migrate (hscope : Scope invoker.scope) (request : InvokeRequest)
    (funds : List FungibleAsset) (stack : Stack) :
    SelfRelated P (Traced.migrate host nested invoker request funds stack) := by
  refine rule.within rfl (rule.bind (rule.ofExcept _) fun req => ?_)
  split
  · exact rule.throw _
  · exact rule.bind (rule.switchCode host _ _ _) fun _ =>
      hnested _ (.doExec _ _ _) (by exact hscope)

theorem handleSystemExec (hscope : Scope invoker.scope) (request : InvokeRequest)
    (funds : List FungibleAsset) (stack : Stack) :
    SelfRelated P (Traced.handleSystemExec host nested invoker request funds stack) := by
  unfold Traced.handleSystemExec
  split
  · refine rule.bind (rule.ofExcept _) fun req => ?_
    exact rule.bind (rule.createAccount hnested hscope _ _ _ _) fun created => rule.ofExcept _
  · split
    · refine rule.bind (rule.ofExcept _) fun req => ?_
      exact rule.bind (rule.registerAccountAtId hnested hscope _ _ _ _) fun _ => rule.ofExcept _
    · split
      · exact rule.migrate hnested hscope _ _ _
      · exact rule.throw _

theorem execWithoutTransfers (hscope : Scope invoker.scope) (target : AccountId)
    (data : InvokeRequest) (funds : List FungibleAsset) (paid : List Payment) (stack : Stack) :
    SelfRelated P
      (Traced.execWithoutTransfers host nested invoker target data funds paid stack) := by
  refine rule.within rfl ?_
  split
  · exact rule.handleSystemExec hnested hscope _ _ _
  · split
    · exact rule.handleStorageExec _ _ _
    · refine rule.bind (rule.codeOf host _) fun code => ?_
      exact rule.runCode hnested (by exact hscope) _ _ _ _

theorem transferAssets (hscope : Scope invoker.scope) (target : AccountId) (stack : Stack)
    (funds : List FungibleAsset) (paid : List Payment) :
    SelfRelated P (Traced.transferAssets host nested invoker target stack funds paid) := by
  induction funds generalizing paid with
  | nil => exact rule.pure _
  | cons asset funds ih =>
    refine rule.bind (rule.bind (rule.ofExcept _) fun request => ?_) fun payment => ih _
    exact rule.bind (rule.execWithoutTransfers hnested hscope _ _ _ _ _) fun _ => rule.pure _

theorem handleTransfers (hscope : Scope invoker.scope) (target : AccountId)
    (funds : List FungibleAsset) (stack : Stack) :
    SelfRelated P (Traced.handleTransfers host nested invoker target funds stack) := by
  unfold Traced.handleTransfers
  split
  · exact rule.pure _
  · split
    · exact rule.throw _
    · exact rule.transferAssets hnested hscope _ _ _ _

theorem execBody (hscope : Scope invoker.scope) (target : AccountId) (data : InvokeRequest)
    (funds : List FungibleAsset) (stack : Stack) :
    SelfRelated P (Traced.execBody host nested invoker target data funds stack) :=
  rule.bind (rule.handleTransfers hnested hscope _ _ _) fun _ =>
    rule.execWithoutTransfers hnested hscope _ _ _ _ _

theorem doQuery (hscope : Scope invoker.scope) (target : AccountId) (data : InvokeRequest)
    (stack : Stack) : SelfRelated P (Traced.doQuery host nested invoker target data stack) := by
  unfold Traced.doQuery
  split
  · exact rule.throw _
  · split
    · exact rule.handleStorageQuery data
    · refine rule.bind (rule.codeOf host _) fun code => ?_
      exact rule.runCode hnested (by exact hscope) _ _ _ _

/-- The calls that are not undone if they fail. -/
theorem answer {frame : Invoker} (hscope : Scope frame.scope) (stack : Stack) {op : EnvOp}
    (hop : op.isExec = false) :
    SelfRelated P (Traced.answer host nested stack frame op) := by
  cases op with
  | doExec target data funds => cases hop
  | doQuery target data => exact rule.within rfl (rule.doQuery hnested hscope _ _ _)
  | emitEvent name data => exact rule.emitEvent stack frame name data
  | uniqueId => exact rule.uniqueId stack hscope

/-! ### Parts of blocks -/

theorem runWith (phase : Phase) {frame : Invoker} (hscope : Scope frame.scope) (p : Env → Program α)
    :
    SelfRelated P (Traced.runWith nested phase frame p) :=
  rule.within rfl (rule.runLogged hnested hscope _ _)

variable {Tx Block : Type} [Transaction Tx] {stf : Stf Tx Block}

theorem executeWith {tx : Tx}
    (hscope : Scope (.transaction (Transaction.computeIdentifier tx))) (sender : AccountId)
    (context : BlockContext) :
    SelfRelated P (Traced.executeWith nested stf tx sender context) := by
  refine rule.bind (rule.runWith hnested _ (by exact hscope) _) fun recipient => ?_
  refine rule.bind (rule.attempt (rule.within rfl (hnested _ _ (by exact hscope))))
    fun response => ?_
  refine rule.bind rule.gasUsed fun gasUsed => ?_
  exact rule.bind (rule.runWith hnested _ (by exact hscope) _) fun _ => rule.ofExcept _

theorem part (popEvents : SelfRelated P (Logged.lift Run.popEvents))
    (part : BlockPart Tx Block) (hscope : Scope part.scope) :
    SelfRelated P (part.tracedWith host nested stf) := by
  cases part with
  | beginBlock block context => exact rule.runWith hnested _ hscope _
  | resolveSender tx context => exact rule.runWith hnested _ hscope _
  | bootstrapSender tx sender context =>
    change SelfRelated P (Traced.bootstrapWith host nested tx sender context)
    unfold Traced.bootstrapWith
    split
    · exact rule.pure _
    · refine rule.bind (rule.within rfl
        (rule.registerAccountAtId hnested (by exact hscope) _ _ _ _)) fun _ => ?_
      refine rule.bind (rule.runWith hnested _ hscope _) fun _ => ?_
      exact rule.bind popEvents fun _ => rule.pure _
  | validateTx tx context => exact rule.runWith hnested _ hscope _
  | executeTx tx sender context => exact rule.executeWith hnested hscope sender context
  | endBlock context => exact rule.runWith hnested _ hscope _

end Nested

end Congruence

/-! ### Calls and transactions -/

/-- What a relation must allow for calls that are undone if they fail, and for transactions. -/
structure CallCongruence (Scope : ExecutionScope → Prop)
    (P : (α : Type) → Traced α → Traced α → Prop) : Prop extends Congruence Scope P where
  outOfFuel : ∀ {α : Type}, SelfRelated P (Logged.outOfFuel : Traced α)
  orRollback : ∀ {α : Type} {m : Traced α},
    Exec.Keeps (fun w w' => w.storage.Extends w'.storage) m.exec → SelfRelated P m →
    SelfRelated P (Traced.orRollback m)
  popEvents : SelfRelated P (Logged.lift Run.popEvents)

namespace CallCongruence

variable {Scope : ExecutionScope → Prop} {P : (α : Type) → Traced α → Traced α → Prop}
  (rule : CallCongruence Scope P) {host : Host} {fuel : Nat}
include rule

theorem doExec {nested : TracedEnvironment}
    (hexec : ∀ stack frame op, (nested stack frame op).exec = environment host fuel frame op)
    (hnested : ∀ (stack : Stack) {frame : Invoker} (op : EnvOp), Scope frame.scope →
      SelfRelated P (nested stack frame op))
    {invoker : Invoker} (hscope : Scope invoker.scope) (target : AccountId) (data : InvokeRequest)
    (funds : List FungibleAsset) (stack : Stack) :
    SelfRelated P (Traced.doExec host nested invoker target data funds stack) := by
  rw [Traced.doExec_eq]
  split
  · exact rule.throw _
  · exact rule.orRollback (Traced.extends_execBody _ _ _ _ _ hexec)
      (rule.execBody hnested hscope _ _ _ _)

/-- Every call of every account code, however deep, is related to itself. -/
theorem call (stack : Stack) {frame : Invoker} (op : EnvOp) (hscope : Scope frame.scope) :
    SelfRelated P (tracedEnvironment host fuel stack frame op) := by
  induction fuel generalizing stack frame op with
  | zero => exact rule.outOfFuel
  | succ fuel ih =>
    cases hop : op.isExec with
    | false => exact rule.answer ih hscope stack hop
    | true =>
      cases op with
      | doExec target data funds =>
        exact rule.within rfl
          (rule.doExec (exec_tracedEnvironment host fuel) ih hscope target data funds _)
      | doQuery target data => cases hop
      | emitEvent name data => cases hop
      | uniqueId => cases hop

variable {Tx Block : Type} [Transaction Tx] {stf : Stf Tx Block}

theorem part (part : BlockPart Tx Block) (hscope : Scope part.scope) :
    SelfRelated P (part.traced host fuel stf) := by
  rw [← BlockPart.tracedWith_tracedEnvironment]
  exact rule.toCongruence.part rule.call rule.popEvents part hscope

theorem txResult (response : SdkResult InvokeResponse) :
    SelfRelated P (Logged.lift (Stf.txResult response)) :=
  rule.lift_bind rule.popEvents fun _ => rule.lift_bind rule.gasUsed fun _ => rule.pure _

/-- A transaction runs in the scope of the block and in its own. -/
theorem meteredTx {tx : Tx} {context : BlockContext} (hblock : Scope (.beginBlock context.height))
    (htx : Scope (.transaction (Transaction.computeIdentifier tx))) :
    SelfRelated P (Traced.meteredTx host fuel stf tx context) := by
  refine rule.bind (rule.attempt ?_) fun admitted => ?_
  · refine rule.bind (rule.part (.resolveSender tx context) hblock) fun sender => ?_
    refine rule.bind (rule.part (.bootstrapSender tx sender context) hblock) fun _ => ?_
    exact rule.bind (rule.part (.validateTx tx context) htx) fun _ => rule.pure _
  · cases admitted with
    | error err => exact rule.txResult _
    | ok sender =>
      exact rule.bind (rule.attempt (rule.part (.executeTx tx sender context) htx))
        fun response => rule.txResult response

end CallCongruence

/-! ### Two runs of one computation -/

/-- What a coupling must allow for a computation that is undone if it fails. -/
structure UndoRule (C : Coupling Action World) : Prop where
  keep_checkpoint : ∀ {w w' : World}, C.Keep w.checkpointed w' → C.Keep w w'
  before_checkpoint : ∀ {w w₂ w' : World} {l : List Action}, C.Before w w₂ l w' →
    C.Before w.checkpointed w₂.checkpointed l w'
  after_checkpoint : ∀ {w w₂ w' w₂' : World} {l : List Action},
    C.After w.checkpointed w₂.checkpointed l w' w₂' → C.After w w₂ l w' w₂'
  keep_rollback : ∀ {w w' : World}, C.Keep w w' → C.Keep w (w.rollback w')
  before_rollback : ∀ {w w₂ w' : World} {l : List Action}, C.Before w w₂ l (w.rollback w') →
    C.Before w w₂ l w'
  after_rollback : ∀ {w w₂ w' w₂' : World} {l : List Action}, w.storage.Extends w'.storage →
    w₂.storage.Extends w₂'.storage → C.Before w w₂ l (w.rollback w') → C.After w w₂ l w' w₂' →
    C.After w w₂ l (w.rollback w') (w₂.rollback w₂')

theorem UndoRule.couples_orRollback {C : Coupling Action World} (rule : UndoRule C) {m : Traced α}
    (hext : Exec.Keeps (fun w w' => w.storage.Extends w'.storage) m.exec) (hm : C.Couples m m) :
    C.Couples (Traced.orRollback m) (Traced.orRollback m) := by
  intro w r w' h
  rcases orRollback_done hext h with ⟨a, rfl, hok⟩ | ⟨e, w₁, rfl, herror, hgrown, rfl⟩
  · obtain ⟨hkeep, hfollow⟩ := hm hok
    refine ⟨rule.keep_checkpoint hkeep, fun w₂ hbefore => ?_⟩
    obtain ⟨w₂', hok₂, hafter⟩ := hfollow w₂.checkpointed (rule.before_checkpoint hbefore)
    exact ⟨w₂', orRollback_ok hok₂, rule.after_checkpoint hafter⟩
  · obtain ⟨hkeep, hfollow⟩ := hm herror
    refine ⟨rule.keep_rollback (rule.keep_checkpoint hkeep), fun w₂ hbefore => ?_⟩
    obtain ⟨w₂', herror₂, hafter⟩ := hfollow w₂.checkpointed
      (rule.before_checkpoint (rule.before_rollback hbefore))
    have hstart : w₂.storage.Extends w₂.checkpointed.storage := .of_eq rfl rfl rfl rfl
    have hgrown₂ := hstart.trans (Exec.wp_done (hext _) herror₂)
    exact ⟨_, orRollback_error herror₂ hgrown₂,
      rule.after_rollback hgrown hgrown₂ hbefore (rule.after_checkpoint hafter)⟩

end Evolve
