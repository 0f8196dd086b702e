import Mathlib
import Evolve.Stf.Trace

/-! The rule for traces: what can begin inside an activity, and how a relation between the first
world, the trace and the last world that the single activities keep is kept by every call of every
account code, however deep. -/

namespace Evolve

open Machine Borsh Effects

/-! ### Nesting -/

/-- What can begin inside an activity of the invoker, in the same frame or by opening one. -/
inductive Begets : Activity → Activity → Prop
  | transfer {frame : Invoker} {target : AccountId} {data request : InvokeRequest}
      {funds : List FungibleAsset} {asset : FungibleAsset} {paid : List Payment}
      (shallow : frame.callDepth < maxCallDepth) (mem : asset ∈ funds)
      (new : InvokeRequest.new (TransferMsg.mk target asset.amount) = .ok request) :
      Begets (.call frame (.doExec target data funds)) (.exec frame asset.assetId request [] paid)
  | deliver {frame : Invoker} {target : AccountId} {data : InvokeRequest}
      {funds : List FungibleAsset} (shallow : frame.callDepth < maxCallDepth) :
      Begets (.call frame (.doExec target data funds))
        (.exec frame target data funds (funds.map (Payment.mk frame.whoami target)))
  | query {frame : Invoker} {target : AccountId} {data : InvokeRequest} {code : AccountCode}
      (runtime : target ≠ runtimeAccountId) (storage : target ≠ storageAccountId) :
      Begets (.call frame (.doQuery target data))
        (.code .query (frame.branchQuery target) code data)
  | execute {frame : Invoker} {target : AccountId} {data : InvokeRequest}
      {funds : List FungibleAsset} {paid : List Payment} {code : AccountCode}
      (runtime : target ≠ runtimeAccountId) (storage : target ≠ storageAccountId) :
      Begets (.exec frame target data funds paid)
        (.code .execute (frame.branchExec target funds) code data)
  | create {frame : Invoker} {data : InvokeRequest} {funds : List FungibleAsset}
      {paid : List Payment}
      (function : data.function = InvokableMessage.functionIdentifier CreateAccountRequest) :
      Begets (.exec frame runtimeAccountId data funds paid) (.create frame funds)
  | createInit {frame : Invoker} {funds : List FungibleAsset} {account : AccountId}
      {code : AccountCode} {request : InvokeRequest} :
      Begets (.create frame funds) (.code .init (frame.branchExec account funds) code request)
  | register {frame : Invoker} {data : InvokeRequest} {funds : List FungibleAsset}
      {paid : List Payment} {account : AccountId}
      (function : data.function = InvokableMessage.functionIdentifier RegisterAccountAtIdRequest) :
      Begets (.exec frame runtimeAccountId data funds paid) (.register frame account)
  | registerInit {frame : Invoker} {account : AccountId} {code : AccountCode}
      {request : InvokeRequest} :
      Begets (.register frame account) (.code .init (frame.branchExec account []) code request)
  | migrate {frame : Invoker} {data : InvokeRequest} {funds : List FungibleAsset}
      {paid : List Payment}
      (function : data.function = InvokableMessage.functionIdentifier MigrateRequest) :
      Begets (.exec frame runtimeAccountId data funds paid) (.migrate frame funds)

def Activity.executesCode : Activity → Bool
  | .code .execute _ _ _ => true
  | _ => false

/-! ### Operations that write nothing -/

structure World.Silent (w w' : World) : Prop where
  lookup : w'.storage.lookup = w.storage.lookup
  gasCounter : w.gasCounter.Charged w'.gasCounter

namespace World.Silent

theorem refl (w : World) : w.Silent w := ⟨rfl, .refl _⟩

theorem trans {a b c : World} (h₁ : a.Silent b) (h₂ : b.Silent c) : a.Silent c :=
  ⟨h₂.lookup.trans h₁.lookup, h₁.gasCounter.trans h₂.gasCounter⟩

end World.Silent

/-- An operation that always ends, without a panic, and writes nothing. -/
structure SilentOp {α : Type} (m : Run α) : Prop where
  keeps : Exec.Keeps World.Silent m
  halts : Exec.Halts m

namespace SilentOp

variable {α β : Type}

theorem pure (a : α) : SilentOp (pure a : Run α) := ⟨.pure .refl a, .pure a⟩

theorem throw (e : ErrorCode) : SilentOp (Exec.throw e : Run α) := ⟨.throw .refl e, .throw e⟩

theorem ofExcept (r : SdkResult α) : SilentOp (Exec.ofExcept r) := ⟨.ofExcept .refl r, .ofExcept r⟩

theorem read (f : World → α) : SilentOp (Exec.read f : Run α) := ⟨.read .refl f, .read f⟩

theorem bind {m : Run α} {f : α → Run β} (hm : SilentOp m) (hf : ∀ a, SilentOp (f a)) :
    SilentOp (m >>= f) :=
  ⟨hm.keeps.bind (fun _ _ _ => .trans) fun a => (hf a).keeps, hm.halts.bind fun a => (hf a).halts⟩

theorem get (key : Bytes) : SilentOp (Run.get key) := ⟨fun _ => ⟨rfl, .refl _⟩, by rintro _ ⟨⟩⟩

theorem note (op : AccountOp) : SilentOp (Run.note op) := ⟨fun _ => ⟨rfl, .refl _⟩, by rintro _ ⟨⟩⟩

theorem popEvents : SilentOp Run.popEvents := ⟨fun _ => ⟨rfl, .refl _⟩, by rintro _ ⟨⟩⟩

theorem txResult (response : SdkResult InvokeResponse) : SilentOp (Stf.txResult response) :=
  bind popEvents fun _ => bind (read _) fun _ => pure _

theorem checkpoint : SilentOp Run.checkpoint := ⟨fun _ => ⟨rfl, .refl _⟩, by rintro _ ⟨⟩⟩

theorem nextUniqueObjectId : SilentOp Run.nextUniqueObjectId :=
  ⟨fun _ => ⟨rfl, .refl _⟩, by rintro _ ⟨⟩⟩

theorem charge (charge : StorageGasConfig → UInt64) (size : UInt64) :
    SilentOp (Run.charge (·.consumeStorageGas charge size)) := by
  constructor
  · exact fun w => wp_charge (fun _ h => ⟨rfl, GasCounter.consumeStorageGas_charged h⟩)
      fun _ _ => .refl w
  · intro w
    unfold Run.charge
    split <;> rintro ⟨⟩

theorem update {f : ExecutionState → SdkResult ExecutionState}
    (hf : ∀ s s', f s = .ok s' → s'.lookup = s.lookup) : SilentOp (Run.update f) := by
  constructor
  · exact fun w => wp_update (fun s h => ⟨hf _ _ h, .refl _⟩) fun _ _ => .refl w
  · intro w
    unfold Run.update
    split <;> rintro ⟨⟩

theorem getAccountCodeIdentifierForAccount (account : AccountId) :
    SilentOp (getAccountCodeIdentifierForAccount account) := by
  refine bind (get _) fun stored => ?_
  cases stored with
  | none => exact pure _
  | some codeId => exact bind (ofExcept _) fun _ => pure _

theorem withCode (host : Host) (codeId : String) : SilentOp (Invoker.withCode host codeId) := by
  refine bind (ofExcept _) fun code => ?_
  cases code with
  | none => exact throw _
  | some code => exact pure _

theorem codeOf (host : Host) (account : AccountId) : SilentOp (Invoker.codeOf host account) := by
  refine bind (getAccountCodeIdentifierForAccount account) fun codeId => ?_
  cases codeId with
  | none => exact throw _
  | some codeId => exact withCode host codeId

theorem handleStorageQuery (request : InvokeRequest) :
    SilentOp (Invoker.handleStorageQuery request) := by
  unfold Invoker.handleStorageQuery
  split
  · refine bind (ofExcept _) fun storageGet => bind (get _) fun value => ?_
    exact bind (charge _ _) fun _ => ofExcept _
  · exact throw _

theorem emitEvent (invoker : Invoker) (name : String) (data : Bytes) :
    SilentOp (invoker.emitEvent name data) :=
  bind (ofExcept _) fun _ => update fun _ _ => ExecutionState.lookup_emitEvent

theorem uniqueId (invoker : Invoker) : SilentOp invoker.uniqueId :=
  bind nextUniqueObjectId fun _ => ofExcept _

end SilentOp

/-- A relation that operations that write nothing keep. -/
structure SilentRule (R : World → List Action → Option World → Prop) : Prop
    extends Logged.Composes R where
  silent : ∀ w w', w.Silent w' → R w [] (some w')

theorem SilentRule.keeps_lift {R : World → List Action → Option World → Prop} (rule : SilentRule R)
    {α : Type} {m : Run α} (hm : SilentOp m) : Logged.Keeps R (Logged.lift m) :=
  Logged.Keeps.lift rule.silent hm.keeps hm.halts

/-! ### The rule -/

section

variable (host : Host) (Ok : Nat → Stack → Prop) (R : World → List Action → Option World → Prop)

/-- What a set of stacks, which may depend on how many frames can still be nested, and a relation
must allow however the writes are made. -/
structure NestingRule : Prop extends SilentRule R where
  begets : ∀ {fuel : Nat} {a b : Activity} {stack : Stack},
    Ok fuel (a :: stack) → Begets a b → b.executesCode = false → Ok fuel (b :: a :: stack)
  migrated : ∀ {fuel : Nat} {frame : Invoker} {funds : List FungibleAsset} {stack : Stack}
    (message : InvokeRequest), Ok (fuel + 1) (.migrate frame funds :: stack) →
    Ok fuel (.call (frame.branchExec runtimeAccountId []) (.doExec frame.whoami message funds) ::
      .migrate frame funds :: stack)
  exhausted : ∀ {frame : Invoker} {op : EnvOp} {stack : Stack}, Ok 0 (.call frame op :: stack) →
    ∀ w, R w [] none
  begins : ∀ {fuel : Nat} {stack : Stack}, Ok fuel stack → ∀ w, R w [.begins stack w] (some w)
  rollback : ∀ w l w', w.storage.Extends w'.storage → R w l (some w') →
    R w l (some (w.rollback w'))

/-- What must be allowed for the activities of the invoker. -/
structure ActionRule : Prop extends NestingRule Ok R where
  storage : ∀ {fuel frame data funds paid stack},
    Ok fuel (.exec frame storageAccountId data funds paid :: stack) → Logged.Keeps R
      (Traced.handleStorageExec (.exec frame storageAccountId data funds paid :: stack) frame data)
  allocate : ∀ {fuel frame funds stack} (codeId : String), Ok fuel (.create frame funds :: stack) →
    Logged.Keeps R (Traced.allocateAccount (.create frame funds :: stack) codeId)
  claim : ∀ {fuel frame account stack} (codeId : String),
    Ok fuel (.register frame account :: stack) →
    Logged.Keeps R (Traced.claimAccount (.register frame account :: stack) account codeId)
  switch : ∀ {fuel frame funds stack} (codeId : String), Ok fuel (.migrate frame funds :: stack) →
    Logged.Keeps R (Traced.switchCode host (.migrate frame funds :: stack) frame.whoami codeId)

/-- The calls of frames nested at most `fuel` deep keep the relation. -/
def CallsKeep (fuel : Nat) : Prop :=
  ∀ {stack : Stack} {frame : Invoker} {op : EnvOp}, Ok fuel (.call frame op :: stack) →
    Logged.Keeps R (tracedEnvironment host fuel stack frame op)

/-- Finds the code of an account and executes it. -/
def Traced.executeCode (fuel : Nat) (frame : Invoker) (target : AccountId) (data : InvokeRequest)
    (funds : List FungibleAsset) (stack : Stack) : Traced InvokeResponse := do
  let code ← Logged.lift (Invoker.codeOf host target)
  runCode (tracedEnvironment host fuel) .execute (frame.branchExec target funds) code data stack

/-- What must be allowed for account code too. -/
structure TraceRule : Prop extends ActionRule host Ok R where
  run : ∀ {fuel entry frame code request stack}, entry ≠ .execute → CallsKeep host Ok R fuel →
    Ok (fuel + 1) (.code entry frame code request :: stack) →
    Logged.Keeps R (Traced.runCode (tracedEnvironment host fuel) entry frame code request stack)
  execute : ∀ {fuel frame target data funds paid stack}, CallsKeep host Ok R fuel →
    target ≠ runtimeAccountId → target ≠ storageAccountId →
    Ok (fuel + 1) (.exec frame target data funds paid :: stack) → Logged.Keeps R
      (Traced.executeCode host fuel frame target data funds
        (.exec frame target data funds paid :: stack))

end

variable {request : InvokeRequest}

namespace ActionRule

variable {host : Host} {Ok : Nat → Stack → Prop} {R : World → List Action → Option World → Prop}
  (rule : ActionRule host Ok R)
include rule

theorem keeps_within {α : Type} {fuel : Nat} {activity : Activity} {stack : Stack}
    {body : Stack → Traced α} (hok : Ok fuel (activity :: stack))
    (h : Logged.Keeps R (body (activity :: stack))) :
    Logged.Keeps R (Traced.within activity stack body) :=
  rule.keeps_bind (Logged.Keeps.mark (rule.begins hok)) fun _ => h

theorem keeps_runCode {fuel : Nat} (hcalls : CallsKeep host Ok R fuel) {entry : Entry}
    {frame : Invoker} {code : AccountCode} {stack : Stack}
    (hok : Ok (fuel + 1) (.code entry frame code request :: stack))
    (hissue : ∀ op, (entry.program code frame.env request).Calls op →
      Ok fuel (.call frame op :: .code entry frame code request :: stack)) :
    Logged.Keeps R
      (Traced.runCode (tracedEnvironment host fuel) entry frame code request stack) :=
  rule.keeps_within hok <| Prog.keeps_runLogged rule.toComposes _ fun op hop =>
    hcalls (hissue op hop)

/-- Account code that may be executed and may make every call needs no rule of its own. -/
theorem traceRule
    (execute : ∀ {fuel frame target data funds paid code stack},
      target ≠ runtimeAccountId → target ≠ storageAccountId →
      Ok fuel (.exec frame target data funds paid :: stack) →
      Ok fuel (.code .execute (frame.branchExec target funds) code data ::
        .exec frame target data funds paid :: stack))
    (issue : ∀ {fuel entry frame code request op stack},
    Ok (fuel + 1) (.code entry frame code request :: stack) →
    (entry.program code frame.env request).Calls op →
    Ok fuel (.call frame op :: .code entry frame code request :: stack)) :
    TraceRule host Ok R where
  toActionRule := rule
  run _ hcalls hok := rule.keeps_runCode hcalls hok fun _ => issue hok
  execute hcalls hruntime hstorage hok := by
    refine rule.keeps_bind (rule.keeps_lift (.codeOf host _)) fun code => ?_
    refine rule.keeps_runCode hcalls ?_ fun _ => issue ?_ <;>
      exact execute hruntime hstorage hok

end ActionRule

variable {data : InvokeRequest} {paid : List Payment}

namespace TraceRule

variable {host : Host} {Ok : Nat → Stack → Prop} {R : World → List Action → Option World → Prop}
  (rule : TraceRule host Ok R) {fuel : Nat} (hcalls : CallsKeep host Ok R fuel)
include rule hcalls

variable {stack : Stack} {invoker : Invoker} {funds : List FungibleAsset}

theorem keeps_createAccount {codeId : String} {message : Message}
    (hok : Ok (fuel + 1) (.create invoker funds :: stack)) :
    Logged.Keeps R (Traced.createAccount host (tracedEnvironment host fuel) invoker codeId message
      funds stack) := by
  refine rule.keeps_within hok (rule.keeps_bind (rule.keeps_ofExcept _) fun _ => ?_)
  refine rule.keeps_bind (rule.allocate _ hok) fun account => ?_
  refine rule.keeps_bind (rule.keeps_lift (.codeOf host _)) fun code => ?_
  refine rule.keeps_bind (rule.run (by decide) hcalls ?_) fun _ => rule.keeps_pure _
  exact rule.begets hok .createInit rfl

theorem keeps_registerAccountAtId {account : AccountId} {codeId : String} {initMsg : Message}
    (hok : Ok (fuel + 1) (.register invoker account :: stack)) :
    Logged.Keeps R (Traced.registerAccountAtId host (tracedEnvironment host fuel) invoker account
      codeId initMsg stack) := by
  refine rule.keeps_within hok (rule.keeps_bind
    (rule.keeps_lift (.getAccountCodeIdentifierForAccount account)) fun found => ?_)
  cases found with
  | some _ => exact rule.keeps_pure _
  | none =>
    refine rule.keeps_bind (rule.keeps_ofExcept _) fun _ => ?_
    refine rule.keeps_bind (rule.claim _ hok) fun _ => ?_
    refine rule.keeps_bind (rule.keeps_lift (.withCode host _)) fun code => ?_
    refine rule.keeps_bind (rule.run (by decide) hcalls ?_) fun _ => rule.keeps_pure _
    exact rule.begets hok .registerInit rfl

theorem keeps_migrate (hok : Ok (fuel + 1) (.migrate invoker funds :: stack)) :
    Logged.Keeps R (Traced.migrate host (tracedEnvironment host fuel) invoker request funds
      stack) := by
  refine rule.keeps_within hok (rule.keeps_bind (rule.keeps_ofExcept _) fun req => ?_)
  split
  · exact rule.keeps_throw _
  · rename_i hsender
    have haccount : req.accountId = invoker.whoami := not_not.mp hsender
    rw [haccount]
    exact rule.keeps_bind (rule.switch _ hok) fun _ => hcalls (rule.migrated _ hok)

theorem keeps_handleSystemExec
    (hok : Ok (fuel + 1) (.exec invoker runtimeAccountId request funds paid :: stack)) :
    Logged.Keeps R (Traced.handleSystemExec host (tracedEnvironment host fuel) invoker request funds
      (.exec invoker runtimeAccountId request funds paid :: stack)) := by
  unfold Traced.handleSystemExec
  split
  · rename_i hcreate
    refine rule.keeps_bind (rule.keeps_ofExcept _) fun req => ?_
    have hbegun := rule.begets hok (.create hcreate) rfl
    refine rule.keeps_bind (rule.keeps_createAccount hcalls hbegun) ?_
    exact fun created => rule.keeps_ofExcept _
  · split
    · rename_i hregister
      refine rule.keeps_bind (rule.keeps_ofExcept _) fun req => ?_
      refine rule.keeps_bind
        (rule.keeps_registerAccountAtId hcalls (rule.begets hok (.register hregister) rfl)) ?_
      exact fun _ => rule.keeps_ofExcept _
    · split
      · rename_i hmigrate
        exact rule.keeps_migrate hcalls (rule.begets hok (.migrate hmigrate) rfl)
      · exact rule.keeps_throw _

variable {target : AccountId}

theorem keeps_execWithoutTransfers
    (hok : Ok (fuel + 1) (.exec invoker target data funds paid :: stack)) :
    Logged.Keeps R (Traced.execWithoutTransfers host (tracedEnvironment host fuel) invoker target
      data funds paid stack) := by
  refine rule.keeps_within hok ?_
  split
  · rename_i hruntime
    subst hruntime
    exact rule.keeps_handleSystemExec hcalls hok
  · rename_i hruntime
    split
    · rename_i hstorage
      subst hstorage
      exact rule.storage hok
    · rename_i hstorage
      exact rule.execute hcalls hruntime hstorage hok

theorem keeps_doQuery (hok : Ok (fuel + 1) (.call invoker (.doQuery target data) :: stack)) :
    Logged.Keeps R (Traced.doQuery host (tracedEnvironment host fuel) invoker target data
      (.call invoker (.doQuery target data) :: stack)) := by
  unfold Traced.doQuery
  split
  · exact rule.keeps_lift (.throw _)
  · rename_i hruntime
    split
    · exact rule.keeps_lift (.handleStorageQuery data)
    · rename_i hstorage
      refine rule.keeps_bind (rule.keeps_lift (.codeOf host _)) fun code => ?_
      exact rule.run (by decide) hcalls (rule.begets hok (.query hruntime hstorage) rfl)

theorem keeps_transferAssets (hdepth : invoker.callDepth < maxCallDepth)
    (hok : Ok (fuel + 1) (.call invoker (.doExec target data funds) :: stack))
    {rest : List FungibleAsset} (hrest : rest ⊆ funds) :
    Logged.Keeps R (Traced.transferAssets host (tracedEnvironment host fuel) invoker target
      (.call invoker (.doExec target data funds) :: stack) rest paid) := by
  induction rest generalizing paid with
  | nil => exact rule.keeps_pure _
  | cons asset rest ih =>
    obtain ⟨hmem, hrest⟩ := List.cons_subset.mp hrest
    refine rule.keeps_bind (fun w => rule.bind_at (rule.keeps_ofExcept _ w) ?_) fun _ => ih hrest
    intro request w' hrequest
    have hnew : InvokeRequest.new (TransferMsg.mk target asset.amount) = .ok request :=
      congrArg Prod.fst (Outcome.done.inj hrequest)
    have hexec : Ok (fuel + 1) (.exec invoker asset.assetId request [] paid :: _) :=
      rule.begets hok (.transfer hdepth hmem hnew) rfl
    exact rule.keeps_bind (rule.keeps_execWithoutTransfers hcalls hexec)
      (fun _ => rule.keeps_pure _) w'

theorem keeps_handleTransfers (hdepth : invoker.callDepth < maxCallDepth)
    (hok : Ok (fuel + 1) (.call invoker (.doExec target data funds) :: stack)) :
    Logged.Keeps R (Traced.handleTransfers host (tracedEnvironment host fuel) invoker target funds
      (.call invoker (.doExec target data funds) :: stack)) := by
  unfold Traced.handleTransfers
  split
  · exact rule.keeps_pure _
  · split
    · exact rule.keeps_throw _
    · exact rule.keeps_transferAssets hcalls hdepth hok (List.Subset.refl _)

end TraceRule

section Calls

variable (host : Host) (fuel : Nat) (invoker : Invoker) (target : AccountId)
  (funds : List FungibleAsset) (stack : Stack)

theorem extends_environment (invoker : Invoker) (op : EnvOp) :
    Exec.Keeps (fun w w' => w.storage.Extends w'.storage) (environment host fuel invoker op) :=
  (extends_stepRule.callRule host).keeps_environment (fun _ _ h => h) fuel invoker op

theorem handleTransfers_done {w w' : World} {r : SdkResult (List Payment)}
    (h : (Traced.handleTransfers host (tracedEnvironment host fuel) invoker target funds stack).exec
      w = .done (r, w')) :
    w.storage.Extends w'.storage ∧
      ∀ paid, r = .ok paid → paid = funds.map (Payment.mk invoker.whoami target) := by
  have rule := extends_stepRule.callRule host
  have hkeeps := rule.keeps_handleTransfers (extends_environment host fuel) invoker target funds
  rw [Traced.exec_handleTransfers host (exec_tracedEnvironment host fuel)] at h
  rcases Exec.bind_done.mp h with ⟨_, w₁, htransfers, hpure⟩ | ⟨e, htransfers, rfl⟩
  · cases hpure
    exact ⟨Exec.wp_done (hkeeps w) htransfers, by rintro _ ⟨⟩; rfl⟩
  · exact ⟨Exec.wp_done (hkeeps w) htransfers, by rintro _ ⟨⟩⟩

theorem execWithoutTransfers_done {w w' : World} {r : SdkResult InvokeResponse}
    (h : (Traced.execWithoutTransfers host (tracedEnvironment host fuel) invoker target data funds
      paid stack).exec w = .done (r, w')) : w.storage.Extends w'.storage := by
  have rule := extends_stepRule.callRule host
  rw [Traced.exec_execWithoutTransfers host (exec_tracedEnvironment host fuel)] at h
  exact Exec.wp_done (rule.keeps_execWithoutTransfers (extends_environment host fuel) _ _ _ _ w) h

end Calls

/-- A failed part of a call is undone: its world goes back to the one before the call. -/
theorem ActionRule.settle {host : Host} {Ok : Nat → Stack → Prop}
    {R : World → List Action → Option World → Prop} (rule : ActionRule host Ok R) {w w₁ : World}
    {l : List Action} (hext : w.storage.Extends w₁.storage) (h : R w l (some w₁)) (e : ErrorCode) :
    R w (l ++ (Logged.lift (Run.restoreCheckpoint w.storage.checkpoint.1) >>= fun _ =>
        (Logged.throw e : Traced InvokeResponse)).log w₁)
      ((Logged.lift (Run.restoreCheckpoint w.storage.checkpoint.1) >>= fun _ =>
        (Logged.throw e : Traced InvokeResponse)).last w₁) := by
  have hlog : (Logged.lift (Run.restoreCheckpoint w.storage.checkpoint.1) >>= fun _ =>
      (Logged.throw e : Traced InvokeResponse)).log w₁ = [] := by
    rw [Logged.log_bind, Logged.exec_lift, restoreCheckpoint_apply hext]
    rfl
  have hlast : (Logged.lift (Run.restoreCheckpoint w.storage.checkpoint.1) >>= fun _ =>
      (Logged.throw e : Traced InvokeResponse)).last w₁ = some (w.rollback w₁) := by
    rw [Logged.last_bind, Logged.exec_lift, restoreCheckpoint_apply hext]
    rfl
  rw [hlog, hlast, List.append_nil]
  exact rule.rollback w l w₁ hext h

namespace TraceRule

variable {host : Host} {Ok : Nat → Stack → Prop} {R : World → List Action → Option World → Prop}
  (rule : TraceRule host Ok R) {fuel : Nat} (hcalls : CallsKeep host Ok R fuel)
include rule hcalls

theorem keeps_doExec {invoker : Invoker} {target : AccountId} {funds : List FungibleAsset}
    {stack : Stack} (hok : Ok (fuel + 1) (.call invoker (.doExec target data funds) :: stack)) :
    Logged.Keeps R (Traced.doExec host (tracedEnvironment host fuel) invoker target data funds
      (.call invoker (.doExec target data funds) :: stack)) := by
  unfold Traced.doExec
  split
  · exact rule.keeps_throw _
  · rename_i hdepth
    have hdepth : invoker.callDepth < maxCallDepth := Nat.lt_of_not_le hdepth
    intro w
    have hcheck : R w [] (some { w with storage := w.storage.checkpoint.2 }) :=
      rule.silent _ _ ⟨rfl, .refl _⟩
    refine rule.bind_at hcheck ?_
    rintro checkpoint w₀ ⟨⟩
    -- From here on the state before the call is that of the checkpoint, which has its overlay.
    refine rule.bind_from (l := []) (rule.refl _)
      ((rule.keeps_handleTransfers hcalls hdepth hok).attempt _) ?_
    intro transferred w₁ htransfers h₁
    obtain ⟨_, htransfers, ⟨⟩⟩ := Exec.attempt_done.mp htransfers
    obtain ⟨hext₁, hpaid⟩ := handleTransfers_done host fuel invoker target funds _ htransfers
    cases transferred with
    | error e => exact rule.settle hext₁ h₁ e
    | ok paid =>
      obtain rfl := hpaid paid rfl
      refine rule.bind_from h₁ ((rule.keeps_execWithoutTransfers hcalls
        (rule.begets hok (.deliver hdepth) rfl)).attempt _) ?_
      intro response w₂ hexec h₂
      obtain ⟨_, hexec, ⟨⟩⟩ := Exec.attempt_done.mp hexec
      have hext₂ := hext₁.trans (execWithoutTransfers_done host fuel invoker target funds _ hexec)
      cases response with
      | error e => exact rule.settle hext₂ h₂ e
      | ok response =>
        rw [← List.append_nil (_ ++ _)] at h₂
        exact h₂

theorem keeps_answer {invoker : Invoker} {op : EnvOp} {stack : Stack}
    (hok : Ok (fuel + 1) (.call invoker op :: stack)) :
    Logged.Keeps R (Traced.answer host (tracedEnvironment host fuel) stack invoker op) := by
  refine rule.keeps_within hok ?_
  cases op with
  | doExec target data funds => exact rule.keeps_doExec hcalls hok
  | doQuery target data => exact rule.keeps_doQuery hcalls hok
  | emitEvent name data => exact rule.keeps_lift (.emitEvent _ _ _)
  | uniqueId => exact rule.keeps_lift (.uniqueId _)

end TraceRule

theorem TraceRule.keeps_call {host : Host} {Ok : Nat → Stack → Prop}
    {R : World → List Action → Option World → Prop} (rule : TraceRule host Ok R) (fuel : Nat) :
    CallsKeep host Ok R fuel := by
  induction fuel with
  | zero => exact fun hok w => rule.exhausted hok w
  | succ fuel ih => exact fun hok => rule.keeps_answer ih hok

/-! ### Transactions -/

namespace TraceRule

variable {host : Host} {Ok : Nat → Stack → Prop} {R : World → List Action → Option World → Prop}
  (rule : TraceRule host Ok R) {fuel : Nat}
include rule

theorem keeps_runIn {α : Type} {phase : Phase} {frame : Invoker} {p : Env → Program α}
    (hphase : Ok fuel [.phase phase frame])
    (hhook : ∀ op, (p frame.env).Calls op → Ok fuel [.call frame op, .phase phase frame]) :
    Logged.Keeps R (Traced.runIn host fuel phase frame p) :=
  rule.keeps_within hphase <| Prog.keeps_runLogged rule.toComposes _ fun op hop =>
    rule.keeps_call fuel (hhook op hop)

theorem keeps_executeTxPhase {Tx Block : Type} [Transaction Tx] {stf : Stf Tx Block} {tx : Tx}
    {sender : AccountId} {block : BlockContext}
    (hphase : ∀ phase, Ok fuel [.phase phase (Stf.executionFrame tx sender block)])
    (hhook : ∀ phase op, Ok fuel [.call (Stf.executionFrame tx sender block) op,
      .phase phase (Stf.executionFrame tx sender block)]) :
    Logged.Keeps R (Traced.executeTxPhase host fuel stf tx sender block) := by
  refine rule.keeps_bind (rule.keeps_runIn (hphase _) fun _ _ => hhook _ _) fun recipient => ?_
  refine rule.keeps_bind (rule.keeps_within (hphase _)
    (rule.keeps_call fuel (hhook _ _))).attempt fun response => ?_
  refine rule.keeps_bind (rule.keeps_lift (.read _)) fun gasUsed => ?_
  refine rule.keeps_bind (rule.keeps_runIn (hphase _) fun _ _ => hhook _ _) fun _ => ?_
  exact rule.keeps_ofExcept _

end TraceRule

/-- The stacks of every phase are allowed, whatever its frame. -/
structure AllPhases (Ok : Nat → Stack → Prop) (fuel : Nat) : Prop where
  phase : ∀ phase frame, Ok fuel [.phase phase frame]
  hook : ∀ phase frame op, Ok fuel [.call frame op, .phase phase frame]
  register : ∀ phase frame account, Ok (fuel + 1) [.register frame account, .phase phase frame]

namespace TraceRule

variable {host : Host} {Ok : Nat → Stack → Prop} {R : World → List Action → Option World → Prop}
  (rule : TraceRule host Ok R) {fuel : Nat} (phases : AllPhases Ok fuel)
  {Tx Block : Type} [Transaction Tx] {stf : Stf Tx Block}
include rule phases

theorem keeps_phase {α : Type} (phase : Phase) (frame : Invoker) (p : Env → Program α) :
    Logged.Keeps R (Traced.runIn host fuel phase frame p) :=
  rule.keeps_runIn (phases.phase _ _) fun _ _ => phases.hook _ _ _

theorem keeps_bootstrapSenderPhase (tx : Tx) (sender : AccountId) (block : BlockContext) :
    Logged.Keeps R (Traced.bootstrapSenderPhase host fuel tx sender block) := by
  unfold Traced.bootstrapSenderPhase
  split
  · exact rule.keeps_pure _
  · refine rule.keeps_bind (rule.keeps_within (phases.phase _ _)
      (rule.keeps_registerAccountAtId (rule.keeps_call fuel) (phases.register _ _ _))) fun _ => ?_
    refine rule.keeps_bind (rule.keeps_phase phases _ _ _) fun _ => ?_
    exact rule.keeps_bind (rule.keeps_lift .popEvents) fun _ => rule.keeps_pure _

theorem keeps_part (part : BlockPart Tx Block) :
    Logged.Keeps R (part.traced host fuel stf) := by
  cases part with
  | beginBlock block context => exact rule.keeps_phase phases _ _ _
  | resolveSender tx context => exact rule.keeps_phase phases _ _ _
  | bootstrapSender tx sender context => exact rule.keeps_bootstrapSenderPhase phases _ _ _
  | validateTx tx context => exact rule.keeps_phase phases _ _ _
  | executeTx tx sender context =>
    exact rule.keeps_executeTxPhase (fun _ => phases.phase _ _) fun _ _ => phases.hook _ _ _
  | endBlock context => exact rule.keeps_phase phases _ _ _

theorem keeps_meteredTx (tx : Tx) (context : BlockContext) :
    Logged.Keeps R (Traced.meteredTx host fuel stf tx context) :=
  Parts.keeps_meteredTx rule.toComposes (rule.keeps_part phases) tx context
    fun response => rule.keeps_lift (.txResult response)

end TraceRule

end Evolve
